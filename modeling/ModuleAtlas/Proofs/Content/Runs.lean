import ModuleAtlas.Proofs.Configuration.Classes
import ModuleAtlas.Proofs.Configuration.Closing
import ModuleAtlas.Proofs.Content.Archives

/-! # Runs of calls on readers

Some readers are open, and several of them may read through one runtime image.  A run is any sequence
of calls on the readers, with closings of the image in between.  A closing call closes one handle, and
no other call closes any (`OpenReaders.contains_step`).  So after any calls a reader is closed if one
of them has closed it, and likewise the image (`OpenReaders.closed_run`,
`OpenReaders.imageClosed_run`).

A call that reads is broken off if no buffer can be as long as the entry is said to be
(`EntryReader.read_eq_overlong_iff`).  It leaves a mark at its reader, and marks stay
(`OpenReaders.isMarked_run`).  A mark does not close the reader, which reads and closes as before, but
the reader says that it has been closed.
-/
namespace ModuleAtlas

/-! ## Open readers -/

/-- A reader that has been opened: of a folder, of an archive, or of a module of an opened image. -/
inductive IsOpened (tree : FileTree) (image : RuntimeImage) : EntryReader → Prop where
  /-- A reader of a folder. -/
  | folder {handle : Handle} {root : Path} {r : EntryReader}
    (h : EntryReader.openFolder tree handle root = .ok r) : IsOpened tree image r
  /-- A reader of an archive. -/
  | archive {handle : Handle} {path : Path} {release : Option Nat} {r : EntryReader}
    (h : EntryReader.openArchive tree handle path release = .ok r) : IsOpened tree image r
  /-- A reader of a module of the image. -/
  | module (h : RuntimeImage.openFile tree image.handle image.path = .ok image) (handle : Handle)
    (name : String) : IsOpened tree image (.ofModule handle image name)

namespace IsOpened
variable {tree : FileTree} {image : RuntimeImage} {r : EntryReader}

/-- A reader reads files, or a module of the image. -/
theorem readsFiles_or (h : IsOpened tree image r) :
    r.ReadsFiles ∨ RuntimeImage.openFile tree image.handle image.path = .ok image ∧
      ∃ m, r.content = .module image m := by
  cases h with
  | folder h => exact .inl (EntryReader.openFolder_spec h).2
  | archive h =>
    obtain ⟨bytes, archive, names, -, -, -, rfl⟩ := EntryReader.openArchive_eq_ok_iff.mp h
    exact .inl nofun
  | module h handle name => exact .inr ⟨h, name, rfl⟩

theorem image_eq (h : IsOpened tree image r) {other : RuntimeImage} {m : String}
    (hcontent : r.content = .module other m) : other = image := by
  rcases h.readsFiles_or with hfiles | ⟨-, n, hmodule⟩
  · exact absurd hcontent (hfiles other m)
  · exact (Content.module.inj (hcontent.symm.trans hmodule)).1

end IsOpened

/-- Readers that are open on a file tree.  Those of modules share an image; if there are none, any
image stands for it. -/
structure OpenReaders (tree : FileTree) (ι : Type) where
  /-- The readers. -/
  reader : ι → EntryReader
  /-- The image. -/
  image : RuntimeImage
  /-- Each reader has been opened. -/
  opened : ∀ i, IsOpened tree image (reader i)
  /-- Each reader has a handle of its own. -/
  distinct : ∀ i j, (reader i).handle = (reader j).handle → i = j
  /-- The image has another one. -/
  apart : ∀ i, (reader i).handle ≠ image.handle

/-- A call on one of some readers, or on their image. -/
inductive ReaderCall (ι : Type) where
  /-- Lists the entries. -/
  | entries (i : ι)
  /-- Asks whether there is an entry. -/
  | contains (i : ι) (entry : String)
  /-- Reads an entry. -/
  | read (i : ι) (entry : String)
  /-- Closes a reader. -/
  | close (i : ι)
  /-- Asks whether a reader has been closed. -/
  | isClosed (i : ι)
  /-- Closes the image. -/
  | closeImage
deriving DecidableEq

/-- The reader that a call is on. -/
def ReaderCall.reader? {ι : Type} : ReaderCall ι → Option ι
  | entries i | contains i _ | read i _ | close i | isClosed i => some i
  | closeImage => none

/-- What a call answers. -/
inductive ReaderAnswer where
  /-- Names of entries. -/
  | names (names : List String)
  /-- Yes or no. -/
  | flag (yes : Bool)
  /-- What has been read. -/
  | content (result : Except AtlasError (Option Bytes))

/-! ## Reading -/

theorem RuntimeImage.exists_find?_of_mem {image : RuntimeImage} {m e : String}
    (h : e ∈ image.entries m) : ∃ location, image.find? m e = some location :=
  Option.isSome_iff_exists.mp (contains_iff.mpr h)

theorem RuntimeImage.read_ne_none {image : RuntimeImage} {m e : String} {location : Image.Location}
    (hfind : image.find? m e = some location) (closed : Closed) :
    image.read closed m e ≠ .ok none := by
  intro h
  rw [read, hfind] at h
  dsimp only at h
  split at h
  · cases h
  · split at h
    · cases h
    · obtain ⟨bytes, -, hbytes⟩ := Steps.map_eq_ok_iff.mp h
      cases hbytes

/-- Reading finds nothing exactly for the names that are not listed, whatever has been closed. -/
theorem EntryReader.read_eq_none_iff {r : EntryReader} {tree : FileTree} {closed : Closed}
    {e : String} : r.read tree closed e = .ok none ↔ e ∉ r.entries := by
  refine ⟨fun h hlisted => ?_, fun hmissing => ?_⟩
  · rw [read, contains_iff.mpr hlisted, if_neg (by decide)] at h
    split at h
    · cases h
    · obtain ⟨content, handle⟩ := r
      cases content with
      | archive path archive stored =>
        obtain ⟨name, hname⟩ := OrderedMap.exists_find?_of_mem hlisted
        dsimp only [readListed] at h
        rw [hname] at h
        dsimp only at h
        split at h
        · cases h
        · obtain ⟨bytes, -, hbytes⟩ := Steps.map_eq_ok_iff.mp h
          cases hbytes
      | folder root listing =>
        dsimp only [readListed] at h
        split at h <;> cases h
      | module image name =>
        obtain ⟨location, hlocation⟩ := RuntimeImage.exists_find?_of_mem hlisted
        exact RuntimeImage.read_ne_none hlocation closed (Steps.mapError_eq_ok_iff.mp h)
  · exact read_eq_none_of_not_contains tree closed
      (Bool.eq_false_iff.mpr fun h => hmissing (contains_iff.mp h))

/-- An entry that a reader lists is said to be longer than any buffer.  Of an image this is only
looked at as long as the image is open. -/
def Content.Overlong (content : Content) (imageClosed : Prop) (e : String) : Prop :=
  match content with
  | .archive _ zip stored => ∃ name data, stored.find? e = some name ∧
      zip.locateNamed name = .ok data ∧ Binary.bufferBound ≤ data.size
  | .folder _ _ => False
  | .module image m => ¬ imageClosed ∧
      ∃ location, image.find? m e = some location ∧ location.compressed = 0 ∧
        Binary.bufferBound ≤ location.uncompressed

theorem RuntimeImage.read_eq_overlong_iff {image : RuntimeImage} {m e : String} {closed : Closed} :
    image.read closed m e = .error .overlong ↔
      ¬ closed.contains image.handle = true ∧
        ∃ location, image.find? m e = some location ∧ location.compressed = 0 ∧
          Binary.bufferBound ≤ location.uncompressed := by
  rw [Bool.not_eq_true]
  cases hfind : image.find? m e with
  | none =>
    rw [read, hfind]
    simp
  | some location =>
    simp only [Option.some.injEq, exists_eq_left']
    by_cases hplain : location.compressed = 0
    · rw [(readsAt_startOf hfind hplain).overlong_iff, and_iff_right hplain]
    · rw [read, hfind]
      show (if location.compressed ≠ 0 then _ else _) = _ ↔ _
      rw [if_pos hplain]
      exact iff_of_false (by simp) fun h => hplain h.2.1

theorem AtlasError.ofImage_eq_overlong_iff {path : Path} {cause : ImageError} :
    ofImage path cause = .overlong ↔ cause = .overlong := by
  cases cause <;> simp [ofImage]

namespace EntryReader
variable {r : EntryReader} {tree : FileTree} {closed : Closed} {e : String}

theorem readStored_eq_overlong_iff {path : Path} {data : Zip.Stored} :
    readStored path data = .error .overlong ↔ Binary.bufferBound ≤ data.size := by
  unfold readStored
  split
  · next hlong => exact iff_of_true rfl hlong
  · next hshort =>
    refine iff_of_false (fun h => ?_) hshort
    cases hread : data.read with
    | ok bytes => rw [hread] at h; cases h
    | error cause => rw [hread] at h; cases h

theorem readListed_eq_overlong_iff {content : Content} {imageClosed : Prop}
    (himage : ∀ image m, content = .module image m →
      (closed.contains image.handle = true ↔ imageClosed)) :
    readListed tree closed content e = .error .overlong ↔ content.Overlong imageClosed e := by
  cases content with
  | archive path archive stored =>
    dsimp only [readListed, Content.Overlong]
    cases hname : stored.find? e with
    | none => simp
    | some name =>
      simp only [Option.some.injEq, exists_and_left, exists_eq_left']
      cases hdata : archive.locateNamed name with
      | error cause => simp
      | ok data =>
        simp only [Except.ok.injEq, exists_eq_left', Steps.map_eq_error_iff,
          readStored_eq_overlong_iff]
  | folder root listing =>
    dsimp only [readListed, Content.Overlong]
    exact iff_of_false (by split <;> simp) id
  | module image m =>
    dsimp only [readListed, Content.Overlong]
    rw [Steps.mapError_eq_error_iff, ← himage image m rfl, ← RuntimeImage.read_eq_overlong_iff]
    simp only [AtlasError.ofImage_eq_overlong_iff, exists_eq_right]

/-- Reading is broken off exactly for the listed entries that no buffer can hold, as long as the
reader is not closed. -/
theorem read_eq_overlong_iff {imageClosed : Prop}
    (himage : ∀ image m, r.content = .module image m →
      (closed.contains image.handle = true ↔ imageClosed)) :
    r.read tree closed e = .error .overlong ↔
      e ∈ r.entries ∧ closed.contains r.handle = false ∧ r.content.Overlong imageClosed e := by
  have hlisted : readListed tree closed r.content e = .error .overlong ↔ _ :=
    readListed_eq_overlong_iff himage
  rw [read, ← contains_iff, ← hlisted]
  cases r.contains e with
  | false => simp
  | true =>
    cases closed.contains r.handle with
    | false => simp
    | true => simp

theorem contains_afterRead (h : Handle) :
    (r.afterRead tree closed e).contains h = closed.contains h := by
  unfold afterRead
  split <;> rfl

/-- Reading leaves a mark at the reader if it is broken off. -/
theorem isMarked_afterRead {h : Handle} :
    (r.afterRead tree closed e).isMarked h = true ↔
      (h = r.handle ∧ r.read tree closed e = .error .overlong) ∨ closed.isMarked h = true := by
  unfold afterRead
  split
  · next hread => simp [hread]
  · next hread => exact (or_iff_right fun h => hread h.2).symm

end EntryReader

/-- What reading a resource of an image comes to.  The image holds the content of its file. -/
structure ReadsResource (image : RuntimeImage) (m e : String) (location : Image.Location)
    (imageClosed : Prop) (result : Except AtlasError (Option Bytes)) : Prop where
  /-- A compressed resource is not read, whether the image is open or not. -/
  compressed : location.compressed ≠ 0 →
    result = .error (.image image.path (.compressed ("/" ++ m ++ "/" ++ e)))
  /-- No other resource is read when the image has been closed. -/
  closed : location.compressed = 0 → imageClosed →
    result = .error (.image image.path (.io (.other "runtime image has been closed")))
  /-- Before that it is read, if it lies in the file.  No file is longer than positions can tell. -/
  inside : location.compressed = 0 → ¬ imageClosed →
    image.content.length < Image.maxPosition →
    image.header.indexSize + location.offset + location.uncompressed ≤ image.content.length →
    result = .ok (some ((image.content.drop (image.header.indexSize + location.offset)).take
      location.uncompressed))

theorem readsResource_readListed (tree : FileTree) (closed : Closed) {image : RuntimeImage}
    {m e : String} {location : Image.Location} (hfind : image.find? m e = some location) :
    ReadsResource image m e location (closed.contains image.handle = true)
      (EntryReader.readListed tree closed (.module image m) e) := by
  dsimp only [EntryReader.readListed]
  constructor
  case compressed =>
    intro hcompressed
    rw [RuntimeImage.read, hfind]
    dsimp only
    rw [if_pos hcompressed]
    rfl
  case closed =>
    intro hplain hclosed
    rw [RuntimeImage.read, hfind]
    dsimp only
    rw [if_neg (not_not_intro hplain), if_pos hclosed]
    rfl
  case inside =>
    intro hplain hopen hlimit hinside
    have hbound : Binary.bufferBound = Image.maxPosition := rfl
    have hstart : Image.startOf image.header location =
        image.header.indexSize + location.offset := by
      have hspan : Image.maxPosition < 0x10000000000000000 := by decide
      exact Nat.mod_eq_of_lt (by omega)
    have hread := (RuntimeImage.readsAt_startOf hfind hplain).found_iff closed
    rw [hstart] at hread
    have hlength : ((image.content.drop (image.header.indexSize + location.offset)).take
        location.uncompressed).length = location.uncompressed := by
      rw [List.length_take, List.length_drop]
      omega
    rw [(hread _).mpr ⟨Bool.eq_false_iff.mpr hopen, by omega, by omega, _, rfl,
      List.take_prefix _ _, hlength⟩]
    rfl

theorem Closed.fst_close (closed : Closed) (h : Handle) : (closed.close h).1 = !closed.contains h := by
  unfold close
  cases closed.contains h <;> rfl

namespace OpenReaders
variable {tree : FileTree} {ι : Type} (s : OpenReaders tree ι)

/-- What a call answers, and what has become of the open files afterwards. -/
def step (closed : Closed) : ReaderCall ι → ReaderAnswer × Closed
  | .entries i => (.names (s.reader i).entries, closed)
  | .contains i entry => (.flag ((s.reader i).contains entry), closed)
  | .read i entry =>
    (.content ((s.reader i).read tree closed entry), (s.reader i).afterRead tree closed entry)
  | .close i => ((s.reader i).close closed).map .flag id
  | .isClosed i => (.flag ((s.reader i).isClosed closed), closed)
  | .closeImage => (closed.close s.image.handle).map .flag id

/-- What some calls answer one after the other, and what has become of the open files in the end. -/
def run (closed : Closed) : List (ReaderCall ι) → List ReaderAnswer × Closed
  | [] => ([], closed)
  | call :: calls =>
    let (answer, closed) := s.step closed call
    let (answers, closed) := run closed calls
    (answer :: answers, closed)

/-- What a call answers after some others. -/
def answerAfter (calls : List (ReaderCall ι)) (call : ReaderCall ι) : ReaderAnswer :=
  (s.step (s.run {} calls).2 call).1

/-- The handle that a call closes. -/
def closedBy? : ReaderCall ι → Option Handle
  | .close i => some (s.reader i).handle
  | .closeImage => some s.image.handle
  | _ => none

/-- Among some calls there is one that reads with a reader and is broken off. -/
def BrokenOff (calls : List (ReaderCall ι)) (i : ι) : Prop :=
  ∃ before e after, calls = before ++ .read i e :: after ∧
    s.answerAfter before (.read i e) = .content (.error .overlong)

variable {s}

theorem run_cons (closed : Closed) (call : ReaderCall ι) (calls : List (ReaderCall ι)) :
    s.run closed (call :: calls) =
      ((s.step closed call).1 :: (s.run (s.step closed call).2 calls).1,
        (s.run (s.step closed call).2 calls).2) :=
  rfl

theorem run_append (closed : Closed) (calls more : List (ReaderCall ι)) :
    s.run closed (calls ++ more) =
      ((s.run closed calls).1 ++ (s.run (s.run closed calls).2 more).1,
        (s.run (s.run closed calls).2 more).2) := by
  induction calls generalizing closed with
  | nil => rfl
  | cons call calls ih =>
    rw [List.cons_append, run_cons, run_cons, ih]
    rfl

/-! ## What runs close -/

theorem contains_step (closed : Closed) (call : ReaderCall ι) (h : Handle) :
    (s.step closed call).2.contains h = true ↔
      s.closedBy? call = some h ∨ closed.contains h = true := by
  have hclose : ∀ own : Handle, (closed.close own).2.contains h = true ↔
      some own = some h ∨ closed.contains h = true := by
    intro own
    rw [Closed.contains_close, Bool.or_eq_true, decide_eq_true_iff, Option.some_inj, eq_comm]
  cases call with
  | close i => exact hclose (s.reader i).handle
  | closeImage => exact hclose s.image.handle
  | read i entry => simp [step, closedBy?, EntryReader.contains_afterRead]
  | entries i | contains i entry | isClosed i => simp [step, closedBy?]

theorem contains_run (closed : Closed) (calls : List (ReaderCall ι)) (h : Handle) :
    (s.run closed calls).2.contains h = true ↔
      (∃ call ∈ calls, s.closedBy? call = some h) ∨ closed.contains h = true := by
  induction calls generalizing closed with
  | nil => simp [run]
  | cons call calls ih =>
    rw [run_cons, ih, contains_step, List.exists_mem_cons_iff, or_left_comm, or_assoc]

section
variable [DecidableEq ι]

/-- A reader has been closed after some calls if one of them is its closing. -/
theorem closed_run (calls : List (ReaderCall ι)) (i : ι) :
    (s.run {} calls).2.contains (s.reader i).handle = decide (.close i ∈ calls) := by
  rw [Bool.eq_iff_iff, contains_run, decide_eq_true_iff]
  constructor
  · rintro (⟨call, hcall, he⟩ | h)
    · cases call with
      | close j =>
        obtain rfl := s.distinct j i (Option.some.inj he)
        exact hcall
      | closeImage => exact absurd (Option.some.inj he).symm (s.apart i)
      | entries j | contains j entry | read j entry | isClosed j => cases he
    · cases h
  · exact fun h => .inl ⟨.close i, h, rfl⟩

theorem imageClosed_run (calls : List (ReaderCall ι)) :
    (s.run {} calls).2.contains s.image.handle = decide (.closeImage ∈ calls) := by
  rw [Bool.eq_iff_iff, contains_run, decide_eq_true_iff]
  constructor
  · rintro (⟨call, hcall, he⟩ | h)
    · cases call with
      | close i => exact absurd (Option.some.inj he) (s.apart i)
      | closeImage => exact hcall
      | entries j | contains j entry | read j entry | isClosed j => cases he
    · cases h
  · exact fun h => .inl ⟨.closeImage, h, rfl⟩

end

/-! ## What runs mark -/

/-- A call leaves a mark if it reads and is broken off. -/
theorem isMarked_step (closed : Closed) (call : ReaderCall ι) (i : ι) :
    (s.step closed call).2.isMarked (s.reader i).handle = true ↔
      closed.isMarked (s.reader i).handle = true ∨
        ∃ e, call = .read i e ∧ (s.step closed call).1 = .content (.error .overlong) := by
  cases call with
  | read j e =>
    show ((s.reader j).afterRead tree closed e).isMarked _ = true ↔ _
    rw [EntryReader.isMarked_afterRead, or_comm]
    refine or_congr_right ⟨?_, ?_⟩
    · rintro ⟨he, hread⟩
      obtain rfl := s.distinct i j he
      exact ⟨e, rfl, congrArg ReaderAnswer.content hread⟩
    · rintro ⟨e', hcall, hread⟩
      obtain ⟨rfl, rfl⟩ := ReaderCall.read.inj hcall
      exact ⟨rfl, ReaderAnswer.content.inj hread⟩
  | close j => simp [step, EntryReader.close]
  | entries j | contains j e | isClosed j | closeImage => simp [step]

theorem brokenOff_concat {calls : List (ReaderCall ι)} {call : ReaderCall ι} {i : ι} :
    s.BrokenOff (calls ++ [call]) i ↔ s.BrokenOff calls i ∨
      ∃ e, call = .read i e ∧ s.answerAfter calls call = .content (.error .overlong) := by
  constructor
  · rintro ⟨before, e, after, hcalls, hbroken⟩
    rcases List.eq_nil_or_concat after with rfl | ⟨after, last, rfl⟩
    · obtain ⟨rfl, hlast⟩ := List.append_inj' hcalls rfl
      obtain rfl := List.singleton_inj.mp hlast
      exact .inr ⟨e, rfl, hbroken⟩
    · rw [List.concat_eq_append, ← List.cons_append, ← List.append_assoc] at hcalls
      obtain ⟨rfl, -⟩ := List.append_inj' hcalls rfl
      exact .inl ⟨before, e, after, rfl, hbroken⟩
  · rintro (⟨before, e, after, rfl, hbroken⟩ | ⟨e, rfl, hbroken⟩)
    · exact ⟨before, e, after ++ [call], by simp, hbroken⟩
    · exact ⟨calls, e, [], rfl, hbroken⟩

/-- A reader is marked after some calls if one of them was broken off. -/
theorem isMarked_run (calls : List (ReaderCall ι)) (i : ι) :
    (s.run {} calls).2.isMarked (s.reader i).handle = true ↔ s.BrokenOff calls i := by
  induction calls using List.reverseRecOn with
  | nil =>
    refine iff_of_false nofun ?_
    rintro ⟨before, e, after, hcalls, -⟩
    cases (List.append_eq_nil_iff.mp hcalls.symm).2
  | append_singleton calls call ih =>
    rw [run_append, brokenOff_concat, ← ih]
    exact isMarked_step _ call i

/-! ## What runs answer -/

theorem length_run (closed : Closed) (calls : List (ReaderCall ι)) :
    (s.run closed calls).1.length = calls.length := by
  induction calls generalizing closed with
  | nil => rfl
  | cons call calls ih => exact congrArg Nat.succ (ih (s.step closed call).2)

/-- In a run each call answers as it does after the calls before it. -/
theorem getElem?_run (calls more : List (ReaderCall ι)) (call : ReaderCall ι) :
    (s.run {} (calls ++ call :: more)).1[calls.length]? = some (s.answerAfter calls call) := by
  rw [run_append, List.getElem?_append_right (Nat.le_of_eq (length_run {} calls)), length_run,
    Nat.sub_self]
  rfl

variable [DecidableEq ι]

theorem imageClosed_iff (calls : List (ReaderCall ι)) (i : ι) :
    ∀ image m, (s.reader i).content = .module image m →
      ((s.run {} calls).2.contains image.handle = true ↔ .closeImage ∈ calls) := by
  intro image m hcontent
  rw [(s.opened i).image_eq hcontent, imageClosed_run, decide_eq_true_iff]

/-- What calls answer after some others. -/
structure AnswersAfter (s : OpenReaders tree ι) (calls : List (ReaderCall ι)) : Prop where
  /-- Readers list what they listed at first. -/
  entries : ∀ i, s.answerAfter calls (.entries i) = .names (s.reader i).entries
  /-- They hold what they list. -/
  contains : ∀ i e, s.answerAfter calls (.contains i e) =
    .flag (decide (e ∈ (s.reader i).entries))
  /-- Only the first closing of a reader says yes. -/
  close : ∀ i, s.answerAfter calls (.close i) = .flag (decide (.close i ∉ calls))
  /-- From then on the reader says that it has been closed, and it also does so once a call that reads
  with it has been broken off. -/
  isClosed : ∀ i, ∃ yes, s.answerAfter calls (.isClosed i) = .flag yes ∧
    (yes = true ↔ .close i ∈ calls ∨ s.BrokenOff calls i)
  /-- Only the first closing of the image says yes. -/
  closeImage : s.answerAfter calls .closeImage = .flag (decide (.closeImage ∉ calls))
  /-- Reading finds nothing exactly where nothing is held. -/
  none_iff : ∀ i e, s.answerAfter calls (.read i e) = .content (.ok none) ↔
    s.answerAfter calls (.contains i e) = .flag false
  /-- A closed reader reads nothing that it lists. -/
  closed : ∀ i, .close i ∈ calls → ∀ e ∈ (s.reader i).entries,
    s.answerAfter calls (.read i e) = .content (.error (.closed (s.reader i).path))
  /-- With a reader that has not been closed, a call that reads is broken off exactly for what no
  buffer can hold. -/
  overlong_iff : ∀ i e, s.answerAfter calls (.read i e) = .content (.error .overlong) ↔
    e ∈ (s.reader i).entries ∧ .close i ∉ calls ∧
      (s.reader i).content.Overlong (.closeImage ∈ calls) e
  /-- A reader that has not been closed reads what it read at first.  If it reads a module, this is so
  until the image is closed. -/
  opened : ∀ i, .close i ∉ calls → (s.reader i).ReadsFiles ∨ .closeImage ∉ calls → ∀ e,
    s.answerAfter calls (.read i e) = .content ((s.reader i).read tree {} e)
  /-- A reader of a module that has not been closed reads the resources of the image, which is that of
  a file. -/
  image : ∀ i m, (s.reader i).content = .module s.image m → .close i ∉ calls →
    tree.status s.image.path = .ok (.file s.image.content) ∧
      ∀ e ∈ (s.reader i).entries, ∃ location result, s.image.find? m e = some location ∧
        s.answerAfter calls (.read i e) = .content result ∧
        ReadsResource s.image m e location (.closeImage ∈ calls) result

theorem answersAfter (s : OpenReaders tree ι) (calls : List (ReaderCall ι)) :
    s.AnswersAfter calls := by
  constructor
  case entries => exact fun i => rfl
  case contains => exact fun i e => rfl
  case close =>
    intro i
    show ReaderAnswer.flag (Closed.close _ _).1 = _
    rw [Closed.fst_close, closed_run, decide_not]
  case isClosed =>
    intro i
    refine ⟨_, rfl, ?_⟩
    rw [EntryReader.isClosed, Bool.or_eq_true, closed_run, decide_eq_true_iff, isMarked_run]
  case closeImage =>
    show ReaderAnswer.flag (Closed.close _ _).1 = _
    rw [Closed.fst_close, imageClosed_run, decide_not]
  case none_iff =>
    intro i e
    have hcontains : s.answerAfter calls (.contains i e) = .flag false ↔
        (s.reader i).contains e = false :=
      ⟨ReaderAnswer.flag.inj, congrArg ReaderAnswer.flag⟩
    have hread : (s.reader i).read tree (s.run {} calls).2 e = .ok none ↔
        e ∉ (s.reader i).entries := EntryReader.read_eq_none_iff
    rw [hcontains, Bool.eq_false_iff, ne_eq, EntryReader.contains_iff, ← hread]
    exact ⟨ReaderAnswer.content.inj, congrArg ReaderAnswer.content⟩
  case closed =>
    intro i hclosed e he
    refine congrArg ReaderAnswer.content ?_
    rw [EntryReader.read, EntryReader.contains_iff.mpr he, if_neg (by decide), closed_run,
      decide_eq_true hclosed, if_pos rfl]
  case overlong_iff =>
    intro i e
    have hread : (s.reader i).read tree (s.run {} calls).2 e = .error .overlong ↔ _ :=
      EntryReader.read_eq_overlong_iff (imageClosed_iff calls i)
    rw [closed_run, decide_eq_false_iff_not] at hread
    rw [← hread]
    exact ⟨ReaderAnswer.content.inj, congrArg ReaderAnswer.content⟩
  case opened =>
    intro i hopen himage e
    refine congrArg ReaderAnswer.content (EntryReader.read_congr ?_ ?_ e)
    · rw [closed_run, decide_eq_false hopen]
      rfl
    · intro image m hcontent
      have hnotFiles : ¬ (s.reader i).ReadsFiles := fun hfiles => hfiles image m hcontent
      rw [(s.opened i).image_eq hcontent, imageClosed_run,
        decide_eq_false (himage.resolve_left hnotFiles)]
      rfl
  case image =>
    intro i m hcontent hopen
    obtain ⟨hfile, -⟩ :=
      (s.opened i).readsFiles_or.resolve_left fun hfiles => hfiles s.image m hcontent
    refine ⟨(RuntimeImage.isIndexOf_of_openFile hfile).1, fun e he => ?_⟩
    have hentries : (s.reader i).entries = s.image.entries m := by
      rw [EntryReader.entries, hcontent]
    obtain ⟨location, hlocation⟩ := RuntimeImage.exists_find?_of_mem (hentries ▸ he)
    refine ⟨location, _, hlocation, rfl, ?_⟩
    rw [EntryReader.read, EntryReader.contains_iff.mpr he, if_neg (by decide), closed_run,
      decide_eq_false hopen, if_neg (by decide), hcontent]
    have hreads := readsResource_readListed tree (s.run {} calls).2 hlocation
    rwa [imageClosed_run, decide_eq_true_iff] at hreads

/-! ## What closing leaves alone -/

/-- Two states of the open files differ at one handle at most. -/
def SameBut (h : Handle) (closed closed' : Closed) : Prop :=
  ∀ other, other ≠ h → closed'.contains other = closed.contains other ∧
    closed'.isMarked other = closed.isMarked other

section
omit [DecidableEq ι]
variable {i : ι} {closed closed' : Closed}

theorem sameBut_close (closed : Closed) (h : Handle) : SameBut h closed (closed.close h).2 := by
  intro other hother
  rw [Closed.contains_close, decide_eq_false hother, Bool.false_or, Closed.isMarked_close]
  exact ⟨rfl, rfl⟩

theorem SameBut.close {h : Handle} (hsame : SameBut h closed closed') (own : Handle) :
    SameBut h (closed.close own).2 (closed'.close own).2 := by
  intro other hother
  rw [Closed.contains_close, Closed.contains_close, Closed.isMarked_close, Closed.isMarked_close,
    (hsame other hother).1]
  exact ⟨rfl, (hsame other hother).2⟩

variable (hsame : SameBut (s.reader i).handle closed closed')
include hsame

theorem read_of_sameBut {j : ι} (hne : j ≠ i) (e : String) :
    (s.reader j).read tree closed' e = (s.reader j).read tree closed e := by
  refine EntryReader.read_congr (hsame _ fun he => hne (s.distinct j i he)).1 ?_ e
  intro image m hcontent
  rw [(s.opened j).image_eq hcontent]
  exact (hsame _ (s.apart i).symm).1

/-- A call changes two such states alike, up to the one handle. -/
theorem step_sameBut (call : ReaderCall ι) :
    SameBut (s.reader i).handle (s.step closed call).2 (s.step closed' call).2 := by
  cases call with
  | entries j | contains j e | isClosed j => exact hsame
  | close j => exact hsame.close (s.reader j).handle
  | closeImage => exact hsame.close s.image.handle
  | read j e =>
    intro other hother
    show ((s.reader j).afterRead tree closed' e).contains other =
        ((s.reader j).afterRead tree closed e).contains other ∧
      ((s.reader j).afterRead tree closed' e).isMarked other =
        ((s.reader j).afterRead tree closed e).isMarked other
    refine ⟨?_, Bool.eq_iff_iff.mpr ?_⟩
    · rw [EntryReader.contains_afterRead, EntryReader.contains_afterRead, (hsame other hother).1]
    · rw [EntryReader.isMarked_afterRead, EntryReader.isMarked_afterRead, (hsame other hother).2]
      refine or_congr_left (and_congr_right fun he => ?_)
      rw [read_of_sameBut hsame (fun hj => hother (by rw [he, hj]))]

theorem run_sameBut (calls : List (ReaderCall ι)) :
    SameBut (s.reader i).handle (s.run closed calls).2 (s.run closed' calls).2 := by
  induction calls generalizing closed closed' with
  | nil => exact hsame
  | cons call calls ih => exact ih (step_sameBut hsame call)

/-- On other readers and on the image it answers the same in both. -/
theorem fst_step_of_sameBut {call : ReaderCall ι} (h : call.reader? ≠ some i) :
    (s.step closed' call).1 = (s.step closed call).1 := by
  have hother : ∀ j, call.reader? = some j → (s.reader j).handle ≠ (s.reader i).handle := by
    intro j hj he
    exact h (hj.trans (congrArg some (s.distinct j i he)))
  cases call with
  | entries j | contains j e => rfl
  | read j e =>
    exact congrArg ReaderAnswer.content
      (read_of_sameBut hsame (fun hj => h (congrArg some hj)) e)
  | close j =>
    show ReaderAnswer.flag (Closed.close _ _).1 = ReaderAnswer.flag (Closed.close _ _).1
    rw [Closed.fst_close, Closed.fst_close, (hsame _ (hother j rfl)).1]
  | isClosed j =>
    show ReaderAnswer.flag _ = ReaderAnswer.flag _
    rw [EntryReader.isClosed, EntryReader.isClosed, (hsame _ (hother j rfl)).1,
      (hsame _ (hother j rfl)).2]
  | closeImage =>
    show ReaderAnswer.flag (Closed.close _ _).1 = ReaderAnswer.flag (Closed.close _ _).1
    rw [Closed.fst_close, Closed.fst_close, (hsame _ (s.apart i).symm).1]

end

omit [DecidableEq ι] in
/-- Closing a reader changes nothing for calls on the image and on other readers. -/
theorem answerAfter_close {i : ι} {call : ReaderCall ι} (h : call.reader? ≠ some i)
    (calls more : List (ReaderCall ι)) :
    s.answerAfter (calls ++ .close i :: more) call = s.answerAfter (calls ++ more) call := by
  unfold answerAfter
  rw [run_append, run_append]
  exact fst_step_of_sameBut (run_sameBut (sameBut_close _ _) more) h

end OpenReaders

namespace Shop

/-- An image, a folder of goods and an archived list of prices. -/
def desk : Folder :=
  .file "depot" depot (.folder "goods" (.file "price" [1] .empty)
    (.file "list.zip" (Zip.archiveOf [("prices", "1")]) .empty))

/-- The file tree with these. -/
def deskTree : FileTree where
  root := .folder "desk" desk .empty

theorem folderAt_desk : deskTree.FolderAt ⟨"/desk"⟩ desk :=
  FileTree.folderAt_root_item (by decide : IsName "desk") rfl (by decide) (by decide)

/-- The image when it is open. -/
def deskImage : RuntimeImage := { depotImage with path := ⟨"/desk/depot"⟩ }

theorem openFile_desk :
    RuntimeImage.openFile deskTree deskImage.handle ⟨"/desk/depot"⟩ = .ok deskImage := by
  have hdepot : IsLocation [OsText.ofText "depot"] := by decide
  exact RuntimeImage.openFile_eq_ok_iff.mpr ⟨depot, _, _,
    (folderAt_desk.lookup_eq_ok_iff hdepot).mpr rfl, readIndex_depot, rfl⟩

theorem openFolder_desk (handle : Handle) :
    EntryReader.openFolder deskTree handle ⟨"/desk/goods"⟩ =
      .ok ⟨.folder ⟨"/desk/goods"⟩ ["price"], handle⟩ := by
  have hgoods : IsLocation [OsText.ofText "goods"] := by decide
  have hwalk : deskTree.walk ⟨"/desk/goods"⟩ = .ok [["price"]] := folderAt_desk.walk_below hgoods rfl
  rw [EntryReader.openFolder, hwalk]
  rfl

theorem exists_openArchive_desk (handle : Handle) :
    ∃ r, EntryReader.openArchive deskTree handle ⟨"/desk/list.zip"⟩ none = .ok r := by
  have hlist : IsLocation [OsText.ofText "list.zip"] := by decide
  have hbytes : deskTree.status ⟨"/desk/list.zip"⟩ =
      .ok (.file (Zip.archiveOf [("prices", "1")])) :=
    (folderAt_desk.lookup_eq_ok_iff hlist).mpr rfl
  have hread : (do
      let archive ← Zip.Archive.parse (Zip.archiveOf [("prices", "1")])
      return (archive.isMultiRelease, ← archive.fileNames)) = .ok (false, ["prices"]) := by
    decide +kernel
  obtain ⟨archive, -, h⟩ := FileTree.exists_hasArchive hbytes hread
  exact ⟨_, (EntryReader.openArchive_eq_iff_of_hasArchive h).mpr rfl⟩

/-- The readers: of the goods, of the list, and two of the one module of the image. -/
inductive DeskReader where
  | goods
  | list
  | left
  | right
deriving DecidableEq

/-- What closes a reader. -/
def DeskReader.handle : DeskReader → Handle
  | goods => ⟨1, .whole⟩
  | list => ⟨2, .whole⟩
  | left => ⟨3, .whole⟩
  | right => ⟨4, .whole⟩

/-- The readers when they are open, given that of the list. -/
def deskReader (list : EntryReader) : DeskReader → EntryReader
  | .goods => ⟨.folder ⟨"/desk/goods"⟩ ["price"], DeskReader.goods.handle⟩
  | .list => list
  | .left => .ofModule DeskReader.left.handle deskImage "depot"
  | .right => .ofModule DeskReader.right.handle deskImage "depot"

theorem exists_openReaders_desk :
    ∃ s : OpenReaders deskTree DeskReader, s.image = deskImage ∧
      ∃ list, s.reader = deskReader list := by
  obtain ⟨list, hlist⟩ := exists_openArchive_desk DeskReader.list.handle
  have hhandle : ∀ i, (deskReader list i).handle = i.handle := by
    intro i
    cases i with
    | goods | left | right => rfl
    | list =>
      obtain ⟨bytes, archive, names, -, -, -, he⟩ := EntryReader.openArchive_eq_ok_iff.mp hlist
      exact congrArg EntryReader.handle he
  refine ⟨⟨deskReader list, deskImage, fun i => ?_, fun i j h => ?_, fun i => ?_⟩, rfl, list, rfl⟩
  · cases i with
    | goods => exact .folder (openFolder_desk _)
    | list => exact .archive hlist
    | left => exact .module openFile_desk _ _
    | right => exact .module openFile_desk _ _
  · rw [hhandle, hhandle] at h
    revert h
    cases i <;> cases j <;> decide
  · rw [hhandle]
    cases i <;> decide

/-- The near resource is the last byte of the image. -/
theorem content_deskImage :
    deskImage.content.length < Image.maxPosition ∧
      deskImage.header.indexSize + 0 + 1 ≤ deskImage.content.length ∧
      (deskImage.content.drop (deskImage.header.indexSize + 0)).take 1 = [7] := by
  decide +kernel

/-- The file tree with the cask. -/
def caskTree : FileTree where
  root := .file "cask" cask .empty

theorem openFile_caskTree :
    RuntimeImage.openFile caskTree default ⟨"/cask"⟩ = .ok (caskImage ⟨"/cask"⟩ default) :=
  openFile_cask (FileTree.status_root_item (by decide : IsName "cask") rfl nofun) default

/-- A reader of the one module of the cask. -/
def caskReaders : OpenReaders caskTree Unit where
  reader _ := .ofModule ⟨1, .whole⟩ (caskImage ⟨"/cask"⟩ default) "cask"
  image := caskImage ⟨"/cask"⟩ default
  opened _ := .module openFile_caskTree _ _
  distinct _ _ _ := rfl
  apart _ := by decide

end Shop
end ModuleAtlas
