import ModuleAtlas.Proofs.Image.Opening

/-! # Images in the other byte order

An image is written in the byte order of the machine that writes it, which shows in the words of its
header and its tables.  With the bytes of each of these words in reverse it is the image that a
machine of the other order would have written, and it reads the same: the two indexes are the same,
or are refused for the same reason (`Image.readIndex_inOtherOrder`).

Behind the tables the two files have the same bytes, so resources are read the same as well.  Only a
resource whose position starts over may be read from the words, and then the order shows
(`RuntimeImage.openFile_inOtherOrder`).
-/
namespace ModuleAtlas
open Steps

namespace Binary

/-- The order of the bytes that is not this one. -/
def ByteOrder.other : ByteOrder → ByteOrder
  | .little => .big
  | .big => .little

theorem ByteOrder.value_reverse (order : ByteOrder) (bytes : Bytes) :
    order.other.value bytes.reverse = order.value bytes := by
  cases order with
  | little => exact bigEndian_reverse bytes
  | big =>
    show littleEndian bytes.reverse = bigEndian bytes
    rw [← bigEndian_reverse, List.reverse_reverse]

end Binary

namespace Image

open Binary (ByteOrder)

/-! ## Words in reverse -/

/-- The bytes with those of each of the first `n` words in reverse. -/
def reverseWords : Nat → Bytes → Bytes
  | 0, bytes => bytes
  | n + 1, bytes => (bytes.take 4).reverse ++ reverseWords n (bytes.drop 4)

section
variable {n i start : Nat} {bytes : Bytes}

@[simp] theorem length_reverseWords (n : Nat) (bytes : Bytes) :
    (reverseWords n bytes).length = bytes.length := by
  induction n generalizing bytes with
  | zero => rfl
  | succ n ih =>
    rw [reverseWords, List.length_append, List.length_reverse, ih, List.length_take,
      List.length_drop]
    omega

theorem take_reverseWords (h : 4 ≤ bytes.length) :
    (reverseWords (n + 1) bytes).take 4 = (bytes.take 4).reverse := by
  refine List.take_left' ?_
  rw [List.length_reverse, List.length_take_of_le h]

theorem drop_reverseWords_succ (h : 4 ≤ bytes.length) :
    (reverseWords (n + 1) bytes).drop 4 = reverseWords n (bytes.drop 4) := by
  refine List.drop_left' ?_
  rw [List.length_reverse, List.length_take_of_le h]

/-- Behind the words nothing changes. -/
theorem drop_reverseWords (hwords : 4 * n ≤ bytes.length) (h : 4 * n ≤ start) :
    (reverseWords n bytes).drop start = bytes.drop start := by
  induction n generalizing bytes start with
  | zero => rfl
  | succ n ih =>
    have hlong : 4 ≤ bytes.length := by omega
    have hrest : 4 * n ≤ (bytes.drop 4).length := by
      rw [List.length_drop]
      omega
    calc (reverseWords (n + 1) bytes).drop start
        = ((reverseWords (n + 1) bytes).drop 4).drop (start - 4) := by
          rw [List.drop_drop, Nat.add_sub_cancel' (by omega)]
      _ = (bytes.drop 4).drop (start - 4) := by
          rw [drop_reverseWords_succ hlong, ih hrest (by omega)]
      _ = bytes.drop start := by rw [List.drop_drop, Nat.add_sub_cancel' (by omega)]

/-- A word in reverse reads in the other order as the word did. -/
theorem word_reverseWords (order : ByteOrder) (hwords : 4 * n ≤ bytes.length) (hi : i < n) :
    word order.other (reverseWords n bytes) (4 * i) = word order bytes (4 * i) := by
  induction n generalizing bytes i with
  | zero => exact absurd hi (Nat.not_lt_zero i)
  | succ n ih =>
    have hlong : 4 ≤ bytes.length := by omega
    cases i with
    | zero =>
      rw [word, word, Nat.mul_zero, List.drop_zero, List.drop_zero, take_reverseWords hlong,
        order.value_reverse]
    | succ i =>
      have hrest : 4 * n ≤ (bytes.drop 4).length := by
        rw [List.length_drop]
        omega
      have hword := ih hrest (Nat.lt_of_succ_lt_succ hi)
      rw [word, word] at hword ⊢
      rw [Nat.mul_succ, Nat.add_comm, ← List.drop_drop, ← List.drop_drop,
        drop_reverseWords_succ hlong, hword]

end

/-- The words of a table in reverse read in the other order as the table did. -/
theorem readTable_reverseWords (order : ByteOrder) {n start slots : Nat} {bytes : Bytes}
    (hwords : 4 * n ≤ bytes.length) (hend : start + slots ≤ n) :
    readTable order.other slots ((reverseWords n bytes).drop (4 * start)) =
      readTable order slots (bytes.drop (4 * start)) := by
  induction slots generalizing start with
  | zero => rfl
  | succ slots ih =>
    have hfirst : word order.other (reverseWords n bytes) (4 * start) =
        word order bytes (4 * start) := word_reverseWords order hwords (by omega)
    have hrest : start + 1 + slots ≤ n := by omega
    rw [readTable, readTable, List.drop_drop, List.drop_drop]
    exact congrArg₂ List.cons hfirst (ih hrest)

/-! ## The index -/

/-- The number of words of header and tables. -/
def Header.wordCount (h : Header) : Nat := 7 + 2 * h.tableLength

theorem Header.four_mul_wordCount (h : Header) : 4 * h.wordCount = h.locationsStart := by
  unfold wordCount locationsStart offsetsStart headerSize
  omega

theorem Header.locationsStart_le_indexSize (h : Header) : h.locationsStart ≤ h.indexSize := by
  unfold indexSize stringsStart
  omega

/-- The image whose words are in the given order, with the bytes of each word of its header and its
tables in reverse. -/
def inOtherOrder (order : ByteOrder) (content : Bytes) : Bytes :=
  reverseWords (headerAt order content).wordCount content

section
variable {order : ByteOrder} {content : Bytes}
  (hindex : (headerAt order content).indexSize ≤ content.length)
include hindex

theorem four_mul_wordCount_le : 4 * (headerAt order content).wordCount ≤ content.length := by
  rw [Header.four_mul_wordCount]
  exact Nat.le_trans (Header.locationsStart_le_indexSize _) hindex

theorem word_inOtherOrder {i : Nat} (hi : i < 7) :
    word order.other (inOtherOrder order content) (4 * i) = word order content (4 * i) :=
  word_reverseWords order (four_mul_wordCount_le hindex)
    (Nat.lt_of_lt_of_le hi (Nat.le_add_right 7 _))

theorem headerAt_inOtherOrder :
    headerAt order.other (inOtherOrder order content) = headerAt order content := by
  have hword : ∀ i < 7, word order.other (inOtherOrder order content) (4 * i) =
      word order content (4 * i) := fun i hi => word_inOtherOrder hindex hi
  rw [headerAt, headerAt, hword 1 (by decide), hword 2 (by decide), hword 3 (by decide),
    hword 4 (by decide), hword 5 (by decide), hword 6 (by decide)]

theorem drop_inOtherOrder {start : Nat} (h : (headerAt order content).locationsStart ≤ start) :
    (inOtherOrder order content).drop start = content.drop start := by
  refine drop_reverseWords (four_mul_wordCount_le hindex) ?_
  rw [Header.four_mul_wordCount]
  exact h

/-- The offset table stands within the words. -/
theorem readTable_inOtherOrder :
    readTable order.other (headerAt order content).tableLength
        ((inOtherOrder order content).drop (headerAt order content).offsetsStart) =
      readTable order (headerAt order content).tableLength
        (content.drop (headerAt order content).offsetsStart) := by
  have hstart : (headerAt order content).offsetsStart =
      4 * (7 + (headerAt order content).tableLength) := by
    unfold Header.offsetsStart headerSize
    omega
  rw [hstart]
  refine readTable_reverseWords order (four_mul_wordCount_le hindex) ?_
  unfold Header.wordCount
  omega

theorem headerSize_le : headerSize ≤ content.length := by
  refine Nat.le_trans ?_ hindex
  unfold Header.indexSize Header.stringsStart Header.locationsStart Header.offsetsStart
  omega

theorem header_of_readIndex (hmark : word order content 0 = magic) {header : Header}
    {modules : Modules} (h : readIndex content = .ok (header, modules)) :
    header = headerAt order content := by
  have hfront := headerSize_le hindex
  by_cases hversion : (headerAt order content).major = supportedMajor
  · rw [readIndex_of_index hfront hmark hversion hindex] at h
    obtain ⟨read, -, he⟩ := bind_eq_ok_iff.mp h
    exact (Prod.mk.inj (Except.ok.inj he)).1.symm
  · rw [readIndex_of_fault (.version hfront hmark hversion)] at h
    cases h

/-- The index in the other order reads as the index did, or is refused for the same reason. -/
theorem readIndex_inOtherOrder (hmark : word order content 0 = magic) :
    readIndex (inOtherOrder order content) = readIndex content := by
  have hfront := headerSize_le hindex
  have hlength : (inOtherOrder order content).length = content.length := length_reverseWords _ _
  have hfront' : headerSize ≤ (inOtherOrder order content).length := hlength.symm ▸ hfront
  have hmark' : word order.other (inOtherOrder order content) 0 = magic :=
    (word_inOtherOrder hindex (i := 0) (by decide)).trans hmark
  have hheader := headerAt_inOtherOrder hindex
  by_cases hversion : (headerAt order content).major = supportedMajor
  · have hindex' : (headerAt order.other (inOtherOrder order content)).indexSize ≤
        (inOtherOrder order content).length := by
      rw [hheader, hlength]
      exact hindex
    rw [readIndex_of_index hfront hmark hversion hindex,
      readIndex_of_index hfront' hmark' (hheader.symm ▸ hversion) hindex', hheader]
    dsimp only
    have hstrings : (headerAt order content).locationsStart ≤ (headerAt order content).stringsStart :=
      Nat.le_add_right _ _
    rw [drop_inOtherOrder hindex (Nat.le_refl _), drop_inOtherOrder hindex hstrings,
      readTable_inOtherOrder hindex]
  · rw [readIndex_of_fault (.version hfront hmark hversion),
      readIndex_of_fault (.version hfront' hmark' (hheader.symm ▸ hversion)), hheader]

end

end Image

/-! ## Reading -/

namespace Image

section
variable {header : Header} {location : Location} {content content' : Bytes}

/-- A resource is read from what stands at its place. -/
theorem readLocation_congr
    (h : content.drop (startOf header location) = content'.drop (startOf header location)) :
    readLocation header content location = readLocation header content' location := by
  rw [readLocation, readLocation, Binary.slice?, Binary.slice?, h]

/-- How long the file is decides whether a resource can be read. -/
theorem map_length_readLocation (h : content.length = content'.length) :
    (readLocation header content location).map List.length =
      (readLocation header content' location).map List.length := by
  simp only [readLocation, Binary.slice?, Binary.take?_eq, List.length_drop, ← h]
  split
  · rfl
  split
  · rfl
  · by_cases hlong : location.uncompressed ≤ content.length - startOf header location
    · rw [if_pos hlong, if_pos hlong]
      refine congrArg Except.ok ?_
      rw [List.length_take, List.length_take, List.length_drop, List.length_drop, h]
    · rw [if_neg hlong, if_neg hlong]

end

/-- A position that does not start over is as far behind the index as the offset says. -/
theorem startOf_of_lt {header : Header} {location : Location}
    (h : header.indexSize + location.offset < positionSpan) :
    startOf header location = header.indexSize + location.offset := Nat.mod_eq_of_lt h

end Image

namespace RuntimeImage
open Image

section
variable {γ : Type} {f : Bytes → γ}

theorem map_answer (step : Except ImageError Bytes) :
    (step.map some).map (Option.map f) = (step.map f).map some := by
  cases step <;> rfl

/-- What is read of an entry is told by what is read at its location. -/
theorem map_read {i j : RuntimeImage} {m e : String}
    (hfind : i.find? m e = j.find? m e) {closed closed' : Closed}
    (hclosed : closed.contains i.handle = closed'.contains j.handle)
    (hread : ∀ location, i.find? m e = some location →
      (readLocation i.header i.content location).map f =
        (readLocation j.header j.content location).map f) :
    (i.read closed m e).map (Option.map f) = (j.read closed' m e).map (Option.map f) := by
  rw [read, read, ← hfind, ← hclosed]
  cases hlocation : i.find? m e with
  | none => rfl
  | some location =>
    have hbytes := hread location hlocation
    dsimp only
    split
    · rfl
    · split
      · rfl
      · rw [map_answer, map_answer, hbytes]

end

/-- Two images answer the same to what is asked about the index.  What they give for a resource is
the same too if its position does not start over, and in any case it is as long, or there is the
same reason for none. -/
structure AnswerAlike (i j : RuntimeImage) : Prop where
  header : i.header = j.header
  moduleNames : i.moduleNames = j.moduleNames
  entries : ∀ m, i.entries m = j.entries m
  find? : ∀ m e, i.find? m e = j.find? m e
  read : ∀ closed closed' : Closed, closed.contains i.handle = closed'.contains j.handle →
    ∀ m e, (∀ location, i.find? m e = some location →
      i.header.indexSize + location.offset < positionSpan) →
      i.read closed m e = j.read closed' m e
  length_read : ∀ closed closed' : Closed, closed.contains i.handle = closed'.contains j.handle →
    ∀ m e, (i.read closed m e).map (Option.map List.length) =
      (j.read closed' m e).map (Option.map List.length)

theorem answerAlike_inOtherOrder {i j : RuntimeImage} {order : Binary.ByteOrder}
    (hindex : (headerAt order i.content).indexSize ≤ i.content.length)
    (hheader : i.header = headerAt order i.content) (hsame : j.header = i.header)
    (hmodules : j.modules = i.modules) (hcontent : j.content = inOtherOrder order i.content) :
    AnswerAlike i j where
  header := hsame.symm
  moduleNames := by rw [moduleNames, moduleNames, hmodules]
  entries m := by rw [entries, entries, hmodules]
  find? m e := by rw [RuntimeImage.find?, RuntimeImage.find?, hmodules]
  read closed closed' hclosed m e hwithin := by
    have hfind : i.find? m e = j.find? m e := by
      rw [RuntimeImage.find?, RuntimeImage.find?, hmodules]
    have hread := map_read (f := id) hfind hclosed fun location hlocation => by
      rw [hsame, hcontent]
      refine congrArg (Except.map id) (readLocation_congr ?_)
      rw [startOf_of_lt (hwithin location hlocation), hheader]
      refine (drop_inOtherOrder hindex ?_).symm
      exact Nat.le_trans (Header.locationsStart_le_indexSize _) (Nat.le_add_right _ _)
    rwa [Option.map_id_fun, Except.map_id] at hread
  length_read closed closed' hclosed m e := by
    have hfind : i.find? m e = j.find? m e := by
      rw [RuntimeImage.find?, RuntimeImage.find?, hmodules]
    refine map_read (f := List.length) hfind hclosed fun location _ => ?_
    rw [hsame]
    exact map_length_readLocation (by rw [hcontent]; exact (length_reverseWords _ _).symm)

/-- **Images do not depend on the byte order of their words.**  Of a file that begins with the mark
and is as long as its index says, and the same file with the words of header and tables in the other
order, one opens if the other does, and if not, both for the same reason.  The opened images answer
alike; what they give for a resource may only differ if its position starts over. -/
theorem openFile_inOtherOrder {tree tree' : FileTree} {path path' : Path}
    {order : Binary.ByteOrder} {content : Bytes} (handle handle' : Handle)
    (hmark : word order content 0 = magic)
    (hindex : (headerAt order content).indexSize ≤ content.length)
    (hstatus : tree.status path = .ok (.file content))
    (hstatus' : tree'.status path' = .ok (.file (inOtherOrder order content))) :
    word order.other (inOtherOrder order content) 0 = magic ∧
      Agree AnswerAlike (openFile tree handle path) (openFile tree' handle' path') := by
  refine ⟨(word_inOtherOrder hindex (i := 0) (by decide)).trans hmark, ?_⟩
  rw [openFile_of_status hstatus, openFile_of_status hstatus', readIndex_inOtherOrder hindex hmark]
  refine (Agree.refl (readIndex content)).bind ?_
  rintro ⟨header, modules⟩ _ ⟨hread, rfl⟩
  exact .ok (answerAlike_inOtherOrder hindex (header_of_readIndex hindex hmark hread) rfl rfl rfl)

end RuntimeImage

namespace Shop
open Image

theorem index_depot :
    word .big depot 0 = magic ∧ (headerAt .big depot).indexSize ≤ depot.length := by
  decide +kernel

/-- The image with two resources, which was written with the most significant byte first, opens in
the other order as well, and the near resource is read from it. -/
theorem openFile_inOtherOrder_depot :
    ∃ image, RuntimeImage.openFile (depotTreeOf (inOtherOrder .big depot)) default ⟨"/depot"⟩ =
        .ok image ∧
      depotImage.AnswerAlike image ∧ image.read {} "depot" "near" = .ok (some [7]) := by
  obtain ⟨-, hagree⟩ := RuntimeImage.openFile_inOtherOrder default default index_depot.1
    index_depot.2 status_depot (status_depotTreeOf _)
  rw [openFile_depot] at hagree
  cases hopen : RuntimeImage.openFile (depotTreeOf (inOtherOrder .big depot)) default ⟨"/depot"⟩ with
  | error e =>
    rw [hopen] at hagree
    cases hagree
  | ok image =>
    rw [hopen] at hagree
    have halike : depotImage.AnswerAlike image := by
      cases hagree with
      | ok h => exact h
    have hnear : depotImage.find? "depot" "near" = some ⟨0, 0, 1⟩ := by decide
    have hread : depotImage.read {} "depot" "near" = .ok (some [7]) :=
      ((RuntimeImage.readsAt_startOf hnear rfl).found_iff {} _).mpr
        ⟨rfl, by decide, by decide, [7], rfl, by decide +kernel, rfl⟩
    refine ⟨image, rfl, halike, (halike.read {} {} rfl "depot" "near" ?_).symm.trans hread⟩
    intro location hlocation
    obtain rfl := Option.some.inj (hnear.symm.trans hlocation)
    decide

/-- The image in the other order when it is open. -/
def otherDepotImage : RuntimeImage := { depotImage with content := inOtherOrder .big depot }

/-- Not all that is read is independent of the byte order: of the far resource the mark is read, and
this stands in the file in the one order or in the other. -/
theorem not_read_inOtherOrder :
    ¬ ∀ (tree tree' : FileTree) (path path' : Path) (handle handle' : Handle)
        (order : Binary.ByteOrder) (content : Bytes),
        word order content 0 = magic →
        (headerAt order content).indexSize ≤ content.length →
        tree.status path = .ok (.file content) →
        tree'.status path' = .ok (.file (inOtherOrder order content)) →
        ∀ i j, RuntimeImage.openFile tree handle path = .ok i →
          RuntimeImage.openFile tree' handle' path' = .ok j →
          ∀ m e, i.read {} m e = j.read {} m e := by
  intro h
  have hopen : RuntimeImage.openFile (depotTreeOf (inOtherOrder .big depot)) default ⟨"/depot"⟩ =
      .ok otherDepotImage :=
    RuntimeImage.openFile_eq_ok_iff.mpr ⟨_, _, _, status_depotTreeOf _,
      (readIndex_inOtherOrder index_depot.2 index_depot.1).trans readIndex_depot, rfl⟩
  have hsame := h depotTree (depotTreeOf (inOtherOrder .big depot)) ⟨"/depot"⟩ ⟨"/depot"⟩ default
    default .big depot index_depot.1 index_depot.2 status_depot (status_depotTreeOf _) depotImage
    otherDepotImage openFile_depot hopen "depot" "far"
  have hfar : depotImage.find? "depot" "far" = some ⟨positionSpan - 83, 0, 4⟩ := by decide
  have hread : depotImage.read {} "depot" "far" = .ok (some (Binary.toBigEndian 4 magic)) :=
    ((RuntimeImage.readsAt_startOf hfar rfl).found_iff {} _).mpr
      ⟨rfl, by decide, by decide, _, rfl, by decide +kernel, rfl⟩
  have hfar' : otherDepotImage.find? "depot" "far" = some ⟨positionSpan - 83, 0, 4⟩ := hfar
  have hread' : otherDepotImage.read {} "depot" "far" =
      .ok (some (Binary.toLittleEndian 4 magic)) :=
    ((RuntimeImage.readsAt_startOf hfar' rfl).found_iff {} _).mpr
      ⟨rfl, by decide, by decide, _, rfl, by decide +kernel, rfl⟩
  rw [hread, hread'] at hsame
  exact absurd hsame (by decide)

end Shop
end ModuleAtlas
