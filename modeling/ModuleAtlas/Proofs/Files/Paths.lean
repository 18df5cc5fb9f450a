import Mathlib.Tactic.MkIffOfInductiveProp
import ModuleAtlas.Files.Tree
import ModuleAtlas.Proofs.Text.Utf8

/-! # Paths below a path

A location below a folder is a list of names, and its path is the path of the folder followed by
the names, with slashes between them.  If the path of the folder ends with a slash, no other is put
in between (`Path.exists_raw_below`), and there is no empty segment any more that would ask for a
folder.  Going to the location is going through the names that lead to the folder and on through
those of the location (`FileTree.exists_trail_below`).

What is shown for a location leads there if its names are texts (`child_locationText`).
-/
namespace ModuleAtlas
open OsText (slash)

/-! ## Texts -/

namespace OsText

/-- Whether it is a text, which is then what is shown for it. -/
def IsText (t : OsText) : Prop := ofText t.text = t

instance (t : OsText) : Decidable t.IsText := inferInstanceAs (Decidable (ofText t.text = t))

theorem text_ofText (s : String) : (ofText s).text = s := Utf8.decodeLenient_encode s

theorem isText_ofText (s : String) : (ofText s).IsText := congrArg ofText (text_ofText s)

@[simp] theorem ofText_inj {s t : String} : ofText s = ofText t ↔ s = t :=
  ⟨fun h => by rw [← text_ofText s, h, text_ofText], fun h => h ▸ rfl⟩

theorem ofText_append (s t : String) : ofText (s ++ t) = ofText s ++ ofText t := by
  refine congrArg mk ?_
  rw [Utf8.encode, String.toList_append, List.flatMap_append]
  rfl

theorem text?_eq_some_iff {t : OsText} {s : String} : t.text? = some s ↔ t = ofText s := by
  rw [text?]
  constructor
  · intro h
    by_cases ht : ofText t.text = t
    · rw [if_pos ht] at h
      rw [← ht, Option.some.inj h]
    · rw [if_neg ht] at h
      cases h
  · rintro rfl
    rw [text_ofText, if_pos rfl]

theorem map_ofText_map_text {texts : List OsText} (h : ∀ t ∈ texts, t.IsText) :
    (texts.map text).map ofText = texts := by
  rw [List.map_map]
  exact (List.map_congr_left h).trans (List.map_id texts)

theorem joined_singleton (part : OsText) : joined [part] = part := by
  rw [joined, List.map_singleton, List.intercalate_singleton]

theorem joined_cons_cons (part next : OsText) (rest : List OsText) :
    joined (part :: next :: rest) = part ++ ofText "/" ++ joined (next :: rest) := by
  refine congrArg mk ?_
  rw [List.map_cons, List.map_cons, List.intercalate_cons_cons]
  rfl

theorem joined_append {front back : List OsText} (hfront : front ≠ []) (hback : back ≠ []) :
    joined (front ++ back) = joined front ++ ofText "/" ++ joined back := by
  induction front with
  | nil => exact absurd rfl hfront
  | cons part rest ih =>
    obtain ⟨first, more, rfl⟩ := List.exists_cons_of_ne_nil hback
    cases rest with
    | nil =>
      rw [List.singleton_append, joined_singleton]
      exact joined_cons_cons part first more
    | cons next rest =>
      rw [List.cons_append, List.cons_append, joined_cons_cons, ← List.cons_append,
        ih (List.cons_ne_nil next rest), joined_cons_cons]
      exact congrArg mk (by simp only [octets_append, List.append_assoc])

end OsText

/-- A name that stands for an item of a folder when it is a segment of a path. -/
@[mk_iff]
structure IsName (name : OsText) : Prop where
  ne_empty : name ≠ ""
  noSlash : slash ∉ name.octets
  noZero : 0 ∉ name.octets
  ne_here : name ≠ "."
  ne_up : name ≠ ".."

instance (name : OsText) : Decidable (IsName name) :=
  decidable_of_iff' _ (isName_iff name)

/-- A location below a folder: one name after the other, and at least one. -/
@[mk_iff]
structure IsLocation (location : List OsText) : Prop where
  ne_nil : location ≠ []
  names : ∀ name ∈ location, IsName name

instance (location : List OsText) : Decidable (IsLocation location) :=
  decidable_of_iff' _ (isLocation_iff location)

theorem IsName.location {name : OsText} (h : IsName name) : IsLocation [name] where
  ne_nil := List.cons_ne_nil name []
  names := List.forall_mem_singleton.mpr h

/-- The octets of what is shown for texts. -/
theorem ofText_locationText {location : List OsText} (h : ∀ name ∈ location, name.IsText) :
    OsText.ofText (locationText location) = OsText.joined location := by
  rw [locationText]
  induction location with
  | nil => rfl
  | cons name rest ih =>
    obtain ⟨hname, hrest⟩ := List.forall_mem_cons.mp h
    cases rest with
    | nil =>
      rw [List.map_singleton, String.intercalate_singleton, OsText.joined_singleton]
      exact hname
    | cons next rest =>
      rw [List.map_cons, List.map_cons, String.intercalate_cons_cons, ← List.map_cons,
        OsText.ofText_append, OsText.ofText_append, ih hrest, hname, OsText.joined_cons_cons]

namespace IsLocation
variable {location : List OsText}

theorem cons {name : OsText} (hname : IsName name) (h : ∀ n ∈ location, IsName n) :
    IsLocation (name :: location) where
  ne_nil := List.cons_ne_nil name location
  names := List.forall_mem_cons.mpr ⟨hname, h⟩

theorem segments_joined (h : IsLocation location) :
    (OsText.joined location).segments = location :=
  OsText.segments_joined h.ne_nil fun name hname => (h.names name hname).noSlash

/-- Different locations are shown differently if their names are texts. -/
theorem eq_of_locationText {location' : List OsText} (h : IsLocation location)
    (h' : IsLocation location') (htexts : ∀ name ∈ location, name.IsText)
    (htexts' : ∀ name ∈ location', name.IsText)
    (he : locationText location = locationText location') : location = location' := by
  rw [← h.segments_joined, ← h'.segments_joined, ← ofText_locationText htexts, he,
    ofText_locationText htexts']

theorem head?_joined (h : IsLocation location) :
    ∃ b, (OsText.joined location).octets.head? = some b ∧ b ≠ slash := by
  obtain ⟨name, rest, rfl⟩ := List.exists_cons_of_ne_nil h.ne_nil
  have hname := h.names name List.mem_cons_self
  obtain ⟨b, bs, hb⟩ := List.exists_cons_of_ne_nil fun he =>
    hname.ne_empty (congrArg OsText.mk he)
  refine ⟨b, ?_, fun he => hname.noSlash (by rw [hb, he]; exact List.mem_cons_self)⟩
  cases rest with
  | nil => rw [OsText.joined_singleton, hb, List.head?_cons]
  | cons next rest =>
    rw [OsText.joined_cons_cons, OsText.octets_append, OsText.octets_append, hb]
    rfl

theorem zero_not_mem_joined (h : IsLocation location) :
    0 ∉ (OsText.joined location).octets := by
  obtain ⟨hne, hnames⟩ := h
  induction location with
  | nil => exact absurd rfl hne
  | cons name rest ih =>
    obtain ⟨hname, hrest⟩ := List.forall_mem_cons.mp hnames
    cases rest with
    | nil =>
      rw [OsText.joined_singleton]
      exact hname.noZero
    | cons next rest =>
      rw [OsText.joined_cons_cons, OsText.octets_append, OsText.octets_append]
      simp only [List.mem_append, not_or]
      exact ⟨⟨hname.noZero, by decide⟩, ih (List.cons_ne_nil next rest) hrest⟩

end IsLocation

namespace Path

/-- Whether the path has no slash at its end and is not empty. -/
def EndsInName (p : Path) : Prop := p.segments.getLast? ≠ some (OsText.ofText "")

/-- The path of a location below a folder. -/
def below (base : Path) (location : List OsText) : Path := base.child (OsText.joined location)

theorem below_singleton (base : Path) (name : OsText) : base.below [name] = base.child name := by
  rw [below, OsText.joined_singleton]

/-- What is shown for a location of texts leads there. -/
theorem child_locationText (base : Path) {location : List OsText}
    (h : ∀ name ∈ location, name.IsText) :
    base.child (locationText location) = base.below location := by
  rw [below, ofText_locationText h]

theorem isAbsolute_joined {location : List OsText} (hloc : IsLocation location) :
    isAbsolute ⟨OsText.joined location⟩ = false := by
  obtain ⟨b, hb, hne⟩ := hloc.head?_joined
  rw [isAbsolute, hb]
  simpa using hne

/-- A location is put behind the slash that a path ends with, or else behind a new one. -/
theorem exists_raw_below {base : Path} (hne : base.raw ≠ "") {location : List OsText}
    (hloc : IsLocation location) :
    ∃ front : OsText,
      (base.below location).raw.octets = front.octets ++ slash :: (OsText.joined location).octets ∧
      (base.raw = front ∨ base.raw.octets = front.octets ++ [slash]) := by
  rw [below, child, join, isAbsolute_joined hloc, Bool.false_or,
    if_neg (fun he => hne (eq_of_beq he))]
  by_cases hslash : base.raw.octets.getLast? = some slash
  · obtain ⟨front, hfront⟩ := List.getLast?_eq_some_iff.mp hslash
    rw [if_pos (beq_iff_eq.mpr hslash)]
    refine ⟨⟨front⟩, ?_, .inr hfront⟩
    rw [OsText.octets_append, hfront, List.append_assoc]
    rfl
  · rw [if_neg (fun he => hslash (eq_of_beq he))]
    refine ⟨base.raw, ?_, .inl rfl⟩
    rw [OsText.octets_append, OsText.octets_append, List.append_assoc]
    rfl

theorem isAbsolute_below {base : Path} (hne : base.raw ≠ "") {location : List OsText}
    (hloc : IsLocation location) : (base.below location).isAbsolute = base.isAbsolute := by
  obtain ⟨⟨front⟩, hbelow, hbase⟩ := exists_raw_below hne hloc
  rw [isAbsolute, isAbsolute, hbelow]
  rcases hbase with hbase | hbase
  · rw [hbase]
    cases front with
    | nil => exact absurd hbase hne
    | cons b front => rfl
  · rw [hbase]
    cases front <;> rfl

theorem zero_mem_below_iff {base : Path} (hne : base.raw ≠ "") {location : List OsText}
    (hloc : IsLocation location) :
    0 ∈ (base.below location).raw.octets ↔ 0 ∈ base.raw.octets := by
  obtain ⟨front, hbelow, hbase⟩ := exists_raw_below hne hloc
  have hslash : 0 ≠ slash := by decide
  have hlocation := hloc.zero_not_mem_joined
  rw [hbelow]
  rcases hbase with hbase | hbase
  · simp [hbase, hslash, hlocation]
  · simp [hbase, hslash, hlocation]

theorem filter_segments_below {base : Path} (hne : base.raw ≠ "") {location : List OsText}
    (hloc : IsLocation location) :
    ((base.below location).segments.filter fun s : OsText => s != "") =
      (base.segments.filter fun s : OsText => s != "") ++ location := by
  obtain ⟨front, hbelow, hbase⟩ := exists_raw_below hne hloc
  have hnamed : (location.filter fun s : OsText => s != "") = location :=
    List.filter_eq_self.mpr fun name hname => bne_iff_ne.mpr (hloc.names name hname).ne_empty
  have hsegments : (base.below location).segments = front.segments ++ location := by
    rw [segments, OsText.segments_append hbelow, hloc.segments_joined]
  rw [hsegments, List.filter_append, hnamed]
  rcases hbase with hbase | hbase
  · rw [segments, hbase]
  · have hslash : base.segments = front.segments ++ OsText.segments "" :=
      OsText.segments_append hbase
    have hempty : ((OsText.segments "").filter fun s : OsText => s != "") = [] := rfl
    rw [hslash, List.filter_append, hempty, List.append_nil]

/-- A location below any path makes up the last segments of the path that it makes. -/
theorem exists_segments_below (base : Path) {location : List OsText} (hloc : IsLocation location) :
    ∃ front, (base.below location).segments = front ++ location := by
  by_cases hempty : base.raw = ""
  · refine ⟨[], ?_⟩
    rw [below, child, join, if_pos (Bool.or_eq_true_iff.mpr (.inr (beq_iff_eq.mpr hempty))),
      segments, hloc.segments_joined, List.nil_append]
  · obtain ⟨front, hbelow, -⟩ := exists_raw_below hempty hloc
    refine ⟨front.segments, ?_⟩
    rw [segments, OsText.segments_append hbelow, hloc.segments_joined]

theorem exists_segments_child (base : Path) {name : OsText} (h : IsName name) :
    ∃ front, (base.child name).segments = front ++ [name] :=
  base.below_singleton name ▸ base.exists_segments_below h.location

theorem below_endsInName (base : Path) {location : List OsText} (hloc : IsLocation location) :
    (base.below location).EndsInName := by
  obtain ⟨front, hsegments⟩ := base.exists_segments_below hloc
  obtain ⟨last, hlast⟩ := Option.isSome_iff_exists.mp (List.getLast?_isSome.mpr hloc.ne_nil)
  rw [EndsInName, hsegments, List.getLast?_append, hlast, Option.some_or, ne_eq, Option.some.injEq]
  exact (hloc.names last (List.mem_of_getLast? hlast)).ne_empty

theorem child_endsInName (base : Path) {name : OsText} (h : IsName name) :
    (base.child name).EndsInName :=
  base.below_singleton name ▸ base.below_endsInName h.location

namespace EndsInName
variable {base : Path} {location : List OsText}

theorem raw_ne_empty (h : base.EndsInName) : base.raw ≠ "" := by
  intro he
  refine h ?_
  rw [segments, he]
  rfl

theorem getLast?_octets (h : base.EndsInName) : base.raw.octets.getLast? ≠ some slash := by
  intro he
  obtain ⟨front, hfront⟩ := List.getLast?_eq_some_iff.mp he
  refine h ?_
  have hsplit : base.segments = OsText.segments ⟨front⟩ ++ OsText.segments "" :=
    OsText.segments_append hfront
  rw [hsplit, List.getLast?_append]
  rfl

theorem raw_below (h : base.EndsInName) (hloc : IsLocation location) :
    (base.below location).raw = base.raw ++ OsText.ofText "/" ++ OsText.joined location := by
  rw [below, child, join, isAbsolute_joined hloc, Bool.false_or,
    if_neg (by simpa using h.raw_ne_empty), if_neg (by simpa using h.getLast?_octets)]

/-- A location below a location is a location. -/
theorem below_below (h : base.EndsInName) {inner : List OsText} (hloc : IsLocation location)
    (hinner : IsLocation inner) :
    (base.below location).below inner = base.below (location ++ inner) := by
  have happend : IsLocation (location ++ inner) :=
    ⟨List.append_ne_nil_of_left_ne_nil hloc.ne_nil inner,
      List.forall_mem_append.mpr ⟨hloc.names, hinner.names⟩⟩
  have hraw : ((base.below location).below inner).raw =
      (base.below (location ++ inner)).raw := by
    rw [(base.below_endsInName hloc).raw_below hinner, h.raw_below hloc, h.raw_below happend,
      OsText.joined_append hloc.ne_nil hinner.ne_nil]
    exact congrArg OsText.mk (by simp only [OsText.octets_append, List.append_assoc])
  exact congrArg Path.mk hraw

end EndsInName

end Path

namespace FileTree

/-- The names to go through from the root for a path. -/
def trail (tree : FileTree) (p : Path) : List OsText :=
  if p.isAbsolute then steps p else steps tree.current ++ steps p

/-- The names of a path come before those below it, up to the mark that a slash at its end makes. -/
theorem exists_trail_below (tree : FileTree) {base : Path} (hne : base.raw ≠ "")
    {location : List OsText} (hloc : IsLocation location) :
    ∃ names, tree.trail (base.below location) = names ++ location ∧
      (tree.trail base = names ∨ tree.trail base = names ++ [OsText.ofText "."]) := by
  have hends : (base.below location).segments.getLast? ≠ some (OsText.ofText "") :=
    base.below_endsInName hloc
  have hsteps : steps (base.below location) =
      (base.segments.filter fun s : OsText => s != "") ++ location := by
    rw [steps, Path.filter_segments_below hne hloc, if_neg (by simp [hends])]
  have hbase : steps base = (base.segments.filter fun s : OsText => s != "") ∨
      steps base = (base.segments.filter fun s : OsText => s != "") ++ [OsText.ofText "."] := by
    unfold steps
    dsimp only
    split
    · exact .inr rfl
    · exact .inl rfl
  unfold trail
  rw [Path.isAbsolute_below hne hloc, hsteps]
  by_cases habsolute : base.isAbsolute = true
  · rw [if_pos habsolute, if_pos habsolute]
    exact ⟨_, rfl, hbase⟩
  · rw [if_neg habsolute, if_neg habsolute, ← List.append_assoc]
    refine ⟨_, rfl, ?_⟩
    rcases hbase with hbase | hbase
    · exact .inl (by rw [hbase])
    · exact .inr (by rw [hbase, List.append_assoc])

theorem lookup_eq (tree : FileTree) (last : Bool) {p : Path} (hne : p.raw ≠ "")
    (hzero : 0 ∉ p.raw.octets) :
    tree.lookup last p = follow last tree.root maxLinks [] (tree.trail p) := by
  rw [lookup, if_neg hne, if_neg (by simpa using hzero)]
  rfl

/-- An absolute path is followed from the root. -/
theorem status_eq_follow (tree : FileTree) {p : Path} (habsolute : p.isAbsolute = true)
    (hzero : 0 ∉ p.raw.octets) :
    tree.status p = follow true tree.root maxLinks [] (steps p) := by
  have hne : p.raw ≠ "" := by
    intro he
    rw [Path.isAbsolute, he] at habsolute
    cases habsolute
  rw [status, lookup_eq tree true hne hzero, trail, if_pos habsolute]

/-- A path that leads somewhere has no zero octet. -/
theorem zero_not_mem_of_lookup {tree : FileTree} {last : Bool} {p : Path} {node : Node}
    (h : tree.lookup last p = .ok node) : 0 ∉ p.raw.octets := by
  intro hzero
  rw [lookup, if_pos (c := p.raw.octets.contains 0 = true) (List.contains_iff_mem.mpr hzero)] at h
  split at h <;> cases h

end FileTree
end ModuleAtlas
