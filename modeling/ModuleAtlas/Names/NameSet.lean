/-! # Sets of names

Package names, module names and class names are reported as sets: each name once, in
increasing order.  `NameSet` carries that normal form in its type, so two sets with the same
members are equal (`NameSet.ext_mem`), and every operation below is characterised by its
members alone.
-/
namespace ModuleAtlas

/-- A finite set of names, each listed once, in increasing order.  Names compare by code
point, which is also the order of their UTF-8 bytes. -/
@[ext]
structure NameSet where
  /-- The members in increasing order. -/
  toList : List String
  /-- No member is repeated and none is out of place. -/
  sorted : toList.Pairwise (· < ·) := by simp
deriving DecidableEq, Repr

namespace NameSet

/-- Places `name` into an increasing list, unless it is there already. -/
def place (name : String) : List String → List String
  | [] => [name]
  | y :: ys =>
    if name < y then name :: y :: ys
    else if name = y then y :: ys
    else y :: place name ys

theorem mem_place {name x : String} {l : List String} :
    x ∈ place name l ↔ x = name ∨ x ∈ l := by
  induction l with
  | nil => simp [place]
  | cons y ys ih =>
    unfold place
    split
    · simp
    · split
      · next h => subst h; simp
      · simp only [List.mem_cons, ih]
        exact or_left_comm

theorem sorted_place {name : String} {l : List String} (h : l.Pairwise (· < ·)) :
    (place name l).Pairwise (· < ·) := by
  induction l with
  | nil => simp [place]
  | cons y ys ih =>
    obtain ⟨hy, hys⟩ := List.pairwise_cons.mp h
    unfold place
    split
    · next hlt =>
      refine List.pairwise_cons.mpr ⟨?_, h⟩
      intro z hz
      rcases List.mem_cons.mp hz with rfl | hz
      · exact hlt
      · exact String.lt_trans hlt (hy z hz)
    · next hnlt =>
      split
      · exact h
      · next hne =>
        refine List.pairwise_cons.mpr ⟨?_, ih hys⟩
        intro z hz
        rcases mem_place.mp hz with rfl | hz
        · rcases Decidable.em (y < z) with hlt | hnlt'
          · exact hlt
          · exact absurd (String.le_antisymm (String.not_lt.mp hnlt') (String.not_lt.mp hnlt)) hne
        · exact hy z hz

theorem sorted_nil : ([] : List String).Pairwise (· < ·) := List.Pairwise.nil

/-- The set without members. -/
def empty : NameSet := ⟨[], sorted_nil⟩

instance : EmptyCollection NameSet := ⟨empty⟩
instance : Inhabited NameSet := ⟨empty⟩

/-- The set with one more member. -/
def insert (s : NameSet) (name : String) : NameSet :=
  ⟨place name s.toList, sorted_place s.sorted⟩

/-- The set with every name of the list added. -/
def insertAll (s : NameSet) (names : List String) : NameSet :=
  names.foldl insert s

/-- The set of the names in a list, whatever their order and repetitions. -/
def ofList (names : List String) : NameSet :=
  empty.insertAll names

/-- The members of either set. -/
def union (s t : NameSet) : NameSet :=
  s.insertAll t.toList

instance : Membership String NameSet := ⟨fun s name => name ∈ s.toList⟩

instance (name : String) (s : NameSet) : Decidable (name ∈ s) :=
  inferInstanceAs (Decidable (name ∈ s.toList))

/-- Whether `name` is a member. -/
def contains (s : NameSet) (name : String) : Bool := decide (name ∈ s)

/-- Whether there is no member. -/
def isEmpty (s : NameSet) : Bool := s.toList.isEmpty

@[simp] theorem mem_toList {s : NameSet} {name : String} : name ∈ s.toList ↔ name ∈ s := Iff.rfl

@[simp] theorem not_mem_empty {name : String} : name ∉ (∅ : NameSet) := List.not_mem_nil

@[simp] theorem mem_insert {s : NameSet} {name x : String} :
    x ∈ s.insert name ↔ x = name ∨ x ∈ s := mem_place

@[simp] theorem mem_insertAll {s : NameSet} {names : List String} {x : String} :
    x ∈ s.insertAll names ↔ x ∈ names ∨ x ∈ s := by
  unfold insertAll
  induction names generalizing s with
  | nil => simp
  | cons n ns ih =>
    rw [List.foldl_cons, ih, mem_insert, List.mem_cons]
    constructor
    · rintro (h | h | h)
      · exact Or.inl (Or.inr h)
      · exact Or.inl (Or.inl h)
      · exact Or.inr h
    · rintro ((h | h) | h)
      · exact Or.inr (Or.inl h)
      · exact Or.inl h
      · exact Or.inr (Or.inr h)

@[simp] theorem mem_ofList {names : List String} {x : String} :
    x ∈ ofList names ↔ x ∈ names := by
  rw [ofList, mem_insertAll]
  exact or_iff_left not_mem_empty

@[simp] theorem mem_union {s t : NameSet} {x : String} :
    x ∈ s.union t ↔ x ∈ t ∨ x ∈ s := mem_insertAll

/-- An increasing list is determined by its members. -/
theorem eq_of_sorted {l m : List String} (hl : l.Pairwise (· < ·)) (hm : m.Pairwise (· < ·))
    (h : ∀ x, x ∈ l ↔ x ∈ m) : l = m := by
  induction l generalizing m with
  | nil =>
    cases m with
    | nil => rfl
    | cons y ys => exact absurd ((h y).mpr (List.mem_cons_self ..)) List.not_mem_nil
  | cons x xs ih =>
    cases m with
    | nil => exact absurd ((h x).mp (List.mem_cons_self ..)) List.not_mem_nil
    | cons y ys =>
      obtain ⟨hx, hxs⟩ := List.pairwise_cons.mp hl
      obtain ⟨hy, hys⟩ := List.pairwise_cons.mp hm
      have hxy : x = y := by
        rcases List.mem_cons.mp ((h x).mp (List.mem_cons_self ..)) with e | hmem
        · exact e
        · rcases List.mem_cons.mp ((h y).mpr (List.mem_cons_self ..)) with e | hmem'
          · exact e.symm
          · exact absurd (hx y hmem') (String.lt_asymm (hy x hmem))
      subst hxy
      refine congrArg (x :: ·) (ih hxs hys ?_)
      intro z
      have hz := h z
      constructor
      · intro hmem
        rcases List.mem_cons.mp (hz.mp (List.mem_cons_of_mem _ hmem)) with e | h'
        · exact absurd (e ▸ hx z hmem) (String.lt_irrefl x)
        · exact h'
      · intro hmem
        rcases List.mem_cons.mp (hz.mpr (List.mem_cons_of_mem _ hmem)) with e | h'
        · exact absurd (e ▸ hy z hmem) (String.lt_irrefl x)
        · exact h'

/-- Sets with the same members are equal. -/
theorem ext_mem {s t : NameSet} (h : ∀ x, x ∈ s ↔ x ∈ t) : s = t :=
  NameSet.ext (eq_of_sorted s.sorted t.sorted h)

theorem ofList_toList (s : NameSet) : ofList s.toList = s :=
  ext_mem fun _ => mem_ofList

end NameSet
end ModuleAtlas
