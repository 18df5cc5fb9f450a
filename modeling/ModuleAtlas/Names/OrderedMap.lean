/-! # Tables in order of first appearance

Entry tables, catalogs and resolved graphs are reported in the order in which their keys were
first seen.  `OrderedMap` is such a table: writing a key again changes its value and leaves its
place alone.  The view is `find?` for the values and `keys` for the order.
-/
namespace ModuleAtlas

/-- A table keyed by names.  The keys are pairwise distinct and stand in the order in which
they were first written. -/
structure OrderedMap (β : Type) where
  /-- The keys and their values, oldest key first. -/
  entries : List (String × β)
  /-- No key is repeated. -/
  distinct : (entries.map Prod.fst).Nodup := by simp

namespace OrderedMap

variable {β : Type}

/-- The keys in order of first appearance. -/
def keys (m : OrderedMap β) : List String := m.entries.map Prod.fst

/-- The values, in the order of their keys. -/
def values (m : OrderedMap β) : List β := m.entries.map Prod.snd

/-- The number of keys. -/
def size (m : OrderedMap β) : Nat := m.entries.length

/-- The value in a list of pairs whose key is `key`. -/
def lookup (key : String) : List (String × β) → Option β
  | [] => none
  | (k, v) :: rest => if k = key then some v else lookup key rest

/-- The value at a key. -/
def find? (m : OrderedMap β) (key : String) : Option β := lookup key m.entries

/-- Whether a key is present. -/
def contains (m : OrderedMap β) (key : String) : Bool := (m.find? key).isSome

/-- Writes a value at a key of a list of pairs: in place when the key is there, at the end
otherwise. -/
def write (key : String) (value : β) : List (String × β) → List (String × β)
  | [] => [(key, value)]
  | (k, v) :: rest => if k = key then (k, value) :: rest else (k, v) :: write key value rest

theorem keys_write (key : String) (value : β) (l : List (String × β)) :
    (write key value l).map Prod.fst =
      if key ∈ l.map Prod.fst then l.map Prod.fst else l.map Prod.fst ++ [key] := by
  induction l with
  | nil => simp [write]
  | cons p rest ih =>
    obtain ⟨k, v⟩ := p
    by_cases h : k = key
    · simp [write, h]
    · simp only [write, h, if_false, List.map_cons, ih, List.mem_cons]
      by_cases hm : key ∈ rest.map Prod.fst
      · simp [hm]
      · simp [hm, Ne.symm h]

theorem nodup_write {key : String} {value : β} {l : List (String × β)}
    (h : (l.map Prod.fst).Nodup) : ((write key value l).map Prod.fst).Nodup := by
  rw [keys_write]
  split
  · exact h
  · next hm =>
    refine List.nodup_append.mpr ⟨h, by simp, ?_⟩
    intro a ha b hb e
    exact hm (List.mem_singleton.mp hb ▸ e ▸ ha)

theorem mem_write {key : String} {value : β} {l : List (String × β)} {p : String × β}
    (h : p ∈ write key value l) : p = (key, value) ∨ p ∈ l := by
  induction l with
  | nil => exact Or.inl (List.mem_singleton.mp h)
  | cons q rest ih =>
    obtain ⟨k, v⟩ := q
    by_cases hk : k = key
    · simp only [write, hk, if_true] at h
      rcases List.mem_cons.mp h with e | h
      · exact Or.inl e
      · exact Or.inr (List.mem_cons_of_mem _ h)
    · simp only [write, hk, if_false] at h
      rcases List.mem_cons.mp h with e | h
      · exact Or.inr (e ▸ List.mem_cons_self ..)
      · exact (ih h).imp id (List.mem_cons_of_mem _)

/-- The table without keys. -/
def empty : OrderedMap β := ⟨[], List.nodup_nil⟩

instance : EmptyCollection (OrderedMap β) := ⟨empty⟩
instance : Inhabited (OrderedMap β) := ⟨empty⟩

/-- Writes a value at a key.  A new key goes to the end, a known key keeps its place. -/
def insert (m : OrderedMap β) (key : String) (value : β) : OrderedMap β :=
  ⟨write key value m.entries, nodup_write m.distinct⟩

/-- Writes a value at a key that is not there yet; a known key keeps its value. -/
def insertNew (m : OrderedMap β) (key : String) (value : β) : OrderedMap β :=
  if m.contains key then m else m.insert key value

theorem lookup_write (key other : String) (value : β) (l : List (String × β)) :
    lookup other (write key value l) = if key = other then some value else lookup other l := by
  induction l with
  | nil => simp [write, lookup]
  | cons p rest ih =>
    obtain ⟨k, v⟩ := p
    by_cases h : k = key
    · subst h
      by_cases ho : k = other <;> simp [write, lookup, ho]
    · by_cases hk : k = other
      · subst hk
        simp [write, lookup, h, Ne.symm h]
      · simp [write, lookup, h, hk, ih]

@[simp] theorem find?_empty (key : String) : (∅ : OrderedMap β).find? key = none := rfl

@[simp] theorem keys_empty : (∅ : OrderedMap β).keys = [] := rfl

theorem find?_insert (m : OrderedMap β) (key other : String) (value : β) :
    (m.insert key value).find? other = if key = other then some value else m.find? other :=
  lookup_write key other value m.entries

theorem isSome_lookup_iff {key : String} {l : List (String × β)} :
    (lookup key l).isSome ↔ key ∈ l.map Prod.fst := by
  induction l with
  | nil => simp [lookup]
  | cons p rest ih =>
    obtain ⟨k, v⟩ := p
    by_cases h : k = key
    · simp [lookup, h]
    · simp only [lookup, h, if_false, ih, List.map_cons, List.mem_cons]
      exact ⟨Or.inr, fun hh => hh.resolve_left fun e => h e.symm⟩

theorem contains_iff {m : OrderedMap β} {key : String} : m.contains key ↔ key ∈ m.keys :=
  isSome_lookup_iff

theorem keys_insert (m : OrderedMap β) (key : String) (value : β) :
    (m.insert key value).keys = if key ∈ m.keys then m.keys else m.keys ++ [key] :=
  keys_write key value m.entries

theorem find?_insertNew (m : OrderedMap β) (key other : String) (value : β) :
    (m.insertNew key value).find? other =
      if key = other ∧ m.find? key = none then some value else m.find? other := by
  unfold insertNew contains
  cases h : m.find? key with
  | none => simp [find?_insert]
  | some v => simp

theorem keys_insertNew (m : OrderedMap β) (key : String) (value : β) :
    (m.insertNew key value).keys = if key ∈ m.keys then m.keys else m.keys ++ [key] := by
  unfold insertNew
  by_cases h : key ∈ m.keys
  · rw [if_pos (contains_iff.mpr h), if_pos h]
  · rw [if_neg (fun hc => h (contains_iff.mp hc)), keys_insert]

/-- Of a value that is written at new keys only, a look-up finds what was there first. -/
theorem find?_foldl_insertNew (value : β) (keys : List String) (m : OrderedMap β) (key : String) :
    (keys.foldl (fun m k => m.insertNew k value) m).find? key =
      (m.find? key).or (if key ∈ keys then some value else none) := by
  induction keys generalizing m with
  | nil => exact (Option.or_none).symm
  | cons k keys ih =>
    rw [List.foldl_cons, ih, find?_insertNew]
    by_cases hk : k = key
    · subst hk
      cases hfind : m.find? k with
      | none => simp
      | some v => simp
    · have hmem : key ∈ k :: keys ↔ key ∈ keys :=
        ⟨fun h => (List.mem_cons.mp h).resolve_left (Ne.symm hk), List.mem_cons_of_mem k⟩
      rw [if_neg fun h => hk h.1]
      simp only [hmem]

theorem lookup_eq_some_iff {key : String} {value : β} {l : List (String × β)}
    (h : (l.map Prod.fst).Nodup) : lookup key l = some value ↔ (key, value) ∈ l := by
  induction l with
  | nil => simp [lookup]
  | cons p rest ih =>
    obtain ⟨k, v⟩ := p
    obtain ⟨hk, hrest⟩ := List.nodup_cons.mp h
    by_cases he : k = key
    · subst he
      -- the key does not occur again further on
      have hnot : (k, value) ∉ rest := fun hm => hk (List.mem_map.mpr ⟨(k, value), hm, rfl⟩)
      simp [lookup, hnot, eq_comm]
    · have hne : (key, value) ≠ (k, v) := fun e => he (congrArg Prod.fst e).symm
      rw [lookup, if_neg he, ih hrest, List.mem_cons]
      exact ⟨Or.inr, fun hm => hm.resolve_left hne⟩

theorem find?_eq_some_iff {m : OrderedMap β} {key : String} {value : β} :
    m.find? key = some value ↔ (key, value) ∈ m.entries := lookup_eq_some_iff m.distinct

theorem mem_keys_of_find? {m : OrderedMap β} {key : String} {value : β}
    (h : m.find? key = some value) : key ∈ m.keys :=
  List.mem_map_of_mem (f := Prod.fst) (find?_eq_some_iff.mp h)

theorem mem_values_of_find? {m : OrderedMap β} {key : String} {value : β}
    (h : m.find? key = some value) : value ∈ m.values :=
  List.mem_map_of_mem (f := Prod.snd) (find?_eq_some_iff.mp h)

theorem exists_find?_of_mem {m : OrderedMap β} {key : String} (h : key ∈ m.keys) :
    ∃ value, m.find? key = some value :=
  Option.isSome_iff_exists.mp (contains_iff.mpr h)

theorem write_of_not_mem {key : String} {value : β} {l : List (String × β)}
    (h : key ∉ l.map Prod.fst) : write key value l = l ++ [(key, value)] := by
  induction l with
  | nil => rfl
  | cons p rest ih =>
    obtain ⟨k, v⟩ := p
    rw [List.map_cons, List.mem_cons, not_or] at h
    rw [write, if_neg (Ne.symm h.1), ih h.2, List.cons_append]

/-- Writing values at new keys appends them. -/
theorem entries_foldl_insert {α : Type} (key : α → String) (value : α → β) {items : List α}
    {m : OrderedMap β} (h : (m.keys ++ items.map key).Nodup) :
    (items.foldl (fun m a => m.insert (key a) (value a)) m).entries =
      m.entries ++ items.map fun a => (key a, value a) := by
  induction items generalizing m with
  | nil => simp
  | cons a items ih =>
    have hnew : key a ∉ m.keys := by
      intro hm
      exact (List.nodup_append.mp h).2.2 (key a) hm (key a) List.mem_cons_self rfl
    have hentries : (m.insert (key a) (value a)).entries = m.entries ++ [(key a, value a)] :=
      write_of_not_mem hnew
    have hkeys : (m.insert (key a) (value a)).keys = m.keys ++ [key a] := by
      rw [keys_insert, if_neg hnew]
    rw [List.foldl_cons, ih (by rw [hkeys]; simpa using h), hentries]
    simp

end OrderedMap
end ModuleAtlas
