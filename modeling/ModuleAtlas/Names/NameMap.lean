import ModuleAtlas.Names.NameSet

/-! # Tables in key order

`NameMap` is a table whose keys stand in increasing order, each once; recorded hashes and the
report on split packages are of this form.  Writing a key again replaces its value.  The view is
`find?`: tables with the same values at all keys are equal (`NameMap.ext_find?`).
-/
namespace ModuleAtlas

/-- A table keyed by names, in increasing order of the keys. -/
structure NameMap (β : Type) where
  /-- The keys and their values, least key first. -/
  entries : List (String × β)
  /-- No key is repeated and none is out of place. -/
  sorted : (entries.map Prod.fst).Pairwise (· < ·) := by simp
deriving DecidableEq

namespace NameMap

variable {β : Type}

/-- Writes a value at its place in an increasing list of pairs. -/
def place (key : String) (value : β) : List (String × β) → List (String × β)
  | [] => [(key, value)]
  | (k, v) :: rest =>
    if key < k then (key, value) :: (k, v) :: rest
    else if key = k then (key, value) :: rest
    else (k, v) :: place key value rest

theorem mem_keys_place {key x : String} {value : β} {l : List (String × β)} :
    x ∈ (place key value l).map Prod.fst ↔ x = key ∨ x ∈ l.map Prod.fst := by
  induction l with
  | nil => simp [place]
  | cons p rest ih =>
    obtain ⟨k, v⟩ := p
    unfold place
    split
    · simp
    · split
      · next h => subst h; simp
      · simp only [List.map_cons, List.mem_cons, ih]
        exact or_left_comm

theorem sorted_place {key : String} {value : β} {l : List (String × β)}
    (h : (l.map Prod.fst).Pairwise (· < ·)) :
    ((place key value l).map Prod.fst).Pairwise (· < ·) := by
  induction l with
  | nil => simp [place]
  | cons p rest ih =>
    obtain ⟨k, v⟩ := p
    obtain ⟨hk, hrest⟩ := List.pairwise_cons.mp h
    unfold place
    split
    · next hlt =>
      refine List.pairwise_cons.mpr ⟨?_, h⟩
      intro z hz
      rcases List.mem_cons.mp hz with rfl | hz
      · exact hlt
      · exact String.lt_trans hlt (hk z hz)
    · next hnlt =>
      split
      · next heq => subst heq; exact h
      · next hne =>
        refine List.pairwise_cons.mpr ⟨?_, ih hrest⟩
        intro z hz
        rcases mem_keys_place.mp hz with rfl | hz
        · rcases Decidable.em (k < z) with hlt | hnlt'
          · exact hlt
          · exact absurd (String.le_antisymm (String.not_lt.mp hnlt') (String.not_lt.mp hnlt)) hne
        · exact hk z hz

/-- The table without keys. -/
def empty : NameMap β := ⟨[], List.Pairwise.nil⟩

instance : EmptyCollection (NameMap β) := ⟨empty⟩
instance : Inhabited (NameMap β) := ⟨empty⟩

/-- Writes a value at a key, in place of the one that may stand there. -/
def insert (m : NameMap β) (key : String) (value : β) : NameMap β :=
  ⟨place key value m.entries, sorted_place m.sorted⟩

/-- The table of a list of pairs, in which later pairs replace earlier ones. -/
def ofList (pairs : List (String × β)) : NameMap β :=
  pairs.foldl (fun m p => m.insert p.1 p.2) empty

/-- The keys in increasing order. -/
def keys (m : NameMap β) : List String := m.entries.map Prod.fst

/-- The value at a key. -/
def find? (m : NameMap β) (key : String) : Option β :=
  (m.entries.find? fun p => p.1 == key).map Prod.snd

/-- Whether there is no key. -/
def isEmpty (m : NameMap β) : Bool := m.entries.isEmpty

theorem find?_place (key other : String) (value : β) (l : List (String × β)) :
    ((place key value l).find? fun p => p.1 == other) =
      if key = other then some (key, value) else l.find? fun p => p.1 == other := by
  induction l with
  | nil => by_cases h : key = other <;> simp [place, h]
  | cons p rest ih =>
    obtain ⟨k, v⟩ := p
    unfold place
    by_cases hlt : key < k
    · rw [if_pos hlt]
      by_cases h : key = other <;> simp [h]
    · rw [if_neg hlt]
      by_cases hk : key = k
      · subst hk
        by_cases h : key = other <;> simp [h]
      · rw [if_neg hk, List.find?_cons, ih]
        by_cases h : key = other
        · subst h
          simp [beq_eq_false_iff_ne.mpr (Ne.symm hk)]
        · rw [if_neg h, if_neg h, List.find?_cons]

theorem find?_insert (m : NameMap β) (key other : String) (value : β) :
    (m.insert key value).find? other = if key = other then some value else m.find? other := by
  rw [find?, insert, find?_place]
  by_cases h : key = other
  · rw [if_pos h, if_pos h]
    rfl
  · rw [if_neg h, if_neg h]
    rfl

/-- Of several pairs with one key the last one counts. -/
theorem find?_foldl_insert (pairs : List (String × β)) (m : NameMap β) (key : String) :
    (pairs.foldl (fun m p => m.insert p.1 p.2) m).find? key =
      ((pairs.reverse.find? fun p => p.1 == key).map Prod.snd).or (m.find? key) := by
  induction pairs generalizing m with
  | nil => rfl
  | cons p pairs ih =>
    rw [List.foldl_cons, ih, find?_insert, List.reverse_cons, List.find?_append]
    cases pairs.reverse.find? fun p => p.1 == key with
    | some q => rfl
    | none => by_cases h : p.1 = key <;> simp [h]

/-- Pairs that give each key one value are found as they are. -/
theorem find?_ofList_eq_some_iff {pairs : List (String × β)} {key : String} {value : β}
    (h : ∀ p ∈ pairs, ∀ q ∈ pairs, p.1 = q.1 → p = q) :
    (ofList pairs).find? key = some value ↔ (key, value) ∈ pairs := by
  have hempty : (empty : NameMap β).find? key = none := rfl
  rw [ofList, find?_foldl_insert, hempty, Option.or_none, Option.map_eq_some_iff]
  constructor
  · rintro ⟨p, hfind, rfl⟩
    have hkey : p.1 = key := by
      have hp := List.find?_some hfind
      exact eq_of_beq hp
    exact hkey ▸ List.mem_reverse.mp (List.mem_of_find?_eq_some hfind)
  · intro hmem
    have hsome : (pairs.reverse.find? fun p => p.1 == key).isSome :=
      List.find?_isSome.mpr ⟨(key, value), List.mem_reverse.mpr hmem, beq_self_eq_true key⟩
    obtain ⟨p, hfind⟩ := Option.isSome_iff_exists.mp hsome
    have hkey : p.1 = key := by
      have hp := List.find?_some hfind
      exact eq_of_beq hp
    have hp : p = (key, value) :=
      h p (List.mem_reverse.mp (List.mem_of_find?_eq_some hfind)) _ hmem hkey
    exact ⟨p, hfind, congrArg Prod.snd hp⟩

theorem isSome_find?_iff {m : NameMap β} {key : String} : (m.find? key).isSome ↔ key ∈ m.keys := by
  rw [find?, Option.isSome_map, List.find?_isSome, keys, List.mem_map]
  exact exists_congr fun p => and_congr_right fun _ => beq_iff_eq

/-- In an increasing list of pairs, each pair is found by its key. -/
theorem map_find?_keys {l : List (String × β)} (h : (l.map Prod.fst).Pairwise (· < ·)) :
    (l.map fun p => (p.1, some p.2)) =
      (l.map Prod.fst).map fun k => (k, (l.find? fun p => p.1 == k).map Prod.snd) := by
  induction l with
  | nil => rfl
  | cons p rest ih =>
    obtain ⟨hfirst, hrest⟩ := List.pairwise_cons.mp h
    have hlater : ∀ k ∈ rest.map Prod.fst, ((p :: rest).find? fun q => q.1 == k) =
        rest.find? fun q => q.1 == k := by
      intro k hk
      refine List.find?_cons_of_neg fun he => ?_
      have hkey : p.1 = k := eq_of_beq he
      exact String.lt_irrefl k (hkey ▸ hfirst k hk)
    have hhead : ((p :: rest).find? fun q => q.1 == p.1) = some p :=
      List.find?_cons_of_pos (beq_self_eq_true p.1)
    rw [List.map_cons, List.map_cons, List.map_cons, hhead, ih hrest]
    refine congrArg ((p.1, some p.2) :: ·) (List.map_congr_left fun k hk => ?_)
    rw [hlater k hk]

/-- Tables with the same values at all keys are equal. -/
theorem ext_find? {m n : NameMap β} (h : ∀ key, m.find? key = n.find? key) : m = n := by
  have hkeys : m.entries.map Prod.fst = n.entries.map Prod.fst :=
    NameSet.eq_of_sorted m.sorted n.sorted fun key => by
      show key ∈ m.keys ↔ key ∈ n.keys
      rw [← isSome_find?_iff, ← isSome_find?_iff, h]
  have hpairs : (m.entries.map fun p => (p.1, some p.2)) =
      n.entries.map fun p => (p.1, some p.2) := by
    rw [map_find?_keys m.sorted, map_find?_keys n.sorted, hkeys]
    exact List.map_congr_left fun k _ => congrArg (Prod.mk k) (h k)
  have hinjective : ∀ p q : String × β, (p.1, some p.2) = (q.1, some q.2) → p = q := by
    intro p q he
    obtain ⟨hfst, hsnd⟩ := Prod.mk.inj he
    exact Prod.ext hfst (Option.some.inj hsnd)
  have hentries : m.entries = n.entries := (List.map_inj_right hinjective).mp hpairs
  cases m
  cases n
  cases hentries
  rfl

/-- A key beyond all others goes to the end. -/
theorem place_of_forall_lt {key : String} {value : β} {l : List (String × β)}
    (h : ∀ k ∈ l.map Prod.fst, k < key) : place key value l = l ++ [(key, value)] := by
  induction l with
  | nil => rfl
  | cons p rest ih =>
    obtain ⟨k, v⟩ := p
    have hk : k < key := h k List.mem_cons_self
    have hne : key ≠ k := fun e => String.lt_irrefl k (e ▸ hk)
    rw [place, if_neg (String.lt_asymm hk), if_neg hne,
      ih fun x hx => h x (List.mem_cons_of_mem _ hx), List.cons_append]

theorem ofList_entries (m : NameMap β) : ofList m.entries = m := by
  -- entries that lie beyond those of a table are appended to it one by one
  have key : ∀ (pairs : List (String × β)) (t : NameMap β),
      ((t.entries ++ pairs).map Prod.fst).Pairwise (· < ·) →
      (pairs.foldl (fun m p => m.insert p.1 p.2) t).entries = t.entries ++ pairs := by
    intro pairs
    induction pairs with
    | nil => intro t _; exact (List.append_nil _).symm
    | cons p pairs ih =>
      intro t hsorted
      have hlast : ∀ k ∈ t.entries.map Prod.fst, k < p.1 := by
        rw [List.map_append] at hsorted
        exact fun k hk => (List.pairwise_append.mp hsorted).2.2 k hk p.1 List.mem_cons_self
      have hentries : (t.insert p.1 p.2).entries = t.entries ++ [p] := place_of_forall_lt hlast
      have hassoc : t.entries ++ p :: pairs = (t.insert p.1 p.2).entries ++ pairs := by
        rw [hentries, List.append_assoc]
        rfl
      rw [hassoc] at hsorted ⊢
      exact ih _ hsorted
  have hm := key m.entries empty m.sorted
  obtain ⟨entries, sorted⟩ := m
  unfold ofList
  cases hfold : entries.foldl (fun m p => m.insert p.1 p.2) empty with
  | mk entries' sorted' =>
    rw [hfold] at hm
    subst hm
    rfl

end NameMap
end ModuleAtlas
