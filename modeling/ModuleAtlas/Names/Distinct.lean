/-! # Lists of distinct values

Names are often collected into a list in which each counts where it first appears.  `appendNew`
adds one value to such a list; it keeps the list free of repetitions and the old values in place.
-/
namespace ModuleAtlas

variable {α : Type} [DecidableEq α]

/-- Adds a value at the end unless it is there. -/
def appendNew (values : List α) (value : α) : List α :=
  if value ∈ values then values else values ++ [value]

/-- Adds values at the end, leaving out those that are there. -/
def appendAllNew (values more : List α) : List α := more.foldl appendNew values

/-- The values of a list, each where it first appears. -/
def distinct (values : List α) : List α := appendAllNew [] values

@[simp] theorem mem_appendNew {values : List α} {value x : α} :
    x ∈ appendNew values value ↔ x ∈ values ∨ x = value := by
  unfold appendNew
  split
  · next h => exact ⟨Or.inl, fun hx => hx.elim id fun e => e ▸ h⟩
  · simp

theorem nodup_appendNew {values : List α} {value : α} (h : values.Nodup) :
    (appendNew values value).Nodup := by
  unfold appendNew
  split
  · exact h
  · next hn =>
    refine List.nodup_append.mpr ⟨h, by simp, ?_⟩
    intro a ha b hb e
    exact hn (List.mem_singleton.mp hb ▸ e ▸ ha)

@[simp] theorem mem_appendAllNew {values more : List α} {x : α} :
    x ∈ appendAllNew values more ↔ x ∈ values ∨ x ∈ more := by
  unfold appendAllNew
  induction more generalizing values with
  | nil => simp
  | cons n rest ih => rw [List.foldl_cons, ih, mem_appendNew, List.mem_cons, or_assoc]

theorem nodup_appendAllNew {values more : List α} (h : values.Nodup) :
    (appendAllNew values more).Nodup := by
  unfold appendAllNew
  induction more generalizing values with
  | nil => exact h
  | cons n rest ih => exact ih (nodup_appendNew h)

@[simp] theorem mem_distinct {values : List α} {x : α} : x ∈ distinct values ↔ x ∈ values := by
  simp [distinct]

theorem nodup_distinct (values : List α) : (distinct values).Nodup :=
  nodup_appendAllNew List.nodup_nil

theorem distinct_concat (values : List α) (value : α) :
    distinct (values ++ [value]) = appendNew (distinct values) value := by
  unfold distinct appendAllNew
  rw [List.foldl_append]
  rfl

theorem appendAllNew_appendNew (values more : List α) (value : α) :
    appendAllNew values (appendNew more value) = appendNew (appendAllNew values more) value := by
  by_cases h : value ∈ more
  · have hlater : value ∈ appendAllNew values more := mem_appendAllNew.mpr (.inr h)
    rw [appendNew, if_pos h, appendNew, if_pos hlater]
  · rw [appendNew, if_neg h, appendAllNew, List.foldl_append]
    rfl

/-- What is added need not be free of repetitions. -/
theorem appendAllNew_appendAllNew (values more rest : List α) :
    appendAllNew values (appendAllNew more rest) =
      appendAllNew (appendAllNew values more) rest := by
  induction rest generalizing more with
  | nil => rfl
  | cons value rest ih =>
    show appendAllNew values (appendAllNew (appendNew more value) rest) = _
    rw [ih, appendAllNew_appendNew]
    rfl

theorem appendAllNew_distinct (values more : List α) :
    appendAllNew values (distinct more) = appendAllNew values more :=
  appendAllNew_appendAllNew values [] more

theorem distinct_distinct (values : List α) : distinct (distinct values) = distinct values :=
  appendAllNew_distinct [] values

theorem distinct_append (values more : List α) :
    distinct (values ++ more) = appendAllNew (distinct values) more :=
  List.foldl_append

theorem appendAllNew_of_nodup {values more : List α} (h : (values ++ more).Nodup) :
    appendAllNew values more = values ++ more := by
  induction more generalizing values with
  | nil => exact (List.append_nil values).symm
  | cons value more ih =>
    have hnew : value ∉ values := fun hold =>
      (List.nodup_append.mp h).2.2 value hold value List.mem_cons_self rfl
    show appendAllNew (appendNew values value) more = _
    rw [appendNew, if_neg hnew, ih (by rwa [List.append_assoc]), List.append_assoc]
    rfl

theorem distinct_of_nodup {values : List α} (h : values.Nodup) : distinct values = values :=
  appendAllNew_of_nodup h

theorem filter_appendNew {p : α → Bool} (values : List α) (value : α) :
    (appendNew values value).filter p =
      if p value then appendNew (values.filter p) value else values.filter p := by
  by_cases hold : value ∈ values
  · rw [appendNew, if_pos hold]
    split
    · next hp => rw [appendNew, if_pos (List.mem_filter.mpr ⟨hold, hp⟩)]
    · rfl
  · rw [appendNew, if_neg hold, List.filter_append]
    split
    · next hp =>
      rw [appendNew, if_neg fun h => hold (List.mem_filter.mp h).1, List.filter_cons_of_pos hp,
        List.filter_nil]
    · next hp => rw [List.filter_cons_of_neg hp, List.filter_nil, List.append_nil]

theorem filter_appendAllNew {p : α → Bool} (values more : List α) :
    (appendAllNew values more).filter p = appendAllNew (values.filter p) (more.filter p) := by
  unfold appendAllNew
  induction more generalizing values with
  | nil => rfl
  | cons value more ih =>
    rw [List.foldl_cons, ih, filter_appendNew, List.filter_cons]
    split <;> rfl

theorem filter_distinct {p : α → Bool} (values : List α) :
    (distinct values).filter p = distinct (values.filter p) :=
  filter_appendAllNew [] values

/-- A list comes to a value for the first time behind all that differs from the value. -/
theorem eq_takeWhile_ne_append {l : List α} {value : α} (h : value ∈ l) :
    ∃ rest, l = l.takeWhile (· ≠ value) ++ value :: rest := by
  induction l with
  | nil => exact absurd h List.not_mem_nil
  | cons x l ih =>
    by_cases hx : x = value
    · exact ⟨l, by simp [hx]⟩
    · obtain ⟨rest, hrest⟩ := ih ((List.mem_cons.mp h).resolve_left (Ne.symm hx))
      refine ⟨rest, ?_⟩
      rw [List.takeWhile_cons_of_pos (p := fun y => decide (y ≠ value)) (decide_eq_true hx),
        List.cons_append, ← hrest]

end ModuleAtlas
