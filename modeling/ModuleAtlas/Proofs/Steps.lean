import Mathlib.Data.List.Forall2

/-! # Steps that can fail

A sequence of steps succeeds exactly if each of its steps does.  `bind_eq_ok_iff` takes one step off
a sequence, and `mapM_eq_ok_iff` looks at the same step on every item of a list, where the results
stand in the order of the items (`List.Forall₂`).

Two sequences of steps are compared step by step: they agree if both succeed with related results or
both fail for the same reason (`Agree`).  A sequence fails only for reasons of some kind if each of its
steps does (`FailsOnly`).
-/
namespace ModuleAtlas.Steps

variable {α β ε : Type}

theorem bind_eq_ok_iff {step : Except ε α} {next : α → Except ε β} {b : β} :
    step >>= next = .ok b ↔ ∃ a, step = .ok a ∧ next a = .ok b := by
  cases step with
  | error e => simp [bind, Except.bind]
  | ok a => simp [bind, Except.bind]

theorem bind_of_ok {step : Except ε α} {a : α} (h : step = .ok a) (next : α → Except ε β) :
    step >>= next = next a := by
  rw [h]
  rfl

theorem bind_of_error {step : Except ε α} {e : ε} (h : step = .error e) (next : α → Except ε β) :
    step >>= next = .error e := by
  rw [h]
  rfl

theorem map_eq_ok_iff {step : Except ε α} {f : α → β} {b : β} :
    step.map f = .ok b ↔ ∃ a, step = .ok a ∧ f a = b := by
  cases step with
  | error e => simp [Except.map]
  | ok a => simp [Except.map]

theorem map_eq_error_iff {step : Except ε α} {f : α → β} {e : ε} :
    step.map f = .error e ↔ step = .error e := by
  cases step with
  | error e' => simp [Except.map]
  | ok a => simp [Except.map]

theorem map_bind {γ : Type} (step : Except ε α) (next : α → Except ε β) (f : β → γ) :
    (step >>= next).map f = step >>= fun a => (next a).map f := by
  cases step <;> rfl

theorem mapError_eq_ok_iff {ε' : Type} {step : Except ε α} {f : ε → ε'} {a : α} :
    step.mapError f = .ok a ↔ step = .ok a := by
  cases step with
  | error e => simp [Except.mapError]
  | ok a => simp [Except.mapError]

theorem mapError_eq_error_iff {ε' : Type} {step : Except ε α} {f : ε → ε'} {e' : ε'} :
    step.mapError f = .error e' ↔ ∃ e, step = .error e ∧ f e = e' := by
  cases step with
  | error e => simp [Except.mapError]
  | ok a => simp [Except.mapError]

theorem mapM_eq_ok_iff {step : α → Except ε β} {items : List α} {results : List β} :
    items.mapM step = .ok results ↔ List.Forall₂ (fun a b => step a = .ok b) items results := by
  induction items generalizing results with
  | nil =>
    rw [List.mapM_nil, List.forall₂_nil_left_iff]
    exact ⟨fun h => (Except.ok.inj h).symm, fun h => h ▸ rfl⟩
  | cons a items ih =>
    rw [List.mapM_cons, bind_eq_ok_iff]
    constructor
    · rintro ⟨b, hb, hrest⟩
      obtain ⟨bs, hbs, he⟩ := bind_eq_ok_iff.mp hrest
      obtain rfl : b :: bs = results := Except.ok.inj he
      exact .cons hb (ih.mp hbs)
    · rintro (_ | ⟨hb, hrest⟩)
      exact ⟨_, hb, bind_eq_ok_iff.mpr ⟨_, ih.mpr hrest, rfl⟩⟩

/-- Each result is that of an item. -/
theorem exists_of_mem_mapM {step : α → Except ε β} {items : List α} {results : List β} {b : β}
    (h : items.mapM step = .ok results) (hb : b ∈ results) : ∃ a ∈ items, step a = .ok b := by
  replace h := mapM_eq_ok_iff.mp h
  induction h with
  | nil => exact absurd hb List.not_mem_nil
  | @cons a _ items _ ha _ ih =>
    rcases List.mem_cons.mp hb with rfl | hb
    · exact ⟨a, List.mem_cons_self, ha⟩
    · obtain ⟨a', hmem, ha'⟩ := ih hb
      exact ⟨a', List.mem_cons_of_mem a hmem, ha'⟩

/-- There are results if each step has one. -/
theorem exists_mapM_eq_ok_iff {step : α → Except ε β} {items : List α} :
    (∃ results, items.mapM step = .ok results) ↔ ∀ a ∈ items, ∃ b, step a = .ok b := by
  induction items with
  | nil => exact ⟨fun _ a ha => absurd ha List.not_mem_nil, fun _ => ⟨[], rfl⟩⟩
  | cons a items ih =>
    rw [List.forall_mem_cons, ← ih, List.mapM_cons]
    constructor
    · rintro ⟨_, h⟩
      obtain ⟨b, hb, hrest⟩ := bind_eq_ok_iff.mp h
      obtain ⟨results, hresults, -⟩ := bind_eq_ok_iff.mp hrest
      exact ⟨⟨b, hb⟩, results, hresults⟩
    · rintro ⟨⟨b, hb⟩, results, hresults⟩
      exact ⟨b :: results, bind_eq_ok_iff.mpr ⟨b, hb, bind_eq_ok_iff.mpr ⟨results, hresults, rfl⟩⟩⟩

theorem map_eq_map_of_forall₂ {γ : Type} {f : α → γ} {g : β → γ} {items : List α}
    {results : List β} (h : List.Forall₂ (fun a b => f a = g b) items results) :
    items.map f = results.map g := by
  induction h with
  | nil => rfl
  | cons he _ ih => rw [List.map_cons, List.map_cons, he, ih]

/-! ## Steps that agree -/

/-- Both succeed, with related results, or both fail, for the same reason. -/
inductive Agree (R : α → β → Prop) : Except ε α → Except ε β → Prop
  | ok {a : α} {b : β} (h : R a b) : Agree R (.ok a) (.ok b)
  | error (e : ε) : Agree R (.error e) (.error e)

namespace Agree
variable {α' β' ε' : Type} {R : α → β → Prop} {S : α' → β' → Prop} {left : Except ε α}
  {right : Except ε β}

/-- A step agrees with itself. -/
theorem refl (step : Except ε α) : Agree (fun a b => step = .ok a ∧ a = b) step step := by
  cases step with
  | ok a => exact .ok ⟨rfl, rfl⟩
  | error e => exact .error e

theorem mono {S : α → β → Prop} (h : Agree R left right)
    (hle : ∀ a b, left = .ok a → right = .ok b → R a b → S a b) : Agree S left right := by
  cases h with
  | ok hab => exact .ok (hle _ _ rfl rfl hab)
  | error e => exact .error e

theorem bind (h : Agree R left right) {f : α → Except ε α'} {g : β → Except ε β'}
    (hnext : ∀ a b, R a b → Agree S (f a) (g b)) : Agree S (left >>= f) (right >>= g) := by
  cases h with
  | ok hab => exact hnext _ _ hab
  | error e => exact .error e

theorem map_eq_map (h : Agree R left right) {γ : Type} {f : α → γ} {g : β → γ}
    (hfg : ∀ a b, R a b → f a = g b) : left.map f = right.map g := by
  cases h with
  | ok hab => exact congrArg Except.ok (hfg _ _ hab)
  | error e => rfl

theorem mapError (h : Agree R left right) (f : ε → ε') :
    Agree R (left.mapError f) (right.mapError f) := by
  cases h with
  | ok hab => exact .ok hab
  | error e => exact .error (f e)

/-- The same step on related items. -/
theorem mapM {f : α → Except ε α'} {g : β → Except ε β'} {items : List α} {items' : List β}
    (h : List.Forall₂ (fun a b => Agree S (f a) (g b)) items items') :
    Agree (List.Forall₂ S) (items.mapM f) (items'.mapM g) := by
  induction h with
  | nil => exact .ok .nil
  | cons hab _ ih =>
    rw [List.mapM_cons, List.mapM_cons]
    exact hab.bind fun _ _ hhead => ih.bind fun _ _ htail => .ok (.cons hhead htail)

end Agree

/-! ## Reasons of failures -/

/-- The step does not fail but for a reason of some kind. -/
def FailsOnly (P : ε → Prop) (step : Except ε α) : Prop := ∀ e, step = .error e → P e

namespace FailsOnly
variable {P : ε → Prop} {step : Except ε α}

theorem ok (a : α) : FailsOnly P (.ok a : Except ε α) := by
  intro e h
  cases h

theorem error {e : ε} (h : P e) : FailsOnly P (.error e : Except ε α) := by
  intro e' h'
  exact Except.error.inj h' ▸ h

theorem bind (h : FailsOnly P step) {next : α → Except ε β} (hnext : ∀ a, FailsOnly P (next a)) :
    FailsOnly P (step >>= next) := by
  cases step with
  | error e => exact error (h e rfl)
  | ok a => exact hnext a

/-- All failures are turned into some of the kind. -/
theorem mapError {ε' : Type} {step : Except ε' α} {f : ε' → ε} (hf : ∀ e, P (f e)) :
    FailsOnly P (step.mapError f) := by
  cases step with
  | error e => exact .error (hf e)
  | ok a => exact .ok a

theorem map (h : FailsOnly P step) (f : α → β) : FailsOnly P (step.map f) := by
  cases step with
  | error e => exact error (h e rfl)
  | ok a => exact ok (f a)

theorem mapM {f : α → Except ε β} (h : ∀ a, FailsOnly P (f a)) (items : List α) :
    FailsOnly P (items.mapM f) := by
  induction items with
  | nil => exact ok []
  | cons a items ih =>
    rw [List.mapM_cons]
    exact (h a).bind fun b => ih.bind fun bs => ok (b :: bs)

end FailsOnly
end ModuleAtlas.Steps
