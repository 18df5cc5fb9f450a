import Mathlib.Data.Option.Basic
import ModuleAtlas.Proofs.Resolution.Reads
import ModuleAtlas.Proofs.Steps

/-! # Resolving over descriptors that differ in what resolution does not look at

Of a descriptor, resolution looks at the name and at the requirements.  Two finders that find for
every name modules alike in these select alike, module by module (`select_agree`).  Selections that
answer for every name alike have the same circles and the same reads, whatever their order
(`searchCircle_congr`, `readAlong_congr_alike`).  So the two resolutions agree (`resolve_agree`), in
the answer as well as in the reason why there is none.

How modules have to be alike beyond that is left open: the relation between the modules that are
found is the relation between the modules that take part.
-/
namespace ModuleAtlas
open Steps

/-- Two references are alike to resolution: they have one name and require the same modules. -/
structure ModuleReference.Alike (r s : ModuleReference) : Prop where
  name : r.name = s.name
  requires : r.descriptor.requires = s.descriptor.requires

namespace ModuleReference.Alike
variable {r s : ModuleReference}

theorem requiredNames (h : r.Alike s) : r.requiredNames = s.requiredNames :=
  congrArg (List.map Requires.name) h.requires

theorem followedNames (h : r.Alike s) : r.followedNames = s.followedNames :=
  congrArg (fun l => (l.filter fun q : Requires => !q.modifiers.isStatic).map Requires.name)
    h.requires

theorem transitiveNames (h : r.Alike s) : r.transitiveNames = s.transitiveNames :=
  congrArg (fun l => (l.filter fun q : Requires => q.modifiers.transitive).map Requires.name)
    h.requires

end ModuleReference.Alike

section
variable {α β : Type} {R : α → β → Prop} {o : Option α} {o' : Option β}

theorem eq_none_of_rel (h : Option.Rel R o o') (ho : o = none) : o' = none := by
  subst ho
  cases h
  rfl

theorem exists_of_rel (h : Option.Rel R o o') {a : α} (ho : o = some a) :
    ∃ b, o' = some b ∧ R a b := by
  subst ho
  cases h with
  | some hab => exact ⟨_, rfl, hab⟩

theorem rel_mono {S : α → β → Prop} (hle : ∀ a b, R a b → S a b) (h : Option.Rel R o o') :
    Option.Rel S o o' := by
  cases h with
  | none => exact .none
  | some hab => exact .some (hle _ _ hab)

theorem map_eq_map_of_rel {γ : Type} {f : α → γ} {g : β → γ} (hfg : ∀ a b, R a b → f a = g b)
    (h : Option.Rel R o o') : o.map f = o'.map g := by
  cases h with
  | none => rfl
  | some hab => exact congrArg some (hfg _ _ hab)

/-- In related lists, what is found first is related. -/
theorem find?_of_forall₂ {p : α → Bool} {q : β → Bool} (hpq : ∀ a b, R a b → p a = q b)
    {l : List α} {m : List β} (h : List.Forall₂ R l m) :
    Option.Rel R (l.find? p) (m.find? q) := by
  induction h with
  | nil => exact .none
  | @cons a b _ _ hab _ ih =>
    rw [List.find?_cons, List.find?_cons, ← hpq a b hab]
    cases p a with
    | true => exact .some hab
    | false => exact ih

end

/-- Under each name the finders have related modules, or none. -/
def Finder.Related (R : ModuleReference → ModuleReference → Prop) (f g : Finder) : Prop :=
  ∀ n, Option.Rel R (f.find? n) (g.find? n)

section
variable {R : ModuleReference → ModuleReference → Prop}
  (halike : ∀ r s, R r s → r.Alike s)
include halike

theorem names_eq_of_forall₂ {l m : List ModuleReference} (h : List.Forall₂ R l m) :
    l.map ModuleReference.name = m.map ModuleReference.name :=
  map_eq_map_of_forall₂ (h.imp fun r s hrs => (halike r s hrs).name)

theorem findName_of_forall₂ {l m : List ModuleReference} (h : List.Forall₂ R l m) (n : String) :
    Option.Rel R (l.find? fun r => r.name == n) (m.find? fun r => r.name == n) :=
  find?_of_forall₂ (fun r s hrs => congrArg (· == n) (halike r s hrs).name) h

/-! ## Selection -/

theorem requestsOf_congr {s t : Selection} (h : List.Forall₂ R s.modules t.modules)
    {r r' : ModuleReference} (hr : R r r') : requestsOf s r = requestsOf t r' := by
  have hcontains : s.contains = t.contains := by
    funext n
    have hnames : s.names = t.names := names_eq_of_forall₂ halike h
    rw [Bool.eq_iff_iff, Selection.contains_iff, Selection.contains_iff, hnames]
  rw [requestsOf, requestsOf, (halike r r' hr).followedNames, hcontains, (halike r r' hr).name]

theorem select_agree {finder finder' : Finder}
    (hfinder : finder.Related R finder') {s t : Selection}
    (h : List.Forall₂ R s.modules t.modules) (queue : List Request) :
    Agree (fun s t : Selection => List.Forall₂ R s.modules t.modules) (select finder s queue)
      (select finder' t queue) := by
  have hcontains : ∀ {s t : Selection}, List.Forall₂ R s.modules t.modules →
      ∀ n, s.contains n = true ↔ t.contains n = true := by
    intro s t h n
    have hnames : s.names = t.names := names_eq_of_forall₂ halike h
    rw [Selection.contains_iff, Selection.contains_iff, hnames]
  induction s, queue using select.induct finder generalizing t with
  | case1 s =>
    rw [select, select]
    exact .ok h
  | case2 s q queue hseen ih =>
    rw [select, dif_pos hseen, select, dif_pos ((hcontains h q.name).mp hseen)]
    exact ih h
  | case3 s q queue hnew hfind =>
    have hnew' : ¬ t.contains q.name = true := fun hseen => hnew ((hcontains h q.name).mpr hseen)
    have hfind' : finder'.find? q.name = none := eq_none_of_rel (hfinder q.name) hfind
    rw [select, dif_neg hnew, hfind, select, dif_neg hnew', hfind']
    exact .error _
  | case4 s q queue hnew r hfind ih =>
    have hnew' : ¬ t.contains q.name = true := fun hseen => hnew ((hcontains h q.name).mpr hseen)
    obtain ⟨r', hfind', hr⟩ := exists_of_rel (hfinder q.name) hfind
    rw [select, dif_neg hnew, hfind, select, dif_neg hnew', hfind']
    dsimp only
    rw [← requestsOf_congr halike h hr]
    exact ih (List.rel_append h (.cons hr .nil))

end

/-! ## Selections that answer alike -/

/-- For each name both selections have modules that are alike, or both have none. -/
def Selection.Alike (s t : Selection) : Prop :=
  ∀ n, Option.Rel ModuleReference.Alike (s.find? n) (t.find? n)

namespace Selection.Alike

theorem of_find?_eq {s t : Selection} (h : s.find? = t.find?) : s.Alike t := by
  intro n
  rw [h]
  cases t.find? n with
  | none => exact .none
  | some r => exact .some ⟨rfl, rfl⟩

variable {s t : Selection} (h : s.Alike t)
include h

/-- The search for circles takes the same course. -/
theorem searchCircle_congr (trail done targets : List String) :
    searchCircle s trail done targets = searchCircle t trail done targets := by
  induction trail, done, targets using searchCircle.induct s with
  | case1 trail done => rw [searchCircle, searchCircle]
  | case2 trail done name targets hfind ih =>
    have hfind' := eq_none_of_rel (h name) hfind
    rw [searchCircle, hfind, searchCircle, hfind']
    exact ih
  | case3 trail done name targets r hfind hdone ih =>
    obtain ⟨r', hfind', -⟩ := exists_of_rel (h name) hfind
    rw [searchCircle, hfind, searchCircle, hfind']
    dsimp only
    rw [if_pos hdone, if_pos hdone]
    exact ih
  | case4 trail done name targets r hfind hdone hon =>
    obtain ⟨r', hfind', -⟩ := exists_of_rel (h name) hfind
    rw [searchCircle, hfind, searchCircle, hfind']
    dsimp only
    rw [if_neg hdone, if_neg hdone, dif_pos hon, dif_pos hon]
  | case5 trail done name targets r hfind hdone hoff circle hcircle ih =>
    obtain ⟨r', hfind', hr⟩ := exists_of_rel (h name) hfind
    rw [searchCircle, hfind, searchCircle, hfind']
    dsimp only
    rw [if_neg hdone, if_neg hdone, dif_neg hoff, dif_neg hoff, ← hr.requiredNames, ← ih, hcircle]
  | case6 trail done name targets r hfind hdone hoff done' hinner ihInner ih =>
    obtain ⟨r', hfind', hr⟩ := exists_of_rel (h name) hfind
    rw [searchCircle, hfind, searchCircle, hfind']
    dsimp only
    rw [if_neg hdone, if_neg hdone, dif_neg hoff, dif_neg hoff, ← hr.requiredNames, ← ihInner,
      hinner]
    exact ih

/-- What is read along depends on the selection only through what the modules require, and not on
their order. -/
theorem readAlong_congr_alike (trail found targets : List String) :
    readAlong s trail found targets = readAlong t trail found targets := by
  induction trail, found, targets using readAlong.induct s with
  | case1 trail found => rw [readAlong, readAlong]
  | case2 trail found name targets hfind ih =>
    rw [readAlong_cons_of_none hfind, readAlong_cons_of_none (eq_none_of_rel (h name) hfind)]
    exact ih
  | case3 trail found name targets r hfind hon ih =>
    obtain ⟨r', hfind', -⟩ := exists_of_rel (h name) hfind
    rw [readAlong, hfind, readAlong, hfind']
    dsimp only
    rw [dif_pos hon, dif_pos hon]
    exact ih
  | case4 trail found name targets r hfind hoff implied ihInner =>
    rename_i ih
    obtain ⟨r', hfind', hr⟩ := exists_of_rel (h name) hfind
    rw [readAlong_cons_of_some hfind hoff, readAlong_cons_of_some hfind' hoff, ← hr.transitiveNames,
      ← ihInner]
    exact ih

end Selection.Alike

/-! ## Resolutions -/

/-- Two graphs have related modules in the same order, with the same reads. -/
def ResolvedGraph.Matches (R : ModuleReference → ModuleReference → Prop) (g g' : ResolvedGraph) :
    Prop :=
  List.Forall₂ (fun m m' : ResolvedModule => R m.reference m'.reference ∧ m.reads = m'.reads)
    g.modules g'.modules

/-- **Resolution sees names and requirements only.**  Over finders with related modules under each
name, where related modules are alike to resolution, the same roots have the same outcome: graphs
with related modules in the same order and with the same reads, or the same reason for none. -/
theorem resolve_agree {R : ModuleReference → ModuleReference → Prop}
    (halike : ∀ r s, R r s → r.Alike s) {finder finder' : Finder}
    (hfinder : finder.Related R finder') (roots : NameSet) :
    Agree (ResolvedGraph.Matches R) (resolve finder roots) (resolve finder' roots) := by
  refine (select_agree halike hfinder .nil _).bind fun s t hst => ?_
  have hnames : s.names = t.names := names_eq_of_forall₂ halike hst
  have hst' : s.Alike t := fun n => rel_mono halike (findName_of_forall₂ halike hst n)
  have hcircles : rejectCircles s = rejectCircles t := by
    rw [rejectCircles, rejectCircles, hnames, hst'.searchCircle_congr]
  have hstep : Agree (fun _ _ : Unit => s.Acyclic ∧ t.Acyclic) (rejectCircles s)
      (rejectCircles t) := by
    cases hreject : rejectCircles s with
    | error e =>
      rw [← hcircles, hreject]
      exact .error e
    | ok u =>
      have hreject' : rejectCircles t = .ok u := hcircles ▸ hreject
      rw [hreject']
      exact .ok ⟨acyclic_of_rejectCircles hreject, acyclic_of_rejectCircles hreject'⟩
  refine hstep.bind fun _ _ hacyclic => .ok ?_
  rw [ResolvedGraph.Matches, graphOf_eq hacyclic.1, graphOf_eq hacyclic.2]
  refine List.forall₂_map_left_iff.mpr (List.forall₂_map_right_iff.mpr (hst.imp fun r r' hr => ?_))
  exact ⟨hr, by rw [hst'.readAlong_congr_alike, (halike r r' hr).requiredNames]⟩

end ModuleAtlas
