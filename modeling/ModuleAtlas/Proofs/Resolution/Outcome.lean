import Mathlib.Data.List.Chain
import Mathlib.Data.List.Nodup
import Mathlib.Logic.Relation
import ModuleAtlas.Proofs.Resolution.Needed

/-! # How a resolution ends

Among selected modules every requirement counts, the static ones too (`Selection.Requires`).  A
selection is **acyclic** when no module requires itself over any number of steps.

The search for circles is described from both ends.  On the way in, the modules that are entered
and not left form a path that leads to the targets (`Trail`), so a target on the trail closes a
simple circle (`isCircle_of_searchCircle`).  On the way out, a module is left after all that it
requires (`Finished`), so a search that leaves every module has seen no circle
(`finished_of_searchCircle`, `Finished.irrefl`).

With what is known about the selection loop this gives the three ways in which a resolution ends
(`resolve_cases`): an unknown name, a circle among known names, or a graph
(`resolve_outcome`).
-/
namespace ModuleAtlas
open Relation

/-! ## Circles among selected modules -/

namespace Selection
variable {s : Selection} {m n : String}

/-- The module of the first name is selected, and it requires the second, which is selected as
well. -/
def Requires (s : Selection) (m n : String) : Prop :=
  ∃ r, s.find? m = some r ∧ n ∈ r.requiredNames ∧ n ∈ s.names

/-- No selected module requires itself, directly or through others. -/
def Acyclic (s : Selection) : Prop := ∀ n, ¬ TransGen s.Requires n n

/-- A simple circle: written with its first module at both ends, no other module twice, and each
module requires the next. -/
structure IsCircle (s : Selection) (path : List String) : Prop where
  ends : path.head? = path.getLast?
  long : 2 ≤ path.length
  distinct : path.dropLast.Nodup
  requires : path.IsChain s.Requires

theorem Requires.mem_left (h : s.Requires m n) : m ∈ s.names := by
  obtain ⟨r, hr, _⟩ := h
  exact mem_names_of_find? hr

/-- The last module of a path is required, through the modules between, by the first. -/
theorem transGen_of_isChain {path : List String} {last : String}
    (h : (m :: path ++ [last]).IsChain s.Requires) : TransGen s.Requires m last := by
  induction path generalizing m with
  | nil =>
    rw [List.cons_append, List.nil_append, List.isChain_cons_cons] at h
    exact .single h.1
  | cons k path ih =>
    rw [List.cons_append, List.cons_append, List.isChain_cons_cons] at h
    exact .head h.1 (ih h.2)

theorem IsCircle.not_acyclic {path : List String} (h : s.IsCircle path) : ¬ s.Acyclic := by
  obtain ⟨hends, hlong, -, hrequires⟩ := h
  match path, hlong with
  | n :: k :: rest, _ =>
    have hlast : (n :: k :: rest).getLast? = some n := hends.symm
    obtain ⟨middle, hmiddle⟩ : ∃ middle, k :: rest = middle ++ [n] := by
      refine List.getLast?_eq_some_iff.mp ?_
      rw [List.getLast?_cons_cons] at hlast
      exact hlast
    rw [hmiddle, ← List.cons_append] at hrequires
    exact fun hacyclic => hacyclic n (transGen_of_isChain hrequires)

end Selection

/-! ## The way in: the trail is a path -/

/-- The modules that have been entered and not left, the last one first: no module twice, each
required by the one entered before it, and the targets required by the last one. -/
structure Trail (s : Selection) (trail targets : List String) : Prop where
  distinct : trail.Nodup
  chain : trail.IsChain fun a b => s.Requires b a
  targets : ∀ m ∈ trail.head?, ∀ n ∈ targets, n ∈ s.names → s.Requires m n

namespace Trail
variable {s : Selection} {trail targets : List String} {name : String}

theorem empty (s : Selection) (targets : List String) : Trail s [] targets where
  distinct := List.nodup_nil
  chain := .nil
  targets := fun _ hm => absurd hm (Option.not_mem_none _)

theorem tail (h : Trail s trail (name :: targets)) : Trail s trail targets where
  distinct := h.distinct
  chain := h.chain
  targets := fun m hm n hn => h.targets m hm n (List.mem_cons_of_mem _ hn)

/-- Entering a target that is not on the trail. -/
theorem enter {r : ModuleReference} (h : Trail s trail (name :: targets)) (hnew : name ∉ trail)
    (hfind : s.find? name = some r) : Trail s (name :: trail) r.requiredNames where
  distinct := List.nodup_cons.mpr ⟨hnew, h.distinct⟩
  chain := by
    refine List.isChain_cons.mpr ⟨fun m hm => ?_, h.chain⟩
    exact h.targets m hm name List.mem_cons_self (Selection.mem_names_of_find? hfind)
  targets := by
    intro m hm n hn hselected
    obtain rfl : name = m := Option.some.inj hm
    exact ⟨r, hfind, hn, hselected⟩

/-- A target on the trail closes a circle. -/
theorem isCircle_circleOf (h : Trail s trail (name :: targets)) (htrail : name ∈ trail)
    (hselected : name ∈ s.names) : s.IsCircle (circleOf trail name) := by
  -- the trail from its top down to `name`, and what was entered before
  obtain ⟨before, hsplit⟩ := eq_takeWhile_ne_append htrail
  generalize hback : trail.takeWhile (· ≠ name) = back at hsplit
  have hcircle : circleOf trail name = name :: back.reverse ++ [name] := by
    rw [circleOf, hback]
  have hchain : (name :: back.reverse).IsChain s.Requires := by
    have hreverse : name :: back.reverse = (back ++ [name]).reverse := by
      rw [List.reverse_append]
      rfl
    rw [hreverse, List.isChain_reverse]
    have hfull := h.chain
    rw [hsplit, List.isChain_split] at hfull
    exact hfull.1
  have hdistinct : (name :: back.reverse).Nodup := by
    have hfull := h.distinct
    rw [hsplit, List.nodup_append] at hfull
    refine List.nodup_cons.mpr ⟨fun hn => ?_, List.nodup_reverse.mpr hfull.1⟩
    exact hfull.2.2 name (List.mem_reverse.mp hn) name List.mem_cons_self rfl
  -- the top of the trail, which requires `name`, comes last on the way from `name`
  have htop : (name :: back.reverse).getLast? = trail.head? := by
    rw [hsplit]
    cases back with
    | nil => rfl
    | cons top rest =>
      rw [List.reverse_cons, ← List.cons_append, List.getLast?_concat]
      rfl
  rw [hcircle]
  refine ⟨?_, by simp, ?_, ?_⟩
  · rw [List.getLast?_concat]
    rfl
  · rw [List.dropLast_concat]
    exact hdistinct
  · refine hchain.append (.singleton name) fun m hm n hn => ?_
    rw [htop] at hm
    obtain rfl : name = n := Option.some.inj hn
    exact h.targets m hm name List.mem_cons_self hselected

end Trail

/-- **Soundness of the search.**  What the search reports is a circle. -/
theorem isCircle_of_searchCircle {s : Selection} {trail done targets circle : List String}
    (htrail : Trail s trail targets) (h : searchCircle s trail done targets = .error circle) :
    s.IsCircle circle := by
  induction trail, done, targets using searchCircle.induct s generalizing circle with
  | case1 trail done =>
    rw [searchCircle] at h
    cases h
  | case2 trail done name targets hfind ih =>
    rw [searchCircle, hfind] at h
    exact ih htrail.tail h
  | case3 trail done name targets r hfind hdone ih =>
    rw [searchCircle, hfind] at h
    exact ih htrail.tail (by simpa [hdone] using h)
  | case4 trail done name targets r hfind hdone hon =>
    rw [searchCircle, hfind] at h
    have he : circleOf trail name = circle := by simpa [hdone, hon] using h
    rw [← he]
    exact htrail.isCircle_circleOf hon (Selection.mem_names_of_find? hfind)
  | case5 trail done name targets r hfind hdone hoff inner hinner ih =>
    rw [searchCircle, hfind] at h
    have he : inner = circle := by simpa [hdone, hoff, hinner] using h
    rw [← he]
    exact ih (htrail.enter hoff hfind) hinner
  | case6 trail done name targets r hfind hdone hoff done' hinner ihin ihrest =>
    rw [searchCircle, hfind] at h
    exact ihrest htrail.tail (by simpa [hdone, hoff, hinner] using h)

/-! ## The way out: modules are left after what they require -/

/-- Modules in the order in which they were left, the last one first: what a module requires was
left before it. -/
def Finished (s : Selection) : List String → Prop
  | [] => True
  | n :: before => (∀ m, s.Requires n m → m ∈ before) ∧ Finished s before

namespace Finished
variable {s : Selection} {done : List String} {m n : String}

theorem closed (h : Finished s done) (hn : n ∈ done) (hr : s.Requires n m) : m ∈ done := by
  induction done with
  | nil => exact absurd hn List.not_mem_nil
  | cons k before ih =>
    refine List.mem_cons_of_mem _ ?_
    rcases List.mem_cons.mp hn with rfl | hn
    · exact h.1 m hr
    · exact ih h.2 hn

theorem closed_reflTransGen (h : Finished s done) (hn : n ∈ done)
    (hr : ReflTransGen s.Requires n m) : m ∈ done := by
  induction hr with
  | refl => exact hn
  | tail _ hstep ih => exact h.closed ih hstep

/-- A module that has been left does not require itself: the requirement would lead among the
modules left before it and not out again. -/
theorem irrefl (h : Finished s done) (hn : n ∈ done) : ¬ TransGen s.Requires n n := by
  induction done with
  | nil => exact absurd hn List.not_mem_nil
  | cons k before ih =>
    intro hcircle
    by_cases hbefore : n ∈ before
    · exact ih h.2 hbefore hcircle
    · have hk : n = k := (List.mem_cons.mp hn).resolve_right hbefore
      obtain ⟨m, hstep, hrest⟩ := TransGen.head'_iff.mp hcircle
      exact hbefore (h.2.closed_reflTransGen (h.1 m (hk ▸ hstep)) hrest)

end Finished

/-- **Completeness of the search.**  A search without a circle leaves all selected targets, each
after what it requires. -/
theorem finished_of_searchCircle {s : Selection} {trail done targets done' : List String}
    (hdone : Finished s done) (h : searchCircle s trail done targets = .ok done') :
    Finished s done' ∧ (∀ n ∈ done, n ∈ done') ∧
      ∀ n ∈ targets, n ∈ s.names → n ∈ done' := by
  induction trail, done, targets using searchCircle.induct s generalizing done' with
  | case1 trail done =>
    rw [searchCircle] at h
    obtain rfl : done = done' := Except.ok.inj h
    exact ⟨hdone, fun _ hn => hn, fun _ hn => absurd hn List.not_mem_nil⟩
  | case2 trail done name targets hfind ih =>
    rw [searchCircle, hfind] at h
    obtain ⟨hfinished, hkeep, htargets⟩ := ih hdone h
    refine ⟨hfinished, hkeep, fun n hn hs => ?_⟩
    rcases List.mem_cons.mp hn with rfl | hn
    · exact absurd hs (Selection.find?_eq_none_iff.mp hfind)
    · exact htargets n hn hs
  | case3 trail done name targets r hfind hleft ih =>
    rw [searchCircle, hfind] at h
    obtain ⟨hfinished, hkeep, htargets⟩ := ih hdone (by simpa [hleft] using h)
    refine ⟨hfinished, hkeep, fun n hn hs => ?_⟩
    rcases List.mem_cons.mp hn with rfl | hn
    · exact hkeep n hleft
    · exact htargets n hn hs
  | case4 trail done name targets r hfind hnew hon =>
    rw [searchCircle, hfind] at h
    simp [hnew, hon] at h
  | case5 trail done name targets r hfind hnew hoff inner hinner ih =>
    rw [searchCircle, hfind] at h
    simp [hnew, hoff, hinner] at h
  | case6 trail done name targets r hfind hnew hoff inner hinner ihin ihrest =>
    rw [searchCircle, hfind] at h
    obtain ⟨hinside, hkept, hrequired⟩ := ihin hdone hinner
    -- `name` is left once everything it requires has been left
    have hleft : Finished s (name :: inner) := by
      refine ⟨fun m hm => ?_, hinside⟩
      obtain ⟨r', hr', hm, hs⟩ := hm
      obtain rfl : r = r' := Option.some.inj (hfind.symm.trans hr')
      exact hrequired m hm hs
    obtain ⟨hfinished, hkeep, htargets⟩ := ihrest hleft (by simpa [hnew, hoff, hinner] using h)
    refine ⟨hfinished, fun n hn => hkeep n (List.mem_cons_of_mem _ (hkept n hn)), ?_⟩
    intro n hn hs
    rcases List.mem_cons.mp hn with rfl | hn
    · exact hkeep n List.mem_cons_self
    · exact htargets n hn hs

/-! ## Rejecting circles -/

section
variable {s : Selection}

theorem isCircle_of_rejectCircles {e : ResolutionError} (h : rejectCircles s = .error e) :
    ∃ path, e = .cycle path ∧ s.IsCircle path := by
  unfold rejectCircles at h
  cases hsearch : searchCircle s [] [] s.names with
  | ok done => rw [hsearch] at h; cases h
  | error path =>
    rw [hsearch] at h
    exact ⟨path, (Except.error.inj h).symm,
      isCircle_of_searchCircle (Trail.empty s s.names) hsearch⟩

theorem acyclic_of_rejectCircles (h : rejectCircles s = .ok ()) : s.Acyclic := by
  unfold rejectCircles at h
  cases hsearch : searchCircle s [] [] s.names with
  | error path => rw [hsearch] at h; cases h
  | ok done =>
    have hstart : Finished s [] := trivial
    obtain ⟨hfinished, -, htargets⟩ := finished_of_searchCircle hstart hsearch
    intro n hcircle
    obtain ⟨m, hstep, -⟩ := TransGen.head'_iff.mp hcircle
    have hn : n ∈ s.names := hstep.mem_left
    exact hfinished.irrefl (htargets n hn hn) hcircle

end

/-! ## The three endings -/

/-- Both names are needed, and the module of the first requires the second with whatever
modifiers. -/
def RequiresAmongNeeded (finder : Finder) (roots : NameSet) (m n : String) : Prop :=
  Needed finder roots m ∧ Needed finder roots n ∧ finder.Requires m n

section
variable {finder : Finder} {roots : NameSet}

theorem Selects.requires_iff {s : Selection} (h : Selects finder roots s) {m n : String} :
    s.Requires m n ↔ RequiresAmongNeeded finder roots m n := by
  constructor
  · intro hr
    have hm := hr.mem_left
    obtain ⟨r, hfind, hn, hs⟩ := hr
    exact ⟨(h.mem_names_iff m).mp hm, (h.mem_names_iff n).mp hs, r, h.find?_eq hm ▸ hfind, hn⟩
  · rintro ⟨hm, hn, r, hfind, hr⟩
    exact ⟨r, (h.find?_eq ((h.mem_names_iff m).mpr hm)).trans hfind, hr, (h.mem_names_iff n).mpr hn⟩

theorem Selects.acyclic_iff {s : Selection} (h : Selects finder roots s) :
    s.Acyclic ↔ ∀ n, ¬ TransGen (RequiresAmongNeeded finder roots) n n := by
  have he : s.Requires = RequiresAmongNeeded finder roots :=
    funext fun m => funext fun n => propext h.requires_iff
  rw [Selection.Acyclic, he]

/-- **The ways in which a resolution ends.**  A needed name is not known; or there is a circle in
the finished selection; or the graph over the finished selection, which is acyclic. -/
theorem resolve_cases (finder : Finder) (roots : NameSet) :
    (∃ n origin, resolve finder roots = .error (.unresolved n origin) ∧
        Needed finder roots n ∧ finder.find? n = none) ∨
      ∃ s, Selects finder roots s ∧
        ((∃ path, resolve finder roots = .error (.cycle path) ∧ s.IsCircle path) ∨
          (resolve finder roots = .ok (graphOf s) ∧ s.Acyclic)) := by
  cases hselect : selectRoots finder roots with
  | error e =>
    obtain ⟨n, origin, rfl, hneeded, hfind⟩ := unknown_of_selectRoots hselect
    refine Or.inl ⟨n, origin, ?_, hneeded, hfind⟩
    unfold resolve
    rw [hselect]
    rfl
  | ok s =>
    refine Or.inr ⟨s, selects_of_selectRoots hselect, ?_⟩
    cases hreject : rejectCircles s with
    | error e =>
      obtain ⟨path, rfl, hcircle⟩ := isCircle_of_rejectCircles hreject
      refine Or.inl ⟨path, ?_, hcircle⟩
      unfold resolve
      rw [hselect]
      show (rejectCircles s >>= fun _ => _) = _
      rw [hreject]
      rfl
    | ok u =>
      exact Or.inr ⟨resolve_eq_ok_iff.mpr ⟨s, hselect, hreject, rfl⟩,
        acyclic_of_rejectCircles hreject⟩

theorem exists_selects_of_resolve {g : ResolvedGraph} (h : resolve finder roots = .ok g) :
    ∃ s, Selects finder roots s ∧ s.Acyclic ∧ g = graphOf s := by
  obtain ⟨s, hselect, hreject, rfl⟩ := resolve_eq_ok_iff.mp h
  exact ⟨s, selects_of_selectRoots hselect, acyclic_of_rejectCircles hreject, rfl⟩

/-- **The outcome of a resolution.**  A needed name is unknown exactly if the answer is that one
is; among known names a circle of requirements, with whatever modifiers, is the answer exactly if
there is one; and in every other case there is a graph. -/
theorem resolve_outcome (finder : Finder) (roots : NameSet) :
    ((∃ n origin, resolve finder roots = .error (.unresolved n origin)) ↔
        ∃ n, Needed finder roots n ∧ finder.find? n = none) ∧
      ((∃ path, resolve finder roots = .error (.cycle path)) ↔
        (∀ n, Needed finder roots n → finder.find? n ≠ none) ∧
          ∃ n, TransGen (RequiresAmongNeeded finder roots) n n) ∧
      ((∃ g, resolve finder roots = .ok g) ↔
        (∀ n, Needed finder roots n → finder.find? n ≠ none) ∧
          ¬ ∃ n, TransGen (RequiresAmongNeeded finder roots) n n) ∧
      ∀ n first second, resolve finder roots ≠ .error (.duplicate n first second) := by
  rcases resolve_cases finder roots with ⟨n, origin, hresolve, hn, hfind⟩ | ⟨s, hs, hends⟩
  · -- an unknown name rules out the other endings
    have hunknown : ¬ ∀ n, Needed finder roots n → finder.find? n ≠ none :=
      fun hall => hall n hn hfind
    rw [hresolve]
    refine ⟨⟨fun _ => ⟨n, hn, hfind⟩, fun _ => ⟨n, origin, rfl⟩⟩, ?_, ?_, fun _ _ _ h => ?_⟩
    · exact ⟨(fun ⟨_, h⟩ => nomatch h), fun h => absurd h.1 hunknown⟩
    · exact ⟨(fun ⟨_, h⟩ => nomatch h), fun h => absurd h.1 hunknown⟩
    · cases h
  · have hknown : ∀ n, Needed finder roots n → finder.find? n ≠ none := by
      intro n hn hfind
      obtain ⟨r, hr⟩ := hs.known_of_needed hn
      rw [hfind] at hr
      cases hr
    have hfound : ¬ ∃ n, Needed finder roots n ∧ finder.find? n = none :=
      fun ⟨n, hn, hfind⟩ => hknown n hn hfind
    rcases hends with ⟨path, hresolve, hcircle⟩ | ⟨hresolve, hacyclic⟩
    · have hround : ∃ n, TransGen (RequiresAmongNeeded finder roots) n n := by
        have hnot := hcircle.not_acyclic
        rw [hs.acyclic_iff, not_forall_not] at hnot
        exact hnot
      rw [hresolve]
      refine ⟨⟨(fun ⟨_, _, h⟩ => nomatch h), fun h => absurd h hfound⟩,
        ⟨fun _ => ⟨hknown, hround⟩, fun _ => ⟨path, rfl⟩⟩, ?_, fun _ _ _ h => ?_⟩
      · exact ⟨(fun ⟨_, h⟩ => nomatch h), fun h => absurd hround h.2⟩
      · cases h
    · have hnone : ¬ ∃ n, TransGen (RequiresAmongNeeded finder roots) n n :=
        fun ⟨n, hn⟩ => hs.acyclic_iff.mp hacyclic n hn
      rw [hresolve]
      refine ⟨⟨(fun ⟨_, _, h⟩ => nomatch h), fun h => absurd h hfound⟩, ?_,
        ⟨fun _ => ⟨hknown, hnone⟩, fun _ => ⟨graphOf s, rfl⟩⟩, fun _ _ _ h => ?_⟩
      · exact ⟨(fun ⟨_, h⟩ => nomatch h), fun h => absurd h.2 hnone⟩
      · cases h

end

/-- A circle counts even where it is only closed by a static requirement, which the selection
does not follow. -/
example :
    resolve (.ofList [.requiring "app" [{ name := "api" }],
      .requiring "api" [{ name := "app", modifiers := { isStatic := true } }]]) (.ofList ["app"]) =
      .error (.cycle ["app", "api", "app"]) := by
  cbv

end ModuleAtlas
