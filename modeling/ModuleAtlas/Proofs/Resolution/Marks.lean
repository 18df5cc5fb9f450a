import ModuleAtlas.Names.OrderedMap
import ModuleAtlas.Proofs.Resolution.Outcome

/-! # Circles found with marks and a stack

A search for circles can be run on marks alone: a module is marked when it is entered and marked
again when it is left, the names of the entered ones are pushed on a stack and popped, and nothing
in this ties the stack to the marks.  When a requirement leads to a module that is marked as
entered, the circle is cut out of the stack, from the first position that holds the name, or from
the bottom of the stack if no position does.

`searchMarked` is this search, and `Walk.Tracks` is the invariant that it keeps: the modules that
are marked as entered are those on the stack, each once, and the ones marked as left are done.
Both steps of the search keep it (`Walk.Tracks.enter`, `Walk.Tracks.leave`), so the search ends as
`searchCircle` does (`endsAlike_searchMarked`), and the position it cuts at is always there.
-/
namespace ModuleAtlas

/-! ## The search -/

/-- How far a search has got with a module. -/
inductive Mark where
  /-- Its requirements are being looked at. -/
  | entered
  /-- There is no circle through it. -/
  | left
deriving DecidableEq, Repr

/-- What a search has noted. -/
structure Walk where
  /-- The modules that have been met. -/
  marks : OrderedMap Mark := ∅
  /-- The modules that were entered, the last one at the end. -/
  stack : List String := []

/-- A requirement leads to a module that is marked as entered. -/
structure Clash where
  /-- The stack at this moment. -/
  stack : List String
  /-- The name of the module. -/
  name : String

namespace Clash

/-- Where the stack first holds the name. -/
def position (c : Clash) : Option Nat := c.stack.idxOf? c.name

/-- The stack from there on, or all of it, and the name again. -/
def path (c : Clash) : List String := c.stack.drop (c.position.getD 0) ++ [c.name]

end Clash

namespace Walk

/-- Marks a module as entered and pushes it. -/
def enter (w : Walk) (name : String) : Walk := ⟨w.marks.insert name .entered, w.stack ++ [name]⟩

/-- Pops the stack and marks a module as left. -/
def leave (w : Walk) (name : String) : Walk := ⟨w.marks.insert name .left, w.stack.dropLast⟩

/-- What is marked stays marked. -/
def Within (w w' : Walk) : Prop := ∀ n, w.marks.find? n ≠ none → w'.marks.find? n ≠ none

/-- The selected modules without a mark. -/
def unmarked (w : Walk) (s : Selection) : List String :=
  s.names.filter fun n => (w.marks.find? n).isNone

section
variable {s : Selection} {w w' : Walk} {name n : String} {r : ModuleReference}

theorem find?_enter (w : Walk) (name n : String) :
    (w.enter name).marks.find? n = if name = n then some .entered else w.marks.find? n :=
  OrderedMap.find?_insert w.marks name n .entered

theorem find?_leave (w : Walk) (name n : String) :
    (w.leave name).marks.find? n = if name = n then some .left else w.marks.find? n :=
  OrderedMap.find?_insert w.marks name n .left

theorem Within.refl (w : Walk) : w.Within w := fun _ h => h

theorem Within.trans {w₁ w₂ w₃ : Walk} (h : w₁.Within w₂) (h' : w₂.Within w₃) : w₁.Within w₃ :=
  fun n hn => h' n (h n hn)

/-- Writing a mark takes none away. -/
theorem find?_insert_ne_none {marks : OrderedMap Mark} (mark : Mark) (h : marks.find? n ≠ none) :
    (marks.insert name mark).find? n ≠ none := by
  rw [OrderedMap.find?_insert]
  split
  · exact Option.some_ne_none _
  · exact h

theorem within_enter (w : Walk) (name : String) : w.Within (w.enter name) :=
  fun _ h => find?_insert_ne_none .entered h

theorem within_leave (w : Walk) (name : String) : w.Within (w.leave name) :=
  fun _ h => find?_insert_ne_none .left h

/-- Once a module has been entered, fewer modules are without a mark. -/
theorem unmarked_lt (hfind : s.find? name = some r) (hnew : w.marks.find? name = none)
    (h : (w.enter name).Within w') : (w'.unmarked s).length < (w.unmarked s).length := by
  have hentered : w'.marks.find? name ≠ none := by
    refine h name ?_
    rw [find?_enter, if_pos rfl]
    exact Option.some_ne_none _
  have hsub : w'.unmarked s = (w.unmarked s).filter fun n => (w'.marks.find? n).isNone := by
    rw [unmarked, unmarked, List.filter_filter]
    refine List.filter_congr fun n _ => ?_
    cases hn : w'.marks.find? n with
    | some m => rfl
    | none =>
      have hold : w.marks.find? n = none := by
        by_contra hmarked
        exact (within_enter w name).trans h n hmarked hn
      rw [hold]
      rfl
  have hmem : name ∈ w.unmarked s :=
    List.mem_filter.mpr ⟨Selection.mem_names_of_find? hfind, Option.isNone_iff_eq_none.mpr hnew⟩
  rw [hsub]
  refine List.length_filter_lt_length_iff_exists.mpr ⟨name, hmem, ?_⟩
  rw [Option.isNone_iff_eq_none]
  exact hentered

end
end Walk

/-- Visits the targets one after the other: what is marked as left is passed over, what is marked as
entered ends the search, and what has no mark is entered, its requirements are visited, and it is
left. -/
def searchMarked (s : Selection) (w : Walk) :
    List String → Except Clash { w' : Walk // w.Within w' }
  | [] => .ok ⟨w, .refl w⟩
  | name :: targets =>
    match _hfind : s.find? name with
    | none => searchMarked s w targets
    | some r =>
      match _hmark : w.marks.find? name with
      | some .left => searchMarked s w targets
      | some .entered => .error ⟨w.stack, name⟩
      | none =>
        match searchMarked s (w.enter name) r.requiredNames with
        | .error clash => .error clash
        | .ok inner =>
          (searchMarked s (inner.val.leave name) targets).map fun last =>
            ⟨last.val, (((w.within_enter name).trans inner.property).trans
              (inner.val.within_leave name)).trans last.property⟩
termination_by targets => ((w.unmarked s).length, targets.length)
decreasing_by
  -- a target that is not selected, and one that has been left
  · exact Prod.Lex.right _ (Nat.lt_succ_self _)
  · exact Prod.Lex.right _ (Nat.lt_succ_self _)
  -- the entered module has a mark from here on
  · exact Prod.Lex.left _ _ (Walk.unmarked_lt _hfind _hmark (.refl _))
  · exact Prod.Lex.left _ _
      (Walk.unmarked_lt _hfind _hmark (inner.property.trans (inner.val.within_leave name)))

section
variable {s : Selection} {w : Walk} {name : String} {r : ModuleReference} (targets : List String)

theorem searchMarked_of_unselected (hfind : s.find? name = none) :
    searchMarked s w (name :: targets) = searchMarked s w targets := by
  rw [searchMarked, hfind]

theorem searchMarked_of_left (hfind : s.find? name = some r)
    (hmark : w.marks.find? name = some .left) :
    searchMarked s w (name :: targets) = searchMarked s w targets := by
  rw [searchMarked, hfind]
  dsimp only
  rw [hmark]

theorem searchMarked_of_entered (hfind : s.find? name = some r)
    (hmark : w.marks.find? name = some .entered) :
    searchMarked s w (name :: targets) = .error ⟨w.stack, name⟩ := by
  rw [searchMarked, hfind]
  dsimp only
  rw [hmark]

theorem searchMarked_of_clash {clash : Clash} (hfind : s.find? name = some r)
    (hmark : w.marks.find? name = none)
    (hinner : searchMarked s (w.enter name) r.requiredNames = .error clash) :
    searchMarked s w (name :: targets) = .error clash := by
  rw [searchMarked, hfind]
  dsimp only
  rw [hmark]
  dsimp only
  rw [hinner]

theorem searchMarked_of_new {inner : { w' : Walk // (w.enter name).Within w' }}
    (hfind : s.find? name = some r) (hmark : w.marks.find? name = none)
    (hinner : searchMarked s (w.enter name) r.requiredNames = .ok inner) :
    searchMarked s w (name :: targets) =
      (searchMarked s (inner.val.leave name) targets).map fun last =>
        ⟨last.val, (((w.within_enter name).trans inner.property).trans
          (inner.val.within_leave name)).trans last.property⟩ := by
  rw [searchMarked, hfind]
  dsimp only
  rw [hmark]
  dsimp only
  rw [hinner]

end

/-! ## The stack and the marks -/

/-- The notes of a search that has entered the modules of a trail, whose top comes first, and is
done with others. -/
structure Walk.Tracks (w : Walk) (trail done : List String) : Prop where
  distinct : trail.Nodup
  stack : w.stack = trail.reverse
  entered : ∀ n, w.marks.find? n = some .entered ↔ n ∈ trail
  left : ∀ n, w.marks.find? n = some .left ↔ n ∈ done

namespace Walk.Tracks
variable {w : Walk} {trail done : List String} {name : String}

theorem start : Walk.Tracks {} [] [] where
  distinct := List.nodup_nil
  stack := rfl
  entered n := by simp
  left n := by simp

theorem unmarked (h : w.Tracks trail done) (htrail : name ∉ trail) (hdone : name ∉ done) :
    w.marks.find? name = none := by
  match hmark : w.marks.find? name with
  | none => rfl
  | some .entered => exact absurd ((h.entered name).mp hmark) htrail
  | some .left => exact absurd ((h.left name).mp hmark) hdone

/-- Entering a module without a mark. -/
theorem enter (h : w.Tracks trail done) (htrail : name ∉ trail) (hdone : name ∉ done) :
    (w.enter name).Tracks (name :: trail) done where
  distinct := List.nodup_cons.mpr ⟨htrail, h.distinct⟩
  stack := by
    rw [List.reverse_cons, ← h.stack]
    rfl
  entered n := by
    rw [Walk.find?_enter, List.mem_cons, ← h.entered]
    by_cases hn : name = n
    · simp [hn]
    · simp [hn, Ne.symm hn]
  left n := by
    rw [Walk.find?_enter, ← h.left]
    by_cases hn : name = n
    · subst hn
      simp [h.unmarked htrail hdone]
    · simp [hn]

/-- Leaving the module at the top. -/
theorem leave (h : w.Tracks (name :: trail) done) : (w.leave name).Tracks trail (name :: done) where
  distinct := (List.nodup_cons.mp h.distinct).2
  stack := by
    show w.stack.dropLast = _
    rw [h.stack, List.reverse_cons, List.dropLast_concat]
  entered n := by
    rw [Walk.find?_leave]
    by_cases hn : name = n
    · subst hn
      simp [(List.nodup_cons.mp h.distinct).1]
    · simp [hn, h.entered, Ne.symm hn]
  left n := by
    rw [Walk.find?_leave, List.mem_cons, ← h.left]
    by_cases hn : name = n
    · simp [hn]
    · simp [hn, Ne.symm hn]

/-- A module of the trail has a position on the stack, and the stack from there on is the circle. -/
theorem clash (h : w.Tracks trail done) (hname : name ∈ trail) :
    (Clash.mk w.stack name).position ≠ none ∧
      (Clash.mk w.stack name).path = circleOf trail name := by
  obtain ⟨before, hsplit⟩ := eq_takeWhile_ne_append hname
  generalize hback : trail.takeWhile (· ≠ name) = back at hsplit
  have hstack : w.stack = before.reverse ++ name :: back.reverse := by
    rw [h.stack, hsplit, List.reverse_append, List.reverse_cons, List.append_assoc,
      List.singleton_append]
  -- below the name there is no second one
  have hbefore : name ∉ before := by
    have hdistinct := h.distinct
    rw [hsplit, List.nodup_append] at hdistinct
    exact (List.nodup_cons.mp hdistinct.2.1).1
  have hposition : (Clash.mk w.stack name).position = some before.length := by
    show w.stack.idxOf? name = _
    rw [hstack, List.idxOf?, List.findIdx?_append, List.findIdx?_eq_none_iff.mpr fun n hn => ?_]
    · simp [List.findIdx?_cons]
    · exact beq_eq_false_iff_ne.mpr fun e => hbefore (e ▸ List.mem_reverse.mp hn)
  refine ⟨hposition ▸ Option.some_ne_none _, ?_⟩
  rw [Clash.path, hposition, circleOf, hback]
  show w.stack.drop before.length ++ [name] = _
  rw [hstack, List.drop_left' (List.length_reverse)]

end Walk.Tracks

/-- The two searches have come to the same end. -/
inductive EndsAlike {w : Walk} (trail : List String) :
    Except (List String) (List String) → Except Clash { w' : Walk // w.Within w' } → Prop
  /-- No circle was met, and what is marked as left is done. -/
  | ok {done : List String} {w' : { w' : Walk // w.Within w' }} :
    w'.val.Tracks trail done → EndsAlike trail (.ok done) (.ok w')
  /-- The same circle was met, and its first module was found on the stack. -/
  | error {clash : Clash} :
    clash.position ≠ none → EndsAlike trail (.error clash.path) (.error clash)

/-- The search with marks and a stack follows the search with a trail. -/
theorem endsAlike_searchMarked {s : Selection} {w : Walk} {trail done : List String}
    (targets : List String) (h : w.Tracks trail done) :
    EndsAlike trail (searchCircle s trail done targets) (searchMarked s w targets) := by
  -- the marks change on the way from one target to the next, and the trail tells how
  induction trail, done, targets using searchCircle.induct s generalizing w with
  | case1 trail done =>
    rw [searchCircle, searchMarked]
    exact .ok h
  | case2 trail done name targets hfind ih =>
    rw [searchCircle, hfind, searchMarked_of_unselected targets hfind]
    exact ih h
  | case3 trail done name targets r hfind hdone ih =>
    rw [searchCircle, hfind, searchMarked_of_left targets hfind ((h.left name).mpr hdone)]
    simp only [if_pos hdone]
    exact ih h
  | case4 trail done name targets r hfind hdone hon =>
    obtain ⟨hposition, hpath⟩ := h.clash hon
    rw [searchCircle, hfind, searchMarked_of_entered targets hfind ((h.entered name).mpr hon)]
    simp only [if_neg hdone, dif_pos hon, ← hpath]
    exact .error hposition
  | case5 trail done name targets r hfind hdone hoff circle hinner ih =>
    have hinside := ih (h.enter hoff hdone)
    generalize hmarked : searchMarked s (w.enter name) r.requiredNames = marked at hinside
    rw [hinner] at hinside
    cases hinside with
    | error hposition =>
      rw [searchCircle, hfind,
        searchMarked_of_clash targets hfind (h.unmarked hoff hdone) hmarked]
      simp only [if_neg hdone, dif_neg hoff, hinner]
      exact .error hposition
  | case6 trail done name targets r hfind hdone hoff done' hinner ihin ihrest =>
    have hinside := ihin (h.enter hoff hdone)
    generalize hmarked : searchMarked s (w.enter name) r.requiredNames = marked at hinside
    rw [hinner] at hinside
    cases hinside with
    | @ok _ inner htracks =>
      have hrest := ihrest htracks.leave
      rw [searchCircle, hfind, searchMarked_of_new targets hfind (h.unmarked hoff hdone) hmarked]
      simp only [if_neg hdone, dif_neg hoff, hinner]
      generalize searchCircle s trail (name :: done') targets = plain at hrest ⊢
      generalize searchMarked s (inner.val.leave name) targets = marked at hrest ⊢
      cases hrest with
      | ok hlast => exact .ok hlast
      | error hposition => exact .error hposition

/-! ## What a resolution reports -/

theorem Selection.IsCircle.mem_names {s : Selection} {path : List String} {n : String}
    (h : s.IsCircle path) (hn : n ∈ path) : n ∈ s.names := by
  -- the first module requires the second one, and every other module is required
  refine h.requires.induction (· ∈ s.names) path (fun _ _ hr _ => ?_) (fun hne => ?_) n hn
  · obtain ⟨_, _, _, hselected⟩ := hr
    exact hselected
  · match path, h.long, h.requires with
    | _ :: _ :: _, _, hchain => exact (List.isChain_cons_cons.mp hchain).1.mem_left

/-- The circles that are rejected are those that the search with marks and a stack reports. -/
theorem rejectCircles_eq_searchMarked (s : Selection) :
    rejectCircles s =
      ((searchMarked s {} s.names).map fun _ => ()).mapError fun clash => .cycle clash.path := by
  have hends := endsAlike_searchMarked (s := s) s.names Walk.Tracks.start
  unfold rejectCircles
  generalize searchCircle s [] [] s.names = plain at hends ⊢
  generalize searchMarked s {} s.names = marked at hends ⊢
  cases hends <;> rfl

/-- **The module that closes a circle is on the stack.** -/
theorem position_ne_none_of_searchMarked {s : Selection} {clash : Clash}
    (h : searchMarked s {} s.names = .error clash) : clash.position ≠ none := by
  have hends := endsAlike_searchMarked (s := s) s.names Walk.Tracks.start
  rw [h] at hends
  generalize searchCircle s [] [] s.names = plain at hends
  cases hends with
  | error hposition => exact hposition

section
variable {finder : Finder} {roots : NameSet} {path : List String}

theorem exists_selection_of_cycle (h : resolve finder roots = .error (.cycle path)) :
    ∃ s, selectRoots finder roots = .ok s ∧ rejectCircles s = .error (.cycle path) := by
  rcases resolve_eq_error_iff.mp h with hselect | hcircle
  · -- the selection fails for an unknown name and for nothing else
    obtain ⟨n, origin, he, -, -⟩ := unknown_of_selectRoots hselect
    cases he
  · exact hcircle

/-- **A reported circle is a circle.**  It names at least one module and the first of them again
at its end, no other twice; all of them are modules that the roots need, and each requires the
next one, with whatever modifiers.  The search with marks and a stack reports this very path, and
finds the place on the stack where it begins. -/
theorem circle_of_resolve (h : resolve finder roots = .error (.cycle path)) :
    (2 ≤ path.length ∧ path.head? = path.getLast? ∧ path.dropLast.Nodup ∧
        (∀ n ∈ path, Needed finder roots n ∧ ∃ r, finder.find? n = some r) ∧
        path.IsChain finder.Requires) ∧
      ∃ s clash, selectRoots finder roots = .ok s ∧
        searchMarked s {} s.names = .error clash ∧ clash.path = path ∧ clash.position ≠ none := by
  obtain ⟨s, hselect, hreject⟩ := exists_selection_of_cycle h
  have hs := selects_of_selectRoots hselect
  obtain ⟨_, he, hcircle⟩ := isCircle_of_rejectCircles hreject
  obtain rfl := ResolutionError.cycle.inj he
  refine ⟨⟨hcircle.long, hcircle.ends, hcircle.distinct, fun n hn => ?_,
    hcircle.requires.imp fun m n hmn => (hs.requires_iff.mp hmn).2.2⟩, ?_⟩
  · have hneeded := (hs.mem_names_iff n).mp (hcircle.mem_names hn)
    exact ⟨hneeded, hs.known_of_needed hneeded⟩
  · rw [rejectCircles_eq_searchMarked] at hreject
    cases hsearch : searchMarked s {} s.names with
    | ok last =>
      rw [hsearch] at hreject
      cases hreject
    | error clash =>
      rw [hsearch] at hreject
      have hpath : clash.path = path := ResolutionError.cycle.inj (Except.error.inj hreject)
      exact ⟨s, clash, hselect, hsearch, hpath, position_ne_none_of_searchMarked hsearch⟩

end

namespace Shop

/-- The interface together with a program that it looks back at while it is compiled. -/
def roundFinder : Finder :=
  .ofList [.requiring "till" [{ name := "app" }], .requiring "app" [{ name := "api" }],
    .requiring "api" [{ name := "app", modifiers := { isStatic := true } }]]

theorem circle_of_resolve_till :
    resolve roundFinder (.ofList ["till"]) = .error (.cycle ["app", "api", "app"]) ∧
      (∀ n ∈ ["app", "api", "app"],
        Needed roundFinder (.ofList ["till"]) n ∧ ∃ r, roundFinder.find? n = some r) ∧
      ["app", "api", "app"].IsChain roundFinder.Requires ∧
      ∃ s clash, selectRoots roundFinder (.ofList ["till"]) = .ok s ∧
        searchMarked s {} s.names = .error clash ∧ clash.path = ["app", "api", "app"] ∧
        clash.position ≠ none := by
  have h : resolve roundFinder (.ofList ["till"]) = .error (.cycle ["app", "api", "app"]) := by cbv
  obtain ⟨⟨-, -, -, hneeded, hchain⟩, hsearch⟩ := circle_of_resolve h
  exact ⟨h, hneeded, hchain, hsearch⟩

end Shop

end ModuleAtlas
