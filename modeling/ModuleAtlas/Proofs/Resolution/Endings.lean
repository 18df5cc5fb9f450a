import ModuleAtlas.Proofs.Resolution.Marks
import ModuleAtlas.Proofs.Resolution.Reads

/-! # Resolution comes to an end

The steps of a resolution are written down here as rules with nothing in them that makes a run end:
the queue may grow while it is worked off, the search for circles goes wherever requirements lead,
and the reading of what modules imply enters a module unless the answer for it is known.  There is
one rule for each case, so a run either ends, and then the rules give its answer, or goes on for
ever, and then they give none.

Three measures make the runs end.  Between two selections the queue becomes shorter, and there are
only so many modules to select (`selectsTo_iff`).  The search enters only modules without a mark
(`searchesTo_iff`).  The reading has no such guard, and where modules imply each other in a circle
it does go on for ever (`not_readsTo_of_circle`); but it comes after a search that has found no
circle, and in an acyclic selection a trail of entered modules would never be met again
(`readsTo_iff`).
-/
namespace ModuleAtlas
open Relation

/-! ## Runs -/

/-- Working through a queue of requests, with the answer at the end. -/
inductive SelectsTo (finder : Finder) :
    Selection → List Request → Except ResolutionError Selection → Prop where
  /-- The queue is empty. -/
  | done {s : Selection} : SelectsTo finder s [] (.ok s)
  /-- The name is selected. -/
  | seen {s : Selection} {q : Request} {queue : List Request}
    {answer : Except ResolutionError Selection} (hseen : s.contains q.name)
    (hrest : SelectsTo finder s queue answer) : SelectsTo finder s (q :: queue) answer
  /-- The name is not known. -/
  | unknown {s : Selection} {q : Request} {queue : List Request} (hnew : ¬s.contains q.name)
    (hfind : finder.find? q.name = none) :
    SelectsTo finder s (q :: queue) (.error (.unresolved q.name q.origin))
  /-- A module is selected, and its requests join the queue. -/
  | select {s : Selection} {q : Request} {queue : List Request} {r : ModuleReference}
    {answer : Except ResolutionError Selection} (hnew : ¬s.contains q.name)
    (hfind : finder.find? q.name = some r)
    (hrest : SelectsTo finder (s.add r) (queue ++ requestsOf s r) answer) :
    SelectsTo finder s (q :: queue) answer

/-- Visiting the targets one after the other, with marks and a stack. -/
inductive SearchesTo (s : Selection) : Walk → List String → Except Clash Walk → Prop where
  /-- No target is left. -/
  | done {w : Walk} : SearchesTo s w [] (.ok w)
  /-- The target is not selected. -/
  | unselected {w : Walk} {name : String} {targets : List String} {answer : Except Clash Walk}
    (hfind : s.find? name = none) (hrest : SearchesTo s w targets answer) :
    SearchesTo s w (name :: targets) answer
  /-- The target is marked as left. -/
  | left {w : Walk} {name : String} {targets : List String} {r : ModuleReference}
    {answer : Except Clash Walk} (hfind : s.find? name = some r)
    (hmark : w.marks.find? name = some .left) (hrest : SearchesTo s w targets answer) :
    SearchesTo s w (name :: targets) answer
  /-- The target is marked as entered. -/
  | entered {w : Walk} {name : String} {targets : List String} {r : ModuleReference}
    (hfind : s.find? name = some r) (hmark : w.marks.find? name = some .entered) :
    SearchesTo s w (name :: targets) (.error ⟨w.stack, name⟩)
  /-- There is a circle below the target. -/
  | clash {w : Walk} {name : String} {targets : List String} {r : ModuleReference} {clash : Clash}
    (hfind : s.find? name = some r) (hmark : w.marks.find? name = none)
    (hinner : SearchesTo s (w.enter name) r.requiredNames (.error clash)) :
    SearchesTo s w (name :: targets) (.error clash)
  /-- The target is entered and left. -/
  | new {w inner : Walk} {name : String} {targets : List String} {r : ModuleReference}
    {answer : Except Clash Walk} (hfind : s.find? name = some r)
    (hmark : w.marks.find? name = none)
    (hinner : SearchesTo s (w.enter name) r.requiredNames (.ok inner))
    (hrest : SearchesTo s (inner.leave name) targets answer) :
    SearchesTo s w (name :: targets) answer

/-- Finding the selected ones of the targets and what they imply.  What is known is looked up, and
what is found out is known from then on. -/
inductive ReadsTo (s : Selection) :
    Implications → List String → List String → List String × Implications → Prop where
  /-- No target is left. -/
  | done {known : Implications} {found : List String} : ReadsTo s known found [] (found, known)
  /-- The target is not selected. -/
  | unselected {known : Implications} {found targets : List String} {name : String}
    {answer : List String × Implications} (hfind : s.find? name = none)
    (hrest : ReadsTo s known found targets answer) : ReadsTo s known found (name :: targets) answer
  /-- What the target implies is known. -/
  | known {known : Implications} {found targets implied : List String} {name : String}
    {r : ModuleReference} {answer : List String × Implications} (hfind : s.find? name = some r)
    (hhit : known.find? name = some implied)
    (hrest : ReadsTo s known (appendAllNew (appendNew found name) implied) targets answer) :
    ReadsTo s known found (name :: targets) answer
  /-- What the target implies is found out. -/
  | enter {known known' : Implications} {found targets implied : List String} {name : String}
    {r : ModuleReference} {answer : List String × Implications} (hfind : s.find? name = some r)
    (hmiss : known.find? name = none)
    (hinner : ReadsTo s known [] r.transitiveNames (implied, known'))
    (hrest : ReadsTo s (known'.insert name implied) (appendAllNew (appendNew found name) implied)
      targets answer) :
    ReadsTo s known found (name :: targets) answer

/-- Finding what each of some modules reads. -/
inductive ReadEachTo (s : Selection) :
    Implications → List ModuleReference → List (List String) → Prop where
  /-- No module is left. -/
  | done {known : Implications} : ReadEachTo s known [] []
  /-- What is found out for a module is known for the modules after it. -/
  | next {known known' : Implications} {r : ModuleReference} {rest : List ModuleReference}
    {reads : List String} {later : List (List String)}
    (hreads : ReadsTo s known [] r.requiredNames (reads, known'))
    (hrest : ReadEachTo s known' rest later) : ReadEachTo s known (r :: rest) (reads :: later)

/-- Resolving a set of root names: selecting, searching for circles, and reading if there is
none. -/
inductive ResolvesTo (finder : Finder) (roots : NameSet) :
    Except ResolutionError ResolvedGraph → Prop where
  /-- The selection fails. -/
  | unresolved {e : ResolutionError}
    (hselect : SelectsTo finder {} (roots.toList.map fun name => ⟨name, none⟩) (.error e)) :
    ResolvesTo finder roots (.error e)
  /-- The search meets a circle. -/
  | cycle {s : Selection} {clash : Clash}
    (hselect : SelectsTo finder {} (roots.toList.map fun name => ⟨name, none⟩) (.ok s))
    (hsearch : SearchesTo s {} s.names (.error clash)) :
    ResolvesTo finder roots (.error (.cycle clash.path))
  /-- There is no circle, and what the selected modules read is found. -/
  | graph {s : Selection} {w : Walk} {reads : List (List String)}
    (hselect : SelectsTo finder {} (roots.toList.map fun name => ⟨name, none⟩) (.ok s))
    (hsearch : SearchesTo s {} s.names (.ok w)) (hread : ReadEachTo s ∅ s.modules reads) :
    ResolvesTo finder roots (.ok ⟨(s.modules.zip reads).map fun (r, reads) => ⟨r, reads⟩⟩)

/-! ## The selection loop ends -/

theorem selectsTo_iff {finder : Finder} {s : Selection} {queue : List Request}
    {answer : Except ResolutionError Selection} :
    SelectsTo finder s queue answer ↔ answer = select finder s queue := by
  constructor
  · intro h
    induction h with
    | done => rw [select]
    | seen hseen _ ih => rw [select, dif_pos hseen, ih]
    | unknown hnew hfind => rw [select, dif_neg hnew, hfind]
    | select hnew hfind _ ih =>
      rw [select, dif_neg hnew, hfind]
      exact ih
  · rintro rfl
    induction s, queue using select.induct finder with
    | case1 s =>
      rw [select]
      exact .done
    | case2 s q queue hseen ih =>
      rw [select, dif_pos hseen]
      exact .seen hseen ih
    | case3 s q queue hnew hfind =>
      rw [select, dif_neg hnew, hfind]
      exact .unknown hnew hfind
    | case4 s q queue hnew r hfind ih =>
      rw [select, dif_neg hnew, hfind]
      exact .select hnew hfind ih

/-! ## The search ends -/

theorem map_searchMarked_of_new {s : Selection} {w : Walk} {name : String} {r : ModuleReference}
    (targets : List String) {inner : { w' : Walk // (w.enter name).Within w' }}
    (hfind : s.find? name = some r) (hmark : w.marks.find? name = none)
    (hinner : searchMarked s (w.enter name) r.requiredNames = .ok inner) :
    (searchMarked s w (name :: targets)).map Subtype.val =
      (searchMarked s (inner.val.leave name) targets).map Subtype.val := by
  rw [searchMarked_of_new targets hfind hmark hinner]
  cases searchMarked s (inner.val.leave name) targets <;> rfl

theorem searchesTo_iff {s : Selection} {w : Walk} {targets : List String}
    {answer : Except Clash Walk} :
    SearchesTo s w targets answer ↔ answer = (searchMarked s w targets).map Subtype.val := by
  constructor
  · intro h
    induction h with
    | done =>
      rw [searchMarked]
      rfl
    | unselected hfind _ ih => rw [searchMarked_of_unselected _ hfind, ih]
    | left hfind hmark _ ih => rw [searchMarked_of_left _ hfind hmark, ih]
    | entered hfind hmark =>
      rw [searchMarked_of_entered _ hfind hmark]
      rfl
    | @clash w name targets r clash hfind hmark _ ih =>
      cases hinner : searchMarked s (w.enter name) r.requiredNames with
      | error e =>
        rw [hinner] at ih
        rw [searchMarked_of_clash _ hfind hmark hinner]
        exact ih
      | ok inner =>
        rw [hinner] at ih
        cases ih
    | @new w inner name targets r answer hfind hmark _ _ ihin ihrest =>
      cases hinner : searchMarked s (w.enter name) r.requiredNames with
      | error e =>
        rw [hinner] at ihin
        cases ihin
      | ok last =>
        rw [hinner] at ihin
        obtain rfl := Except.ok.inj ihin
        rw [map_searchMarked_of_new targets hfind hmark hinner, ihrest]
  · rintro rfl
    induction w, targets using searchMarked.induct s with
    | case1 w =>
      rw [searchMarked]
      exact .done
    | case2 w name targets hfind ih =>
      rw [searchMarked_of_unselected targets hfind]
      exact .unselected hfind ih
    | case3 w name targets r hfind hmark ih =>
      rw [searchMarked_of_left targets hfind hmark]
      exact .left hfind hmark ih
    | case4 w name targets r hfind hmark =>
      rw [searchMarked_of_entered targets hfind hmark]
      exact .entered hfind hmark
    | case5 w name targets r hfind hmark clash hinner ih =>
      rw [searchMarked_of_clash targets hfind hmark hinner]
      rw [hinner] at ih
      exact .clash hfind hmark ih
    | case6 w name targets r hfind hmark inner hinner ihin ihrest =>
      rw [hinner] at ihin
      rw [map_searchMarked_of_new targets hfind hmark hinner]
      exact .new hfind hmark ihin ihrest

/-- The search tells which circle is rejected, if any. -/
theorem SearchesTo.rejectCircles_eq {s : Selection} {answer : Except Clash Walk}
    (h : SearchesTo s {} s.names answer) :
    rejectCircles s = (answer.map fun _ => ()).mapError fun clash => .cycle clash.path := by
  obtain rfl := searchesTo_iff.mp h
  rw [rejectCircles_eq_searchMarked]
  cases searchMarked s {} s.names <;> rfl

theorem SearchesTo.acyclic {s : Selection} {w : Walk} (h : SearchesTo s {} s.names (.ok w)) :
    s.Acyclic :=
  acyclic_of_rejectCircles h.rejectCircles_eq

/-! ## The reading ends in an acyclic selection -/

section
variable {s : Selection} {trail found targets : List String} {known : Implications}
  {name : String} {r : ModuleReference}

theorem readCached_of_unselected (hfind : s.find? name = none) :
    readCached s trail known found (name :: targets) = readCached s trail known found targets := by
  rw [readCached, hfind]

theorem readCached_of_known {implied : List String} (hfind : s.find? name = some r)
    (hhit : known.find? name = some implied) :
    readCached s trail known found (name :: targets) =
      readCached s trail known (appendAllNew (appendNew found name) implied) targets := by
  rw [readCached, hfind]
  dsimp only
  rw [hhit]

theorem readCached_of_new {implied : List String} {known' : Implications}
    (hfind : s.find? name = some r) (hmiss : known.find? name = none) (hoff : name ∉ trail)
    (hinner : readCached s (name :: trail) known [] r.transitiveNames = (implied, known')) :
    readCached s trail known found (name :: targets) =
      readCached s trail (known'.insert name implied)
        (appendAllNew (appendNew found name) implied) targets := by
  rw [readCached, hfind]
  simp only [hmiss, hoff, dite_false, hinner]

/-- Below modules that are not required in turn, nothing is met a second time on the way down. -/
theorem readsTo_iff (ha : s.Acyclic) (h : Above s trail targets)
    {answer : List String × Implications} :
    ReadsTo s known found targets answer ↔ answer = readCached s trail known found targets := by
  constructor
  · intro hrun
    induction hrun generalizing trail with
    | done => rw [readCached]
    | unselected hfind _ ih => rw [readCached_of_unselected hfind, ih h.tail]
    | known hfind hhit _ ih => rw [readCached_of_known hfind hhit, ih h.tail]
    | enter hfind hmiss _ _ ihin ihrest =>
      rw [readCached_of_new hfind hmiss (h.not_mem ha hfind) (ihin (h.enter hfind)).symm,
        ihrest h.tail]
  · rintro rfl
    induction trail, known, found, targets using readCached.induct s with
    | case1 trail known found =>
      rw [readCached]
      exact .done
    | case2 trail known found name targets hfind ih =>
      rw [readCached_of_unselected hfind]
      exact .unselected hfind (ih h.tail)
    | case3 trail known found name targets r hfind implied hhit ih =>
      rw [readCached_of_known hfind hhit]
      exact .known hfind hhit (ih h.tail)
    | case4 trail known found name targets r hfind hmiss hon ih =>
      exact absurd hon (h.not_mem ha hfind)
    | case5 trail known found name targets r hfind hmiss hoff implied known' hinner ihin ihrest =>
      rw [readCached_of_new hfind hmiss hoff hinner]
      exact .enter hfind hmiss (hinner ▸ ihin (h.enter hfind)) (ihrest h.tail)

theorem readEachTo_iff (ha : s.Acyclic) {modules : List ModuleReference}
    {answer : List (List String)} :
    ReadEachTo s known modules answer ↔ answer = readEach s known modules := by
  constructor
  · intro h
    induction h with
    | done => rfl
    | next hreads _ ih =>
      rw [readEach, ← (readsTo_iff ha (Above.nil s _)).mp hreads, ih]
  · rintro rfl
    induction modules generalizing known with
    | nil => exact .done
    | cons r rest ih =>
      rw [readEach]
      exact .next ((readsTo_iff ha (Above.nil s r.requiredNames)).mpr rfl) ih

end

/-! ## The reading goes on for ever in a circle -/

/-- A module from which no endless way leads over what modules imply. -/
def Selection.Grounded (s : Selection) (n : String) : Prop := Acc (fun m n => s.Implies n m) n

theorem Selection.Grounded.irrefl {s : Selection} {n : String} (h : s.Grounded n) :
    ¬TransGen s.Implies n n := by
  induction h with
  | intro n _ ih =>
    intro hcircle
    obtain ⟨m, hstep, hrest⟩ := TransGen.head'_iff.mp hcircle
    exact ih m hstep (TransGen.tail' hrest hstep)

/-- What is known is about grounded modules. -/
def KnowsGrounded (s : Selection) (known : Implications) : Prop :=
  ∀ n, known.find? n ≠ none → s.Grounded n

theorem knowsGrounded_empty (s : Selection) : KnowsGrounded s ∅ :=
  fun n hn => absurd (OrderedMap.find?_empty n) hn

theorem KnowsGrounded.insert {s : Selection} {known : Implications} (h : KnowsGrounded s known)
    {name : String} (hname : s.Grounded name) (implied : List String) :
    KnowsGrounded s (known.insert name implied) := by
  intro n hn
  rw [OrderedMap.find?_insert] at hn
  by_cases he : name = n
  · exact he ▸ hname
  · rw [if_neg he] at hn
    exact h n hn

/-- A run that ends has been to the ground below all its targets. -/
theorem ReadsTo.grounded {s : Selection} {known : Implications} {found targets : List String}
    {answer : List String × Implications} (h : ReadsTo s known found targets answer)
    (hknown : KnowsGrounded s known) :
    KnowsGrounded s answer.2 ∧ ∀ n ∈ targets, s.Grounded n := by
  induction h with
  | done => exact ⟨hknown, fun n hn => absurd hn List.not_mem_nil⟩
  | @unselected known found targets name answer hfind _ ih =>
    obtain ⟨hanswer, htargets⟩ := ih hknown
    have hname : s.Grounded name := by
      refine .intro name fun m hstep => ?_
      obtain ⟨r, hr, -⟩ := hstep
      rw [hfind] at hr
      cases hr
    exact ⟨hanswer, List.forall_mem_cons.mpr ⟨hname, htargets⟩⟩
  | known _ hhit _ ih =>
    obtain ⟨hanswer, htargets⟩ := ih hknown
    have hname := hknown _ (hhit ▸ Option.some_ne_none _)
    exact ⟨hanswer, List.forall_mem_cons.mpr ⟨hname, htargets⟩⟩
  | @enter known known' found targets implied name r answer hfind _ _ _ ihin ihrest =>
    obtain ⟨hknown', hbelow⟩ := ihin hknown
    have hname : s.Grounded name := by
      refine .intro name fun m hstep => ?_
      obtain ⟨r', hr', hm, -⟩ := hstep
      obtain rfl : r = r' := Option.some.inj (hfind.symm.trans hr')
      exact hbelow m hm
    obtain ⟨hanswer, htargets⟩ := ihrest (hknown'.insert hname implied)
    exact ⟨hanswer, List.forall_mem_cons.mpr ⟨hname, htargets⟩⟩

/-- **The reading has no guard.**  Among modules that imply each other in a circle it does not
end. -/
theorem not_readsTo_of_circle {s : Selection} {n : String} (h : TransGen s.Implies n n)
    {found : List String} {answer : List String × Implications} :
    ¬ReadsTo s ∅ found [n] answer := by
  intro hrun
  have hn := (hrun.grounded (knowsGrounded_empty s)).2 n (List.mem_singleton_self n)
  exact hn.irrefl h

/-! ## Resolutions end -/

section
variable {finder : Finder} {roots : NameSet} {answer : Except ResolutionError ResolvedGraph}

theorem ResolvesTo.eq_resolve (h : ResolvesTo finder roots answer) :
    answer = resolve finder roots := by
  cases h with
  | unresolved hselect =>
    exact (resolve_eq_error_iff.mpr (.inl (selectsTo_iff.mp hselect).symm)).symm
  | @cycle s clash hselect hsearch =>
    have hreject : rejectCircles s = .error (.cycle clash.path) := hsearch.rejectCircles_eq
    exact (resolve_eq_error_iff.mpr (.inr ⟨s, (selectsTo_iff.mp hselect).symm, hreject⟩)).symm
  | @graph s w reads hselect hsearch hread =>
    obtain rfl := (readEachTo_iff hsearch.acyclic).mp hread
    have hreject : rejectCircles s = .ok () := hsearch.rejectCircles_eq
    exact (resolve_eq_ok_iff.mpr ⟨s, (selectsTo_iff.mp hselect).symm, hreject, rfl⟩).symm

theorem exists_resolvesTo (finder : Finder) (roots : NameSet) :
    ∃ answer, ResolvesTo finder roots answer := by
  obtain ⟨selected, hselect⟩ : ∃ selected,
      SelectsTo finder {} (roots.toList.map fun name => ⟨name, none⟩) selected :=
    ⟨_, selectsTo_iff.mpr rfl⟩
  cases selected with
  | error e => exact ⟨_, .unresolved hselect⟩
  | ok s =>
    obtain ⟨outcome, hsearch⟩ : ∃ outcome, SearchesTo s {} s.names outcome :=
      ⟨_, searchesTo_iff.mpr rfl⟩
    cases outcome with
    | error clash => exact ⟨_, .cycle hselect hsearch⟩
    | ok w => exact ⟨_, .graph hselect hsearch ((readEachTo_iff hsearch.acyclic).mpr rfl)⟩

theorem resolvesTo_iff : ResolvesTo finder roots answer ↔ answer = resolve finder roots := by
  refine ⟨ResolvesTo.eq_resolve, ?_⟩
  rintro rfl
  obtain ⟨answer, h⟩ := exists_resolvesTo finder roots
  exact h.eq_resolve ▸ h

end

/-- **Resolution ends.**  Whatever has been selected and whatever is asked for, the selection loop
ends.  Whatever is selected, with circles of any kind, and whatever has been marked, the search for
circles ends.  If it finds none, the selection is acyclic over all requirements, and the reading of
what modules imply ends, whatever is known and whichever modules are asked about; it would not end
at a module that implies itself, directly or through others.  So every resolution ends, and as
`resolve` says. -/
theorem resolution_ends (finder : Finder) (roots : NameSet) :
    (∀ s queue, ∃! answer, SelectsTo finder s queue answer) ∧
      (∀ s w targets, ∃! answer, SearchesTo s w targets answer) ∧
      (∀ s w, SearchesTo s {} s.names (.ok w) → s.Acyclic ∧
        ∀ known found targets, ∃! answer, ReadsTo s known found targets answer) ∧
      (∀ (s : Selection) n, TransGen s.Implies n n →
        ∀ found, ¬∃ answer, ReadsTo s ∅ found [n] answer) ∧
      ∀ answer, ResolvesTo finder roots answer ↔ answer = resolve finder roots := by
  refine ⟨fun s queue => ⟨_, selectsTo_iff.mpr rfl, fun _ => selectsTo_iff.mp⟩,
    fun s w targets => ⟨_, searchesTo_iff.mpr rfl, fun _ => searchesTo_iff.mp⟩,
    fun s w hsearch => ?_, fun s n h found ⟨_, hrun⟩ => not_readsTo_of_circle h hrun,
    fun _ => resolvesTo_iff⟩
  have ha := hsearch.acyclic
  refine ⟨ha, fun known found targets => ?_⟩
  have habove := Above.nil s targets
  exact ⟨_, (readsTo_iff ha habove).mpr rfl, fun _ => (readsTo_iff ha habove).mp⟩

namespace Shop

/-- The modules that take part in the program. -/
def selection : Selection := ⟨[app, api, model, base]⟩

/-- A module that requires itself and passes itself on. -/
def mirror : ModuleReference :=
  .requiring "mirror" [{ name := "mirror", modifiers := { transitive := true } }]

/-- What the program reads is found.  What the mirror implies would be looked for without end, but a
circle is reported before that, as it is where only a static requirement closes it. -/
theorem resolution_ends_round :
    (∃ w, SearchesTo selection {} selection.names (.ok w)) ∧ selection.Acyclic ∧
      (∃! answer, ReadsTo selection ∅ [] ["api", "tool"] answer) ∧
      TransGen (Selection.Implies ⟨[mirror]⟩) "mirror" "mirror" ∧
      (¬∃ answer, ReadsTo ⟨[mirror]⟩ ∅ [] ["mirror"] answer) ∧
      ResolvesTo (.ofList [mirror]) (.ofList ["mirror"]) (.error (.cycle ["mirror", "mirror"])) ∧
      ResolvesTo roundFinder (.ofList ["till"]) (.error (.cycle ["app", "api", "app"])) := by
  obtain ⟨-, -, hread, hforever, hround⟩ := resolution_ends roundFinder (.ofList ["till"])
  obtain ⟨-, -, -, -, hmirror⟩ := resolution_ends (.ofList [mirror]) (.ofList ["mirror"])
  obtain ⟨w, hw⟩ : ∃ w, SearchesTo selection {} selection.names (.ok w) :=
    ⟨_, searchesTo_iff.mpr (by cbv)⟩
  have himplies : Selection.Implies ⟨[mirror]⟩ "mirror" "mirror" :=
    ⟨mirror, by decide, by decide, by decide⟩
  obtain ⟨hacyclic, hends⟩ := hread selection w hw
  refine ⟨⟨w, hw⟩, hacyclic, hends ∅ [] ["api", "tool"], .single himplies,
    hforever _ _ (.single himplies) [], (hmirror _).mpr ?_, (hround _).mpr ?_⟩
  · cbv
  · cbv

end Shop

end ModuleAtlas
