import Mathlib.Data.List.Basic
import Mathlib.Order.Bounds.Basic
import ModuleAtlas.Resolution.Graph

/-! # What a set of roots needs

A set of names is **closed** over a finder and some roots (`ClosedOver`) when it holds the roots
and, with every module the finder knows, the names which that module requires at run time.  The
names that the roots **need** (`Needed`) are those that every closed set holds; a name that the
finder does not know is needed like any other, and nothing follows from it.

`select` goes through a queue in which names are repeated, and which grows while it is worked
off.  `select_induction` carries an invariant of its two steps through to the answer, and
`Frontier` is the invariant: only needed names are selected or queued, and whatever is still
missing from a closed set stands in the queue.  When the queue is empty the selection is
therefore exactly what is needed (`selects_of_selectRoots`), and when a name is not found it is
a needed one (`unknown_of_selectRoots`).

A resolved graph lists the selected modules, so its names are the least closed set
(`resolve_isLeast_closedOver`).
-/
namespace ModuleAtlas

/-! ## Selections as sets of names -/

namespace Selection
variable {s : Selection} {r : ModuleReference} {n : String}

theorem contains_iff : s.contains n = true ↔ n ∈ s.names := by
  unfold contains names
  rw [List.any_eq_true, List.mem_map]
  constructor
  · rintro ⟨r, hr, he⟩
    exact ⟨r, hr, eq_of_beq he⟩
  · rintro ⟨r, hr, he⟩
    exact ⟨r, hr, beq_iff_eq.mpr he⟩

theorem contains_eq_false_iff : s.contains n = false ↔ n ∉ s.names := by
  rw [← contains_iff, Bool.not_eq_true]

@[simp] theorem modules_add : (s.add r).modules = s.modules ++ [r] := rfl

@[simp] theorem names_add : (s.add r).names = s.names ++ [r.name] := by
  unfold names
  rw [modules_add, List.map_append]
  rfl

theorem mem_of_find? (h : s.find? n = some r) : r ∈ s.modules := List.mem_of_find?_eq_some h

theorem name_of_find? (h : s.find? n = some r) : r.name = n := by
  have hp := List.find?_some (p := fun (q : ModuleReference) => q.name == n) h
  exact eq_of_beq hp

theorem mem_names_of_find? (h : s.find? n = some r) : n ∈ s.names :=
  List.mem_map.mpr ⟨r, mem_of_find? h, name_of_find? h⟩

theorem exists_find?_of_mem (h : n ∈ s.names) : ∃ r, s.find? n = some r := by
  obtain ⟨r, hr, he⟩ := List.mem_map.mp h
  exact Option.isSome_iff_exists.mp
    (List.find?_isSome.mpr ⟨r, hr, beq_iff_eq.mpr he⟩)

theorem find?_eq_none_iff : s.find? n = none ↔ n ∉ s.names := by
  constructor
  · intro h hn
    obtain ⟨r, hr⟩ := exists_find?_of_mem hn
    rw [h] at hr
    cases hr
  · intro h
    cases hf : s.find? n with
    | none => rfl
    | some r => exact absurd (mem_names_of_find? hf) h

end Selection

/-! ## Needed names -/

theorem Finder.find?_ofList (l : List ModuleReference) (n : String) :
    (Finder.ofList l).find? n = l.find? fun r => r.name == n := by
  show (keepFirst l).find? _ = _
  induction l with
  | nil => rfl
  | cons r rest ih =>
    rw [keepFirst, List.find?_cons, List.find?_cons]
    by_cases h : r.name = n
    · rw [beq_iff_eq.mpr h]
    · rw [beq_eq_false_iff_ne.mpr h, List.find?_filter, ← ih]
      -- what goes by another name than `r` is not touched by hiding the name of `r`
      refine congrArg (fun p => (keepFirst rest).find? p) (funext fun q => ?_)
      by_cases hq : q.name = n
      · have hne : q.name ≠ r.name := fun e => h (e ▸ hq)
        rw [beq_iff_eq.mpr hq, decide_eq_true hne]
        rfl
      · simp [hq]

/-- Every look-up that finds a module under its own name, and knows finitely many names, is the
look-up of a finder. -/
theorem Finder.exists_of_lookup (find : String → Option ModuleReference)
    (hname : ∀ n r, find n = some r → r.name = n)
    (hfinite : ∃ names : List String, ∀ n, find n ≠ none → n ∈ names) :
    ∃ finder : Finder, finder.find? = find := by
  obtain ⟨names, hnames⟩ := hfinite
  have hfound : ∀ {r : ModuleReference}, r ∈ names.filterMap find → find r.name = some r := by
    intro r hr
    obtain ⟨n, _, hn⟩ := List.mem_filterMap.mp hr
    rw [hname n r hn]
    exact hn
  refine ⟨Finder.ofList (names.filterMap find), funext fun n => ?_⟩
  rw [Finder.find?_ofList]
  cases hn : find n with
  | none =>
    refine List.find?_eq_none.mpr fun r hr he => ?_
    have hr' := hfound hr
    rw [eq_of_beq he, hn] at hr'
    cases hr'
  | some r =>
    have hmem : r ∈ names.filterMap find :=
      List.mem_filterMap.mpr ⟨n, hnames n (by rw [hn]; exact Option.some_ne_none r), hn⟩
    have hsome : ((names.filterMap find).find? fun r => r.name == n).isSome :=
      List.find?_isSome.mpr ⟨r, hmem, beq_iff_eq.mpr (hname n r hn)⟩
    obtain ⟨r', hr'⟩ := Option.isSome_iff_exists.mp hsome
    have he : r'.name = n :=
      eq_of_beq (List.find?_some (p := fun (q : ModuleReference) => q.name == n) hr')
    have hn' := hfound (List.mem_of_find?_eq_some hr')
    rw [he, hn] at hn'
    exact hr'.trans hn'.symm

/-- The module of the first name, which the finder knows, requires the second at run time. -/
def Finder.Follows (finder : Finder) (m n : String) : Prop :=
  ∃ r, finder.find? m = some r ∧ n ∈ r.followedNames

/-- The module of the first name, which the finder knows, requires the second with whatever
modifiers. -/
def Finder.Requires (finder : Finder) (m n : String) : Prop :=
  ∃ r, finder.find? m = some r ∧ n ∈ r.requiredNames

/-- The names that a set of roots needs. -/
inductive Needed (finder : Finder) (roots : NameSet) : String → Prop where
  /-- A root. -/
  | root {n : String} (hn : n ∈ roots) : Needed finder roots n
  /-- A name that a needed module requires at run time. -/
  | follow {m n : String} (hm : Needed finder roots m) (h : finder.Follows m n) :
    Needed finder roots n

/-- A set of names that holds the roots and, with each of its names that the finder knows, every
name which that module requires without the static modifier. -/
structure ClosedOver (finder : Finder) (roots : NameSet) (names : Set String) : Prop where
  roots : ∀ n ∈ roots, n ∈ names
  requires : ∀ m ∈ names, ∀ r, finder.find? m = some r →
    ∀ q ∈ r.descriptor.requires, q.modifiers.isStatic = false → q.name ∈ names

theorem ModuleReference.mem_followedNames {r : ModuleReference} {n : String} :
    n ∈ r.followedNames ↔
      ∃ q ∈ r.descriptor.requires, q.modifiers.isStatic = false ∧ q.name = n := by
  simp [followedNames, and_assoc]

/-- The needed names are closed, and every closed set holds them. -/
theorem isLeast_needed (finder : Finder) (roots : NameSet) :
    IsLeast {names | ClosedOver finder roots names} {n | Needed finder roots n} := by
  constructor
  · refine ⟨fun n hn => .root hn, ?_⟩
    intro m hm r hr q hq hstatic
    exact .follow hm ⟨r, hr, ModuleReference.mem_followedNames.mpr ⟨q, hq, hstatic, rfl⟩⟩
  · intro names hclosed n hn
    induction hn with
    | root hn => exact hclosed.roots _ hn
    | follow _ h ih =>
      obtain ⟨r, hr, hn⟩ := h
      obtain ⟨q, hq, hstatic, rfl⟩ := ModuleReference.mem_followedNames.mp hn
      exact hclosed.requires _ ih r hr q hq hstatic

/-! ## The selection loop -/

/-- What every answer of `select` inherits from the queue it starts with, when `P` is kept by the
two steps of the loop: an answer comes from an empty queue, and a failure from a queue whose
first name is new and not known. -/
theorem select_induction {finder : Finder} {P : Selection → List Request → Prop}
    (skip : ∀ s q queue, P s (q :: queue) → q.name ∈ s.names → P s queue)
    (add : ∀ s q queue r, P s (q :: queue) → q.name ∉ s.names → finder.find? q.name = some r →
      P (s.add r) (queue ++ requestsOf s r))
    {s : Selection} {queue : List Request} (h : P s queue) :
    match select finder s queue with
    | .ok t => P t []
    | .error e => ∃ t q rest, P t (q :: rest) ∧ q.name ∉ t.names ∧
        finder.find? q.name = none ∧ e = .unresolved q.name q.origin := by
  induction s, queue using select.induct finder with
  | case1 s =>
    rw [select]
    exact h
  | case2 s q queue hseen ih =>
    rw [select, dif_pos hseen]
    exact ih (skip s q queue h (Selection.contains_iff.mp hseen))
  | case3 s q queue hnew hfind =>
    rw [select, dif_neg hnew, hfind]
    exact ⟨s, q, queue, h, fun hn => hnew (Selection.contains_iff.mpr hn), hfind, rfl⟩
  | case4 s q queue hnew r hfind ih =>
    rw [select, dif_neg hnew, hfind]
    exact ih (add s q queue r h (fun hn => hnew (Selection.contains_iff.mpr hn)) hfind)

/-- A name is taken care of: it is selected, or somebody asks for it. -/
def Awaited (s : Selection) (queue : List Request) (n : String) : Prop :=
  n ∈ s.names ∨ ∃ q ∈ queue, q.name = n

theorem Awaited.skip {s : Selection} {q : Request} {queue : List Request} {n : String}
    (hseen : q.name ∈ s.names) (h : Awaited s (q :: queue) n) : Awaited s queue n := by
  rcases h with h | ⟨p, hp, rfl⟩
  · exact Or.inl h
  · rcases List.mem_cons.mp hp with rfl | hp
    · exact Or.inl hseen
    · exact Or.inr ⟨p, hp, rfl⟩

theorem Awaited.add {s : Selection} {q : Request} {queue : List Request} {r : ModuleReference}
    {n : String} (hname : r.name = q.name) (h : Awaited s (q :: queue) n) :
    Awaited (s.add r) (queue ++ requestsOf s r) n := by
  rw [Awaited, Selection.names_add, List.mem_append, List.mem_singleton]
  rcases h with h | ⟨p, hp, rfl⟩
  · exact Or.inl (Or.inl h)
  · rcases List.mem_cons.mp hp with rfl | hp
    · exact Or.inl (Or.inr hname.symm)
    · exact Or.inr ⟨p, List.mem_append_left _ hp, rfl⟩

/-- What a newly selected module requires is selected already or asked for at once. -/
theorem awaited_followedNames {s : Selection} {queue : List Request} {r : ModuleReference}
    {n : String} (hn : n ∈ r.followedNames) :
    Awaited (s.add r) (queue ++ requestsOf s r) n := by
  by_cases hs : n ∈ s.names
  · exact Or.inl (by rw [Selection.names_add]; exact List.mem_append_left _ hs)
  · refine Or.inr ⟨⟨n, some r.name⟩, List.mem_append_right _ ?_, rfl⟩
    refine List.mem_map.mpr ⟨n, List.mem_filter.mpr ⟨hn, ?_⟩, rfl⟩
    rw [Selection.contains_eq_false_iff.mpr hs]
    rfl

theorem mem_requestsOf {s : Selection} {r : ModuleReference} {q : Request}
    (h : q ∈ requestsOf s r) : q.name ∈ r.followedNames ∧ q.origin = some r.name := by
  obtain ⟨n, hn, rfl⟩ := List.mem_map.mp h
  exact ⟨(List.mem_filter.mp hn).1, rfl⟩

/-- **The invariant of the selection loop.**  Modules are selected once, as the finder knows
them; selected and queued names are needed; and every name that a closed set has to hold because
of the roots or of a selected module is selected or queued. -/
structure Frontier (finder : Finder) (roots : NameSet) (s : Selection) (queue : List Request) :
    Prop where
  distinct : s.names.Nodup
  known : ∀ r ∈ s.modules, finder.find? r.name = some r
  selected : ∀ n ∈ s.names, Needed finder roots n
  queued : ∀ q ∈ queue, Needed finder roots q.name
  roots : ∀ n ∈ roots, Awaited s queue n
  follows : ∀ r ∈ s.modules, ∀ n ∈ r.followedNames, Awaited s queue n

namespace Frontier
variable {finder : Finder} {roots : NameSet} {s : Selection} {q : Request} {queue : List Request}

theorem initial (finder : Finder) (roots : NameSet) :
    Frontier finder roots {} (roots.toList.map fun name => ⟨name, none⟩) where
  distinct := List.nodup_nil
  known := fun _ hr => absurd hr List.not_mem_nil
  selected := fun _ hn => absurd hn List.not_mem_nil
  queued := by
    intro q hq
    obtain ⟨n, hn, rfl⟩ := List.mem_map.mp hq
    exact .root hn
  roots := fun n hn => Or.inr ⟨⟨n, none⟩, List.mem_map.mpr ⟨n, hn, rfl⟩, rfl⟩
  follows := fun _ hr => absurd hr List.not_mem_nil

theorem skip (h : Frontier finder roots s (q :: queue)) (hseen : q.name ∈ s.names) :
    Frontier finder roots s queue where
  distinct := h.distinct
  known := h.known
  selected := h.selected
  queued := fun p hp => h.queued p (List.mem_cons_of_mem _ hp)
  roots := fun n hn => (h.roots n hn).skip hseen
  follows := fun r hr n hn => (h.follows r hr n hn).skip hseen

theorem add {r : ModuleReference} (h : Frontier finder roots s (q :: queue))
    (hnew : q.name ∉ s.names) (hfind : finder.find? q.name = some r) :
    Frontier finder roots (s.add r) (queue ++ requestsOf s r) := by
  have hname : r.name = q.name := Finder.name_of_find? hfind
  have hneeded : Needed finder roots r.name := hname ▸ h.queued q List.mem_cons_self
  have hknown : finder.find? r.name = some r := hname ▸ hfind
  refine ⟨?_, ?_, ?_, ?_, fun n hn => (h.roots n hn).add hname, ?_⟩
  · rw [Selection.names_add, List.nodup_append]
    refine ⟨h.distinct, List.pairwise_singleton _ _, ?_⟩
    rintro a ha b hb rfl
    exact hnew (hname ▸ List.mem_singleton.mp hb ▸ ha)
  · intro p hp
    rcases List.mem_append.mp hp with hp | hp
    · exact h.known p hp
    · rw [List.mem_singleton.mp hp]
      exact hknown
  · intro n hn
    rw [Selection.names_add, List.mem_append, List.mem_singleton] at hn
    rcases hn with hn | rfl
    · exact h.selected n hn
    · exact hneeded
  · intro p hp
    rcases List.mem_append.mp hp with hp | hp
    · exact h.queued p (List.mem_cons_of_mem _ hp)
    · exact .follow hneeded ⟨r, hknown, (mem_requestsOf hp).1⟩
  · intro p hp n hn
    rcases List.mem_append.mp hp with hp | hp
    · exact (h.follows p hp n hn).add hname
    · rw [List.mem_singleton.mp hp] at hn
      exact awaited_followedNames hn

end Frontier

/-! ## Finished selections -/

/-- A finished selection: each module once, as the finder knows it, and exactly the needed
names. -/
structure Selects (finder : Finder) (roots : NameSet) (s : Selection) : Prop where
  distinct : s.names.Nodup
  known : ∀ r ∈ s.modules, finder.find? r.name = some r
  mem_names_iff : ∀ n, n ∈ s.names ↔ Needed finder roots n

namespace Selects
variable {finder : Finder} {roots : NameSet} {s : Selection}

/-- With an empty queue nothing is awaited any more. -/
theorem of_frontier (h : Frontier finder roots s []) : Selects finder roots s := by
  have hdone : ∀ {n : String}, Awaited s [] n → n ∈ s.names := by
    rintro n (hn | ⟨q, hq, _⟩)
    · exact hn
    · exact absurd hq List.not_mem_nil
  refine ⟨h.distinct, h.known, fun n => ⟨h.selected n, fun hn => ?_⟩⟩
  induction hn with
  | root hn => exact hdone (h.roots _ hn)
  | follow _ hfollows ih =>
    obtain ⟨r, hr, hn⟩ := hfollows
    obtain ⟨p, hp, he⟩ := List.mem_map.mp ih
    have hpr : p = r := Option.some.inj ((h.known p hp).symm.trans (he ▸ hr))
    exact hdone (h.follows p hp _ (hpr ▸ hn))

/-- A finished selection answers for its names as the finder does. -/
theorem find?_eq (h : Selects finder roots s) {n : String} (hn : n ∈ s.names) :
    s.find? n = finder.find? n := by
  obtain ⟨r, hr⟩ := Selection.exists_find?_of_mem hn
  have hknown := h.known r (Selection.mem_of_find? hr)
  rw [Selection.name_of_find? hr] at hknown
  rw [hr, hknown]

theorem known_of_needed (h : Selects finder roots s) {n : String} (hn : Needed finder roots n) :
    ∃ r, finder.find? n = some r := by
  have hmem := (h.mem_names_iff n).mpr hn
  rw [← h.find?_eq hmem]
  exact Selection.exists_find?_of_mem hmem

end Selects

section
variable {finder : Finder} {roots : NameSet}

/-- The invariant holds where the loop ends. -/
theorem frontier_selectRoots (finder : Finder) (roots : NameSet) :
    match selectRoots finder roots with
    | .ok s => Frontier finder roots s []
    | .error e => ∃ s q rest, Frontier finder roots s (q :: rest) ∧ q.name ∉ s.names ∧
        finder.find? q.name = none ∧ e = .unresolved q.name q.origin :=
  select_induction (P := Frontier finder roots) (fun _ _ _ => Frontier.skip)
    (fun _ _ _ _ => Frontier.add) (Frontier.initial finder roots)

theorem selects_of_selectRoots {s : Selection} (h : selectRoots finder roots = .ok s) :
    Selects finder roots s := by
  have hend := frontier_selectRoots finder roots
  rw [h] at hend
  exact .of_frontier hend

theorem unknown_of_selectRoots {e : ResolutionError} (h : selectRoots finder roots = .error e) :
    ∃ n origin, e = .unresolved n origin ∧ Needed finder roots n ∧ finder.find? n = none := by
  have hend := frontier_selectRoots finder roots
  rw [h] at hend
  obtain ⟨s, q, rest, hfrontier, _, hfind, he⟩ := hend
  exact ⟨q.name, q.origin, he, hfrontier.queued q List.mem_cons_self, hfind⟩

end

/-! ## Resolved graphs -/

theorem length_readEach (s : Selection) (known : Implications) (modules : List ModuleReference) :
    (readEach s known modules).length = modules.length := by
  induction modules generalizing known with
  | nil => rfl
  | cons r rest ih =>
    rw [readEach]
    exact congrArg (· + 1) (ih _)

theorem references_graphOf (s : Selection) :
    (graphOf s).modules.map ResolvedModule.reference = s.modules := by
  unfold graphOf
  rw [List.map_map]
  exact List.map_fst_zip (Nat.le_of_eq (length_readEach s ∅ s.modules).symm)

theorem names_graphOf (s : Selection) : (graphOf s).names = s.names := by
  unfold ResolvedGraph.names Selection.names
  rw [← references_graphOf s, List.map_map]
  rfl

/-- A resolution gives the graph over a finished selection without circles. -/
theorem resolve_eq_ok_iff {finder : Finder} {roots : NameSet} {g : ResolvedGraph} :
    resolve finder roots = .ok g ↔
      ∃ s, selectRoots finder roots = .ok s ∧ rejectCircles s = .ok () ∧ g = graphOf s := by
  unfold resolve
  cases selectRoots finder roots with
  | error e => simp [bind, Except.bind]
  | ok s => cases h : rejectCircles s <;> simp [bind, Except.bind, pure, Except.pure, h, eq_comm]

theorem resolve_eq_error_iff {finder : Finder} {roots : NameSet} {e : ResolutionError} :
    resolve finder roots = .error e ↔
      selectRoots finder roots = .error e ∨
        ∃ s, selectRoots finder roots = .ok s ∧ rejectCircles s = .error e := by
  unfold resolve
  cases selectRoots finder roots with
  | error cause => simp [bind, Except.bind]
  | ok s => cases h : rejectCircles s <;> simp [bind, Except.bind, pure, Except.pure, h]

/-- **Closure exactness.**  A resolved graph names each of its modules once, its names are the
least set closed over the finder and the roots, and its modules are those of the finder. -/
theorem resolve_isLeast_closedOver {finder : Finder} {roots : NameSet} {g : ResolvedGraph}
    (h : resolve finder roots = .ok g) :
    g.names.Nodup ∧
      IsLeast {names | ClosedOver finder roots names} {n | n ∈ g.names} ∧
      ∀ m ∈ g.modules, finder.find? m.reference.name = some m.reference := by
  obtain ⟨s, hselect, -, rfl⟩ := resolve_eq_ok_iff.mp h
  have hs := selects_of_selectRoots hselect
  rw [names_graphOf]
  refine ⟨hs.distinct, ?_, ?_⟩
  · have hneeded : {n | n ∈ s.names} = {n | Needed finder roots n} :=
      Set.ext fun n => hs.mem_names_iff n
    rw [hneeded]
    exact isLeast_needed finder roots
  · intro m hm
    refine hs.known m.reference ?_
    rw [← references_graphOf s]
    exact List.mem_map_of_mem hm

/-! ## A small program -/

/-- A module that declares no more than what it requires. -/
def ModuleReference.requiring (name : String) (requires : List Requires) : ModuleReference :=
  ⟨{ name, requires }, .path ⟨name ++ ".jar"⟩⟩

namespace Shop

/-- The program, which is compiled with a tool. -/
def app : ModuleReference :=
  .requiring "app" [{ name := "api" }, { name := "tool", modifiers := { isStatic := true } }]

/-- The interface, which passes its model on. -/
def api : ModuleReference :=
  .requiring "api" [{ name := "model", modifiers := { transitive := true } }, { name := "base" }]

/-- The model, which passes the base on. -/
def model : ModuleReference :=
  .requiring "model" [{ name := "base", modifiers := { transitive := true } }]

/-- The base of everything. -/
def base : ModuleReference := .requiring "base" []

/-- The tool. -/
def tool : ModuleReference := .requiring "tool" [{ name := "base" }]

/-- All modules. -/
def finder : Finder := .ofList [app, api, model, base, tool]

/-- The graph of the program, which the tool does not take part in. -/
def graph : ResolvedGraph where
  modules := [⟨app, ["api", "model", "base"]⟩, ⟨api, ["model", "base"]⟩, ⟨model, ["base"]⟩,
    ⟨base, []⟩]

theorem isLeast_closedOver :
    resolve finder (.ofList ["app"]) = .ok graph ∧ graph.names.Nodup ∧
      IsLeast {names | ClosedOver finder (.ofList ["app"]) names} {n | n ∈ graph.names} ∧
      ∀ m ∈ graph.modules, finder.find? m.reference.name = some m.reference := by
  have h : resolve finder (.ofList ["app"]) = .ok graph := by cbv
  exact ⟨h, resolve_isLeast_closedOver h⟩

end Shop

end ModuleAtlas
