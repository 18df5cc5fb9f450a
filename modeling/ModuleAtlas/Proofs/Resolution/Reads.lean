import ModuleAtlas.Proofs.Resolution.Outcome

/-! # What a module of a resolved graph reads

In an acyclic selection the modules that have been entered lead to the targets and not back
(`Above`), so the trail that `readAlong` and `readCached` carry never stops them:
`readAlong_congr` and `readAlong_cons` are the recursion without it.

What is known may then be anything that earlier calls have found out.  `Sound` says that every
entry is what the uncached recursion gives, and `readCached_spec` that a call with such entries
gives what the uncached recursion gives, in the same order, and leaves such entries.  So the
reads of a module do not depend on the modules that were looked at before it (`graphOf_eq`).

As a set, `readAlong` finds what its targets lead to over transitive requirements
(`mem_readAlong_iff`), and so the reads of a module are known exactly
(`mem_reads_iff_of_resolve`).
-/
namespace ModuleAtlas
open Relation

theorem ModuleReference.mem_transitiveNames {r : ModuleReference} {n : String} :
    n ∈ r.transitiveNames ↔
      ∃ q ∈ r.descriptor.requires, q.modifiers.transitive = true ∧ q.name = n := by
  simp [transitiveNames, and_assoc]

theorem ModuleReference.mem_requiredNames_of_transitive {r : ModuleReference} {n : String}
    (h : n ∈ r.transitiveNames) : n ∈ r.requiredNames := by
  obtain ⟨q, hq, _, rfl⟩ := mem_transitiveNames.mp h
  exact List.mem_map_of_mem hq

/-- The module of the first name is selected, and its readers read the second, which is selected
as well. -/
def Selection.Implies (s : Selection) (m n : String) : Prop :=
  ∃ r, s.find? m = some r ∧ n ∈ r.transitiveNames ∧ n ∈ s.names

theorem Selection.Implies.requires {s : Selection} {m n : String} (h : s.Implies m n) :
    s.Requires m n := by
  obtain ⟨r, hr, hn, hs⟩ := h
  exact ⟨r, hr, ModuleReference.mem_requiredNames_of_transitive hn, hs⟩

/-! ## The trail in an acyclic selection -/

/-- Every module that has been entered requires, directly or through others, every selected
target. -/
def Above (s : Selection) (trail targets : List String) : Prop :=
  ∀ m ∈ trail, ∀ n ∈ targets, n ∈ s.names → TransGen s.Requires m n

namespace Above
variable {s : Selection} {trail targets : List String} {name : String} {r : ModuleReference}

theorem nil (s : Selection) (targets : List String) : Above s [] targets :=
  fun _ hm => absurd hm List.not_mem_nil

theorem tail (h : Above s trail (name :: targets)) : Above s trail targets :=
  fun m hm n hn => h m hm n (List.mem_cons_of_mem _ hn)

theorem enter (h : Above s trail (name :: targets)) (hfind : s.find? name = some r) :
    Above s (name :: trail) r.transitiveNames := by
  intro m hm n hn hs
  have hstep : s.Requires name n :=
    ⟨r, hfind, ModuleReference.mem_requiredNames_of_transitive hn, hs⟩
  rcases List.mem_cons.mp hm with rfl | hm
  · exact .single hstep
  · exact (h m hm name List.mem_cons_self (Selection.mem_names_of_find? hfind)).tail hstep

theorem not_mem (h : Above s trail (name :: targets)) (ha : s.Acyclic)
    (hfind : s.find? name = some r) : name ∉ trail :=
  fun hm => ha name (h name hm name List.mem_cons_self (Selection.mem_names_of_find? hfind))

end Above

section
variable {s : Selection} {trail found targets : List String} {name : String}
  {r : ModuleReference}

theorem readAlong_cons_of_none (hfind : s.find? name = none) :
    readAlong s trail found (name :: targets) = readAlong s trail found targets := by
  rw [readAlong, hfind]

theorem readAlong_cons_of_some (hfind : s.find? name = some r) (hoff : name ∉ trail) :
    readAlong s trail found (name :: targets) =
      readAlong s trail (appendAllNew (appendNew found name)
        (readAlong s (name :: trail) [] r.transitiveNames)) targets := by
  rw [readAlong, hfind]
  exact dif_neg hoff

/-- Trails above the targets make no difference. -/
theorem readAlong_congr (ha : s.Acyclic) {trail' : List String} (h : Above s trail targets)
    (h' : Above s trail' targets) :
    readAlong s trail found targets = readAlong s trail' found targets := by
  induction trail, found, targets using readAlong.induct s generalizing trail' with
  | case1 trail found => rw [readAlong, readAlong]
  | case2 trail found name targets hfind ih =>
    rw [readAlong_cons_of_none hfind, readAlong_cons_of_none hfind]
    exact ih h.tail h'.tail
  | case3 trail found name targets r hfind hon ih => exact absurd hon (h.not_mem ha hfind)
  | case4 trail found name targets r hfind hoff implied ihin =>
    rename_i ihrest
    rw [readAlong_cons_of_some hfind hoff, readAlong_cons_of_some hfind (h'.not_mem ha hfind),
      ← ihin (h.enter hfind) (h'.enter hfind)]
    exact ihrest h.tail h'.tail

/-- The recursion without a trail: a selected target comes first, then what it implies. -/
theorem readAlong_cons (ha : s.Acyclic) (h : Above s trail (name :: targets))
    (hfind : s.find? name = some r) :
    readAlong s trail found (name :: targets) =
      readAlong s trail (appendAllNew (appendNew found name) (impliedBy s name)) targets := by
  have himplied : readAlong s (name :: trail) [] r.transitiveNames = impliedBy s name := by
    rw [impliedBy, hfind]
    exact readAlong_congr ha (h.enter hfind) ((Above.nil s [name]).enter hfind)
  rw [readAlong_cons_of_some hfind (h.not_mem ha hfind), himplied]

/-- **What is found**, as a set: what was found before, and what the selected targets lead to
over transitive requirements. -/
theorem mem_readAlong_iff (ha : s.Acyclic) (h : Above s trail targets) {x : String} :
    x ∈ readAlong s trail found targets ↔
      x ∈ found ∨ ∃ n ∈ targets, n ∈ s.names ∧ ReflTransGen s.Implies n x := by
  induction trail, found, targets using readAlong.induct s with
  | case1 trail found => simp [readAlong]
  | case2 trail found name targets hfind ih =>
    have hnot := Selection.find?_eq_none_iff.mp hfind
    rw [readAlong_cons_of_none hfind, ih h.tail]
    simp [hnot]
  | case3 trail found name targets r hfind hon ih => exact absurd hon (h.not_mem ha hfind)
  | case4 trail found name targets r hfind hoff implied ihin ihrest =>
    have hs := Selection.mem_names_of_find? hfind
    -- what `name` implies is what its transitive requirements lead to
    have himplied : x ∈ implied ↔ ∃ n, s.Implies name n ∧ ReflTransGen s.Implies n x := by
      rw [ihin (h.enter hfind), or_iff_right List.not_mem_nil]
      constructor
      · rintro ⟨n, hn, hselected, hpath⟩
        exact ⟨n, ⟨r, hfind, hn, hselected⟩, hpath⟩
      · rintro ⟨n, ⟨r', hr', hn, hselected⟩, hpath⟩
        obtain rfl : r = r' := Option.some.inj (hfind.symm.trans hr')
        exact ⟨n, hn, hselected, hpath⟩
    have hname : x = name ∨ x ∈ implied ↔ ReflTransGen s.Implies name x := by
      rw [himplied, ReflTransGen.cases_head_iff, eq_comm]
    rw [readAlong_cons_of_some hfind hoff, ihrest h.tail, mem_appendAllNew, mem_appendNew,
      or_assoc, or_assoc, ← or_assoc (a := x = name), hname]
    simp [hs]

end

/-! ## The cache -/

/-- What is known about a module is what it implies. -/
def Sound (s : Selection) (known : Implications) : Prop :=
  ∀ name implied, known.find? name = some implied → implied = impliedBy s name

theorem sound_empty (s : Selection) : Sound s ∅ := by
  intro name implied h
  rw [OrderedMap.find?_empty] at h
  cases h

theorem Sound.insert {s : Selection} {known : Implications} (h : Sound s known) (name : String) :
    Sound s (known.insert name (impliedBy s name)) := by
  intro other implied hfind
  rw [OrderedMap.find?_insert] at hfind
  split at hfind
  · next he =>
    rw [← he]
    exact (Option.some.inj hfind).symm
  · exact h other implied hfind

/-- **The cache is transparent.**  A call that starts with sound entries finds what the uncached
recursion finds, in the same order, and leaves sound entries. -/
theorem readCached_spec {s : Selection} (ha : s.Acyclic) {trail : List String}
    (found : List String) {targets : List String} {known : Implications} (hknown : Sound s known)
    (h : Above s trail targets) :
    (readCached s trail known found targets).1 = readAlong s trail found targets ∧
      Sound s (readCached s trail known found targets).2 := by
  induction trail, known, found, targets using readCached.induct s with
  | case1 trail known found =>
    rw [readCached, readAlong]
    exact ⟨rfl, hknown⟩
  | case2 trail known found name targets hfind ih =>
    rw [readCached, hfind, readAlong_cons_of_none hfind]
    exact ih hknown h.tail
  | case3 trail known found name targets r hfind implied hhit ih =>
    obtain rfl := hknown name implied hhit
    rw [readCached, hfind, readAlong_cons ha h hfind]
    simp only [hhit]
    exact ih hknown h.tail
  | case4 trail known found name targets r hfind hmiss hon ih =>
    exact absurd hon (h.not_mem ha hfind)
  | case5 trail known found name targets r hfind hmiss hoff implied known' hinner ihin ihrest =>
    obtain ⟨hin, hsound⟩ := ihin hknown (h.enter hfind)
    rw [hinner] at hin hsound
    -- the inner call gives what `name` implies, so the new entry is sound
    have himplied : implied = impliedBy s name := by
      rw [impliedBy, hfind]
      exact hin.trans (readAlong_congr ha (h.enter hfind) ((Above.nil s [name]).enter hfind))
    have hrest := ihrest (by rw [himplied]; exact hsound.insert name) h.tail
    rw [readCached, hfind, readAlong_cons ha h hfind]
    simp only [hmiss, hoff, dite_false, hinner]
    rw [← himplied]
    exact hrest

theorem readEach_eq {s : Selection} (ha : s.Acyclic) (modules : List ModuleReference)
    {known : Implications} (hknown : Sound s known) :
    readEach s known modules = modules.map fun r => readAlong s [] [] r.requiredNames := by
  induction modules generalizing known with
  | nil => rfl
  | cons r rest ih =>
    obtain ⟨hreads, hsound⟩ := readCached_spec ha [] hknown (Above.nil s r.requiredNames)
    rw [readEach, List.map_cons, ← hreads, ← ih hsound]

/-- The graph over an acyclic selection: each module reads what its requirements lead to, whatever
the order in which the modules are looked at. -/
theorem graphOf_eq {s : Selection} (ha : s.Acyclic) :
    graphOf s = ⟨s.modules.map fun r => ⟨r, readAlong s [] [] r.requiredNames⟩⟩ := by
  have hzip : s.modules.zip (s.modules.map fun r => readAlong s [] [] r.requiredNames) =
      s.modules.map fun r => (r, readAlong s [] [] r.requiredNames) := by
    induction s.modules with
    | nil => rfl
    | cons r rest ih => rw [List.map_cons, List.zip_cons_cons, ih, List.map_cons]
  rw [graphOf, readEach_eq ha s.modules (sound_empty s), hzip, List.map_map]
  rfl

/-! ## Reads of resolved graphs -/

/-- The module of the first name is in the graph, and it requires the second transitively, which
is in the graph as well. -/
def ResolvedGraph.Implies (g : ResolvedGraph) (a b : String) : Prop :=
  ∃ m ∈ g.modules, m.reference.name = a ∧ b ∈ g.names ∧
    ∃ q ∈ m.reference.descriptor.requires, q.modifiers.transitive = true ∧ q.name = b

section
variable {finder : Finder} {roots : NameSet} {s : Selection}

theorem Selects.find?_of_mem (h : Selects finder roots s) {r : ModuleReference}
    (hr : r ∈ s.modules) : s.find? r.name = some r :=
  (h.find?_eq (List.mem_map_of_mem hr)).trans (h.known r hr)

theorem implies_graphOf (h : Selects finder roots s) : (graphOf s).Implies = s.Implies := by
  funext a b
  refine propext ⟨?_, ?_⟩
  · rintro ⟨m, hm, rfl, hb, hq⟩
    have hr : m.reference ∈ s.modules := by
      rw [← references_graphOf s]
      exact List.mem_map_of_mem hm
    exact ⟨m.reference, h.find?_of_mem hr, ModuleReference.mem_transitiveNames.mpr hq,
      names_graphOf s ▸ hb⟩
  · rintro ⟨r, hr, hb, hs⟩
    have hmem := Selection.mem_of_find? hr
    rw [← references_graphOf s] at hmem
    obtain ⟨m, hm, rfl⟩ := List.mem_map.mp hmem
    exact ⟨m, hm, Selection.name_of_find? hr, (names_graphOf s).symm ▸ hs,
      ModuleReference.mem_transitiveNames.mp hb⟩

theorem Selection.requires_of_implies {m n : String} (h : ReflTransGen s.Implies m n) :
    ReflTransGen s.Requires m n := by
  induction h with
  | refl => exact .refl
  | tail _ hstep ih => exact ih.tail hstep.requires

/-- A path over transitive requirements that starts among the selected modules stays there. -/
theorem Selection.mem_names_of_implies {m n : String} (hm : m ∈ s.names)
    (h : ReflTransGen s.Implies m n) : n ∈ s.names := by
  induction h with
  | refl => exact hm
  | tail _ hstep _ =>
    obtain ⟨_, _, _, hs⟩ := hstep
    exact hs

theorem Selection.mem_names_of_mem_readAlong (ha : s.Acyclic) {targets : List String} {x : String}
    (hx : x ∈ readAlong s [] [] targets) : x ∈ s.names := by
  rw [mem_readAlong_iff ha (Above.nil s targets), or_iff_right List.not_mem_nil] at hx
  obtain ⟨n, _, hn, hpath⟩ := hx
  exact mem_names_of_implies hn hpath

/-- **Readability exactness.**  A module of a resolved graph reads the modules of the graph that
it requires, with whatever modifiers, and those which these lead to over transitive requirements
in the graph.  All of them are in the graph, and the module itself is none of them. -/
theorem mem_reads_iff_of_resolve {g : ResolvedGraph} (h : resolve finder roots = .ok g)
    {m : ResolvedModule} (hm : m ∈ g.modules) :
    (∀ x, x ∈ m.reads ↔ x ∈ g.names ∧ ∃ q ∈ m.reference.descriptor.requires, q.name ∈ g.names ∧
        (x = q.name ∨ TransGen g.Implies q.name x)) ∧
      (∀ x ∈ m.reads, x ∈ g.names) ∧ m.reference.name ∉ m.reads := by
  obtain ⟨s, hselect, hreject, rfl⟩ := resolve_eq_ok_iff.mp h
  have hs := selects_of_selectRoots hselect
  have ha := acyclic_of_rejectCircles hreject
  have hmodules := hm
  rw [graphOf_eq ha] at hmodules
  obtain ⟨r, hr, rfl⟩ := List.mem_map.mp hmodules
  have hmem : ∀ x, x ∈ readAlong s [] [] r.requiredNames ↔
      ∃ n ∈ r.requiredNames, n ∈ s.names ∧ ReflTransGen s.Implies n x := by
    intro x
    rw [mem_readAlong_iff ha (Above.nil s r.requiredNames), or_iff_right List.not_mem_nil]
  have hinside : ∀ x ∈ readAlong s [] [] r.requiredNames, x ∈ s.names := by
    intro x hx
    obtain ⟨n, _, hn, hpath⟩ := (hmem x).mp hx
    exact Selection.mem_names_of_implies hn hpath
  rw [implies_graphOf hs, names_graphOf]
  refine ⟨fun x => ⟨fun hx => ⟨hinside x hx, ?_⟩, ?_⟩, hinside, fun hself => ?_⟩
  · obtain ⟨n, hn, hselected, hpath⟩ := (hmem x).mp hx
    obtain ⟨q, hq, rfl⟩ := List.mem_map.mp hn
    exact ⟨q, hq, hselected, reflTransGen_iff_eq_or_transGen.mp hpath⟩
  · rintro ⟨_, q, hq, hselected, hpath⟩
    exact (hmem x).mpr ⟨q.name, List.mem_map_of_mem hq, hselected,
      reflTransGen_iff_eq_or_transGen.mpr hpath⟩
  · -- a module in its own reads would require itself
    obtain ⟨n, hn, hselected, hpath⟩ := (hmem r.name).mp hself
    have hstep : s.Requires r.name n := ⟨r, hs.find?_of_mem hr, hn, hselected⟩
    exact ha r.name (TransGen.head' hstep (Selection.requires_of_implies hpath))

end

theorem Shop.mem_reads_app :
    resolve Shop.finder (.ofList ["app"]) = .ok Shop.graph ∧
      ⟨Shop.app, ["api", "model", "base"]⟩ ∈ Shop.graph.modules ∧
      (∀ x, x ∈ ["api", "model", "base"] ↔ x ∈ Shop.graph.names ∧
        ∃ q ∈ Shop.app.descriptor.requires, q.name ∈ Shop.graph.names ∧
          (x = q.name ∨ TransGen Shop.graph.Implies q.name x)) ∧
      (∀ x ∈ ["api", "model", "base"], x ∈ Shop.graph.names) ∧
      Shop.app.name ∉ ["api", "model", "base"] := by
  have h : resolve Shop.finder (.ofList ["app"]) = .ok Shop.graph := by cbv
  have hm : ⟨Shop.app, ["api", "model", "base"]⟩ ∈ Shop.graph.modules := List.mem_cons_self
  exact ⟨h, hm, mem_reads_iff_of_resolve h hm⟩

end ModuleAtlas
