import Mathlib.Data.List.Permutation
import ModuleAtlas.Configuration.Queries
import ModuleAtlas.Proofs.Resolution.Monotone
import ModuleAtlas.Proofs.Steps

/-! # The parts of a configuration belong together

A configuration keeps a resolved graph and, beside it, a table of opened modules.  Nothing but the
names ties the two together, and later resolutions go back to the layers that the graph was made
from.  `Coherent` is what holds the parts together: the graph comes from the layers, the table has
the names of the graph, and each module stands in the table under its own name.

A build makes coherent configurations (`coherent_of_build`), because the module of a reference is
opened under the name of the reference.  In a coherent configuration the modules that a module
reads are in the table (`Coherent.reads_eq`), and roots from the table need nothing beyond it, so
they are resolved without a look at the file tree (`Coherent.exists_resolve_eq`).
-/
namespace ModuleAtlas

/-! ## Builds -/

theorem name_of_openUnit {tree : FileTree} {platform : Platform} {release : Option Nat}
    {handle : Handle} {r : ModuleReference} {u : ModuleUnit}
    (h : openUnit tree platform release handle r = .ok u) : u.name = r.name := by
  unfold openUnit at h
  cases hlocation : r.location with
  | platform =>
    rw [hlocation] at h
    obtain ⟨reader, -, he⟩ := Steps.bind_eq_ok_iff.mp h
    exact (congrArg ModuleUnit.name (Except.ok.inj he)).symm
  | path p =>
    rw [hlocation] at h
    obtain ⟨reader, -, he⟩ := Steps.bind_eq_ok_iff.mp h
    exact (congrArg ModuleUnit.name (Except.ok.inj he)).symm

namespace BuildPlan

/-- The configuration that a build ends with. -/
def assemble (plan : BuildPlan) (inputs : Inputs) (graph : ResolvedGraph)
    (units : List ModuleUnit) (classPathArtifacts : List Artifact) : Configuration where
  platform := inputs.platform
  layers := inputs.layers
  graph := graph
  units := units.foldl (fun table u => table.insert u.name u) ∅
  roots := inputs.roots plan
  initialArtifacts := inputs.initialArtifacts
  classPathArtifacts := classPathArtifacts
  index := indexOf units (inputs.initialArtifacts ++ classPathArtifacts)
  release := plan.release

/-- A build succeeds exactly if each of its steps does. -/
theorem build_eq_ok_iff {plan : BuildPlan} {tree : FileTree} {opening : Nat} {c : Configuration} :
    plan.build tree opening = .ok c ↔
      ∃ inputs graph units artifacts, plan.gather tree opening = .ok inputs ∧
        resolve inputs.layers.finder (inputs.resolutionRoots plan) = .ok graph ∧
        plan.openUnits tree opening inputs.platform graph = .ok units ∧
        plan.openClassPath tree opening inputs.classPath = .ok artifacts ∧
        plan.assemble inputs graph units artifacts = c := by
  constructor
  · intro h
    obtain ⟨inputs, hinputs, h⟩ := Steps.bind_eq_ok_iff.mp h
    obtain ⟨graph, hgraph, h⟩ := Steps.bind_eq_ok_iff.mp h
    obtain ⟨units, hunits, h⟩ := Steps.bind_eq_ok_iff.mp h
    obtain ⟨artifacts, hartifacts, h⟩ := Steps.bind_eq_ok_iff.mp h
    exact ⟨inputs, graph, units, artifacts, hinputs, Steps.mapError_eq_ok_iff.mp hgraph, hunits,
      hartifacts, Except.ok.inj h⟩
  · rintro ⟨inputs, graph, units, artifacts, hinputs, hgraph, hunits, hartifacts, rfl⟩
    refine Steps.bind_eq_ok_iff.mpr ⟨inputs, hinputs, ?_⟩
    refine Steps.bind_eq_ok_iff.mpr ⟨graph, Steps.mapError_eq_ok_iff.mpr hgraph, ?_⟩
    refine Steps.bind_eq_ok_iff.mpr ⟨units, hunits, ?_⟩
    exact Steps.bind_eq_ok_iff.mpr ⟨artifacts, hartifacts, rfl⟩

theorem names_of_openUnits {plan : BuildPlan} {tree : FileTree} {opening : Nat}
    {platform : Platform} {graph : ResolvedGraph} {units : List ModuleUnit}
    (h : plan.openUnits tree opening platform graph = .ok units) :
    units.map ModuleUnit.name = graph.names := by
  have hopened := Steps.mapM_eq_ok_iff.mp h
  exact (Steps.map_eq_map_of_forall₂ (hopened.imp fun _ _ hu => (name_of_openUnit hu).symm)).symm

end BuildPlan

/-- The table of some modules under their names. -/
theorem entries_tableOf {units : List ModuleUnit} (h : (units.map ModuleUnit.name).Nodup) :
    (units.foldl (fun table u => table.insert u.name u) (∅ : OrderedMap ModuleUnit)).entries =
      units.map fun u => (u.name, u) :=
  OrderedMap.entries_foldl_insert (m := ∅) ModuleUnit.name id h

/-! ## Coherent configurations -/

theorem ResolvedGraph.find?_eq_none_iff {g : ResolvedGraph} {n : String} :
    g.find? n = none ↔ n ∉ g.names := by
  simp [find?, names]

theorem ResolvedGraph.exists_find?_of_mem {g : ResolvedGraph} {n : String} (h : n ∈ g.names) :
    ∃ m, g.find? n = some m := by
  rw [← Option.isSome_iff_exists, ← Option.ne_none_iff_isSome, ne_eq, find?_eq_none_iff]
  exact not_not_intro h

/-- The graph is a resolution over the layers, the table has the names of the graph, in the order
of the graph, and each module stands under its own name. -/
structure Configuration.Coherent (c : Configuration) : Prop where
  resolved : ∃ roots, ModuleAtlas.resolve c.finder roots = .ok c.graph
  keys : c.units.keys = c.graph.names
  named : ∀ name u, c.findUnit name = some u → u.name = name

theorem coherent_of_build {plan : BuildPlan} {tree : FileTree} {opening : Nat} {c : Configuration}
    (h : plan.build tree opening = .ok c) : c.Coherent := by
  obtain ⟨inputs, graph, units, artifacts, -, hgraph, hunits, -, rfl⟩ :=
    BuildPlan.build_eq_ok_iff.mp h
  have hnames : units.map ModuleUnit.name = graph.names := BuildPlan.names_of_openUnits hunits
  have hdistinct : graph.names.Nodup := by
    obtain ⟨s, hs, -, rfl⟩ := exists_selects_of_resolve hgraph
    rw [names_graphOf]
    exact hs.distinct
  have hentries := entries_tableOf (hnames ▸ hdistinct)
  refine ⟨⟨_, hgraph⟩, ?_, ?_⟩
  · show (BuildPlan.assemble plan inputs graph units artifacts).units.entries.map Prod.fst = _
    rw [BuildPlan.assemble, hentries, List.map_map]
    exact hnames
  · intro name u hu
    have hmem := OrderedMap.find?_eq_some_iff.mp hu
    rw [BuildPlan.assemble, hentries] at hmem
    obtain ⟨v, -, he⟩ := List.mem_map.mp hmem
    obtain ⟨rfl, rfl⟩ := Prod.mk.inj he
    rfl

namespace Configuration.Coherent
variable {c : Configuration}

theorem exists_findUnit (h : c.Coherent) {n : String} (hn : n ∈ c.graph.names) :
    ∃ u, c.findUnit n = some u ∧ u.name = n := by
  obtain ⟨u, hu⟩ := OrderedMap.exists_find?_of_mem (h.keys ▸ hn)
  exact ⟨u, hu, h.named n u hu⟩

/-- Names from the graph stand for modules of the table, one for each name. -/
theorem exists_units (h : c.Coherent) {names : List String} (hn : ∀ n ∈ names, n ∈ c.graph.names) :
    ∃ us, List.Forall₂ (fun n u => c.findUnit n = some u) names us ∧
      us.map ModuleUnit.name = names ∧ ∀ u ∈ us, c.findUnit u.name = some u := by
  induction names with
  | nil => exact ⟨[], .nil, rfl, fun _ hu => absurd hu List.not_mem_nil⟩
  | cons n names ih =>
    obtain ⟨u, hu, hname⟩ := h.exists_findUnit (hn n List.mem_cons_self)
    obtain ⟨us, hus, hnames, hfound⟩ := ih fun k hk => hn k (List.mem_cons_of_mem _ hk)
    refine ⟨u :: us, .cons hu hus, ?_, ?_⟩
    · rw [List.map_cons, hname, hnames]
    · intro v hv
      rcases List.mem_cons.mp hv with rfl | hv
      · rw [hname]
        exact hu
      · exact hfound v hv

/-- What a module of the graph reads is in the graph. -/
theorem mem_names_of_mem_reads (h : c.Coherent) {m : ResolvedModule} (hm : m ∈ c.graph.modules)
    {n : String} (hn : n ∈ m.reads) : n ∈ c.graph.names := by
  obtain ⟨roots, hgraph⟩ := h.resolved
  obtain ⟨s, -, hacyclic, he⟩ := exists_selects_of_resolve hgraph
  rw [he, graphOf_eq hacyclic] at hm
  obtain ⟨r, -, rfl⟩ := List.mem_map.mp hm
  rw [he, names_graphOf]
  exact Selection.mem_names_of_mem_readAlong hacyclic hn

/-- A module of the graph reads modules of the table. -/
theorem reads_eq (h : c.Coherent) {n : String} (hn : n ∈ c.units.keys) :
    ∃ m us, c.graph.find? n = some m ∧ c.reads n = .ok us ∧ us.map ModuleUnit.name = m.reads ∧
      ∀ u ∈ us, c.findUnit u.name = some u := by
  obtain ⟨m, hm⟩ := ResolvedGraph.exists_find?_of_mem (h.keys ▸ hn)
  have hmem : m ∈ c.graph.modules := List.mem_of_find?_eq_some hm
  obtain ⟨us, hus, hnames, hfound⟩ := h.exists_units fun k hk => h.mem_names_of_mem_reads hmem hk
  refine ⟨m, us, hm, ?_, hnames, hfound⟩
  rw [Configuration.reads, hm]
  refine Steps.mapM_eq_ok_iff.mpr (hus.imp fun read u hu => ?_)
  have hfind : c.units.find? read = some u := hu
  rw [hfind]

theorem reads_eq_error (h : c.Coherent) {n : String} (hn : n ∉ c.units.keys) :
    c.reads n = .error (.configuration (.notInConfiguration n)) := by
  rw [Configuration.reads, ResolvedGraph.find?_eq_none_iff.mpr (h.keys ▸ hn)]

/-- Roots from the table are resolved to modules of the table, whatever the file tree is like by
then. -/
theorem exists_resolve_eq (h : c.Coherent) {roots : NameSet} (hne : roots.isEmpty = false)
    (hroots : ∀ n ∈ roots, n ∈ c.units.keys) :
    ∃ us, (∀ tree opening, c.resolve tree opening roots = .ok us) ∧
      (∀ u ∈ us, c.findUnit u.name = some u) ∧ (us.map ModuleUnit.name).Nodup ∧
      ∀ n, n ∈ us.map ModuleUnit.name ↔ Needed c.finder roots n := by
  obtain ⟨all, hgraph⟩ := h.resolved
  obtain ⟨t, ht, hacyclic, he⟩ := exists_selects_of_resolve hgraph
  have hkeys : c.graph.names = t.names := by rw [he, names_graphOf]
  rw [h.keys, hkeys] at hroots
  obtain ⟨s, hresolve, hs, hwithin⟩ := exists_within_of_selects ht hacyclic hroots
  have hinside : ∀ n ∈ (graphOf s).names, n ∈ c.graph.names := by
    intro n hn
    rw [names_graphOf] at hn
    rw [hkeys]
    exact hwithin.mem_names hn
  obtain ⟨us, hus, hnames, hfound⟩ := h.exists_units hinside
  refine ⟨us, fun tree opening => ?_, hfound, ?_, ?_⟩
  · have hopened := List.forall₂_map_left_iff.mp hus
    have hresolution : ofResolution (ModuleAtlas.resolve c.finder roots) = .ok (graphOf s) :=
      Steps.mapError_eq_ok_iff.mpr hresolve
    rw [Configuration.resolve, hne]
    refine Steps.bind_eq_ok_iff.mpr ⟨_, hresolution, ?_⟩
    refine Steps.mapM_eq_ok_iff.mpr (hopened.imp fun m u hu => ?_)
    have hfind : c.units.find? m.reference.name = some u := hu
    rw [Configuration.unitFor, hfind]
  · rw [hnames, names_graphOf]
    exact hs.distinct
  · rw [hnames, names_graphOf]
    exact hs.mem_names_iff

end Configuration.Coherent

/-- **A built configuration is consistent.**  Its table has the names of the graph that its roots
resolve to, in the order of the graph.  A module reads modules of the configuration if it takes
part, and otherwise the answer is that it does not; it is never that the graph and the table
differ.  Roots that take part are resolved to what they need, out of the table and whatever has
become of the files. -/
theorem build_consistent {plan : BuildPlan} {tree : FileTree} {opening : Nat} {c : Configuration}
    (h : plan.build tree opening = .ok c) :
    (∃ inputs, plan.gather tree opening = .ok inputs ∧
        resolve c.finder (inputs.resolutionRoots plan) = .ok c.graph ∧
        c.units.keys = c.graph.names) ∧
      (∀ u : ModuleUnit,
        (u.name ∈ c.units.keys → ∃ m us, c.graph.find? u.name = some m ∧ c.reads u.name = .ok us ∧
          us.map ModuleUnit.name = m.reads ∧ ∀ v ∈ us, c.findUnit v.name = some v) ∧
        (u.name ∉ c.units.keys →
          c.reads u.name = .error (.configuration (.notInConfiguration u.name))) ∧
        ∀ n, c.reads u.name ≠ .error (.configuration (.inconsistentGraph n))) ∧
      ∀ roots : NameSet, roots.isEmpty = false → (∀ n ∈ roots, n ∈ c.units.keys) →
        ∃ us, (∀ tree' opening', c.resolve tree' opening' roots = .ok us) ∧
          (∀ u ∈ us, c.findUnit u.name = some u) ∧ (us.map ModuleUnit.name).Nodup ∧
          ∀ n, n ∈ us.map ModuleUnit.name ↔ Needed c.finder roots n := by
  have hc := coherent_of_build h
  refine ⟨?_, fun u => ⟨hc.reads_eq, hc.reads_eq_error, ?_⟩, fun roots => hc.exists_resolve_eq⟩
  · obtain ⟨inputs, graph, units, artifacts, hinputs, hgraph, -, -, rfl⟩ :=
      BuildPlan.build_eq_ok_iff.mp h
    exact ⟨inputs, hinputs, hgraph, hc.keys⟩
  · intro n hreads
    by_cases hu : u.name ∈ c.units.keys
    · obtain ⟨m, us, -, hok, -⟩ := hc.reads_eq hu
      rw [hok] at hreads
      cases hreads
    · rw [hc.reads_eq_error hu] at hreads
      cases hreads

namespace Shop

/-- The modules of the program as a platform, packed without content. -/
def platform : Platform where
  home := some ⟨"/shop"⟩
  source := .packed {
    path := ⟨"/shop/lib/modules"⟩
    header := default
    modules := [app, api, model, base, tool].foldl (fun modules r => modules.insert r.name ∅) ∅
    content := []
    handle := default }
  units := [app, api, model, base, tool].foldl (fun units r => units.add r.descriptor) .empty

/-- A build from the program alone. -/
def plan : BuildPlan where
  platform := some platform
  roots := ["app"]

/-- The tool does not take part.  The interface still resolves when all files are gone. -/
theorem build_consistent_app :
    ∃ c, plan.build {} 1 = .ok c ∧ c.units.keys = ["app", "api", "model", "base"] ∧
      (∀ u : ModuleUnit, u.name = "tool" →
        c.reads u.name = .error (.configuration (.notInConfiguration u.name))) ∧
      (∀ u : ModuleUnit, u.name = "api" →
        ∃ us, c.reads u.name = .ok us ∧ us.map ModuleUnit.name = ["model", "base"]) ∧
      ∃ us, (∀ tree' opening', c.resolve tree' opening' (.ofList ["api"]) = .ok us) ∧
        (∀ u ∈ us, c.findUnit u.name = some u) ∧ (us.map ModuleUnit.name).Nodup ∧
        ∀ n, n ∈ us.map ModuleUnit.name ↔ Needed c.finder (.ofList ["api"]) n := by
  have hbuilt : (plan.build {} 1).map (fun c => (c.units.keys,
      (c.graph.find? "api").map ResolvedModule.reads)) =
      .ok (["app", "api", "model", "base"], some ["model", "base"]) := by cbv
  obtain ⟨c, h, he⟩ := Steps.map_eq_ok_iff.mp hbuilt
  obtain ⟨hkeys, hreads⟩ := Prod.mk.inj he
  obtain ⟨-, hb, hc⟩ := build_consistent h
  refine ⟨c, h, hkeys, ?_, ?_, hc (.ofList ["api"]) rfl ?_⟩
  · intro u hu
    exact (hb u).2.1 (by rw [hu, hkeys]; decide)
  · intro u hu
    obtain ⟨m, us, hm, hok, hnames, -⟩ := (hb u).1 (by rw [hu, hkeys]; decide)
    rw [← hu, hm] at hreads
    exact ⟨us, hok, hnames.trans (Option.some.inj hreads)⟩
  · rw [hkeys]
    decide

end Shop
end ModuleAtlas
