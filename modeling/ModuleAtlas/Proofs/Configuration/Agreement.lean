import Mathlib.Data.List.Forall2
import ModuleAtlas.Proofs.Configuration.Consistency
import ModuleAtlas.Proofs.Discovery.Agreement
import ModuleAtlas.Proofs.Discovery.Declared
import ModuleAtlas.Proofs.Discovery.Layers
import ModuleAtlas.Proofs.Ownership.Owners
import ModuleAtlas.Proofs.Resolution.Congruence

/-! # Building over platforms that agree

Platforms that agree differ in the order of their modules and in the parts of descriptors that
analysis does not look at.  Neither is seen in a configuration: from the same plan over either of
them there come the same modules in the same order, with the same reads and the same packages
(`build_agree`).

The modules of a resolution are compared by `Counterpart`.  A module from a module path is its own
counterpart, whether or not the platform has one of the same name; a module of the platform has the
one with the full descriptor as its counterpart.
-/
namespace ModuleAtlas
open Steps

/-! ## References -/

/-- A reference over the first platform, and what stands for it over the second one. -/
inductive Platform.Counterpart (q : Platform) : ModuleReference → ModuleReference → Prop
  | own {r : ModuleReference} {path : Path} (h : r.location = .path path) : Counterpart q r r
  | platform {d : ModuleDescriptor} (h : q.find? d.name = some d) :
      Counterpart q (Catalog.referenceTo d.sanitized) (Catalog.referenceTo d)

theorem Platform.Counterpart.alike {q : Platform} {r s : ModuleReference} (h : q.Counterpart r s) :
    r.Alike s := by
  cases h with
  | own => exact ⟨rfl, rfl⟩
  | platform => exact ⟨rfl, rfl⟩

/-! ## Finders -/

theorem findSome?_of_forall₂ {α β γ δ : Type} {R : γ → δ → Prop} {f : α → Option γ}
    {g : β → Option δ} {l : List α} {m : List β}
    (h : List.Forall₂ (fun a b => Option.Rel R (f a) (g b)) l m) :
    Option.Rel R (l.findSome? f) (m.findSome? g) := by
  induction h with
  | nil => exact .none
  | @cons a b _ _ hab _ ih =>
    rw [List.findSome?_cons, List.findSome?_cons]
    cases hf : f a with
    | none =>
      rw [eq_none_of_rel hab hf]
      exact ih
    | some c =>
      obtain ⟨d, hg, hcd⟩ := exists_of_rel hab hf
      rw [hg]
      exact .some hcd

/-- Layers with related finders amount to related finders. -/
theorem Layers.related {R : ModuleReference → ModuleReference → Prop} {l m : Layers}
    (hoverride : Option.Rel (Finder.Related R) l.override m.override)
    (hplatform : Option.Rel (Finder.Related R) l.platform m.platform)
    (happlication : Option.Rel (Finder.Related R) l.application m.application)
    (hextra : Option.Rel (Finder.Related R) l.extra m.extra) :
    l.finder.Related R m.finder := by
  intro n
  have hlayers : List.Forall₂ (Finder.Related R) l.finders m.finders :=
    List.rel_filterMap (fun _ _ h => h)
      (.cons hoverride (.cons hplatform (.cons happlication (.cons hextra .nil))))
  rw [Layers.find?_finder, Layers.find?_finder]
  exact findSome?_of_forall₂ (hlayers.imp fun f g h => h n)

/-- Every module that the finder knows has a location of its own. -/
def Finder.OwnLocations (f : Finder) : Prop :=
  ∀ r ∈ f.references, ∃ path, r.location = .path path

theorem Finder.OwnLocations.related {f : Finder} (h : f.OwnLocations) (q : Platform) :
    f.Related q.Counterpart f := by
  intro n
  cases hfind : f.find? n with
  | none => exact .none
  | some r =>
    obtain ⟨path, hpath⟩ := h r (Finder.mem_of_find? hfind)
    exact .some (.own hpath)

namespace Platform.Agrees
variable {tree : FileTree} {holds : HomeContent} {p q : Platform}

theorem related_finder (h : p.Agrees tree holds q) : p.finder.Related q.Counterpart q.finder := by
  intro n
  rw [Platform.finder, Platform.finder, Catalog.find?_finder, Catalog.find?_finder]
  have hfind : p.units.find? n = (q.units.find? n).map ModuleDescriptor.sanitized := h.find? n
  rw [hfind]
  cases hq : q.units.find? n with
  | none => exact .none
  | some d =>
    refine .some (.platform ?_)
    rw [Catalog.name_of_find? hq]
    exact hq

end Platform.Agrees

/-! ## Inputs -/

theorem ModulePath.IsRead.ownLocations {path : ModulePath} {tree : FileTree}
    {release : Option Nat} (h : path.IsRead tree release) : path.finder.OwnLocations := by
  intro r hr
  obtain ⟨p, hp, -⟩ := h r hr
  exact ⟨p, hp⟩

/-- The modules that are not of the platform were read where they are. -/
structure Inputs.AreRead (inputs : Inputs) (tree : FileTree) (release : Option Nat) : Prop where
  override : ∀ path, inputs.override = some path → path.IsRead tree release
  application : ∀ path, inputs.application = some path → path.IsRead tree release
  extra : ∀ path, inputs.extra = some path → path.IsRead tree release

/-- The modules that are not of the platform have locations of their own. -/
structure Inputs.OwnLocations (inputs : Inputs) : Prop where
  override : ∀ path, inputs.override = some path → path.finder.OwnLocations
  application : ∀ path, inputs.application = some path → path.finder.OwnLocations
  extra : ∀ path, inputs.extra = some path → path.finder.OwnLocations

/-- The same inputs with another platform. -/
def Inputs.over (inputs : Inputs) (p : Platform) : Inputs := { inputs with platform := p }

namespace Inputs
variable {tree : FileTree} {holds : HomeContent} {p q : Platform}

theorem related_layers (h : p.Agrees tree holds q) {inputs : Inputs}
    (hown : inputs.OwnLocations) :
    (inputs.over p).layers.finder.Related q.Counterpart (inputs.over q).layers.finder := by
  have hself : ∀ o : Option ModulePath, (∀ path, o = some path → path.finder.OwnLocations) →
      Option.Rel (Finder.Related q.Counterpart) (o.map ModulePath.finder)
        (o.map ModulePath.finder) := by
    intro o ho
    cases o with
    | none => exact .none
    | some path => exact .some ((ho path rfl).related q)
  exact Layers.related (hself _ hown.override) (.some h.related_finder) (hself _ hown.application)
    (hself _ hown.extra)

theorem perm_roots (h : p.Agrees tree holds q) (inputs : Inputs) (plan : BuildPlan) :
    ((inputs.over p).roots plan).Perm ((inputs.over q).roots plan) := by
  have hplatform : (if plan.rootsPlatform then p.unitNames else []).Perm
      (if plan.rootsPlatform then q.unitNames else []) := by
    cases plan.rootsPlatform with
    | true => exact h.perm_unitNames
    | false => exact .nil
  exact perm_distinct (((hplatform.append_left _).append_right _).append_right _)

/-- Resolution starts from the same roots. -/
theorem resolutionRoots_over (h : p.Agrees tree holds q) (inputs : Inputs) (plan : BuildPlan) :
    (inputs.over p).resolutionRoots plan = (inputs.over q).resolutionRoots plan := by
  have hroots := perm_roots h inputs plan
  have hneeds : (inputs.over p).needsDefaultRoots plan =
      (inputs.over q).needsDefaultRoots plan := by
    unfold needsDefaultRoots
    rw [hroots.isEmpty_eq]
    rfl
  have hdefault : (if (inputs.over p).needsDefaultRoots plan then p.defaultRoots else []).Perm
      (if (inputs.over q).needsDefaultRoots plan then q.defaultRoots else []) := by
    rw [hneeds]
    cases (inputs.over q).needsDefaultRoots plan with
    | true => exact h.perm_defaultRoots
    | false => exact .nil
  refine NameSet.ext_mem fun n => ?_
  rw [resolutionRoots, resolutionRoots, NameSet.mem_ofList, NameSet.mem_ofList]
  exact (hroots.append hdefault).mem_iff

end Inputs

namespace BuildPlan

/-- The plan without its platform. -/
def withoutPlatform (plan : BuildPlan) : BuildPlan :=
  { plan with choice := .none, platform := none }

theorem gather_eq_map {plan : BuildPlan} {tree : FileTree} {opening : Nat} {p : Platform}
    (h : plan.openPlatform tree opening = .ok p) :
    plan.gather tree opening =
      (plan.withoutPlatform.gather tree opening).map fun inputs => inputs.over p := by
  unfold gather
  rw [h]
  simp only [map_bind]
  rfl

theorem isRead_of_searchOptional {plan : BuildPlan} {tree : FileTree} {list : Option String}
    {found : Option ModulePath} (h : plan.searchOptional tree list = .ok found) :
    ∀ path, found = some path → path.IsRead tree plan.release := by
  rintro path rfl
  unfold searchOptional at h
  cases list with
  | none => cases h
  | some list =>
    obtain ⟨searched, hsearch, he⟩ := map_eq_ok_iff.mp h
    exact Option.some.inj he ▸ ModulePath.isRead_of_search hsearch

theorem isRead_of_searchExtra {plan : BuildPlan} {tree : FileTree} {paths : List Path}
    {found : Option ModulePath} (h : plan.searchExtra tree paths = .ok found) :
    ∀ path, found = some path → path.IsRead tree plan.release := by
  rintro path rfl
  unfold searchExtra at h
  split at h
  · cases h
  · obtain ⟨searched, hsearch, he⟩ := map_eq_ok_iff.mp h
    exact Option.some.inj he ▸ ModulePath.isRead_of_search hsearch

/-- What is gathered comes from one step each. -/
structure Gathers (plan : BuildPlan) (tree : FileTree) (opening : Nat) (inputs : Inputs) :
    Prop where
  platform : plan.openPlatform tree opening = .ok inputs.platform
  rootArtifacts : plan.openRoots tree opening = .ok inputs.rootArtifacts
  override : plan.searchOptional tree plan.overridePath = .ok inputs.override
  application : plan.searchOptional tree plan.applicationPath = .ok inputs.application
  extra : plan.searchExtra tree ((inputs.rootArtifacts.filter Artifact.isModular).map
    Artifact.path) = .ok inputs.extra
  classPath : ClassPath.expandAll tree plan.classPaths = .ok inputs.classPath

theorem gather_eq_ok_iff {plan : BuildPlan} {tree : FileTree} {opening : Nat} {inputs : Inputs} :
    plan.gather tree opening = .ok inputs ↔ plan.Gathers tree opening inputs := by
  constructor
  · intro h
    obtain ⟨platform, hplatform, h⟩ := bind_eq_ok_iff.mp h
    obtain ⟨rootArtifacts, hroots, h⟩ := bind_eq_ok_iff.mp h
    obtain ⟨override, hoverride, h⟩ := bind_eq_ok_iff.mp h
    obtain ⟨application, happlication, h⟩ := bind_eq_ok_iff.mp h
    obtain ⟨extra, hextra, h⟩ := bind_eq_ok_iff.mp h
    obtain ⟨classPath, hclassPath, he⟩ := bind_eq_ok_iff.mp h
    obtain rfl := Except.ok.inj he
    exact ⟨hplatform, hroots, hoverride, happlication, hextra, hclassPath⟩
  · intro h
    refine bind_eq_ok_iff.mpr ⟨_, h.platform, bind_eq_ok_iff.mpr ⟨_, h.rootArtifacts, ?_⟩⟩
    refine bind_eq_ok_iff.mpr ⟨_, h.override, bind_eq_ok_iff.mpr ⟨_, h.application, ?_⟩⟩
    exact bind_eq_ok_iff.mpr ⟨_, h.extra, bind_eq_ok_iff.mpr ⟨_, h.classPath, rfl⟩⟩

theorem areRead_of_gather {plan : BuildPlan} {tree : FileTree} {opening : Nat}
    {inputs : Inputs} (h : plan.gather tree opening = .ok inputs) :
    inputs.AreRead tree plan.release := by
  have hsteps := gather_eq_ok_iff.mp h
  exact ⟨isRead_of_searchOptional hsteps.override, isRead_of_searchOptional hsteps.application,
    isRead_of_searchExtra hsteps.extra⟩

theorem ownLocations_of_gather {plan : BuildPlan} {tree : FileTree} {opening : Nat}
    {inputs : Inputs} (h : plan.gather tree opening = .ok inputs) : inputs.OwnLocations where
  override path hpath := ((areRead_of_gather h).override path hpath).ownLocations
  application path hpath := ((areRead_of_gather h).application path hpath).ownLocations
  extra path hpath := ((areRead_of_gather h).extra path hpath).ownLocations

end BuildPlan

/-! ## Units -/

/-- Two modules of one name that declare the same packages. -/
structure ModuleUnit.Alike (u v : ModuleUnit) : Prop where
  name : u.name = v.name
  packages : u.packages = v.packages

section
variable {tree : FileTree} {holds : HomeContent} {p q : Platform} (h : p.Agrees tree holds q)
include h

theorem openUnit_agree (release : Option Nat) (handle : Handle) {r s : ModuleReference}
    (hrs : q.Counterpart r s) :
    Agree ModuleUnit.Alike (openUnit tree p release handle r)
      (openUnit tree q release handle s) := by
  cases hrs with
  | @own r path hpath =>
    unfold openUnit
    rw [hpath]
    exact (Agree.refl _).bind fun reader _ he => .ok ⟨rfl, rfl⟩
  | @platform d hd =>
    obtain ⟨reader, reader', hreader, hreader', -⟩ := h.readers d.name d hd handle handle
    have hp : p.classReader tree handle (Catalog.referenceTo d.sanitized).name = .ok reader :=
      hreader
    have hq : q.classReader tree handle (Catalog.referenceTo d).name = .ok reader' := hreader'
    unfold openUnit
    dsimp only [Catalog.referenceTo] at hp hq ⊢
    rw [hp, hq]
    exact .ok ⟨rfl, ModuleDescriptor.packages_sanitized (h.holdsVisible d.name d hd)⟩

theorem openUnits_agree (plan : BuildPlan) (opening : Nat) {g g' : ResolvedGraph}
    (hg : g.Matches q.Counterpart g') :
    Agree (List.Forall₂ ModuleUnit.Alike) (plan.openUnits tree opening p g)
      (plan.openUnits tree opening q g') := by
  refine Agree.mapM (hg.imp fun m m' hm => ?_)
  rw [hm.1.alike.name]
  exact openUnit_agree h plan.release _ hm.1

end

/-! ## Configurations -/

/-- Two configurations that hold modules of the same names in the same order, with the same reads
and the same owners of packages. -/
structure Configuration.Alike (c d : Configuration) : Prop where
  keys : c.units.keys = d.units.keys
  reads : ∀ n, (c.reads n).map (List.map ModuleUnit.name) =
    (d.reads n).map (List.map ModuleUnit.name)
  owners : ∀ package, (c.index.owner? package).map ModuleUnit.name =
    (d.index.owner? package).map ModuleUnit.name

/-- Two configurations over graphs that match, with the same owners of packages. -/
structure Configuration.Matches (R : ModuleReference → ModuleReference → Prop)
    (c d : Configuration) : Prop where
  graph : c.graph.Matches R d.graph
  owners : ∀ package, (c.index.owner? package).map ModuleUnit.name =
    (d.index.owner? package).map ModuleUnit.name

/-- Coherent configurations are alike if they match. -/
theorem Configuration.Coherent.alike {c d : Configuration} (hc : c.Coherent) (hd : d.Coherent)
    {R : ModuleReference → ModuleReference → Prop} (hR : ∀ r s, R r s → r.Alike s)
    (hcd : c.Matches R d) : c.Alike d := by
  have hnames : c.graph.names = d.graph.names :=
    map_eq_map_of_forall₂ (hcd.graph.imp fun m m' hm => (hR _ _ hm.1).name)
  have hkeys : c.units.keys = d.units.keys := by rw [hc.keys, hd.keys, hnames]
  refine ⟨hkeys, fun n => ?_, hcd.owners⟩
  by_cases hn : n ∈ c.units.keys
  · obtain ⟨m, us, hm, hus, hreads, -⟩ := hc.reads_eq hn
    obtain ⟨m', us', hm', hus', hreads', -⟩ := hd.reads_eq (hkeys ▸ hn)
    have hfound := find?_of_forall₂ (p := fun m => m.reference.name == n)
      (q := fun m => m.reference.name == n)
      (fun m m' hm => congrArg (· == n) (hR _ _ hm.1).name) hcd.graph
    obtain ⟨found, hfound', hrel⟩ := exists_of_rel hfound hm
    obtain rfl : found = m' := Option.some.inj (hfound'.symm.trans hm')
    rw [hus, hus']
    exact congrArg Except.ok (hreads.trans (hrel.2.trans hreads'.symm))
  · rw [hc.reads_eq_error hn, hd.reads_eq_error (hkeys ▸ hn)]

namespace BuildPlan

/-- What a build does once the inputs are there. -/
def complete (plan : BuildPlan) (tree : FileTree) (opening : Nat) (inputs : Inputs) :
    Except AtlasError Configuration := do
  let graph ← ofResolution (resolve inputs.layers.finder (inputs.resolutionRoots plan))
  let units ← plan.openUnits tree opening inputs.platform graph
  let classPathArtifacts ← plan.openClassPath tree opening inputs.classPath
  return plan.assemble inputs graph units classPathArtifacts

theorem build_eq {plan : BuildPlan} {tree : FileTree} {opening : Nat} {p : Platform}
    (h : plan.openPlatform tree opening = .ok p) :
    plan.build tree opening = (plan.withoutPlatform.gather tree opening >>= fun inputs =>
      plan.withoutPlatform.complete tree opening (inputs.over p)) := by
  have hbuild : plan.build tree opening =
      plan.gather tree opening >>= plan.complete tree opening := rfl
  rw [hbuild, gather_eq_map h]
  cases plan.withoutPlatform.gather tree opening <;> rfl

theorem complete_agree {tree : FileTree} {holds : HomeContent} {p q : Platform}
    (h : p.Agrees tree holds q) (plan : BuildPlan) (opening : Nat) {inputs : Inputs}
    (hown : inputs.OwnLocations) :
    Agree (Configuration.Matches q.Counterpart)
      (plan.complete tree opening (inputs.over p))
      (plan.complete tree opening (inputs.over q)) := by
  have hresolve := resolve_agree (fun _ _ hrs => Platform.Counterpart.alike hrs)
    (Inputs.related_layers h hown) ((inputs.over p).resolutionRoots plan)
  rw [complete, complete, ← Inputs.resolutionRoots_over h]
  refine (hresolve.mapError AtlasError.resolution).bind fun g g' hg => ?_
  refine (openUnits_agree h plan opening hg).bind fun us us' hus => ?_
  refine (Agree.refl (plan.openClassPath tree opening inputs.classPath)).bind fun _ _ _ => ?_
  refine .ok ⟨hg, fun package => ?_⟩
  have howner := find?_of_forall₂ (p := fun u : ModuleUnit => decide (package ∈ u.packages))
    (q := fun u : ModuleUnit => decide (package ∈ u.packages))
    (fun u v huv => by rw [huv.packages]) hus
  rw [assemble, assemble]
  dsimp only
  rw [owner?_indexOf, owner?_indexOf]
  exact map_eq_map_of_rel (fun u v huv => huv.name) howner

end BuildPlan

/-- **Analysis sees what platforms agree in.**  From plans that differ in their platforms only,
builds over platforms that agree come to configurations that are alike, or fail for the same
reason. -/
theorem build_agree {tree : FileTree} {holds : HomeContent} {p q : Platform}
    (h : p.Agrees tree holds q) {plan plan' : BuildPlan}
    (hplan : plan.withoutPlatform = plan'.withoutPlatform) {opening : Nat}
    (hp : plan.openPlatform tree opening = .ok p) (hq : plan'.openPlatform tree opening = .ok q) :
    Agree Configuration.Alike (plan.build tree opening) (plan'.build tree opening) := by
  have hmatch : Agree (Configuration.Matches q.Counterpart)
      (plan.build tree opening) (plan'.build tree opening) := by
    rw [BuildPlan.build_eq hp, BuildPlan.build_eq hq, ← hplan]
    refine (Agree.refl _).bind ?_
    rintro inputs _ ⟨hinputs, rfl⟩
    exact BuildPlan.complete_agree h _ opening (BuildPlan.ownLocations_of_gather hinputs)
  refine hmatch.mono fun c d hc hd hcd => ?_
  exact (coherent_of_build hc).alike (coherent_of_build hd)
    (fun _ _ hrs => Platform.Counterpart.alike hrs) hcd

end ModuleAtlas
