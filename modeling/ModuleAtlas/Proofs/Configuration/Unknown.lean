import ModuleAtlas.Proofs.Configuration.Roots
import ModuleAtlas.Proofs.Discovery.DefaultRoots
import ModuleAtlas.Proofs.Resolution.Discovery

/-! # Unknown modules

A build may fail because nobody knows a module.  Reading files, searching module paths and opening
modules fail for other reasons (`AtlasError.IsOther`), so it is the resolution that has failed, and
if no module is blamed for asking, the unknown module is a root of the build.

Most roots are taken from the very layers that the resolution looks through, and what one layer hides
is still known to the chain of layers.  So the unknown root is one that was asked for by name
(`unknown_root_of_build`).
-/
namespace ModuleAtlas
open Steps

/-! ## Failures for other reasons -/

/-- The failure is not that a module is unknown. -/
def AtlasError.IsOther : AtlasError → Prop
  | .resolution (.unresolved _ _) => False
  | _ => True

theorem AtlasError.isOther_ofImage (path : Path) (cause : ImageError) :
    (ofImage path cause).IsOther := by
  cases cause <;> trivial

namespace EntryReader
variable (tree : FileTree) (handle : Handle)

theorem failsOnly_openFolder (root : Path) :
    FailsOnly AtlasError.IsOther (openFolder tree handle root) := by
  unfold openFolder
  split
  · exact .ok _
  · exact .error trivial

theorem failsOnly_openArchive (path : Path) (release : Option Nat) :
    FailsOnly AtlasError.IsOther (openArchive tree handle path release) := by
  unfold openArchive
  cases tree.status path with
  | error cause => exact .error trivial
  | ok node =>
    cases node with
    | folder inner => exact .error trivial
    | link target => exact .error trivial
    | file bytes =>
      dsimp only [pure, Except.pure, bind, Except.bind]
      split
      · exact .error trivial
      · split
        · exact .error trivial
        · exact .ok _

theorem failsOnly_openPath (path : Path) (release : Option Nat) :
    FailsOnly AtlasError.IsOther (openPath tree handle path release) := by
  unfold openPath
  split
  · exact failsOnly_openFolder tree handle path
  · exact failsOnly_openArchive tree handle path release

theorem failsOnly_readStored (path : Path) (data : Zip.Stored) :
    FailsOnly AtlasError.IsOther (readStored path data) := by
  unfold readStored
  split
  · exact .error trivial
  · exact .mapError fun _ => trivial

theorem failsOnly_readListed (closed : Closed) (content : Content) (entry : String) :
    FailsOnly AtlasError.IsOther (readListed tree closed content entry) := by
  cases content with
  | archive path archive stored =>
    dsimp only [readListed]
    split
    · exact .ok _
    · split
      · exact .error trivial
      · exact (failsOnly_readStored _ _).map some
  | folder root listing =>
    dsimp only [readListed]
    split
    · exact .ok _
    · exact .error trivial
  | module image name => exact .mapError (AtlasError.isOther_ofImage image.path)

theorem failsOnly_read (reader : EntryReader) (closed : Closed) (entry : String) :
    FailsOnly AtlasError.IsOther (reader.read tree closed entry) := by
  unfold read
  split
  · exact .ok _
  · split
    · exact .error trivial
    · exact failsOnly_readListed tree closed reader.content entry

theorem failsOnly_descriptor (reader : EntryReader) (closed : Closed) :
    FailsOnly AtlasError.IsOther (reader.descriptor tree closed) := by
  unfold descriptor
  refine (failsOnly_read tree reader closed _).bind fun found => ?_
  cases found with
  | none => exact .ok _
  | some bytes =>
    dsimp only
    split
    · exact .ok _
    · exact .error trivial

end EntryReader

theorem Artifact.failsOnly_openPath (tree : FileTree) (handle : Handle) (path : Path)
    (release : Option Nat) : FailsOnly AtlasError.IsOther (openPath tree handle path release) :=
  (EntryReader.failsOnly_openPath tree handle path release).bind fun reader =>
    (EntryReader.failsOnly_descriptor tree reader {}).bind fun _ => .ok _

namespace ModulePath
variable (tree : FileTree) (release : Option Nat)

theorem failsOnly_readModule (path : Path) :
    FailsOnly AtlasError.IsOther (readModule tree release path) :=
  (Artifact.failsOnly_openPath tree searchHandle path release).map _

theorem failsOnly_searchChildren (found : List (Path × ModuleDescriptor)) (children : List Path) :
    FailsOnly AtlasError.IsOther (searchChildren tree release found children) := by
  induction children generalizing found with
  | nil => exact .ok _
  | cons child children ih =>
    rw [searchChildren]
    have hread := failsOnly_readModule tree release child
    split
    · split
      · next e he => exact .error (hread e he)
      · exact ih found
      · split
        · exact .error trivial
        · exact ih _
    · exact ih found

theorem failsOnly_searchEntry (entry : Path) :
    FailsOnly AtlasError.IsOther (searchEntry tree release entry) := by
  unfold searchEntry
  split
  · exact .ok _
  · split
    · split
      · exact failsOnly_searchChildren tree release [] _
      · exact .error trivial
    · exact (failsOnly_readModule tree release entry).map _

theorem failsOnly_searchEntries (entries : List Path) :
    FailsOnly AtlasError.IsOther (searchEntries tree release entries) := by
  induction entries with
  | nil => exact .ok _
  | cons entry entries ih =>
    rw [searchEntries]
    have hentry := failsOnly_searchEntry tree release entry
    split
    · next e he => exact .error (hentry e he)
    · exact ih.map _

theorem failsOnly_search (entries : List Path) :
    FailsOnly AtlasError.IsOther (search tree release entries) :=
  (failsOnly_searchEntries tree release entries).map _

end ModulePath

namespace Platform
variable (tree : FileTree) (handle : Handle)

theorem failsOnly_readPacked (image : RuntimeImage) (name : String) :
    FailsOnly AtlasError.IsOther (readPacked image name) := by
  unfold readPacked
  split
  · exact .error (AtlasError.isOther_ofImage _ _)
  · exact .ok _
  · split
    · exact .ok _
    · exact .error trivial

theorem failsOnly_readExploded (folder : Path) :
    FailsOnly AtlasError.IsOther (readExploded tree handle folder) := by
  unfold readExploded
  dsimp only
  split
  · exact .ok _
  · split
    · exact .error trivial
    · split
      · exact .error trivial
      · exact (EntryReader.failsOnly_openFolder tree handle folder).bind fun _ => .ok _

theorem failsOnly_collect {α : Type} {read : α → Except AtlasError (Option ModuleDescriptor)}
    (h : ∀ name, FailsOnly AtlasError.IsOther (read name)) (units : Catalog)
    (names : List α) : FailsOnly AtlasError.IsOther (Catalog.collect read units names) := by
  induction names generalizing units with
  | nil => exact .ok _
  | cons name names ih =>
    refine (h name).bind fun found => ?_
    cases found with
    | none => exact ih units
    | some d => exact ih (units.add d)

theorem failsOnly_openHome (home : Path) :
    FailsOnly AtlasError.IsOther (openHome tree handle home) := by
  unfold openHome openPacked openExploded
  split
  · split
    · exact .error trivial
    · next image _ =>
      refine .bind ?_ fun _ => .ok _
      rw [Catalog.catalogPacked_eq_collect]
      exact failsOnly_collect (failsOnly_readPacked image) _ _
  · split
    · split
      · exact .error trivial
      · next folders hfolders =>
        obtain ⟨names, -, rfl⟩ := map_eq_ok_iff.mp hfolders
        refine .bind ?_ fun _ => .ok _
        rw [Catalog.catalogExploded_eq_collect]
        exact failsOnly_collect (fun name => failsOnly_readExploded tree handle _) _ _
    · exact .error trivial

theorem failsOnly_classReader (p : Platform) (name : String) :
    FailsOnly AtlasError.IsOther (p.classReader tree handle name) := by
  unfold classReader
  split
  · split
    · exact .ok _
    · exact .error trivial
  · split
    · exact EntryReader.failsOnly_openFolder tree handle _
    · exact .error trivial
  · exact .error trivial

end Platform

theorem failsOnly_openUnit (tree : FileTree) (platform : Platform) (release : Option Nat)
    (handle : Handle) (r : ModuleReference) :
    FailsOnly AtlasError.IsOther (openUnit tree platform release handle r) := by
  unfold openUnit
  split
  · exact (Platform.failsOnly_classReader tree handle platform r.name).bind fun _ => .ok _
  · exact (EntryReader.failsOnly_openPath tree handle _ release).bind fun _ => .ok _

namespace ClassPath
variable (tree : FileTree)

theorem failsOnly_expandEntry (entry : Path) :
    FailsOnly AtlasError.IsOther (expandEntry tree entry) := by
  unfold expandEntry
  split
  · exact .ok _
  · split
    · exact .ok _
    · dsimp only
      split
      · exact .ok _
      · exact .error trivial

theorem failsOnly_expandEntries (entries : List Path) :
    FailsOnly AtlasError.IsOther (expandEntries tree entries) := by
  induction entries with
  | nil => exact .ok _
  | cons entry entries ih =>
    rw [expandEntries]
    have hentry := failsOnly_expandEntry tree entry
    split
    · next e he => exact .error (hentry e he)
    · exact ih.map _

theorem failsOnly_expandAll (classPaths : List String) :
    FailsOnly AtlasError.IsOther (expandAll tree classPaths) := by
  induction classPaths with
  | nil => exact .ok _
  | cons classPath classPaths ih =>
    rw [expandAll]
    have hpath := failsOnly_expandEntries tree (Path.splitList classPath)
    split
    · next e he => exact .error (hpath e he)
    · exact ih.map _

end ClassPath

namespace BuildPlan
variable (plan : BuildPlan) (tree : FileTree) (opening : Nat)

theorem failsOnly_openPlatform :
    FailsOnly AtlasError.IsOther (plan.openPlatform tree opening) := by
  unfold openPlatform
  split
  · exact .ok _
  · cases plan.choice with
    | none => exact .ok _
    | home path => exact Platform.failsOnly_openHome tree _ path

theorem failsOnly_searchOptional (list : Option String) :
    FailsOnly AtlasError.IsOther (plan.searchOptional tree list) := by
  unfold searchOptional
  split
  · exact .ok _
  · exact (ModulePath.failsOnly_search tree plan.release _).map _

theorem failsOnly_searchExtra (paths : List Path) :
    FailsOnly AtlasError.IsOther (plan.searchExtra tree paths) := by
  unfold searchExtra
  split
  · exact .ok _
  · exact (ModulePath.failsOnly_search tree plan.release paths).map _

/-- Gathering what is known before resolution does not fail for an unknown module. -/
theorem failsOnly_gather : FailsOnly AtlasError.IsOther (plan.gather tree opening) := by
  refine (plan.failsOnly_openPlatform tree opening).bind fun platform => ?_
  refine (FailsOnly.mapM (fun item => Artifact.failsOnly_openPath tree _ _ _) _).bind
    fun artifacts => ?_
  refine (plan.failsOnly_searchOptional tree _).bind fun override => ?_
  refine (plan.failsOnly_searchOptional tree _).bind fun application => ?_
  refine (plan.failsOnly_searchExtra tree _).bind fun extra => ?_
  exact (ClassPath.failsOnly_expandAll tree _).bind fun classPath => .ok _

/-- A build fails for an unknown module only if the resolution does. -/
theorem exists_resolve_of_unresolved {plan : BuildPlan} {tree : FileTree} {opening : Nat}
    {name : String} {origin : Option String}
    (h : plan.build tree opening = .error (.resolution (.unresolved name origin))) :
    ∃ inputs, plan.gather tree opening = .ok inputs ∧
      resolve inputs.layers.finder (inputs.resolutionRoots plan) =
        .error (.unresolved name origin) := by
  cases hgather : plan.gather tree opening with
  | error e =>
    have he : e = .resolution (.unresolved name origin) :=
      Except.error.inj ((bind_of_error hgather _).symm.trans h)
    subst he
    exact (failsOnly_gather plan tree opening _ hgather).elim
  | ok inputs =>
    rw [build, bind_of_ok hgather] at h
    refine ⟨inputs, rfl, ?_⟩
    cases hresolve : resolve inputs.layers.finder (inputs.resolutionRoots plan) with
    | error e =>
      rw [ofResolution, hresolve] at h
      exact congrArg _ (AtlasError.resolution.inj (Except.error.inj h))
    | ok graph =>
      -- opening the modules and the class path does not fail for that reason
      rw [ofResolution, hresolve] at h
      have hrest : FailsOnly AtlasError.IsOther (do
          let units ← plan.openUnits tree opening inputs.platform graph
          let artifacts ← plan.openClassPath tree opening inputs.classPath
          return plan.assemble inputs graph units artifacts) :=
        (FailsOnly.mapM (fun item => failsOnly_openUnit tree _ _ _ _) _).bind fun units =>
          (FailsOnly.mapM (fun item => Artifact.failsOnly_openPath tree _ _ _) _).bind
            fun artifacts => .ok _
      exact (hrest _ h).elim

end BuildPlan

/-! ## Known names -/

namespace Layers

/-- Some layer lists a module of the name. -/
def Knows (layers : Layers) (n : String) : Prop := ∃ f ∈ layers.finders, n ∈ f.names

/-- What one layer knows is known to the chain, whichever layer answers. -/
theorem find?_finder_eq_none_iff {layers : Layers} {n : String} :
    layers.finder.find? n = none ↔ ¬ layers.Knows n := by
  rw [find?_finder, List.findSome?_eq_none_iff]
  constructor
  · rintro hnone ⟨f, hf, hn⟩
    rw [← Finder.isSome_find?_iff, hnone f hf] at hn
    cases hn
  · intro hunknown f hf
    refine Option.not_isSome_iff_eq_none.mp fun hsome => ?_
    exact hunknown ⟨f, hf, Finder.isSome_find?_iff.mp hsome⟩

end Layers

namespace Platform

theorem names_finder (p : Platform) : p.finder.names = p.unitNames := by
  show (p.units.descriptors.map Catalog.referenceTo).map ModuleReference.name = p.units.names
  rw [List.map_map, ← Catalog.map_name_descriptors]
  rfl

/-- The default roots are modules of the platform. -/
theorem mem_unitNames_of_defaultRoots {p : Platform} {n : String} (h : n ∈ p.defaultRoots) :
    n ∈ p.unitNames := by
  have hnames : p.descriptors.map ModuleDescriptor.name = p.unitNames :=
    p.units.map_name_descriptors
  rw [← hnames]
  exact List.mem_map.mpr (exists_of_mem_defaultRoots h)

end Platform

namespace Inputs
variable {inputs : Inputs} {n : String}

theorem mem_namesOf_iff {path : Option ModulePath} :
    n ∈ namesOf path ↔ ∃ p, path = some p ∧ n ∈ p.finder.names := by
  cases path with
  | none => simp [namesOf]
  | some p => simp [namesOf]

theorem knows_of_platform (h : n ∈ inputs.platform.unitNames) : inputs.layers.Knows n := by
  rw [← Platform.names_finder] at h
  exact ⟨inputs.platform.finder, by simp [Layers.finders, layers], h⟩

theorem knows_of_application (h : n ∈ namesOf inputs.application) : inputs.layers.Knows n := by
  obtain ⟨p, hp, hn⟩ := mem_namesOf_iff.mp h
  exact ⟨p.finder, by simp [Layers.finders, layers, hp], hn⟩

theorem knows_of_extra (h : n ∈ namesOf inputs.extra) : inputs.layers.Knows n := by
  obtain ⟨p, hp, hn⟩ := mem_namesOf_iff.mp h
  exact ⟨p.finder, by simp [Layers.finders, layers, hp], hn⟩

/-- Every root that is not asked for by name is known. -/
theorem mem_namedRoots_or_knows {plan : BuildPlan} {calls : List PlanCall} {tree : FileTree}
    {opening : Nat} (h : plan.Gathers tree opening inputs)
    (hroot : n ∈ inputs.askedRoots calls ++ inputs.addedRoots calls) :
    n ∈ PlanCall.namedRoots calls ∨ inputs.layers.Knows n := by
  rcases List.mem_append.mp hroot with hasked | hadded
  · simp only [askedRoots, List.mem_append] at hasked
    rcases hasked with ((hnamed | hplatform) | hdeclared) | happlication
    · exact .inl hnamed
    · split at hplatform
      · exact .inr (knows_of_platform hplatform)
      · cases hplatform
    · refine .inr (knows_of_extra ?_)
      rw [namesOf_extra h]
      exact mem_distinct.mpr hdeclared
    · split at happlication
      · exact .inr (knows_of_application happlication)
      · cases happlication
  · unfold addedRoots at hadded
    split at hadded
    · exact .inr (knows_of_platform (Platform.mem_unitNames_of_defaultRoots hadded))
    · cases hadded

end Inputs

/-! ## Unknown roots -/

/-- A name for which nobody is blamed is a root that the finder does not know. -/
theorem mem_roots_of_unresolved {finder : Finder} {roots : NameSet} {n : String}
    (h : resolve finder roots = .error (.unresolved n none)) :
    n ∈ roots ∧ finder.find? n = none := by
  obtain ⟨s, queue, hstate, hnew, hfind⟩ := exists_selectsThrough_of_unresolved h
  refine ⟨?_, hfind⟩
  by_contra hroot
  have hblame := hstate.find?_requestsMade_eq hnew
  rw [find?_requestsMade, if_neg hroot] at hblame
  obtain ⟨r, -, he⟩ := Option.map_eq_some_iff.mp hblame
  cases congrArg Request.origin he

/-- **Only roots that are named can be unknown.**  A plan is made by calls.  If its build fails for
an unknown module that no module asks for, then a call has given that name, the name stands for
itself, and none of the layers knows it.  It is therefore no module of the platform and no default
root of it, no module of the application, and not what an artifact to be analysed declares, wherever
these are hidden by other layers. -/
theorem unknown_root_of_build {choice : PlatformChoice} {calls : List PlanCall} {tree : FileTree}
    {opening : Nat} {name : String}
    (h : (BuildPlan.ofCalls choice calls).build tree opening =
      .error (.resolution (.unresolved name none))) :
    name ∈ PlanCall.namesGiven calls ∧ name ≠ allModulePath ∧ name ≠ allDefault ∧
      ∃ inputs, (BuildPlan.ofCalls choice calls).gather tree opening = .ok inputs ∧
        (∀ f ∈ inputs.layers.finders, f.find? name = none) ∧
        name ∉ inputs.platform.unitNames ∧ name ∉ inputs.platform.defaultRoots ∧
        name ∉ Inputs.namesOf inputs.application ∧ name ∉ inputs.declaredRoots := by
  obtain ⟨inputs, hgather, hresolve⟩ := BuildPlan.exists_resolve_of_unresolved h
  have hgathers := BuildPlan.gather_eq_ok_iff.mp hgather
  have hcalls := BuildPlan.rootedBy_ofCalls choice calls
  obtain ⟨hroot, hfind⟩ := mem_roots_of_unresolved hresolve
  have hunknown : ¬ inputs.layers.Knows name := Layers.find?_finder_eq_none_iff.mp hfind
  rw [Inputs.resolutionRoots_eq hgathers hcalls, NameSet.mem_ofList] at hroot
  have hnamed := (Inputs.mem_namedRoots_or_knows hgathers hroot).resolve_right hunknown
  obtain ⟨hgiven, hstands⟩ := List.mem_filter.mp hnamed
  obtain ⟨hall, hdefault⟩ := of_decide_eq_true hstands
  refine ⟨hgiven, hall, hdefault, inputs, hgather, ?_, ?_, ?_, ?_, ?_⟩
  · rw [Layers.find?_finder, List.findSome?_eq_none_iff] at hfind
    exact hfind
  · exact fun hplatform => hunknown (Inputs.knows_of_platform hplatform)
  · exact fun hadded =>
      hunknown (Inputs.knows_of_platform (Platform.mem_unitNames_of_defaultRoots hadded))
  · exact fun happlication => hunknown (Inputs.knows_of_application happlication)
  · intro hdeclared
    rw [← mem_distinct, ← Inputs.namesOf_extra hgathers] at hdeclared
    exact hunknown (Inputs.knows_of_extra hdeclared)

namespace Shop

/-- The calls that make the plan of the program with its library patched, and of a till that is
nowhere. -/
def tillCalls : List PlanCall :=
  [.addModules ["till", "app"], .addAllModules, .setPlatform marketPlatform,
    .setOverride "/market/patches", .addClassPath "/market/classes"]

theorem build_till :
    (BuildPlan.ofCalls .none tillCalls).build marketTree 1 =
      .error (.resolution (.unresolved "till" none)) := by
  have hmarket := gathers_market 1
  have hgather : (BuildPlan.ofCalls .none tillCalls).gather marketTree 1 = .ok marketInputs :=
    BuildPlan.gather_eq_ok_iff.mpr ⟨hmarket.platform, hmarket.rootArtifacts, hmarket.override,
      hmarket.application, hmarket.extra, hmarket.classPath⟩
  have hresolve : resolve marketInputs.layers.finder
      (marketInputs.resolutionRoots (BuildPlan.ofCalls .none tillCalls)) =
        .error (.unresolved "till" none) := by
    cbv
  rw [BuildPlan.build, bind_of_ok hgather, ofResolution, hresolve]
  rfl

/-- Of the roots of the plan, which are all modules of the platform besides the two that are named,
only the till can be the unknown one. -/
theorem unknown_root_of_build_till :
    (BuildPlan.ofCalls .none tillCalls).build marketTree 1 =
        .error (.resolution (.unresolved "till" none)) ∧
      "till" ∈ PlanCall.namesGiven tillCalls ∧
      ∃ inputs, (BuildPlan.ofCalls .none tillCalls).gather marketTree 1 = .ok inputs ∧
        ∀ f ∈ inputs.layers.finders, f.find? "till" = none := by
  obtain ⟨hgiven, -, -, inputs, hgather, hunknown, -⟩ := unknown_root_of_build build_till
  exact ⟨build_till, hgiven, inputs, hgather, hunknown⟩

end Shop
end ModuleAtlas
