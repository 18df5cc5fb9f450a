import Mathlib.Data.List.Induction
import ModuleAtlas.Proofs.Configuration.Classes

/-! # The roots of a configuration

A build plan is made by calls, each of which adds to it: names, some of which stand for more than
themselves, paths of artifacts, class paths.  What the calls have in common is what each of them
leaves alone, so the plan after any calls is told by the calls together
(`BuildPlan.rootedBy_ofCalls`).

The build then makes roots of them.  An artifact to be analysed that is modular is opened twice,
once to see that it is modular and once as an entry of a module path.  Both times it declares the
same (`ModulePath.searchEntry_of_openPath`), so the roots that come from artifacts are the names
that the artifacts declare, even where another layer takes precedence over them.
-/
namespace ModuleAtlas
open Steps

/-! ## Calls -/

/-- A call that adds to a build plan. -/
inductive PlanCall where
  /-- Adds roots by name. -/
  | addModules (names : List String)
  /-- Makes all modules of the platform and of the application path roots. -/
  | addAllModules
  /-- Adds an artifact to be analysed. -/
  | addRoot (path : Path)
  /-- Adds a class path. -/
  | addClassPath (classPath : String)
  /-- Sets the modules that take precedence over the platform. -/
  | setOverride (list : String)
  /-- Sets the modules of the application. -/
  | setApplication (list : String)
  /-- Sets a platform that is open already. -/
  | setPlatform (platform : Platform)
  /-- Sets the release. -/
  | setRelease (release : Nat)

namespace PlanCall

/-- What the call makes of a plan. -/
def apply (plan : BuildPlan) : PlanCall → BuildPlan
  | addModules names => plan.addModules names
  | addAllModules => plan.addAllModules
  | addRoot path => plan.addRoot path
  | addClassPath classPath => plan.addClassPath classPath
  | setOverride list => { plan with overridePath := some list }
  | setApplication list => { plan with applicationPath := some list }
  | setPlatform platform => { plan with platform := some platform }
  | setRelease release => { plan with release := some release }

/-- The names that the call adds, special or not. -/
def given : PlanCall → List String
  | addModules names => names
  | _ => []

/-- Whether the call asks for all modules. -/
def asksForAll : PlanCall → Bool
  | addAllModules => true
  | _ => false

/-- The artifacts that the call adds. -/
def rootPaths : PlanCall → List Path
  | addRoot path => [path]
  | _ => []

/-- The class paths that the call adds. -/
def classPaths : PlanCall → List String
  | addClassPath classPath => [classPath]
  | _ => []

/-- The names that some calls add, special or not. -/
def namesGiven (calls : List PlanCall) : List String := calls.flatMap given

/-- Whether a name stands for itself. -/
def isNamed (n : String) : Bool := decide (n ≠ allModulePath ∧ n ≠ allDefault)

/-- The names that stand for themselves among those that some calls add. -/
def namedRoots (calls : List PlanCall) : List String := (namesGiven calls).filter isNamed

/-- Whether some call asks for all modules. -/
def askForAll (calls : List PlanCall) : Bool := calls.any asksForAll

/-- Whether all modules of the application are asked for. -/
def askForApplication (calls : List PlanCall) : Bool :=
  decide (allModulePath ∈ namesGiven calls) || askForAll calls

/-- Whether the default roots of the platform are asked for. -/
def askForDefault (calls : List PlanCall) : Bool := decide (allDefault ∈ namesGiven calls)

end PlanCall

namespace BuildPlan

/-- The plan that some calls make. -/
def ofCalls (choice : PlatformChoice) (calls : List PlanCall) : BuildPlan :=
  calls.foldl PlanCall.apply { choice }

/-- The part of a plan that is about roots is what some calls have added. -/
structure RootedBy (plan : BuildPlan) (calls : List PlanCall) : Prop where
  roots : plan.roots = distinct (PlanCall.namedRoots calls)
  rootsPlatform : plan.rootsPlatform = PlanCall.askForAll calls
  rootsApplication : plan.rootsApplication = PlanCall.askForApplication calls
  rootsDefault : plan.rootsDefault = PlanCall.askForDefault calls
  rootPaths : plan.rootPaths = calls.flatMap PlanCall.rootPaths
  classPaths : plan.classPaths = calls.flatMap PlanCall.classPaths

theorem addModules_eq (plan : BuildPlan) (names : List String) :
    plan.addModules names = { plan with
      roots := appendAllNew plan.roots (names.filter PlanCall.isNamed)
      rootsApplication := plan.rootsApplication || decide (allModulePath ∈ names)
      rootsDefault := plan.rootsDefault || decide (allDefault ∈ names) } := by
  induction names generalizing plan with
  | nil =>
    show plan = _
    simp [appendAllNew]
  | cons n names ih =>
    show (plan.addModule n).addModules names = _
    rw [ih, addModule]
    by_cases hall : n = allModulePath
    · subst hall
      have hnamed : PlanCall.isNamed allModulePath = false := by decide
      have hdefault : allDefault ≠ allModulePath := by decide
      rw [if_pos rfl, List.filter_cons_of_neg (by rw [hnamed]; decide)]
      simp [hdefault]
    · by_cases hdefault : n = allDefault
      · subst hdefault
        have hnamed : PlanCall.isNamed allDefault = false := by decide
        rw [if_neg hall, if_pos rfl, List.filter_cons_of_neg (by rw [hnamed]; decide)]
        simp [Ne.symm hall]
      · have hnamed : PlanCall.isNamed n = true := decide_eq_true ⟨hall, hdefault⟩
        rw [if_neg hall, if_neg hdefault, List.filter_cons_of_pos hnamed]
        simp [Ne.symm hall, Ne.symm hdefault, appendAllNew]

end BuildPlan

/-- What a call changes in the part of a plan that is about roots. -/
structure PlanCall.Adds (call : PlanCall) (plan next : BuildPlan) : Prop where
  roots : next.roots = appendAllNew plan.roots (call.given.filter isNamed)
  rootsPlatform : next.rootsPlatform = (plan.rootsPlatform || call.asksForAll)
  rootsApplication : next.rootsApplication =
    (plan.rootsApplication || (decide (allModulePath ∈ call.given) || call.asksForAll))
  rootsDefault : next.rootsDefault = (plan.rootsDefault || decide (allDefault ∈ call.given))
  rootPaths : next.rootPaths = plan.rootPaths ++ call.rootPaths
  classPaths : next.classPaths = plan.classPaths ++ call.classPaths

theorem PlanCall.adds_apply (plan : BuildPlan) (call : PlanCall) :
    call.Adds plan (call.apply plan) := by
  cases call with
  | addModules names =>
    rw [apply, BuildPlan.addModules_eq]
    constructor
    case roots => rfl
    case rootsPlatform => exact (Bool.or_false _).symm
    case rootsApplication =>
      show (plan.rootsApplication || decide (allModulePath ∈ names)) =
        (plan.rootsApplication || (decide (allModulePath ∈ names) || false))
      rw [Bool.or_false]
    case rootsDefault => rfl
    case rootPaths => exact (List.append_nil _).symm
    case classPaths => exact (List.append_nil _).symm
  | addAllModules | addRoot path | addClassPath classPath | setOverride list | setApplication list
  | setPlatform platform | setRelease release =>
    constructor <;> simp [apply, BuildPlan.addAllModules, BuildPlan.addRoot, BuildPlan.addClassPath,
      given, asksForAll, rootPaths, classPaths, appendAllNew]

namespace BuildPlan

/-- Each call keeps what the calls before it have added. -/
theorem RootedBy.apply {plan : BuildPlan} {calls : List PlanCall} (h : plan.RootedBy calls)
    (call : PlanCall) : (call.apply plan).RootedBy (calls ++ [call]) := by
  have hadds := call.adds_apply plan
  have hgiven : PlanCall.namesGiven (calls ++ [call]) =
      PlanCall.namesGiven calls ++ call.given := by
    rw [PlanCall.namesGiven, List.flatMap_append, List.flatMap_singleton]
    rfl
  have hall : PlanCall.askForAll (calls ++ [call]) =
      (PlanCall.askForAll calls || call.asksForAll) := by
    rw [PlanCall.askForAll, List.any_append, List.any_cons, List.any_nil, Bool.or_false]
    rfl
  constructor
  case roots =>
    have hnamed : PlanCall.namedRoots (calls ++ [call]) =
        PlanCall.namedRoots calls ++ call.given.filter PlanCall.isNamed := by
      rw [PlanCall.namedRoots, hgiven, List.filter_append]
      rfl
    rw [hadds.roots, h.roots, hnamed, distinct_append]
  case rootsPlatform => rw [hadds.rootsPlatform, h.rootsPlatform, hall]
  case rootsApplication =>
    rw [hadds.rootsApplication, h.rootsApplication, PlanCall.askForApplication,
      PlanCall.askForApplication, hgiven, hall]
    simp only [List.mem_append, Bool.decide_or]
    ac_rfl
  case rootsDefault =>
    rw [hadds.rootsDefault, h.rootsDefault, PlanCall.askForDefault, PlanCall.askForDefault, hgiven]
    simp only [List.mem_append, Bool.decide_or]
  case rootPaths =>
    rw [hadds.rootPaths, h.rootPaths, List.flatMap_append, List.flatMap_singleton]
  case classPaths =>
    rw [hadds.classPaths, h.classPaths, List.flatMap_append, List.flatMap_singleton]

theorem rootedBy_ofCalls (choice : PlatformChoice) (calls : List PlanCall) :
    (ofCalls choice calls).RootedBy calls := by
  induction calls using List.reverseRecOn with
  | nil => exact ⟨rfl, rfl, rfl, rfl, rfl, rfl⟩
  | append_singleton calls call ih =>
    rw [ofCalls, List.foldl_append]
    exact ih.apply call

end BuildPlan

/-! ## Artifacts to be analysed -/

namespace EntryReader
variable {tree : FileTree} {handle : Handle} {path : Path} {release : Option Nat} {r : EntryReader}

theorem path_of_openPath (h : openPath tree handle path release = .ok r) : r.path = path := by
  unfold openPath openFolder at h
  split at h
  · split at h
    · obtain rfl := Except.ok.inj h
      rfl
    · cases h
  · obtain ⟨bytes, archive, names, -, -, -, rfl⟩ := openArchive_eq_ok_iff.mp h
    rfl

theorem pathExists_of_openPath (h : openPath tree handle path release = .ok r) :
    tree.pathExists path = true := by
  unfold openPath at h
  by_cases hfolder : tree.isFolder path = true
  · unfold FileTree.isFolder at hfolder
    split at hfolder
    · next hstatus => rw [FileTree.pathExists, hstatus]; rfl
    · cases hfolder
  · rw [if_neg hfolder] at h
    obtain ⟨bytes, archive, names, hbytes, -⟩ := openArchive_eq_ok_iff.mp h
    rw [FileTree.pathExists, hbytes]
    rfl

/-- What a folder's reader finds is a file below the folder. -/
theorem isFile_of_read_folder {listing : List String} {closed : Closed} {e : String}
    {bytes : Bytes}
    (h : read ⟨.folder path listing, handle⟩ tree closed e = .ok (some bytes)) :
    tree.isFile (path.child e) = true := by
  unfold read readListed FileTree.readFile at h
  split at h
  · cases h
  · split at h
    · cases h
    · dsimp only at h
      cases hstatus : tree.status (path.child e) with
      | error cause =>
        rw [hstatus] at h
        cases h
      | ok node =>
        rw [hstatus] at h
        cases node with
        | file content => rw [FileTree.isFile, hstatus]
        | folder inner => cases h
        | link target => cases h

end EntryReader

namespace Artifact
variable {tree : FileTree} {handle : Handle} {path : Path} {release : Option Nat} {a : Artifact}

theorem path_of_openPath (h : openPath tree handle path release = .ok a) : a.path = path :=
  EntryReader.path_of_openPath (openPath_eq_ok_iff.mp h).1

/-- A search reads at a path what an artifact there declares. -/
theorem readModule_of_openPath (h : openPath tree handle path release = .ok a) :
    ModulePath.readModule tree release path = .ok a.descriptor := by
  obtain ⟨hreader, hdescriptor⟩ := openPath_eq_ok_iff.mp h
  have hagain := EntryReader.openPath_again hreader ModulePath.searchHandle
  exact map_eq_ok_iff.mpr ⟨⟨⟨a.reader.content, ModulePath.searchHandle⟩, a.descriptor⟩,
    openPath_eq_ok_iff.mpr ⟨hagain, hdescriptor⟩, rfl⟩

/-- The folder of a modular artifact holds a descriptor. -/
theorem holdsDescriptor_of_openPath (h : openPath tree handle path release = .ok a)
    (hfolder : tree.isFolder path = true) {d : ModuleDescriptor} (hd : a.descriptor = some d) :
    ModulePath.holdsDescriptor tree path = true := by
  obtain ⟨hreader, hdescriptor⟩ := openPath_eq_ok_iff.mp h
  rw [hd] at hdescriptor
  obtain ⟨found, hfound, hdescriptor⟩ := bind_eq_ok_iff.mp hdescriptor
  cases found with
  | none => cases hdescriptor
  | some bytes =>
    rw [EntryReader.openPath, if_pos hfolder] at hreader
    unfold EntryReader.openFolder at hreader
    split at hreader
    · rw [← Except.ok.inj hreader] at hfound
      exact EntryReader.isFile_of_read_folder hfound
    · cases hreader

end Artifact

namespace ModulePath
variable {tree : FileTree} {release : Option Nat}

/-- A modular artifact is the one module that is found at its path. -/
theorem searchEntry_of_openPath {handle : Handle} {a : Artifact} {d : ModuleDescriptor}
    (h : Artifact.openPath tree handle a.path release = .ok a) (hd : a.descriptor = some d) :
    searchEntry tree release a.path = .ok [(a.path, d)] := by
  have hexists := EntryReader.pathExists_of_openPath (Artifact.openPath_eq_ok_iff.mp h).1
  have hfolder : ¬ (tree.isFolder a.path && !holdsDescriptor tree a.path) = true := by
    intro hc
    obtain ⟨hisFolder, hnone⟩ := Bool.and_eq_true_iff.mp hc
    rw [Artifact.holdsDescriptor_of_openPath h hisFolder hd] at hnone
    cases hnone
  rw [searchEntry, hexists, if_neg (by decide), if_neg hfolder,
    Artifact.readModule_of_openPath h, hd]
  rfl

theorem searchEntries_of_openPath {artifacts : List Artifact}
    (h : ∀ a ∈ artifacts, ∃ handle, Artifact.openPath tree handle a.path release = .ok a) :
    searchEntries tree release ((artifacts.filter Artifact.isModular).map Artifact.path) =
      .ok (artifacts.filterMap fun a => a.descriptor.map fun d => (a.path, d)) := by
  induction artifacts with
  | nil => rfl
  | cons a artifacts ih =>
    obtain ⟨⟨handle, ha⟩, hrest⟩ := List.forall_mem_cons.mp h
    cases hd : a.descriptor with
    | none =>
      rw [List.filter_cons_of_neg (by simp [Artifact.isModular, hd]), ih hrest,
        List.filterMap_cons_none (by rw [hd]; rfl)]
    | some d =>
      rw [List.filter_cons_of_pos (by simp [Artifact.isModular, hd]), List.map_cons, searchEntries,
        searchEntry_of_openPath ha hd, ih hrest, List.filterMap_cons_some (by rw [hd]; rfl)]
      rfl

end ModulePath

/-! ## Roots -/

namespace Inputs

/-- The names that the modular ones among the artifacts to be analysed declare. -/
def declaredRoots (inputs : Inputs) : List String :=
  inputs.rootArtifacts.filterMap fun a => a.descriptor.map ModuleDescriptor.name

/-- The roots that some calls ask for: those that are named, then all modules of the platform if
these are asked for, then what the artifacts declare, and then all modules of the application if
these are asked for. -/
def askedRoots (inputs : Inputs) (calls : List PlanCall) : List String :=
  PlanCall.namedRoots calls ++
    (if PlanCall.askForAll calls then inputs.platform.unitNames else []) ++
    inputs.declaredRoots ++
    (if PlanCall.askForApplication calls then namesOf inputs.application else [])

/-- The default roots of the platform, if there is an artifact without a descriptor, or a class
path, or if no roots are asked for, or if the default roots are. -/
def addedRoots (inputs : Inputs) (calls : List PlanCall) : List String :=
  if (∃ a ∈ inputs.rootArtifacts, a.descriptor = none) ∨ inputs.classPath ≠ [] ∨
      inputs.askedRoots calls = [] ∨ allDefault ∈ PlanCall.namesGiven calls then
    inputs.platform.defaultRoots
  else []

section
variable {plan : BuildPlan} {calls : List PlanCall} {tree : FileTree} {opening : Nat}
  {inputs : Inputs}

theorem namesOf_extra (h : plan.Gathers tree opening inputs) :
    namesOf inputs.extra = distinct inputs.declaredRoots := by
  have hopened : ∀ a ∈ inputs.rootArtifacts,
      ∃ handle, Artifact.openPath tree handle a.path plan.release = .ok a := by
    intro a ha
    obtain ⟨⟨path, i⟩, -, hopen⟩ := exists_of_mem_mapM h.rootArtifacts ha
    rw [Artifact.path_of_openPath hopen]
    exact ⟨_, hopen⟩
  have hfound := ModulePath.searchEntries_of_openPath hopened
  have hnames : (inputs.rootArtifacts.filterMap fun a => a.descriptor.map fun d =>
      (a.path, d)).map (fun found => found.2.name) = inputs.declaredRoots := by
    rw [List.map_filterMap, declaredRoots]
    simp only [Option.map_map]
    rfl
  have hextra := h.extra
  unfold BuildPlan.searchExtra at hextra
  split at hextra
  · next hempty =>
    -- a search of nothing finds nothing, so no artifact declares anything
    rw [List.isEmpty_iff.mp hempty] at hfound
    rw [← hnames, ← Except.ok.inj hfound, ← Except.ok.inj hextra]
    rfl
  · obtain ⟨path, hpath, he⟩ := map_eq_ok_iff.mp hextra
    obtain ⟨found, hsearch, rfl⟩ := map_eq_ok_iff.mp hpath
    obtain rfl := Except.ok.inj (hfound.symm.trans hsearch)
    rw [← hnames, ← he]
    show (keepFirst _).map ModuleReference.name = _
    rw [map_name_keepFirst, List.map_map]
    rfl

/-- The roots of a build, without those by default, are those that are asked for. -/
theorem roots_eq (h : plan.Gathers tree opening inputs) (hcalls : plan.RootedBy calls) :
    inputs.roots plan = distinct (inputs.askedRoots calls) := by
  rw [roots, askedRoots, hcalls.roots, hcalls.rootsPlatform, hcalls.rootsApplication,
    namesOf_extra h]
  simp only [distinct_append, distinct_distinct, appendAllNew_distinct]

theorem isEmpty_roots_iff (h : plan.Gathers tree opening inputs) (hcalls : plan.RootedBy calls) :
    (inputs.roots plan).isEmpty = true ↔ inputs.askedRoots calls = [] := by
  rw [List.isEmpty_iff, List.eq_nil_iff_forall_not_mem, List.eq_nil_iff_forall_not_mem,
    roots_eq h hcalls]
  simp only [mem_distinct]

theorem needsDefaultRoots_iff (h : plan.Gathers tree opening inputs)
    (hcalls : plan.RootedBy calls) :
    inputs.needsDefaultRoots plan = true ↔
      (∃ a ∈ inputs.rootArtifacts, a.descriptor = none) ∨ inputs.classPath ≠ [] ∨
        inputs.askedRoots calls = [] ∨ allDefault ∈ PlanCall.namesGiven calls := by
  have hartifacts : (!inputs.initialArtifacts.isEmpty) = true ↔
      ∃ a ∈ inputs.rootArtifacts, a.descriptor = none := by
    simp [initialArtifacts, Artifact.isModular]
  have hclassPath : (!inputs.classPath.isEmpty) = true ↔ inputs.classPath ≠ [] := by simp
  have hdefault : plan.rootsDefault = true ↔ allDefault ∈ PlanCall.namesGiven calls := by
    rw [hcalls.rootsDefault, PlanCall.askForDefault, decide_eq_true_iff]
  rw [needsDefaultRoots, Bool.or_eq_true, Bool.or_eq_true, Bool.or_eq_true, hartifacts, hclassPath,
    isEmpty_roots_iff h hcalls, hdefault, or_assoc, or_assoc]

/-- Resolution starts from the roots that are asked for and from those by default. -/
theorem resolutionRoots_eq (h : plan.Gathers tree opening inputs) (hcalls : plan.RootedBy calls) :
    inputs.resolutionRoots plan =
      .ofList (inputs.askedRoots calls ++ inputs.addedRoots calls) := by
  refine NameSet.ext_mem fun n => ?_
  have hadded : (if inputs.needsDefaultRoots plan = true then inputs.platform.defaultRoots
      else []) = inputs.addedRoots calls := by
    unfold addedRoots
    simp only [needsDefaultRoots_iff h hcalls]
  rw [resolutionRoots, NameSet.mem_ofList, NameSet.mem_ofList, hadded, roots_eq h hcalls,
    List.mem_append, List.mem_append, mem_distinct]

end

end Inputs

theorem filterMap_of_forall₂ {α β : Type} {f : α → Option β} {as : List α} {bs : List β}
    (h : List.Forall₂ (fun a b => f a = some b) as bs) : as.filterMap f = bs := by
  induction h with
  | nil => rfl
  | cons hab _ ih => rw [List.filterMap_cons_some hab, ih]

/-- Artifacts are opened in the order of their paths. -/
theorem Artifact.paths_of_mapM {tree : FileTree} {release : Option Nat} {paths : List Path}
    {step : Path × Nat → Except AtlasError Artifact}
    (hstep : ∀ path i, ∃ handle, step (path, i) = openPath tree handle path release)
    {artifacts : List Artifact} (h : paths.zipIdx.mapM step = .ok artifacts) :
    artifacts.map Artifact.path = paths := by
  have hopened : List.Forall₂ (fun p a => Prod.fst p = Artifact.path a) paths.zipIdx artifacts := by
    refine (mapM_eq_ok_iff.mp h).imp fun p a ha => ?_
    obtain ⟨handle, hhandle⟩ := hstep p.1 p.2
    exact (path_of_openPath (hhandle.symm.trans ha)).symm
  rw [← map_eq_map_of_forall₂ hopened]
  exact List.zipIdx_map_fst 0 paths

/-- The artifacts to be analysed are opened in order. -/
theorem BuildPlan.paths_of_openRoots {plan : BuildPlan} {tree : FileTree} {opening : Nat}
    {artifacts : List Artifact} (h : plan.openRoots tree opening = .ok artifacts) :
    artifacts.map Artifact.path = plan.rootPaths :=
  Artifact.paths_of_mapM (fun _ _ => ⟨_, rfl⟩) h

/-- What a build resolves, and from which roots. -/
theorem BuildPlan.exists_resolve_of_build {plan : BuildPlan} {tree : FileTree} {opening : Nat}
    {c : Configuration} (h : plan.build tree opening = .ok c) :
    ∃ inputs, plan.gather tree opening = .ok inputs ∧ c.platform = inputs.platform ∧
      c.layers = inputs.layers ∧ c.roots = inputs.roots plan ∧
      resolve c.finder (inputs.resolutionRoots plan) = .ok c.graph := by
  obtain ⟨inputs, graph, units, artifacts, hinputs, hgraph, -, -, rfl⟩ := build_eq_ok_iff.mp h
  exact ⟨inputs, hinputs, rfl, rfl, rfl, hgraph⟩

/-- **Roots come from what is asked for.**  A plan is made by calls.  If it is built, the artifacts
to be analysed are those at the paths that the calls add, and the class path is what the class paths
of the calls stand for.  The modules of the configuration are the least set of names that holds the
roots which the calls ask for and those that are added by default, and with every module that the
layers know what it requires.  The roots of the configuration are modules of it, one for each name
that is asked for, in the order in which they are asked for first: no such name is left out, and no
root by default is put in. -/
theorem rootUnits_of_build {choice : PlatformChoice} {calls : List PlanCall} {tree : FileTree}
    {opening : Nat} {c : Configuration}
    (h : (BuildPlan.ofCalls choice calls).build tree opening = .ok c) :
    ∃ inputs, (BuildPlan.ofCalls choice calls).gather tree opening = .ok inputs ∧
      c.platform = inputs.platform ∧ c.layers = inputs.layers ∧
      inputs.rootArtifacts.map Artifact.path = calls.flatMap PlanCall.rootPaths ∧
      ClassPath.expandAll tree (calls.flatMap PlanCall.classPaths) = .ok inputs.classPath ∧
      c.units.keys.Nodup ∧
      IsLeast {names | ClosedOver c.finder
          (.ofList (inputs.askedRoots calls ++ inputs.addedRoots calls)) names}
        {n | n ∈ c.units.keys} ∧
      c.rootUnits.map ModuleUnit.name = distinct (inputs.askedRoots calls) ∧
      ∀ u ∈ c.rootUnits, c.findUnit u.name = some u := by
  have hcoherent := coherent_of_build h
  have hcalls := BuildPlan.rootedBy_ofCalls choice calls
  obtain ⟨inputs, hinputs, hplatform, hlayers, hroots, hgraph⟩ :=
    BuildPlan.exists_resolve_of_build h
  have hgathers := BuildPlan.gather_eq_ok_iff.mp hinputs
  rw [Inputs.resolutionRoots_eq hgathers hcalls] at hgraph
  rw [Inputs.roots_eq hgathers hcalls] at hroots
  obtain ⟨s, hs, -, hgraphOf⟩ := exists_selects_of_resolve hgraph
  have hneeded : ∀ n, n ∈ c.graph.names ↔ Needed c.finder
      (.ofList (inputs.askedRoots calls ++ inputs.addedRoots calls)) n := by
    intro n
    rw [hgraphOf, names_graphOf]
    exact hs.mem_names_iff n
  have hasked : ∀ n ∈ c.roots, n ∈ c.graph.names := by
    intro n hn
    rw [hroots, mem_distinct] at hn
    exact (hneeded n).mpr (.root (NameSet.mem_ofList.mpr (List.mem_append_left _ hn)))
  obtain ⟨us, hus, hnames, hfound⟩ := hcoherent.exists_units hasked
  have hrootUnits : c.rootUnits = us := filterMap_of_forall₂ hus
  have hkeys : {n | n ∈ c.units.keys} = {n | Needed c.finder
      (.ofList (inputs.askedRoots calls ++ inputs.addedRoots calls)) n} := by
    rw [hcoherent.keys]
    exact Set.ext hneeded
  refine ⟨inputs, hinputs, hplatform, hlayers, ?_, ?_, c.units.distinct, ?_, ?_, ?_⟩
  · rw [BuildPlan.paths_of_openRoots hgathers.rootArtifacts, hcalls.rootPaths]
  · rw [← hcalls.classPaths]
    exact hgathers.classPath
  · rw [hkeys]
    exact isLeast_needed _ _
  · rw [hrootUnits, hnames, hroots]
  · rw [hrootUnits]
    exact hfound

namespace Shop

/-- The calls that make the plan of the program with its library patched. -/
def marketCalls : List PlanCall :=
  [.addModules ["app"], .setPlatform marketPlatform, .setOverride "/market/patches",
    .addClassPath "/market/classes"]

/-- The program is the one root.  The class path adds the library, which is there for the program
anyway. -/
theorem rootUnits_of_build_market :
    ∃ c, (BuildPlan.ofCalls .none marketCalls).build marketTree 1 = .ok c ∧
      c.rootUnits.map ModuleUnit.name = ["app"] ∧
      IsLeast {names | ClosedOver c.finder (.ofList ["app", "base"]) names}
        {n | n ∈ c.units.keys} := by
  have hbuild : (BuildPlan.ofCalls .none marketCalls).build marketTree 1 =
      .ok (marketConfiguration 1) := build_market 1
  obtain ⟨inputs, hinputs, -, -, -, -, -, hleast, hroots, -⟩ := rootUnits_of_build hbuild
  have hgather : (BuildPlan.ofCalls .none marketCalls).gather marketTree 1 = .ok marketInputs :=
    BuildPlan.gather_eq_ok_iff.mpr (gathers_market 1)
  obtain rfl := Except.ok.inj (hinputs.symm.trans hgather)
  have hasked : marketInputs.askedRoots marketCalls = ["app"] := by decide
  have hadded : marketInputs.addedRoots marketCalls = ["base"] := by decide
  rw [hasked, hadded] at hleast
  rw [hasked] at hroots
  exact ⟨_, hbuild, hroots, hleast⟩

end Shop
end ModuleAtlas
