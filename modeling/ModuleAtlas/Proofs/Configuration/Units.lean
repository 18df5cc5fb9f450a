import ModuleAtlas.Proofs.Configuration.Homes

/-! # The modules of a configuration

A module takes part in a configuration as the layers find it under its name.  The layers look at the
override first, then at the platform, then at the modules of the application, and at last at the
modules among the analysed artifacts (`Inputs.find?_layers`).  So a module has the address of a
platform module unless the override has one of its name, and else the address of the path that it
was found at; that it counts as a module of the platform is a matter of its name alone
(`BuiltFrom.locates`).
-/
namespace ModuleAtlas
open Steps

/-! ## Opening a module -/

/-- A module that has been opened from a reference. -/
structure ModuleUnit.OpenedFrom (u : ModuleUnit) (tree : FileTree) (platform : Platform)
    (release : Option Nat) (handle : Handle) (r : ModuleReference) : Prop where
  descriptor : u.descriptor = r.descriptor
  location : u.location = r.address tree
  isPlatform : u.isPlatform = (platform.find? r.name).isSome
  ofPlatform : r.location = .platform → platform.classReader tree handle r.name = .ok u.reader
  ofPath : ∀ path, r.location = .path path →
    EntryReader.openPath tree handle path release = .ok u.reader

theorem openedFrom_of_openUnit {tree : FileTree} {platform : Platform} {release : Option Nat}
    {handle : Handle} {r : ModuleReference} {u : ModuleUnit}
    (h : openUnit tree platform release handle r = .ok u) :
    u.OpenedFrom tree platform release handle r := by
  unfold openUnit at h
  cases hlocation : r.location with
  | platform =>
    rw [hlocation] at h
    obtain ⟨reader, hreader, he⟩ := bind_eq_ok_iff.mp h
    obtain rfl := Except.ok.inj he
    refine ⟨rfl, rfl, rfl, fun _ => hreader, fun path hpath => ?_⟩
    cases hlocation.symm.trans hpath
  | path p =>
    rw [hlocation] at h
    obtain ⟨reader, hreader, he⟩ := bind_eq_ok_iff.mp h
    obtain rfl := Except.ok.inj he
    refine ⟨rfl, rfl, rfl, fun hplatform => ?_, fun path hpath => ?_⟩
    · cases hlocation.symm.trans hplatform
    · cases hlocation.symm.trans hpath
      exact hreader

/-! ## Built configurations -/

/-- What a successful build comes to, given what it has gathered. -/
structure Configuration.BuiltFrom (c : Configuration) (plan : BuildPlan) (tree : FileTree)
    (opening : Nat) (inputs : Inputs) : Prop where
  gathered : plan.gather tree opening = .ok inputs
  platform : c.platform = inputs.platform
  layers : c.layers = inputs.layers
  initialArtifacts : c.initialArtifacts = inputs.initialArtifacts
  classPathArtifacts : plan.openClassPath tree opening inputs.classPath = .ok c.classPathArtifacts
  index : c.index =
    BuildPlan.indexOf c.units.values (c.initialArtifacts ++ c.classPathArtifacts)
  opened : ∀ u ∈ c.units.values, ∃ handle r, c.finder.find? u.name = some r ∧
    u.OpenedFrom tree c.platform plan.release handle r

/-- The table of an assembled configuration has the modules that have been opened for its graph. -/
theorem BuildPlan.values_assemble {plan : BuildPlan} {tree : FileTree} {opening : Nat}
    {inputs : Inputs} {graph : ResolvedGraph} {units : List ModuleUnit}
    (hgraph : resolve inputs.layers.finder (inputs.resolutionRoots plan) = .ok graph)
    (hunits : plan.openUnits tree opening inputs.platform graph = .ok units)
    (artifacts : List Artifact) :
    (plan.assemble inputs graph units artifacts).units.values = units := by
  obtain ⟨s, hs, -, rfl⟩ := exists_selects_of_resolve hgraph
  have hnames := names_of_openUnits hunits
  rw [names_graphOf] at hnames
  show (plan.assemble inputs (graphOf s) units artifacts).units.entries.map Prod.snd = units
  rw [assemble, entries_tableOf (hnames ▸ hs.distinct), List.map_map]
  exact List.map_id units

theorem exists_builtFrom_of_build {plan : BuildPlan} {tree : FileTree} {opening : Nat}
    {c : Configuration} (h : plan.build tree opening = .ok c) :
    ∃ inputs, c.BuiltFrom plan tree opening inputs := by
  obtain ⟨inputs, graph, units, artifacts, hinputs, hgraph, hunits, hartifacts, rfl⟩ :=
    BuildPlan.build_eq_ok_iff.mp h
  have hvalues := BuildPlan.values_assemble hgraph hunits artifacts
  obtain ⟨s, hs, -, rfl⟩ := exists_selects_of_resolve hgraph
  refine ⟨inputs, hinputs, rfl, rfl, rfl, hartifacts, ?_, fun u hu => ?_⟩
  · rw [hvalues]
    rfl
  · rw [hvalues] at hu
    obtain ⟨m, hm, hopen⟩ := exists_of_mem_mapM hunits hu
    have hr : m.reference ∈ s.modules := by
      rw [← references_graphOf s]
      exact List.mem_map_of_mem hm
    refine ⟨_, m.reference, ?_, openedFrom_of_openUnit hopen⟩
    rw [name_of_openUnit hopen]
    exact hs.known m.reference hr

/-! ## Layers -/

theorem findSome?_filterMap_cons {α β : Type} (f : α → Option β) (o : Option α)
    (l : List (Option α)) :
    ((o :: l).filterMap id).findSome? f = (o.bind f).or ((l.filterMap id).findSome? f) := by
  cases o with
  | none => rfl
  | some a =>
    show (a :: l.filterMap id).findSome? f = (f a).or _
    rw [List.findSome?_cons]
    cases f a <;> rfl

namespace Inputs

/-- What a module path that may be missing has under a name. -/
def foundIn (path : Option ModulePath) (n : String) : Option ModuleReference :=
  path.bind fun p => p.finder.find? n

/-- The override comes first, then the platform, then the application, then the analysed modules. -/
theorem find?_layers (inputs : Inputs) (n : String) :
    inputs.layers.finder.find? n =
      (foundIn inputs.override n).or (((inputs.platform.find? n).map Catalog.referenceTo).or
        ((foundIn inputs.application n).or (foundIn inputs.extra n))) := by
  have hplatform : inputs.platform.finder.find? n =
      (inputs.platform.find? n).map Catalog.referenceTo := Catalog.find?_finder _ n
  rw [Layers.find?_finder, Layers.finders, ← hplatform]
  simp only [findSome?_filterMap_cons, List.filterMap_nil, List.findSome?_nil, Option.or_none]
  simp only [layers, foundIn, Option.bind_map, Option.bind_some]
  rfl

/-- What is found under a name in the override, or else in the application, or else among the
analysed modules. -/
def foundByPath (inputs : Inputs) (n : String) : Option ModuleReference :=
  (foundIn inputs.override n).or ((foundIn inputs.application n).or (foundIn inputs.extra n))

/-- A module is found in the platform if the override does not have it, and by its path
otherwise. -/
theorem cases_of_find?_layers {inputs : Inputs} {n : String} {r : ModuleReference}
    (h : inputs.layers.finder.find? n = some r) :
    ((∃ d, inputs.platform.find? n = some d ∧ r = Catalog.referenceTo d) ∧
        foundIn inputs.override n = none) ∨
      (¬ ((inputs.platform.find? n).isSome ∧ foundIn inputs.override n = none) ∧
        inputs.foundByPath n = some r) := by
  rw [find?_layers] at h
  rw [foundByPath]
  cases hoverride : foundIn inputs.override n with
  | some found =>
    rw [hoverride] at h
    exact .inr ⟨fun hn => Option.some_ne_none found hn.2, h⟩
  | none =>
    rw [hoverride, Option.none_or] at h
    cases hplatform : inputs.platform.find? n with
    | some d =>
      rw [hplatform] at h
      exact .inl ⟨⟨d, rfl, (Option.some.inj h).symm⟩, rfl⟩
    | none =>
      rw [hplatform] at h
      exact .inr ⟨fun hn => absurd hn.1 Bool.false_ne_true, h⟩

/-- A module that is found by its path was read there. -/
theorem AreRead.exists_path {inputs : Inputs} {tree : FileTree} {release : Option Nat}
    (h : inputs.AreRead tree release) {n : String} {r : ModuleReference}
    (hr : inputs.foundByPath n = some r) :
    ∃ p, r.location = .path p ∧
      ModulePath.readModule tree release p = .ok (some r.descriptor) := by
  have hfound : ∀ {path : Option ModulePath},
      (∀ found, path = some found → found.IsRead tree release) → foundIn path n = some r →
      ∃ p, r.location = .path p ∧
        ModulePath.readModule tree release p = .ok (some r.descriptor) := by
    intro path hpath hr
    obtain ⟨found, rfl, hfind⟩ := Option.bind_eq_some_iff.mp hr
    exact hpath found rfl r (Finder.mem_of_find? hfind)
  rcases Option.or_eq_some_iff.mp hr with hr | ⟨-, hr⟩
  · exact hfound h.override hr
  rcases Option.or_eq_some_iff.mp hr with hr | ⟨-, hr⟩
  · exact hfound h.application hr
  · exact hfound h.extra hr

end Inputs

/-! ## Addresses -/

theorem address_ne_platform (tree : FileTree) (p : Path) (n : String) :
    tree.address p ≠ "jrt:/" ++ n := by
  intro he
  have hlist := congrArg String.toList he
  rw [FileTree.address, String.toList_append, String.toList_append] at hlist
  cases hlist

/-- Where a module comes from, seen from its name. -/
structure ModuleUnit.Locates (u : ModuleUnit) (tree : FileTree) (platform : Platform)
    (inputs : Inputs) : Prop where
  ofPlatform : u.location = "jrt:/" ++ u.name ↔
    (platform.find? u.name).isSome ∧ Inputs.foundIn inputs.override u.name = none
  ofPath : ¬ ((platform.find? u.name).isSome ∧ Inputs.foundIn inputs.override u.name = none) →
    ∃ r p, inputs.foundByPath u.name = some r ∧ r.location = .path p ∧ u.location = tree.address p
  isPlatform : u.isPlatform = true ↔ (platform.find? u.name).isSome

namespace Configuration.BuiltFrom
variable {c : Configuration} {plan : BuildPlan} {tree : FileTree} {opening : Nat} {inputs : Inputs}

theorem locates (h : c.BuiltFrom plan tree opening inputs) {u : ModuleUnit}
    (hu : u ∈ c.units.values) : u.Locates tree c.platform inputs := by
  obtain ⟨handle, r, hr, hopen⟩ := h.opened u hu
  have hname : u.name = r.name := congrArg ModuleDescriptor.name hopen.descriptor
  rw [Configuration.finder, h.layers] at hr
  have hplatform : u.isPlatform = true ↔ (c.platform.find? u.name).isSome := by
    rw [hopen.isPlatform, hname]
  rcases Inputs.cases_of_find?_layers hr with ⟨⟨d, hd, rfl⟩, hoverride⟩ | ⟨hhidden, hfound⟩
  · have hlocation : u.location = "jrt:/" ++ u.name := by
      rw [hopen.location, hname]
      rfl
    have hvisible : (c.platform.find? u.name).isSome ∧
        Inputs.foundIn inputs.override u.name = none := by
      rw [h.platform, hd]
      exact ⟨rfl, hoverride⟩
    exact ⟨iff_of_true hlocation hvisible, fun hn => absurd hvisible hn, hplatform⟩
  · rw [← h.platform] at hhidden
    obtain ⟨p, hp, -⟩ := (BuildPlan.areRead_of_gather h.gathered).exists_path hfound
    have hlocation : u.location = tree.address p := by
      rw [hopen.location, ModuleReference.address, hp]
    refine ⟨iff_of_false ?_ hhidden, fun _ => ⟨r, p, hfound, hp, hlocation⟩, hplatform⟩
    rw [hlocation]
    exact address_ne_platform tree p u.name

end Configuration.BuiltFrom

/-- **Layers take precedence over each other.**  However the layers of a chain are set, a name is
answered by the first layer that knows it, and the listing has each name that some layer knows once,
in order of first appearance, with the module that is found under it; the order in which the layers
are set does not matter.  The finder over some layers is this chain.  So a module of a built
configuration has the address of a platform module exactly if the platform has its name and the
override does not; otherwise it has the address of the path under which the first of override,
application and analysed modules has it.  It counts as a module of the platform exactly if the
platform has its name, though the override may have it too. -/
theorem layer_precedence :
    (∀ calls : List (Layer × ModuleSource), (∀ call ∈ calls, call.2.Agrees) →
      (ModuleSource.compose (Chain.ofCalls calls).sources).Combines (Chain.ofCalls calls).sources ∧
        ((calls.map Prod.fst).Nodup → ∀ other, other.Perm calls →
          Chain.ofCalls other = Chain.ofCalls calls)) ∧
      (∀ layers : Layers, layers.finder.source = ModuleSource.compose layers.chain.sources) ∧
      ∀ (plan : BuildPlan) (tree : FileTree) (opening : Nat) (c : Configuration),
        plan.build tree opening = .ok c →
        ∃ inputs, plan.gather tree opening = .ok inputs ∧ c.platform = inputs.platform ∧
          c.layers = inputs.layers ∧ ∀ u ∈ c.units.values, u.Locates tree c.platform inputs := by
  refine ⟨fun calls h => ⟨?_, fun hdistinct other => Chain.ofCalls_eq_of_perm hdistinct⟩,
    Layers.source_finder, fun plan tree opening c h => ?_⟩
  · exact ModuleSource.combines_compose (Chain.agrees_of_mem_sources h)
  · obtain ⟨inputs, hbuilt⟩ := exists_builtFrom_of_build h
    exact ⟨inputs, hbuilt.gathered, hbuilt.platform, hbuilt.layers, fun u hu => hbuilt.locates hu⟩

namespace Shop

/-- A folder with a class, the exploded home of the program, and a patch of its library. -/
def market : Folder :=
  .folder "classes" (.folder "goods" (.file "Price.class" [2] .empty) .empty)
    (.folder "home" (.folder "modules" homeModules .empty)
      (.folder "patches" (.folder "base"
        (.folder "base" (.file "Item.class" [4] .empty)
          (.file EntryName.moduleInfo (ClassFile.encodeModuleInfo libraryDescriptor) .empty))
        .empty) .empty))

/-- The file tree with these. -/
def marketTree : FileTree where
  root := .folder "market" market .empty

/-- The platform in the home. -/
def marketPlatform : Platform where
  home := some ⟨"/market/home"⟩
  source := .exploded ⟨"/market/home/modules"⟩
  units := (Catalog.empty.add programDescriptor).add declaredLibrary

/-- The patch of the library. -/
def patchedLibrary : ModuleReference := ⟨declaredLibrary, .path ⟨"/market/patches/base"⟩⟩

/-- The patches. -/
def patches : ModulePath where
  entries := [⟨"/market/patches"⟩]
  finder := .ofList [patchedLibrary]

/-- A build of the program with the library patched, and with a class path. -/
def marketPlan : BuildPlan where
  platform := some marketPlatform
  overridePath := some "/market/patches"
  roots := ["app"]
  classPaths := ["/market/classes"]

theorem folderAt_market : marketTree.FolderAt ⟨"/market"⟩ market :=
  FileTree.folderAt_root_item (by decide : IsName "market") rfl (by decide) (by decide)

theorem open_patch (handle : Handle) :
    EntryReader.openPath marketTree handle ⟨"/market/patches/base"⟩ none =
      .ok ⟨.folder ⟨"/market/patches/base"⟩ ["base/Item.class", EntryName.moduleInfo], handle⟩ :=
  FileTree.FolderAt.openPath_below folderAt_market
    (by decide : IsLocation (["patches", "base"].map OsText.ofText)) rfl handle none

theorem open_classes (handle : Handle) :
    EntryReader.openPath marketTree handle ⟨"/market/classes"⟩ none =
      .ok ⟨.folder ⟨"/market/classes"⟩ ["goods/Price.class"], handle⟩ :=
  FileTree.FolderAt.openPath_below folderAt_market
    (by decide : IsLocation [OsText.ofText "classes"]) rfl handle none

theorem readModule_patch :
    ModulePath.readModule marketTree none ⟨"/market/patches/base"⟩ =
      .ok (some declaredLibrary) := by
  have hfile : marketTree.readFile ((⟨"/market/patches/base"⟩ : Path).child EntryName.moduleInfo) =
      .ok (ClassFile.encodeModuleInfo libraryDescriptor) :=
    FileTree.FolderAt.readFile_eq folderAt_market
      (by decide : IsLocation (["patches", "base", EntryName.moduleInfo].map OsText.ofText)) rfl
  have hextended : declaredLibrary.extendPackages ["base/Item.class", EntryName.moduleInfo] =
      declaredLibrary := by decide
  rw [ModulePath.readModule, Artifact.openPath, open_patch]
  simp [bind, Except.bind, EntryReader.descriptor, EntryReader.read, EntryReader.contains,
    EntryReader.entries, Closed.contains, EntryReader.readListed, hfile,
    parse_library, hextended, Except.map, pure, Except.pure]

theorem search_patches :
    ModulePath.searchList marketTree none "/market/patches" = .ok patches := by
  have hlist : (Path.splitList "/market/patches").filter (fun p : Path => p.raw ≠ "") =
      [⟨"/market/patches"⟩] := by decide
  have hpatches := FileTree.FolderAt.below folderAt_market
    (by decide : IsLocation [OsText.ofText "patches"]) rfl
  have hstatus : ∃ f, marketTree.status ⟨"/market/patches"⟩ = .ok (.folder f) ∧
      f.names = [OsText.ofText "base"] := ⟨_, hpatches.status, rfl⟩
  obtain ⟨f, hf, hnames⟩ := hstatus
  have hnone : marketTree.isFile ((⟨"/market/patches"⟩ : Path).child EntryName.moduleInfo) =
      false := by
    rw [Bool.eq_false_iff, ne_eq]
    intro hfile
    obtain ⟨content, h⟩ := (FileTree.FolderAt.isFile_iff folderAt_market
      (by decide : IsLocation (["patches", EntryName.moduleInfo].map OsText.ofText))).mp hfile
    cases h
  have hcandidate :
      marketTree.isFile ((⟨"/market/patches/base"⟩ : Path).child EntryName.moduleInfo) = true :=
    (FileTree.FolderAt.isFile_iff folderAt_market
      (by decide : IsLocation (["patches", "base", EntryName.moduleInfo].map OsText.ofText))).mpr
      ⟨_, rfl⟩
  have hchild : (⟨"/market/patches"⟩ : Path).child "base" = ⟨"/market/patches/base"⟩ := by
    decide
  rw [ModulePath.searchList, hlist]
  simp [ModulePath.search, ModulePath.searchEntries, ModulePath.searchEntry, FileTree.pathExists,
    FileTree.isFolder, hf, ModulePath.holdsDescriptor, hnone, FileTree.sortedChildren,
    FileTree.sortedNames, FileTree.listFolder, hnames, ModulePath.searchChildren,
    ModulePath.isCandidate, hcandidate, readModule_patch, hchild, Except.map, Except.isOk,
    Except.toBool, ModulePath.referenceTo, patches, patchedLibrary]

/-- What is gathered for the build. -/
def marketInputs : Inputs where
  platform := marketPlatform
  rootArtifacts := []
  override := some patches
  application := none
  extra := none
  classPath := [⟨"/market/classes"⟩]

theorem gathers_market (opening : Nat) : marketPlan.Gathers marketTree opening marketInputs where
  platform := rfl
  rootArtifacts := rfl
  override := Steps.map_eq_ok_iff.mpr ⟨patches, search_patches, rfl⟩
  application := rfl
  extra := rfl
  classPath := by
    have hlist : Path.splitList "/market/classes" = [⟨"/market/classes"⟩] := by decide
    have hname : (⟨"/market/classes"⟩ : Path).fileName? ≠ some ClassPath.wildcard := by
      decide
    have hentry : ClassPath.expandEntry marketTree ⟨"/market/classes"⟩ =
        .ok [⟨"/market/classes"⟩] := by
      rw [ClassPath.expandEntry, if_neg (by decide), if_pos hname]
    simp [marketPlan, marketInputs, ClassPath.expandAll, ClassPath.expand, hlist,
      ClassPath.expandEntries, hentry, Except.map]

/-- The program reads its library, which is the patched one. -/
def marketGraph : ResolvedGraph where
  modules := [⟨Catalog.referenceTo programDescriptor, ["base"]⟩, ⟨patchedLibrary, []⟩]

theorem resolve_market :
    resolve marketInputs.layers.finder (marketInputs.resolutionRoots marketPlan) =
      .ok marketGraph := by
  cbv

/-- The program, opened. -/
def marketProgram (opening : Nat) : ModuleUnit where
  descriptor := programDescriptor
  location := "jrt:/app"
  isPlatform := true
  reader := ⟨.folder ⟨"/market/home/modules/app"⟩ [EntryName.moduleInfo], ⟨opening, .unit "app"⟩⟩

/-- The patched library, opened. -/
def marketLibrary (opening : Nat) : ModuleUnit where
  descriptor := declaredLibrary
  location := marketTree.address ⟨"/market/patches/base"⟩
  isPlatform := true
  reader := ⟨.folder ⟨"/market/patches/base"⟩ ["base/Item.class", EntryName.moduleInfo],
    ⟨opening, .unit "base"⟩⟩

theorem openUnits_market (opening : Nat) :
    marketPlan.openUnits marketTree opening marketPlatform marketGraph =
      .ok [marketProgram opening, marketLibrary opening] := by
  have hfolder : marketTree.isFolder ((⟨"/market/home/modules"⟩ : Path).child "app") = true :=
    FileTree.FolderAt.isFolder_of_locate folderAt_market
      (by decide : IsLocation (["home", "modules", "app"].map OsText.ofText)) rfl
  have hwalk : marketTree.walk ((⟨"/market/home/modules"⟩ : Path).child "app") =
      .ok [[OsText.ofText EntryName.moduleInfo]] :=
    FileTree.FolderAt.walk_below folderAt_market
      (by decide : IsLocation (["home", "modules", "app"].map OsText.ofText)) rfl
  have hreader : marketPlatform.classReader marketTree ⟨opening, .unit "app"⟩ "app" =
      .ok (marketProgram opening).reader := by
    unfold Platform.classReader
    dsimp only [marketPlatform]
    rw [hfolder, if_pos rfl, EntryReader.openFolder, hwalk]
    rfl
  have hprogram : openUnit marketTree marketPlatform none ⟨opening, .unit "app"⟩
      (Catalog.referenceTo programDescriptor) = .ok (marketProgram opening) := by
    have hname : ModuleReference.name ⟨programDescriptor, .platform⟩ = "app" := rfl
    unfold openUnit
    dsimp only [Catalog.referenceTo]
    rw [hname, hreader]
    rfl
  have hlibrary : openUnit marketTree marketPlatform none ⟨opening, .unit "base"⟩ patchedLibrary =
      .ok (marketLibrary opening) := by
    unfold openUnit
    dsimp only [patchedLibrary]
    rw [open_patch]
    rfl
  exact Steps.mapM_eq_ok_iff.mpr (.cons hprogram (.cons hlibrary .nil))

/-- The folder of the class path, opened. -/
def marketClasses (opening : Nat) : Artifact where
  reader := ⟨.folder ⟨"/market/classes"⟩ ["goods/Price.class"], ⟨opening, .classPath 0⟩⟩
  descriptor := none

theorem openClassPath_market (opening : Nat) :
    marketPlan.openClassPath marketTree opening [⟨"/market/classes"⟩] =
      .ok [marketClasses opening] := by
  have hclasses := FileTree.FolderAt.below folderAt_market
    (by decide : IsLocation [OsText.ofText "classes"]) rfl
  have hfolder : ∃ f, marketTree.status ⟨"/market/classes"⟩ = .ok (.folder f) :=
    ⟨_, hclasses.status⟩
  obtain ⟨f, hf⟩ := hfolder
  have hexists : marketTree.pathExists ⟨"/market/classes"⟩ = true := by
    rw [FileTree.pathExists, hf]
    rfl
  have hopen : Artifact.openPath marketTree ⟨opening, .classPath 0⟩ ⟨"/market/classes"⟩ none =
      .ok (marketClasses opening) := by
    rw [Artifact.openPath, open_classes]
    rfl
  rw [BuildPlan.openClassPath, List.filter_cons_of_pos hexists]
  exact Steps.mapM_eq_ok_iff.mpr (.cons hopen .nil)

/-- The configuration of the program with its library patched. -/
def marketConfiguration (opening : Nat) : Configuration :=
  marketPlan.assemble marketInputs marketGraph [marketProgram opening, marketLibrary opening]
    [marketClasses opening]

theorem build_market (opening : Nat) :
    marketPlan.build marketTree opening = .ok (marketConfiguration opening) :=
  BuildPlan.build_eq_ok_iff.mpr ⟨_, _, _, _, BuildPlan.gather_eq_ok_iff.mpr (gathers_market opening),
    resolve_market, openUnits_market opening, openClassPath_market opening, rfl⟩

/-- The patched library hides the one of the platform, whichever of the two layers is set first.  It
counts as a module of the platform all the same, and the program comes from the platform. -/
theorem layer_precedence_market :
    (∃ s : ModuleSource, s = ModuleSource.compose (Chain.ofCalls
        [(.platform, marketPlatform.finder.source), (.override, patches.finder.source)]).sources ∧
      s.find "base" = some patchedLibrary ∧
      patchedLibrary ∈ s.listing ∧
      s.listing.map ModuleReference.name = ["base", "app"]) ∧
    Chain.ofCalls [(.override, patches.finder.source), (.platform, marketPlatform.finder.source)] =
      Chain.ofCalls [(.platform, marketPlatform.finder.source), (.override, patches.finder.source)] ∧
    ∃ c, marketPlan.build marketTree 1 = .ok c ∧
      (∃ u ∈ c.units.values, u.name = "base" ∧ u.isPlatform = true ∧
        u.location = marketTree.address ⟨"/market/patches/base"⟩) ∧
      ∃ u ∈ c.units.values, u.name = "app" ∧ u.location = "jrt:/" ++ u.name := by
  obtain ⟨hchain, -, hbuild⟩ := layer_precedence
  obtain ⟨hcombines, horder⟩ := hchain
    [(.platform, marketPlatform.finder.source), (.override, patches.finder.source)] (by
      intro call hcall
      rcases List.mem_cons.mp hcall with rfl | hcall
      · exact ModuleSource.agrees_source _
      · obtain rfl := List.mem_singleton.mp hcall
        exact ModuleSource.agrees_source _)
  obtain ⟨inputs, hgather, -, -, hunits⟩ := hbuild marketPlan marketTree 1 _ (build_market 1)
  have hinputs := BuildPlan.gather_eq_ok_iff.mpr (gathers_market 1)
  obtain rfl : inputs = marketInputs := Except.ok.inj (hgather.symm.trans hinputs)
  have hlibrary : marketLibrary 1 ∈ (marketConfiguration 1).units.values :=
    List.mem_cons_of_mem _ List.mem_cons_self
  have hprogram : marketProgram 1 ∈ (marketConfiguration 1).units.values := List.mem_cons_self
  have hbase : ModuleSource.find _ "base" = some patchedLibrary := hcombines.find "base"
  refine ⟨⟨_, rfl, hbase, (hcombines.mem_listing_iff patchedLibrary).mpr hbase, ?_⟩,
    horder (by decide) _ (List.Perm.swap _ _ _), _, build_market 1,
    ⟨_, hlibrary, rfl, ?_, ?_⟩, ⟨_, hprogram, rfl, ?_⟩⟩
  · rw [hcombines.order]
    rfl
  · exact (hunits _ hlibrary).isPlatform.mpr rfl
  · obtain ⟨r, p, hfound, hp, hlocation⟩ := (hunits _ hlibrary).ofPath (fun h => nomatch h.2)
    obtain rfl : patchedLibrary = r := Option.some.inj hfound
    rw [hlocation, ← Location.path.inj hp]
  · exact (hunits _ hprogram).ofPlatform.mpr ⟨rfl, rfl⟩

end Shop
end ModuleAtlas
