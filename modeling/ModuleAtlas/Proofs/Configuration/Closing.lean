import ModuleAtlas.Proofs.Configuration.Units
import ModuleAtlas.Proofs.Discovery.Subtrees
import ModuleAtlas.Proofs.Image.Places

/-! # What closing a configuration leaves open

A configuration closes the readers that were opened when it was built, and the image of a packed
platform (`Configuration.contains_close_iff`).  A module that was opened later for a resolution has
a handle of its own, so its reader stays open.  If it reads files, it reads as before; but the
modules of a packed platform all read through the one image, whenever they were opened, so with the
image closed there is nothing left to read (`read_close_of_resolve`).
-/
namespace ModuleAtlas
open Steps

/-! ## Readers -/

namespace EntryReader
variable {tree : FileTree} {handle : Handle} {r : EntryReader}

/-- A reader that reads files, and not a module of an image. -/
def ReadsFiles (r : EntryReader) : Prop := ∀ image name, r.content ≠ .module image name

theorem openFolder_spec {root : Path} (h : openFolder tree handle root = .ok r) :
    r.handle = handle ∧ r.ReadsFiles := by
  unfold openFolder at h
  split at h
  · obtain rfl := Except.ok.inj h
    exact ⟨rfl, nofun⟩
  · cases h

theorem openPath_spec {path : Path} {release : Option Nat}
    (h : openPath tree handle path release = .ok r) : r.handle = handle ∧ r.ReadsFiles := by
  unfold openPath at h
  split at h
  · exact openFolder_spec h
  · obtain ⟨bytes, archive, names, -, -, -, rfl⟩ := openArchive_eq_ok_iff.mp h
    exact ⟨rfl, nofun⟩

/-- Reading depends on what is closed only in so far as the reader itself is closed, or the image
that it reads through. -/
theorem read_congr {closed closed' : Closed}
    (hself : closed'.contains r.handle = closed.contains r.handle)
    (himage : ∀ image name, r.content = .module image name →
      closed'.contains image.handle = closed.contains image.handle) (e : String) :
    r.read tree closed' e = r.read tree closed e := by
  have hlisted : readListed tree closed' r.content e = readListed tree closed r.content e := by
    cases hcontent : r.content with
    | archive path archive stored => rfl
    | folder root listing => rfl
    | module image name =>
      simp only [readListed, RuntimeImage.read, himage image name hcontent]
  rw [read, read, hself, hlisted]

/-- What could be read through an image cannot be read when the image has been closed. -/
theorem read_of_image_closed {closed closed' : Closed} {image : RuntimeImage} {name : String}
    (hcontent : r.content = .module image name)
    (hself : closed'.contains r.handle = closed.contains r.handle)
    (himage : closed'.contains image.handle = true) {e : String} {bytes : Bytes}
    (h : r.read tree closed e = .ok (some bytes)) :
    r.read tree closed' e =
      .error (.image image.path (.io (.other "runtime image has been closed"))) := by
  unfold read at h ⊢
  split at h
  · cases h
  · next hlisted =>
    rw [if_neg hlisted]
    split at h
    · cases h
    · next hopen =>
      have hopen' : ¬ closed'.contains r.handle = true := by
        rw [hself]
        exact hopen
      rw [if_neg hopen']
      rw [hcontent] at h ⊢
      simp only [readListed, RuntimeImage.read] at h ⊢
      cases hfind : image.find? name e with
      | none =>
        rw [hfind] at h
        cases h
      | some location =>
        rw [hfind] at h
        dsimp only at h ⊢
        by_cases hplain : location.compressed ≠ 0
        · rw [if_pos hplain] at h
          cases h
        · rw [if_neg hplain, if_pos himage]
          rfl

end EntryReader

/-! ## Closing -/

theorem contains_foldl_close (readers : List EntryReader) (closed : Closed) (h : Handle) :
    (readers.foldl (fun closed r => (r.close closed).2) closed).contains h = true ↔
      closed.contains h = true ∨ ∃ r ∈ readers, r.handle = h := by
  induction readers generalizing closed with
  | nil => simp
  | cons r readers ih =>
    rw [List.foldl_cons, ih, EntryReader.close, Closed.contains_close, Bool.or_eq_true,
      decide_eq_true_iff, List.exists_mem_cons_iff, or_comm (a := h = r.handle), or_assoc,
      eq_comm (a := h)]

namespace Configuration

/-- Closing leaves no marks. -/
theorem isMarked_close (c : Configuration) (closed : Closed) (h : Handle) :
    (c.close closed).isMarked h = closed.isMarked h := by
  have hreaders : ∀ (readers : List EntryReader) (closed : Closed),
      (readers.foldl (fun closed r => (r.close closed).2) closed).isMarked h =
        closed.isMarked h := by
    intro readers
    induction readers with
    | nil => exact fun _ => rfl
    | cons r readers ih =>
      intro closed
      rw [List.foldl_cons, ih]
      exact closed.isMarked_close r.handle h
  rw [close, Platform.close, ← hreaders c.readers closed]
  cases c.platform.source with
  | packed image => exact Closed.isMarked_close _ image.handle h
  | exploded root => rfl
  | empty => rfl

/-- What has been closed after a configuration was. -/
theorem contains_close_iff {c : Configuration} {closed : Closed} {h : Handle} :
    (c.close closed).contains h = true ↔
      closed.contains h = true ∨ (∃ r ∈ c.readers, r.handle = h) ∨
        ∃ image, c.platform.source = .packed image ∧ image.handle = h := by
  have hreaders := contains_foldl_close c.readers closed h
  rw [close, Platform.close, ← or_assoc]
  cases hsource : c.platform.source with
  | packed image =>
    dsimp only
    rw [Closed.contains_close, Bool.or_eq_true, decide_eq_true_iff, hreaders, or_comm]
    refine or_congr_right ⟨fun he => ⟨image, rfl, he.symm⟩, ?_⟩
    rintro ⟨image', hsame, he⟩
    obtain rfl := PlatformSource.packed.inj hsame
    exact he.symm
  | exploded root =>
    refine hreaders.trans (or_iff_left ?_).symm
    rintro ⟨image, hsame, -⟩
    cases hsame
  | empty =>
    refine hreaders.trans (or_iff_left ?_).symm
    rintro ⟨image, hsame, -⟩
    cases hsame

end Configuration

/-! ## Handles -/

theorem Platform.classReader_spec {p : Platform} {tree : FileTree} {handle : Handle} {n : String}
    {r : EntryReader} (h : p.classReader tree handle n = .ok r) :
    r.handle = handle ∧
      (r.ReadsFiles ∨ ∃ image, p.source = .packed image ∧ r.content = .module image n) := by
  unfold classReader at h
  split at h
  · next image hsource =>
    split at h
    · obtain rfl := Except.ok.inj h
      exact ⟨rfl, .inr ⟨image, hsource, rfl⟩⟩
    · cases h
  · split at h
    · obtain ⟨hhandle, hfiles⟩ := EntryReader.openFolder_spec h
      exact ⟨hhandle, .inl hfiles⟩
    · cases h
  · cases h

theorem handle_of_openUnit {tree : FileTree} {platform : Platform} {release : Option Nat}
    {handle : Handle} {r : ModuleReference} {u : ModuleUnit}
    (h : openUnit tree platform release handle r = .ok u) : u.reader.handle = handle := by
  have hopen := openedFrom_of_openUnit h
  cases hlocation : r.location with
  | platform => exact (Platform.classReader_spec (hopen.ofPlatform hlocation)).1
  | path p => exact (EntryReader.openPath_spec (hopen.ofPath p hlocation)).1

theorem Artifact.handle_of_openPath {tree : FileTree} {handle : Handle} {path : Path}
    {release : Option Nat} {a : Artifact} (h : openPath tree handle path release = .ok a) :
    a.reader.handle = handle :=
  (EntryReader.openPath_spec (openPath_eq_ok_iff.mp h).1).1

/-- The image of a platform has the handle that the platform was opened with. -/
theorem Platform.handle_of_openChoice {tree : FileTree} {handle : Handle} {choice : PlatformChoice}
    {p : Platform} (h : openChoice tree handle choice = .ok p) {image : RuntimeImage}
    (hsource : p.source = .packed image) : image.handle = handle := by
  cases choice with
  | none =>
    obtain rfl := Except.ok.inj h
    cases hsource
  | home path =>
    rcases Platform.cases_of_openHome h with ⟨opened, hopen, hopened, -⟩ | ⟨names, -, hopened, -⟩
    · obtain rfl := PlatformSource.packed.inj (hopened.symm.trans hsource)
      obtain ⟨content, header, modules, -, -, rfl⟩ := RuntimeImage.openFile_eq_ok_iff.mp hopen
      rfl
    · cases hopened.symm.trans hsource

/-- A platform that is open already was opened as a platform. -/
def BuildPlan.PlatformOpened (plan : BuildPlan) : Prop :=
  ∀ p, plan.platform = some p →
    ∃ tree number choice, Platform.openChoice tree ⟨number, .platform⟩ choice = .ok p

section
variable {plan : BuildPlan} {tree : FileTree} {opening : Nat} {c : Configuration}

/-- The handle of a platform is that of no module. -/
theorem part_of_platform (h : plan.build tree opening = .ok c) (hopened : plan.PlatformOpened)
    {image : RuntimeImage} (hsource : c.platform.source = .packed image) :
    image.handle.part = .platform := by
  obtain ⟨inputs, hbuilt⟩ := exists_builtFrom_of_build h
  have hplatform := (BuildPlan.gather_eq_ok_iff.mp hbuilt.gathered).platform
  rw [← hbuilt.platform] at hplatform
  unfold BuildPlan.openPlatform at hplatform
  cases hgiven : plan.platform with
  | some p =>
    rw [hgiven] at hplatform
    obtain rfl := Except.ok.inj hplatform
    obtain ⟨tree', number, choice, hchoice⟩ := hopened _ hgiven
    rw [Platform.handle_of_openChoice hchoice hsource]
  | none =>
    rw [hgiven] at hplatform
    rw [Platform.handle_of_openChoice hplatform hsource]

/-- What a configuration closes that has the handle of a module is the module of the
configuration. -/
theorem mem_keys_of_mem_readers (h : plan.build tree opening = .ok c) {r : EntryReader}
    (hr : r ∈ c.readers) {n : String} (hpart : r.handle.part = .unit n) : n ∈ c.units.keys := by
  have hkeys := (coherent_of_build h).keys
  obtain ⟨inputs, graph, units, artifacts, hinputs, hgraph, hunits, hartifacts, rfl⟩ :=
    BuildPlan.build_eq_ok_iff.mp h
  have hvalues := BuildPlan.values_assemble hgraph hunits artifacts
  rw [hkeys]
  rcases List.mem_append.mp hr with hr | hr
  · rcases List.mem_append.mp hr with hr | hr
    · obtain ⟨a, ha, rfl⟩ := List.mem_map.mp hr
      have hroots := (BuildPlan.gather_eq_ok_iff.mp hinputs).rootArtifacts
      obtain ⟨⟨path, i⟩, -, hopen⟩ := exists_of_mem_mapM hroots (List.mem_of_mem_filter ha)
      rw [Artifact.handle_of_openPath hopen] at hpart
      cases hpart
    · obtain ⟨a, ha, rfl⟩ := List.mem_map.mp hr
      obtain ⟨⟨path, i⟩, -, hopen⟩ := exists_of_mem_mapM hartifacts ha
      rw [Artifact.handle_of_openPath hopen] at hpart
      cases hpart
  · obtain ⟨u, hu, rfl⟩ := List.mem_map.mp hr
    rw [hvalues] at hu
    obtain ⟨m, hm, hopen⟩ := exists_of_mem_mapM hunits hu
    rw [handle_of_openUnit hopen] at hpart
    obtain rfl := HandlePart.unit.inj hpart
    exact List.mem_map_of_mem (f := fun m => m.reference.name) hm

/-- A resolution opens the modules that are not in the configuration. -/
theorem exists_openUnit_of_resolve (h : c.Coherent) {opening : Nat} {roots : NameSet}
    {units : List ModuleUnit} (hresolve : c.resolve tree opening roots = .ok units)
    {u : ModuleUnit} (hu : u ∈ units) (hnew : u.name ∉ c.units.keys) :
    ∃ r, openUnit tree c.platform c.release ⟨opening, .unit u.name⟩ r = .ok u := by
  have hone : ∀ r, c.unitFor tree opening r = .ok u →
      ∃ r, openUnit tree c.platform c.release ⟨opening, .unit u.name⟩ r = .ok u := by
    intro r hr
    unfold Configuration.unitFor at hr
    split at hr
    · next found hfound =>
      obtain rfl := Except.ok.inj hr
      rw [h.named r.name found hfound] at hnew
      exact absurd (OrderedMap.mem_keys_of_find? hfound) hnew
    · refine ⟨r, ?_⟩
      rw [name_of_openUnit hr]
      exact hr
  unfold Configuration.resolve at hresolve
  split at hresolve
  · obtain ⟨r, -, hr⟩ := exists_of_mem_mapM hresolve hu
    exact hone r hr
  · obtain ⟨graph, -, hgraph⟩ := bind_eq_ok_iff.mp hresolve
    obtain ⟨m, -, hm⟩ := exists_of_mem_mapM hgraph hu
    exact hone m.reference hm

/-- **Modules that are opened later stay open.**  A resolution opens the modules that it needs and
that are not in the configuration.  Closing the configuration leaves the reader of such a module as
it was, open or closed.  What the module reads stays the same too, unless it comes from a packed
platform; then nothing of it can be read any more, for its image is closed with the
configuration. -/
theorem read_close_of_resolve (h : plan.build tree opening = .ok c)
    (hopened : plan.PlatformOpened) {tree' : FileTree} {later : Nat} {roots : NameSet}
    {units : List ModuleUnit} (hresolve : c.resolve tree' later roots = .ok units)
    {u : ModuleUnit} (hu : u ∈ units) (hnew : u.name ∉ c.units.keys) (closed : Closed) :
    u.reader.isClosed (c.close closed) = u.reader.isClosed closed ∧
      ((∀ image, c.platform.source ≠ .packed image) ∨ u.location ≠ "jrt:/" ++ u.name →
        ∀ now e, u.reader.read now (c.close closed) e = u.reader.read now closed e) ∧
      ∀ image, c.platform.source = .packed image → u.location = "jrt:/" ++ u.name →
        ∀ now e bytes, u.reader.read now closed e = .ok (some bytes) →
          u.reader.read now (c.close closed) e =
            .error (.image image.path (.io (.other "runtime image has been closed"))) := by
  obtain ⟨r, hopen⟩ := exists_openUnit_of_resolve (coherent_of_build h) hresolve hu hnew
  have hhandle := handle_of_openUnit hopen
  have hname := name_of_openUnit hopen
  replace hopen := openedFrom_of_openUnit hopen
  have hself : (c.close closed).contains u.reader.handle = closed.contains u.reader.handle := by
    rw [Bool.eq_iff_iff, Configuration.contains_close_iff]
    refine or_iff_left ?_
    rintro (⟨reader, hreader, he⟩ | ⟨image, hsource, he⟩)
    · rw [hhandle] at he
      exact hnew (mem_keys_of_mem_readers h hreader (by rw [he]))
    · have hpart := part_of_platform h hopened hsource
      rw [he, hhandle] at hpart
      cases hpart
  have hfiles : u.reader.ReadsFiles →
      ∀ now e, u.reader.read now (c.close closed) e = u.reader.read now closed e := by
    intro hfiles now e
    exact EntryReader.read_congr hself (fun image name he => absurd he (hfiles image name)) e
  refine ⟨?_, ?_, ?_⟩
  · rw [EntryReader.isClosed, EntryReader.isClosed, hself, Configuration.isMarked_close]
  · intro hout
    apply hfiles
    cases hlocation : r.location with
    | path p => exact (EntryReader.openPath_spec (hopen.ofPath p hlocation)).2
    | platform =>
      have haddress : u.location = "jrt:/" ++ u.name := by
        rw [hopen.location, hname, ModuleReference.address, hlocation]
      rcases (Platform.classReader_spec (hopen.ofPlatform hlocation)).2 with hread | hpacked
      · exact hread
      · obtain ⟨image, hsource, -⟩ := hpacked
        exact (hout.elim (fun hnone => hnone image hsource) fun hne => hne haddress).elim
  · intro image hsource hlocated now e bytes hread
    have hplatform : r.location = .platform := by
      cases hlocation : r.location with
      | platform => rfl
      | path p =>
        rw [hopen.location, ModuleReference.address, hlocation] at hlocated
        exact absurd hlocated (address_ne_platform tree' p u.name)
    have himage : (c.close closed).contains image.handle = true :=
      Configuration.contains_close_iff.mpr (.inr (.inr ⟨image, hsource, rfl⟩))
    have hcontent : u.reader.content = .module image r.name := by
      have hreader := hopen.ofPlatform hplatform
      rw [Platform.classReader, hsource] at hreader
      dsimp only at hreader
      split at hreader
      · obtain he := Except.ok.inj hreader
        rw [← he]
        rfl
      · cases hreader
    exact EntryReader.read_of_image_closed hcontent hself himage hread

end

namespace Shop
open Image

/-- The library and the program, as they are catalogued in the packed home. -/
def packedUnits : Catalog := (Catalog.empty.add declaredLibrary.sanitized).add programDescriptor

/-- The image of the packed home. -/
def packedImage (handle : Handle) : RuntimeImage :=
  imageOf .big homeResources (Platform.packedFile ⟨"/packed"⟩) handle

/-- The packed home, opened. -/
def packedPlatform (handle : Handle) : Platform where
  home := some ⟨"/packed"⟩
  source := .packed (packedImage handle)
  units := packedUnits

theorem read_packedImage (handle : Handle) {closed : Closed} (h : closed.contains handle = false)
    (m e : String) : (packedImage handle).read closed m e = .ok (homeContent m e) :=
  read_imageOf writable_homeResources _ h m e

theorem entries_packedImage (handle : Handle) :
    (packedImage handle).entries "base" = ["base/Item.class", EntryName.moduleInfo] ∧
      (packedImage handle).entries "app" = [EntryName.moduleInfo] := by
  rw [packedImage, entries_imageOf, entries_imageOf]
  decide

theorem moduleNames_packedImage (handle : Handle) :
    (packedImage handle).moduleNames = ["base", "app"] := by
  rw [packedImage, moduleNames_imageOf]
  decide

theorem openHome_packed (handle : Handle) :
    Platform.openHome homesTree handle ⟨"/packed"⟩ = .ok (packedPlatform handle) := by
  have hopen : RuntimeImage.openFile homesTree handle (Platform.packedFile ⟨"/packed"⟩) =
      .ok (packedImage handle) :=
    openFile_eq writable_homeResources (status_packedFile homeModules _) handle
  have hread := readBy_packed fun m e => @read_packedImage handle {} rfl m e
  have hlibrary : Platform.readPacked (packedImage handle) "base" =
      .ok (some declaredLibrary.sanitized) := by
    rw [(hread "base").present _ declaredLibrary rfl parse_library, packedShape,
      (entries_packedImage handle).1]
    rfl
  have hprogram : Platform.readPacked (packedImage handle) "app" =
      .ok (some programDescriptor) := by
    rw [(hread "app").present _ programDescriptor rfl parse_program, packedShape,
      (entries_packedImage handle).2]
    rfl
  rw [PackedHome.openHome_eq packedHome_homesTree, Platform.openPacked, hopen]
  dsimp only
  rw [Catalog.catalogPacked_eq_collect, moduleNames_packedImage]
  simp only [Catalog.collect, hlibrary, hprogram]
  rfl

/-- A build of the library alone. -/
def libraryPlan : BuildPlan where
  choice := .home ⟨"/packed"⟩
  roots := ["base"]

/-- What is gathered for it. -/
def libraryInputs (opening : Nat) : Inputs where
  platform := packedPlatform ⟨opening, .platform⟩
  rootArtifacts := []
  override := none
  application := none
  extra := none
  classPath := []

theorem gathers_library (opening : Nat) :
    libraryPlan.Gathers homesTree opening (libraryInputs opening) where
  platform := openHome_packed _
  rootArtifacts := rfl
  override := rfl
  application := rfl
  extra := rfl
  classPath := rfl

/-- The layers of the build. -/
def libraryLayers : Layers where
  platform := some packedUnits.finder

theorem resolve_library (opening : Nat) :
    resolve (libraryInputs opening).layers.finder
        ((libraryInputs opening).resolutionRoots libraryPlan) =
      .ok { modules := [⟨Catalog.referenceTo declaredLibrary.sanitized, []⟩] } := by
  have hlayers : (libraryInputs opening).layers = libraryLayers := rfl
  have hroots : (libraryInputs opening).resolutionRoots libraryPlan = .ofList ["base"] := rfl
  rw [hlayers, hroots]
  cbv

/-- A module of the packed home, opened. -/
def packedUnit (platform : Handle) (handle : Handle) (d : ModuleDescriptor) : ModuleUnit where
  descriptor := d
  location := "jrt:/" ++ d.name
  isPlatform := true
  reader := .ofModule handle (packedImage platform) d.name

theorem openUnit_packed (platform handle : Handle) {d : ModuleDescriptor}
    (hd : packedUnits.find? d.name = some d) (hm : d.name ∈ ["base", "app"]) :
    openUnit homesTree (packedPlatform platform) none handle (Catalog.referenceTo d) =
      .ok (packedUnit platform handle d) := by
  have hmodule : (packedImage platform).hasModule d.name = true := by
    rw [← moduleNames_packedImage platform] at hm
    exact OrderedMap.contains_iff.mpr hm
  have hreader : (packedPlatform platform).classReader homesTree handle d.name =
      .ok (.ofModule handle (packedImage platform) d.name) := if_pos hmodule
  have hisPlatform : ((packedPlatform platform).find? d.name).isSome = true := by
    rw [Platform.find?, packedPlatform, hd]
    rfl
  have hname : ModuleReference.name ⟨d, .platform⟩ = d.name := rfl
  unfold openUnit
  dsimp only [Catalog.referenceTo]
  rw [hname, hreader, hisPlatform]
  rfl

/-- The configuration of the library alone. -/
def libraryConfiguration (opening : Nat) : Configuration :=
  libraryPlan.assemble (libraryInputs opening)
    { modules := [⟨Catalog.referenceTo declaredLibrary.sanitized, []⟩] }
    [packedUnit ⟨opening, .platform⟩ ⟨opening, .unit "base"⟩ declaredLibrary.sanitized] []

theorem build_library (opening : Nat) :
    libraryPlan.build homesTree opening = .ok (libraryConfiguration opening) := by
  have hunit := openUnit_packed ⟨opening, .platform⟩ ⟨opening, .unit "base"⟩
    (d := declaredLibrary.sanitized) rfl (by decide)
  exact BuildPlan.build_eq_ok_iff.mpr ⟨_, _, _, _,
    BuildPlan.gather_eq_ok_iff.mpr (gathers_library opening), resolve_library opening,
    Steps.mapM_eq_ok_iff.mpr (.cons hunit .nil), rfl, rfl⟩

/-- The program needs the library, which is in the configuration already. -/
theorem resolve_program (opening later : Nat) :
    (libraryConfiguration opening).resolve homesTree later (.ofList ["app"]) =
      .ok [packedUnit ⟨opening, .platform⟩ ⟨later, .unit "app"⟩ programDescriptor,
        packedUnit ⟨opening, .platform⟩ ⟨opening, .unit "base"⟩ declaredLibrary.sanitized] := by
  have hgraph : ModuleAtlas.resolve libraryLayers.finder (.ofList ["app"]) =
      .ok { modules := [⟨Catalog.referenceTo programDescriptor, ["base"]⟩,
        ⟨Catalog.referenceTo declaredLibrary.sanitized, []⟩] } := by
    cbv
  have hunit := openUnit_packed ⟨opening, .platform⟩ ⟨later, .unit "app"⟩
    (d := programDescriptor) rfl (by decide)
  have hmissing : (libraryConfiguration opening).units.find? "app" = none := rfl
  have hopened : (libraryConfiguration opening).unitFor homesTree later
      (Catalog.referenceTo programDescriptor) =
        .ok (packedUnit ⟨opening, .platform⟩ ⟨later, .unit "app"⟩ programDescriptor) := hunit
  have hshared : (libraryConfiguration opening).unitFor homesTree later
      (Catalog.referenceTo declaredLibrary.sanitized) = .ok (packedUnit ⟨opening, .platform⟩
        ⟨opening, .unit "base"⟩ declaredLibrary.sanitized) := rfl
  have hfinder : (libraryConfiguration opening).finder = libraryLayers.finder := rfl
  have hroots : NameSet.isEmpty (.ofList ["app"]) = false := by decide
  rw [Configuration.resolve, hroots, if_neg Bool.false_ne_true, hfinder, hgraph]
  exact Steps.mapM_eq_ok_iff.mpr (.cons hopened (.cons hshared .nil))

/-- The program, opened by a resolution. -/
def laterProgram : ModuleUnit :=
  packedUnit ⟨1, .platform⟩ ⟨2, .unit "app"⟩ programDescriptor

theorem mem_resolve_program {units : List ModuleUnit}
    (h : (libraryConfiguration 1).resolve homesTree 2 (.ofList ["app"]) = .ok units) :
    laterProgram ∈ units ∧ laterProgram.name ∉ (libraryConfiguration 1).units.keys := by
  obtain rfl := Except.ok.inj ((resolve_program 1 2).symm.trans h)
  have hkeys : (libraryConfiguration 1).units.keys = ["base"] := rfl
  rw [hkeys]
  exact ⟨List.mem_cons_self, by decide⟩

theorem read_laterProgram :
    laterProgram.reader.read homesTree {} EntryName.moduleInfo =
      .ok (some (ClassFile.encodeModuleInfo programDescriptor)) :=
  (offers_ofModule (fun m e => @read_packedImage _ {} rfl m e) homesTree _ "app").read _

/-- The program can be read until the configuration of the library is closed. -/
theorem read_close_of_resolve_program :
    laterProgram.reader.isClosed ((libraryConfiguration 1).close {}) = false ∧
      laterProgram.reader.read homesTree ((libraryConfiguration 1).close {}) EntryName.moduleInfo =
        .error (.image (Platform.packedFile ⟨"/packed"⟩)
          (.io (.other "runtime image has been closed"))) := by
  obtain ⟨hmem, hnew⟩ := mem_resolve_program (resolve_program 1 2)
  obtain ⟨hself, -, hpacked⟩ := read_close_of_resolve (build_library 1) nofun
    (resolve_program 1 2) hmem hnew {}
  exact ⟨hself, hpacked _ rfl rfl homesTree _ _ read_laterProgram⟩

/-- So closing a configuration does not leave all that was opened later as it is. -/
theorem not_read_close_of_resolve :
    ¬ ∀ (plan : BuildPlan) (tree : FileTree) (opening : Nat) (c : Configuration),
        plan.build tree opening = .ok c → plan.PlatformOpened →
          ∀ later roots units, c.resolve tree later roots = .ok units →
            ∀ u ∈ units, u.name ∉ c.units.keys →
              ∀ closed e, u.reader.read tree (c.close closed) e = u.reader.read tree closed e := by
  intro h
  obtain ⟨hmem, hnew⟩ := mem_resolve_program (resolve_program 1 2)
  have hsame := h libraryPlan homesTree 1 _ (build_library 1) nofun 2 _ _ (resolve_program 1 2)
    laterProgram hmem hnew {} EntryName.moduleInfo
  have himage : ((libraryConfiguration 1).close {}).contains ⟨1, .platform⟩ = true :=
    Configuration.contains_close_iff.mpr (.inr (.inr ⟨packedImage _, rfl, rfl⟩))
  have hself : ((libraryConfiguration 1).close {}).contains laterProgram.reader.handle = false :=
    rfl
  have hclosed := EntryReader.read_of_image_closed (r := laterProgram.reader) rfl hself himage
    read_laterProgram
  rw [hsame, read_laterProgram] at hclosed
  cases hclosed

end Shop
end ModuleAtlas
