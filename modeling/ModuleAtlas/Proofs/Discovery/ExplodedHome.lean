import ModuleAtlas.Proofs.Discovery.HomeContent
import ModuleAtlas.Proofs.Files.Locate

/-! # Exploded homes

An exploded home has a folder for each of its modules, and the entries of a module are the files
below its folder, named by their locations.  It opens if the descriptors in the folders can be read,
each module declares its descriptor as it is, and the readers of the modules read from the folders
(`ExplodedHome.openHome_spec`).
-/
namespace ModuleAtlas

/-- The files below the folder of each module are the contents that the module holds. -/
def Folder.Holds (modules : Folder) (holds : HomeContent) : Prop :=
  ∀ m e bytes, holds m e = some bytes ↔ ∃ location, location ≠ [] ∧
    modules.locate (OsText.ofText m :: location) = some (.file bytes) ∧ e = locationText location

/-- An exploded home has no image, but a folder of modules, without links at any depth. -/
structure ExplodedHome (tree : FileTree) (home : Path) (holds : HomeContent) : Prop where
  notPacked : tree.isFile (Platform.packedFile home) = false
  folder : ∃ modules, tree.status (Platform.explodedFolder home) = .ok (.folder modules) ∧
    modules.Plain ∧ modules.Ordered ∧ modules.Holds holds

theorem isName_moduleInfo : IsName EntryName.moduleInfo := by decide

theorem isName_modules : IsName "modules" := by decide

/-- What is shown for the files of a plain folder is different. -/
theorem Folder.Plain.nodup_map_locationText {f : Folder} (hplain : f.Plain) (hordered : f.Ordered) :
    (f.walk.map locationText).Nodup := by
  have hnames : ∀ location ∈ f.walk, IsLocation location ∧ ∀ name ∈ location, name.IsText := by
    intro location hwalk
    obtain ⟨hne, bytes, hfile⟩ := (Folder.mem_walk_iff hordered).mp hwalk
    have hnames := hplain.isName_of_mem_location hfile
    exact ⟨⟨hne, fun n hn => (hnames n hn).1⟩, fun n hn => (hnames n hn).2⟩
  exact hordered.nodup_walk.map_on fun a ha b hb he =>
    (hnames a ha).1.eq_of_locationText (hnames b hb).1 (hnames a ha).2 (hnames b hb).2 he

/-- A folder below a folder is opened by its path. -/
theorem FileTree.FolderAt.openPath_below {tree : FileTree} {base : Path} {f inner : Folder}
    {location : List OsText} (h : tree.FolderAt base f) (hloc : IsLocation location)
    (hinner : f.locate location = some (.folder inner)) (handle : Handle) (release : Option Nat) :
    EntryReader.openPath tree handle (base.below location) release =
      .ok ⟨.folder (base.below location) (inner.walk.map locationText), handle⟩ := by
  have hat := h.below hloc hinner
  rw [EntryReader.openPath, if_pos (h.isFolder_of_locate hloc hinner), EntryReader.openFolder,
    h.walk_below hloc hinner]
  dsimp only
  rw [distinct_of_nodup (hat.plain.nodup_map_locationText hat.ordered)]

/-! ## The folder of a module -/

/-- The entries in the folder of a module. -/
def folderEntries (modules : Folder) (m : String) : List String :=
  match modules.find? m with
  | some (.folder inner) => inner.walk.map locationText
  | _ => []

section
variable {modules : Folder} {holds : HomeContent} (hholds : modules.Holds holds)
include hholds

/-- A module that holds something has a folder. -/
theorem exists_find?_of_holds {m e : String} {bytes : Bytes} (h : holds m e = some bytes) :
    ∃ inner, modules.find? m = some (.folder inner) := by
  obtain ⟨location, hne, hlocate, -⟩ := (hholds m e bytes).mp h
  rw [Folder.locate] at hlocate
  cases hfind : modules.find? m with
  | none => rw [hfind] at hlocate; cases hlocate
  | some node =>
    rw [hfind] at hlocate
    cases node with
    | folder inner => exact ⟨inner, rfl⟩
    | file content => cases (if_neg hne).symm.trans hlocate
    | link target => cases (if_neg hne).symm.trans hlocate

variable (hplain : modules.Plain)
include hplain

/-- The folder is at the location that the name of the module is. -/
theorem exists_locate_of_holds {m e : String} {bytes : Bytes} (h : holds m e = some bytes) :
    ∃ inner, modules.find? m = some (.folder inner) ∧ IsLocation [OsText.ofText m] ∧
      modules.locate [OsText.ofText m] = some (.folder inner) := by
  obtain ⟨inner, hinner⟩ := exists_find?_of_holds hholds h
  have hname : IsName m := (hplain.of_mem_items (Folder.mem_items_of_find? hinner)).1.1
  refine ⟨inner, hinner, hname.location, ?_⟩
  rw [Folder.locate, hinner]
  rfl

theorem holds_iff_of_folder {m e : String} {inner : Folder} {bytes : Bytes}
    (hinner : modules.find? m = some (.folder inner)) :
    holds m e = some bytes ↔ ∃ location, IsLocation location ∧ (∀ n ∈ location, n.IsText) ∧
      inner.locate location = some (.file bytes) ∧ e = locationText location := by
  rw [hholds]
  refine exists_congr fun location => ?_
  have hlocate : modules.locate (OsText.ofText m :: location) = inner.locate location := by
    rw [Folder.locate, hinner]
  rw [hlocate]
  constructor
  · rintro ⟨hne, hfile, he⟩
    have hnames := (hplain.of_find? hinner).isName_of_mem_location hfile
    exact ⟨⟨hne, fun n hn => (hnames n hn).1⟩, fun n hn => (hnames n hn).2, hfile, he⟩
  · rintro ⟨hloc, -, hfile, he⟩
    exact ⟨hloc.ne_nil, hfile, he⟩

/-- The descriptor of a module is a file in its folder. -/
theorem holds_moduleInfo_iff {m : String} {bytes : Bytes} :
    holds m EntryName.moduleInfo = some bytes ↔
      modules.locate [OsText.ofText m, OsText.ofText EntryName.moduleInfo] =
        some (.file bytes) := by
  have htext : locationText [OsText.ofText EntryName.moduleInfo] = EntryName.moduleInfo := by
    rw [locationText, List.map_singleton, String.intercalate_singleton, OsText.text_ofText]
  rw [hholds]
  constructor
  · rintro ⟨location, hne, hlocate, he⟩
    have hnames := hplain.isName_of_mem_location hlocate
    have hloc : IsLocation location :=
      ⟨hne, fun n hn => (hnames n (List.mem_cons_of_mem _ hn)).1⟩
    have hfile : IsLocation [OsText.ofText EntryName.moduleInfo] := isName_moduleInfo.location
    rw [hfile.eq_of_locationText hloc
      (List.forall_mem_singleton.mpr (OsText.isText_ofText EntryName.moduleInfo))
      (fun n hn => (hnames n (List.mem_cons_of_mem _ hn)).2) (htext.trans he)]
    exact hlocate
  · intro hlocate
    exact ⟨[OsText.ofText EntryName.moduleInfo], List.cons_ne_nil _ _, hlocate, htext.symm⟩

variable (hordered : modules.Ordered)
include hordered

theorem mem_folderEntries_iff (m e : String) :
    e ∈ folderEntries modules m ↔ ∃ bytes, holds m e = some bytes := by
  constructor
  · intro he
    unfold folderEntries at he
    split at he
    · next inner hinner =>
      obtain ⟨location, hwalk, rfl⟩ := List.mem_map.mp he
      have hinnerOrdered := hordered.of_mem_items (Folder.mem_items_of_find? hinner)
      obtain ⟨hne, bytes, hfile⟩ := (Folder.mem_walk_iff hinnerOrdered).mp hwalk
      have hnames := (hplain.of_find? hinner).isName_of_mem_location hfile
      exact ⟨bytes, (holds_iff_of_folder hholds hplain hinner).mpr ⟨location,
        ⟨hne, fun n hn => (hnames n hn).1⟩, fun n hn => (hnames n hn).2, hfile, rfl⟩⟩
    · exact absurd he List.not_mem_nil
  · rintro ⟨bytes, hbytes⟩
    obtain ⟨inner, hinner⟩ := exists_find?_of_holds hholds hbytes
    obtain ⟨location, hloc, -, hfile, rfl⟩ := (holds_iff_of_folder hholds hplain hinner).mp hbytes
    have hinnerOrdered := hordered.of_mem_items (Folder.mem_items_of_find? hinner)
    rw [folderEntries, hinner]
    exact List.mem_map_of_mem ((Folder.mem_walk_iff hinnerOrdered).mpr ⟨hloc.ne_nil, bytes, hfile⟩)

omit hholds in
theorem nodup_folderEntries (m : String) : (folderEntries modules m).Nodup := by
  unfold folderEntries
  split
  · next inner hinner =>
    exact (hplain.of_find? hinner).nodup_map_locationText
      (hordered.of_mem_items (Folder.mem_items_of_find? hinner))
  · exact List.nodup_nil

end

/-! ## Opening -/

section
variable {tree : FileTree} {base : Path} {modules : Folder} {holds : HomeContent}
  (hfolder : tree.FolderAt base modules) (hholds : modules.Holds holds)
include hfolder hholds

theorem openFolder_eq (handle : Handle) {m e : String} {bytes : Bytes}
    (h : holds m e = some bytes) :
    EntryReader.openFolder tree handle (base.child m) =
      .ok ⟨.folder (base.child m) (folderEntries modules m), handle⟩ := by
  obtain ⟨inner, hinner, hloc, hlocate⟩ := exists_locate_of_holds hholds hfolder.plain h
  have hwalk : tree.walk (base.child m) = .ok inner.walk := by
    rw [← base.below_singleton]
    exact hfolder.walk_below hloc hlocate
  have hentries : folderEntries modules m = inner.walk.map locationText := by
    rw [folderEntries, hinner]
  rw [EntryReader.openFolder, hwalk, ← distinct_of_nodup
    (nodup_folderEntries hfolder.plain hfolder.ordered m), hentries]

theorem readBy_exploded (handle : Handle) {m : String} (hm : IsName m) :
    holds.ReadBy (fun m d => d.extendPackages (folderEntries modules m))
      (fun m => Platform.readExploded tree handle (base.child m)) m := by
  let info : List OsText := [OsText.ofText m, OsText.ofText EntryName.moduleInfo]
  have hloc : IsLocation info := .cons hm (List.forall_mem_singleton.mpr isName_moduleInfo)
  have hpath : (base.child m).child EntryName.moduleInfo = base.below info := by
    rw [← base.below_singleton, ← Path.below_singleton]
    exact hfolder.endsInName.below_below hm.location isName_moduleInfo.location
  have hlocate : ∀ bytes, holds m EntryName.moduleInfo = some bytes →
      modules.locate info = some (.file bytes) :=
    fun bytes => (holds_moduleInfo_iff hholds hfolder.plain).mp
  have hisFile : ∀ bytes, holds m EntryName.moduleInfo = some bytes →
      tree.isFile (base.below info) = true :=
    fun bytes hbytes => (hfolder.isFile_iff hloc).mpr ⟨bytes, hlocate bytes hbytes⟩
  have hreadFile : ∀ bytes, holds m EntryName.moduleInfo = some bytes →
      tree.readFile (base.below info) = .ok bytes :=
    fun bytes hbytes => hfolder.readFile_eq hloc (hlocate bytes hbytes)
  constructor
  case absent =>
    intro hnone
    have hnoFile : tree.isFile (base.below info) = false := by
      rw [Bool.eq_false_iff, ne_eq, hfolder.isFile_iff hloc]
      rintro ⟨bytes, hfile⟩
      rw [(holds_moduleInfo_iff hholds hfolder.plain).mpr hfile] at hnone
      cases hnone
    rw [Platform.readExploded, hpath, hnoFile]
    rfl
  case present =>
    intro bytes d hbytes hd
    rw [Platform.readExploded, hpath, hisFile bytes hbytes, hreadFile bytes hbytes]
    dsimp only
    rw [hd, openFolder_eq hfolder hholds handle hbytes]
    rfl
  case broken =>
    intro bytes e hbytes he
    rw [Platform.readExploded, hpath, hisFile bytes hbytes, hreadFile bytes hbytes]
    dsimp only
    rw [he]
    exact ⟨_, rfl⟩

theorem offers_openFolder (handle : Handle) {m e : String} {bytes : Bytes}
    (h : holds m e = some bytes) :
    (EntryReader.mk (.folder (base.child m) (folderEntries modules m)) handle).Offers tree
      (holds m) := by
  obtain ⟨inner, hinner, hm, -⟩ := exists_locate_of_holds hholds hfolder.plain h
  have hmem := mem_folderEntries_iff hholds hfolder.plain hfolder.ordered m
  refine .of_readListed (nodup_folderEntries hfolder.plain hfolder.ordered m) hmem fun e he => ?_
  obtain ⟨bytes, hbytes⟩ := (hmem e).mp he
  obtain ⟨location, hloc, htexts, hfile, rfl⟩ :=
    (holds_iff_of_folder hholds hfolder.plain hinner).mp hbytes
  have hlocate : modules.locate (OsText.ofText m :: location) = some (.file bytes) := by
    rw [Folder.locate, hinner]
    exact hfile
  have hpath : (base.child m).child (locationText location) =
      base.below (OsText.ofText m :: location) := by
    rw [Path.child_locationText _ htexts, ← base.below_singleton]
    exact hfolder.endsInName.below_below hm hloc
  have hcontent : tree.readFile (base.below (OsText.ofText m :: location)) = .ok bytes :=
    hfolder.readFile_eq (.cons (hm.names _ List.mem_cons_self) hloc.names) hlocate
  unfold EntryReader.readListed
  dsimp only
  rw [hpath, hcontent, hbytes]

/-- A platform with the folders opens a reader of each module that holds something. -/
theorem exists_classReader_exploded {p : Platform} (hsource : p.source = .exploded base)
    (handle : Handle) {m e : String} {bytes : Bytes} (h : holds m e = some bytes) :
    ∃ reader, p.classReader tree handle m = .ok reader ∧ reader.Offers tree (holds m) := by
  obtain ⟨inner, -, hm, hlocate⟩ := exists_locate_of_holds hholds hfolder.plain h
  have hisFolder : tree.isFolder (base.child m) = true := by
    rw [← base.below_singleton]
    exact hfolder.isFolder_of_locate hm hlocate
  refine ⟨_, ?_, offers_openFolder hfolder hholds handle h⟩
  rw [Platform.classReader, hsource]
  dsimp only
  rw [if_pos hisFolder]
  exact openFolder_eq hfolder hholds handle h

end

namespace ExplodedHome
variable {tree : FileTree} {home : Path} {holds : HomeContent}

/-- Opening collects what is in the folders, in the order of their names. -/
theorem openHome_eq_collect {modules : Folder}
    (hnotPacked : tree.isFile (Platform.packedFile home) = false)
    (hstatus : tree.status (Platform.explodedFolder home) = .ok (.folder modules))
    (handle : Handle) :
    Platform.openHome tree handle home =
      (Catalog.collect
        (fun m => Platform.readExploded tree handle ((Platform.explodedFolder home).child m))
        .empty modules.names.mergeSort).map fun units =>
          { home := some home, source := .exploded (Platform.explodedFolder home), units } := by
  rw [Platform.openHome, hnotPacked, if_neg Bool.false_ne_true, FileTree.isFolder, hstatus,
    if_pos rfl, Platform.openExploded, FileTree.sortedChildren, FileTree.sortedNames,
    FileTree.listFolder, hstatus]
  dsimp only [Except.map]
  rw [Catalog.catalogExploded_eq_collect]
  rfl

/-- An exploded home opens if its descriptors can be read, and then it offers what it holds. -/
theorem openHome_spec (h : ExplodedHome tree home holds) (hnamed : holds.Named) (handle : Handle) :
    ∃ entries : String → List String,
      (∀ m e, e ∈ entries m ↔ ∃ bytes, holds m e = some bytes) ∧
      ((∃ p, Platform.openHome tree handle home = .ok p) ↔ holds.Readable) ∧
      ∀ p, Platform.openHome tree handle home = .ok p →
        p.Offers tree holds fun m d => d.extendPackages (entries m) := by
  obtain ⟨hnotPacked, modules, hstatus, hplain, hordered, hholds⟩ := h
  have hfolder : tree.FolderAt (Platform.explodedFolder home) modules :=
    ⟨Path.child_endsInName home isName_modules, hstatus, hplain, hordered⟩
  -- the folders have texts as their names
  let names := modules.names.map OsText.text
  have hofText : names.map OsText.ofText = modules.names :=
    OsText.map_ofText_map_text fun m hm => (hplain.isName_of_mem_names hm).2
  have hread : ∀ m ∈ names, holds.ReadBy (fun m d => d.extendPackages (folderEntries modules m))
      (fun m => Platform.readExploded tree handle ((Platform.explodedFolder home).child m)) m := by
    intro m hm
    have hmem : OsText.ofText m ∈ modules.names := hofText ▸ List.mem_map_of_mem hm
    exact readBy_exploded hfolder hholds handle (hplain.isName_of_mem_names hmem).1
  have hnames : ∀ m bytes, holds m EntryName.moduleInfo = some bytes → m ∈ names := by
    intro m bytes hm
    obtain ⟨inner, hinner⟩ := exists_find?_of_holds hholds hm
    have hmem : OsText.ofText m ∈ modules.names :=
      List.mem_map_of_mem (f := Prod.fst) (Folder.mem_items_of_find? hinner)
    rw [← OsText.text_ofText m]
    exact List.mem_map_of_mem hmem
  have hnodup : names.Nodup := .of_map OsText.ofText (hofText ▸ hordered.nodup_names)
  have hopen := openHome_eq_collect hnotPacked hstatus handle
  rw [hordered.mergeSort_names, ← hofText, Catalog.collect_map] at hopen
  exact ⟨folderEntries modules, mem_folderEntries_iff hholds hplain hordered,
    Platform.opens_of_collect hopen hread hnames hnodup hnamed (fun m d => rfl) (fun c => rfl)
      fun c m e bytes hm handle => exists_classReader_exploded hfolder hholds rfl handle hm⟩

end ExplodedHome
end ModuleAtlas
