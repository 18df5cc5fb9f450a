import ModuleAtlas.Proofs.Configuration.Homes
import ModuleAtlas.Proofs.Discovery.Declared
import ModuleAtlas.Proofs.Files.Locate

/-! # The subtrees of a platform

A platform is stored in subtrees, which are the modules of an image or the folders in a folder.
Each has a name, and its descriptor declares a name.  The catalog goes by what is declared, and of
the subtrees that declare a name it takes the last (`Platform.collect_of_openHome`); content is
opened by the names of the subtrees.  So a module of the catalog has a subtree that its descriptor
comes from and covers, and this is the subtree that is opened for it if it is stored under the
module's name (`Platform.classReader_of_openHome`).  Nothing makes sure that it is
(`Platform.StoredByName`).
-/
namespace ModuleAtlas
open Steps

theorem OsText.append_ne_empty {t : OsText} (h : t ≠ "") (more : OsText) : t ++ more ≠ "" :=
  fun he => h (congrArg mk (List.append_eq_nil_iff.mp (congrArg octets he)).1)

theorem Path.child_raw_ne_empty {base : Path} (hne : base.raw ≠ "") (name : OsText) :
    (base.child name).raw ≠ "" := by
  rw [child, join]
  split
  · next habsolute =>
    intro hempty
    have hname : isAbsolute ⟨name⟩ = true :=
      (Bool.or_eq_true_iff.mp habsolute).resolve_right fun he => hne (eq_of_beq he)
    rw [isAbsolute, hempty] at hname
    cases hname
  · split
    · exact OsText.append_ne_empty hne name
    · exact OsText.append_ne_empty (OsText.append_ne_empty hne "/") name

theorem Platform.explodedFolder_ne_empty (home : Path) : (explodedFolder home).raw ≠ "" :=
  (home.child_endsInName isName_modules).raw_ne_empty

namespace Platform
variable {tree : FileTree} {handle : Handle} {home : Path} {p : Platform}

/-- The names of the subtrees in order: that of the image's index, or else that of the names. -/
def subtrees (p : Platform) (tree : FileTree) : List OsText :=
  match p.source with
  | .packed image => image.moduleNames.map OsText.ofText
  | .exploded root => (tree.sortedNames root).toOption.getD []
  | .empty => []

/-- The descriptor of a subtree, if it has one. -/
def readSubtree (p : Platform) (tree : FileTree) (handle : Handle) (m : OsText) :
    Except AtlasError (Option ModuleDescriptor) :=
  match p.source with
  | .packed image => readPacked image m.text
  | .exploded root => readExploded tree handle (root.child m)
  | .empty => .ok none

/-- A reader of a subtree. -/
def openSubtree (p : Platform) (tree : FileTree) (handle : Handle) (m : OsText) :
    Except AtlasError EntryReader :=
  match p.source with
  | .packed image => .ok (EntryReader.ofModule handle image m.text)
  | .exploded root => EntryReader.openFolder tree handle (root.child m)
  | .empty => .error (p.unitNotFound m.text)

/-! ## Opening a home -/

/-- What comes of a home that opens. -/
theorem cases_of_openHome (h : openHome tree handle home = .ok p) :
    (∃ image, RuntimeImage.openFile tree handle (packedFile home) = .ok image ∧
        p.source = .packed image ∧
        catalogPacked image .empty image.moduleNames = .ok p.units) ∨
      ∃ names, tree.sortedNames (explodedFolder home) = .ok names ∧
        p.source = .exploded (explodedFolder home) ∧
        catalogExploded tree handle .empty (names.map (explodedFolder home).child) =
          .ok p.units := by
  unfold openHome at h
  split at h
  · left
    unfold openPacked at h
    split at h
    · cases h
    · next image himage =>
      obtain ⟨units, hunits, he⟩ := bind_eq_ok_iff.mp h
      obtain rfl := Except.ok.inj he
      exact ⟨image, himage, rfl, hunits⟩
  · split at h
    · right
      unfold openExploded at h
      split at h
      · cases h
      · next folders hfolders =>
        obtain ⟨names, hnames, rfl⟩ := map_eq_ok_iff.mp hfolders
        obtain ⟨units, hunits, he⟩ := bind_eq_ok_iff.mp h
        obtain rfl := Except.ok.inj he
        exact ⟨names, hnames, rfl, hunits⟩
    · cases h

/-- The catalog of a home is what its subtrees declare. -/
theorem collect_of_openHome (h : openHome tree handle home = .ok p) :
    Catalog.collect (p.readSubtree tree handle) .empty (p.subtrees tree) = .ok p.units := by
  rcases cases_of_openHome h with ⟨image, -, hsource, hunits⟩ | ⟨names, hnames, hsource, hunits⟩
  · have hread : (fun m : String => p.readSubtree tree handle m) = readPacked image := by
      funext m
      rw [readSubtree, hsource]
      exact congrArg (readPacked image) (OsText.text_ofText m)
    rw [subtrees, hsource]
    dsimp only
    rw [Catalog.collect_map, hread, ← Catalog.catalogPacked_eq_collect]
    exact hunits
  · have hread : p.readSubtree tree handle =
        fun m => readExploded tree handle ((explodedFolder home).child m) := by
      funext m
      rw [readSubtree, hsource]
    rw [Catalog.catalogExploded_eq_collect] at hunits
    rw [subtrees, hsource, hread]
    dsimp only
    rw [hnames]
    exact hunits

/-! ## Opening a subtree -/

theorem hasModule_of_readPacked {image : RuntimeImage} {m : String} {d : ModuleDescriptor}
    (h : readPacked image m = .ok (some d)) : image.hasModule m = true := by
  unfold readPacked at h
  split at h
  · cases h
  · cases h
  · next bytes hread =>
    have hentry : EntryName.moduleInfo ∈ image.entries m :=
      (RuntimeImage.mem_entries_iff_of_read hread).mpr ⟨bytes, rfl⟩
    exact RuntimeImage.hasModule_of_mem_entries hentry

/-- The folder of a descriptor can be opened. -/
theorem openFolder_of_readExploded {folder : Path} (hne : folder.raw ≠ "") {d : ModuleDescriptor}
    (h : readExploded tree handle folder = .ok (some d)) (handle' : Handle) :
    tree.isFolder folder = true ∧
      ∃ reader, EntryReader.openFolder tree handle' folder = .ok reader := by
  unfold readExploded at h
  dsimp only at h
  split at h
  · cases h
  · split at h
    · cases h
    · next bytes hbytes =>
      split at h
      · cases h
      · obtain ⟨reader, hreader, -⟩ := bind_eq_ok_iff.mp h
        constructor
        · unfold FileTree.readFile at hbytes
          split at hbytes
          · next hstatus => exact FileTree.isFolder_of_status_child hne isName_moduleInfo hstatus
          · cases hbytes
          · cases hbytes
        · exact ⟨_, EntryReader.openFolder_again hreader handle'⟩

/-- The descriptor of a subtree covers what is opened of the subtree. -/
theorem covers_of_readSubtree {m : OsText} {d : ModuleDescriptor}
    (hread : p.readSubtree tree handle m = .ok (some d)) {handle' : Handle} {r : EntryReader}
    (hr : p.openSubtree tree handle' m = .ok r) : d.Covers r.entries := by
  unfold readSubtree at hread
  unfold openSubtree at hr
  cases hsource : p.source with
  | packed image =>
    rw [hsource] at hread hr
    obtain rfl := Except.ok.inj hr
    exact covers_of_readPacked hread
  | exploded root =>
    rw [hsource] at hread hr
    exact covers_of_readExploded hread hr
  | empty =>
    rw [hsource] at hr
    cases hr

/-- A subtree with a descriptor can be opened. -/
theorem exists_openSubtree (h : openHome tree handle home = .ok p) {m : OsText}
    {d : ModuleDescriptor} (hread : p.readSubtree tree handle m = .ok (some d))
    (handle' : Handle) :
    ∃ reader, p.openSubtree tree handle' m = .ok reader ∧
      ∀ n : String, m = n → p.classReader tree handle' n = .ok reader := by
  rcases cases_of_openHome h with ⟨image, -, hsource, -⟩ | ⟨names, -, hsource, -⟩
  · simp only [readSubtree, hsource] at hread
    simp only [openSubtree, classReader, hsource]
    refine ⟨_, rfl, ?_⟩
    rintro n rfl
    rw [OsText.text_ofText] at hread ⊢
    rw [if_pos (hasModule_of_readPacked hread)]
  · simp only [readSubtree, hsource] at hread
    have hne := Path.child_raw_ne_empty (explodedFolder_ne_empty home) m
    obtain ⟨hfolder, reader, hreader⟩ := openFolder_of_readExploded hne hread handle'
    simp only [openSubtree, classReader, hsource]
    refine ⟨reader, hreader, ?_⟩
    rintro n rfl
    rw [if_pos hfolder, hreader]

/-- What is opened for a name is the subtree of the name. -/
theorem openSubtree_of_classReader {n : String} {reader : EntryReader}
    (h : p.classReader tree handle n = .ok reader) : p.openSubtree tree handle n = .ok reader := by
  unfold classReader at h
  unfold openSubtree
  cases hsource : p.source with
  | packed image =>
    rw [hsource] at h
    dsimp only
    rw [OsText.text_ofText]
    exact (ite_eq_iff.mp h).elim And.right fun hmissing => nomatch hmissing.2
  | exploded root =>
    rw [hsource] at h
    exact (ite_eq_iff.mp h).elim And.right fun hmissing => nomatch hmissing.2
  | empty =>
    rw [hsource] at h
    cases h

/-! ## Subtrees stored by name -/

/-- Every module of the platform that has a descriptor is stored under the name that it declares. -/
def StoredByName (p : Platform) (tree : FileTree) : Prop :=
  match p.source with
  | .packed image => ∀ m ∈ image.moduleNames, ∀ d, readPacked image m = .ok (some d) → d.name = m
  | .exploded root => ∀ names, tree.listFolder root = .ok names → ∀ m ∈ names, ∀ handle d,
      readExploded tree handle (root.child m) = .ok (some d) → m = OsText.ofText d.name
  | .empty => True

theorem StoredByName.eq_ofText (hstored : p.StoredByName tree) {m : OsText}
    (hm : m ∈ p.subtrees tree) {d : ModuleDescriptor}
    (hread : p.readSubtree tree handle m = .ok (some d)) : m = OsText.ofText d.name := by
  unfold StoredByName at hstored
  unfold subtrees at hm
  unfold readSubtree at hread
  cases hsource : p.source with
  | packed image =>
    rw [hsource] at hstored hm hread
    obtain ⟨name, hname, rfl⟩ := List.mem_map.mp hm
    dsimp only at hread
    rw [OsText.text_ofText] at hread
    rw [hstored name hname d hread]
  | exploded root =>
    rw [hsource] at hstored hm hread
    dsimp only at hm
    rw [FileTree.sortedNames] at hm
    cases hnames : tree.listFolder root with
    | error e =>
      rw [hnames] at hm
      cases hm
    | ok names =>
      rw [hnames] at hm
      exact hstored names hnames m (List.mem_mergeSort.mp hm) handle d hread
  | empty =>
    rw [hsource] at hm
    cases hm

/-- What an opened platform has under a name covers what it opens under the name. -/
theorem covers_of_openChoice {choice : PlatformChoice}
    (hopen : openChoice tree handle choice = .ok p) (hstored : p.StoredByName tree) {n : String}
    {d : ModuleDescriptor} (hd : p.find? n = some d) {handle' : Handle} {r : EntryReader}
    (hr : p.classReader tree handle' n = .ok r) : d.Covers r.entries := by
  cases choice with
  | none =>
    obtain rfl := Except.ok.inj hopen
    cases hd
  | home home =>
    rcases Catalog.exists_read_of_find? (collect_of_openHome hopen) hd with
      hempty | ⟨m, hm, hread⟩
    · cases hempty
    obtain rfl := Catalog.name_of_find? hd
    obtain rfl := hstored.eq_ofText hm hread
    exact covers_of_readSubtree hread (openSubtree_of_classReader hr)

/-- **Content is opened where it is stored.**  Each module that is catalogued at a home has a
subtree there, the last one that declares its name.  The descriptor of the module comes from the
subtree, which can be opened at any time, and it has the packages of all classes in there.  If the
subtree is stored under the module's name, then it is what is opened for the module.  For any name
there is nothing else to be opened than the subtree that is stored under the name, whatever that
declares. -/
theorem classReader_of_openHome (h : openHome tree handle home = .ok p) {n : String}
    {d : ModuleDescriptor} (hd : p.find? n = some d) :
    (∃ before m after, p.subtrees tree = before ++ m :: after ∧
      p.readSubtree tree handle m = .ok (some d) ∧
      (∀ later ∈ after, ∀ d', p.readSubtree tree handle later = .ok (some d') → d'.name ≠ n) ∧
      ∀ handle', ∃ reader, p.openSubtree tree handle' m = .ok reader ∧ d.Covers reader.entries ∧
        (m = OsText.ofText n → p.classReader tree handle' n = .ok reader)) ∧
    ∀ handle' reader, p.classReader tree handle' n = .ok reader →
      p.openSubtree tree handle' n = .ok reader := by
  constructor
  · rcases Catalog.exists_last_of_find? (collect_of_openHome h) hd with
      ⟨hempty, -⟩ | ⟨before, m, after, hsubtrees, hread, hlast⟩
    · cases hempty
    refine ⟨before, m, after, hsubtrees, hread, hlast, fun handle' => ?_⟩
    obtain ⟨reader, hopen, hclass⟩ := exists_openSubtree h hread handle'
    exact ⟨reader, hopen, covers_of_readSubtree hread hopen, hclass n⟩
  · intro handle' reader hreader
    exact openSubtree_of_classReader hreader

end Platform

namespace Shop

/-- The library in a folder of its name, and the program in a folder of another name. -/
def cellarModules : Folder :=
  .folder "base" (.file EntryName.moduleInfo (ClassFile.encodeModuleInfo libraryDescriptor) .empty)
    (.folder "lib"
      (.file EntryName.moduleInfo (ClassFile.encodeModuleInfo programDescriptor) .empty) .empty)

/-- A file tree with a home that has these folders. -/
def cellarTree : FileTree := treeOf cellarModules []

theorem folderAt_cellar :
    cellarTree.FolderAt (Platform.explodedFolder ⟨"/exploded"⟩) cellarModules where
  endsInName := Path.child_endsInName _ isName_modules
  status := status_explodedFolder cellarModules []
  plain := by decide
  ordered := by decide

/-- A folder that has nothing but a descriptor is read. -/
theorem readExploded_cellar (handle : Handle) {m : OsText} (hm : IsName m) {bytes : Bytes}
    (hfolder : cellarModules.locate [m] = some (.folder (.file EntryName.moduleInfo bytes .empty)))
    {d : ModuleDescriptor} (hparse : ClassFile.parseModuleInfo bytes = .ok d) :
    Platform.readExploded cellarTree handle
        ((Platform.explodedFolder ⟨"/exploded"⟩).child m) =
      .ok (some (d.extendPackages [EntryName.moduleInfo])) := by
  have hat := folderAt_cellar.below hm.location hfolder
  have hfile := (hat.isFile_iff isName_moduleInfo.location).mpr ⟨bytes, rfl⟩
  have hlocate : Folder.locate (.file EntryName.moduleInfo bytes .empty)
      [OsText.ofText EntryName.moduleInfo] = some (.file bytes) := rfl
  have hread := hat.readFile_eq isName_moduleInfo.location hlocate
  have hwalk := folderAt_cellar.walk_below hm.location hfolder
  rw [Path.below_singleton] at hfile hread hwalk
  rw [Path.below_singleton] at hfile hread
  rw [Platform.readExploded, hfile, hread]
  dsimp only
  rw [hparse, EntryReader.openFolder, hwalk]
  rfl

/-- The platform at the home. -/
def cellarPlatform : Platform where
  home := some ⟨"/exploded"⟩
  source := .exploded (Platform.explodedFolder ⟨"/exploded"⟩)
  units := (Catalog.empty.add declaredLibrary).add programDescriptor

theorem readExploded_base (handle : Handle) :
    Platform.readExploded cellarTree handle ((Platform.explodedFolder ⟨"/exploded"⟩).child "base") =
      .ok (some declaredLibrary) :=
  readExploded_cellar handle (by decide) rfl parse_library

theorem readExploded_lib (handle : Handle) :
    Platform.readExploded cellarTree handle ((Platform.explodedFolder ⟨"/exploded"⟩).child "lib") =
      .ok (some programDescriptor) :=
  readExploded_cellar handle (by decide) rfl parse_program

theorem openHome_cellar (handle : Handle) :
    Platform.openHome cellarTree handle ⟨"/exploded"⟩ = .ok cellarPlatform := by
  have hnotPacked : cellarTree.isFile (Platform.packedFile ⟨"/exploded"⟩) = false :=
    isFile_packedFile_exploded cellarModules []
  have hnames : cellarModules.names = ["base", "lib"].map OsText.ofText := rfl
  rw [ExplodedHome.openHome_eq_collect hnotPacked folderAt_cellar.status,
    folderAt_cellar.ordered.mergeSort_names, hnames, Catalog.collect_map]
  simp only [Catalog.collect, readExploded_base, readExploded_lib]
  rfl

theorem subtrees_cellar :
    cellarPlatform.subtrees cellarTree = ["base", "lib"].map OsText.ofText := by
  rw [Platform.subtrees, cellarPlatform]
  dsimp only
  rw [FileTree.sortedNames, FileTree.listFolder, folderAt_cellar.status]
  exact folderAt_cellar.ordered.mergeSort_names

/-- What is opened for the library is the subtree that its descriptor comes from. -/
theorem classReader_of_openHome_cellar :
    ∃ reader, cellarPlatform.classReader cellarTree default "base" = .ok reader ∧
      declaredLibrary.Covers reader.entries := by
  obtain ⟨⟨before, m, after, hsubtrees, hread, -, hopen⟩, -⟩ :=
    Platform.classReader_of_openHome (openHome_cellar default) (n := "base") (d := declaredLibrary)
      rfl
  have hm : m ∈ ["base", "lib"].map OsText.ofText := by
    rw [← subtrees_cellar, hsubtrees]
    exact List.mem_append_right before List.mem_cons_self
  have hbase : m = OsText.ofText "base" := by
    rcases List.mem_cons.mp hm with hbase | hlib
    · exact hbase
    · obtain rfl := List.mem_singleton.mp hlib
      have hdeclared := (readExploded_lib default).symm.trans hread
      exact absurd (congrArg ModuleDescriptor.name (Option.some.inj (Except.ok.inj hdeclared)))
        (by decide)
  obtain ⟨reader, -, hcovers, hclass⟩ := hopen default
  exact ⟨reader, hclass hbase, hcovers⟩

/-- Not every module of a catalog can be opened: the program is not stored under its name. -/
theorem not_classReader_of_openHome :
    ¬ ∀ (tree : FileTree) (handle : Handle) (home : Path) (p : Platform),
        Platform.openHome tree handle home = .ok p →
          ∀ n ∈ p.unitNames, ∃ reader, p.classReader tree handle n = .ok reader := by
  intro h
  have hmember : "app" ∈ cellarPlatform.unitNames := by decide
  obtain ⟨reader, hreader⟩ := h cellarTree default ⟨"/exploded"⟩ cellarPlatform
    (openHome_cellar default) "app" hmember
  have hlocate : cellarModules.locate [OsText.ofText "app"] = none := rfl
  have hstatus :=
    folderAt_cellar.toOption_lookup (by decide : IsLocation [OsText.ofText "app"]) true
  rw [hlocate, Path.below_singleton] at hstatus
  have hfolder : cellarTree.isFolder ((Platform.explodedFolder ⟨"/exploded"⟩).child "app") =
      false := by
    unfold FileTree.isFolder FileTree.status
    cases hnode : cellarTree.lookup true ((Platform.explodedFolder ⟨"/exploded"⟩).child "app") with
    | error e => rfl
    | ok node =>
      rw [hnode] at hstatus
      cases hstatus
  rw [Platform.classReader, cellarPlatform] at hreader
  dsimp only at hreader
  rw [hfolder] at hreader
  cases hreader

end Shop
end ModuleAtlas
