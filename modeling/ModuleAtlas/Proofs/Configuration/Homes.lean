import ModuleAtlas.ClassFile.Writer
import ModuleAtlas.Proofs.Configuration.Agreement

/-! # Packed and exploded homes

A platform home may be packed in a runtime image or exploded into folders.  Two homes of either kind
that hold the same contents are told apart by the order in which their modules and entries are
found, and by what is left out of the descriptors of a packed one.  Nothing else depends on the kind
of home: neither what the platform offers nor what is built over it (`homes_agree`).
-/
namespace ModuleAtlas

/-- **Packed and exploded homes agree.**  If they hold the same contents, and each module is stored
under the name that it declares, one opens if and only if the other does, which is when the
descriptors can be read.  The opened platforms have the modules that have a descriptor, though in
orders of their own.  Their descriptors differ in what sanitizing drops, their default roots are the
same, and the readers of each module list and read what is held.  Plans that differ in nothing but
which of the two is their platform build configurations that are alike, or fail for the same
reason. -/
theorem homes_agree {tree : FileTree} {packed exploded : Path} {holds : HomeContent}
    (hpacked : PackedHome tree packed holds) (hexploded : ExplodedHome tree exploded holds)
    (hnamed : holds.Named) (handle handle' : Handle) :
    ((∃ p, Platform.openChoice tree handle (.home packed) = .ok p) ↔
      ∃ q, Platform.openChoice tree handle' (.home exploded) = .ok q) ∧
    ((∃ q, Platform.openChoice tree handle' (.home exploded) = .ok q) ↔ holds.Readable) ∧
    ∀ p q, Platform.openChoice tree handle (.home packed) = .ok p →
      Platform.openChoice tree handle' (.home exploded) = .ok q →
      p.unitNames.Perm q.unitNames ∧
      (∀ n, n ∈ q.unitNames ↔ ∃ bytes, holds n EntryName.moduleInfo = some bytes) ∧
      (∀ n, p.find? n = (q.find? n).map ModuleDescriptor.sanitized) ∧
      p.defaultRoots.Perm q.defaultRoots ∧
      (∀ n ∈ q.unitNames, ∀ reading reading', ∃ r s,
        p.classReader tree reading n = .ok r ∧ q.classReader tree reading' n = .ok s ∧
          EntryReader.BothRead tree (holds n) r s) ∧
      ∀ (plan plan' : BuildPlan) (opening : Nat), plan.withoutPlatform = plan'.withoutPlatform →
        plan.openPlatform tree opening = .ok p → plan'.openPlatform tree opening = .ok q →
        Steps.Agree Configuration.Alike (plan.build tree opening) (plan'.build tree opening) := by
  obtain ⟨entries, hentries, hopens, hoffers⟩ := hpacked.openHome_spec hnamed handle
  obtain ⟨entries', hentries', hopens', hoffers'⟩ := hexploded.openHome_spec hnamed handle'
  refine ⟨hopens.trans hopens'.symm, hopens', fun p q hp hq => ?_⟩
  have h : p.Agrees tree holds q :=
    Platform.agrees_of_offers (fun m e => (hentries m e).trans (hentries' m e).symm)
      (hoffers p hp) (hoffers' q hq)
  have hreadable : holds.Readable := hopens'.mp ⟨q, hq⟩
  refine ⟨h.perm_unitNames, fun n => (hoffers' q hq).mem_unitNames_iff hreadable, h.find?,
    h.perm_defaultRoots, ?_, fun plan plan' opening hplan => build_agree h hplan⟩
  intro n hn reading reading'
  obtain ⟨d, hd⟩ := Catalog.mem_names_iff.mp hn
  exact h.readers n d hd reading reading'

namespace Shop
open Image

/-- The descriptor of a library. -/
def libraryDescriptor : ModuleDescriptor where
  name := "base"
  version := some "1"
  exports := [{ source := "base" }]

/-- The descriptor of a program that needs the library. -/
def programDescriptor : ModuleDescriptor where
  name := "app"
  requires := [{ name := "base" }]

/-- What the library declares when it is read. -/
def declaredLibrary : ModuleDescriptor :=
  { libraryDescriptor with packages := .ofList ["base"] }

theorem parse_library :
    ClassFile.parseModuleInfo (ClassFile.encodeModuleInfo libraryDescriptor) =
      .ok declaredLibrary := by
  decide

theorem parse_program :
    ClassFile.parseModuleInfo (ClassFile.encodeModuleInfo programDescriptor) =
      .ok programDescriptor := by
  decide

/-- The library and the program as resources. -/
def homeResources : List NewResource :=
  [⟨"base", "base/Item.class", [3]⟩,
    ⟨"base", EntryName.moduleInfo, ClassFile.encodeModuleInfo libraryDescriptor⟩,
    ⟨"app", EntryName.moduleInfo, ClassFile.encodeModuleInfo programDescriptor⟩]

/-- The program and the library in folders. -/
def homeModules : Folder :=
  .folder "app"
    (.file EntryName.moduleInfo (ClassFile.encodeModuleInfo programDescriptor) .empty)
    (.folder "base"
      (.folder "base" (.file "Item.class" [3] .empty)
        (.file EntryName.moduleInfo (ClassFile.encodeModuleInfo libraryDescriptor) .empty))
      .empty)

/-- What the homes hold. -/
def homeContent : HomeContent := fun m e => (lastAdded homeResources m e).map NewResource.content

theorem mem_homeResources {m e : String} {bytes : Bytes} (h : homeContent m e = some bytes) :
    ⟨m, e, bytes⟩ ∈ homeResources := by
  obtain ⟨r, hr, rfl⟩ := Option.map_eq_some_iff.mp h
  have hlisted := List.mem_reverse.mp (List.mem_of_find?_eq_some hr)
  have hname := List.find?_some hr
  rw [Bool.and_eq_true, beq_iff_eq, beq_iff_eq] at hname
  obtain ⟨rfl, rfl⟩ := hname
  exact (List.mem_filter.mp hlisted).1

theorem name_of_homeContent {m : String} {bytes : Bytes}
    (h : homeContent m EntryName.moduleInfo = some bytes) :
    ∃ d, ClassFile.parseModuleInfo bytes = .ok d ∧ d.name = m := by
  rcases List.mem_cons.mp (mem_homeResources h) with he | he
  · have hentry : EntryName.moduleInfo = "base/Item.class" := congrArg NewResource.entry he
    exact absurd hentry (by decide)
  rcases List.mem_cons.mp he with he | he
  · cases he
    exact ⟨_, parse_library, rfl⟩
  · cases List.mem_singleton.mp he
    exact ⟨_, parse_program, rfl⟩

theorem named_homeContent : homeContent.Named := by
  intro m bytes d hbytes hd
  obtain ⟨d', hd', rfl⟩ := name_of_homeContent hbytes
  rw [Except.ok.inj (hd.symm.trans hd')]

theorem readable_homeContent : homeContent.Readable := by
  intro m bytes hbytes
  obtain ⟨d, hd, -⟩ := name_of_homeContent hbytes
  exact ⟨d, hd⟩

theorem plain_homeModules : homeModules.Plain := by decide

theorem ordered_homeModules : homeModules.Ordered := by decide

theorem holds_homeModules : homeModules.Holds homeContent := by
  intro m e bytes
  constructor
  · intro h
    rcases List.mem_cons.mp (mem_homeResources h) with he | he
    · cases he
      exact ⟨[OsText.ofText "base", OsText.ofText "Item.class"], by decide, rfl, by decide⟩
    rcases List.mem_cons.mp he with he | he
    · cases he
      exact ⟨[OsText.ofText EntryName.moduleInfo], by decide, rfl, by decide⟩
    · cases List.mem_singleton.mp he
      exact ⟨[OsText.ofText EntryName.moduleInfo], by decide, rfl, by decide⟩
  · rintro ⟨location, -, hlocate, rfl⟩
    have hwalk := (Folder.mem_walk_iff ordered_homeModules).mpr ⟨List.cons_ne_nil _ _, _, hlocate⟩
    have hfiles : homeModules.walk =
        [["app", EntryName.moduleInfo], ["base", "base", "Item.class"],
          ["base", EntryName.moduleInfo]].map (List.map OsText.ofText) := rfl
    rw [hfiles] at hwalk
    rcases List.mem_cons.mp hwalk with he | hwalk
    · obtain ⟨hm, rfl⟩ := List.cons.inj he
      obtain rfl := OsText.ofText_inj.mp hm
      cases hlocate
      rfl
    rcases List.mem_cons.mp hwalk with he | hwalk
    · obtain ⟨hm, rfl⟩ := List.cons.inj he
      obtain rfl := OsText.ofText_inj.mp hm
      cases hlocate
      rfl
    · obtain ⟨hm, rfl⟩ := List.cons.inj (List.mem_singleton.mp hwalk)
      obtain rfl := OsText.ofText_inj.mp hm
      cases hlocate
      rfl

/-- A file tree with an exploded home and a packed home. -/
def treeOf (modules : Folder) (image : Bytes) : FileTree where
  root := .folder "exploded" (.folder "modules" modules .empty)
    (.folder "packed" (.folder "lib" (.file "modules" image .empty) .empty) .empty)

section
variable (modules : Folder) (image : Bytes)

theorem status_packedFile : (treeOf modules image).status (Platform.packedFile ⟨"/packed"⟩) =
    .ok (.file image) := by
  have hsteps : FileTree.steps (Platform.packedFile ⟨"/packed"⟩) =
      ["packed", "lib", "modules"].map OsText.ofText := by decide
  rw [FileTree.status_eq_follow _ (by decide) (by decide), hsteps]
  simp [FileTree.follow, Folder.find?, Folder.items, treeOf]

theorem status_explodedFolder :
    (treeOf modules image).status (Platform.explodedFolder ⟨"/exploded"⟩) =
      .ok (.folder modules) := by
  have hsteps : FileTree.steps (Platform.explodedFolder ⟨"/exploded"⟩) =
      ["exploded", "modules"].map OsText.ofText := by decide
  rw [FileTree.status_eq_follow _ (by decide) (by decide), hsteps]
  simp [FileTree.follow, Folder.find?, Folder.items, treeOf]

theorem isFile_packedFile_exploded :
    (treeOf modules image).isFile (Platform.packedFile ⟨"/exploded"⟩) = false := by
  have hsteps : FileTree.steps (Platform.packedFile ⟨"/exploded"⟩) =
      ["exploded", "lib", "modules"].map OsText.ofText := by decide
  rw [FileTree.isFile, FileTree.status_eq_follow _ (by decide) (by decide), hsteps]
  simp [FileTree.follow, Folder.find?, Folder.items, treeOf]

end

theorem writable_homeResources : Writable .big homeResources where
  moduleText := by decide
  entryText := by decide
  rooted := by
    intro r hr name he
    have hhead : ∀ r ∈ homeResources, r.entry.toList.head? ≠ some '/' := by decide
    refine absurd ?_ (hhead r hr)
    rw [he, String.toList_append]
    rfl
  ending := by decide
  slots := by decide
  locations := by cbv
  strings := by cbv
  file := by cbv

/-- A file tree with two homes that hold the same. -/
def homesTree : FileTree := treeOf homeModules (write .big homeResources)

theorem packedHome_homesTree : PackedHome homesTree ⟨"/packed"⟩ homeContent :=
  .of_write writable_homeResources (status_packedFile homeModules _)

theorem explodedHome_homesTree : ExplodedHome homesTree ⟨"/exploded"⟩ homeContent where
  notPacked := isFile_packedFile_exploded homeModules _
  folder := ⟨homeModules, status_explodedFolder homeModules _, plain_homeModules,
    ordered_homeModules, holds_homeModules⟩

/-- The program is built alike over both homes, though one of them does not tell the version of the
library. -/
theorem homes_agree_app :
    ∃ p q, Platform.openChoice homesTree ⟨1, .platform⟩ (.home ⟨"/packed"⟩) = .ok p ∧
      Platform.openChoice homesTree ⟨1, .platform⟩ (.home ⟨"/exploded"⟩) = .ok q ∧
      "base" ∈ q.unitNames ∧ p.unitNames.Perm q.unitNames ∧
      (∃ d, p.find? "base" = some d.sanitized ∧ q.find? "base" = some d ∧ d.version = some "1") ∧
      (∃ r s, p.classReader homesTree default "base" = .ok r ∧
        q.classReader homesTree default "base" = .ok s ∧
        r.read homesTree {} "base/Item.class" = .ok (some [3]) ∧
        s.read homesTree {} "base/Item.class" = .ok (some [3])) ∧
      Steps.Agree Configuration.Alike
        (BuildPlan.build { choice := .home ⟨"/packed"⟩, roots := ["app"] } homesTree 1)
        (BuildPlan.build { choice := .home ⟨"/exploded"⟩, roots := ["app"] } homesTree 1) := by
  obtain ⟨hopens, hreadable, hagree⟩ := homes_agree packedHome_homesTree explodedHome_homesTree
    named_homeContent ⟨1, .platform⟩ ⟨1, .platform⟩
  obtain ⟨q, hq⟩ := hreadable.mpr readable_homeContent
  obtain ⟨p, hp⟩ := hopens.mpr ⟨q, hq⟩
  obtain ⟨hnames, hmem, hfind, -, hreaders, hbuild⟩ := hagree p q hp hq
  have hbase : "base" ∈ q.unitNames := (hmem "base").mpr ⟨_, rfl⟩
  obtain ⟨r, s, hr, hs, hread⟩ := hreaders "base" hbase default default
  have hversion : (homeContent.declared? "base").map ModuleDescriptor.version =
      some (some "1") := by decide
  obtain ⟨d, hd, hdversion⟩ := Option.map_eq_some_iff.mp hversion
  obtain ⟨entries, -, -, hoffers⟩ :=
    explodedHome_homesTree.openHome_spec named_homeContent ⟨1, .platform⟩
  have hfound : q.find? "base" = some (d.extendPackages (entries "base")) := by
    rw [(hoffers q hq).find?, hd]
    rfl
  refine ⟨p, q, hp, hq, hbase, hnames, ⟨_, ?_, hfound, hdversion⟩, ⟨r, s, hr, hs, ?_, ?_⟩,
    hbuild _ _ 1 rfl hp hq⟩
  · rw [hfind, hfound]
    rfl
  · exact (hread.read "base/Item.class").1
  · exact (hread.read "base/Item.class").2

end Shop
end ModuleAtlas
