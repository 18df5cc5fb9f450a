import ModuleAtlas.Proofs.Configuration.Homes
import ModuleAtlas.Proofs.Ownership.Additions

/-! # The packages of classes

The packages of the classes among some entries are collected twice: to index an artifact, and to
extend the descriptor of a module.  The two collections leave out the unnamed package and the
descriptor of the module in ways of their own.  An index passes over the one entry that is the
descriptor, and a module passes over every entry that ends like it, in whatever folder it stands.

So a module declares no package that an index would not have, and it lacks one exactly where nothing
but an entry with that ending stands in a package (`Artifact.packages_agree`).
-/
namespace ModuleAtlas
open Steps

namespace EntryName

/-- What ends like a descriptor is a class. -/
theorem isClass_of_endsWith_moduleInfo {e : String} (h : Text.endsWith moduleInfo e = true) :
    isClass e = true := by
  obtain ⟨front, rfl⟩ := Text.endsWith_iff.mp h
  refine Text.endsWith_iff.mpr ⟨front ++ "module-info", ?_⟩
  rw [String.append_assoc]
  rfl

/-- A class either has the ending of descriptors or is one that a module must declare. -/
theorem isModuleClass_iff {e : String} :
    isModuleClass e = true ↔ isClass e = true ∧ Text.endsWith moduleInfo e = false := by
  rw [isModuleClass, Bool.and_eq_true, Bool.not_eq_true']

theorem package_moduleInfo : package moduleInfo = "" := by decide

end EntryName

theorem ModuleDescriptor.mem_packages_extendPackages_iff {d : ModuleDescriptor}
    {entries : List String} {p : String} :
    p ∈ (d.extendPackages entries).packages ↔
      p ∈ d.packages ∨ p ≠ "" ∧
        ∃ e ∈ entries, EntryName.isModuleClass e = true ∧ EntryName.package e = p := by
  rw [extendPackages, NameSet.mem_insertAll, mem_packagesOfEntries_iff, or_comm]
  refine or_congr_right ⟨?_, ?_⟩
  · rintro ⟨e, he, hclass, hp, hne⟩
    exact ⟨hne, e, he, hclass, hp⟩
  · rintro ⟨hne, e, he, hclass, hp⟩
    exact ⟨e, he, hclass, hp, hne⟩

namespace Artifact

/-- Where an entry ends like a descriptor there is another class, unless the package is the unnamed
one. -/
def DescriptorsBesideClasses (entries : List String) : Prop :=
  ∀ e ∈ entries, Text.endsWith EntryName.moduleInfo e = true → EntryName.package e ≠ "" →
    ∃ c ∈ entries, EntryName.isModuleClass c = true ∧ EntryName.package c = EntryName.package e

instance (entries : List String) : Decidable (DescriptorsBesideClasses entries) :=
  inferInstanceAs (Decidable (∀ e ∈ entries, _ → _ → ∃ c ∈ entries, _))

section
variable {entries : List String} {p : String}

/-- A class that a module must declare is a class to an index. -/
theorem mem_packagesOfClasses_of_isModuleClass {e : String} (he : e ∈ entries)
    (hclass : EntryName.isModuleClass e = true) (hne : EntryName.package e ≠ "") :
    EntryName.package e ∈ packagesOfClasses entries := by
  refine mem_packagesOfClasses_iff.mpr
    ⟨e, he, (EntryName.isModuleClass_iff.mp hclass).1, ?_, rfl⟩
  rintro rfl
  exact hne EntryName.package_moduleInfo

theorem forall_packagesOfClasses_iff :
    (∀ p ∈ packagesOfClasses entries, p ≠ "" →
      ∃ e ∈ entries, EntryName.isModuleClass e = true ∧ EntryName.package e = p) ↔
      DescriptorsBesideClasses entries := by
  constructor
  · intro h e he hends hne
    refine h _ (mem_packagesOfClasses_iff.mpr
      ⟨e, he, EntryName.isClass_of_endsWith_moduleInfo hends, ?_, rfl⟩) hne
    rintro rfl
    exact hne EntryName.package_moduleInfo
  · intro h p hp hne
    obtain ⟨e, he, hclass, -, rfl⟩ := mem_packagesOfClasses_iff.mp hp
    by_cases hends : Text.endsWith EntryName.moduleInfo e = true
    · exact h e he hends hne
    · exact ⟨e, he, EntryName.isModuleClass_iff.mpr ⟨hclass, Bool.eq_false_iff.mpr hends⟩, rfl⟩

end

/-- **Modules declare what an index would collect, apart from descriptors.**  A descriptor without
packages that is extended by some entries has no package that is not collected from the entries for
an index.  It has all of these that have a name if, and only if, no entry that ends like a
descriptor stands alone in its package.  So it is with the descriptor of a modular artifact that
lists these entries, which besides has the packages that it declares. -/
theorem packages_agree (entries : List String) :
    (∀ d : ModuleDescriptor, d.packages = ∅ →
      (∀ p ∈ (d.extendPackages entries).packages, p ≠ "" ∧ p ∈ packagesOfClasses entries) ∧
      ((∀ p, p ∈ (d.extendPackages entries).packages ↔ p ≠ "" ∧ p ∈ packagesOfClasses entries) ↔
        DescriptorsBesideClasses entries)) ∧
    ∀ (tree : FileTree) (handle : Handle) (path : Path) (release : Option Nat) (a : Artifact)
      (d : ModuleDescriptor), openPath tree handle path release = .ok a → a.descriptor = some d →
      a.reader.entries = entries →
      (∃ bytes declared, a.reader.read tree {} EntryName.moduleInfo = .ok (some bytes) ∧
        ClassFile.parseModuleInfo bytes = .ok declared ∧
        ∀ p, p ∈ d.packages ↔ p ∈ declared.packages ∨ p ≠ "" ∧
          ∃ e ∈ entries, EntryName.isModuleClass e = true ∧ EntryName.package e = p) ∧
      (DescriptorsBesideClasses entries → ∀ p ∈ a.classPackages, p ≠ "" → p ∈ d.packages) := by
  constructor
  · intro d hd
    have hextended : ∀ p, p ∈ (d.extendPackages entries).packages ↔ p ≠ "" ∧
        ∃ e ∈ entries, EntryName.isModuleClass e = true ∧ EntryName.package e = p := by
      intro p
      rw [ModuleDescriptor.mem_packages_extendPackages_iff, hd, or_iff_right NameSet.not_mem_empty]
    have hcollected : ∀ p ∈ (d.extendPackages entries).packages,
        p ≠ "" ∧ p ∈ packagesOfClasses entries := by
      intro p hp
      obtain ⟨hne, e, he, hclass, rfl⟩ := (hextended p).mp hp
      exact ⟨hne, mem_packagesOfClasses_of_isModuleClass he hclass hne⟩
    refine ⟨hcollected, Iff.trans ?_ forall_packagesOfClasses_iff⟩
    constructor
    · intro h p hp hne
      exact ((hextended p).mp ((h p).mpr ⟨hne, hp⟩)).2
    · intro h p
      exact ⟨hcollected p, fun hp => (hextended p).mpr ⟨hp.1, h p hp.2 hp.1⟩⟩
  · rintro tree handle path release a d hopen hd rfl
    obtain ⟨-, hdescriptor⟩ := openPath_eq_ok_iff.mp hopen
    rw [hd] at hdescriptor
    obtain ⟨bytes, declared, hbytes, hparse, rfl⟩ :=
      EntryReader.exists_parse_of_descriptor hdescriptor
    refine ⟨⟨bytes, declared, hbytes, hparse,
      fun p => ModuleDescriptor.mem_packages_extendPackages_iff⟩, fun h p hp hne => ?_⟩
    exact ModuleDescriptor.mem_packages_extendPackages_iff.mpr
      (.inr ⟨hne, forall_packagesOfClasses_iff.mpr h p hp hne⟩)

end Artifact

namespace Shop

/-- A folder with the program and one class. -/
def stall : Folder :=
  .folder "goods" (.file "Price.class" [2] .empty)
    (.file EntryName.moduleInfo (ClassFile.encodeModuleInfo programDescriptor) .empty)

/-- A folder with the program and two classes, one of which has a name that ends like a descriptor.
-/
def annex : Folder :=
  .folder "goods" (.file "Price.class" [2] .empty)
    (.file EntryName.moduleInfo (ClassFile.encodeModuleInfo programDescriptor)
      (.folder "old" (.file EntryName.moduleInfo [3] .empty) .empty))

/-- The file tree with these. -/
def annexTree : FileTree where
  root := .folder "shop" (.folder "annex" annex (.folder "stall" stall .empty)) .empty

theorem folderAt_annex :
    annexTree.FolderAt ⟨"/shop"⟩ (.folder "annex" annex (.folder "stall" stall .empty)) :=
  FileTree.folderAt_root_item (by decide : IsName "shop") rfl (by decide) (by decide)

/-- The program when it is open, with the entries that stand in a folder of that tree. -/
def programIn (name : String) (entries : List String) : Artifact where
  reader := ⟨.folder ((⟨"/shop"⟩ : Path).below [OsText.ofText name]) entries, default⟩
  descriptor := some (programDescriptor.extendPackages entries)

/-- Whatever stands beside its descriptor, the program is opened. -/
theorem open_programIn {name : String} {f shop : Folder}
    (hshop : annexTree.FolderAt ⟨"/shop"⟩ shop) (hname : IsLocation [OsText.ofText name])
    (hfolder : shop.locate [OsText.ofText name] = some (.folder f))
    (hfile : f.locate [OsText.ofText EntryName.moduleInfo] =
      some (.file (ClassFile.encodeModuleInfo programDescriptor)))
    (hlisted : EntryName.moduleInfo ∈ f.walk.map locationText) :
    Artifact.openPath annexTree default ((⟨"/shop"⟩ : Path).below [OsText.ofText name]) none =
      .ok (programIn name (f.walk.map locationText)) := by
  have hread := (hshop.below hname hfolder).readFile_eq
    (by decide : IsLocation [OsText.ofText EntryName.moduleInfo]) hfile
  rw [Path.below_singleton] at hread
  refine Artifact.openPath_eq_ok_iff.mpr ⟨hshop.openPath_below hname hfolder default none, ?_⟩
  simp [EntryReader.descriptor, programIn, EntryReader.read, EntryReader.contains,
    EntryReader.entries, Closed.contains, EntryReader.readListed, hread, hlisted, parse_program,
    bind, Except.bind, pure, Except.pure]

/-- What the annex lists. -/
def annexEntries : List String :=
  ["goods/Price.class", EntryName.moduleInfo, "old/module-info.class"]

theorem open_annex :
    Artifact.openPath annexTree default ((⟨"/shop"⟩ : Path).below [OsText.ofText "annex"]) none =
      .ok (programIn "annex" annexEntries) := by
  have hname : IsLocation [OsText.ofText "annex"] := by decide
  have hlisted : EntryName.moduleInfo ∈ annex.walk.map locationText := by decide
  exact open_programIn folderAt_annex hname rfl rfl hlisted

/-- What the stall lists. -/
def stallEntries : List String := ["goods/Price.class", EntryName.moduleInfo]

theorem open_stall :
    Artifact.openPath annexTree default ((⟨"/shop"⟩ : Path).below [OsText.ofText "stall"]) none =
      .ok (programIn "stall" stallEntries) := by
  have hname : IsLocation [OsText.ofText "stall"] := by decide
  have hlisted : EntryName.moduleInfo ∈ stall.walk.map locationText := by decide
  exact open_programIn folderAt_annex hname rfl rfl hlisted

/-- In the stall the module declares what an index would collect.  In the annex an index would have
one package more, for the entry that ends like a descriptor. -/
theorem packages_agree_shop :
    (∀ p, p ∈ (programDescriptor.extendPackages stallEntries).packages ↔
      p ≠ "" ∧ p ∈ Artifact.packagesOfClasses stallEntries) ∧
    (∀ p ∈ (programIn "stall" stallEntries).classPackages, p ≠ "" →
      p ∈ (programDescriptor.extendPackages stallEntries).packages) ∧
    (∀ p ∈ (programDescriptor.extendPackages annexEntries).packages,
      p ≠ "" ∧ p ∈ Artifact.packagesOfClasses annexEntries) ∧
    ¬ Artifact.DescriptorsBesideClasses annexEntries ∧
    "goods" ∈ (programDescriptor.extendPackages annexEntries).packages := by
  obtain ⟨hannexed, hmodular⟩ := Artifact.packages_agree annexEntries
  obtain ⟨hstalled, hsold⟩ := Artifact.packages_agree stallEntries
  obtain ⟨hcollected, hannex⟩ := hannexed programDescriptor rfl
  obtain ⟨-, hstall⟩ := hstalled programDescriptor rfl
  obtain ⟨-, hdeclared⟩ := hsold annexTree default _ none _ _ open_stall rfl rfl
  obtain ⟨⟨bytes, declared, -, -, hpackages⟩, -⟩ :=
    hmodular annexTree default _ none _ _ open_annex rfl rfl
  have hold : "old" ∉ (programDescriptor.extendPackages annexEntries).packages := by decide
  have hbeside : Artifact.DescriptorsBesideClasses stallEntries := by decide
  exact ⟨hstall.mpr hbeside, hdeclared hbeside, hcollected,
    fun h => hold ((hannex.mpr h "old").mpr (by decide)),
    (hpackages "goods").mpr (.inr ⟨by decide, "goods/Price.class", by decide⟩)⟩

/-- What a module declares is not always what an index would collect. -/
theorem not_packages_agree :
    (¬ ∀ (entries : List String) (d : ModuleDescriptor), d.packages = ∅ →
      ∀ p, p ∈ (d.extendPackages entries).packages ↔
        p ≠ "" ∧ p ∈ Artifact.packagesOfClasses entries) ∧
    ¬ ∀ (tree : FileTree) (handle : Handle) (path : Path) (release : Option Nat) (a : Artifact)
      (d : ModuleDescriptor), Artifact.openPath tree handle path release = .ok a →
      a.descriptor = some d → ∀ p ∈ a.classPackages, p ≠ "" → p ∈ d.packages := by
  have hold : "old" ∉ (programDescriptor.extendPackages annexEntries).packages := by decide
  constructor
  · intro h
    exact hold ((h annexEntries programDescriptor rfl "old").mpr (by decide))
  · intro h
    exact hold (h annexTree default _ none _ _ open_annex rfl "old" (by decide) (by decide))

end Shop
end ModuleAtlas
