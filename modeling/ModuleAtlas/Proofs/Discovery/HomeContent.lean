import ModuleAtlas.Proofs.Discovery.Catalogs

/-! # What a platform home holds

A home holds contents by module and entry (`HomeContent`), in whatever way they are stored.  What
comes of opening the home is told by these contents: whether it opens at all, what each of its
modules declares, and what the readers of the modules list and read (`Platform.opens_of_collect`).

A module is catalogued under the name that it declares and opened under the name that it is stored
under, so these have to be the same (`HomeContent.Named`).
-/
namespace ModuleAtlas

/-- The content of each entry of each module. -/
abbrev HomeContent := String → String → Option Bytes

namespace HomeContent

/-- Every descriptor can be read. -/
def Readable (holds : HomeContent) : Prop :=
  ∀ m bytes, holds m EntryName.moduleInfo = some bytes →
    ∃ d, ClassFile.parseModuleInfo bytes = .ok d

/-- Every module that has a descriptor is stored under the name that it declares. -/
def Named (holds : HomeContent) : Prop :=
  ∀ m bytes d, holds m EntryName.moduleInfo = some bytes →
    ClassFile.parseModuleInfo bytes = .ok d → d.name = m

/-- What a module declares. -/
def declared? (holds : HomeContent) (m : String) : Option ModuleDescriptor :=
  (holds m EntryName.moduleInfo).bind fun bytes => (ClassFile.parseModuleInfo bytes).toOption

/-- A look at a module of a home finds what the module declares, brought into some shape. -/
structure ReadBy (holds : HomeContent) (shape : String → ModuleDescriptor → ModuleDescriptor)
    (read : String → Except AtlasError (Option ModuleDescriptor)) (m : String) : Prop where
  absent : holds m EntryName.moduleInfo = none → read m = .ok none
  present : ∀ bytes d, holds m EntryName.moduleInfo = some bytes →
    ClassFile.parseModuleInfo bytes = .ok d → read m = .ok (some (shape m d))
  broken : ∀ bytes e, holds m EntryName.moduleInfo = some bytes →
    ClassFile.parseModuleInfo bytes = .error e → ∃ e', read m = .error e'

section
variable {holds : HomeContent} {shape : String → ModuleDescriptor → ModuleDescriptor}
  {read : String → Except AtlasError (Option ModuleDescriptor)} {names : List String}

theorem declared?_eq_some_iff {m : String} {d : ModuleDescriptor} :
    holds.declared? m = some d ↔ ∃ bytes, holds m EntryName.moduleInfo = some bytes ∧
      ClassFile.parseModuleInfo bytes = .ok d := by
  rw [declared?, Option.bind_eq_some_iff]
  refine exists_congr fun bytes => and_congr_right fun _ => ?_
  cases ClassFile.parseModuleInfo bytes <;> simp [Except.toOption]

theorem ReadBy.eq_ok_some_iff {m : String} (h : holds.ReadBy shape read m) {d : ModuleDescriptor} :
    read m = .ok (some d) ↔ (holds.declared? m).map (shape m) = some d := by
  cases hbytes : holds m EntryName.moduleInfo with
  | none =>
    rw [h.absent hbytes, declared?, hbytes]
    simp
  | some bytes =>
    rw [declared?, hbytes, Option.bind_some]
    cases hparse : ClassFile.parseModuleInfo bytes with
    | ok declared =>
      rw [h.present bytes declared hbytes hparse]
      simp [Except.toOption]
    | error e =>
      obtain ⟨e', he'⟩ := h.broken bytes e hbytes hparse
      rw [he']
      simp [Except.toOption]

theorem exists_collect_iff_readable (hread : ∀ m ∈ names, holds.ReadBy shape read m)
    (hnames : ∀ m bytes, holds m EntryName.moduleInfo = some bytes → m ∈ names) :
    (∃ c, Catalog.collect read .empty names = .ok c) ↔ holds.Readable := by
  rw [Catalog.exists_collect_iff]
  constructor
  · intro h m bytes hbytes
    have hm := hnames m bytes hbytes
    obtain ⟨found, hfound⟩ := h m hm
    cases hparse : ClassFile.parseModuleInfo bytes with
    | ok d => exact ⟨d, rfl⟩
    | error e =>
      obtain ⟨e', he'⟩ := (hread m hm).broken bytes e hbytes hparse
      rw [he'] at hfound
      cases hfound
  · intro h m hm
    cases hbytes : holds m EntryName.moduleInfo with
    | none => exact ⟨none, (hread m hm).absent hbytes⟩
    | some bytes =>
      obtain ⟨d, hd⟩ := h m bytes hbytes
      exact ⟨some (shape m d), (hread m hm).present bytes d hbytes hd⟩

theorem find?_collect_eq (hread : ∀ m ∈ names, holds.ReadBy shape read m)
    (hnames : ∀ m bytes, holds m EntryName.moduleInfo = some bytes → m ∈ names)
    (hdistinct : names.Nodup) (hnamed : holds.Named) (hshape : ∀ m d, (shape m d).name = d.name)
    {c : Catalog} (hc : Catalog.collect read .empty names = .ok c) (m : String) :
    c.find? m = (holds.declared? m).map (shape m) := by
  have hname : ∀ n ∈ names, ∀ d, read n = .ok (some d) → d.name = n := by
    intro n hn d hd
    obtain ⟨declared, hdeclared, rfl⟩ :=
      Option.map_eq_some_iff.mp ((hread n hn).eq_ok_some_iff.mp hd)
    obtain ⟨bytes, hbytes, hparse⟩ := declared?_eq_some_iff.mp hdeclared
    rw [hshape]
    exact hnamed n bytes declared hbytes hparse
  refine Option.ext fun d => ?_
  rw [Catalog.find?_collect_iff hc hdistinct hname]
  constructor
  · rintro ⟨hm, hd⟩
    exact (hread m hm).eq_ok_some_iff.mp hd
  · intro hd
    obtain ⟨declared, hdeclared, -⟩ := Option.map_eq_some_iff.mp hd
    obtain ⟨bytes, hbytes, -⟩ := declared?_eq_some_iff.mp hdeclared
    have hm := hnames m bytes hbytes
    exact ⟨hm, (hread m hm).eq_ok_some_iff.mpr hd⟩

end
end HomeContent

/-- A reader lists and reads some contents. -/
structure EntryReader.Offers (reader : EntryReader) (tree : FileTree)
    (content : String → Option Bytes) : Prop where
  distinct : reader.entries.Nodup
  mem_entries : ∀ e, e ∈ reader.entries ↔ ∃ bytes, content e = some bytes
  read : ∀ e, reader.read tree {} e = .ok (content e)

theorem EntryReader.Offers.of_readListed {reader : EntryReader} {tree : FileTree}
    {content : String → Option Bytes} (hdistinct : reader.entries.Nodup)
    (hmem : ∀ e, e ∈ reader.entries ↔ ∃ bytes, content e = some bytes)
    (hread : ∀ e ∈ reader.entries,
      EntryReader.readListed tree {} reader.content e = .ok (content e)) :
    reader.Offers tree content where
  distinct := hdistinct
  mem_entries := hmem
  read e := by
    by_cases he : e ∈ reader.entries
    · have hcontains : reader.contains e = true := decide_eq_true he
      rw [EntryReader.read, hcontains]
      exact hread e he
    · have hnone : content e = none := by
        rw [Option.eq_none_iff_forall_ne_some]
        exact fun bytes hbytes => he ((hmem e).mpr ⟨bytes, hbytes⟩)
      rw [EntryReader.read_eq_none_of_not_contains tree {} (decide_eq_false he), hnone]

/-- What is known of an opened platform: under each name there is what the module declares, brought
into some shape, and each module that holds something has a reader. -/
structure Platform.Offers (p : Platform) (tree : FileTree) (holds : HomeContent)
    (shape : String → ModuleDescriptor → ModuleDescriptor) : Prop where
  find? : ∀ m, p.find? m = (holds.declared? m).map (shape m)
  reader : ∀ m e bytes, holds m e = some bytes → ∀ handle, ∃ reader,
    p.classReader tree handle m = .ok reader ∧ reader.Offers tree (holds m)

/-- If every descriptor can be read, the modules are those that have one. -/
theorem Platform.Offers.mem_unitNames_iff {p : Platform} {tree : FileTree} {holds : HomeContent}
    {shape : String → ModuleDescriptor → ModuleDescriptor} (h : p.Offers tree holds shape)
    (hreadable : holds.Readable) {n : String} :
    n ∈ p.unitNames ↔ ∃ bytes, holds n EntryName.moduleInfo = some bytes := by
  have hnames : n ∈ p.unitNames ↔ ∃ d, p.find? n = some d := Catalog.mem_names_iff
  rw [hnames, h.find?]
  constructor
  · rintro ⟨d, hd⟩
    obtain ⟨declared, hdeclared, -⟩ := Option.map_eq_some_iff.mp hd
    obtain ⟨bytes, hbytes, -⟩ := HomeContent.declared?_eq_some_iff.mp hdeclared
    exact ⟨bytes, hbytes⟩
  · rintro ⟨bytes, hbytes⟩
    obtain ⟨declared, hparse⟩ := hreadable n bytes hbytes
    have hdeclared := HomeContent.declared?_eq_some_iff.mpr ⟨bytes, hbytes, hparse⟩
    exact ⟨shape n declared, Option.map_eq_some_iff.mpr ⟨declared, hdeclared, rfl⟩⟩

/-- A platform whose modules are collected opens if the descriptors can be read, and then it offers
what is held. -/
theorem Platform.opens_of_collect {opened : Except AtlasError Platform} {tree : FileTree}
    {holds : HomeContent} {shape : String → ModuleDescriptor → ModuleDescriptor}
    {read : String → Except AtlasError (Option ModuleDescriptor)} {names : List String}
    {assemble : Catalog → Platform}
    (hopened : opened = (Catalog.collect read .empty names).map assemble)
    (hread : ∀ m ∈ names, holds.ReadBy shape read m)
    (hnames : ∀ m bytes, holds m EntryName.moduleInfo = some bytes → m ∈ names)
    (hdistinct : names.Nodup) (hnamed : holds.Named) (hshape : ∀ m d, (shape m d).name = d.name)
    (hunits : ∀ c, (assemble c).units = c)
    (hreader : ∀ c m e bytes, holds m e = some bytes → ∀ handle, ∃ reader,
      (assemble c).classReader tree handle m = .ok reader ∧ reader.Offers tree (holds m)) :
    ((∃ p, opened = .ok p) ↔ holds.Readable) ∧
      ∀ p, opened = .ok p → p.Offers tree holds shape := by
  subst hopened
  constructor
  · rw [← HomeContent.exists_collect_iff_readable hread hnames]
    constructor
    · rintro ⟨p, hp⟩
      obtain ⟨c, hc, -⟩ := Steps.map_eq_ok_iff.mp hp
      exact ⟨c, hc⟩
    · rintro ⟨c, hc⟩
      exact ⟨assemble c, Steps.map_eq_ok_iff.mpr ⟨c, hc, rfl⟩⟩
  · intro p hp
    obtain ⟨c, hc, rfl⟩ := Steps.map_eq_ok_iff.mp hp
    refine ⟨fun m => ?_, hreader c⟩
    rw [Platform.find?, hunits]
    exact HomeContent.find?_collect_eq hread hnames hdistinct hnamed hshape hc m

end ModuleAtlas
