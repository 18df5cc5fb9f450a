import ModuleAtlas.Discovery.ModulePath
import ModuleAtlas.Proofs.Discovery.Catalogs
import ModuleAtlas.Proofs.Discovery.Descriptors

/-! # Modules declare the packages of their classes

When a module is found its descriptor takes in the packages of the classes that it holds, whether it
is found on a module path or in a platform of either kind (`ModuleDescriptor.Covers`).  The content
is opened a second time when the module takes part in a configuration.  Then its reader lists the
same entries, for readers of one place differ in nothing but their handles
(`entries_eq_of_openPath`).
-/
namespace ModuleAtlas
open Steps

/-! ## Readers of one place -/

namespace EntryReader
variable {tree : FileTree} {handle handle' : Handle} {r s : EntryReader}

/-- A folder that is opened can be opened again. -/
theorem openFolder_again {root : Path} (h : openFolder tree handle root = .ok r)
    (handle' : Handle) : openFolder tree handle' root = .ok ⟨r.content, handle'⟩ := by
  unfold openFolder at h ⊢
  cases hwalk : tree.walk root with
  | error e =>
    rw [hwalk] at h
    cases h
  | ok locations =>
    rw [hwalk] at h
    obtain rfl := Except.ok.inj h
    rfl

theorem entries_eq_of_openFolder {root : Path} (hr : openFolder tree handle root = .ok r)
    (hs : openFolder tree handle' root = .ok s) : r.entries = s.entries := by
  rw [openFolder_again hr handle'] at hs
  obtain rfl := Except.ok.inj hs
  rfl

/-- An archive is opened if it is a file with a directory that can be read. -/
theorem openArchive_eq_ok_iff {path : Path} {release : Option Nat} :
    openArchive tree handle path release = .ok r ↔
      ∃ bytes archive names, tree.status path = .ok (.file bytes) ∧
        Zip.Archive.parse bytes = .ok archive ∧ archive.fileNames = .ok names ∧
        r = ⟨.archive path archive (foldEntries (Layout.ofArchive path release archive) names),
          handle⟩ := by
  unfold openArchive
  cases tree.status path with
  | error e => exact iff_of_false nofun (by simp)
  | ok node =>
    cases node with
    | folder inner => exact iff_of_false nofun (by simp)
    | link target => exact iff_of_false nofun (by simp)
    | file bytes =>
      dsimp only [pure, Except.pure, bind, Except.bind]
      cases hparse : Zip.Archive.parse bytes with
      | error e => exact iff_of_false nofun (by simp [hparse])
      | ok archive =>
        dsimp only
        cases hnames : archive.fileNames with
        | error e => exact iff_of_false nofun (by simp [hparse, hnames])
        | ok names => simp [hparse, hnames, eq_comm]

/-- What is opened at a path can be opened there again. -/
theorem openPath_again {path : Path} {release : Option Nat}
    (h : openPath tree handle path release = .ok r) (handle' : Handle) :
    openPath tree handle' path release = .ok ⟨r.content, handle'⟩ := by
  unfold openPath at h ⊢
  by_cases hfolder : tree.isFolder path = true
  · rw [if_pos hfolder] at h ⊢
    exact openFolder_again h handle'
  · rw [if_neg hfolder] at h ⊢
    obtain ⟨bytes, archive, names, hbytes, harchive, hnames, rfl⟩ := openArchive_eq_ok_iff.mp h
    exact openArchive_eq_ok_iff.mpr ⟨bytes, archive, names, hbytes, harchive, hnames, rfl⟩

theorem entries_eq_of_openPath {path : Path} {release : Option Nat}
    (hr : openPath tree handle path release = .ok r)
    (hs : openPath tree handle' path release = .ok s) : r.entries = s.entries := by
  rw [openPath_again hr handle'] at hs
  obtain rfl := Except.ok.inj hs
  rfl

end EntryReader

/-- An artifact is opened by opening its content and reading the descriptor in there. -/
theorem Artifact.openPath_eq_ok_iff {tree : FileTree} {handle : Handle} {path : Path}
    {release : Option Nat} {a : Artifact} :
    openPath tree handle path release = .ok a ↔
      EntryReader.openPath tree handle path release = .ok a.reader ∧
        a.reader.descriptor tree {} = .ok a.descriptor := by
  constructor
  · intro h
    obtain ⟨reader, hreader, h⟩ := bind_eq_ok_iff.mp h
    obtain ⟨descriptor, hdescriptor, he⟩ := bind_eq_ok_iff.mp h
    obtain rfl := Except.ok.inj he
    exact ⟨hreader, hdescriptor⟩
  · rintro ⟨hreader, hdescriptor⟩
    exact bind_eq_ok_iff.mpr ⟨a.reader, hreader, bind_eq_ok_iff.mpr ⟨_, hdescriptor, rfl⟩⟩

/-! ## Descriptors that cover entries -/

namespace ModuleDescriptor

/-- The packages of the classes among some entries are declared. -/
def Covers (d : ModuleDescriptor) (entries : List String) : Prop :=
  ∀ p ∈ packagesOfEntries entries, p ∈ d.packages

theorem covers_extendPackages (d : ModuleDescriptor) (entries : List String) :
    (d.extendPackages entries).Covers entries :=
  fun _ hp => NameSet.mem_insertAll.mpr (.inl hp)

theorem Covers.sanitized {d : ModuleDescriptor} {entries : List String} (h : d.Covers entries) :
    d.sanitized.Covers entries :=
  fun p hp => NameSet.mem_insertAll.mpr (.inr (h p hp))

theorem Covers.mem_packages {d : ModuleDescriptor} {entries : List String} (h : d.Covers entries)
    {e : String} (he : e ∈ entries) (hclass : EntryName.isModuleClass e = true)
    (hpackage : EntryName.package e ≠ "") : EntryName.package e ∈ d.packages :=
  h _ (mem_packagesOfEntries_iff.mpr ⟨e, he, hclass, rfl, hpackage⟩)

end ModuleDescriptor

/-- The descriptor of a modular artifact is the one that it holds, extended by what it lists. -/
theorem EntryReader.exists_parse_of_descriptor {reader : EntryReader} {tree : FileTree}
    {closed : Closed} {d : ModuleDescriptor}
    (h : reader.descriptor tree closed = .ok (some d)) :
    ∃ bytes declared, reader.read tree closed EntryName.moduleInfo = .ok (some bytes) ∧
      ClassFile.parseModuleInfo bytes = .ok declared ∧
      d = declared.extendPackages reader.entries := by
  obtain ⟨found, hfound, h⟩ := bind_eq_ok_iff.mp h
  cases found with
  | none => cases h
  | some bytes =>
    dsimp only at h
    cases hparse : ClassFile.parseModuleInfo bytes with
    | error e =>
      rw [hparse] at h
      cases h
    | ok declared =>
      rw [hparse] at h
      exact ⟨bytes, declared, hfound, hparse, (Option.some.inj (Except.ok.inj h)).symm⟩

theorem EntryReader.covers_of_descriptor {reader : EntryReader} {tree : FileTree} {closed : Closed}
    {d : ModuleDescriptor} (h : reader.descriptor tree closed = .ok (some d)) :
    d.Covers reader.entries := by
  obtain ⟨-, declared, -, -, rfl⟩ := exists_parse_of_descriptor h
  exact declared.covers_extendPackages _

/-! ## Module paths -/

namespace ModulePath
variable {tree : FileTree} {release : Option Nat}

/-- What is read at a path covers what is listed at the path. -/
theorem covers_of_readModule {path : Path} {d : ModuleDescriptor}
    (h : readModule tree release path = .ok (some d)) {handle : Handle} {r : EntryReader}
    (hr : EntryReader.openPath tree handle path release = .ok r) : d.Covers r.entries := by
  obtain ⟨a, ha, hd⟩ := map_eq_ok_iff.mp h
  obtain ⟨hreader, hdescriptor⟩ := Artifact.openPath_eq_ok_iff.mp ha
  rw [hd] at hdescriptor
  rw [EntryReader.entries_eq_of_openPath hr hreader]
  exact EntryReader.covers_of_descriptor hdescriptor

/-- Each module was read at the path that it comes with. -/
def AllRead (tree : FileTree) (release : Option Nat) (found : List (Path × ModuleDescriptor)) :
    Prop :=
  ∀ m ∈ found, readModule tree release m.1 = .ok (some m.2)

theorem allRead_searchChildren {children : List Path}
    {found result : List (Path × ModuleDescriptor)} (hfound : AllRead tree release found)
    (h : searchChildren tree release found children = .ok result) : AllRead tree release result := by
  induction children generalizing found with
  | nil =>
    obtain rfl := Except.ok.inj h
    exact hfound
  | cons child children ih =>
    rw [searchChildren] at h
    split at h
    · cases hread : readModule tree release child with
      | error e =>
        rw [hread] at h
        cases h
      | ok module =>
        rw [hread] at h
        cases module with
        | none => exact ih hfound h
        | some d =>
          dsimp only at h
          split at h
          · cases h
          · refine ih (fun m hm => ?_) h
            rcases List.mem_append.mp hm with hm | hm
            · exact hfound m hm
            · obtain rfl := List.mem_singleton.mp hm
              exact hread
    · exact ih hfound h

theorem allRead_searchEntry {entry : Path} {result : List (Path × ModuleDescriptor)}
    (h : searchEntry tree release entry = .ok result) : AllRead tree release result := by
  unfold searchEntry at h
  split at h
  · obtain rfl := Except.ok.inj h
    exact fun m hm => absurd hm List.not_mem_nil
  · split at h
    · split at h
      · exact allRead_searchChildren (fun m hm => absurd hm List.not_mem_nil) h
      · cases h
    · obtain ⟨module, hread, rfl⟩ := map_eq_ok_iff.mp h
      intro m hm
      obtain ⟨d, hd, rfl⟩ := List.mem_map.mp hm
      rw [hread, Option.mem_toList.mp hd]

theorem allRead_searchEntries {entries : List Path} {result : List (Path × ModuleDescriptor)}
    (h : searchEntries tree release entries = .ok result) : AllRead tree release result := by
  induction entries generalizing result with
  | nil =>
    obtain rfl := Except.ok.inj h
    exact fun m hm => absurd hm List.not_mem_nil
  | cons entry entries ih =>
    rw [searchEntries] at h
    cases hentry : searchEntry tree release entry with
    | error e =>
      rw [hentry] at h
      cases h
    | ok found =>
      rw [hentry] at h
      obtain ⟨rest, hrest, rfl⟩ := map_eq_ok_iff.mp h
      intro m hm
      rcases List.mem_append.mp hm with hm | hm
      · exact allRead_searchEntry hentry m hm
      · exact ih hrest m hm

/-- Each module of the path was read where it is. -/
def IsRead (path : ModulePath) (tree : FileTree) (release : Option Nat) : Prop :=
  ∀ r ∈ path.finder.references,
    ∃ p, r.location = .path p ∧ readModule tree release p = .ok (some r.descriptor)

theorem isRead_of_search {entries : List Path} {path : ModulePath}
    (h : search tree release entries = .ok path) : path.IsRead tree release := by
  obtain ⟨found, hfound, rfl⟩ := map_eq_ok_iff.mp h
  intro r hr
  obtain ⟨m, hm, rfl⟩ := List.mem_map.mp (mem_of_mem_keepFirst hr)
  exact ⟨m.1, rfl, allRead_searchEntries hfound m hm⟩

end ModulePath

/-! ## Platforms -/

/-- Of several descriptors that declare a name the one that is read last is in the catalog. -/
theorem Catalog.exists_last_of_find? {α : Type}
    {read : α → Except AtlasError (Option ModuleDescriptor)}
    {units c : Catalog} {names : List α} (h : collect read units names = .ok c) {n : String}
    {d : ModuleDescriptor} (hd : c.find? n = some d) :
    (units.find? n = some d ∧ ∀ m ∈ names, ∀ d', read m = .ok (some d') → d'.name ≠ n) ∨
      ∃ before m after, names = before ++ m :: after ∧ read m = .ok (some d) ∧
        ∀ later ∈ after, ∀ d', read later = .ok (some d') → d'.name ≠ n := by
  induction names generalizing units with
  | nil =>
    obtain rfl := Except.ok.inj h
    exact .inl ⟨hd, fun m hm => absurd hm List.not_mem_nil⟩
  | cons name names ih =>
    rw [collect] at h
    have hlater : (∃ before m after, names = before ++ m :: after ∧ read m = .ok (some d) ∧
          ∀ later ∈ after, ∀ d', read later = .ok (some d') → d'.name ≠ n) →
        ∃ before m after, name :: names = before ++ m :: after ∧ read m = .ok (some d) ∧
          ∀ later ∈ after, ∀ d', read later = .ok (some d') → d'.name ≠ n := by
      rintro ⟨before, m, after, rfl, hm⟩
      exact ⟨name :: before, m, after, rfl, hm⟩
    obtain ⟨found, hfound, h⟩ := bind_eq_ok_iff.mp h
    cases found with
    | none =>
      refine (ih h).imp (fun hunits => ⟨hunits.1, ?_⟩) hlater
      refine List.forall_mem_cons.mpr ⟨fun d' hd' => ?_, hunits.2⟩
      cases hfound.symm.trans hd'
    | some first =>
      rcases ih h with ⟨hfind, hrest⟩ | hrest
      · rw [find?_add] at hfind
        by_cases hn : first.name = n
        · rw [if_pos hn] at hfind
          obtain rfl := Option.some.inj hfind
          exact .inr ⟨[], name, names, rfl, hfound, hrest⟩
        · rw [if_neg hn] at hfind
          refine .inl ⟨hfind, List.forall_mem_cons.mpr ⟨fun d' hd' => ?_, hrest⟩⟩
          obtain rfl := Option.some.inj (Except.ok.inj (hfound.symm.trans hd'))
          exact hn
      · exact .inr (hlater hrest)

theorem Catalog.exists_read_of_find? {α : Type}
    {read : α → Except AtlasError (Option ModuleDescriptor)}
    {units c : Catalog} {names : List α} (h : collect read units names = .ok c) {n : String}
    {d : ModuleDescriptor} (hd : c.find? n = some d) :
    units.find? n = some d ∨ ∃ m ∈ names, read m = .ok (some d) := by
  rcases exists_last_of_find? h hd with ⟨hunits, -⟩ | ⟨before, m, after, rfl, hread, -⟩
  · exact .inl hunits
  · exact .inr ⟨m, List.mem_append_right before List.mem_cons_self, hread⟩

namespace Platform
variable {tree : FileTree}

theorem covers_of_readPacked {image : RuntimeImage} {m : String} {d : ModuleDescriptor}
    (h : readPacked image m = .ok (some d)) : d.Covers (image.entries m) := by
  unfold readPacked at h
  split at h
  · cases h
  · cases h
  · split at h
    · next parsed _ =>
      obtain rfl := Option.some.inj (Except.ok.inj h)
      exact (parsed.covers_extendPackages _).sanitized
    · cases h

theorem covers_of_readExploded {handle handle' : Handle} {folder : Path} {d : ModuleDescriptor}
    (h : readExploded tree handle folder = .ok (some d)) {r : EntryReader}
    (hr : EntryReader.openFolder tree handle' folder = .ok r) : d.Covers r.entries := by
  unfold readExploded at h
  dsimp only at h
  split at h
  · cases h
  · split at h
    · cases h
    · split at h
      · cases h
      · next parsed _ =>
        obtain ⟨reader, hreader, h⟩ := bind_eq_ok_iff.mp h
        obtain rfl := Option.some.inj (Except.ok.inj h)
        rw [EntryReader.entries_eq_of_openFolder hr hreader]
        exact parsed.covers_extendPackages _

end Platform
end ModuleAtlas
