import ModuleAtlas.Proofs.Content.Versions
import ModuleAtlas.Proofs.Discovery.Declared
import ModuleAtlas.Proofs.Files.Locate

/-! # Readers of archives

An archive can be opened if its directory can be read and each of its entries can be opened.  The
names of its files then never end like that of a folder, and each of them can be located again
(`Zip.Archive.locateNamed_of_fileNames`), so that a listed entry is always read from a stored name.

Which one that is depends on the layout.  A multi-release archive that is opened for a release lists
the versions for releases up to it, the latest of each entry; any other archive lists what it stores
outside of the folder of versions, and a packed module what it stores in the section for classes
(`EntryReader.lists_of_hasArchive`).
-/
namespace ModuleAtlas

/-! ## Files of an archive -/

theorem Zip.Entry.endsWith_of_isFile {e : Zip.Entry} (h : e.isFile = true) :
    Text.endsWith "/" e.name = false := by
  refine Bool.eq_false_iff.mpr fun hslash => ?_
  obtain ⟨rest, hrest⟩ := Text.endsWith_iff.mp hslash
  have hlast : e.name.toList.getLast? = some '/' := by
    rw [hrest, String.toList_append]
    exact List.getLast?_concat
  unfold Zip.Entry.isFile at h
  rw [hlast] at h
  exact absurd h (by decide)

namespace Zip.Archive
variable {archive : Archive} {stored : List String} {s : String}

/-- The names of the files are known if every entry opens. -/
theorem fileNames_eq_ok_iff :
    archive.fileNames = .ok stored ↔
      (∀ e ∈ archive.entries, ∃ data, archive.locate e = .ok data) ∧
        (archive.entries.filter Entry.isFile).map Entry.name = stored := by
  unfold fileNames
  generalize archive.entries = entries
  induction entries generalizing stored with
  | nil => simp
  | cons e entries ih =>
    rw [List.foldr_cons, Steps.bind_eq_ok_iff, List.forall_mem_cons]
    constructor
    · rintro ⟨data, hdata, h⟩
      obtain ⟨names, hnames, h⟩ := Steps.bind_eq_ok_iff.mp h
      obtain ⟨hentries, rfl⟩ := ih.mp hnames
      refine ⟨⟨⟨data, hdata⟩, hentries⟩, ?_⟩
      rw [← Except.ok.inj h]
      by_cases hfile : e.isFile = true
      · rw [List.filter_cons_of_pos hfile, List.map_cons, if_pos hfile]
      · rw [List.filter_cons_of_neg hfile, if_neg hfile]
    · rintro ⟨⟨⟨data, hdata⟩, hentries⟩, rfl⟩
      refine ⟨data, hdata, Steps.bind_eq_ok_iff.mpr ⟨_, ih.mpr ⟨hentries, rfl⟩, ?_⟩⟩
      by_cases hfile : e.isFile = true
      · rw [List.filter_cons_of_pos hfile, List.map_cons, if_pos hfile]
        rfl
      · rw [List.filter_cons_of_neg hfile, if_neg hfile]
        rfl

theorem endsWith_of_fileNames (h : archive.fileNames = .ok stored) :
    ∀ s ∈ stored, Text.endsWith "/" s = false := by
  obtain ⟨-, rfl⟩ := fileNames_eq_ok_iff.mp h
  intro s hs
  obtain ⟨e, he, rfl⟩ := List.mem_map.mp hs
  exact Entry.endsWith_of_isFile (List.mem_filter.mp he).2

theorem locateNamed_of_fileNames (h : archive.fileNames = .ok stored) (hs : s ∈ stored) :
    ∃ data, archive.locateNamed s = .ok data := by
  obtain ⟨hlocate, rfl⟩ := fileNames_eq_ok_iff.mp h
  obtain ⟨e, he, rfl⟩ := List.mem_map.mp hs
  have hfound : (archive.find? e.name).isSome := by
    refine List.find?_isSome.mpr ⟨e, ?_, beq_self_eq_true e.name⟩
    exact List.mem_reverse.mpr (List.mem_filter.mp he).1
  obtain ⟨found, hfound⟩ := Option.isSome_iff_exists.mp hfound
  unfold locateNamed
  rw [hfound]
  exact hlocate found (List.mem_reverse.mp (List.mem_of_find?_eq_some hfound))

end Zip.Archive

/-! ## Readers of archives -/

/-- At a path there is an archive with files of the given names, in the order of its directory. -/
def FileTree.HasArchive (tree : FileTree) (path : Path) (archive : Zip.Archive)
    (stored : List String) : Prop :=
  ∃ bytes, tree.status path = .ok (.file bytes) ∧ Zip.Archive.parse bytes = .ok archive ∧
    archive.fileNames = .ok stored

/-- What is at a path is an archive if its directory and all entries in it can be read. -/
theorem FileTree.exists_hasArchive {tree : FileTree} {path : Path} {bytes : Bytes} {multi : Bool}
    {stored : List String} (hbytes : tree.status path = .ok (.file bytes))
    (hread : (do
      let archive ← Zip.Archive.parse bytes
      return (archive.isMultiRelease, ← archive.fileNames)) = .ok (multi, stored)) :
    ∃ archive, archive.isMultiRelease = multi ∧ tree.HasArchive path archive stored := by
  obtain ⟨archive, harchive, hread⟩ := Steps.bind_eq_ok_iff.mp hread
  obtain ⟨names, hnames, hread⟩ := Steps.bind_eq_ok_iff.mp hread
  obtain ⟨hmulti, rfl⟩ := Prod.mk.inj (Except.ok.inj hread)
  exact ⟨archive, hmulti, bytes, hbytes, harchive, hnames⟩

namespace Layout
variable {path : Path} {archive : Zip.Archive} {release : Option Nat}

theorem ofArchive_of_jmod (hjmod : path.isJmod = true) :
    ofArchive path release archive = .sections :=
  if_pos hjmod

theorem ofArchive_of_multiRelease {limit : Nat} (hjmod : path.isJmod = false)
    (hmulti : archive.isMultiRelease = true) :
    ofArchive path (some limit) archive = .versioned limit := by
  unfold ofArchive
  rw [hjmod, if_neg Bool.false_ne_true]
  exact if_pos hmulti

theorem ofArchive_of_plain (hjmod : path.isJmod = false)
    (hplain : release = none ∨ archive.isMultiRelease = false) :
    ofArchive path release archive = .plain := by
  unfold ofArchive
  rw [hjmod, if_neg Bool.false_ne_true]
  rcases hplain with rfl | hplain
  · rfl
  · rw [hplain]
    cases release <;> rfl

end Layout

theorem FileTree.HasArchive.endsWith {tree : FileTree} {path : Path} {archive : Zip.Archive}
    {stored : List String} (h : tree.HasArchive path archive stored) :
    ∀ s ∈ stored, Text.endsWith "/" s = false := by
  obtain ⟨bytes, -, -, hstored⟩ := h
  exact Zip.Archive.endsWith_of_fileNames hstored

namespace EntryReader

/-- The stored name of a listed entry of an archive. -/
def storedName? (reader : EntryReader) (entry : String) : Option String :=
  match reader.content with
  | .archive _ _ stored => stored.find? entry
  | .folder _ _ | .module _ _ => none

/-- As long as a reader is open it reads an entry from what an archive stores under a name. -/
def ReadsFrom (reader : EntryReader) (tree : FileTree) (archive : Zip.Archive) (s entry : String) :
    Prop :=
  ∃ data, archive.locateNamed s = .ok data ∧ ∀ closed, closed.contains reader.handle = false →
    reader.read tree closed entry = (readStored reader.path data).map some

/-- A reader of a multi-release archive lists the entries that are stored themselves and those of
which there is a version up to a limit.  The latest version counts. -/
structure ListsVersions (reader : EntryReader) (limit : Nat) (stored : List String) : Prop where
  entries : ∀ entry, entry ∈ reader.entries ↔
    (entry ∈ stored ∧ Text.beginsWith versionsFolder entry = false) ∨
      ∃ s ∈ stored, ∃ v, IsVersionUpTo limit entry s v
  names : ∀ entry s, reader.storedName? entry = some s ↔
    (∃ v, IsLatest (IsVersionUpTo limit entry) stored s v) ∨
      (∀ t ∈ stored, ∀ v, ¬ IsVersionUpTo limit entry t v) ∧
        s = entry ∧ entry ∈ stored ∧ Text.beginsWith versionsFolder entry = false

section
variable {tree : FileTree} {path : Path} {archive : Zip.Archive} {stored : List String}
  {release : Option Nat} {handle : Handle} {reader : EntryReader} {s entry : String}

theorem openArchive_eq_iff_of_hasArchive (h : tree.HasArchive path archive stored) :
    openArchive tree handle path release = .ok reader ↔
      reader = {
        content := .archive path archive (foldEntries (Layout.ofArchive path release archive) stored)
        handle } := by
  obtain ⟨bytes, hbytes, harchive, hstored⟩ := h
  rw [openArchive_eq_ok_iff]
  constructor
  · rintro ⟨bytes', archive', stored', hbytes', harchive', hstored', rfl⟩
    obtain rfl := Node.file.inj (Except.ok.inj (hbytes.symm.trans hbytes'))
    obtain rfl := Except.ok.inj (harchive.symm.trans harchive')
    obtain rfl := Except.ok.inj (hstored.symm.trans hstored')
    rfl
  · intro h
    exact ⟨bytes, archive, stored, hbytes, harchive, hstored, h⟩

variable (h : tree.HasArchive path archive stored)
  (hopen : openArchive tree handle path release = .ok reader)
include h hopen

theorem storedName?_iff_of_hasArchive :
    reader.storedName? entry = some s ↔
      (Layout.ofArchive path release archive).Counts stored s entry := by
  obtain rfl := (openArchive_eq_iff_of_hasArchive h).mp hopen
  exact find?_foldEntries_iff

theorem mem_entries_iff_of_hasArchive :
    entry ∈ reader.entries ↔
      ∃ s, (Layout.ofArchive path release archive).Counts stored s entry := by
  obtain rfl := (openArchive_eq_iff_of_hasArchive h).mp hopen
  simp only [← find?_foldEntries_iff]
  rw [← Option.isSome_iff_exists]
  exact OrderedMap.contains_iff.symm

/-- An entry is read from the stored name that is looked up for it. -/
theorem readsFrom_of_storedName? (hs : reader.storedName? entry = some s) :
    reader.ReadsFrom tree archive s entry := by
  have hcounts := (storedName?_iff_of_hasArchive h hopen).mp hs
  have hcontains : reader.contains entry = true :=
    decide_eq_true ((mem_entries_iff_of_hasArchive h hopen).mpr ⟨s, hcounts⟩)
  obtain ⟨data, hdata⟩ : ∃ data, archive.locateNamed s = .ok data := by
    obtain ⟨bytes, -, -, hstored⟩ := h
    exact Zip.Archive.locateNamed_of_fileNames hstored hcounts.mem
  refine ⟨data, hdata, fun closed hclosed => ?_⟩
  unfold read
  rw [hcontains, hclosed]
  obtain rfl := (openArchive_eq_iff_of_hasArchive h).mp hopen
  change OrderedMap.find? _ entry = some s at hs
  simp only [readListed, hs, hdata]
  rfl

theorem listsVersions_of_multiRelease {limit : Nat} (hjmod : path.isJmod = false)
    (hmulti : archive.isMultiRelease = true) (hrelease : release = some limit) :
    reader.ListsVersions limit stored := by
  have hlayout : Layout.ofArchive path (some limit) archive = .versioned limit :=
    Layout.ofArchive_of_multiRelease hjmod hmulti
  subst hrelease
  constructor
  · intro n
    rw [mem_entries_iff_of_hasArchive h hopen, hlayout]
    exact Layout.exists_counts_versioned_iff h.endsWith
  · intro n t
    rw [storedName?_iff_of_hasArchive h hopen, hlayout]
    exact Layout.counts_versioned_iff h.endsWith

end

/-- No two of the stored names are versions of one entry for one release. -/
def VersionsDiffer (stored : List String) : Prop :=
  ∀ s ∈ stored, ∀ t ∈ stored, ∀ v entry, IsVersion s v entry → IsVersion t v entry → s = t

/-- Archives that store the same names in different orders read the same entries from them. -/
theorem storedName?_eq_of_perm {tree tree' : FileTree} {path path' : Path}
    {archive archive' : Zip.Archive} {stored stored' : List String} {limit : Nat}
    {handle handle' : Handle} {reader reader' : EntryReader}
    (h : tree.HasArchive path archive stored) (h' : tree'.HasArchive path' archive' stored')
    (hlayout : Layout.ofArchive path (some limit) archive = .versioned limit)
    (hlayout' : Layout.ofArchive path' (some limit) archive' = .versioned limit)
    (hopen : openArchive tree handle path (some limit) = .ok reader)
    (hopen' : openArchive tree' handle' path' (some limit) = .ok reader')
    (hperm : stored'.Perm stored) (hdiffer : VersionsDiffer stored) :
    reader'.storedName? = reader.storedName? := by
  funext entry
  refine Option.ext fun s => ?_
  rw [storedName?_iff_of_hasArchive h' hopen', storedName?_iff_of_hasArchive h hopen, hlayout,
    hlayout']
  exact Layout.counts_perm h.endsWith hperm fun s hs t ht v => hdiffer s hs t ht v entry

/-- What a reader of an archive lists, and which stored names it reads.  Of a multi-release archive
that is opened for a release these are the latest versions, in whatever order they are stored as long
as they differ; without versions an entry is stored under its own name, or in the section for
classes if the archive is a packed module. -/
theorem lists_of_hasArchive {tree : FileTree} {path : Path} {archive : Zip.Archive}
    {stored : List String} (h : tree.HasArchive path archive stored) (handle : Handle)
    (release : Option Nat) :
    ∃ reader, openArchive tree handle path release = .ok reader ∧
      (∀ entry s, reader.storedName? entry = some s → reader.ReadsFrom tree archive s entry) ∧
      (path.isJmod = false → archive.isMultiRelease = true → ∀ limit, release = some limit →
        reader.ListsVersions limit stored ∧
        (VersionsDiffer stored → ∀ tree' path' archive' stored' handle' reader',
          FileTree.HasArchive tree' path' archive' stored' → path'.isJmod = false →
          archive'.isMultiRelease = true → stored'.Perm stored →
          openArchive tree' handle' path' (some limit) = .ok reader' →
          reader'.storedName? = reader.storedName?)) ∧
      (path.isJmod = false → release = none ∨ archive.isMultiRelease = false → ∀ entry,
        (entry ∈ reader.entries ↔
          entry ∈ stored ∧ Text.beginsWith versionsFolder entry = false) ∧
        (entry ∈ reader.entries → reader.storedName? entry = some entry)) ∧
      (path.isJmod = true → ∀ entry,
        (entry ∈ reader.entries ↔ classesSection ++ entry ∈ stored) ∧
        (entry ∈ reader.entries → reader.storedName? entry = some (classesSection ++ entry))) := by
  obtain ⟨reader, hopen⟩ : ∃ reader, openArchive tree handle path release = .ok reader :=
    ⟨_, (openArchive_eq_iff_of_hasArchive h).mpr rfl⟩
  refine ⟨reader, hopen, fun entry s => readsFrom_of_storedName? h hopen, ?multi, ?plain, ?packed⟩
  case multi =>
    intro hjmod hmulti limit hrelease
    refine ⟨listsVersions_of_multiRelease h hopen hjmod hmulti hrelease, ?_⟩
    subst hrelease
    intro hdiffer tree' path' archive' stored' handle' reader' h' hjmod' hmulti' hperm hopen'
    exact storedName?_eq_of_perm h h' (Layout.ofArchive_of_multiRelease hjmod hmulti)
      (Layout.ofArchive_of_multiRelease hjmod' hmulti') hopen hopen' hperm hdiffer
  case plain =>
    intro hjmod hplain entry
    rw [mem_entries_iff_of_hasArchive h hopen, storedName?_iff_of_hasArchive h hopen,
      Layout.ofArchive_of_plain hjmod hplain]
    simp only [Layout.counts_plain_iff h.endsWith, exists_eq_left, true_and, imp_self, and_self]
  case packed =>
    intro hjmod entry
    rw [mem_entries_iff_of_hasArchive h hopen, storedName?_iff_of_hasArchive h hopen,
      Layout.ofArchive_of_jmod hjmod]
    simp only [Layout.counts_sections_iff h.endsWith, exists_eq_left, true_and, imp_self, and_self]

end EntryReader

/-! ## An archive with versions -/

namespace Zip
open Binary

/-- What both records of a file have in front of its name: its checksum, its length before and after
packing, and the length of its name. -/
def measures (name content : Bytes) : Bytes :=
  toLittleEndian 4 (crc32 content).toNat ++ toLittleEndian 4 content.length ++
    toLittleEndian 4 content.length ++ toLittleEndian 2 name.length ++ toLittleEndian 2 0

/-- The record in front of the content of a file that is not packed. -/
def localRecord (name content : Bytes) : Bytes :=
  toLittleEndian 4 localMark ++ List.replicate 10 0 ++ measures name content ++ name

/-- The record of such a file in the directory. -/
def directoryRecord (start : Nat) (name content : Bytes) : Bytes :=
  toLittleEndian 4 directoryMark ++ List.replicate 12 0 ++ measures name content ++
    List.replicate 10 0 ++ toLittleEndian 4 start ++ name

/-- The contents and the directory of files that follow each other from a position on. -/
def recordsFrom : Nat → List (String × String) → Bytes × Bytes
  | _, [] => ([], [])
  | start, (name, text) :: files =>
    let name := Utf8.encode name
    let content := Utf8.encode text
    let stored := localRecord name content ++ content
    let (rest, directory) := recordsFrom (start + stored.length) files
    (stored ++ rest, directoryRecord start name content ++ directory)

/-- The archive of some files, none of which is packed. -/
def archiveOf (files : List (String × String)) : Bytes :=
  let (contents, directory) := recordsFrom 0 files
  contents ++ directory ++ toLittleEndian 4 endMark ++ List.replicate 4 0 ++
    toLittleEndian 2 files.length ++ toLittleEndian 2 files.length ++
    toLittleEndian 4 directory.length ++ toLittleEndian 4 contents.length ++ List.replicate 2 0

end Zip

namespace Shop

/-- A list of prices, with a version for release 17 that stands in front of an older one. -/
def editions : List (String × String) :=
  [(manifestEntry, "Multi-Release: true\n"), ("META-INF/versions/17/prices", "3"),
    ("prices", "1"), ("META-INF/versions/11/prices", "2")]

/-- The file tree with the archive of these. -/
def editionsTree : FileTree where
  root := .file "editions.jar" (Zip.archiveOf editions) .empty

theorem hasArchive_editions :
    ∃ archive, archive.isMultiRelease = true ∧
      editionsTree.HasArchive ⟨"/editions.jar"⟩ archive (editions.map Prod.fst) := by
  have hbytes : editionsTree.status ⟨"/editions.jar"⟩ = .ok (.file (Zip.archiveOf editions)) :=
    FileTree.status_root_item (by decide : IsName "editions.jar") rfl nofun
  exact FileTree.exists_hasArchive hbytes (by decide +kernel)

/-- For release 17 the version in front counts. -/
theorem lists_of_hasArchive_editions :
    ∃ reader,
      EntryReader.openArchive editionsTree ⟨0, .whole⟩ ⟨"/editions.jar"⟩ (some 17) = .ok reader ∧
        reader.storedName? "prices" = some "META-INF/versions/17/prices" := by
  obtain ⟨archive, hmulti, h⟩ := hasArchive_editions
  obtain ⟨reader, hopen, -, hversions, -⟩ :=
    EntryReader.lists_of_hasArchive h ⟨0, .whole⟩ (some 17)
  obtain ⟨hlists, -⟩ := hversions (by decide) hmulti 17 rfl
  refine ⟨reader, hopen, (hlists.names _ _).mpr (.inl ⟨17, ?_⟩)⟩
  refine ⟨⟨by decide, Nat.le_refl 17⟩, [manifestEntry], ["prices", _], rfl, ?_, ?_⟩
  · exact fun t _ w hw => hw.2
  · intro t ht w hw
    rcases List.mem_cons.mp ht with rfl | ht
    · have hplain : Text.afterFront? versionsFolder "prices" = none := by decide
      have hversion := isVersion_iff.mp hw.1
      rw [hplain] at hversion
      cases hversion
    · obtain rfl := List.mem_singleton.mp ht
      have holder : IsVersion "META-INF/versions/11/prices" 11 "prices" := by decide
      obtain rfl := hw.1.release_eq holder
      decide

end Shop
end ModuleAtlas
