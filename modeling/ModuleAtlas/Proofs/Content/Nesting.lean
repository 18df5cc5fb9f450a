import ModuleAtlas.Content.Artifact
import ModuleAtlas.Proofs.Content.Archives

/-! # The folder of versions

The folder of versions is a place of storage.  A version is listed under the name of its entry, and
what else is in the folder is not listed.  But the folder is taken off a stored name only once: where
a version is that of an entry whose name leads into the folder again, a multi-release archive that is
opened for its release lists an entry in the folder of versions.  Apart from such names nothing in
the folder is listed or read, and no package comes from there (`EntryReader.hides_versionsFolder`).
-/
namespace ModuleAtlas

namespace EntryReader
variable {tree : FileTree} {path : Path} {archive : Zip.Archive} {stored : List String}
  {release : Option Nat} {handle : Handle} {reader : EntryReader} {entry : String}

/-- Entries in the folder of versions are listed only as entries that there are versions of. -/
theorem mem_entries_iff_of_versionsFolder (h : tree.HasArchive path archive stored)
    (hopen : openArchive tree handle path release = .ok reader) (hjmod : path.isJmod = false)
    (hentry : Text.beginsWith versionsFolder entry = true) :
    entry ∈ reader.entries ↔
      archive.isMultiRelease = true ∧
        ∃ limit, release = some limit ∧ ∃ s ∈ stored, ∃ v, IsVersionUpTo limit entry s v := by
  rw [mem_entries_iff_of_hasArchive h hopen]
  have hplain : ¬ ∃ s, Layout.plain.Counts stored s entry := by
    rintro ⟨s, hs⟩
    obtain ⟨-, -, hout⟩ := (Layout.counts_plain_iff h.endsWith).mp hs
    rw [hentry] at hout
    cases hout
  cases release with
  | none =>
    rw [Layout.ofArchive_of_plain hjmod (.inl rfl)]
    exact iff_of_false hplain fun hversion => nomatch hversion.2
  | some limit =>
    cases hmulti : archive.isMultiRelease with
    | false =>
      rw [Layout.ofArchive_of_plain hjmod (.inr hmulti)]
      exact iff_of_false hplain fun hversion => Bool.false_ne_true hversion.1
    | true =>
      rw [Layout.ofArchive_of_multiRelease hjmod hmulti,
        Layout.exists_counts_versioned_iff h.endsWith]
      have hnone : ¬ (entry ∈ stored ∧ Text.beginsWith versionsFolder entry = false) := by
        rw [hentry]
        exact fun hbase => Bool.noConfusion hbase.2
      simp only [or_iff_right hnone, true_and, Option.some_inj, exists_eq_left']

/-- **The folder of versions is hidden.**  An archive lists an entry in the folder of versions
exactly if it is a multi-release archive, opened for a release, and stores a version of this entry
for a release that is not later.  If it stores no such versions of entries in the folder, then no
entry in the folder is listed or can be read, and all packages of classes are those of entries
elsewhere. -/
theorem hides_versionsFolder (h : tree.HasArchive path archive stored)
    (hjmod : path.isJmod = false) (handle : Handle) (release : Option Nat) :
    ∃ reader, openArchive tree handle path release = .ok reader ∧
      (∀ entry, Text.beginsWith versionsFolder entry = true →
        (entry ∈ reader.entries ↔ archive.isMultiRelease = true ∧
          ∃ limit, release = some limit ∧ ∃ s ∈ stored, ∃ v, IsVersionUpTo limit entry s v)) ∧
      ((∀ s ∈ stored, ∀ v entry, IsVersion s v entry →
          Text.beginsWith versionsFolder entry = false) →
        (∀ entry, Text.beginsWith versionsFolder entry = true →
          reader.contains entry = false ∧ ∀ closed, reader.read tree closed entry = .ok none) ∧
        ∀ p ∈ Artifact.packagesOfClasses reader.entries,
          ∃ entry ∈ reader.entries, Text.beginsWith versionsFolder entry = false ∧
            EntryName.package entry = p) := by
  obtain ⟨reader, hopen⟩ : ∃ reader, openArchive tree handle path release = .ok reader :=
    ⟨_, (openArchive_eq_iff_of_hasArchive h).mpr rfl⟩
  have hlisted : ∀ entry, Text.beginsWith versionsFolder entry = true →
      (entry ∈ reader.entries ↔ archive.isMultiRelease = true ∧
        ∃ limit, release = some limit ∧ ∃ s ∈ stored, ∃ v, IsVersionUpTo limit entry s v) :=
    fun _ hin => mem_entries_iff_of_versionsFolder h hopen hjmod hin
  refine ⟨reader, hopen, hlisted, fun hflat => ?_⟩
  have hout : ∀ entry ∈ reader.entries, Text.beginsWith versionsFolder entry = false := by
    intro entry hentry
    refine Bool.eq_false_iff.mpr fun hin => ?_
    obtain ⟨-, limit, -, s, hs, v, hversion⟩ := (hlisted entry hin).mp hentry
    rw [hflat s hs v entry hversion.1] at hin
    cases hin
  constructor
  · intro entry hin
    have hcontains : reader.contains entry = false := by
      refine decide_eq_false fun hentry => ?_
      rw [hout entry hentry] at hin
      cases hin
    exact ⟨hcontains, fun closed => read_eq_none_of_not_contains tree closed hcontains⟩
  · intro p hp
    obtain ⟨entry, hentry, hpackage⟩ := List.mem_map.mp (mem_distinct.mp hp)
    have hmem := List.mem_of_mem_filter hentry
    exact ⟨entry, hmem, hout entry hmem, hpackage⟩

end EntryReader

namespace Shop

/-- A list of prices, with a version for release 9 of what is stored as a version for release 11. -/
def reprints : List (String × String) :=
  [(manifestEntry, "Multi-Release: true\n"),
    ("META-INF/versions/9/META-INF/versions/11/prices", "2"), ("prices", "1")]

/-- The file tree with the archive of these. -/
def reprintsTree : FileTree where
  root := .file "reprints.jar" (Zip.archiveOf reprints) .empty

theorem hasArchive_reprints :
    ∃ archive, archive.isMultiRelease = true ∧
      reprintsTree.HasArchive ⟨"/reprints.jar"⟩ archive (reprints.map Prod.fst) := by
  have hbytes : reprintsTree.status ⟨"/reprints.jar"⟩ = .ok (.file (Zip.archiveOf reprints)) :=
    FileTree.status_root_item (by decide : IsName "reprints.jar") rfl nofun
  exact FileTree.exists_hasArchive hbytes (by decide +kernel)

theorem isVersion_reprints :
    IsVersion "META-INF/versions/9/META-INF/versions/11/prices" 9 "META-INF/versions/11/prices" := by
  decide

/-- Opened for release 17 the archive lists an entry that looks like the version for release 11, but
not the name that this entry is stored under. -/
theorem hides_versionsFolder_reprints :
    ∃ reader,
      EntryReader.openArchive reprintsTree ⟨0, .whole⟩ ⟨"/reprints.jar"⟩ (some 17) = .ok reader ∧
        "META-INF/versions/11/prices" ∈ reader.entries ∧
        "META-INF/versions/9/META-INF/versions/11/prices" ∉ reader.entries := by
  obtain ⟨archive, hmulti, h⟩ := hasArchive_reprints
  obtain ⟨reader, hopen, hlisted, -⟩ :=
    EntryReader.hides_versionsFolder h (by decide) ⟨0, .whole⟩ (some 17)
  refine ⟨reader, hopen, ?_, fun hstored => ?_⟩
  · exact (hlisted _ (by decide)).mpr ⟨hmulti, 17, rfl, _,
      List.mem_cons_of_mem _ List.mem_cons_self, 9, isVersion_reprints, by decide⟩
  · obtain ⟨-, limit, -, s, hs, v, hversion, -⟩ := (hlisted _ (by decide)).mp hstored
    -- there is one entry that some stored name is a version of
    have hversions : ∀ s ∈ reprints.map Prod.fst,
        ∀ p ∈ (Text.afterFront? versionsFolder s).bind versionedEntry?,
          p.2 = "META-INF/versions/11/prices" := by
      decide
    have hentry : "META-INF/versions/9/META-INF/versions/11/prices" = "META-INF/versions/11/prices" :=
      hversions s hs _ (isVersion_iff.mp hversion)
    exact absurd hentry (by decide)

/-- So readers of archives do not always hide the folder of versions. -/
theorem not_hides_versionsFolder :
    ¬ ∀ (tree : FileTree) (handle : Handle) (path : Path) (release : Option Nat)
        (reader : EntryReader), path.isJmod = false →
          EntryReader.openArchive tree handle path release = .ok reader →
            ∀ entry ∈ reader.entries, Text.beginsWith versionsFolder entry = false := by
  intro h
  obtain ⟨archive, hmulti, harchive⟩ := hasArchive_reprints
  obtain ⟨reader, hopen⟩ : ∃ reader,
      EntryReader.openArchive reprintsTree ⟨0, .whole⟩ ⟨"/reprints.jar"⟩ (some 17) = .ok reader :=
    ⟨_, (EntryReader.openArchive_eq_iff_of_hasArchive harchive).mpr rfl⟩
  have hin : Text.beginsWith versionsFolder "META-INF/versions/11/prices" = true := by
    decide
  have hlisted : "META-INF/versions/11/prices" ∈ reader.entries :=
    (EntryReader.mem_entries_iff_of_versionsFolder harchive hopen (by decide) hin).mpr
      ⟨hmulti, 17, rfl, _, List.mem_cons_of_mem _ List.mem_cons_self, 9, isVersion_reprints,
        by decide⟩
  have hout := h _ _ _ _ _ (by decide) hopen _ hlisted
  rw [hin] at hout
  cases hout

end Shop
end ModuleAtlas
