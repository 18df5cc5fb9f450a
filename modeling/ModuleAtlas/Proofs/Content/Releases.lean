import Mathlib.Order.WithBot
import ModuleAtlas.Proofs.Content.Archives

/-! # Releases of one archive

An archive can be opened for any release, and for none.  Of a multi-release archive a later
release makes more of the stored names count and hides none: what is listed without a release is
listed with every one, what is listed for a release is listed for the later ones, and no entry
falls back to an earlier version (`Layout.releaseOf_le_of_counts`).  An entry that has no version
between two releases is read from the same stored name for both
(`Layout.counts_iff_of_no_version_between`).  For any other archive the release does not matter at
all (`Layout.ofArchive_eq_of_unversioned`).
-/
namespace ModuleAtlas

/-! ## The release of a stored name -/

/-- The release that a stored name is a version of an entry for.  An entry that is stored itself
comes before all releases. -/
def releaseOf (stored entry : String) : WithBot ℕ :=
  match (Text.afterFront? versionsFolder stored).bind versionedEntry? with
  | some (release, name) => if name = entry then WithBot.some release else ⊥
  | none => ⊥

section
variable {s entry : String} {release : ℕ}

theorem releaseOf_eq_some_iff :
    releaseOf s entry = WithBot.some release ↔ IsVersion s release entry := by
  constructor
  · intro h
    unfold releaseOf at h
    split at h
    · next v n hversion =>
      by_cases hn : n = entry
      · rw [if_pos hn, WithBot.coe_inj] at h
        rw [isVersion_iff, hversion, h, hn]
      · rw [if_neg hn] at h
        exact absurd h WithBot.bot_ne_coe
    · exact absurd h WithBot.bot_ne_coe
  · intro h
    rw [releaseOf, isVersion_iff.mp h]
    exact if_pos rfl

theorem releaseOf_of_base (h : Text.beginsWith versionsFolder s = false) :
    releaseOf s entry = ⊥ := by
  rw [releaseOf, Text.afterFront?_eq_none_iff.mpr h]
  rfl

end

/-- The release of the version that a reader of an archive reads an entry from. -/
def EntryReader.releaseRead (reader : EntryReader) (entry : String) : WithBot ℕ :=
  match reader.storedName? entry with
  | some s => releaseOf s entry
  | none => ⊥

/-! ## Two releases -/

namespace Layout

theorem ofArchive_eq_of_unversioned {path : Path} {archive : Zip.Archive}
    (h : path.isJmod = true ∨ archive.isMultiRelease = false) (release : Option ℕ) :
    ofArchive path release archive = ofArchive path none archive := by
  cases hjmod : path.isJmod with
  | true => rw [ofArchive_of_jmod hjmod, ofArchive_of_jmod hjmod]
  | false =>
    have hplain : archive.isMultiRelease = false := by
      rw [hjmod] at h
      exact h.resolve_left Bool.false_ne_true
    rw [ofArchive_of_plain hjmod (.inr hplain), ofArchive_of_plain hjmod (.inl rfl)]

section
variable {stored : List String} {s t entry : String} {limit limit' : ℕ}
  (hfiles : ∀ s ∈ stored, Text.endsWith "/" s = false)
include hfiles

/-- What is listed without a release is listed with any. -/
theorem exists_counts_versioned_of_plain (h : plain.Counts stored s entry) :
    ∃ t, (versioned limit).Counts stored t entry :=
  (exists_counts_versioned_iff hfiles).mpr (.inl ((counts_plain_iff hfiles).mp h).2)

variable (hle : limit ≤ limit')
include hle

/-- What is listed for a release is listed for the later ones. -/
theorem exists_counts_versioned_of_le (h : (versioned limit).Counts stored s entry) :
    ∃ t, (versioned limit').Counts stored t entry := by
  refine (exists_counts_versioned_iff hfiles).mpr ?_
  rcases (exists_counts_versioned_iff hfiles).mp ⟨s, h⟩ with hbase | ⟨t, ht, v, hversion⟩
  · exact .inl hbase
  · exact .inr ⟨t, ht, v, hversion.1, hversion.2.trans hle⟩

/-- For a later release an entry is not read from an earlier version. -/
theorem releaseOf_le_of_counts (h : (versioned limit).Counts stored s entry)
    (h' : (versioned limit').Counts stored t entry) : releaseOf s entry ≤ releaseOf t entry := by
  rcases h with ⟨v, hlatest⟩ | ⟨-, hs, hbase⟩
  · have hs := hlatest.mem
    have hversion := (classify_version_iff (hfiles s hs)).mp hlatest.version
    -- the version that counts for the release is there for the later one, among others
    have hthere : (versioned limit').classify s = .version v entry :=
      (classify_version_iff (hfiles s hs)).mpr ⟨hversion.1, hversion.2.trans hle⟩
    obtain ⟨w, hlatest'⟩ := (counts_iff_of_version hs hthere).mp h'
    have hversion' := (classify_version_iff (hfiles t hlatest'.mem)).mp hlatest'.version
    rw [releaseOf_eq_some_iff.mpr hversion.1, releaseOf_eq_some_iff.mpr hversion'.1]
    exact WithBot.coe_le_coe.mpr (hlatest'.le hs hthere)
  · have hplain := ((classify_versioned_base_iff (hfiles s hs)).mp hbase).2
    rw [releaseOf_of_base hplain]
    exact bot_le

omit hle in
/-- An entry without a version between two releases has the same stored name for both. -/
theorem counts_iff_of_no_version_between
    (h : ∀ s ∈ stored, ∀ v, IsVersion s v entry → (v ≤ limit ↔ v ≤ limit')) :
    (versioned limit).Counts stored s entry ↔ (versioned limit').Counts stored s entry := by
  have hupTo : ∀ t ∈ stored, ∀ v, IsVersionUpTo limit entry t v ↔ IsVersionUpTo limit' entry t v :=
    fun t ht v => and_congr_right (h t ht v)
  rw [counts_versioned_iff hfiles, counts_versioned_iff hfiles]
  refine or_congr (exists_congr fun v => ?_) (and_congr_left fun _ => ?_)
  · exact ⟨.of_iff hupTo, .of_iff fun t ht w => (hupTo t ht w).symm⟩
  · exact forall₂_congr fun t ht => forall_congr' fun v => not_congr (hupTo t ht v)

end

/-- Either the release does not matter, or versions count as soon as there is one. -/
theorem ofArchive_cases (path : Path) (archive : Zip.Archive) :
    (∀ release, ofArchive path release archive = ofArchive path none archive) ∨
      ofArchive path none archive = .plain ∧
        ∀ limit, ofArchive path (some limit) archive = .versioned limit := by
  cases hjmod : path.isJmod with
  | true => exact .inl (ofArchive_eq_of_unversioned (.inl hjmod))
  | false =>
    cases hmulti : archive.isMultiRelease with
    | true =>
      exact .inr ⟨ofArchive_of_plain hjmod (.inl rfl),
        fun limit => ofArchive_of_multiRelease hjmod hmulti⟩
    | false => exact .inl (ofArchive_eq_of_unversioned (.inr hmulti))

end Layout

namespace EntryReader

section
variable {tree : FileTree} {path : Path} {archive : Zip.Archive} {stored : List String}
  {handle : Handle} {base older newer : EntryReader} {entry : String} {limit limit' : ℕ}
  (h : tree.HasArchive path archive stored)
include h

theorem mem_entries_iff_storedName? {release : Option ℕ} {reader : EntryReader}
    (hopen : openArchive tree handle path release = .ok reader) :
    entry ∈ reader.entries ↔ ∃ s, reader.storedName? entry = some s := by
  simp only [mem_entries_iff_of_hasArchive h hopen, storedName?_iff_of_hasArchive h hopen]

variable (hbase : openArchive tree handle path none = .ok base)
  (holder : openArchive tree handle path (some limit) = .ok older)
  (hnewer : openArchive tree handle path (some limit') = .ok newer)

include hbase holder in
theorem entries_subset_of_release : base.entries ⊆ older.entries := by
  intro n hn
  rw [mem_entries_iff_of_hasArchive h hbase] at hn
  rw [mem_entries_iff_of_hasArchive h holder]
  rcases Layout.ofArchive_cases path archive with hsame | ⟨hplain, hversioned⟩
  · rw [hsame]
    exact hn
  · rw [hplain] at hn
    rw [hversioned]
    obtain ⟨s, hs⟩ := hn
    exact Layout.exists_counts_versioned_of_plain h.endsWith hs

include holder hnewer

theorem entries_subset_of_le (hle : limit ≤ limit') : older.entries ⊆ newer.entries := by
  intro n hn
  rw [mem_entries_iff_of_hasArchive h holder] at hn
  rw [mem_entries_iff_of_hasArchive h hnewer]
  rcases Layout.ofArchive_cases path archive with hsame | ⟨-, hversioned⟩
  · rw [hsame] at hn ⊢
    exact hn
  · rw [hversioned] at hn ⊢
    obtain ⟨s, hs⟩ := hn
    exact Layout.exists_counts_versioned_of_le h.endsWith hle hs

theorem storedName?_eq_of_layout (entry : String)
    (hlayout : Layout.ofArchive path (some limit) archive =
      Layout.ofArchive path (some limit') archive) :
    older.storedName? entry = newer.storedName? entry := by
  refine Option.ext fun s => ?_
  rw [storedName?_iff_of_hasArchive h holder, storedName?_iff_of_hasArchive h hnewer, hlayout]

theorem releaseRead_le_of_le (hle : limit ≤ limit') :
    older.releaseRead entry ≤ newer.releaseRead entry := by
  rcases Layout.ofArchive_cases path archive with hsame | ⟨-, hversioned⟩
  · have hname := storedName?_eq_of_layout h holder hnewer entry ((hsame _).trans (hsame _).symm)
    rw [releaseRead, releaseRead, hname]
  · cases hs : older.storedName? entry with
    | none =>
      rw [releaseRead, hs]
      exact bot_le
    | some s =>
      -- the entry is listed for the later release as well
      have hlisted := entries_subset_of_le h holder hnewer hle
        ((mem_entries_iff_storedName? h holder).mpr ⟨s, hs⟩)
      obtain ⟨t, ht⟩ := (mem_entries_iff_storedName? h hnewer).mp hlisted
      rw [releaseRead, releaseRead, hs, ht]
      rw [storedName?_iff_of_hasArchive h holder, hversioned] at hs
      rw [storedName?_iff_of_hasArchive h hnewer, hversioned] at ht
      exact Layout.releaseOf_le_of_counts h.endsWith hle hs ht

theorem storedName?_eq_of_no_version_between
    (hnone : ∀ s ∈ stored, ∀ v, limit < v → v ≤ limit' → ¬ IsVersion s v entry)
    (hle : limit ≤ limit') :
    older.storedName? entry = newer.storedName? entry := by
  rcases Layout.ofArchive_cases path archive with hsame | ⟨-, hversioned⟩
  · exact storedName?_eq_of_layout h holder hnewer entry ((hsame _).trans (hsame _).symm)
  · refine Option.ext fun s => ?_
    rw [storedName?_iff_of_hasArchive h holder, storedName?_iff_of_hasArchive h hnewer,
      hversioned, hversioned]
    refine Layout.counts_iff_of_no_version_between h.endsWith fun s hs v hversion => ?_
    refine ⟨fun hv => hv.trans hle, fun hv => ?_⟩
    exact Nat.le_of_not_lt fun hlt => hnone s hs v hlt hv hversion

end
/-- Where versions do not count, an archive gives one reader for every release. -/
theorem openArchive_eq_of_unversioned {tree : FileTree} {path : Path} {archive : Zip.Archive}
    {stored : List String} {handle : Handle} {base : EntryReader}
    (h : tree.HasArchive path archive stored)
    (hbase : openArchive tree handle path none = .ok base)
    (hplain : path.isJmod = true ∨ archive.isMultiRelease = false) (release : Option ℕ) :
    openArchive tree handle path release = .ok base := by
  rw [openArchive_eq_iff_of_hasArchive h, Layout.ofArchive_eq_of_unversioned hplain]
  exact (openArchive_eq_iff_of_hasArchive h).mp hbase

/-- **A later release only adds.**  What an archive lists without a release it lists for every
release, and what it lists for a release it lists for the later ones.  No entry is read from the
version for an earlier release than before.  An entry without a version between the two releases
is listed for both or for neither, and read from one stored name.  A packed module, and an archive
that does not declare versions, gives the same reader for every release and for none. -/
theorem grows_with_release {tree : FileTree} {path : Path} {archive : Zip.Archive}
    {stored : List String} (h : tree.HasArchive path archive stored) (handle : Handle)
    {limit limit' : ℕ} (hle : limit ≤ limit') :
    ∃ base older newer, openArchive tree handle path none = .ok base ∧
      openArchive tree handle path (some limit) = .ok older ∧
      openArchive tree handle path (some limit') = .ok newer ∧
      base.entries ⊆ older.entries ∧ older.entries ⊆ newer.entries ∧
      (∀ entry ∈ older.entries, older.releaseRead entry ≤ newer.releaseRead entry) ∧
      (∀ entry, (∀ s ∈ stored, ∀ v, limit < v → v ≤ limit' → ¬ IsVersion s v entry) →
        (entry ∈ older.entries ↔ entry ∈ newer.entries) ∧
          (entry ∈ older.entries → ∃ s, older.storedName? entry = some s ∧
            newer.storedName? entry = some s ∧ older.ReadsFrom tree archive s entry ∧
            newer.ReadsFrom tree archive s entry)) ∧
      (path.isJmod = true ∨ archive.isMultiRelease = false →
        ∀ release, openArchive tree handle path release = .ok base) := by
  have hopens : ∀ release, ∃ reader, openArchive tree handle path release = .ok reader :=
    fun release => ⟨_, (openArchive_eq_iff_of_hasArchive h).mpr rfl⟩
  obtain ⟨base, hbase⟩ := hopens none
  obtain ⟨older, holder⟩ := hopens (some limit)
  obtain ⟨newer, hnewer⟩ := hopens (some limit')
  refine ⟨base, older, newer, hbase, holder, hnewer, entries_subset_of_release h hbase holder,
    entries_subset_of_le h holder hnewer hle,
    fun entry _ => releaseRead_le_of_le h holder hnewer hle,
    fun entry hnone => ?_, openArchive_eq_of_unversioned h hbase⟩
  have hname := storedName?_eq_of_no_version_between h holder hnewer hnone hle
  rw [mem_entries_iff_storedName? h holder, mem_entries_iff_storedName? h hnewer, hname]
  refine ⟨Iff.rfl, ?_⟩
  rintro ⟨s, hs⟩
  exact ⟨s, hs, hs, readsFrom_of_storedName? h holder (hname.trans hs),
    readsFrom_of_storedName? h hnewer hs⟩

end EntryReader

namespace Shop

/-- Between the releases 11 and 16 nothing happens to the prices. -/
theorem grows_with_release_editions :
    ∃ older newer,
      EntryReader.openArchive editionsTree ⟨0, .whole⟩ ⟨"/editions.jar"⟩ (some 11) = .ok older ∧
        EntryReader.openArchive editionsTree ⟨0, .whole⟩ ⟨"/editions.jar"⟩ (some 16) = .ok newer ∧
        older.entries ⊆ newer.entries ∧
        older.releaseRead "prices" ≤ newer.releaseRead "prices" ∧
        ∃ s, older.storedName? "prices" = some s ∧ newer.storedName? "prices" = some s := by
  obtain ⟨archive, -, h⟩ := hasArchive_editions
  obtain ⟨base, older, newer, hbase, holder, hnewer, hfirst, hsecond, hrelease, hsame, -⟩ :=
    EntryReader.grows_with_release h ⟨0, .whole⟩ (by decide : 11 ≤ 16)
  have hlisted : "prices" ∈ base.entries := by
    have hlayout : Layout.ofArchive ⟨"/editions.jar"⟩ none archive = .plain :=
      Layout.ofArchive_of_plain (by decide) (.inl rfl)
    rw [EntryReader.mem_entries_iff_of_hasArchive h hbase, hlayout]
    exact ⟨"prices", (Layout.counts_plain_iff h.endsWith).mpr (by decide)⟩
  have hnone : ∀ s ∈ editions.map Prod.fst, ∀ v, 11 < v → v ≤ 16 → ¬ IsVersion s v "prices" := by
    have hreleases : ∀ s ∈ editions.map Prod.fst,
        ∀ p ∈ (Text.afterFront? versionsFolder s).bind versionedEntry?,
          ¬ (11 < p.1 ∧ p.1 ≤ 16) := by
      decide
    exact fun s hs v hlt hle hversion => hreleases s hs _ (isVersion_iff.mp hversion) ⟨hlt, hle⟩
  obtain ⟨s, hs, hs', -⟩ := (hsame "prices" hnone).2 (hfirst hlisted)
  exact ⟨older, newer, holder, hnewer, hsecond, hrelease "prices" (hfirst hlisted), s, hs, hs'⟩

end Shop

end ModuleAtlas
