import Mathlib.Data.List.Induction
import ModuleAtlas.Proofs.Content.StoredNames

/-! # Versions of entries

The stored names of an archive are gone through once, in the order of its directory, and a table is
kept from entries to stored names.  After any number of names the table has for each entry the
version for the latest release, and of several for that release the last one; an entry of which
there is no version has its own stored name (`FoldState.Describes`).

What a stored name stands for depends on the layout only, and the invariant is told in terms of it;
the names themselves come in where each layout is looked at by itself (`IsVersion`).  Where no two
stored names are versions of one entry for one release, the latest version is the one for the
greatest release, and so the order of the directory does not matter (`Layout.counts_perm`).
-/
namespace ModuleAtlas

/-! ## Latest versions -/

/-- Of the stored names that are for a release, one is the latest: it is for a release that is not
earlier than that of any other, and later than that of every one behind it. -/
structure IsLatest (isFor : String → Nat → Prop) (stored : List String) (s : String) (v : Nat) :
    Prop where
  version : isFor s v
  place : ∃ before after, stored = before ++ s :: after ∧
    (∀ t ∈ before, ∀ w, isFor t w → w ≤ v) ∧ ∀ t ∈ after, ∀ w, isFor t w → w < v

theorem IsLatest.of_iff {isFor isFor' : String → Nat → Prop} {stored : List String} {s : String}
    {v : Nat} (h : ∀ t ∈ stored, ∀ w, isFor t w ↔ isFor' t w)
    (hlatest : IsLatest isFor stored s v) : IsLatest isFor' stored s v := by
  obtain ⟨hversion, before, after, rfl, hbefore, hafter⟩ := hlatest
  refine ⟨(h s ?_ v).mp hversion, before, after, rfl, fun t ht w hw => ?_, fun t ht w hw => ?_⟩
  · exact List.mem_append_right _ List.mem_cons_self
  · exact hbefore t ht w ((h t (List.mem_append_left _ ht) w).mpr hw)
  · refine hafter t ht w ((h t ?_ w).mpr hw)
    exact List.mem_append_right _ (List.mem_cons_of_mem _ ht)

namespace Layout
variable {layout : Layout} {stored : List String} {s t entry : String} {v w : Nat}

/-- A stored name is the latest version of an entry. -/
def Latest (layout : Layout) (stored : List String) (s : String) (v : Nat) (entry : String) :
    Prop :=
  IsLatest (fun t w => layout.classify t = .version w entry) stored s v

theorem Latest.mem (h : layout.Latest stored s v entry) : s ∈ stored := by
  obtain ⟨before, after, rfl, -⟩ := h.place
  exact List.mem_append_right _ List.mem_cons_self

theorem Latest.le (h : layout.Latest stored s v entry) (ht : t ∈ stored)
    (hversion : layout.classify t = .version w entry) : w ≤ v := by
  obtain ⟨before, after, rfl, hbefore, hafter⟩ := h.place
  rcases List.mem_append.mp ht with ht | ht
  · exact hbefore t ht w hversion
  rcases List.mem_cons.mp ht with rfl | ht
  · have hv := h.version
    rw [hversion] at hv
    obtain ⟨rfl, -⟩ := StoredName.version.inj hv
    exact Nat.le_refl w
  · exact Nat.le_of_lt (hafter t ht w hversion)

/-- A name at the end takes over from names for releases that are not later. -/
theorem latest_concat_iff :
    layout.Latest (stored ++ [s]) t v entry ↔
      (layout.Latest stored t v entry ∧ ∀ w, layout.classify s = .version w entry → w < v) ∨
        t = s ∧ layout.classify s = .version v entry ∧
          ∀ r ∈ stored, ∀ w, layout.classify r = .version w entry → w ≤ v := by
  constructor
  · rintro ⟨hversion, before, after, he, hbefore, hafter⟩
    rcases List.eq_nil_or_concat after with rfl | ⟨after, last, rfl⟩
    · obtain ⟨rfl, hlast⟩ := List.append_inj' he rfl
      obtain rfl := List.singleton_inj.mp hlast
      exact .inr ⟨rfl, hversion, hbefore⟩
    · have hsplit : stored ++ [s] = (before ++ t :: after) ++ [last] := by
        rw [he, List.concat_eq_append, List.append_assoc, List.cons_append]
      obtain ⟨rfl, hlast⟩ := List.append_inj' hsplit rfl
      obtain rfl := List.singleton_inj.mp hlast
      rw [List.concat_eq_append] at hafter
      refine .inl ⟨⟨hversion, before, after, rfl, hbefore, fun r hr => ?_⟩, ?_⟩
      · exact hafter r (List.mem_append_left _ hr)
      · exact hafter s (List.mem_append_right _ List.mem_cons_self)
  · rintro (⟨⟨hversion, before, after, rfl, hbefore, hafter⟩, hlast⟩ | ⟨rfl, hversion, hbefore⟩)
    · refine ⟨hversion, before, after ++ [s], ?_, hbefore, fun r hr => ?_⟩
      · rw [List.append_assoc, List.cons_append]
      · rcases List.mem_append.mp hr with hr | hr
        · exact hafter r hr
        · exact List.mem_singleton.mp hr ▸ hlast
    · exact ⟨hversion, stored, [], rfl, hbefore, fun r hr => absurd hr List.not_mem_nil⟩

/-- If there are versions of an entry, there is a latest one. -/
theorem exists_latest (hs : s ∈ stored) (hversion : layout.classify s = .version v entry) :
    ∃ t w, layout.Latest stored t w entry := by
  induction stored using List.reverseRecOn generalizing s v with
  | nil => exact absurd hs List.not_mem_nil
  | append_singleton stored last ih =>
    by_cases hearlier : ∃ r ∈ stored, ∃ u, layout.classify r = .version u entry
    · obtain ⟨r, hr, u, hu⟩ := hearlier
      obtain ⟨t, w, ht⟩ := ih hr hu
      -- the last name takes over unless it is for an earlier release
      by_cases hlast : ∃ u, layout.classify last = .version u entry ∧ w ≤ u
      · obtain ⟨u, hu, hwu⟩ := hlast
        refine ⟨last, u, latest_concat_iff.mpr (.inr ⟨rfl, hu, fun r hr x hx => ?_⟩)⟩
        exact Nat.le_trans (ht.le hr hx) hwu
      · refine ⟨t, w, latest_concat_iff.mpr (.inl ⟨ht, fun u hu => ?_⟩)⟩
        exact Nat.lt_of_not_le fun hwu => hlast ⟨u, hu, hwu⟩
    · rcases List.mem_append.mp hs with hs | hs
      · exact absurd ⟨s, hs, v, hversion⟩ hearlier
      · obtain rfl := List.mem_singleton.mp hs
        refine ⟨s, v, latest_concat_iff.mpr (.inr ⟨rfl, hversion, fun r hr x hx => ?_⟩)⟩
        exact absurd ⟨r, hr, x, hx⟩ hearlier

/-- Where different names are never versions of an entry for the same release, the latest version is
the one for the greatest release. -/
theorem latest_iff_of_distinct
    (h : ∀ s ∈ stored, ∀ t ∈ stored, ∀ v, layout.classify s = .version v entry →
      layout.classify t = .version v entry → s = t) :
    layout.Latest stored s v entry ↔
      s ∈ stored ∧ layout.classify s = .version v entry ∧
        ∀ t ∈ stored, ∀ w, layout.classify t = .version w entry → w ≤ v := by
  constructor
  · intro hlatest
    exact ⟨hlatest.mem, hlatest.version, fun t ht w hw => hlatest.le ht hw⟩
  · rintro ⟨hs, hversion, hgreatest⟩
    obtain ⟨t, w, ht⟩ := exists_latest hs hversion
    have hw : w = v := Nat.le_antisymm (hgreatest t ht.mem w ht.version) (ht.le hs hversion)
    subst hw
    rw [h s hs t ht.mem w hversion ht.version]
    exact ht

theorem ne_version_of_ne {other : String} (hs : layout.classify s = .version v entry)
    (hne : entry ≠ other) (w : Nat) : layout.classify s ≠ .version w other := by
  intro hother
  exact hne (StoredName.version.inj (hs.symm.trans hother)).2

/-- Nothing changes for an entry that the name at the end is no version of. -/
theorem latest_concat_of_ne (h : ∀ w, layout.classify s ≠ .version w entry) :
    layout.Latest (stored ++ [s]) t v entry ↔ layout.Latest stored t v entry := by
  rw [latest_concat_iff]
  constructor
  · rintro (⟨hlatest, -⟩ | ⟨-, hversion, -⟩)
    · exact hlatest
    · exact absurd hversion (h v)
  · exact fun hlatest => .inl ⟨hlatest, fun w hw => absurd hw (h w)⟩

/-- A version for an earlier release does not count. -/
theorem latest_concat_of_lt {r : String} {u : Nat} (hr : layout.Latest stored r w entry)
    (hs : layout.classify s = .version v entry) (hlt : v < w) :
    layout.Latest (stored ++ [s]) t u entry ↔ layout.Latest stored t u entry := by
  rw [latest_concat_iff]
  constructor
  · rintro (⟨hlatest, -⟩ | ⟨-, hversion, hgreatest⟩)
    · exact hlatest
    · obtain ⟨rfl, -⟩ := StoredName.version.inj (hs.symm.trans hversion)
      have hle := hgreatest r hr.mem w hr.version
      omega
  · intro hlatest
    refine .inl ⟨hlatest, fun x hx => ?_⟩
    obtain ⟨rfl, -⟩ := StoredName.version.inj (hs.symm.trans hx)
    have hle := hlatest.le hr.mem hr.version
    omega

/-- A version that is not for an earlier release takes over. -/
theorem latest_concat_of_le {u : Nat} (hs : layout.classify s = .version v entry)
    (hle : ∀ r ∈ stored, ∀ w, layout.classify r = .version w entry → w ≤ v) :
    layout.Latest (stored ++ [s]) t u entry ↔ t = s ∧ u = v := by
  rw [latest_concat_iff]
  constructor
  · rintro (⟨hlatest, hlast⟩ | ⟨rfl, hversion, -⟩)
    · have hlt := hlast v hs
      have hgreatest := hle t hlatest.mem u hlatest.version
      omega
    · exact ⟨rfl, (StoredName.version.inj (hs.symm.trans hversion)).1.symm⟩
  · rintro ⟨rfl, rfl⟩
    exact .inr ⟨rfl, hs, hle⟩

/-! ## What counts for an entry -/

/-- No name is a version of an entry. -/
def Unversioned (layout : Layout) (stored : List String) (entry : String) : Prop :=
  ∀ s ∈ stored, ∀ v, layout.classify s ≠ .version v entry

/-- The name that counts for an entry: its latest version, or the entry itself if there is none. -/
def Counts (layout : Layout) (stored : List String) (s entry : String) : Prop :=
  (∃ v, layout.Latest stored s v entry) ∨
    layout.Unversioned stored entry ∧ s ∈ stored ∧ layout.classify s = .base entry

theorem Counts.mem (h : layout.Counts stored s entry) : s ∈ stored := by
  rcases h with ⟨v, hlatest⟩ | ⟨-, hs, -⟩
  · exact hlatest.mem
  · exact hs

theorem unversioned_concat_iff :
    layout.Unversioned (stored ++ [s]) entry ↔
      layout.Unversioned stored entry ∧ ∀ v, layout.classify s ≠ .version v entry := by
  unfold Unversioned
  rw [List.forall_mem_append, List.forall_mem_singleton]

theorem Unversioned.not_latest (h : layout.Unversioned stored entry) :
    ¬ layout.Latest stored s v entry :=
  fun hlatest => h s hlatest.mem v hlatest.version

theorem counts_concat_of_ne (hversion : ∀ w, layout.classify s ≠ .version w entry)
    (hbase : layout.classify s ≠ .base entry) :
    layout.Counts (stored ++ [s]) t entry ↔ layout.Counts stored t entry := by
  have hmem : t ∈ stored ++ [s] ∧ layout.classify t = .base entry ↔
      t ∈ stored ∧ layout.classify t = .base entry := by
    rw [List.mem_append, List.mem_singleton]
    constructor
    · rintro ⟨ht | rfl, hclass⟩
      · exact ⟨ht, hclass⟩
      · exact absurd hclass hbase
    · exact fun ht => ⟨.inl ht.1, ht.2⟩
  simp only [Counts, latest_concat_of_ne hversion, unversioned_concat_iff, hmem,
    and_iff_left hversion]

/-- The name of an entry itself counts if nothing did before. -/
theorem counts_concat_base (hs : layout.classify s = .base entry) :
    layout.Counts (stored ++ [s]) t entry ↔
      layout.Counts stored t entry ∨ (∀ r, ¬ layout.Counts stored r entry) ∧ t = s := by
  have hversion : ∀ w, layout.classify s ≠ .version w entry := by
    intro w hw
    rw [hs] at hw
    cases hw
  unfold Counts
  simp only [latest_concat_of_ne hversion, unversioned_concat_iff, and_iff_left hversion,
    List.mem_append, List.mem_singleton]
  constructor
  · rintro (hlatest | ⟨hnone, ht | rfl, hbase⟩)
    · exact .inl (.inl hlatest)
    · exact .inl (.inr ⟨hnone, ht, hbase⟩)
    · by_cases hmem : t ∈ stored
      · exact .inl (.inr ⟨hnone, hmem, hs⟩)
      · refine .inr ⟨?_, rfl⟩
        rintro r (⟨v, hlatest⟩ | ⟨-, hr, hbase⟩)
        · exact hnone.not_latest hlatest
        · exact hmem (eq_of_base hs hbase ▸ hr)
  · rintro ((hlatest | ⟨hnone, ht, hbase⟩) | ⟨hnone, rfl⟩)
    · exact .inl hlatest
    · exact .inr ⟨hnone, .inl ht, hbase⟩
    · refine .inr ⟨fun r hr v hv => ?_, .inr rfl, hs⟩
      obtain ⟨q, w, hq⟩ := exists_latest hr hv
      exact hnone q (.inl ⟨w, hq⟩)

/-- Of an entry with versions, the latest version counts. -/
theorem counts_iff_of_version {r : String} (hr : r ∈ stored)
    (hversion : layout.classify r = .version w entry) :
    layout.Counts stored t entry ↔ ∃ v, layout.Latest stored t v entry := by
  refine ⟨?_, Or.inl⟩
  rintro (hlatest | ⟨hnone, -⟩)
  · exact hlatest
  · exact absurd hversion (hnone r hr w)

end Layout

/-! ## The invariant -/

/-- The state after some stored names: it has the release of each latest version, and for each entry
the name that counts. -/
structure FoldState.Describes (st : FoldState) (layout : Layout) (stored : List String) : Prop where
  chosen : ∀ entry v, st.chosen.find? entry = some v ↔ ∃ s, layout.Latest stored s v entry
  entries : ∀ entry s, st.entries.find? entry = some s ↔ layout.Counts stored s entry

namespace FoldState.Describes
variable {layout : Layout} {stored : List String} {st : FoldState} {s entry : String}

theorem initial : FoldState.Describes {} layout [] where
  chosen entry v := by
    refine iff_of_false nofun ?_
    rintro ⟨s, hs⟩
    exact absurd hs.mem List.not_mem_nil
  entries entry s := by
    refine iff_of_false nofun ?_
    rintro (⟨v, hs⟩ | ⟨-, hs, -⟩)
    · exact absurd hs.mem List.not_mem_nil
    · exact absurd hs List.not_mem_nil

theorem hidden (h : st.Describes layout stored) (hs : layout.classify s = .hidden) :
    st.Describes layout (stored ++ [s]) := by
  have hversion : ∀ n w, layout.classify s ≠ .version w n := by simp [hs]
  constructor
  · intro n v
    simp only [Layout.latest_concat_of_ne (hversion n)]
    exact h.chosen n v
  · intro n t
    rw [Layout.counts_concat_of_ne (hversion n) (by simp [hs])]
    exact h.entries n t

theorem base (h : st.Describes layout stored) (hs : layout.classify s = .base entry) :
    FoldState.Describes { st with entries := st.entries.insertNew entry s } layout
      (stored ++ [s]) := by
  have hversion : ∀ n w, layout.classify s ≠ .version w n := by simp [hs]
  constructor
  · intro n v
    simp only [Layout.latest_concat_of_ne (hversion n)]
    exact h.chosen n v
  · intro n t
    dsimp only
    rw [OrderedMap.find?_insertNew]
    by_cases hn : entry = n
    · subst hn
      rw [Layout.counts_concat_base hs]
      cases hfind : st.entries.find? entry with
      | none =>
        have hnone : ∀ r, ¬ layout.Counts stored r entry := by
          intro r hr
          rw [(h.entries entry r).mpr hr] at hfind
          cases hfind
        rw [if_pos ⟨rfl, rfl⟩, Option.some_inj, or_iff_right (hnone t), and_iff_right hnone]
        exact eq_comm
      | some r =>
        have hr := (h.entries entry r).mp hfind
        rw [if_neg fun hc => Option.some_ne_none r hc.2, ← hfind, h.entries entry t]
        exact (or_iff_left fun hnone => hnone.1 r hr).symm
    · rw [if_neg fun hc => hn hc.1, Layout.counts_concat_of_ne (hversion n) ?_]
      · exact h.entries n t
      · rw [hs]
        exact fun he => hn (StoredName.base.inj he)

/-- The versions of an entry are for releases that are not later than the chosen one. -/
theorem le_chosen (h : st.Describes layout stored) {t : String} (ht : t ∈ stored) {w : Nat}
    (hw : layout.classify t = .version w entry) : w ≤ (st.chosen.find? entry).getD 0 := by
  obtain ⟨r, u, hr⟩ := Layout.exists_latest ht hw
  rw [(h.chosen entry u).mpr ⟨r, hr⟩, Option.getD_some]
  exact hr.le ht hw

theorem earlier {v : Nat} (h : st.Describes layout stored)
    (hs : layout.classify s = .version v entry) (hlt : v < (st.chosen.find? entry).getD 0) :
    st.Describes layout (stored ++ [s]) := by
  have hchosen : ∃ w, st.chosen.find? entry = some w ∧ v < w := by
    cases hfind : st.chosen.find? entry with
    | none =>
      rw [hfind, Option.getD_none] at hlt
      omega
    | some w =>
      rw [hfind, Option.getD_some] at hlt
      exact ⟨w, rfl, hlt⟩
  obtain ⟨w, hw, hlt⟩ := hchosen
  obtain ⟨r, hr⟩ := (h.chosen entry w).mp hw
  have hlatest : ∀ n t u, layout.Latest (stored ++ [s]) t u n ↔ layout.Latest stored t u n := by
    intro n t u
    by_cases hn : entry = n
    · exact hn ▸ Layout.latest_concat_of_lt hr hs hlt
    · exact Layout.latest_concat_of_ne (Layout.ne_version_of_ne hs hn)
  constructor
  · intro n u
    simp only [hlatest]
    exact h.chosen n u
  · intro n t
    rw [h.entries n t]
    by_cases hn : entry = n
    · subst hn
      rw [Layout.counts_iff_of_version hr.mem hr.version,
        Layout.counts_iff_of_version (List.mem_append_left _ hr.mem) hr.version]
      simp only [hlatest]
    · exact (Layout.counts_concat_of_ne (Layout.ne_version_of_ne hs hn) (by simp [hs])).symm

theorem later {v : Nat} (h : st.Describes layout stored)
    (hs : layout.classify s = .version v entry) (hle : (st.chosen.find? entry).getD 0 ≤ v) :
    FoldState.Describes
      { entries := st.entries.insert entry s, chosen := st.chosen.insert entry v } layout
      (stored ++ [s]) := by
  have hgreatest : ∀ t ∈ stored, ∀ w, layout.classify t = .version w entry → w ≤ v :=
    fun t ht w hw => Nat.le_trans (h.le_chosen ht hw) hle
  constructor
  · intro n u
    dsimp only
    rw [OrderedMap.find?_insert]
    by_cases hn : entry = n
    · subst hn
      simp only [Layout.latest_concat_of_le hs hgreatest]
      simp [eq_comm]
    · rw [if_neg hn, h.chosen n u]
      simp only [Layout.latest_concat_of_ne (Layout.ne_version_of_ne hs hn)]
  · intro n t
    dsimp only
    rw [OrderedMap.find?_insert]
    by_cases hn : entry = n
    · subst hn
      rw [Layout.counts_iff_of_version (List.mem_append_right _ List.mem_cons_self) hs]
      simp only [Layout.latest_concat_of_le hs hgreatest]
      simp [eq_comm]
    · rw [if_neg hn, h.entries n t]
      exact (Layout.counts_concat_of_ne (Layout.ne_version_of_ne hs hn) (by simp [hs])).symm

/-- The invariant is kept by each stored name. -/
theorem step (h : st.Describes layout stored) (s : String) :
    (st.step layout s).Describes layout (stored ++ [s]) := by
  unfold FoldState.step
  cases hs : layout.classify s with
  | hidden => exact h.hidden hs
  | base entry => exact h.base hs
  | version v entry =>
    dsimp only
    split
    · next hlt => exact h.earlier hs hlt
    · next hle => exact h.later hs (Nat.le_of_not_lt hle)

end FoldState.Describes

theorem FoldState.describes_foldl (layout : Layout) (stored : List String) :
    (stored.foldl (FoldState.step layout) {}).Describes layout stored := by
  induction stored using List.reverseRecOn with
  | nil => exact .initial
  | append_singleton stored s ih =>
    rw [List.foldl_append]
    exact ih.step s

/-- The table has for each entry the name that counts. -/
theorem find?_foldEntries_iff {layout : Layout} {stored : List String} {entry s : String} :
    (foldEntries layout stored).find? entry = some s ↔ layout.Counts stored s entry :=
  (FoldState.describes_foldl layout stored).entries entry s

/-! ## Entries and stored names in each layout -/

namespace Layout
variable {layout : Layout} {stored : List String} {s entry : String} {limit : Nat}

/-- Where there are no versions, every entry has its own stored name. -/
theorem counts_iff_of_unversioned (h : layout.Unversioned stored entry) :
    layout.Counts stored s entry ↔ s ∈ stored ∧ layout.classify s = .base entry := by
  constructor
  · rintro (⟨v, hlatest⟩ | ⟨-, hbase⟩)
    · exact absurd hlatest h.not_latest
    · exact hbase
  · exact fun hbase => .inr ⟨h, hbase⟩

variable (hfiles : ∀ s ∈ stored, Text.endsWith "/" s = false)
include hfiles

theorem counts_plain_iff :
    plain.Counts stored s entry ↔
      s = entry ∧ entry ∈ stored ∧ Text.beginsWith versionsFolder entry = false := by
  have hnone : plain.Unversioned stored entry := by
    intro t ht v
    rw [classify, hfiles t ht, if_neg Bool.false_ne_true]
    split <;> simp
  rw [counts_iff_of_unversioned hnone]
  constructor
  · rintro ⟨hs, hbase⟩
    obtain ⟨rfl, hplain⟩ := (classify_plain_iff (hfiles s hs)).mp hbase
    exact ⟨rfl, hs, hplain⟩
  · rintro ⟨rfl, hs, hplain⟩
    exact ⟨hs, (classify_plain_iff (hfiles s hs)).mpr ⟨rfl, hplain⟩⟩

theorem counts_sections_iff :
    sections.Counts stored s entry ↔ s = classesSection ++ entry ∧ s ∈ stored := by
  have hnone : sections.Unversioned stored entry := by
    intro t ht v
    rw [classify, hfiles t ht, if_neg Bool.false_ne_true]
    cases Text.afterFront? classesSection t <;> simp
  rw [counts_iff_of_unversioned hnone, and_comm]
  exact and_congr_left fun hs => classify_sections_iff (hfiles s hs)

theorem latest_versioned_iff {v : Nat} :
    (versioned limit).Latest stored s v entry ↔
      IsLatest (IsVersionUpTo limit entry) stored s v := by
  have hversion : ∀ t ∈ stored, ∀ w,
      (versioned limit).classify t = .version w entry ↔ IsVersionUpTo limit entry t w :=
    fun t ht w => classify_version_iff (hfiles t ht)
  exact ⟨.of_iff hversion, .of_iff fun t ht w => (hversion t ht w).symm⟩

theorem unversioned_versioned_iff :
    (versioned limit).Unversioned stored entry ↔
      ∀ t ∈ stored, ∀ v, ¬ IsVersionUpTo limit entry t v :=
  forall₂_congr fun t ht => forall_congr' fun _ => not_congr (classify_version_iff (hfiles t ht))

theorem counts_versioned_iff :
    (versioned limit).Counts stored s entry ↔
      (∃ v, IsLatest (IsVersionUpTo limit entry) stored s v) ∨
        (∀ t ∈ stored, ∀ v, ¬ IsVersionUpTo limit entry t v) ∧
          s = entry ∧ entry ∈ stored ∧ Text.beginsWith versionsFolder entry = false := by
  unfold Counts
  simp only [latest_versioned_iff hfiles, unversioned_versioned_iff hfiles]
  refine or_congr_right (and_congr_right fun _ => ?_)
  constructor
  · rintro ⟨hs, hbase⟩
    obtain ⟨rfl, hplain⟩ := (classify_versioned_base_iff (hfiles s hs)).mp hbase
    exact ⟨rfl, hs, hplain⟩
  · rintro ⟨rfl, hs, hplain⟩
    exact ⟨hs, (classify_versioned_base_iff (hfiles s hs)).mpr ⟨rfl, hplain⟩⟩

/-- An entry is listed if it is stored itself, or a version of it is. -/
theorem exists_counts_versioned_iff :
    (∃ s, (versioned limit).Counts stored s entry) ↔
      (entry ∈ stored ∧ Text.beginsWith versionsFolder entry = false) ∨
        ∃ s ∈ stored, ∃ v, IsVersionUpTo limit entry s v := by
  simp only [counts_versioned_iff hfiles]
  constructor
  · rintro ⟨s, ⟨v, hlatest⟩ | ⟨-, rfl, hbase⟩⟩
    · have hlatest := (latest_versioned_iff hfiles).mpr hlatest
      have hversion := (classify_version_iff (hfiles s hlatest.mem)).mp hlatest.version
      exact .inr ⟨s, hlatest.mem, v, hversion⟩
    · exact .inl hbase
  · intro h
    by_cases hversion : ∃ s ∈ stored, ∃ v, IsVersionUpTo limit entry s v
    · obtain ⟨s, hs, v, hv⟩ := hversion
      obtain ⟨t, w, ht⟩ := exists_latest hs ((classify_version_iff (hfiles s hs)).mpr hv)
      exact ⟨t, .inl ⟨w, (latest_versioned_iff hfiles).mp ht⟩⟩
    · refine ⟨entry, .inr ⟨fun t ht v hv => hversion ⟨t, ht, v, hv⟩, rfl, ?_⟩⟩
      exact h.resolve_right hversion

/-- Where no two names are versions of an entry for one release, their order does not matter. -/
theorem counts_perm {stored' : List String} (hperm : stored'.Perm stored)
    (hdistinct : ∀ s ∈ stored, ∀ t ∈ stored, ∀ v,
      IsVersion s v entry → IsVersion t v entry → s = t) :
    (versioned limit).Counts stored' s entry ↔ (versioned limit).Counts stored s entry := by
  have hdistinct₁ : ∀ s ∈ stored, ∀ t ∈ stored, ∀ v,
      (versioned limit).classify s = .version v entry →
      (versioned limit).classify t = .version v entry → s = t := by
    intro s hs t ht v hsv htv
    exact hdistinct s hs t ht v ((classify_version_iff (hfiles s hs)).mp hsv).1
      ((classify_version_iff (hfiles t ht)).mp htv).1
  have hdistinct₂ : ∀ s ∈ stored', ∀ t ∈ stored', ∀ v,
      (versioned limit).classify s = .version v entry →
      (versioned limit).classify t = .version v entry → s = t := by
    simpa only [hperm.mem_iff] using hdistinct₁
  unfold Counts Unversioned
  simp only [latest_iff_of_distinct hdistinct₁, latest_iff_of_distinct hdistinct₂, hperm.mem_iff]

end Layout

end ModuleAtlas
