import ModuleAtlas.Content.Layout

/-! # Stored names

A stored name stands for a version of an entry if it is in the folder of versions, under the number
of a release (`IsVersion`).  What `Layout.classify` makes of the names of files is told for each
layout by itself.
-/
namespace ModuleAtlas

/-- A stored name is a version of an entry for a release. -/
def IsVersion (stored : String) (release : Nat) (entry : String) : Prop :=
  entry ≠ "" ∧ ∃ text, release? text = some release ∧
    stored = versionsFolder ++ text ++ "/" ++ entry

/-- A stored name is a version of an entry for a release up to a limit. -/
def IsVersionUpTo (limit : Nat) (entry s : String) (v : Nat) : Prop :=
  IsVersion s v entry ∧ v ≤ limit

theorem isDigit_of_readDigits {digits : List Char} {n : Nat} (h : readDigits digits = some n) :
    ∀ c ∈ digits, c.isDigit = true := by
  unfold readDigits at h
  split at h
  · cases h
  · next hdigits =>
    rw [Bool.or_eq_true, not_or, Bool.not_eq_true', Bool.not_eq_false] at hdigits
    exact List.all_eq_true.mp hdigits.2

theorem slash_not_mem_of_release? {text : String} {release : Nat}
    (h : release? text = some release) : '/' ∉ text.toList := by
  obtain ⟨hdigits, -⟩ := Option.filter_eq_some_iff.mp h
  intro hslash
  have hnone : ('/' : Char).isDigit ≠ true := by decide
  split at hdigits
  · next rest htext =>
    rw [htext] at hslash
    rcases List.mem_cons.mp hslash with he | hslash
    · cases he
    · exact hnone (isDigit_of_readDigits hdigits _ hslash)
  · exact hnone (isDigit_of_readDigits hdigits _ hslash)

theorem versionedEntry?_eq_some_iff {rest entry : String} {release : Nat} :
    versionedEntry? rest = some (release, entry) ↔
      entry ≠ "" ∧ ∃ text, release? text = some release ∧ rest = text ++ "/" ++ entry := by
  unfold versionedEntry?
  constructor
  · intro h
    obtain ⟨⟨text, found⟩, hsplit, h⟩ := Option.bind_eq_some_iff.mp h
    obtain ⟨v, hv, h⟩ := Option.bind_eq_some_iff.mp h
    by_cases hempty : found = ""
    · cases (if_pos hempty).symm.trans h
    · obtain ⟨rfl, rfl⟩ := Prod.mk.inj (Option.some.inj ((if_neg hempty).symm.trans h))
      have hparts := (Text.splitFirst?_eq_some_iff.mp hsplit).1
      refine ⟨hempty, text, hv, String.toList_inj.mp ?_⟩
      rw [hparts, String.toList_append, String.toList_append, List.append_assoc]
      rfl
  · rintro ⟨hne, text, hv, rfl⟩
    have hsplit : Text.splitFirst? '/' (text ++ "/" ++ entry) = some (text, entry) := by
      refine Text.splitFirst?_eq_some_iff.mpr ⟨?_, slash_not_mem_of_release? hv⟩
      rw [String.toList_append, String.toList_append, List.append_assoc]
      rfl
    refine Option.bind_eq_some_iff.mpr ⟨_, hsplit, Option.bind_eq_some_iff.mpr ⟨_, hv, ?_⟩⟩
    exact if_neg hne

theorem isVersion_iff {s entry : String} {release : Nat} :
    IsVersion s release entry ↔
      (Text.afterFront? versionsFolder s).bind versionedEntry? = some (release, entry) := by
  simp only [Option.bind_eq_some_iff, Text.afterFront?_eq_some_iff, versionedEntry?_eq_some_iff]
  constructor
  · rintro ⟨hne, text, hv, rfl⟩
    exact ⟨text ++ "/" ++ entry, by simp only [String.append_assoc], hne, text, hv, rfl⟩
  · rintro ⟨rest, rfl, hne, text, hv, rfl⟩
    exact ⟨hne, text, hv, by simp only [String.append_assoc]⟩

instance (s : String) (release : Nat) (entry : String) : Decidable (IsVersion s release entry) :=
  decidable_of_iff _ isVersion_iff.symm

/-- A stored name is a version of one entry, for one release. -/
theorem IsVersion.release_eq {s entry : String} {v w : Nat} (h : IsVersion s v entry)
    (h' : IsVersion s w entry) : v = w := by
  have hsame := (isVersion_iff.mp h).symm.trans (isVersion_iff.mp h')
  exact (Prod.mk.inj (Option.some.inj hsame)).1

namespace Layout

section
variable {s entry : String} (hfile : Text.endsWith "/" s = false)
include hfile

theorem classify_plain_iff :
    plain.classify s = .base entry ↔ entry = s ∧ Text.beginsWith versionsFolder s = false := by
  rw [classify, hfile, if_neg Bool.false_ne_true]
  cases Text.beginsWith versionsFolder s <;> simp [eq_comm]

theorem classify_sections_iff :
    sections.classify s = .base entry ↔ s = classesSection ++ entry := by
  rw [classify, hfile, if_neg Bool.false_ne_true, ← Text.afterFront?_eq_some_iff]
  cases Text.afterFront? classesSection s <;> simp

theorem classify_versioned_base_iff {limit : Nat} :
    (versioned limit).classify s = .base entry ↔
      entry = s ∧ Text.beginsWith versionsFolder s = false := by
  rw [classify, hfile, if_neg Bool.false_ne_true, ← Text.afterFront?_eq_none_iff]
  cases Text.afterFront? versionsFolder s with
  | none => simp [eq_comm]
  | some rest =>
    dsimp only
    split
    · split <;> simp
    · simp

theorem classify_version_iff {limit release : Nat} :
    (versioned limit).classify s = .version release entry ↔
      IsVersion s release entry ∧ release ≤ limit := by
  rw [classify, hfile, if_neg Bool.false_ne_true, isVersion_iff]
  cases Text.afterFront? versionsFolder s with
  | none => simp
  | some rest =>
    dsimp only
    rw [Option.bind_some]
    cases versionedEntry? rest with
    | none => simp
    | some found =>
      obtain ⟨v, n⟩ := found
      by_cases hle : v ≤ limit
      · simp only [hle, if_true, StoredName.version.injEq, Option.some_inj, Prod.mk.injEq]
        constructor
        · rintro ⟨rfl, rfl⟩
          exact ⟨⟨rfl, rfl⟩, hle⟩
        · exact And.left
      · simp only [hle, if_false, reduceCtorEq, false_iff, Option.some_inj, Prod.mk.injEq]
        rintro ⟨⟨rfl, rfl⟩, hrelease⟩
        exact hle hrelease

end

theorem endsWith_of_base {layout : Layout} {s entry : String}
    (hs : layout.classify s = .base entry) : Text.endsWith "/" s = false := by
  refine Bool.eq_false_iff.mpr fun hslash => ?_
  unfold classify at hs
  rw [if_pos hslash] at hs
  cases hs

/-- An entry is stored under one name, apart from its versions. -/
theorem eq_of_base {layout : Layout} {s t entry : String} (hs : layout.classify s = .base entry)
    (ht : layout.classify t = .base entry) : s = t := by
  have hsfile := endsWith_of_base hs
  have htfile := endsWith_of_base ht
  cases layout with
  | sections =>
    rw [(classify_sections_iff hsfile).mp hs, (classify_sections_iff htfile).mp ht]
  | plain =>
    rw [← ((classify_plain_iff hsfile).mp hs).1, ((classify_plain_iff htfile).mp ht).1]
  | versioned limit =>
    rw [← ((classify_versioned_base_iff hsfile).mp hs).1,
      ((classify_versioned_base_iff htfile).mp ht).1]

end Layout
end ModuleAtlas
