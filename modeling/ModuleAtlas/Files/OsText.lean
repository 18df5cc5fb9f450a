import ModuleAtlas.Text.Cut
import ModuleAtlas.Text.Utf8

/-! # Texts of the file system

The names and the paths of a file system are octets.  Mostly they are the octets of a text, and then
they stand for it, but a file can have a name that is no text at all.  What is shown of such a name
has U+FFFD in the places that cannot be read, and does not lead back to the file.

A text counts as its octets wherever a name or a path is asked for.
-/
namespace ModuleAtlas

/-- A name or a path as the file system has it. -/
structure OsText where
  /-- The octets. -/
  octets : Bytes
deriving DecidableEq, Repr, Inhabited

namespace OsText

/-- The octets of a text. -/
def ofText (s : String) : OsText := ⟨Utf8.encode s⟩

instance : Coe String OsText := ⟨ofText⟩

/-- What is shown for it. -/
def text (t : OsText) : String := Utf8.decodeLenient t.octets

/-- The text that it is, unless it is none. -/
def text? (t : OsText) : Option String := if ofText t.text = t then some t.text else none

instance : Append OsText := ⟨fun a b => ⟨a.octets ++ b.octets⟩⟩

instance : LT OsText := ⟨fun a b => a.octets < b.octets⟩

instance : LE OsText := ⟨fun a b => a.octets ≤ b.octets⟩

instance (a b : OsText) : Decidable (a < b) := inferInstanceAs (Decidable (a.octets < b.octets))

instance (a b : OsText) : Decidable (a ≤ b) := inferInstanceAs (Decidable (a.octets ≤ b.octets))

/-- The octet between the names of a path. -/
def slash : UInt8 := 0x2F

/-- All parts between slashes; without a slash it is its only part. -/
def segments (t : OsText) : List OsText := (t.octets.splitOn slash).map OsText.mk

/-- Parts with slashes in between. -/
def joined (parts : List OsText) : OsText := ⟨[slash].intercalate (parts.map octets)⟩

theorem lt_irrefl (t : OsText) : ¬ t < t := List.lt_irrefl t.octets

theorem ne_of_lt {a b : OsText} (h : a < b) : a ≠ b := fun he => lt_irrefl a (he ▸ h)

theorem lt_trans {a b c : OsText} (hab : a < b) (hbc : b < c) : a < c := List.lt_trans hab hbc

/-- What is neither smaller nor the same is greater. -/
theorem lt_of_not_lt {a b : OsText} (h : ¬ b < a) (hne : a ≠ b) : a < b :=
  Decidable.byContradiction fun hlt => hne (congrArg mk (List.le_antisymm h hlt))

theorem le_of_lt {a b : OsText} (h : a < b) : a ≤ b := List.le_of_lt h

theorem le_trans {a b c : OsText} (hab : a ≤ b) (hbc : b ≤ c) : a ≤ c := List.le_trans hab hbc

theorem le_antisymm {a b : OsText} (hab : a ≤ b) (hba : b ≤ a) : a = b :=
  congrArg mk (List.le_antisymm hab hba)

theorem le_total (a b : OsText) : a ≤ b ∨ b ≤ a := List.le_total a.octets b.octets

theorem map_mk_octets (parts : List OsText) : (parts.map octets).map mk = parts := by
  rw [List.map_map]
  exact List.map_id parts

theorem octets_append (a b : OsText) : (a ++ b).octets = a.octets ++ b.octets := rfl

theorem segments_append {t a b : OsText} (h : t.octets = a.octets ++ slash :: b.octets) :
    t.segments = a.segments ++ b.segments := by
  rw [segments, h, List.splitOn_append_cons_self, List.map_append]
  rfl

theorem segments_ne_nil (t : OsText) : t.segments ≠ [] :=
  fun he => List.splitOn_ne_nil slash t.octets (List.map_eq_nil_iff.mp he)

/-- Parts without slashes are given back. -/
theorem segments_joined {parts : List OsText} (hne : parts ≠ [])
    (h : ∀ p ∈ parts, slash ∉ p.octets) : (joined parts).segments = parts := by
  have hparts : ∀ l ∈ parts.map octets, slash ∉ l := List.forall_mem_map.mpr h
  rw [segments, joined,
    List.splitOn_intercalate slash hparts (fun he => hne (List.map_eq_nil_iff.mp he)),
    map_mk_octets]

/-- The parts make up the whole. -/
theorem joined_segments (t : OsText) : joined t.segments = t := by
  have hparts : t.segments.map octets = t.octets.splitOn slash := by
    rw [segments, List.map_map]
    exact List.map_id _
  rw [joined, hparts, List.intercalate_splitOn]

theorem slash_not_mem_of_mem_segments {t part : OsText} (h : part ∈ t.segments) :
    slash ∉ part.octets := by
  obtain ⟨l, hl, rfl⟩ := List.mem_map.mp h
  exact Text.not_mem_of_mem_splitOn hl

end OsText
end ModuleAtlas
