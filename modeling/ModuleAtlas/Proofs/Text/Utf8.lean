import ModuleAtlas.Text.Cut
import ModuleAtlas.Text.Utf8

/-! # Reading what was written as UTF-8

The octets of a character lead the reader through that character and back to the place between
characters (`pieces_utf8EncodeChar`), so the strict reader gives back every text that was written
(`decode_encode`).

A character has one octet or more, by its code point.  In longer ones the first octet carries the
top bits and says how many are owed; the range it sets for the second octet holds for every code
point, because overlong forms, surrogates and values above U+10FFFF belong to no character.
-/
namespace ModuleAtlas.Utf8

theorem toNat_octet {n : Nat} (h : n < 256) : (UInt8.ofNat n).toNat = n := by
  rw [UInt8.toNat_ofNat']
  exact Nat.mod_eq_of_lt h

theorem ofNat_toNat (c : Char) : Char.ofNat c.val.toNat = c := Char.ofNat_toNat c

/-- Code points are below the surrogates, or between them and the limit. -/
theorem codePoint_range (c : Char) :
    c.val.toNat < 0xD800 ∨ 0xDFFF < c.val.toNat ∧ c.val.toNat < 0x110000 := c.valid

/-! ## Inside a character -/

section
variable {low high value taken n : Nat} {rest : Bytes}

/-- An octet after the first one holds six bits. -/
theorem toNat_trailing (n : Nat) : (UInt8.ofNat (n % 64 + 0x80)).toNat = n % 64 + 0x80 :=
  toNat_octet (by omega)

theorem pieces_last (hlow : low ≤ n % 64 + 0x80) (hhigh : n % 64 + 0x80 ≤ high) :
    pieces (some ⟨1, low, high, value, taken⟩) (UInt8.ofNat (n % 64 + 0x80) :: rest) =
      .char (Char.ofNat (value * 64 + n % 64)) :: pieces none rest := by
  rw [pieces, toNat_trailing, if_pos ⟨hlow, hhigh⟩, Nat.add_sub_cancel]
  exact if_pos (Nat.le_refl 1)

theorem pieces_next {owed : Nat} (hlow : low ≤ n % 64 + 0x80) (hhigh : n % 64 + 0x80 ≤ high) :
    pieces (some ⟨owed + 2, low, high, value, taken⟩) (UInt8.ofNat (n % 64 + 0x80) :: rest) =
      pieces (some ⟨owed + 1, 0x80, 0xBF, value * 64 + n % 64, taken + 1⟩) rest := by
  rw [pieces, toNat_trailing, if_pos ⟨hlow, hhigh⟩, Nat.add_sub_cancel]
  exact if_neg (show ¬ owed + 2 ≤ 1 by omega)

theorem pieces_opens {p : Pending} {b : UInt8} (h : lead b = .opens p) :
    pieces none (b :: rest) = pieces (some p) rest := by
  rw [pieces, h]

end

/-! ## First octets -/

theorem lead_one {v : Nat} (h : v ≤ 0x7F) : lead (UInt8.ofNat v) = .whole (Char.ofNat v) := by
  have hn : (UInt8.ofNat v).toNat = v := toNat_octet (by omega)
  unfold lead
  simp only [hn]
  exact if_pos (by omega)

theorem lead_two {n : Nat} (hlow : 2 ≤ n) (hhigh : n < 32) :
    lead (UInt8.ofNat (n + 0xC0)) = .opens ⟨1, 0x80, 0xBF, n, 1⟩ := by
  have hn : (UInt8.ofNat (n + 0xC0)).toNat = n + 0xC0 := toNat_octet (by omega)
  unfold lead
  simp only [hn]
  rw [if_neg (by omega), if_neg (by omega), if_pos (by omega), Nat.add_sub_cancel]

/-- The second octet of three is in the range that the first one sets. -/
theorem lead_three (n second : Nat) (hn : n < 16) (hoverlong : n = 0 → 0xA0 ≤ second)
    (hsurrogate : n = 13 → second ≤ 0x9F) (hlow : 0x80 ≤ second) (hhigh : second ≤ 0xBF) :
    ∃ low high, lead (UInt8.ofNat (n + 0xE0)) = .opens ⟨2, low, high, n, 1⟩ ∧
      low ≤ second ∧ second ≤ high := by
  have hb : (UInt8.ofNat (n + 0xE0)).toNat = n + 0xE0 := toNat_octet (by omega)
  unfold lead
  simp only [hb]
  rw [if_neg (by omega), if_neg (by omega), if_neg (by omega)]
  by_cases h0 : n = 0
  · rw [if_pos (by omega)]
    exact ⟨0xA0, 0xBF, by rw [h0], hoverlong h0, hhigh⟩
  · rw [if_neg (by omega)]
    by_cases h13 : n = 13
    · rw [if_pos (by omega), Nat.add_sub_cancel]
      exact ⟨0x80, 0x9F, rfl, hlow, hsurrogate h13⟩
    · rw [if_neg (by omega), if_pos (by omega), Nat.add_sub_cancel]
      exact ⟨0x80, 0xBF, rfl, hlow, hhigh⟩

/-- The second octet of four is in the range that the first one sets. -/
theorem lead_four (n second : Nat) (hn : n ≤ 4) (hoverlong : n = 0 → 0x90 ≤ second)
    (hlimit : n = 4 → second ≤ 0x8F) (hlow : 0x80 ≤ second) (hhigh : second ≤ 0xBF) :
    ∃ low high, lead (UInt8.ofNat (n + 0xF0)) = .opens ⟨3, low, high, n, 1⟩ ∧
      low ≤ second ∧ second ≤ high := by
  have hb : (UInt8.ofNat (n + 0xF0)).toNat = n + 0xF0 := toNat_octet (by omega)
  unfold lead
  simp only [hb]
  rw [if_neg (by omega), if_neg (by omega), if_neg (by omega), if_neg (by omega),
    if_neg (by omega), if_neg (by omega)]
  by_cases h0 : n = 0
  · rw [if_pos (by omega)]
    exact ⟨0x90, 0xBF, by rw [h0], hoverlong h0, hhigh⟩
  · rw [if_neg (by omega)]
    by_cases h4 : n = 4
    · rw [if_neg (by omega), if_pos (by omega), Nat.add_sub_cancel]
      exact ⟨0x80, 0x8F, rfl, hlow, hlimit h4⟩
    · rw [if_pos (by omega), Nat.add_sub_cancel]
      exact ⟨0x80, 0xBF, rfl, hlow, hhigh⟩

/-! ## Whole characters and texts -/

/-- The octets of a character are one piece. -/
theorem pieces_utf8EncodeChar (c : Char) (rest : Bytes) :
    pieces none (String.utf8EncodeChar c ++ rest) = .char c :: pieces none rest := by
  have hrange := codePoint_range c
  have hback := ofNat_toNat c
  unfold String.utf8EncodeChar
  generalize c.val.toNat = v at hrange hback
  dsimp only
  split
  · next h1 =>
    rw [List.cons_append, List.nil_append, pieces, lead_one h1, hback]
  · split
    · next h1 h2 =>
      rw [show v / 64 % 0x20 = v / 64 from Nat.mod_eq_of_lt (by omega)]
      simp only [List.cons_append, List.nil_append]
      rw [pieces_opens (lead_two (by omega) (by omega)), pieces_last (by omega) (by omega)]
      rw [show v / 64 * 64 + v % 64 = v by omega, hback]
    · split
      · next h1 h2 h3 =>
        obtain ⟨low, high, hlead, hlow, hhigh⟩ := lead_three (v / 4096)
          (v / 64 % 64 + 0x80) (by omega) (by omega) (by omega) (by omega) (by omega)
        rw [show v / 4096 % 0x10 = v / 4096 from Nat.mod_eq_of_lt (by omega)]
        simp only [List.cons_append, List.nil_append]
        rw [pieces_opens hlead, pieces_next hlow hhigh, pieces_last (by omega) (by omega)]
        rw [show (v / 4096 * 64 + v / 64 % 64) * 64 + v % 64 = v by omega, hback]
      · next h1 h2 h3 =>
        obtain ⟨low, high, hlead, hlow, hhigh⟩ := lead_four (v / 262144)
          (v / 4096 % 64 + 0x80) (by omega) (by omega) (by omega) (by omega) (by omega)
        rw [show v / 262144 % 0x08 = v / 262144 from Nat.mod_eq_of_lt (by omega)]
        simp only [List.cons_append, List.nil_append]
        rw [pieces_opens hlead, pieces_next hlow hhigh, pieces_next (by omega) (by omega),
          pieces_last (by omega) (by omega)]
        rw [show ((v / 262144 * 64 + v / 4096 % 64) * 64 + v / 64 % 64) * 64 + v % 64 = v
          by omega, hback]

theorem pieces_flatMap_utf8EncodeChar (chars : List Char) :
    pieces none (chars.flatMap String.utf8EncodeChar) = chars.map Piece.char := by
  induction chars with
  | nil => rfl
  | cons c chars ih =>
    rw [List.flatMap_cons, pieces_utf8EncodeChar, ih, List.map_cons]

theorem collect_map_char (position : Nat) (chars : List Char) :
    collect position (chars.map Piece.char) = .ok chars := by
  induction chars generalizing position with
  | nil => rfl
  | cons c chars ih =>
    rw [List.map_cons, collect, ih]
    rfl

/-- **Every written text is read back.** -/
theorem decode_encode (s : String) : decode (encode s) = .ok s := by
  rw [decode, encode, pieces_flatMap_utf8EncodeChar, collect_map_char]
  exact congrArg Except.ok String.ofList_toList

theorem decodeLenient_encode (s : String) : decodeLenient (encode s) = s := by
  rw [decodeLenient, encode, pieces_flatMap_utf8EncodeChar, List.map_map]
  exact (congrArg String.ofList (List.map_id _)).trans String.ofList_toList

/-! ## Single octets

Octets below 0x80 are characters of their own, and longer characters have no such octet.  So the
octet of such a character stands where the character stands. -/

theorem ofNat_ne_ofNat {m n : Nat} (hlt : m < n) (h : n < 256) : UInt8.ofNat m ≠ UInt8.ofNat n := by
  intro he
  have hn : (UInt8.ofNat m).toNat = n := (congrArg UInt8.toNat he).trans (toNat_octet h)
  rw [toNat_octet (by omega)] at hn
  omega

theorem not_mem_utf8EncodeChar {n : Nat} (hn : n < 0x80) {c : Char} (hne : c.val.toNat ≠ n) :
    UInt8.ofNat n ∉ String.utf8EncodeChar c := by
  unfold String.utf8EncodeChar
  generalize c.val.toNat = v at hne
  dsimp only
  -- the octets of a longer character are at least 0x80 each
  split
  · rw [List.mem_singleton]
    rcases Nat.lt_or_gt_of_ne hne with hlt | hlt
    · exact (ofNat_ne_ofNat hlt (by omega)).symm
    · exact ofNat_ne_ofNat hlt (by omega)
  · split
    · simp only [List.mem_cons, List.not_mem_nil, or_false, not_or]
      exact ⟨ofNat_ne_ofNat (by omega) (by omega), ofNat_ne_ofNat (by omega) (by omega)⟩
    · split
      · simp only [List.mem_cons, List.not_mem_nil, or_false, not_or]
        exact ⟨ofNat_ne_ofNat (by omega) (by omega), ofNat_ne_ofNat (by omega) (by omega),
          ofNat_ne_ofNat (by omega) (by omega)⟩
      · simp only [List.mem_cons, List.not_mem_nil, or_false, not_or]
        exact ⟨ofNat_ne_ofNat (by omega) (by omega), ofNat_ne_ofNat (by omega) (by omega),
          ofNat_ne_ofNat (by omega) (by omega), ofNat_ne_ofNat (by omega) (by omega)⟩

theorem utf8EncodeChar_of_lt {c : Char} (h : c.val.toNat < 0x80) :
    String.utf8EncodeChar c = [UInt8.ofNat c.val.toNat] := by
  unfold String.utf8EncodeChar
  exact if_pos (by omega)

theorem mem_encode_iff {c : Char} (hc : c.val.toNat < 0x80) {s : String} :
    UInt8.ofNat c.val.toNat ∈ encode s ↔ c ∈ s.toList := by
  rw [encode, List.mem_flatMap]
  constructor
  · rintro ⟨other, hother, hmem⟩
    by_cases he : other.val.toNat = c.val.toNat
    · rwa [← ofNat_toNat c, ← he, ofNat_toNat]
    · exact absurd hmem (not_mem_utf8EncodeChar hc he)
  · intro h
    exact ⟨c, h, by rw [utf8EncodeChar_of_lt hc]; exact List.mem_singleton_self _⟩

theorem zero_not_mem_encode {s : String} (h : '\x00' ∉ s.toList) : (0 : UInt8) ∉ encode s :=
  mt (mem_encode_iff (c := '\x00') (by decide)).mp h

/-! ## Lenient reading

An octet below 0x80 is read as its own character wherever it stands, because it ends a character
that octets are still owed to, and no other octets are read as that character. -/

/-- Neither the octets that are owed nor the character that they end is below 0x80. -/
structure Pending.Long (p : Pending) : Prop where
  low : 0x80 ≤ p.low
  value : 2 ≤ p.value ∨ 2 ≤ p.owed ∧ 2 ≤ p.value * 64 + (p.low - 0x80)

theorem long_of_lead {b : UInt8} {p : Pending} (h : lead b = .opens p) : p.Long := by
  unfold lead at h
  generalize b.toNat = n at h
  dsimp only at h
  repeat' split at h
  all_goals cases h
  all_goals exact ⟨by simp only; omega, by simp only; omega⟩

theorem toNat_ofNat {n : Nat} (h : n < 0x80) : (Char.ofNat n).val.toNat = n := by
  have hvalid : n.isValidChar := .inl (by omega)
  rw [Char.ofNat, dif_pos hvalid]
  rfl

theorem lead_octet {c : Char} (hc : c.val.toNat < 0x80) :
    lead (UInt8.ofNat c.val.toNat) = .whole c := by
  rw [lead_one (by omega), ofNat_toNat]

theorem eq_octet_of_lead {b : UInt8} {c : Char} (h : lead b = .whole c) :
    b = UInt8.ofNat c.val.toNat := by
  unfold lead at h
  dsimp only at h
  repeat' split at h
  all_goals cases h
  next hb => rw [toNat_ofNat hb, UInt8.ofNat_toNat]

/-- No smaller character comes of a code point from 0x80 on, but for the one that stands for what
is no code point. -/
theorem ne_ofNat {n : Nat} (hn : 0x80 ≤ n) {c : Char} (hzero : c ≠ '\x00')
    (hc : c.val.toNat < 0x80) : c ≠ Char.ofNat n := by
  rintro rfl
  by_cases hvalid : n.isValidChar
  · rw [Char.ofNat, dif_pos hvalid] at hc
    have hval : (Char.ofNatAux n hvalid).val.toNat = n := rfl
    omega
  · exact hzero (by rw [Char.ofNat, dif_neg hvalid]; rfl)

/-- An octet that cannot go on a character is read again between characters. -/
theorem pieces_outside {p : Pending} {b : UInt8} (h : ¬(p.low ≤ b.toNat ∧ b.toNat ≤ p.high))
    (rest : Bytes) : pieces (some p) (b :: rest) = .invalid p.taken :: pieces none (b :: rest) := by
  simp only [pieces, if_neg h]

/-- What one octet gives in a state: some pieces, and a state to read on from.  A character below
0x80 among the pieces is the octet. -/
structure Reads (state : Option Pending) (b : UInt8) (front : List Piece) (next : Option Pending) :
    Prop where
  long : ∀ p ∈ next, p.Long
  pieces : ∀ rest, pieces state (b :: rest) = front ++ pieces next rest
  octet : ∀ c ∈ front.map Piece.lenient, c ≠ '\x00' → c.val.toNat < 0x80 →
    b = UInt8.ofNat c.val.toNat

theorem exists_reads_none (b : UInt8) : ∃ front next, Reads none b front next := by
  cases hlead : lead b with
  | whole d =>
    refine ⟨[.char d], none, nofun, fun rest => by rw [pieces, hlead]; rfl, fun c hc _ _ => ?_⟩
    rw [List.mem_singleton.mp hc]
    exact eq_octet_of_lead hlead
  | opens p =>
    exact ⟨[], some p, fun q hq => Option.some.inj hq ▸ long_of_lead hlead,
      fun rest => by rw [pieces, hlead]; rfl, nofun⟩
  | stray =>
    refine ⟨[.invalid 1], none, nofun, fun rest => by rw [pieces, hlead]; rfl, fun c hc _ hlt => ?_⟩
    rw [List.mem_singleton.mp hc] at hlt
    exact absurd hlt (by decide)

theorem exists_reads_some {p : Pending} (hp : p.Long) (b : UInt8) :
    ∃ front next, Reads (some p) b front next := by
  have hlow := hp.low
  have hvalue := hp.value
  by_cases hb : p.low ≤ b.toNat ∧ b.toNat ≤ p.high
  · by_cases howed : p.owed ≤ 1
    · refine ⟨[.char (Char.ofNat (p.value * 64 + (b.toNat - 0x80)))], none, nofun,
        fun rest => by rw [pieces, if_pos hb]; exact if_pos howed, fun c hc hzero hlt => ?_⟩
      exact absurd (List.mem_singleton.mp hc) (ne_ofNat (by omega) hzero hlt)
    · refine ⟨[], some ⟨p.owed - 1, 0x80, 0xBF, p.value * 64 + (b.toNat - 0x80), p.taken + 1⟩,
        fun q hq => ?_, fun rest => by rw [pieces, if_pos hb]; exact if_neg howed, nofun⟩
      rw [← Option.some.inj hq]
      exact ⟨by simp only; omega, .inl (by simp only; omega)⟩
  · obtain ⟨front, next, hlong, hpieces, hoctet⟩ := exists_reads_none b
    refine ⟨.invalid p.taken :: front, next, hlong, fun rest => ?_, fun c hc hzero hlt => ?_⟩
    · rw [pieces_outside hb, hpieces, List.cons_append]
    · rcases List.mem_cons.mp hc with hmark | hc
      · rw [hmark, Piece.lenient] at hlt
        exact absurd hlt (by decide)
      · exact hoctet c hc hzero hlt

theorem exists_reads {state : Option Pending} (hstate : ∀ p ∈ state, p.Long) (b : UInt8) :
    ∃ front next, Reads state b front next := by
  cases state with
  | none => exact exists_reads_none b
  | some p => exact exists_reads_some (hstate p rfl) b

section
variable {state : Option Pending} (hstate : ∀ p ∈ state, p.Long) {c : Char}
  (hc : c.val.toNat < 0x80)
include hstate hc

theorem map_lenient_pieces_append (a b : Bytes) :
    (pieces state (a ++ UInt8.ofNat c.val.toNat :: b)).map Piece.lenient =
      (pieces state a).map Piece.lenient ++ c :: (pieces none b).map Piece.lenient := by
  have hbetween : pieces none (UInt8.ofNat c.val.toNat :: b) = .char c :: pieces none b := by
    rw [pieces, lead_octet hc]
  induction a generalizing state with
  | nil =>
    cases state with
    | none => rw [List.nil_append, hbetween]; rfl
    | some p =>
      have hlow := (hstate p rfl).low
      have houtside : ¬(p.low ≤ (UInt8.ofNat c.val.toNat).toNat ∧
          (UInt8.ofNat c.val.toNat).toNat ≤ p.high) := by
        rw [toNat_octet (by omega)]
        omega
      rw [List.nil_append, pieces_outside houtside, hbetween]
      rfl
  | cons octet a ih =>
    obtain ⟨front, next, hlong, hpieces, -⟩ := exists_reads hstate octet
    rw [List.cons_append, hpieces, hpieces, List.map_append, List.map_append, ih hlong,
      List.append_assoc]

theorem mem_of_mem_map_lenient (hzero : c ≠ '\x00') {a : Bytes}
    (h : c ∈ (pieces state a).map Piece.lenient) : UInt8.ofNat c.val.toNat ∈ a := by
  induction a generalizing state with
  | nil =>
    cases state with
    | none => exact absurd h List.not_mem_nil
    | some p =>
      rw [List.mem_singleton.mp h] at hc
      exact absurd hc (by decide)
  | cons octet a ih =>
    obtain ⟨front, next, hlong, hpieces, hoctet⟩ := exists_reads hstate octet
    rw [hpieces, List.map_append, List.mem_append] at h
    rcases h with hfront | hrest
    · exact hoctet c hfront hzero hc ▸ List.mem_cons_self
    · exact List.mem_cons_of_mem octet (ih hlong hrest)

end

/-- Only nothing is read as nothing. -/
theorem pieces_some_ne_nil (p : Pending) (bytes : Bytes) : pieces (some p) bytes ≠ [] := by
  induction bytes generalizing p with
  | nil => exact List.cons_ne_nil _ _
  | cons b bytes ih =>
    rw [pieces]
    split
    · dsimp only
      split
      · exact List.cons_ne_nil _ _
      · exact ih _
    · exact List.cons_ne_nil _ _

theorem decodeLenient_eq_empty_iff {bytes : Bytes} : decodeLenient bytes = "" ↔ bytes = [] := by
  constructor
  · intro h
    have hpieces : pieces none bytes = [] :=
      List.map_eq_nil_iff.mp (String.ofList_eq_empty_iff.mp h)
    cases bytes with
    | nil => rfl
    | cons b bytes =>
      rw [pieces] at hpieces
      split at hpieces
      · cases hpieces
      · exact absurd hpieces (pieces_some_ne_nil _ _)
      · cases hpieces
  · rintro rfl
    rfl

/-- What is shown for octets between occurrences of an octet below 0x80 is what stands between the
occurrences of its character in what is shown for all. -/
theorem splitAll_decodeLenient {c : Char} (hc : c.val.toNat < 0x80) (hzero : c ≠ '\x00')
    {parts : List Bytes} (hne : parts ≠ []) (h : ∀ part ∈ parts, UInt8.ofNat c.val.toNat ∉ part) :
    Text.splitAll c (decodeLenient ([UInt8.ofNat c.val.toNat].intercalate parts)) =
      parts.map decodeLenient := by
  have hlong : ∀ p ∈ (none : Option Pending), p.Long := nofun
  induction parts with
  | nil => exact absurd rfl hne
  | cons part rest ih =>
    obtain ⟨hpart, hrest⟩ := List.forall_mem_cons.mp h
    have hfirst : Text.splitAll c (decodeLenient part) = [decodeLenient part] := by
      refine Text.splitAll_of_not_mem fun hmem => hpart (mem_of_mem_map_lenient hlong hc hzero ?_)
      rwa [decodeLenient, String.toList_ofList] at hmem
    cases rest with
    | nil => rw [List.intercalate_singleton, List.map_singleton, hfirst]
    | cons next rest =>
      rw [List.intercalate_cons_cons, List.append_assoc, List.singleton_append, List.map_cons,
        ← ih (List.cons_ne_nil next rest) hrest]
      rw [Text.splitAll_append c (a := decodeLenient part)
        (b := decodeLenient ([UInt8.ofNat c.val.toNat].intercalate (next :: rest))), hfirst]
      · rfl
      · simp only [decodeLenient, String.toList_ofList]
        exact map_lenient_pieces_append hlong hc part _

end ModuleAtlas.Utf8
