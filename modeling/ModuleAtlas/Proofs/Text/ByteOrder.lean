import ModuleAtlas.Proofs.Text.Utf8

/-! # The order of octets

Names compare by code points.  Their octets compare the same way (`encode_lt_encode`): of two
characters the one with the greater code point starts with the greater octet or, in a character of
the same length, has the greater octet where the two first differ.
-/
namespace ModuleAtlas.Utf8

/-- Two sequences of octets compare by their first octets, unless these are equal. -/
theorem cons_lt_cons_of_le {m n : Nat} {a b : Bytes} (hle : m ≤ n) (hn : n < 256)
    (h : m = n → a < b) : UInt8.ofNat m :: a < UInt8.ofNat n :: b := by
  rw [List.cons_lt_cons_iff]
  by_cases he : m = n
  · exact .inr ⟨congrArg UInt8.ofNat he, h he⟩
  · refine .inl ?_
    rw [UInt8.lt_iff_toNat_lt, toNat_octet hn, toNat_octet (by omega)]
    omega

theorem cons_lt_cons_of_lt {m n : Nat} {a b : Bytes} (hlt : m < n) (hn : n < 256) :
    UInt8.ofNat m :: a < UInt8.ofNat n :: b :=
  cons_lt_cons_of_le (Nat.le_of_lt hlt) hn fun he => absurd he (Nat.ne_of_lt hlt)

/-- The octets of a character tell which of two code points is less, whatever follows. -/
theorem utf8EncodeChar_append_lt {c d : Char} (h : c < d) (rest rest' : Bytes) :
    String.utf8EncodeChar c ++ rest < String.utf8EncodeChar d ++ rest' := by
  have hlt : c.val.toNat < d.val.toNat := UInt32.lt_iff_toNat_lt.mp h
  have hlimit := codePoint_range d
  unfold String.utf8EncodeChar
  generalize c.val.toNat = v at hlt
  generalize d.val.toNat = w at hlt hlimit
  dsimp only
  -- a longer character starts with a greater octet
  split
  · next h1 =>
    split
    · exact cons_lt_cons_of_lt hlt (by omega)
    · split
      · exact cons_lt_cons_of_lt (by omega) (by omega)
      · split <;> exact cons_lt_cons_of_lt (by omega) (by omega)
  · next h1 =>
    rw [if_neg (show ¬ w ≤ 127 by omega)]
    split
    · next h2 =>
      split
      · refine cons_lt_cons_of_le (by omega) (by omega) fun hfirst => ?_
        exact cons_lt_cons_of_lt (by omega) (by omega)
      · split <;> exact cons_lt_cons_of_lt (by omega) (by omega)
    · next h2 =>
      rw [if_neg (show ¬ w ≤ 2047 by omega)]
      split
      · next h3 =>
        split
        · refine cons_lt_cons_of_le (by omega) (by omega) fun hfirst => ?_
          refine cons_lt_cons_of_le (by omega) (by omega) fun hsecond => ?_
          exact cons_lt_cons_of_lt (by omega) (by omega)
        · exact cons_lt_cons_of_lt (by omega) (by omega)
      · next h3 =>
        rw [if_neg (show ¬ w ≤ 65535 by omega)]
        refine cons_lt_cons_of_le (by omega) (by omega) fun hfirst => ?_
        refine cons_lt_cons_of_le (by omega) (by omega) fun hsecond => ?_
        refine cons_lt_cons_of_le (by omega) (by omega) fun hthird => ?_
        exact cons_lt_cons_of_lt (by omega) (by omega)

theorem utf8EncodeChar_ne_nil (c : Char) : String.utf8EncodeChar c ≠ [] := by
  unfold String.utf8EncodeChar
  dsimp only
  split
  · exact List.cons_ne_nil _ _
  · split
    · exact List.cons_ne_nil _ _
    · split <;> exact List.cons_ne_nil _ _

theorem flatMap_utf8EncodeChar_lt {chars chars' : List Char} (h : chars < chars') :
    chars.flatMap String.utf8EncodeChar < chars'.flatMap String.utf8EncodeChar := by
  induction h with
  | nil =>
    rename_i d rest
    obtain ⟨octet, octets, hd⟩ := List.exists_cons_of_ne_nil (utf8EncodeChar_ne_nil d)
    rw [List.flatMap_cons, hd]
    exact List.Lex.nil
  | rel hlt => exact utf8EncodeChar_append_lt hlt _ _
  | cons _ ih => exact List.append_left_lt ih

/-- **The order of texts is the order of their octets.** -/
theorem encode_lt_encode {s t : String} (h : s < t) : encode s < encode t :=
  flatMap_utf8EncodeChar_lt (String.lt_iff.mp h)

end ModuleAtlas.Utf8
