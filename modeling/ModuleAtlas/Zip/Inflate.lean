import ModuleAtlas.Zip.Huffman

/-! # Expanding deflated data

Deflated data is a sequence of blocks: stored bytes, or tokens in prefix codes that are fixed or
written in front of the block.  A token is a byte or says to repeat earlier output.

Every token takes at least one bit away and every block its three bits of header, so expansion
ends when the bits do.
-/
namespace ModuleAtlas.Zip

/-- One instruction for the output. -/
inductive Token where
  /-- A byte. -/
  | literal (b : UInt8)
  /-- `length` bytes that were written `distance` bytes ago. -/
  | repeated (length distance : Nat)
  /-- The end of the block. -/
  | stop
deriving DecidableEq, Repr

/-- For each length symbol from 257 on, the least length and the number of further bits. -/
def lengthSymbols : Array (Nat × Nat) :=
  #[(3, 0), (4, 0), (5, 0), (6, 0), (7, 0), (8, 0), (9, 0), (10, 0), (11, 1), (13, 1), (15, 1),
    (17, 1), (19, 2), (23, 2), (27, 2), (31, 2), (35, 3), (43, 3), (51, 3), (59, 3), (67, 4),
    (83, 4), (99, 4), (115, 4), (131, 5), (163, 5), (195, 5), (227, 5), (258, 0)]

/-- For each distance symbol, the least distance and the number of further bits. -/
def distanceSymbols : Array (Nat × Nat) :=
  #[(1, 0), (2, 0), (3, 0), (4, 0), (5, 1), (7, 1), (9, 2), (13, 2), (17, 3), (25, 3), (33, 4),
    (49, 4), (65, 5), (97, 5), (129, 6), (193, 6), (257, 7), (385, 7), (513, 8), (769, 8),
    (1025, 9), (1537, 9), (2049, 10), (3073, 10), (4097, 11), (6145, 11), (8193, 12),
    (12289, 12), (16385, 13), (24577, 13)]

/-- The two codes of a block. -/
structure Codes where
  /-- The code of bytes, lengths and the end of the block. -/
  literals : Code
  /-- The code of distances. -/
  distances : Code
deriving Inhabited

/-- The codes of blocks that bring none of their own. -/
def fixedCodes : Codes where
  literals := Code.ofLengths
    (List.replicate 144 8 ++ List.replicate 112 9 ++ List.replicate 24 7 ++ List.replicate 8 8)
  distances := Code.ofLengths (List.replicate 32 5)

/-- Reads a value given by its least value and a number of further bits. -/
def takeRange : Option (Nat × Nat) → Bits → Except InflateError (Nat × Bits)
  | none, _ => .error .corrupt
  | some (least, width), bits =>
    match takeBits width bits with
    | .error e => .error e
    | .ok (more, rest) => .ok (least + more, rest)

theorem takeRange_length {range : Option (Nat × Nat)} {bits rest : Bits} {value : Nat}
    (h : takeRange range bits = .ok (value, rest)) : rest.length ≤ bits.length := by
  unfold takeRange at h
  split at h
  · simp at h
  · split at h
    · simp at h
    · next hb =>
      simp only [Except.ok.injEq, Prod.mk.injEq] at h
      exact h.2 ▸ takeBits_length hb

/-- Reads one token. -/
def Codes.token (codes : Codes) (bits : Bits) : Except InflateError (Token × Bits) :=
  match codes.literals.decode bits with
  | .error e => .error e
  | .ok (symbol, bits) =>
    if symbol < 256 then .ok (.literal (UInt8.ofNat symbol), bits)
    else if symbol = 256 then .ok (.stop, bits)
    else
      -- a length symbol, which a distance symbol follows
      match takeRange lengthSymbols[symbol - 257]? bits with
      | .error e => .error e
      | .ok (length, bits) =>
        match codes.distances.decode bits with
        | .error e => .error e
        | .ok (symbol, bits) =>
          match takeRange distanceSymbols[symbol]? bits with
          | .error e => .error e
          | .ok (distance, bits) => .ok (.repeated length distance, bits)

theorem Codes.token_length {codes : Codes} {bits rest : Bits} {token : Token}
    (h : codes.token bits = .ok (token, rest)) : rest.length < bits.length := by
  unfold Codes.token at h
  split at h
  · simp at h
  · next symbol b₁ h₁ =>
    have l₁ := Code.decode_length h₁
    split at h
    · simp only [Except.ok.injEq, Prod.mk.injEq] at h
      exact h.2 ▸ l₁
    · split at h
      · simp only [Except.ok.injEq, Prod.mk.injEq] at h
        exact h.2 ▸ l₁
      · split at h
        · simp at h
        · next length b₂ h₂ =>
          have l₂ := takeRange_length h₂
          split at h
          · simp at h
          · next dsymbol b₃ h₃ =>
            have l₃ := Code.decode_length h₃
            split at h
            · simp at h
            · next distance b₄ h₄ =>
              have l₄ := takeRange_length h₄
              simp only [Except.ok.injEq, Prod.mk.injEq] at h
              rw [← h.2]
              omega

/-- Repeats earlier output byte by byte, so that a repetition may run into itself.  Before the
first byte everything counts as zero. -/
def repeatOutput (distance : Nat) : Nat → Array UInt8 → Array UInt8
  | 0, out => out
  | n + 1, out =>
    -- `out` grows by what is repeated, so the same distance leads to the next byte
    let b := if distance ≤ out.size then out[out.size - distance]?.getD 0 else 0
    repeatOutput distance n (out.push b)

/-- Carries out tokens up to the end of the block. -/
def Codes.expand (codes : Codes) (out : Array UInt8) (bits : Bits) :
    Except InflateError (Array UInt8 × Bits) :=
  match _h : codes.token bits with
  | .error e => .error e
  | .ok (.stop, rest) => .ok (out, rest)
  | .ok (.literal b, rest) => codes.expand (out.push b) rest
  | .ok (.repeated length distance, rest) =>
    codes.expand (repeatOutput distance length out) rest
termination_by bits.length
decreasing_by
  · exact Codes.token_length _h
  · exact Codes.token_length _h

theorem Codes.expand_length {codes : Codes} {out out' : Array UInt8} {bits rest : Bits}
    (h : codes.expand out bits = .ok (out', rest)) : rest.length ≤ bits.length := by
  fun_induction Codes.expand codes out bits with
  | case1 => simp at h
  | case2 out bits r ht =>
    simp only [Except.ok.injEq, Prod.mk.injEq] at h
    exact h.2 ▸ Nat.le_of_lt (Codes.token_length ht)
  | case3 out bits b r ht ih => exact Nat.le_trans (ih h) (Nat.le_of_lt (Codes.token_length ht))
  | case4 out bits l d r ht ih =>
    exact Nat.le_trans (ih h) (Nat.le_of_lt (Codes.token_length ht))

/-- Reads `n` whole bytes. -/
def takeBytes : Nat → Array UInt8 → Bits → Except InflateError (Array UInt8 × Bits)
  | 0, out, bits => .ok (out, bits)
  | n + 1, out, bits =>
    match takeBits 8 bits with
    | .error e => .error e
    | .ok (b, rest) => takeBytes n (out.push (UInt8.ofNat b)) rest

theorem takeBytes_length {n : Nat} {out out' : Array UInt8} {bits rest : Bits}
    (h : takeBytes n out bits = .ok (out', rest)) : rest.length ≤ bits.length := by
  induction n generalizing out bits with
  | zero =>
    simp only [takeBytes, Except.ok.injEq, Prod.mk.injEq] at h
    exact h.2 ▸ Nat.le_refl _
  | succ n ih =>
    simp only [takeBytes] at h
    split at h
    · simp at h
    · next hb => exact Nat.le_trans (ih h) (takeBits_length hb)

/-- The content of a block of stored bytes: from the next byte boundary on, the number of
bytes, its complement, and the bytes. -/
def stored (out : Array UInt8) (bits : Bits) : Except InflateError (Array UInt8 × Bits) :=
  -- bits beyond a number of whole bytes are the rest of a byte, and padding
  match takeBits 16 (bits.drop (bits.length % 8)) with
  | .error e => .error e
  | .ok (length, bits) =>
    match takeBits 16 bits with
    | .error e => .error e
    | .ok (complement, bits) =>
      if length + complement = 0xFFFF then takeBytes length out bits else .error .corrupt

theorem stored_length {out out' : Array UInt8} {bits rest : Bits}
    (h : stored out bits = .ok (out', rest)) : rest.length ≤ bits.length := by
  unfold stored at h
  split at h
  · simp at h
  · next h₁ =>
    have l₁ := takeBits_length h₁
    rw [List.length_drop] at l₁
    split at h
    · simp at h
    · next h₂ =>
      have l₂ := takeBits_length h₂
      split at h
      · have l₃ := takeBytes_length h
        omega
      · simp at h

/-- The order in which the lengths of the first code are written. -/
def lengthOrder : List Nat := [16, 17, 18, 0, 8, 7, 9, 6, 10, 5, 11, 4, 12, 3, 13, 2, 14, 1, 15]

/-- Reads `n` numbers of three bits. -/
def takeLengths : Nat → Bits → Except InflateError (List Nat × Bits)
  | 0, bits => .ok ([], bits)
  | n + 1, bits =>
    match takeBits 3 bits with
    | .error e => .error e
    | .ok (length, bits) =>
      match takeLengths n bits with
      | .error e => .error e
      | .ok (lengths, bits) => .ok (length :: lengths, bits)

theorem takeLengths_length {n : Nat} {lengths : List Nat} {bits rest : Bits}
    (h : takeLengths n bits = .ok (lengths, rest)) : rest.length ≤ bits.length := by
  induction n generalizing lengths bits with
  | zero =>
    simp only [takeLengths, Except.ok.injEq, Prod.mk.injEq] at h
    exact h.2 ▸ Nat.le_refl _
  | succ n ih =>
    simp only [takeLengths] at h
    split at h
    · simp at h
    · next h₁ =>
      split at h
      · simp at h
      · next h₂ =>
        simp only [Except.ok.injEq, Prod.mk.injEq] at h
        obtain ⟨-, rfl⟩ := h
        exact Nat.le_trans (ih h₂) (takeBits_length h₁)

/-- What a symbol of the code for code lengths says to repeat, given the last length: a length,
the least number of times, and the number of bits that give the further times. -/
def repeatedLength? (last : Option Nat) (symbol : Nat) : Option (Nat × Nat × Nat) :=
  if symbol = 16 then last.map fun length => (length, 3, 2)
  else if symbol = 17 then some (0, 3, 3)
  else some (0, 11, 7)

/-- Reads `need` further code lengths, written in a code of their own; `found` holds the lengths
so far, the latest first. -/
def takeCodedLengths (code : Code) (need : Nat) (found : List Nat) (bits : Bits) :
    Except InflateError (List Nat × Bits) :=
  if need = 0 then .ok (found.reverse, bits)
  else
    match code.decode bits with
    | .error e => .error e
    | .ok (symbol, bits) =>
      if symbol < 16 then takeCodedLengths code (need - 1) (symbol :: found) bits
      else
        match repeatedLength? found.head? symbol with
        | none => .error .corrupt
        | some (length, least, width) =>
          match takeRange (some (least, width)) bits with
          | .error e => .error e
          | .ok (times, bits) =>
            -- a repetition may not run past the last length
            if 0 < times ∧ times ≤ need then
              takeCodedLengths code (need - times) (List.replicate times length ++ found) bits
            else .error .corrupt
termination_by need

theorem takeCodedLengths_length {code : Code} {need : Nat} {found lengths : List Nat}
    {bits rest : Bits} (h : takeCodedLengths code need found bits = .ok (lengths, rest)) :
    rest.length ≤ bits.length := by
  fun_induction takeCodedLengths code need found bits with
  | case1 =>
    simp only [Except.ok.injEq, Prod.mk.injEq] at h
    exact h.2 ▸ Nat.le_refl _
  | case2 => simp at h
  | case3 _ _ _ _ _ _ h₁ _ ih => exact Nat.le_trans (ih h) (Nat.le_of_lt (Code.decode_length h₁))
  | case4 => simp at h
  | case5 => simp at h
  | case6 _ _ _ _ _ _ h₁ _ _ _ _ _ _ _ h₂ _ ih =>
    exact Nat.le_trans (ih h)
      (Nat.le_trans (takeRange_length h₂) (Nat.le_of_lt (Code.decode_length h₁)))
  | case7 => simp at h

/-- The code for code lengths, from the lengths written for it. -/
def lengthCode (written : List Nat) : Code :=
  Code.ofLengths ((List.range 19).map fun symbol => written[lengthOrder.idxOf symbol]?.getD 0)

/-- Reads the codes that a block brings: how many lengths there are of each kind, the code in
which they are written, and the lengths. -/
def takeCodes (bits : Bits) : Except InflateError (Codes × Bits) :=
  match takeBits 5 bits with
  | .error e => .error e
  | .ok (literals, bits) =>
    match takeBits 5 bits with
    | .error e => .error e
    | .ok (distances, bits) =>
      match takeBits 4 bits with
      | .error e => .error e
      | .ok (lengths, bits) =>
        if literals + 257 > 286 ∨ distances + 1 > 30 then .error .corrupt
        else
          match takeLengths (lengths + 4) bits with
          | .error e => .error e
          | .ok (written, bits) =>
            if !(lengthCode written).isComplete then .error .corrupt
            else
              match takeCodedLengths (lengthCode written) (literals + distances + 258) [] bits with
              | .error e => .error e
              | .ok (all, bits) =>
                -- one sequence of lengths serves both codes
                let codes : Codes :=
                  ⟨Code.ofLengths (all.take (literals + 257)), Code.ofLengths (all.drop (literals + 257))⟩
                if codes.literals.isUsable && codes.distances.isUsable then .ok (codes, bits)
                else .error .corrupt

theorem takeCodes_length {codes : Codes} {bits rest : Bits}
    (h : takeCodes bits = .ok (codes, rest)) : rest.length ≤ bits.length := by
  unfold takeCodes at h
  split at h
  · simp at h
  next h₁ =>
  split at h
  · simp at h
  next h₂ =>
  split at h
  · simp at h
  next h₃ =>
  split at h
  · simp at h
  split at h
  · simp at h
  next h₄ =>
  split at h
  · simp at h
  split at h
  · simp at h
  next h₅ =>
  have l₁ := takeBits_length h₁
  have l₂ := takeBits_length h₂
  have l₃ := takeBits_length h₃
  have l₄ := takeLengths_length h₄
  have l₅ := takeCodedLengths_length h₅
  simp only at h
  split at h
  · simp only [Except.ok.injEq, Prod.mk.injEq] at h
    rw [← h.2]
    omega
  · simp at h

/-- The content of one block of a given kind. -/
def blockContent (kind : Nat) (out : Array UInt8) (bits : Bits) :
    Except InflateError (Array UInt8 × Bits) :=
  match kind with
  | 0 => stored out bits
  | 1 => fixedCodes.expand out bits
  | 2 =>
    match takeCodes bits with
    | .error e => .error e
    | .ok (codes, rest) => codes.expand out rest
  | _ => .error .corrupt

theorem blockContent_length {kind : Nat} {out out' : Array UInt8} {bits rest : Bits}
    (h : blockContent kind out bits = .ok (out', rest)) : rest.length ≤ bits.length := by
  unfold blockContent at h
  split at h
  · exact stored_length h
  · exact Codes.expand_length h
  · split at h
    · simp at h
    · next hc => exact Nat.le_trans (Codes.expand_length h) (takeCodes_length hc)
  · simp at h

/-- Expands blocks up to the one marked as the last. -/
def blocks (out : Array UInt8) : Bits → Except InflateError (Array UInt8)
  | last :: low :: high :: bits =>
    match _h : blockContent (low.toNat + 2 * high.toNat) out bits with
    | .error e => .error e
    | .ok (out, rest) => if last then .ok out else blocks out rest
  | _ => .error .truncated
termination_by bits => bits.length
decreasing_by
  have := blockContent_length _h
  simp only [List.length_cons]
  omega

/-- Expands deflated data; what follows its last block is ignored. -/
def inflate (bytes : Bytes) : Except InflateError Bytes :=
  (blocks #[] (bitsOf bytes)).map Array.toList

end ModuleAtlas.Zip
