import ModuleAtlas.Binary

/-! # Bits and canonical codes

Compressed data is a sequence of bits, each byte giving its least significant bit first.
Symbols are written in canonical prefix codes, which are determined by the length of each
symbol's code word.
-/
namespace ModuleAtlas.Zip

/-- A sequence of bits. -/
abbrev Bits := List Bool

/-- Why compressed data cannot be expanded. -/
inductive InflateError where
  /-- The data breaks the rules of the format. -/
  | corrupt
  /-- The data ends too early. -/
  | truncated
deriving DecidableEq, Repr

/-- The bits of a byte, least significant first. -/
def bitsOfByte (b : UInt8) : Bits := (List.range 8).map fun i => b.toNat.testBit i

/-- The bits of a byte sequence. -/
def bitsOf (bytes : Bytes) : Bits := bytes.flatMap bitsOfByte

/-- The number that `n` bits write, least significant first, and the bits after them. -/
def takeBits : Nat → Bits → Except InflateError (Nat × Bits)
  | 0, bits => .ok (0, bits)
  | _ + 1, [] => .error .truncated
  | n + 1, b :: bits => (takeBits n bits).map fun (value, rest) => (b.toNat + 2 * value, rest)

theorem takeBits_length {n value : Nat} {bits rest : Bits}
    (h : takeBits n bits = .ok (value, rest)) : rest.length ≤ bits.length := by
  induction n generalizing bits value with
  | zero =>
    simp only [takeBits, Except.ok.injEq, Prod.mk.injEq] at h
    exact h.2 ▸ Nat.le_refl _
  | succ n ih =>
    cases bits with
    | nil => simp [takeBits] at h
    | cons b bits =>
      simp only [takeBits] at h
      cases hrec : takeBits n bits with
      | error e => simp [hrec, Except.map] at h
      | ok p =>
        obtain ⟨v, r⟩ := p
        simp only [hrec, Except.map, Except.ok.injEq, Prod.mk.injEq] at h
        obtain ⟨-, rfl⟩ := h
        exact Nat.le_trans (ih hrec) (Nat.le_succ _)

/-- A canonical code: how many code words there are of each length from 1 on, and the symbols
in the order of their code words. -/
structure Code where
  /-- The number of code words of length 1, 2, and so on, up to the length of the longest. -/
  counts : List Nat
  /-- The symbols, those with shorter code words first. -/
  symbols : Array Nat
deriving Repr, Inhabited

namespace Code

/-- The longest code word. -/
def maxLength : Nat := 15

/-- The code in which symbol `i` has a word of length `lengths[i]`; length 0 is for symbols that
do not occur. -/
def ofLengths (lengths : List Nat) : Code where
  counts := (List.range (lengths.foldl max 1)).map fun i => lengths.count (i + 1)
  symbols := ((List.range maxLength).flatMap fun i =>
    (lengths.zipIdx.filter fun p => p.1 = i + 1).map Prod.snd).toArray

/-- The share of all bit sequences that start with a code word, in parts of 2 ^ 15. -/
def weight (code : Code) : Nat :=
  code.counts.zipIdx.foldl (fun total p => total + p.1 * Nat.pow 2 (maxLength - 1 - p.2)) 0

/-- Whether every long enough bit sequence starts with exactly one code word. -/
def isComplete (code : Code) : Bool := code.weight = Nat.pow 2 maxLength

/-- Whether a code for content may be used: it is complete, or its only word is a single bit, or
it has no words. -/
def isUsable (code : Code) : Bool :=
  code.isComplete || code.symbols.size ≤ 1 && code.counts.length ≤ 1

/-- Looks for the code word at the front of the bits, one length after the other.  At each
length, `first` is the least code word of that length and `index` the place of its symbol.  Bits
that no code word starts with are found out as soon as they are as many as the longest has. -/
def walk : List Nat → (word first index : Nat) → Bits → Except InflateError (Nat × Bits)
  | [], _, _, _, _ => .error .corrupt
  | _ :: _, _, _, _, [] => .error .truncated
  | count :: counts, word, first, index, b :: bits =>
    let word := word + b.toNat
    if word < first + count then .ok (index + (word - first), bits)
    else walk counts (2 * word) (2 * (first + count)) (index + count) bits

theorem walk_length {counts : List Nat} {word first index place : Nat} {bits rest : Bits}
    (h : walk counts word first index bits = .ok (place, rest)) : rest.length < bits.length := by
  induction counts generalizing word first index bits with
  | nil => simp [walk] at h
  | cons count counts ih =>
    cases bits with
    | nil => simp [walk] at h
    | cons b bits =>
      simp only [walk] at h
      split at h
      · simp only [Except.ok.injEq, Prod.mk.injEq] at h
        exact h.2 ▸ Nat.lt_succ_self _
      · exact Nat.lt_succ_of_lt (ih h)

/-- The symbol whose code word stands at the front of the bits, and the bits after it. -/
def decode (code : Code) (bits : Bits) : Except InflateError (Nat × Bits) :=
  match walk code.counts 0 0 0 bits with
  | .error e => .error e
  | .ok (place, rest) =>
    match code.symbols[place]? with
    | some symbol => .ok (symbol, rest)
    | none => .error .corrupt

theorem decode_length {code : Code} {bits rest : Bits} {symbol : Nat}
    (h : code.decode bits = .ok (symbol, rest)) : rest.length < bits.length := by
  unfold decode at h
  split at h
  · simp at h
  · next place rest' hw =>
    split at h
    · simp only [Except.ok.injEq, Prod.mk.injEq] at h
      exact h.2 ▸ walk_length hw
    · simp at h

end Code
end ModuleAtlas.Zip
