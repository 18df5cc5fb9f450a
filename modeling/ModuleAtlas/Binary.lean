import ModuleAtlas.Text.Utf8

/-! # Numbers in byte sequences

Class files and archives write numbers at a fixed width, most or least significant byte first.
`bigEndian` and `littleEndian` are the values; `toBigEndian` and `toLittleEndian` write them.
-/
namespace ModuleAtlas.Binary

/-- Buffers are shorter than this.  A call that asks for a longer one is broken off. -/
def bufferBound : Nat := 0x8000000000000000

/-- The order in which the bytes of a number are written. -/
inductive ByteOrder where
  /-- Least significant byte first. -/
  | little
  /-- Most significant byte first. -/
  | big
deriving DecidableEq, Repr, Inhabited

/-- The number written most significant byte first. -/
def bigEndian (bytes : Bytes) : Nat :=
  bytes.foldl (fun acc b => acc * 256 + b.toNat) 0

/-- The number written least significant byte first. -/
def littleEndian (bytes : Bytes) : Nat :=
  bytes.foldr (fun b acc => b.toNat + 256 * acc) 0

/-- The number written in a given order. -/
def ByteOrder.value : ByteOrder → Bytes → Nat
  | .little => littleEndian
  | .big => bigEndian

/-- The low `width` bytes of a number, least significant first. -/
def toLittleEndian : Nat → Nat → Bytes
  | 0, _ => []
  | width + 1, n => UInt8.ofNat n :: toLittleEndian width (n / 256)

/-- The low `width` bytes of a number, most significant first. -/
def toBigEndian (width n : Nat) : Bytes := (toLittleEndian width n).reverse

/-- The low `width` bytes of a number in a given order. -/
def ByteOrder.write : ByteOrder → Nat → Nat → Bytes
  | .little => toLittleEndian
  | .big => toBigEndian

@[simp] theorem length_toLittleEndian (width n : Nat) :
    (toLittleEndian width n).length = width := by
  induction width generalizing n with
  | zero => rfl
  | succ width ih => rw [toLittleEndian, List.length_cons, ih]

@[simp] theorem length_toBigEndian (width n : Nat) : (toBigEndian width n).length = width := by
  rw [toBigEndian, List.length_reverse, length_toLittleEndian]

theorem littleEndian_toLittleEndian (width n : Nat) :
    littleEndian (toLittleEndian width n) = n % Nat.pow 256 width := by
  induction width generalizing n with
  | zero => exact (Nat.mod_one n).symm
  | succ width ih =>
    have hstep : littleEndian (toLittleEndian (width + 1) n) =
        n % 256 + 256 * (n / 256 % Nat.pow 256 width) := by
      rw [← ih]
      exact congrArg (· + _) UInt8.toNat_ofNat'
    rw [hstep, show Nat.pow 256 (width + 1) = 256 * Nat.pow 256 width from Nat.mul_comm _ _,
      Nat.mod_mul]

theorem bigEndian_reverse (bytes : Bytes) : bigEndian bytes.reverse = littleEndian bytes := by
  unfold bigEndian littleEndian
  rw [List.foldl_reverse]
  refine congrArg (fun f => bytes.foldr f 0) (funext fun b => funext fun acc => ?_)
  rw [Nat.mul_comm, Nat.add_comm]

theorem littleEndian_lt (bytes : Bytes) : littleEndian bytes < Nat.pow 256 bytes.length := by
  induction bytes with
  | nil => exact Nat.one_pos
  | cons b bytes ih =>
    have hb : b.toNat < 256 := b.toNat_lt
    have hvalue : littleEndian (b :: bytes) = b.toNat + 256 * littleEndian bytes := rfl
    have hpow : Nat.pow 256 (b :: bytes).length = Nat.pow 256 bytes.length * 256 := rfl
    omega

theorem bigEndian_lt (bytes : Bytes) : bigEndian bytes < Nat.pow 256 bytes.length := by
  have hreverse := littleEndian_lt bytes.reverse
  rwa [← bigEndian_reverse, List.reverse_reverse, List.length_reverse] at hreverse

theorem toLittleEndian_littleEndian (bytes : Bytes) :
    toLittleEndian bytes.length (littleEndian bytes) = bytes := by
  induction bytes with
  | nil => rfl
  | cons b bytes ih =>
    have hb : b.toNat < 256 := b.toNat_lt
    have hvalue : littleEndian (b :: bytes) = b.toNat + 256 * littleEndian bytes := rfl
    have hdigit : UInt8.ofNat (b.toNat + 256 * littleEndian bytes) = b := by
      refine UInt8.toNat_inj.mp ?_
      rw [UInt8.toNat_ofNat']
      omega
    have hrest : (b.toNat + 256 * littleEndian bytes) / 256 = littleEndian bytes := by omega
    rw [hvalue, List.length_cons, toLittleEndian, hdigit, hrest, ih]

/-- Bytes are written as they were read. -/
theorem toBigEndian_bigEndian (bytes : Bytes) :
    toBigEndian bytes.length (bigEndian bytes) = bytes := by
  have hreverse := toLittleEndian_littleEndian bytes.reverse
  rw [← bigEndian_reverse, List.reverse_reverse, List.length_reverse] at hreverse
  rw [toBigEndian, hreverse, List.reverse_reverse]

/-- A number that fits is read as it was written. -/
theorem bigEndian_toBigEndian {width n : Nat} (h : n < Nat.pow 256 width) :
    bigEndian (toBigEndian width n) = n := by
  rw [toBigEndian, bigEndian_reverse, littleEndian_toLittleEndian, Nat.mod_eq_of_lt h]

namespace ByteOrder

@[simp] theorem length_write (order : ByteOrder) (width n : Nat) :
    (order.write width n).length = width := by
  cases order with
  | little => exact length_toLittleEndian width n
  | big => exact length_toBigEndian width n

theorem value_write {order : ByteOrder} {width n : Nat} (h : n < Nat.pow 256 width) :
    order.value (order.write width n) = n := by
  cases order with
  | little => exact (littleEndian_toLittleEndian width n).trans (Nat.mod_eq_of_lt h)
  | big => exact bigEndian_toBigEndian h

end ByteOrder

/-- The first `n` bytes and the rest, if there are that many. -/
def take? (n : Nat) (bytes : Bytes) : Option (Bytes × Bytes) :=
  if (bytes.take n).length = n then some (bytes.take n, bytes.drop n) else none

theorem take?_eq (n : Nat) (bytes : Bytes) :
    take? n bytes = if n ≤ bytes.length then some (bytes.take n, bytes.drop n) else none := by
  unfold take?
  rw [List.length_take]
  by_cases h : n ≤ bytes.length
  · rw [if_pos h, if_pos (Nat.min_eq_left h)]
  · rw [if_neg h, if_neg (by omega)]

theorem take?_append (front rest : Bytes) :
    take? front.length (front ++ rest) = some (front, rest) := by
  rw [take?_eq, if_pos (by rw [List.length_append]; omega), List.take_left, List.drop_left]

/-- `length` bytes from a position on, if the sequence reaches that far. -/
def slice? (bytes : Bytes) (start length : Nat) : Option Bytes :=
  (take? length (bytes.drop start)).map Prod.fst

end ModuleAtlas.Binary
