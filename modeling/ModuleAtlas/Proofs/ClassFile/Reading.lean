import Mathlib.Data.List.Forall2
import ModuleAtlas.ClassFile.Writer

/-! # Readers and the bytes they take

A reader **reads** a value from some bytes (`Reads`) when it takes exactly these bytes off the
front of its input, whatever follows, and gives the value.  The statement composes as readers do:
what a step reads stands in front of what the next steps read, a step that only looks something
up reads nothing, and a counted reader reads the count and then the things one after the other.
-/
namespace ModuleAtlas.ClassFile

/-- The reader takes these bytes off the front, whatever follows, and gives this value. -/
def Reads {α : Type} (read : Reader α) (bytes : Bytes) (a : α) : Prop :=
  ∀ rest, read.run (bytes ++ rest) = .ok (a, rest)

namespace Reads
variable {α β : Type} {read : Reader α} {next : α → Reader β} {front back bytes : Bytes}
  {a : α} {b : β}

theorem pure (a : α) : Reads (Pure.pure a) [] a := fun _ => rfl

theorem bind (hread : Reads read front a) (hnext : Reads (next a) back b) :
    Reads (read >>= next) (front ++ back) b := by
  intro rest
  rw [StateT.run_bind, List.append_assoc, hread (back ++ rest)]
  exact hnext rest

/-- A step that takes no bytes. -/
theorem look (hread : Reads read [] a) (hnext : Reads (next a) bytes b) :
    Reads (read >>= next) bytes b := hread.bind hnext

/-- A last step that takes no bytes. -/
theorem last (hread : Reads read bytes a) (hnext : Reads (next a) [] b) :
    Reads (read >>= next) bytes b := by
  have h := hread.bind hnext
  rwa [List.append_nil] at h

theorem ofExcept {e : Except DescriptorError α} (h : e = .ok a) :
    Reads (Reader.ofExcept e) [] a := by
  intro rest
  rw [h]
  rfl

/-- All of the input is taken when nothing follows. -/
theorem run_eq (h : Reads read bytes a) : read.run bytes = .ok (a, []) := by
  have hnil := h []
  rwa [List.append_nil] at hnil

/-! ## Fields -/

theorem slice (bytes : Bytes) : Reads (Reader.slice bytes.length) bytes bytes := by
  intro rest
  show Reader.slice bytes.length (bytes ++ rest) = _
  rw [Reader.slice, Binary.take?_append]

theorem skip {n : Nat} (h : bytes.length = n) : Reads (Reader.skip n) bytes () := by
  subst h
  exact (slice bytes).last (.pure ())

theorem u1 (b : UInt8) : Reads Reader.u1 [b] b := fun _ => rfl

/-- A number of `width` bytes. -/
theorem number {width n : Nat} (h : n < Nat.pow 256 width) :
    Reads (do return Binary.bigEndian (← Reader.slice width)) (Binary.toBigEndian width n) n := by
  have hslice := slice (Binary.toBigEndian width n)
  rw [Binary.length_toBigEndian] at hslice
  refine hslice.last ?_
  rw [Binary.bigEndian_toBigEndian h]
  exact .pure n

theorem u2 {n : Nat} (h : n < 0x10000) : Reads Reader.u2 (encodeU2 n) n := number h

theorem u4 {n : Nat} (h : n < 0x100000000) : Reads Reader.u4 (encodeU4 n) n := number h

/-! ## Repetition -/

theorem times {things : List β} (write : β → Bytes) {values : List α}
    (h : List.Forall₂ (fun x a => Reads read (write x) a) things values) :
    Reads (Reader.times read things.length) (things.flatMap write) values := by
  induction h with
  | nil => exact .pure []
  | cons hfirst _ ih => exact hfirst.bind (ih.last (.pure _))

theorem counted {things : List β} (write : β → Bytes) {values : List α}
    (hlength : things.length < 0x10000)
    (h : List.Forall₂ (fun x a => Reads read (write x) a) things values) :
    Reads (Reader.counted read) (encodeU2 things.length ++ things.flatMap write) values :=
  (u2 hlength).bind (times write h)

theorem counted_nil (read : Reader α) : Reads (Reader.counted read) (encodeU2 0) [] :=
  (u2 (by decide)).last (.pure [])

end Reads
end ModuleAtlas.ClassFile
