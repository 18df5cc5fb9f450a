import ModuleAtlas.Image.RuntimeImage
import ModuleAtlas.Proofs.Steps

/-! # No slice is outside of its buffer

The header of an image and the index behind it are read into buffers, and words, tables and texts
are slices of these.  Where a slice starts and ends is computed from what the file says, so it is
not clear that the buffer reaches that far.

`Strict.readIndex` opens an image as `readIndex` does, but takes every slice with `Strict.slice`,
which has no answer at all where a buffer ends too early.  It always has an answer, and the answer
is that of `readIndex` (`Strict.readIndex_eq`): the lengths that are tested before are enough.
-/
namespace ModuleAtlas.Image

open Binary (ByteOrder)

theorem untilZero_eq (bytes : Bytes) : untilZero bytes = (bytes.idxOf? 0).map bytes.take := by
  induction bytes with
  | nil => rfl
  | cons b bytes ih =>
    rw [untilZero, List.idxOf?_cons, ih]
    by_cases hb : b = 0
    · rw [if_pos hb, hb]
      rfl
    · rw [if_neg hb, beq_false_of_ne hb]
      cases bytes.idxOf? 0 <;> rfl

/-- A computation that has no answer once it takes a slice outside of a buffer. -/
abbrev Strict := ExceptT ImageError Option

namespace Strict

/-- A computation that takes no slices. -/
def ofExcept {α : Type} (e : Except ImageError α) : Strict α := ExceptT.mk (some e)

/-- A slice of a buffer, which has to reach that far. -/
def slice (buffer : Bytes) (start length : Nat) : Strict Bytes :=
  ExceptT.lift (Binary.slice? buffer start length)

/-! ## Opening -/

/-- The word from a position on. -/
def word (order : ByteOrder) (buffer : Bytes) (start : Nat) : Strict Nat := do
  return order.value (← slice buffer start 4)

/-- The byte order in which the first word is the mark. -/
def byteOrder (front : Bytes) : Strict ByteOrder := do
  let little ← word .little front 0
  if little = magic then return .little
  let big ← word .big front 0
  if big = magic then return .big
  throw (.invalidMagic little)

/-- Reads the words behind the mark. -/
def readHeader (order : ByteOrder) (front : Bytes) : Strict Header := do
  let version ← word order front 4
  let header : Header := {
    major := version / 0x10000
    minor := version % 0x10000
    flags := ← word order front 8
    resourceCount := ← word order front 12
    tableLength := ← word order front 16
    locationsSize := ← word order front 20
    stringsSize := ← word order front 24 }
  if header.major = supportedMajor then return header
  else throw (.unsupportedVersion header.major header.minor)

/-- The words of a table with `n` slots from a position on. -/
def readTable (order : ByteOrder) (index : Bytes) : Nat → Nat → Strict (List Nat)
  | 0, _ => return []
  | n + 1, start => do
    let first ← word order index start
    let rest ← readTable order index n (start + 4)
    return first :: rest

/-- The text at a position of the string table. -/
def readString (strings : Bytes) (position : Nat) : Strict String :=
  match (strings.drop position).idxOf? 0 with
  | some length => do return Utf8.decodeLenient (← slice strings position length)
  | none => throw .truncated

/-- The resource of a slot.  What an attribute takes of the stream is tested when it is decoded. -/
def readResource (locations strings : Bytes) (position : Nat) : Strict (Option Resource) := do
  let attributes ← ofExcept (decodeAttributes (locations.drop position))
  let value := valueOf attributes
  let module ← readString strings (value moduleKind)
  if module = "" ∨ module ∈ syntheticModules then return none
  let parent ← readString strings (value parentKind)
  let base ← readString strings (value baseKind)
  let extension ← readString strings (value extensionKind)
  return some {
    module
    entry := entryName parent base extension
    location := ⟨value offsetKind, value compressedKind, value uncompressedKind⟩ }

/-- Reads the resources of all slots in order. -/
def readModules (locations strings : Bytes) : Modules → List Nat → Strict Modules
  | modules, [] => return modules
  | modules, position :: positions => do
    match ← readResource locations strings position with
    | some r => readModules locations strings (addResource modules r) positions
    | none => readModules locations strings modules positions

/-- Reads header and index from two buffers with the beginning of the file. -/
def readIndex (content : Bytes) : Strict (Header × Modules) := do
  if content.length < headerSize then throw .truncated
  let front := content.take headerSize
  let order ← byteOrder front
  let header ← readHeader order front
  if content.length < header.indexSize then throw .truncated
  let index := content.take header.indexSize
  let locations ← slice index header.locationsStart header.locationsSize
  let strings ← slice index header.stringsStart header.stringsSize
  let positions ← readTable order index header.tableLength header.offsetsStart
  let modules ← readModules locations strings ∅ positions
  return (header, modules)

/-! ## There always is an answer -/

section
variable {α β : Type}

theorem bind_of_ok {step : Strict α} {a : α} (hstep : step = ofExcept (.ok a))
    (next : α → Strict β) : step >>= next = next a := by
  rw [hstep]
  rfl

/-- A step that has an answer, and what comes of it. -/
theorem bind_eq_ofExcept {step : Strict α} {e : Except ImageError α} {next : α → Strict β}
    {next' : α → Except ImageError β} (hstep : step = ofExcept e)
    (hnext : ∀ a, e = .ok a → next a = ofExcept (next' a)) :
    step >>= next = ofExcept (e >>= next') := by
  rw [hstep]
  cases e with
  | error e => rfl
  | ok a => exact hnext a rfl

end

variable {content : Bytes} {n start length : Nat} {order : ByteOrder}

/-- A buffer with the beginning of a file has the slices of the file. -/
theorem slice_eq (hend : start + length ≤ n) (hn : n ≤ content.length) :
    slice (content.take n) start length = ofExcept (.ok ((content.drop start).take length)) := by
  have hreach : length ≤ ((content.take n).drop start).length := by
    rw [List.length_drop, List.length_take]
    omega
  have htake : ((content.take n).drop start).take length = (content.drop start).take length := by
    rw [List.drop_take, List.take_take, Nat.min_eq_left (by omega)]
  rw [slice, Binary.slice?, Binary.take?_eq, if_pos hreach, htake]
  rfl

theorem word_eq (hend : start + 4 ≤ n) (hn : n ≤ content.length) :
    word order (content.take n) start = ofExcept (.ok (Image.word order content start)) := by
  rw [word, slice_eq hend hn]
  rfl

theorem byteOrder_eq (h : headerSize ≤ content.length) :
    byteOrder (content.take headerSize) = ofExcept (Image.byteOrder content) := by
  rw [byteOrder, bind_of_ok (word_eq (by decide) h), Image.byteOrder]
  split
  · rfl
  rw [bind_of_ok (word_eq (by decide) h)]
  split
  · rfl
  · rfl

theorem readHeader_eq (h : headerSize ≤ content.length) :
    readHeader order (content.take headerSize) = ofExcept (Image.readHeader order content) := by
  have hword {start : Nat} (hend : start + 4 ≤ headerSize) :
      word order (content.take headerSize) start =
        ofExcept (.ok (Image.word order content start)) := word_eq hend h
  rw [readHeader, bind_of_ok (hword (by decide)), bind_of_ok (hword (by decide)),
    bind_of_ok (hword (by decide)), bind_of_ok (hword (by decide)), bind_of_ok (hword (by decide)),
    bind_of_ok (hword (by decide)), Image.readHeader]
  dsimp only
  split
  · rfl
  · rfl

theorem readTable_eq {slots : Nat} (hend : start + slots * 4 ≤ n) (hn : n ≤ content.length) :
    readTable order (content.take n) slots start =
      ofExcept (.ok (Image.readTable order slots (content.drop start))) := by
  induction slots generalizing start with
  | zero => rfl
  | succ slots ih =>
    rw [readTable, word_eq (by omega) hn, ih (by omega), Image.readTable, List.drop_drop]
    rfl

theorem readString_eq (strings : Bytes) (position : Nat) :
    readString strings position = ofExcept (Image.readString strings position) := by
  rw [readString, Image.readString, untilZero_eq]
  cases hlength : (strings.drop position).idxOf? 0 with
  | none => rfl
  | some length =>
    -- the zero is behind the text, so the text is inside the table
    obtain ⟨hinside, -⟩ := List.idxOf?_eq_some_iff.mp hlength
    rw [List.length_drop] at hinside
    have hslice : slice (strings.take strings.length) position length = _ :=
      slice_eq (by omega) (Nat.le_refl _)
    rw [List.take_length] at hslice
    exact bind_of_ok hslice _

theorem readResource_eq (locations strings : Bytes) (position : Nat) :
    readResource locations strings position =
      ofExcept (Image.readResource locations strings position) := by
  refine bind_eq_ofExcept rfl fun attributes _ => ?_
  refine bind_eq_ofExcept (readString_eq strings _) fun module _ => ?_
  split
  · rfl
  refine bind_eq_ofExcept (readString_eq strings _) fun parent _ => ?_
  refine bind_eq_ofExcept (readString_eq strings _) fun base _ => ?_
  exact bind_eq_ofExcept (readString_eq strings _) fun extension _ => rfl

theorem readModules_eq (locations strings : Bytes) (modules : Modules) (positions : List Nat) :
    readModules locations strings modules positions =
      ofExcept (Image.readModules locations strings modules positions) := by
  induction positions generalizing modules with
  | nil => rfl
  | cons position positions ih =>
    refine bind_eq_ofExcept (readResource_eq locations strings position) fun found _ => ?_
    cases found with
    | none => exact ih modules
    | some r => exact ih (addResource modules r)

/-- No slice is outside of its buffer. -/
theorem readIndex_eq (content : Bytes) : readIndex content = ofExcept (Image.readIndex content) := by
  unfold readIndex Image.readIndex
  rw [List.length_take]
  by_cases hlong : headerSize ≤ content.length
  · rw [if_neg (Nat.not_lt.mpr hlong), if_neg (by omega)]
    refine bind_eq_ofExcept (byteOrder_eq hlong) fun order _ => ?_
    refine bind_eq_ofExcept (readHeader_eq hlong) fun header _ => ?_
    by_cases hindex : header.indexSize ≤ content.length
    · rw [if_neg (Nat.not_lt.mpr hindex), if_neg (Nat.not_lt.mpr hindex)]
      -- the three parts behind the redirect table follow each other up to the end of the index
      have hstrings : header.stringsStart + header.stringsSize = header.indexSize := rfl
      have hlocations : header.locationsStart + header.locationsSize = header.stringsStart := rfl
      have hoffsets : header.offsetsStart + header.tableLength * 4 = header.locationsStart := rfl
      rw [bind_of_ok (slice_eq (by omega) hindex), bind_of_ok (slice_eq (by omega) hindex),
        bind_of_ok (readTable_eq (by omega) hindex)]
      exact bind_eq_ofExcept (readModules_eq _ _ _ _) fun modules _ => rfl
    · rw [if_pos (Nat.lt_of_not_le hindex), if_pos (Nat.lt_of_not_le hindex)]
      rfl
  · rw [if_pos (Nat.lt_of_not_le hlong), if_pos (by omega)]
    rfl

end Strict
end ModuleAtlas.Image
