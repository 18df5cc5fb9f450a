import ModuleAtlas.Proofs.Image.Places
import ModuleAtlas.Proofs.Image.Strict

/-! # Which files are images

An image opens if its index is well formed (`WellFormed`): the file is long enough for the header,
starts with the mark in one of the two byte orders and has the supported version, it is as long as
the sizes in the header say, and every slot can be read.  A slot can be read if its attributes come
to an end inside the attribute stream (`Stream`) and its texts come to an end inside the string
table, where the texts of a slot without a module or of a synthetic module do not matter
(`SlotReadable`).

A file that is no image fails one of these checks for the first time (`Fault`), and this is what
opening reports.

**Opening accepts the well-formed indexes** (`RuntimeImage.openFile_of_file`), and no slice that is
taken for it is outside of its buffer.
-/
namespace ModuleAtlas
open Steps

namespace Image
open Binary (ByteOrder)

/-! ## Attribute streams -/

/-- The bytes begin with these attributes and an end mark behind them. -/
inductive Stream : Bytes → List Attribute → Prop
  /-- The end mark, and anything behind it. -/
  | finish {b : UInt8} {rest : Bytes} (hkind : b.toNat / 8 = 0) : Stream (b :: rest) []
  /-- An attribute: its kind and length, and its value. -/
  | next {b : UInt8} {value rest : Bytes} {attributes : List Attribute}
      (hkind : b.toNat / 8 ≠ 0) (hlength : value.length = b.toNat % 8 + 1)
      (hrest : Stream rest attributes) :
      Stream (b :: (value ++ rest)) (⟨b.toNat / 8, Binary.bigEndian value⟩ :: attributes)

theorem decodeAttributes_of_stream {bytes : Bytes} {attributes : List Attribute}
    (h : Stream bytes attributes) : decodeAttributes bytes = .ok attributes := by
  induction h with
  | finish hkind => rw [decodeAttributes, if_pos hkind]
  | @next b value rest attributes hkind hlength _ ih =>
    rw [decodeAttributes, if_neg hkind, ← hlength, Binary.take?_append, List.drop_left, ih]

theorem stream_or_truncated_cons {b : UInt8} {rest value behind : Bytes} (hkind : b.toNat / 8 ≠ 0)
    (hvalue : Binary.take? (b.toNat % 8 + 1) rest = some (value, behind))
    (h : (∃ attributes, Stream (rest.drop (b.toNat % 8 + 1)) attributes) ∨
      decodeAttributes (rest.drop (b.toNat % 8 + 1)) = .error .truncated) :
    (∃ attributes, Stream (b :: rest) attributes) ∨
      decodeAttributes (b :: rest) = .error .truncated := by
  rcases h with ⟨attributes, hstream⟩ | htruncated
  · rw [Binary.take?_eq] at hvalue
    split at hvalue
    · next hlong =>
      have hnext := Stream.next hkind (List.length_take_of_le hlong) hstream
      rw [List.take_append_drop] at hnext
      exact .inl ⟨_, hnext⟩
    · cases hvalue
  · exact .inr (by rw [decodeAttributes, if_neg hkind, hvalue, htruncated])

theorem stream_or_truncated (bytes : Bytes) :
    (∃ attributes, Stream bytes attributes) ∨ decodeAttributes bytes = .error .truncated := by
  induction bytes using decodeAttributes.induct with
  | case1 => exact .inr (by rw [decodeAttributes])
  | case2 b rest hend => exact .inl ⟨[], .finish hend⟩
  | case3 b rest hkind hshort => exact .inr (by rw [decodeAttributes, if_neg hkind, hshort])
  | case4 b rest hkind value behind hvalue e _ ih => exact stream_or_truncated_cons hkind hvalue ih
  | case5 b rest hkind value behind hvalue more _ ih =>
    exact stream_or_truncated_cons hkind hvalue ih

/-- A stream that cannot be read, or whose attributes lead to no answer. -/
theorem decodeAttributes_bind_truncated {α : Type} {bytes : Bytes}
    {next : List Attribute → Except ImageError α}
    (h : ∀ attributes, Stream bytes attributes → next attributes = .error .truncated) :
    decodeAttributes bytes >>= next = .error .truncated := by
  rcases stream_or_truncated bytes with ⟨attributes, hstream⟩ | htruncated
  · rw [bind_of_ok (decodeAttributes_of_stream hstream)]
    exact h attributes hstream
  · exact bind_of_error htruncated next

/-! ## Texts -/

/-- A text from the position on comes to an end inside the string table. -/
def Terminated (strings : Bytes) (position : Nat) : Prop := 0 ∈ strings.drop position

/-- The text from a position on, up to the first zero. -/
def textAt (strings : Bytes) (position : Nat) : String :=
  Utf8.decodeLenient ((strings.drop position).take ((strings.drop position).idxOf 0))

section
variable {strings : Bytes} {position : Nat}

theorem readString_of_terminated (h : Terminated strings position) :
    readString strings position = .ok (textAt strings position) := by
  obtain ⟨length, hlength⟩ := Option.isSome_iff_exists.mp (List.isSome_idxOf?.mpr h)
  rw [readString, untilZero_eq, textAt, List.idxOf_eq_getD_idxOf?, hlength]
  rfl

theorem readString_of_not_terminated (h : ¬ Terminated strings position) :
    readString strings position = .error .truncated := by
  rw [readString, untilZero_eq, List.idxOf?_eq_none_iff.mpr h]
  rfl

/-- A text that cannot be read, or that leads to no answer. -/
theorem readString_bind_truncated {α : Type} {next : String → Except ImageError α}
    (h : Terminated strings position → next (textAt strings position) = .error .truncated) :
    readString strings position >>= next = .error .truncated := by
  by_cases hend : Terminated strings position
  · rw [bind_of_ok (readString_of_terminated hend)]
    exact h hend
  · exact bind_of_error (readString_of_not_terminated hend) next

end

/-! ## Slots -/

/-- A slot whose attributes start at a position of the attribute stream can be read. -/
def SlotReadable (locations strings : Bytes) (position : Nat) : Prop :=
  ∃ attributes, Stream (locations.drop position) attributes ∧
    Terminated strings (valueOf attributes moduleKind) ∧
    (textAt strings (valueOf attributes moduleKind) ∉ ["", "modules", "packages"] →
      ∀ kind ∈ [parentKind, baseKind, extensionKind],
        Terminated strings (valueOf attributes kind))

section
variable {locations strings : Bytes} {position : Nat}

theorem readResource_of_slotReadable (h : SlotReadable locations strings position) :
    ∃ found, readResource locations strings position = .ok found := by
  obtain ⟨attributes, hstream, hmodule, htexts⟩ := h
  rw [readResource, bind_of_ok (decodeAttributes_of_stream hstream),
    bind_of_ok (readString_of_terminated hmodule)]
  split
  · exact ⟨none, rfl⟩
  · next hlists =>
    have hmodules : textAt strings (valueOf attributes moduleKind) ∉ ["", "modules", "packages"] :=
      mt List.mem_cons.mp hlists
    have hentry := htexts hmodules
    rw [bind_of_ok (readString_of_terminated (hentry parentKind (by decide))),
      bind_of_ok (readString_of_terminated (hentry baseKind (by decide))),
      bind_of_ok (readString_of_terminated (hentry extensionKind (by decide)))]
    exact ⟨_, rfl⟩

theorem readResource_of_not_slotReadable (h : ¬ SlotReadable locations strings position) :
    readResource locations strings position = .error .truncated := by
  refine decodeAttributes_bind_truncated fun attributes hstream => ?_
  refine readString_bind_truncated fun hmodule => ?_
  split
  · next hlists =>
    have hmodules : textAt strings (valueOf attributes moduleKind) ∈ ["", "modules", "packages"] :=
      List.mem_cons.mpr hlists
    exact absurd ⟨attributes, hstream, hmodule, fun hother => absurd hmodules hother⟩ h
  refine readString_bind_truncated fun hparent => ?_
  refine readString_bind_truncated fun hbase => ?_
  refine readString_bind_truncated fun hextension => ?_
  refine absurd ⟨attributes, hstream, hmodule, fun _ => ?_⟩ h
  exact List.forall_mem_cons.mpr ⟨hparent, List.forall_mem_cons.mpr ⟨hbase,
    List.forall_mem_singleton.mpr hextension⟩⟩

theorem readModules_of_slotReadable {positions : List Nat} (modules : Modules)
    (h : ∀ position ∈ positions, SlotReadable locations strings position) :
    ∃ table, readModules locations strings modules positions = .ok table := by
  induction positions generalizing modules with
  | nil => exact ⟨modules, rfl⟩
  | cons position positions ih =>
    obtain ⟨hfirst, hrest⟩ := List.forall_mem_cons.mp h
    obtain ⟨found, hfound⟩ := readResource_of_slotReadable hfirst
    rw [readModules, bind_of_ok hfound]
    cases found with
    | none => exact ih modules hrest
    | some r => exact ih (addResource modules r) hrest

theorem readModules_of_not_slotReadable {positions : List Nat} (modules : Modules)
    (hposition : position ∈ positions) (h : ¬ SlotReadable locations strings position) :
    readModules locations strings modules positions = .error .truncated := by
  induction positions generalizing modules with
  | nil => exact absurd hposition List.not_mem_nil
  | cons first positions ih =>
    rw [readModules]
    by_cases hfirst : SlotReadable locations strings first
    · obtain ⟨found, hfound⟩ := readResource_of_slotReadable hfirst
      have hrest : position ∈ positions := by
        rcases List.mem_cons.mp hposition with rfl | hrest
        · exact absurd hfirst h
        · exact hrest
      rw [bind_of_ok hfound]
      cases found with
      | none => exact ih modules hrest
      | some r => exact ih (addResource modules r) hrest
    · exact bind_of_error (readResource_of_not_slotReadable hfirst) _

end

/-! ## The index -/

/-- The header that the words behind the mark make up. -/
def headerAt (order : ByteOrder) (content : Bytes) : Header where
  major := word order content 4 / 0x10000
  minor := word order content 4 % 0x10000
  flags := word order content 8
  resourceCount := word order content 12
  tableLength := word order content 16
  locationsSize := word order content 20
  stringsSize := word order content 24

/-- The slot with a number can be read. -/
def SlotReadableAt (order : ByteOrder) (content : Bytes) (i : Nat) : Prop :=
  let header := headerAt order content
  SlotReadable ((content.drop header.locationsStart).take header.locationsSize)
    ((content.drop header.stringsStart).take header.stringsSize)
    (word order content (header.offsetsStart + i * 4))

/-- The content begins with a well-formed index whose words are in the given order. -/
structure WellFormed (order : ByteOrder) (content : Bytes) : Prop where
  front : headerSize ≤ content.length
  mark : word order content 0 = magic
  version : (headerAt order content).major = supportedMajor
  index : (headerAt order content).indexSize ≤ content.length
  slots : ∀ i < (headerAt order content).tableLength, SlotReadableAt order content i

/-- The first check that the content fails, and what is said about it. -/
inductive Fault (content : Bytes) : ImageError → Prop
  /-- There is no room for a header. -/
  | front (h : content.length < headerSize) : Fault content .truncated
  /-- The mark is missing. -/
  | mark (hfront : headerSize ≤ content.length) (h : ∀ order, word order content 0 ≠ magic) :
      Fault content (.invalidMagic (word .little content 0))
  /-- The version is another one. -/
  | version {order : ByteOrder} (hfront : headerSize ≤ content.length)
      (hmark : word order content 0 = magic)
      (h : (headerAt order content).major ≠ supportedMajor) :
      Fault content
        (.unsupportedVersion (headerAt order content).major (headerAt order content).minor)
  /-- There is no room for the index. -/
  | index {order : ByteOrder} (hfront : headerSize ≤ content.length)
      (hmark : word order content 0 = magic)
      (hversion : (headerAt order content).major = supportedMajor)
      (h : content.length < (headerAt order content).indexSize) : Fault content .truncated
  /-- A slot cannot be read. -/
  | slot {order : ByteOrder} {i : Nat} (hfront : headerSize ≤ content.length)
      (hmark : word order content 0 = magic)
      (hversion : (headerAt order content).major = supportedMajor)
      (hindex : (headerAt order content).indexSize ≤ content.length)
      (hslot : i < (headerAt order content).tableLength)
      (h : ¬ SlotReadableAt order content i) : Fault content .truncated

section
variable {order : ByteOrder} {content : Bytes}

theorem mem_readTable_iff {n start position : Nat} :
    position ∈ readTable order n (content.drop start) ↔
      ∃ i < n, position = word order content (start + i * 4) := by
  induction n generalizing start with
  | zero => exact iff_of_false List.not_mem_nil fun ⟨i, hi, _⟩ => absurd hi (Nat.not_lt_zero i)
  | succ n ih =>
    rw [readTable, List.mem_cons, List.drop_drop, ih]
    constructor
    · rintro (rfl | ⟨i, hi, rfl⟩)
      · exact ⟨0, Nat.succ_pos n, by rw [Nat.zero_mul, Nat.add_zero]; rfl⟩
      · exact ⟨i + 1, Nat.succ_lt_succ hi, congrArg (word order content) (by omega)⟩
    · rintro ⟨_ | i, hi, rfl⟩
      · exact .inl (by rw [Nat.zero_mul, Nat.add_zero]; rfl)
      · exact .inr ⟨i, Nat.lt_of_succ_lt_succ hi, congrArg (word order content) (by omega)⟩

/-- The mark reads differently in the two orders, so one of them is told by it. -/
theorem byteOrder_of_mark (hfront : headerSize ≤ content.length)
    (hmark : word order content 0 = magic) : byteOrder content = .ok order := by
  rw [byteOrder]
  cases order with
  | little => exact if_pos hmark
  | big =>
    have hlittle : word .little content 0 ≠ magic := by
      intro hlittle
      have hlength : (content.take 4).length = 4 :=
        List.length_take_of_le (Nat.le_trans (by decide) hfront)
      have hbytes := Binary.toLittleEndian_littleEndian (content.take 4)
      rw [hlength, show Binary.littleEndian (content.take 4) = magic from hlittle] at hbytes
      have hbig : Binary.bigEndian (content.take 4) = magic := hmark
      rw [← hbytes] at hbig
      exact absurd hbig (by decide)
    rw [if_neg hlittle, if_pos hmark]

theorem readHeader_of_version (h : (headerAt order content).major = supportedMajor) :
    readHeader order content = .ok (headerAt order content) := if_pos h

theorem readHeader_of_other (h : (headerAt order content).major ≠ supportedMajor) :
    readHeader order content =
      .error (.unsupportedVersion (headerAt order content).major (headerAt order content).minor) :=
  if_neg h

/-- The checks are made in their order, and the first that fails is the fault. -/
theorem wellFormed_or_fault (content : Bytes) :
    (∃ order, WellFormed order content) ∨ ∃ e, Fault content e := by
  by_cases hshort : content.length < headerSize
  · exact .inr ⟨_, .front hshort⟩
  have hfront := Nat.le_of_not_lt hshort
  by_cases hforeign : ∀ order, word order content 0 ≠ magic
  · exact .inr ⟨_, .mark hfront hforeign⟩
  obtain ⟨order, hmark⟩ := not_forall_not.mp hforeign
  by_cases hother : (headerAt order content).major ≠ supportedMajor
  · exact .inr ⟨_, .version hfront hmark hother⟩
  have hversion := not_not.mp hother
  by_cases hcut : content.length < (headerAt order content).indexSize
  · exact .inr ⟨_, .index hfront hmark hversion hcut⟩
  have hindex := Nat.le_of_not_lt hcut
  by_cases hslots : ∀ i < (headerAt order content).tableLength, SlotReadableAt order content i
  · exact .inl ⟨order, hfront, hmark, hversion, hindex, hslots⟩
  obtain ⟨i, hslot⟩ := not_forall.mp hslots
  obtain ⟨hi, hslot⟩ := Classical.not_imp.mp hslot
  exact .inr ⟨_, .slot hfront hmark hversion hindex hi hslot⟩

theorem readIndex_of_index (hfront : headerSize ≤ content.length)
    (hmark : word order content 0 = magic)
    (hversion : (headerAt order content).major = supportedMajor)
    (hindex : (headerAt order content).indexSize ≤ content.length) :
    readIndex content = (do
      let header := headerAt order content
      let modules ← readModules ((content.drop header.locationsStart).take header.locationsSize)
        ((content.drop header.stringsStart).take header.stringsSize) ∅
        (readTable order header.tableLength (content.drop header.offsetsStart))
      return (header, modules)) := by
  unfold readIndex
  rw [List.length_take, if_neg (by omega), bind_of_ok (byteOrder_of_mark hfront hmark),
    bind_of_ok (readHeader_of_version hversion), if_neg (Nat.not_lt.mpr hindex)]

theorem readIndex_of_wellFormed (h : WellFormed order content) :
    ∃ modules, readIndex content = .ok (headerAt order content, modules) := by
  obtain ⟨modules, hmodules⟩ := readModules_of_slotReadable ∅ fun position hposition => by
    obtain ⟨i, hi, rfl⟩ := mem_readTable_iff.mp hposition
    exact h.slots i hi
  refine ⟨modules, ?_⟩
  rw [readIndex_of_index h.front h.mark h.version h.index]
  exact bind_of_ok hmodules _

theorem readIndex_of_fault {e : ImageError} (h : Fault content e) :
    readIndex content = .error e := by
  cases h with
  | front h =>
    rw [readIndex, List.length_take, if_pos (by omega)]
    rfl
  | mark hfront h =>
    rw [readIndex, List.length_take, if_neg (by omega)]
    refine bind_of_error ?_ _
    rw [byteOrder, if_neg (h .little), if_neg (h .big)]
  | version hfront hmark h =>
    rw [readIndex, List.length_take, if_neg (by omega),
      bind_of_ok (byteOrder_of_mark hfront hmark)]
    exact bind_of_error (readHeader_of_other h) _
  | index hfront hmark hversion h =>
    rw [readIndex, List.length_take, if_neg (by omega),
      bind_of_ok (byteOrder_of_mark hfront hmark), bind_of_ok (readHeader_of_version hversion),
      if_pos h]
    rfl
  | slot hfront hmark hversion hindex hslot h =>
    rw [readIndex_of_index hfront hmark hversion hindex]
    refine bind_of_error (readModules_of_not_slotReadable ∅ ?_ h) _
    exact mem_readTable_iff.mpr ⟨_, hslot, rfl⟩

end

end Image

namespace RuntimeImage
open Image

/-- Of a file that is there only the index is read. -/
theorem openFile_of_status {tree : FileTree} {path : Path} {content : Bytes}
    (hstatus : tree.status path = .ok (.file content)) (handle : Handle) :
    openFile tree handle path = (do
      let (header, modules) ← readIndex content
      return { path, header, modules, content, handle }) := by
  rw [openFile, hstatus]

/-- **Opening accepts the well-formed indexes.**  No slice that is taken for it is outside of its
buffer.  A file is opened if it begins with a well-formed index, and then the words are in the order
that the index has them in; otherwise opening reports the first check that the file fails. -/
theorem openFile_of_file {tree : FileTree} {handle : Handle} {path : Path} {content : Bytes}
    (hstatus : tree.status path = .ok (.file content)) :
    (Strict.readIndex content).run = some (readIndex content) ∧
      ((∃ image, openFile tree handle path = .ok image) ↔ ∃ order, WellFormed order content) ∧
      ∀ e, openFile tree handle path = .error e ↔ Fault content e := by
  have hopen := openFile_of_status hstatus handle
  have hwellFormed {order : Binary.ByteOrder} (h : WellFormed order content) :
      ∃ image, openFile tree handle path = .ok image := by
    obtain ⟨modules, hindex⟩ := readIndex_of_wellFormed h
    rw [hopen]
    exact ⟨_, bind_of_ok hindex _⟩
  have hfault {e : ImageError} (h : Fault content e) : openFile tree handle path = .error e := by
    rw [hopen]
    exact bind_of_error (readIndex_of_fault h) _
  refine ⟨Strict.readIndex_eq content, ⟨?_, fun ⟨_, h⟩ => hwellFormed h⟩, fun e => ⟨?_, hfault⟩⟩
  · rintro ⟨image, himage⟩
    rcases wellFormed_or_fault content with h | ⟨e, h⟩
    · exact h
    · rw [hfault h] at himage
      cases himage
  · intro herror
    rcases wellFormed_or_fault content with ⟨order, h⟩ | ⟨e', h⟩
    · obtain ⟨image, himage⟩ := hwellFormed h
      rw [himage] at herror
      cases herror
    · rw [hfault h] at herror
      obtain rfl := Except.error.inj herror
      exact h

end RuntimeImage

namespace Shop
open Image

/-- The index of the image with two resources is well formed.  Without the last byte of its index
the file is truncated, and a file of zeros has no mark. -/
theorem openFile_of_file_depot :
    (∃ order, WellFormed order depot) ∧
      RuntimeImage.openFile (depotTreeOf (depot.take 82)) default ⟨"/depot"⟩ =
        .error .truncated ∧
      RuntimeImage.openFile (depotTreeOf (List.replicate 28 0)) default ⟨"/depot"⟩ =
        .error (.invalidMagic 0) := by
  have hmark : word .big (depot.take 82) 0 = magic := by decide
  have hshort : Fault (depot.take 82) .truncated :=
    .index (by decide) hmark (by decide +kernel) (by decide +kernel)
  have hforeign : Fault (List.replicate 28 0) (.invalidMagic 0) :=
    .mark (by decide) (by rintro (_ | _) <;> decide)
  refine ⟨?_, ?_, ?_⟩
  · exact (RuntimeImage.openFile_of_file status_depot).2.1.mp ⟨depotImage, openFile_depot⟩
  · exact ((RuntimeImage.openFile_of_file (status_depotTreeOf _)).2.2 _).mpr hshort
  · exact ((RuntimeImage.openFile_of_file (status_depotTreeOf _)).2.2 _).mpr hforeign

end Shop
end ModuleAtlas
