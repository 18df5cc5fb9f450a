import Mathlib.Data.Fin.VecNotation
import Mathlib.Logic.Function.Basic
import ModuleAtlas.Proofs.Image.Locations
import ModuleAtlas.Proofs.Image.Places

/-! # Attributes in memory

Attributes are read here as a machine does it: at positions of a buffer, with a table of eight words
of 64 bits that the values are put into (`DecodesTo`).  Nothing in these rules makes a run end, and
any of them may come to a position that is not in the buffer.

A value has at most eight bytes and so fits into its word; shifting it in byte by byte loses nothing
(`toNat_gather`).  Each attribute brings the position nearer to the end of the buffer, so a run ends
(`exists_decodesTo`), with what `decodeAttributes` finds (`decodesTo_iff`), and it fails exactly
where no end mark is reached (`decodesTo_truncated_iff`).  Everywhere else the bytes up to the mark
are what some attributes are written as (`reachesEnd_iff`).  The table has the last value of each of
its kinds and nothing of the others (`valuesOf_last`, `valuesOf_filter`).  What stands in the buffer
behind the end mark, or before the first attribute, plays no part in it (`decodes_written`).
-/
namespace ModuleAtlas.Image

/-! ## Values of eight bytes -/

/-- The number written most significant byte first, gathered in a word of 64 bits. -/
def gather (bytes : Bytes) : UInt64 := bytes.foldl (fun word b => word <<< 8 ||| b.toUInt64) 0

/-- A byte joins a word without loss as long as the word has room. -/
theorem toNat_shiftLeft_or {word : UInt64} (h : word.toNat < Nat.pow 256 7) (b : UInt8) :
    (word <<< 8 ||| b.toUInt64).toNat = word.toNat * 256 + b.toNat := by
  have hroom : word.toNat * 2 ^ 8 < 2 ^ 64 := by
    have hlt : word.toNat < 72057594037927936 := h
    omega
  have hb : b.toNat < 2 ^ 8 := b.toNat_lt
  rw [UInt64.toNat_or, UInt64.toNat_shiftLeft, UInt8.toNat_toUInt64]
  show word.toNat <<< 8 % 2 ^ 64 ||| b.toNat = _
  rw [Nat.shiftLeft_eq, Nat.mod_eq_of_lt hroom, ← Nat.shiftLeft_eq,
    ← Nat.shiftLeft_add_eq_or_of_lt hb, Nat.shiftLeft_eq]

theorem toNat_gather {bytes : Bytes} (h : bytes.length ≤ 8) :
    (gather bytes).toNat = Binary.bigEndian bytes := by
  induction bytes using List.reverseRecOn with
  | nil => rfl
  | append_singleton bytes b ih =>
    rw [List.length_append, List.length_singleton] at h
    have hvalue := ih (by omega)
    have hlt : Binary.bigEndian bytes < Nat.pow 256 7 :=
      Binary.lt_pow_of_length_le (Binary.bigEndian_lt bytes) (by omega)
    unfold gather at hvalue ⊢
    unfold Binary.bigEndian at hvalue hlt ⊢
    rw [List.foldl_append, List.foldl_append]
    rw [← hvalue] at hlt ⊢
    exact toNat_shiftLeft_or hlt b

/-! ## Runs -/

/-- The values of the kinds below eight. -/
abbrev Values := Fin 8 → UInt64

/-- Before anything has been read, every value is zero. -/
def noValues : Values := fun _ => 0

/-- Where the attribute at a position ends. -/
def positionBehind (position : Nat) (head : UInt8) : Nat := position + (head.toNat % 8 + 1) + 1

/-- Reading attributes from a position on, with the values found so far.  There is one rule for each
case, and nothing in them that makes a run end. -/
inductive DecodesTo (bytes : Bytes) : Nat → Values → Except ImageError Values → Prop where
  /-- There is no byte at the position. -/
  | outside {position : Nat} {values : Values} (hbyte : bytes[position]? = none) :
    DecodesTo bytes position values (.error .truncated)
  /-- The end mark is reached. -/
  | mark {position : Nat} {values : Values} {head : UInt8} (hbyte : bytes[position]? = some head)
    (hmark : head.toNat / 8 = 0) : DecodesTo bytes position values (.ok values)
  /-- The value goes on behind the last byte. -/
  | cut {position : Nat} {values : Values} {head : UInt8} (hbyte : bytes[position]? = some head)
    (hkind : head.toNat / 8 ≠ 0)
    (hvalue : Binary.slice? bytes (position + 1) (head.toNat % 8 + 1) = none) :
    DecodesTo bytes position values (.error .truncated)
  /-- The value of a kind below eight is kept. -/
  | kept {position : Nat} {values : Values} {head : UInt8} {value : Bytes}
    {answer : Except ImageError Values} (hbyte : bytes[position]? = some head)
    (hkind : head.toNat / 8 ≠ 0)
    (hvalue : Binary.slice? bytes (position + 1) (head.toNat % 8 + 1) = some value)
    (hlt : head.toNat / 8 < 8)
    (hrest : DecodesTo bytes (positionBehind position head)
      (Function.update values ⟨head.toNat / 8, hlt⟩ (gather value)) answer) :
    DecodesTo bytes position values answer
  /-- The value of any other kind is passed over. -/
  | passed {position : Nat} {values : Values} {head : UInt8} {value : Bytes}
    {answer : Except ImageError Values} (hbyte : bytes[position]? = some head)
    (hkind : head.toNat / 8 ≠ 0)
    (hvalue : Binary.slice? bytes (position + 1) (head.toNat % 8 + 1) = some value)
    (hle : ¬head.toNat / 8 < 8)
    (hrest : DecodesTo bytes (positionBehind position head) values answer) :
    DecodesTo bytes position values answer

/-- From the position on an end mark is reached, going from each attribute to the next. -/
inductive ReachesEnd (bytes : Bytes) : Nat → Prop where
  /-- The end mark. -/
  | mark {position : Nat} {head : UInt8} (hbyte : bytes[position]? = some head)
    (hmark : head.toNat / 8 = 0) : ReachesEnd bytes position
  /-- An attribute, and what is behind its value. -/
  | next {position : Nat} {head : UInt8} (hbyte : bytes[position]? = some head)
    (hkind : head.toNat / 8 ≠ 0)
    (hrest : ReachesEnd bytes (positionBehind position head)) : ReachesEnd bytes position

/-- The values after one more attribute. -/
def Values.put (values : Values) (a : Attribute) : Values :=
  fun kind => if a.kind = kind then UInt64.ofNat a.value else values kind

/-- The values after some attributes. -/
def valuesOf (attributes : List Attribute) : Values := attributes.foldl Values.put noValues

/-! ## Bytes from a position on -/

section
variable {bytes value : Bytes} {position : Nat} {head : UInt8}

theorem drop_of_getElem? (hbyte : bytes[position]? = some head) :
    bytes.drop position = head :: bytes.drop (position + 1) := by
  rw [List.drop_eq_getElem?_toList_append, hbyte]
  rfl

theorem decodeAttributes_of_outside (hbyte : bytes[position]? = none) :
    decodeAttributes (bytes.drop position) = .error .truncated := by
  rw [List.drop_eq_nil_of_le (List.getElem?_eq_none_iff.mp hbyte), decodeAttributes]

theorem decodeAttributes_of_mark (hbyte : bytes[position]? = some head)
    (hmark : head.toNat / 8 = 0) : decodeAttributes (bytes.drop position) = .ok [] := by
  rw [drop_of_getElem? hbyte, decodeAttributes, if_pos hmark]

theorem decodeAttributes_of_cut (hbyte : bytes[position]? = some head)
    (hkind : head.toNat / 8 ≠ 0)
    (hvalue : Binary.slice? bytes (position + 1) (head.toNat % 8 + 1) = none) :
    decodeAttributes (bytes.drop position) = .error .truncated := by
  rw [Binary.slice?, Option.map_eq_none_iff] at hvalue
  rw [drop_of_getElem? hbyte, decodeAttributes, if_neg hkind, hvalue]

theorem decodeAttributes_of_value (hbyte : bytes[position]? = some head)
    (hkind : head.toNat / 8 ≠ 0)
    (hvalue : Binary.slice? bytes (position + 1) (head.toNat % 8 + 1) = some value) :
    decodeAttributes (bytes.drop position) =
      (decodeAttributes (bytes.drop (positionBehind position head))).map
        (⟨head.toNat / 8, Binary.bigEndian value⟩ :: ·) := by
  rw [Binary.slice?, Option.map_eq_some_iff] at hvalue
  obtain ⟨⟨_, rest⟩, htake, rfl⟩ := hvalue
  rw [drop_of_getElem? hbyte, decodeAttributes, if_neg hkind, htake]
  dsimp only
  have hbehind : position + 1 + (head.toNat % 8 + 1) = positionBehind position head := by
    unfold positionBehind
    omega
  rw [List.drop_drop, hbehind]
  cases decodeAttributes (bytes.drop (positionBehind position head)) <;> rfl

end

/-! ## Values found on the way -/

section
variable {values : Values} {a : Attribute} {attributes : List Attribute}

theorem put_of_lt (hlt : a.kind < 8) :
    values.put a = Function.update values ⟨a.kind, hlt⟩ (UInt64.ofNat a.value) := by
  funext kind
  by_cases h : a.kind = kind
  · obtain rfl : kind = ⟨a.kind, hlt⟩ := Fin.ext h.symm
    rw [Values.put, if_pos rfl, Function.update_self]
  · have hne : kind ≠ ⟨a.kind, hlt⟩ := fun e => h (congrArg Fin.val e).symm
    rw [Values.put, if_neg h, Function.update_of_ne hne]

theorem put_of_not_lt (hle : ¬a.kind < 8) : values.put a = values := by
  funext kind
  refine if_neg fun h => hle ?_
  rw [h]
  exact kind.isLt

theorem foldl_put_of_forall_ne {kind : Fin 8} (h : ∀ a ∈ attributes, a.kind ≠ kind) :
    attributes.foldl Values.put values kind = values kind := by
  induction attributes generalizing values with
  | nil => rfl
  | cons a attributes ih =>
    rw [List.foldl_cons, ih fun b hb => h b (List.mem_cons_of_mem a hb)]
    exact if_neg (h a List.mem_cons_self)

/-- The last attribute of its kind counts. -/
theorem valuesOf_last {before after : List Attribute} (hafter : ∀ b ∈ after, b.kind ≠ a.kind)
    (hlt : a.kind < 8) :
    valuesOf (before ++ a :: after) ⟨a.kind, hlt⟩ = UInt64.ofNat a.value := by
  rw [valuesOf, List.foldl_append, List.foldl_cons, foldl_put_of_forall_ne hafter]
  exact if_pos rfl

/-- Attributes of other kinds do not count. -/
theorem valuesOf_filter (attributes : List Attribute) :
    valuesOf (attributes.filter fun a => a.kind < 8) = valuesOf attributes := by
  unfold valuesOf
  rw [List.foldl_filter]
  refine congrArg (fun f => attributes.foldl f noValues) (funext fun values => funext fun a => ?_)
  split
  · rfl
  · next h => rw [put_of_not_lt (of_decide_eq_false (Bool.eq_false_iff.mpr h))]

theorem valueOf_concat (attributes : List Attribute) (a : Attribute) (kind : Nat) :
    valueOf (attributes ++ [a]) kind =
      if a.kind = kind then a.value else valueOf attributes kind := by
  rw [valueOf, List.reverse_append, List.reverse_singleton, List.singleton_append]
  by_cases h : a.kind = kind
  · have hk : (a.kind == kind) = true := beq_iff_eq.mpr h
    rw [List.find?_cons_of_pos (p := fun b : Attribute => b.kind == kind) hk, if_pos h]
    rfl
  · have hk : ¬(a.kind == kind) = true := fun hk => h (beq_iff_eq.mp hk)
    rw [List.find?_cons_of_neg (p := fun b : Attribute => b.kind == kind) hk, if_neg h]
    rfl

/-- Values of at most eight bytes are kept as they are. -/
theorem toNat_valuesOf (h : ∀ a ∈ attributes, a.value < positionSpan) (kind : Fin 8) :
    (valuesOf attributes kind).toNat = valueOf attributes kind := by
  induction attributes using List.reverseRecOn with
  | nil => rfl
  | append_singleton attributes a ih =>
    have hrest := ih fun b hb => h b (List.mem_append_left [a] hb)
    have ha := h a (List.mem_append_right attributes List.mem_cons_self)
    rw [valueOf_concat, valuesOf, List.foldl_append, List.foldl_cons, List.foldl_nil, Values.put]
    split
    · exact UInt64.toNat_ofNat_of_lt ha
    · exact hrest

end

/-! ## The reading ends -/

section
variable {bytes : Bytes} {position : Nat} {values : Values} {answer : Except ImageError Values}

theorem exists_decodesTo (bytes : Bytes) (position : Nat) (values : Values) :
    ∃ answer, DecodesTo bytes position values answer := by
  -- every attribute brings the position nearer to the end of the bytes
  induction hleft : bytes.length - position using Nat.strongRecOn
    generalizing position values with
  | ind left ih =>
    cases hbyte : bytes[position]? with
    | none => exact ⟨_, .outside hbyte⟩
    | some head =>
      by_cases hkind : head.toNat / 8 = 0
      · exact ⟨_, .mark hbyte hkind⟩
      cases hvalue : Binary.slice? bytes (position + 1) (head.toNat % 8 + 1) with
      | none => exact ⟨_, .cut hbyte hkind hvalue⟩
      | some value =>
        have hinside : position < bytes.length := (List.getElem?_eq_some_iff.mp hbyte).1
        have hnearer : bytes.length - positionBehind position head < left := by
          unfold positionBehind
          omega
        by_cases hlt : head.toNat / 8 < 8
        · obtain ⟨answer, h⟩ := ih _ hnearer (positionBehind position head)
            (Function.update values ⟨head.toNat / 8, hlt⟩ (gather value)) rfl
          exact ⟨answer, .kept hbyte hkind hvalue hlt h⟩
        · obtain ⟨answer, h⟩ := ih _ hnearer (positionBehind position head) values rfl
          exact ⟨answer, .passed hbyte hkind hvalue hlt h⟩

theorem map_decodeAttributes_of_value {head : UInt8} {value : Bytes}
    (hbyte : bytes[position]? = some head) (hkind : head.toNat / 8 ≠ 0)
    (hvalue : Binary.slice? bytes (position + 1) (head.toNat % 8 + 1) = some value) :
    (decodeAttributes (bytes.drop position)).map (List.foldl Values.put values) =
      (decodeAttributes (bytes.drop (positionBehind position head))).map
        (List.foldl Values.put (values.put ⟨head.toNat / 8, Binary.bigEndian value⟩)) := by
  rw [decodeAttributes_of_value hbyte hkind hvalue]
  cases decodeAttributes (bytes.drop (positionBehind position head)) <;> rfl

theorem gather_eq_ofNat {length : Nat} {value : Bytes} (hle : length ≤ 8)
    (hvalue : Binary.slice? bytes position length = some value) :
    gather value = UInt64.ofNat (Binary.bigEndian value) := by
  have hlength := (Binary.slice?_eq_some_iff.mp hvalue).2
  rw [← toNat_gather (by omega), UInt64.ofNat_toNat]

theorem DecodesTo.eq_map (h : DecodesTo bytes position values answer) :
    answer = (decodeAttributes (bytes.drop position)).map (List.foldl Values.put values) := by
  induction h with
  | outside hbyte =>
    rw [decodeAttributes_of_outside hbyte]
    rfl
  | mark hbyte hmark =>
    rw [decodeAttributes_of_mark hbyte hmark]
    rfl
  | cut hbyte hkind hvalue =>
    rw [decodeAttributes_of_cut hbyte hkind hvalue]
    rfl
  | @kept position values head value answer hbyte hkind hvalue hlt _ ih =>
    have hlast := Nat.mod_lt head.toNat (show 8 > 0 by decide)
    rw [map_decodeAttributes_of_value hbyte hkind hvalue, ih, put_of_lt hlt,
      gather_eq_ofNat (Nat.succ_le_of_lt hlast) hvalue]
  | passed hbyte hkind hvalue hle _ ih =>
    rw [map_decodeAttributes_of_value hbyte hkind hvalue, ih, put_of_not_lt hle]

theorem decodesTo_iff :
    DecodesTo bytes position values answer ↔
      answer = (decodeAttributes (bytes.drop position)).map (List.foldl Values.put values) := by
  refine ⟨DecodesTo.eq_map, ?_⟩
  rintro rfl
  obtain ⟨answer, h⟩ := exists_decodesTo bytes position values
  exact h.eq_map ▸ h

theorem DecodesTo.reachesEnd (h : DecodesTo bytes position values answer) :
    answer = .error .truncated ∨ ReachesEnd bytes position := by
  induction h with
  | outside _ => exact .inl rfl
  | mark hbyte hmark => exact .inr (.mark hbyte hmark)
  | cut _ _ _ => exact .inl rfl
  | kept hbyte hkind _ _ _ ih => exact ih.imp id (.next hbyte hkind)
  | passed hbyte hkind _ _ _ ih => exact ih.imp id (.next hbyte hkind)

theorem ReachesEnd.lt (h : ReachesEnd bytes position) : position < bytes.length := by
  cases h with
  | mark hbyte _ => exact (List.getElem?_eq_some_iff.mp hbyte).1
  | next hbyte _ _ => exact (List.getElem?_eq_some_iff.mp hbyte).1

theorem ReachesEnd.exists_ok (h : ReachesEnd bytes position) (values : Values) :
    ∃ found, DecodesTo bytes position values (.ok found) := by
  induction h generalizing values with
  | mark hbyte hmark => exact ⟨values, .mark hbyte hmark⟩
  | @next position head hbyte hkind hrest ih =>
    -- what is behind the value is inside, and so the value is
    have hinside : position + (head.toNat % 8 + 1) + 1 < bytes.length := hrest.lt
    obtain ⟨value, hvalue⟩ : ∃ value,
        Binary.slice? bytes (position + 1) (head.toNat % 8 + 1) = some value := by
      refine ⟨(bytes.drop (position + 1)).take (head.toNat % 8 + 1), ?_⟩
      rw [Binary.slice?, Binary.take?_eq, if_pos (by rw [List.length_drop]; omega)]
      rfl
    by_cases hlt : head.toNat / 8 < 8
    · obtain ⟨found, h⟩ := ih (Function.update values ⟨head.toNat / 8, hlt⟩ (gather value))
      exact ⟨found, .kept hbyte hkind hvalue hlt h⟩
    · obtain ⟨found, h⟩ := ih values
      exact ⟨found, .passed hbyte hkind hvalue hlt h⟩

theorem exists_decodesTo_ok_iff :
    (∃ found, DecodesTo bytes position values (.ok found)) ↔ ReachesEnd bytes position := by
  refine ⟨?_, fun h => h.exists_ok values⟩
  rintro ⟨found, h⟩
  rcases h.reachesEnd with herror | hend
  · cases herror
  · exact hend

theorem decodesTo_truncated_iff :
    DecodesTo bytes position values (.error .truncated) ↔ ¬ReachesEnd bytes position := by
  constructor
  · intro h hend
    obtain ⟨found, hok⟩ := hend.exists_ok values
    cases h.eq_map.trans hok.eq_map.symm
  · intro hnot
    obtain ⟨answer, h⟩ := exists_decodesTo bytes position values
    rcases h.reachesEnd with rfl | hend
    · exact h
    · exact absurd hend hnot

theorem decodeAttributes_truncated_iff :
    decodeAttributes (bytes.drop position) = .error .truncated ↔ ¬ReachesEnd bytes position := by
  have hrun : DecodesTo bytes position noValues (.error .truncated) ↔ _ := decodesTo_truncated_iff
  rw [← hrun, decodesTo_iff]
  cases decodeAttributes (bytes.drop position) <;> simp [Except.map, eq_comm]

end

/-! ## Written attributes -/

/-- An attribute with the number of bytes that its value is written with, which may be more than the
value needs. -/
structure StoredAttribute extends Attribute where
  /-- The number of bytes. -/
  width : Nat
  /-- The attribute can be written in this way. -/
  fits : toAttribute.FitsIn width

/-- The bytes of an attribute. -/
def StoredAttribute.bytes (w : StoredAttribute) : Bytes := encodeAttribute w.width w.toAttribute

/-- At the position there are these attributes and an end mark behind them. -/
def WrittenAt (bytes : Bytes) (position : Nat) (written : List StoredAttribute) : Prop :=
  ∃ (front : Bytes) (mark : UInt8) (rest : Bytes), front.length = position ∧ mark.toNat / 8 = 0 ∧
    bytes = front ++ (written.flatMap StoredAttribute.bytes ++ mark :: rest)

/-- The values of written attributes. -/
def valuesWritten (written : List StoredAttribute) : Values :=
  valuesOf (written.map StoredAttribute.toAttribute)

theorem decodeAttributes_of_writtenAt {bytes : Bytes} {position : Nat}
    {written : List StoredAttribute} (h : WrittenAt bytes position written) :
    decodeAttributes (bytes.drop position) = .ok (written.map StoredAttribute.toAttribute) := by
  obtain ⟨front, mark, rest, rfl, hmark, rfl⟩ := h
  rw [List.drop_left]
  exact decodeAttributes_written (fun w _ => w.fits) (by omega) rest

section
variable {bytes value : Bytes} {position : Nat} {head : UInt8}

theorem writtenAt_of_drop {written : List StoredAttribute} {mark : UInt8} {rest : Bytes}
    (hmark : mark.toNat / 8 = 0)
    (hdrop : bytes.drop position = written.flatMap StoredAttribute.bytes ++ mark :: rest) :
    WrittenAt bytes position written := by
  have hinside : position < bytes.length := by
    by_contra hle
    rw [List.drop_eq_nil_of_le (Nat.le_of_not_lt hle)] at hdrop
    exact List.append_ne_nil_of_right_ne_nil _ (List.cons_ne_nil mark rest) hdrop.symm
  refine ⟨bytes.take position, mark, rest, List.length_take_of_le hinside.le, hmark, ?_⟩
  rw [← hdrop, List.take_append_drop]

/-- Any head but an end mark and any value of the length that it says are an attribute. -/
theorem exists_storedAttribute (hkind : head.toNat / 8 ≠ 0)
    (hlength : value.length = head.toNat % 8 + 1) :
    ∃ w : StoredAttribute, w.bytes = head :: value := by
  have hhead : head.toNat < 256 := head.toNat_lt
  refine ⟨⟨⟨head.toNat / 8, Binary.bigEndian value⟩, value.length, Nat.pos_of_ne_zero hkind,
    show head.toNat / 8 < 32 by omega, by omega, by omega, Binary.bigEndian_lt value⟩, ?_⟩
  have htag : head.toNat / 8 * 8 + (value.length - 1) = head.toNat := by omega
  show UInt8.ofNat (head.toNat / 8 * 8 + (value.length - 1)) ::
    Binary.toBigEndian value.length (Binary.bigEndian value) = head :: value
  rw [htag, UInt8.ofNat_toNat, Binary.toBigEndian_bigEndian]

/-- Wherever an end mark is reached, attributes have been written. -/
theorem ReachesEnd.exists_writtenAt (h : ReachesEnd bytes position) :
    ∃ written, WrittenAt bytes position written := by
  induction h with
  | mark hbyte hmark => exact ⟨[], writtenAt_of_drop hmark (drop_of_getElem? hbyte)⟩
  | @next position head hbyte hkind hrest ih =>
    obtain ⟨written, front, mark, rest, hfront, hmark, hbytes⟩ := ih
    have hinside : position + (head.toNat % 8 + 1) + 1 < bytes.length := hrest.lt
    have hlength : ((bytes.drop (position + 1)).take (head.toNat % 8 + 1)).length =
        head.toNat % 8 + 1 := by
      rw [List.length_take, List.length_drop]
      omega
    obtain ⟨w, hw⟩ := exists_storedAttribute hkind hlength
    have hposition : position + 1 + (head.toNat % 8 + 1) = front.length := by
      rw [hfront, positionBehind]
      omega
    have hbehind : (bytes.drop (position + 1)).drop (head.toNat % 8 + 1) =
        written.flatMap StoredAttribute.bytes ++ mark :: rest := by
      rw [List.drop_drop, hposition, hbytes, List.drop_left]
    have hdrop : bytes.drop position =
        (w :: written).flatMap StoredAttribute.bytes ++ mark :: rest := by
      rw [drop_of_getElem? hbyte, List.flatMap_cons, hw, List.append_assoc, ← hbehind,
        List.cons_append, List.take_append_drop]
    exact ⟨w :: written, writtenAt_of_drop hmark hdrop⟩

theorem reachesEnd_iff :
    ReachesEnd bytes position ↔ ∃ written, WrittenAt bytes position written := by
  refine ⟨ReachesEnd.exists_writtenAt, ?_⟩
  rintro ⟨written, h⟩
  by_contra hnot
  have hread := decodeAttributes_of_writtenAt h
  rw [decodeAttributes_truncated_iff.mpr hnot] at hread
  cases hread

end

theorem value_lt_positionSpan (w : StoredAttribute) : w.value < positionSpan :=
  Nat.lt_of_lt_of_le w.fits.value_lt (Nat.pow_le_pow_right (by decide) w.fits.length_le)

theorem toNat_valuesWritten (written : List StoredAttribute) (kind : Fin 8) :
    (valuesWritten written kind).toNat =
      valueOf (written.map StoredAttribute.toAttribute) kind := by
  refine toNat_valuesOf (fun a ha => ?_) kind
  obtain ⟨w, -, rfl⟩ := List.mem_map.mp ha
  exact value_lt_positionSpan w

theorem valuesWritten_last {before after : List StoredAttribute} {w : StoredAttribute}
    (hafter : ∀ later ∈ after, later.kind ≠ w.kind) (hlt : w.kind < 8) :
    (valuesWritten (before ++ w :: after) ⟨w.kind, hlt⟩).toNat = w.value := by
  have hlast : ∀ a ∈ after.map StoredAttribute.toAttribute, a.kind ≠ w.kind :=
    List.forall_mem_map.mpr hafter
  rw [valuesWritten, List.map_append, List.map_cons, valuesOf_last hlast hlt]
  exact UInt64.toNat_ofNat_of_lt (value_lt_positionSpan w)

/-- **Attributes are read as they were written.**  Where attributes and an end mark stand in a
buffer, whatever stands around them, reading from there ends with the same table: of each kind below
eight it has the last value, all bits of it, and zero if there is none; attributes of other kinds
make no difference.  From any position of any buffer the reading ends.  It fails, because the buffer
does, exactly if it reaches no end mark there; wherever it reaches one, such attributes are written.
-/
theorem decodes_written :
    (∀ bytes position written, WrittenAt bytes position written →
      (∀ answer, DecodesTo bytes position noValues answer ↔ answer = .ok (valuesWritten written)) ∧
      ∃ attributes, decodeAttributes (bytes.drop position) = .ok attributes ∧
        ∀ kind : Fin 8, valueOf attributes kind = (valuesWritten written kind).toNat) ∧
      (∀ (before after : List StoredAttribute) (w : StoredAttribute),
        (∀ later ∈ after, later.kind ≠ w.kind) → ∀ hlt : w.kind < 8,
          (valuesWritten (before ++ w :: after) ⟨w.kind, hlt⟩).toNat = w.value) ∧
      (∀ (written : List StoredAttribute) (kind : Fin 8),
        (∀ w ∈ written, w.kind ≠ kind) → valuesWritten written kind = 0) ∧
      (∀ written : List StoredAttribute,
        valuesWritten (written.filter fun w => w.kind < 8) = valuesWritten written) ∧
      ∀ bytes position, (∃! answer, DecodesTo bytes position noValues answer) ∧
        (ReachesEnd bytes position ↔ ∃ written, WrittenAt bytes position written) ∧
        ((∃ found, DecodesTo bytes position noValues (.ok found)) ↔ ReachesEnd bytes position) ∧
        (DecodesTo bytes position noValues (.error .truncated) ↔ ¬ReachesEnd bytes position) ∧
        (decodeAttributes (bytes.drop position) = .error .truncated ↔
          ¬ReachesEnd bytes position) := by
  refine ⟨fun bytes position written h => ?_, fun _ _ _ => valuesWritten_last,
    fun written kind h => ?_, fun written => ?_, fun bytes position => ?_⟩
  · have hread := decodeAttributes_of_writtenAt h
    refine ⟨fun answer => ?_, _, hread, fun kind => (toNat_valuesWritten written kind).symm⟩
    rw [decodesTo_iff, hread]
    rfl
  · exact foldl_put_of_forall_ne (List.forall_mem_map.mpr h)
  · have hfilter := valuesOf_filter (written.map StoredAttribute.toAttribute)
    rwa [List.filter_map] at hfilter
  · exact ⟨⟨_, decodesTo_iff.mpr rfl, fun _ => decodesTo_iff.mp⟩, reachesEnd_iff,
      exists_decodesTo_ok_iff, decodesTo_truncated_iff, decodeAttributes_truncated_iff⟩

end ModuleAtlas.Image

namespace ModuleAtlas.Shop
open Image

/-- What is written on a label: a position with leading zeros, something unknown, the greatest
length there is, and another position. -/
def label : List StoredAttribute :=
  [⟨⟨moduleKind, 5⟩, 8, by decide, by decide, by decide, by decide, by decide⟩,
    ⟨⟨31, 70000⟩, 3, by decide, by decide, by decide, by decide, by decide⟩,
    ⟨⟨uncompressedKind, 0xffffffffffffffff⟩, 8, by decide, by decide, by decide, by decide,
      by decide⟩,
    ⟨⟨moduleKind, 258⟩, 2, by decide, by decide, by decide, by decide, by decide⟩]

/-- The label behind one byte and before another; its end mark is not zero. -/
def labelBytes : Bytes :=
  [9, 15, 0, 0, 0, 0, 0, 0, 0, 5, 250, 1, 17, 112, 63, 255, 255, 255, 255, 255, 255, 255, 255,
    9, 1, 2, 5, 255]

/-- The second position counts.  If the label is cut off before the end mark, it cannot be read. -/
theorem decodes_written_label :
    WrittenAt labelBytes 1 label ∧
      (∀ answer, DecodesTo labelBytes 1 noValues answer ↔
        answer = .ok ![0, 258, 0, 0, 0, 0, 0, 0xffffffffffffffff]) ∧
      (∃! answer, DecodesTo (labelBytes.take 26) 1 noValues answer) ∧
      decodeAttributes ((labelBytes.take 26).drop 1) = .error .truncated ∧
      ¬ReachesEnd (labelBytes.take 26) 1 := by
  have hlabel : WrittenAt labelBytes 1 label := ⟨[9], 5, [255], rfl, rfl, by decide⟩
  have hvalues : valuesWritten label = ![0, 258, 0, 0, 0, 0, 0, 0xffffffffffffffff] :=
    funext (by decide)
  have hcut : decodeAttributes ((labelBytes.take 26).drop 1) = .error .truncated := by cbv
  obtain ⟨hwritten, -, -, -, hread⟩ := decodes_written
  obtain ⟨hends, -, -, -, hshort⟩ := hread (labelBytes.take 26) 1
  exact ⟨hlabel, hvalues ▸ (hwritten labelBytes 1 label hlabel).1, hends, hcut,
    hshort.mp hcut⟩

end ModuleAtlas.Shop
