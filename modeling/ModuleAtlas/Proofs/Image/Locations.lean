import Mathlib.Data.List.Nodup
import ModuleAtlas.Image.Writer
import ModuleAtlas.Proofs.Text.Utf8

/-! # Written locations

A location is written as a sequence of attributes, each with as many bytes for its value as the
value needs; its texts are positions in a table of texts.  Reading takes the attributes one by one
(`decodeAttributes_encodeAttribute`) until the end mark, whatever follows it.

Values of zero are not written.  As no kind is written twice and a kind that is missing has value
zero, the values read are those that were to be written (`valueOf_of_mem`).  The texts at their
positions are the texts that were put into the table (`readString_textPosition`), and folder, file
name and ending make up the name that they were taken from (`entryName_ofEntry`).
-/
namespace ModuleAtlas.Image

open Binary (ByteOrder)

/-! ## Attributes -/

/-- An attribute can be written with a value of `length` bytes. -/
structure Attribute.FitsIn (a : Attribute) (length : Nat) : Prop where
  kind_pos : 0 < a.kind
  kind_lt : a.kind < 32
  length_pos : 0 < length
  length_le : length ≤ 8
  value_lt : a.value < Nat.pow 256 length

/-- One attribute is read, and reading goes on behind it. -/
theorem decodeAttributes_encodeAttribute {a : Attribute} {length : Nat} (h : a.FitsIn length)
    (rest : Bytes) :
    decodeAttributes (encodeAttribute length a ++ rest) =
      (decodeAttributes rest).map (a :: ·) := by
  obtain ⟨hkind, hkind', hlength, hlength', hvalue⟩ := h
  have hb : (UInt8.ofNat (a.kind * 8 + (length - 1))).toNat = a.kind * 8 + (length - 1) :=
    Utf8.toNat_octet (by omega)
  have htag : (a.kind * 8 + (length - 1)) / 8 = a.kind := by omega
  have hwidth : (a.kind * 8 + (length - 1)) % 8 + 1 = length := by omega
  have htake : Binary.take? length (Binary.toBigEndian length a.value ++ rest) =
      some (Binary.toBigEndian length a.value, rest) := by
    have ht := Binary.take?_append (Binary.toBigEndian length a.value) rest
    rwa [Binary.length_toBigEndian] at ht
  have hdrop : (Binary.toBigEndian length a.value ++ rest).drop length = rest :=
    List.drop_left' (Binary.length_toBigEndian length a.value)
  rw [encodeAttribute, List.cons_append, decodeAttributes, hb, htag, hwidth,
    if_neg (Nat.ne_of_gt hkind), htake, hdrop]
  dsimp only
  rw [Binary.bigEndian_toBigEndian hvalue]
  cases decodeAttributes rest <;> rfl

theorem decodeAttributes_end {b : UInt8} (h : b.toNat < 8) (rest : Bytes) :
    decodeAttributes (b :: rest) = .ok [] := by
  rw [decodeAttributes, if_pos (by omega)]

/-- Attributes are read up to the end mark, each with the width that it was written with. -/
theorem decodeAttributes_written {α : Type} {read : α → Attribute} {width : α → Nat}
    {items : List α} (h : ∀ a ∈ items, (read a).FitsIn (width a)) {b : UInt8} (hb : b.toNat < 8)
    (rest : Bytes) :
    decodeAttributes (items.flatMap (fun a => encodeAttribute (width a) (read a)) ++ b :: rest) =
      .ok (items.map read) := by
  induction items with
  | nil => exact decodeAttributes_end hb rest
  | cons a items ih =>
    rw [List.flatMap_cons, List.append_assoc,
      decodeAttributes_encodeAttribute (h a List.mem_cons_self),
      ih fun c hc => h c (List.mem_cons_of_mem _ hc)]
    rfl

/-! ## Values -/

theorem byteCount_pos (n : Nat) : 0 < byteCount n := by
  rw [byteCount]
  split <;> omega

/-- A number fits into the bytes that it needs. -/
theorem lt_pow_byteCount (n : Nat) : n < Nat.pow 256 (byteCount n) := by
  induction n using byteCount.induct with
  | case1 n h =>
    rw [byteCount, if_pos h]
    exact h
  | case2 n h ih =>
    rw [byteCount, if_neg h, show Nat.pow 256 (byteCount (n / 256) + 1) =
      Nat.pow 256 (byteCount (n / 256)) * 256 from rfl]
    omega

/-- No more bytes are needed than the number fits into. -/
theorem byteCount_le {n width : Nat} (hpos : 0 < width) (h : n < Nat.pow 256 width) :
    byteCount n ≤ width := by
  induction n using byteCount.induct generalizing width with
  | case1 n hn =>
    rw [byteCount, if_pos hn]
    exact hpos
  | case2 n hn ih =>
    rw [byteCount, if_neg hn]
    obtain ⟨k, rfl⟩ : ∃ k, width = k + 1 := ⟨width - 1, by omega⟩
    have hlt : n < Nat.pow 256 k * 256 := h
    have hk : 0 < k := by
      refine Nat.pos_of_ne_zero fun h0 => hn ?_
      rw [h0] at hlt
      exact hlt
    have hrest := ih hk (by omega)
    omega

/-- The value of a kind that occurs only once is the value that it occurs with; leaving out values
of zero makes no difference. -/
theorem valueOf_of_mem {attributes : List Attribute} {a : Attribute}
    (hdistinct : (attributes.map Attribute.kind).Nodup) (ha : a ∈ attributes) :
    valueOf (attributes.filter fun a => a.value ≠ 0) a.kind = a.value := by
  unfold valueOf
  cases hfind : (attributes.filter fun a => a.value ≠ 0).reverse.find?
      fun b => b.kind == a.kind with
  | some b =>
    have hb : b ∈ attributes :=
      (List.mem_filter.mp (List.mem_reverse.mp (List.mem_of_find?_eq_some hfind))).1
    have hkind : b.kind = a.kind := by
      have hp := List.find?_some hfind
      exact eq_of_beq hp
    obtain rfl : b = a := List.inj_on_of_nodup_map hdistinct hb ha hkind
    rfl
  | none =>
    have hnone := List.find?_eq_none.mp hfind
    by_contra hne
    have hmem : a ∈ attributes.filter fun a => a.value ≠ 0 :=
      List.mem_filter.mpr ⟨ha, decide_eq_true (Ne.symm hne)⟩
    exact hnone a (List.mem_reverse.mpr hmem) (beq_self_eq_true _)

theorem valueOf_of_forall_ne {attributes : List Attribute} {kind : Nat}
    (h : ∀ a ∈ attributes, a.kind ≠ kind) : valueOf attributes kind = 0 := by
  unfold valueOf
  have hnone : attributes.reverse.find? (fun a => a.kind == kind) = none := by
    refine List.find?_eq_none.mpr fun a ha => ?_
    have hne := h a (List.mem_reverse.mp ha)
    simpa using hne
  rw [hnone]
  rfl

/-! ## Texts -/

theorem untilZero_append {bytes : Bytes} (h : (0 : UInt8) ∉ bytes) (rest : Bytes) :
    untilZero (bytes ++ 0 :: rest) = some bytes := by
  induction bytes with
  | nil => rfl
  | cons b bytes ih =>
    rw [List.mem_cons, not_or] at h
    rw [List.cons_append, untilZero, if_neg (Ne.symm h.1), ih h.2]
    rfl

/-- A text of the table stands at its position. -/
theorem drop_textPosition {texts : List String} {s : String} (hne : s ≠ "") (h : s ∈ texts) :
    ∃ rest, (stringTable texts).drop (textPosition texts s) = Utf8.encode s ++ 0 :: rest := by
  obtain ⟨back, hsplit⟩ := eq_takeWhile_ne_append h
  refine ⟨back.flatMap encodeText, ?_⟩
  have htable : stringTable texts =
      stringTable (texts.takeWhile (· ≠ s)) ++ (s :: back).flatMap encodeText := by
    conv_lhs => rw [hsplit]
    rw [stringTable, List.flatMap_append]
    rfl
  rw [textPosition, if_neg hne, htable, List.drop_left, List.flatMap_cons, encodeText,
    List.append_assoc]
  rfl

theorem readString_textPosition {texts : List String} {s : String} (h : s ≠ "" → s ∈ texts)
    (hs : '\x00' ∉ s.toList) : readString (stringTable texts) (textPosition texts s) = .ok s := by
  unfold readString
  by_cases hne : s = ""
  · subst hne
    rfl
  · obtain ⟨rest, hdrop⟩ := drop_textPosition hne (h hne)
    rw [hdrop, untilZero_append (Utf8.zero_not_mem_encode hs)]
    exact congrArg Except.ok (Utf8.decodeLenient_encode s)

theorem textPosition_lt {texts : List String} {s : String} (h : s ≠ "" → s ∈ texts) :
    textPosition texts s < (stringTable texts).length := by
  by_cases hne : s = ""
  · rw [textPosition, if_pos hne]
    exact Nat.succ_pos _
  · obtain ⟨rest, hdrop⟩ := drop_textPosition hne (h hne)
    by_contra hle
    rw [List.drop_eq_nil_of_le (Nat.le_of_not_lt hle)] at hdrop
    exact List.append_ne_nil_of_right_ne_nil _ (List.cons_ne_nil 0 rest) hdrop.symm

/-! ## Names of entries -/

/-- File name and ending make up the file. -/
theorem append_extension {file : String} (h : file.toList.getLast? ≠ some '.') :
    ((Text.splitLast? '.' file).getD (file, "")).1 ++
      (if ((Text.splitLast? '.' file).getD (file, "")).2 = "" then ""
        else "." ++ ((Text.splitLast? '.' file).getD (file, "")).2) = file := by
  cases hsplit : Text.splitLast? '.' file with
  | none => exact String.append_empty
  | some p =>
    obtain ⟨base, extension⟩ := p
    obtain ⟨hfile, -⟩ := Text.toList_of_splitLast? hsplit
    have hne : extension ≠ "" := by
      rintro rfl
      exact h (by rw [hfile]; simp)
    refine String.toList_inj.mp ?_
    rw [Option.getD_some, if_neg hne, hfile, String.toList_append, String.toList_append]
    rfl

/-- Folder and file make up the entry, and the file ends as the entry does. -/
theorem append_file {entry : String} (h : ∀ name, entry = "/" ++ name → '/' ∈ name.toList) :
    (if ((Text.splitLast? '/' entry).getD ("", entry)).1 = "" then ""
      else ((Text.splitLast? '/' entry).getD ("", entry)).1 ++ "/") ++
        ((Text.splitLast? '/' entry).getD ("", entry)).2 = entry := by
  cases hsplit : Text.splitLast? '/' entry with
  | none => exact String.empty_append
  | some p =>
    obtain ⟨parent, file⟩ := p
    obtain ⟨hentry, hfile⟩ := Text.toList_of_splitLast? hsplit
    have hne : parent ≠ "" := by
      rintro rfl
      refine hfile (h file (String.toList_inj.mp ?_))
      rw [hentry, String.toList_append]
      rfl
    refine String.toList_inj.mp ?_
    rw [Option.getD_some, if_neg hne, hentry, String.toList_append, String.toList_append,
      List.append_assoc]
    rfl

theorem getLast?_file {entry : String} (h : entry.toList.getLast? ≠ some '.') :
    ((Text.splitLast? '/' entry).getD ("", entry)).2.toList.getLast? ≠ some '.' := by
  cases hsplit : Text.splitLast? '/' entry with
  | none => exact h
  | some p =>
    obtain ⟨parent, file⟩ := p
    obtain ⟨hentry, -⟩ := Text.toList_of_splitLast? hsplit
    intro hlast
    refine h ?_
    rw [Option.getD_some] at hlast
    rw [hentry, List.getLast?_append, List.getLast?_cons, hlast]
    rfl

theorem getD_splitLast?_subset (c : Char) {s : String} {whole : String × String}
    (h : whole.1.toList ⊆ s.toList ∧ whole.2.toList ⊆ s.toList) :
    ((Text.splitLast? c s).getD whole).1.toList ⊆ s.toList ∧
      ((Text.splitLast? c s).getD whole).2.toList ⊆ s.toList := by
  cases hsplit : Text.splitLast? c s with
  | none => exact h
  | some p =>
    obtain ⟨front, back⟩ := p
    obtain ⟨hs, -⟩ := Text.toList_of_splitLast? hsplit
    rw [Option.getD_some, hs]
    exact ⟨List.subset_append_left _ _,
      fun _ hx => List.mem_append_right _ (List.mem_cons_of_mem _ hx)⟩

/-- The parts of a name have no characters but those of the name. -/
theorem ofEntry_subset (entry : String) :
    (NameParts.ofEntry entry).parent.toList ⊆ entry.toList ∧
      (NameParts.ofEntry entry).base.toList ⊆ entry.toList ∧
        (NameParts.ofEntry entry).extension.toList ⊆ entry.toList := by
  have hempty : ∀ s : String, "".toList ⊆ s.toList := by simp
  have hfile : ((Text.splitLast? '/' entry).getD ("", entry)).1.toList ⊆ entry.toList ∧
      ((Text.splitLast? '/' entry).getD ("", entry)).2.toList ⊆ entry.toList :=
    getD_splitLast?_subset '/' ⟨hempty entry, List.Subset.refl _⟩
  unfold NameParts.ofEntry
  generalize (Text.splitLast? '/' entry).getD ("", entry) = named at hfile
  have hparts : ((Text.splitLast? '.' named.2).getD (named.2, "")).1.toList ⊆ named.2.toList ∧
      ((Text.splitLast? '.' named.2).getD (named.2, "")).2.toList ⊆ named.2.toList :=
    getD_splitLast?_subset '.' ⟨List.Subset.refl _, hempty named.2⟩
  exact ⟨hfile.1, List.Subset.trans hparts.1 hfile.2, List.Subset.trans hparts.2 hfile.2⟩

theorem entryName_ofEntry {entry : String}
    (hrooted : ∀ name, entry = "/" ++ name → '/' ∈ name.toList)
    (hending : entry.toList.getLast? ≠ some '.') :
    entryName (NameParts.ofEntry entry).parent (NameParts.ofEntry entry).base
      (NameParts.ofEntry entry).extension = entry := by
  have hfile := append_extension (getLast?_file hending)
  have hentry := append_file hrooted
  rw [← hfile, ← String.append_assoc] at hentry
  exact hentry

end ModuleAtlas.Image
