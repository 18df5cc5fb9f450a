import ModuleAtlas.Proofs.ClassFile.Pool

/-! # Reading the parts of attributes

The parts of an attribute are written as pieces, and each part has a reader.  A reader **reads** a
value from pieces when it reads it from their bytes (`ReadsPieces`).  With a pool that fits and
holds what the pieces refer to (`Refers`), every directive and every recorded hash is read back
(`reads_requires`, `reads_exports`, `reads_provides`, `reads_hashes`).  The pool of some
attributes holds what they refer to, because it is made of that (`mem_poolOf`).

Three things are asked of the values besides: that counts and lengths fit in two bytes, and that
the names of classes and packages have no slash.
-/
namespace ModuleAtlas.ClassFile

/-! ## What pieces refer to -/

/-- All that the pieces refer to has a property. -/
def Refers (P : Symbol → Prop) (pieces : List Piece) : Prop := ∀ s, Piece.ref s ∈ pieces → P s

section
variable {P : Symbol → Prop} {s : Symbol} {pieces more : List Piece}

@[simp] theorem refers_nil : Refers P [] := fun _ hs => absurd hs List.not_mem_nil

@[simp] theorem refers_append : Refers P (pieces ++ more) ↔ Refers P pieces ∧ Refers P more := by
  constructor
  · intro h
    exact ⟨fun s hs => h s (List.mem_append_left _ hs),
      fun s hs => h s (List.mem_append_right _ hs)⟩
  · rintro ⟨h, hmore⟩ s hs
    exact (List.mem_append.mp hs).elim (h s) (hmore s)

@[simp] theorem refers_cons_ref : Refers P (.ref s :: pieces) ↔ P s ∧ Refers P pieces := by
  constructor
  · intro h
    exact ⟨h s List.mem_cons_self, fun t ht => h t (List.mem_cons_of_mem _ ht)⟩
  · rintro ⟨hs, h⟩ t ht
    rcases List.mem_cons.mp ht with he | ht
    · obtain rfl : t = s := Piece.ref.inj he
      exact hs
    · exact h t ht

@[simp] theorem refers_cons_number {n : Nat} :
    Refers P (.number n :: pieces) ↔ Refers P pieces := by
  simp [Refers]

@[simp] theorem refers_cons_raw {bytes : Bytes} :
    Refers P (.raw bytes :: pieces) ↔ Refers P pieces := by
  simp [Refers]

@[simp] theorem refers_cons_optionalText {text : Option String} :
    Refers P (.optionalText text :: pieces) ↔
      (∀ t, text = some t → P (.text t)) ∧ Refers P pieces := by
  cases text <;> simp [Piece.optionalText]

@[simp] theorem refers_counted {α : Type} {write : α → List Piece} {things : List α} :
    Refers P (Piece.counted write things) ↔ ∀ x ∈ things, Refers P (write x) := by
  rw [Piece.counted, refers_cons_number]
  constructor
  · intro h x hx s hs
    exact h s (List.mem_flatMap.mpr ⟨x, hx, hs⟩)
  · intro h s hs
    obtain ⟨x, hx, hs⟩ := List.mem_flatMap.mp hs
    exact h x hx s hs

end

/-! ## The pool of some attributes -/

/-- What the pool is made for: references, the names of attributes and the class itself. -/
def Referenced (attributes : List WrittenAttribute) (s : Symbol) : Prop :=
  (∃ a ∈ attributes, .ref s ∈ a.body ∨ s = .text a.name) ∨ s = thisClass

theorem WrittenAttribute.mem_symbols {a : WrittenAttribute} {s : Symbol} :
    s ∈ a.symbols ↔ ∃ r, (.ref r ∈ a.body ∨ r = .text a.name) ∧ s ∈ r.withName := by
  rw [symbols, List.mem_append, List.mem_flatMap, List.mem_singleton]
  constructor
  · rintro (⟨p, hp, hs⟩ | rfl)
    · cases p with
      | ref r => exact ⟨r, .inl hp, hs⟩
      | number n => exact absurd hs List.not_mem_nil
      | raw bytes => exact absurd hs List.not_mem_nil
    · exact ⟨_, .inr rfl, Symbol.self_mem_withName _⟩
  · rintro ⟨r, hr | rfl, hs⟩
    · exact .inl ⟨_, hr, hs⟩
    · exact .inr (List.mem_singleton.mp hs)

theorem mem_poolOf {attributes : List WrittenAttribute} {s : Symbol} :
    s ∈ poolOf attributes ↔ ∃ r, Referenced attributes r ∧ s ∈ r.withName := by
  rw [poolOf, mem_distinct, List.mem_append, List.mem_flatMap]
  constructor
  · rintro (⟨a, ha, hs⟩ | hs)
    · obtain ⟨r, hr, hs⟩ := WrittenAttribute.mem_symbols.mp hs
      exact ⟨r, .inl ⟨a, ha, hr⟩, hs⟩
    · exact ⟨thisClass, .inr rfl, hs⟩
  · rintro ⟨r, ⟨a, ha, hr⟩ | rfl, hs⟩
    · exact .inl ⟨a, ha, WrittenAttribute.mem_symbols.mpr ⟨r, hr, hs⟩⟩
    · exact .inr hs

section
variable {attributes : List WrittenAttribute} {a : WrittenAttribute} {s : Symbol}

theorem Referenced.mem_poolOf (hs : Referenced attributes s) : s ∈ poolOf attributes :=
  ClassFile.mem_poolOf.mpr ⟨s, hs, s.self_mem_withName⟩

theorem refers_poolOf (ha : a ∈ attributes) : Refers (· ∈ poolOf attributes) a.body :=
  fun _ hs => Referenced.mem_poolOf (.inl ⟨a, ha, .inl hs⟩)

theorem name_mem_poolOf (ha : a ∈ attributes) : .text a.name ∈ poolOf attributes :=
  Referenced.mem_poolOf (.inl ⟨a, ha, .inr rfl⟩)

theorem label_mem_poolOf (hs : s ∈ poolOf attributes) : .text s.label ∈ poolOf attributes := by
  obtain ⟨r, hr, hs⟩ := mem_poolOf.mp hs
  refine mem_poolOf.mpr ⟨r, hr, ?_⟩
  rcases Symbol.mem_withName hs with rfl | rfl
  · exact s.text_label_mem_withName
  · exact hs

/-- A text of the pool is what something that the pool is made for says. -/
theorem referenced_of_text_mem_poolOf {t : String} (ht : .text t ∈ poolOf attributes) :
    ∃ r, Referenced attributes r ∧ r.label = t := by
  obtain ⟨r, hr, ht⟩ := mem_poolOf.mp ht
  refine ⟨r, hr, ?_⟩
  rcases Symbol.mem_withName ht with rfl | he
  · rfl
  · exact (Symbol.text.inj he).symm

end

/-! ## Reading pieces -/

/-- The reader reads the value from the bytes of the pieces. -/
def ReadsPieces {α : Type} (pool : List Symbol) (read : Reader α) (pieces : List Piece) (a : α) :
    Prop :=
  Reads read (pieces.flatMap (encodePiece pool)) a

namespace ReadsPieces
variable {α β : Type} {pool : List Symbol} {read : Reader α} {next : α → Reader β}
  {p : Piece} {pieces more : List Piece} {a : α} {b : β}

theorem pure (a : α) : ReadsPieces pool (Pure.pure a) [] a := Reads.pure a

theorem cons (hread : Reads read (encodePiece pool p) a)
    (hnext : ReadsPieces pool (next a) pieces b) :
    ReadsPieces pool (read >>= next) (p :: pieces) b := by
  unfold ReadsPieces
  rw [List.flatMap_cons]
  exact hread.bind hnext

theorem append (hread : ReadsPieces pool read pieces a)
    (hnext : ReadsPieces pool (next a) more b) :
    ReadsPieces pool (read >>= next) (pieces ++ more) b := by
  unfold ReadsPieces
  rw [List.flatMap_append]
  exact hread.bind hnext

theorem last (hread : ReadsPieces pool read pieces a) (hnext : ReadsPieces pool (next a) [] b) :
    ReadsPieces pool (read >>= next) pieces b := Reads.last hread hnext

theorem look {e : Except DescriptorError α} (he : e = .ok a)
    (hnext : ReadsPieces pool (next a) pieces b) :
    ReadsPieces pool (Reader.ofExcept e >>= next) pieces b := (Reads.ofExcept he).look hnext

theorem counted {things : List α} {write : α → List Piece} (hlength : things.length < 0x10000)
    (h : ∀ x ∈ things, ReadsPieces pool read (write x) x) :
    ReadsPieces pool (Reader.counted read) (Piece.counted write things) things := by
  have hread := Reads.counted (fun x => (write x).flatMap (encodePiece pool)) hlength
    (List.forall₂_same.mpr h)
  rw [← List.flatMap_assoc] at hread
  exact hread

end ReadsPieces

section
variable {pool : List Symbol}

theorem reads_number {n : Nat} (h : n < 0x10000) :
    Reads Reader.u2 (encodePiece pool (.number n)) n := Reads.u2 h

theorem reads_ref (hpool : PoolFits pool) {s : Symbol} (hs : s ∈ pool) :
    Reads Reader.u2 (encodePiece pool (.ref s)) (slotOf pool s) := Reads.u2 (slotOf_lt hpool hs)

/-- The slot of a text that may be missing is 0 when it is. -/
theorem reads_optionalText (hpool : PoolFits pool) {text : Option String}
    (hs : ∀ t, text = some t → .text t ∈ pool) :
    ∃ slot, Reads Reader.u2 (encodePiece pool (.optionalText text)) slot ∧
      (constantPoolOf pool).text? slot = .ok text := by
  cases text with
  | none => exact ⟨0, Reads.u2 (by omega), rfl⟩
  | some t => exact ⟨_, reads_ref hpool (hs t rfl), text?_slotOf (hs t rfl)⟩

theorem reads_indexed (hpool : PoolFits pool) {α : Type} {find : Nat → Except DescriptorError α}
    {s : Symbol} {a : α} (hs : s ∈ pool) (hfind : find (slotOf pool s) = .ok a) :
    Reads (Attribute.indexed find) (encodePiece pool (.ref s)) a :=
  (reads_ref hpool hs).last (.ofExcept hfind)

/-- A list of one reference each. -/
theorem reads_references (hpool : PoolFits pool) {symbol : String → Symbol}
    {find : Nat → Except DescriptorError String} {names : List String}
    (hlength : names.length < 0x10000)
    (hnames : ∀ n ∈ names, symbol n ∈ pool ∧ find (slotOf pool (symbol n)) = .ok n) :
    ReadsPieces pool (Reader.counted (Attribute.indexed find))
      (Piece.counted (fun n => [.ref (symbol n)]) names) names := by
  refine .counted hlength fun n hn => ?_
  obtain ⟨hs, hfind⟩ := hnames n hn
  show Reads _ (encodePiece pool (.ref (symbol n)) ++ []) n
  rw [List.append_nil]
  exact reads_indexed hpool hs hfind

/-! ## Directives -/

theorem reads_requires (hpool : PoolFits pool) {r : Requires}
    (hrefers : Refers (· ∈ pool) (Piece.ofRequires r)) :
    ReadsPieces pool (Attribute.readRequires (constantPoolOf pool)) (Piece.ofRequires r) r := by
  simp only [Piece.ofRequires, refers_cons_ref, refers_cons_number,
    refers_cons_optionalText] at hrefers
  obtain ⟨hname, hversion, -⟩ := hrefers
  obtain ⟨slot, hslot, htext⟩ := reads_optionalText hpool hversion
  refine .cons (reads_ref hpool hname) (.cons (reads_number (UInt16.toNat_lt _))
    (.cons hslot (.look (moduleName_slotOf hpool hname) (.look htext ?_))))
  rw [UInt16.ofNat_toNat, Modifiers.ofFlags_toFlags]
  exact .pure r

theorem reads_exports (hpool : PoolFits pool) {e : Exports}
    (hrefers : Refers (· ∈ pool) (Piece.ofExports e)) (hslash : '/' ∉ e.source.toList)
    (hlength : e.targets.toList.length < 0x10000) :
    ReadsPieces pool (Attribute.readExports (constantPoolOf pool)) (Piece.ofExports e) e := by
  simp only [Piece.ofExports, refers_cons_ref, refers_cons_number, refers_counted] at hrefers
  obtain ⟨hsource, htargets⟩ := hrefers
  refine .cons (reads_indexed hpool hsource (packageName_slotOf hpool hsource hslash))
    (.cons (.skip (Binary.length_toBigEndian 2 0)) (.last (reads_references hpool hlength ?_) ?_))
  · intro n hn
    exact ⟨(htargets n hn).1, moduleName_slotOf hpool (htargets n hn).1⟩
  · rw [NameSet.ofList_toList]
    exact .pure e

theorem reads_classes (hpool : PoolFits pool) {names : List String}
    (hrefers : ∀ n ∈ names, Symbol.ofClass n ∈ pool) (hslash : ∀ n ∈ names, '/' ∉ n.toList)
    (hlength : names.length < 0x10000) :
    ReadsPieces pool (Reader.counted (Attribute.indexed (constantPoolOf pool).className))
      (Piece.counted Piece.ofClass names) names :=
  reads_references hpool hlength fun n hn =>
    ⟨hrefers n hn, className_slotOf hpool (hrefers n hn) (hslash n hn)⟩

theorem reads_provides (hpool : PoolFits pool) {p : Provides}
    (hrefers : Refers (· ∈ pool) (Piece.ofProvides p))
    (hslash : ∀ n ∈ p.service :: p.providers, '/' ∉ n.toList)
    (hlength : p.providers.length < 0x10000) :
    ReadsPieces pool (Attribute.readProvides (constantPoolOf pool)) (Piece.ofProvides p) p := by
  simp only [Piece.ofProvides, Piece.ofClass, refers_cons_ref, refers_counted] at hrefers
  obtain ⟨hservice, hproviders⟩ := hrefers
  obtain ⟨hslashservice, hslashproviders⟩ := List.forall_mem_cons.mp hslash
  refine .cons (reads_indexed hpool hservice (className_slotOf hpool hservice hslashservice))
    (.last ?_ (.pure p))
  exact reads_classes hpool (fun n hn => (hproviders n hn).1) hslashproviders hlength

/-! ## Recorded hashes -/

theorem reads_hash (hpool : PoolFits pool) {h : String × Bytes}
    (hrefers : Refers (· ∈ pool) (Piece.ofHash h)) (hlength : h.2.length < 0x10000) :
    ReadsPieces pool (Attribute.readHash (constantPoolOf pool)) (Piece.ofHash h) h := by
  simp only [Piece.ofHash, refers_cons_ref] at hrefers
  refine .cons (reads_indexed hpool hrefers.1 (moduleName_slotOf hpool hrefers.1))
    (.cons (reads_number hlength) (.cons (Reads.slice h.2) (.pure h)))

theorem reads_hashes (hpool : PoolFits pool) {h : ModuleHashes}
    (hrefers : Refers (· ∈ pool) (WrittenAttribute.ofHashes h).body)
    (hlength : h.hashes.entries.length < 0x10000)
    (hlengths : ∀ e ∈ h.hashes.entries, e.2.length < 0x10000) :
    ReadsPieces pool (Attribute.readHashes (constantPoolOf pool))
      (WrittenAttribute.ofHashes h).body h := by
  simp only [WrittenAttribute.ofHashes, refers_cons_ref, refers_counted] at hrefers
  refine .cons (reads_indexed hpool hrefers.1 (text_slotOf hrefers.1))
    (.last (.counted hlength fun e he => reads_hash hpool (hrefers.2 e he) (hlengths e he)) ?_)
  rw [NameMap.ofList_entries]
  exact .pure h

end
end ModuleAtlas.ClassFile
