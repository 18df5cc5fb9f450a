import ModuleAtlas.Proofs.ClassFile.Consumed

/-! # The layout of class files

A class file is numbers, a pool, members and a table of attributes, one behind the other
(`RawClass`).  Every class file with a descriptor is such a layout, with anything behind it
(`exists_layout`); and reading a layout decodes the attributes of its table in order and looks at
nothing else (`parseModuleInfo_encode`).  Members are skipped as wholes: the counts and lengths in
them lead exactly to their ends, however many attributes they have.
-/
namespace ModuleAtlas.ClassFile
open Steps

/-! ## Layouts -/

/-- An attribute as it stands in a class file: the slot of its name, and its body. -/
structure RawAttribute where
  /-- The slot of the name. -/
  name : Nat
  /-- The body. -/
  body : Bytes
deriving DecidableEq, Repr

/-- A field or method as it stands in a class file. -/
structure RawMember where
  /-- Access flags. -/
  flags : Nat
  /-- The slot of the name. -/
  name : Nat
  /-- The slot of the type. -/
  type : Nat
  /-- The attributes. -/
  attributes : List RawAttribute
deriving DecidableEq, Repr

/-- What stands before the attributes of a class. -/
structure RawHeader where
  /-- Minor version. -/
  minorVersion : Nat
  /-- Major version. -/
  majorVersion : Nat
  /-- The slot count and the constants. -/
  pool : Bytes
  /-- Access flags. -/
  flags : Nat
  /-- The slot of the class. -/
  thisClass : Nat
  /-- The slot of its superclass. -/
  superClass : Nat
  /-- The slots of its interfaces. -/
  interfaces : List Nat
  /-- Its fields. -/
  fields : List RawMember
  /-- Its methods. -/
  methods : List RawMember
deriving DecidableEq, Repr

/-- A class file. -/
structure RawClass where
  /-- What stands before the attributes. -/
  header : RawHeader
  /-- The attributes. -/
  attributes : List RawAttribute
deriving DecidableEq, Repr

/-- Things one after the other, after their count. -/
def encodeCounted {β : Type} (write : β → Bytes) (things : List β) : Bytes :=
  encodeU2 things.length ++ things.flatMap write

/-- The bytes of an attribute. -/
def RawAttribute.encode (a : RawAttribute) : Bytes :=
  encodeU2 a.name ++ (encodeU4 a.body.length ++ a.body)

/-- The bytes of a member. -/
def RawMember.encode (m : RawMember) : Bytes :=
  (encodeU2 m.flags ++ encodeU2 m.name ++ encodeU2 m.type) ++
    encodeCounted RawAttribute.encode m.attributes

/-- The bytes of what stands before the attributes. -/
def RawHeader.encode (h : RawHeader) : Bytes :=
  encodeU4 magic ++ (encodeU2 h.minorVersion ++ (encodeU2 h.majorVersion ++ (h.pool ++
    (encodeU2 h.flags ++ (encodeU2 h.thisClass ++ (encodeU2 h.superClass ++
    (encodeCounted encodeU2 h.interfaces ++ (encodeCounted RawMember.encode h.fields ++
      encodeCounted RawMember.encode h.methods))))))))

/-- The bytes of a class file. -/
def RawClass.encode (c : RawClass) : Bytes :=
  c.header.encode ++ encodeCounted RawAttribute.encode c.attributes

/-- The slot of an attribute's name fits in two bytes, and the length of its body in four. -/
structure RawAttribute.Fits (a : RawAttribute) : Prop where
  name : a.name < 0x10000
  body : a.body.length < 0x100000000

instance (a : RawAttribute) : Decidable a.Fits :=
  decidable_of_iff (a.name < 0x10000 ∧ a.body.length < 0x100000000)
    ⟨fun h => ⟨h.1, h.2⟩, fun h => ⟨h.name, h.body⟩⟩

/-- The attributes of a member fit, and their count fits in two bytes. -/
structure RawMember.Fits (m : RawMember) : Prop where
  count : m.attributes.length < 0x10000
  attributes : ∀ a ∈ m.attributes, a.Fits

instance (m : RawMember) : Decidable m.Fits :=
  decidable_of_iff (m.attributes.length < 0x10000 ∧ ∀ a ∈ m.attributes, a.Fits)
    ⟨fun h => ⟨h.1, h.2⟩, fun h => ⟨h.count, h.attributes⟩⟩

/-- The pool is one of the given constants, counts fit in two bytes, and the members fit. -/
structure RawHeader.Fits (h : RawHeader) (constants : ConstantPool) : Prop where
  pool : Reads ConstantPool.read h.pool constants
  interfaceCount : h.interfaces.length < 0x10000
  fieldCount : h.fields.length < 0x10000
  methodCount : h.methods.length < 0x10000
  fields : ∀ m ∈ h.fields, m.Fits
  methods : ∀ m ∈ h.methods, m.Fits

/-- The header and the attributes fit, and so does the count of the attributes. -/
structure RawClass.Fits (c : RawClass) (constants : ConstantPool) : Prop where
  header : c.header.Fits constants
  count : c.attributes.length < 0x10000
  attributes : ∀ a ∈ c.attributes, a.Fits

/-! ## Class files are layouts -/

/-- The reader reads nothing but what is written from a thing that fits. -/
def ReadsOnly {α β : Type} (read : Reader α) (write : β → Bytes) (Fits : β → Prop) : Prop :=
  ∀ ⦃bytes rest : Bytes⦄ ⦃a : α⦄, read.run bytes = .ok (a, rest) →
    ∃ x, Fits x ∧ bytes = write x ++ rest

theorem exists_encodeU2 {part : Bytes} (h : part.length = 2) :
    part = encodeU2 (Binary.bigEndian part) ∧ Binary.bigEndian part < 0x10000 := by
  have hback := Binary.toBigEndian_bigEndian part
  have hlt := Binary.bigEndian_lt part
  rw [h] at hback hlt
  exact ⟨hback.symm, hlt⟩

/-- Six bytes are three numbers. -/
theorem exists_encodeU2_encodeU2_encodeU2 {part : Bytes} (h : part.length = 6) :
    ∃ k m n, part = encodeU2 k ++ encodeU2 m ++ encodeU2 n := by
  have hfirst : (part.take 2).length = 2 := by rw [List.length_take, h]; rfl
  have hsecond : ((part.drop 2).take 2).length = 2 := by
    rw [List.length_take, List.length_drop, h]; rfl
  have hthird : ((part.drop 2).drop 2).length = 2 := by
    rw [List.length_drop, List.length_drop, h]
  refine ⟨Binary.bigEndian (part.take 2), Binary.bigEndian ((part.drop 2).take 2),
    Binary.bigEndian ((part.drop 2).drop 2), ?_⟩
  rw [← (exists_encodeU2 hfirst).1, ← (exists_encodeU2 hsecond).1, ← (exists_encodeU2 hthird).1,
    List.append_assoc, List.take_append_drop, List.take_append_drop]

section
variable {α β : Type} {read : Reader α} {write : β → Bytes} {Fits : β → Prop}
  {bytes rest : Bytes}

/-- A number is read from the bytes it is written with. -/
theorem eq_append_of_number {width n : Nat}
    (h : (do return Binary.bigEndian (← Reader.slice width) : Reader Nat).run bytes =
      .ok (n, rest)) :
    n < Nat.pow 256 width ∧ bytes = Binary.toBigEndian width n ++ rest := by
  obtain ⟨⟨part, after⟩, hpart, he⟩ := bind_eq_ok_iff.mp h
  obtain ⟨rfl, rfl⟩ := run_slice_eq_ok_iff.mp hpart
  obtain ⟨rfl, rfl⟩ := Prod.mk.inj (Except.ok.inj he)
  rw [Binary.toBigEndian_bigEndian]
  exact ⟨Binary.bigEndian_lt part, rfl⟩

theorem eq_append_of_u2 {n : Nat} (h : Reader.u2.run bytes = .ok (n, rest)) :
    n < 0x10000 ∧ bytes = encodeU2 n ++ rest := eq_append_of_number h

theorem eq_append_of_u4 {n : Nat} (h : Reader.u4.run bytes = .ok (n, rest)) :
    n < 0x100000000 ∧ bytes = encodeU4 n ++ rest := eq_append_of_number h

theorem eq_append_of_skip {n : Nat} {u : Unit} (h : (Reader.skip n).run bytes = .ok (u, rest)) :
    ∃ part, part.length = n ∧ bytes = part ++ rest := by
  obtain ⟨⟨part, after⟩, hpart, he⟩ := bind_eq_ok_iff.mp h
  obtain ⟨-, rfl⟩ := Prod.mk.inj (Except.ok.inj he)
  exact ⟨part, run_slice_eq_ok_iff.mp hpart⟩

/-- Two skipped bytes are a number. -/
theorem readsOnly_skip : ReadsOnly (Reader.skip 2) encodeU2 fun _ => True := by
  intro bytes rest u h
  obtain ⟨part, hlength, rfl⟩ := eq_append_of_skip h
  exact ⟨Binary.bigEndian part, trivial, congrArg (· ++ rest) (exists_encodeU2 hlength).1⟩

theorem ReadsOnly.times (h : ReadsOnly read write Fits) {n : Nat} {values : List α}
    (hrun : (Reader.times read n).run bytes = .ok (values, rest)) :
    ∃ things : List β, things.length = n ∧ (∀ x ∈ things, Fits x) ∧
      bytes = things.flatMap write ++ rest := by
  induction n generalizing bytes values with
  | zero =>
    obtain ⟨-, rfl⟩ := Prod.mk.inj (Except.ok.inj hrun)
    exact ⟨[], rfl, fun x hx => absurd hx List.not_mem_nil, rfl⟩
  | succ n ih =>
    obtain ⟨⟨first, middle⟩, hfirst, hrun⟩ := bind_eq_ok_iff.mp hrun
    obtain ⟨⟨others, after⟩, hothers, he⟩ := bind_eq_ok_iff.mp hrun
    obtain ⟨-, rfl⟩ := Prod.mk.inj (Except.ok.inj he)
    obtain ⟨x, hx, rfl⟩ := h hfirst
    obtain ⟨things, rfl, hthings, rfl⟩ := ih hothers
    refine ⟨x :: things, rfl, List.forall_mem_cons.mpr ⟨hx, hthings⟩, ?_⟩
    rw [List.flatMap_cons, List.append_assoc]

theorem ReadsOnly.counted (h : ReadsOnly read write Fits) :
    ReadsOnly (Reader.counted read) (encodeCounted write)
      fun things => things.length < 0x10000 ∧ ∀ x ∈ things, Fits x := by
  intro bytes rest values hrun
  obtain ⟨⟨n, after⟩, hn, htimes⟩ := bind_eq_ok_iff.mp hrun
  replace htimes : (Reader.times read n).run after = .ok (values, rest) := htimes
  obtain ⟨hlt, rfl⟩ := eq_append_of_u2 hn
  obtain ⟨things, rfl, hthings, rfl⟩ := h.times htimes
  exact ⟨things, ⟨hlt, hthings⟩, (List.append_assoc _ _ _).symm⟩

theorem readsOnly_skipAttribute :
    ReadsOnly skipAttribute RawAttribute.encode RawAttribute.Fits := by
  intro bytes rest u h
  obtain ⟨⟨_, afterName⟩, hname, h⟩ := bind_eq_ok_iff.mp h
  obtain ⟨⟨length, afterLength⟩, hlength, hbody⟩ := bind_eq_ok_iff.mp h
  obtain ⟨written, hwritten, rfl⟩ := eq_append_of_skip hname
  obtain ⟨hlt, rfl⟩ := eq_append_of_u4 hlength
  obtain ⟨body, rfl, rfl⟩ := eq_append_of_skip hbody
  obtain ⟨hname, hnamelt⟩ := exists_encodeU2 hwritten
  refine ⟨⟨Binary.bigEndian written, body⟩, ⟨hnamelt, hlt⟩, ?_⟩
  rw [RawAttribute.encode, ← hname, List.append_assoc, List.append_assoc]

theorem readsOnly_attribute (constants : ConstantPool) :
    ReadsOnly (Attribute.read constants) RawAttribute.encode RawAttribute.Fits := by
  intro bytes rest a h
  obtain ⟨⟨name, afterName⟩, hname, h⟩ := bind_eq_ok_iff.mp h
  obtain ⟨⟨length, afterLength⟩, hlength, h⟩ := bind_eq_ok_iff.mp h
  obtain ⟨⟨_, afterText⟩, htext, h⟩ := bind_eq_ok_iff.mp h
  obtain ⟨⟨body, afterBody⟩, hbody, hvalue⟩ := bind_eq_ok_iff.mp h
  obtain ⟨hnamelt, rfl⟩ := eq_append_of_u2 hname
  obtain ⟨hlt, rfl⟩ := eq_append_of_u4 hlength
  obtain ⟨_, -, he⟩ := map_eq_ok_iff.mp htext
  obtain ⟨-, rfl⟩ := Prod.mk.inj he
  obtain ⟨rfl, rfl⟩ := run_slice_eq_ok_iff.mp hbody
  obtain ⟨_, -, he⟩ := map_eq_ok_iff.mp hvalue
  obtain ⟨-, rfl⟩ := Prod.mk.inj he
  refine ⟨⟨name, body⟩, ⟨hnamelt, hlt⟩, ?_⟩
  rw [RawAttribute.encode, List.append_assoc, List.append_assoc]

theorem readsOnly_skipMember : ReadsOnly skipMember RawMember.encode RawMember.Fits := by
  intro bytes rest u h
  obtain ⟨⟨_, afterNumbers⟩, hnumbers, h⟩ := bind_eq_ok_iff.mp h
  obtain ⟨⟨_, afterAttributes⟩, hattributes, he⟩ := bind_eq_ok_iff.mp h
  obtain ⟨-, rfl⟩ := Prod.mk.inj (Except.ok.inj he)
  obtain ⟨numbers, hlength, rfl⟩ := eq_append_of_skip hnumbers
  obtain ⟨attributes, ⟨hcount, hfits⟩, rfl⟩ := readsOnly_skipAttribute.counted hattributes
  obtain ⟨flags, name, type, rfl⟩ := exists_encodeU2_encodeU2_encodeU2 hlength
  exact ⟨⟨flags, name, type, attributes⟩, ⟨hcount, hfits⟩, (List.append_assoc _ _ _).symm⟩

end

theorem exists_header {bytes rest : Bytes} {constants : ConstantPool}
    (h : readHeader.run bytes = .ok (constants, rest)) :
    ∃ header : RawHeader, header.Fits constants ∧ bytes = header.encode ++ rest := by
  obtain ⟨⟨mark, afterMark⟩, hmark, h⟩ := bind_eq_ok_iff.mp h
  replace hmark := (eq_append_of_u4 hmark).2
  dsimp only at h
  by_cases hmagic : mark = magic
  · subst hmagic
    rw [if_neg (not_not_intro rfl)] at h
    obtain ⟨⟨_, afterMinor⟩, hminor, h⟩ := bind_eq_ok_iff.mp h
    obtain ⟨⟨_, afterMajor⟩, hmajor, h⟩ := bind_eq_ok_iff.mp h
    obtain ⟨⟨constants', afterPool⟩, hpool, h⟩ := bind_eq_ok_iff.mp h
    obtain ⟨⟨_, afterFlags⟩, hflags, h⟩ := bind_eq_ok_iff.mp h
    obtain ⟨⟨_, afterThis⟩, hthis, h⟩ := bind_eq_ok_iff.mp h
    obtain ⟨⟨_, afterSuper⟩, hsuper, h⟩ := bind_eq_ok_iff.mp h
    obtain ⟨⟨_, afterInterfaces⟩, hinterfaces, h⟩ := bind_eq_ok_iff.mp h
    obtain ⟨⟨_, afterFields⟩, hfields, h⟩ := bind_eq_ok_iff.mp h
    obtain ⟨⟨_, afterMethods⟩, hmethods, h⟩ := bind_eq_ok_iff.mp h
    obtain ⟨rfl, rfl⟩ := Prod.mk.inj (Except.ok.inj h)
    obtain ⟨minorVersion, -, rfl⟩ := readsOnly_skip hminor
    obtain ⟨majorVersion, -, rfl⟩ := readsOnly_skip hmajor
    obtain ⟨pool, rfl, hconstants⟩ := forward_constantPool.reads hpool
    obtain ⟨flags, -, rfl⟩ := readsOnly_skip hflags
    obtain ⟨thisClass, -, rfl⟩ := readsOnly_skip hthis
    obtain ⟨superClass, -, rfl⟩ := readsOnly_skip hsuper
    obtain ⟨interfaces, ⟨hinterfaceCount, -⟩, rfl⟩ := readsOnly_skip.counted hinterfaces
    obtain ⟨fields, ⟨hfieldCount, hfieldsFit⟩, rfl⟩ := readsOnly_skipMember.counted hfields
    obtain ⟨methods, ⟨hmethodCount, hmethodsFit⟩, rfl⟩ := readsOnly_skipMember.counted hmethods
    refine ⟨⟨minorVersion, majorVersion, pool, flags, thisClass, superClass, interfaces, fields,
      methods⟩, ⟨hconstants, hinterfaceCount, hfieldCount, hmethodCount, hfieldsFit, hmethodsFit⟩, ?_⟩
    rw [hmark]
    simp only [RawHeader.encode, List.append_assoc]
  · rw [if_pos hmagic] at h
    cases h

/-- Every class file with a descriptor is a layout, with anything behind it. -/
theorem exists_layout {bytes : Bytes} {d : ModuleDescriptor} (h : parseModuleInfo bytes = .ok d) :
    ∃ (c : RawClass) (constants : ConstantPool) (rest : Bytes),
      c.Fits constants ∧ bytes = c.encode ++ rest := by
  obtain ⟨⟨_, rest⟩, hrun, -⟩ := map_eq_ok_iff.mp h
  obtain ⟨⟨constants, afterHeader⟩, hheader, hrun⟩ := bind_eq_ok_iff.mp hrun
  obtain ⟨⟨_, afterAttributes⟩, hattributes, -⟩ := bind_eq_ok_iff.mp hrun
  obtain ⟨header, hfits, rfl⟩ := exists_header hheader
  obtain ⟨attributes, ⟨hcount, hattributesFit⟩, rfl⟩ :=
    (readsOnly_attribute constants).counted hattributes
  exact ⟨⟨header, attributes⟩, constants, afterAttributes, ⟨hfits, hcount, hattributesFit⟩,
    (List.append_assoc _ _ _).symm⟩

/-! ## Reading layouts -/

/-- The reader takes these bytes off the front, whatever follows, and comes to this outcome. -/
def Yields {α : Type} (read : Reader α) (bytes : Bytes) (outcome : Except DescriptorError α) :
    Prop :=
  ∀ rest, read.run (bytes ++ rest) = outcome.map fun a => (a, rest)

section
variable {α β : Type} {read : Reader α} {next : α → Reader β} {front back bytes : Bytes} {a : α}
  {first : Except DescriptorError α} {andThen : α → Except DescriptorError β}
  {outcome : Except DescriptorError β}

theorem Yields.ofExcept (outcome : Except DescriptorError β) :
    Yields (Reader.ofExcept outcome) [] outcome := fun _ => rfl

/-- A step that succeeds. -/
theorem Reads.yields (hread : Reads read front a) (hnext : Yields (next a) back outcome) :
    Yields (read >>= next) (front ++ back) outcome := by
  intro rest
  rw [StateT.run_bind, List.append_assoc, hread (back ++ rest)]
  exact hnext rest

theorem Yields.bind (hread : Yields read front first)
    (hnext : ∀ a, Yields (next a) back (andThen a)) :
    Yields (read >>= next) (front ++ back) (first >>= andThen) := by
  intro rest
  rw [StateT.run_bind, List.append_assoc, hread (back ++ rest)]
  cases first with
  | error e => rfl
  | ok a => exact hnext a rest

/-- A last step that takes no bytes. -/
theorem Yields.last (hread : Yields read bytes first)
    (hnext : ∀ a, Yields (next a) [] (andThen a)) :
    Yields (read >>= next) bytes (first >>= andThen) := by
  have h := hread.bind hnext
  rwa [List.append_nil] at h

theorem Yields.times {things : List β} {write : β → Bytes} {decode : β → Except DescriptorError α}
    (h : ∀ x ∈ things, Yields read (write x) (decode x)) :
    Yields (Reader.times read things.length) (things.flatMap write) (things.mapM decode) := by
  induction things with
  | nil => exact fun _ => rfl
  | cons x things ih =>
    obtain ⟨hx, hthings⟩ := List.forall_mem_cons.mp h
    rw [List.mapM_cons]
    exact hx.bind fun first => (ih hthings).last fun others => .ofExcept (.ok (first :: others))

theorem Yields.counted {things : List β} {write : β → Bytes}
    {decode : β → Except DescriptorError α} (hlength : things.length < 0x10000)
    (h : ∀ x ∈ things, Yields read (write x) (decode x)) :
    Yields (Reader.counted read) (encodeCounted write things) (things.mapM decode) :=
  (Reads.u2 hlength).yields (.times h)

end

/-- What a body says under a name. -/
def Attribute.ofBody (constants : ConstantPool) (name : String) (body : Bytes) :
    Except DescriptorError Attribute :=
  valueOn (Attribute.readBody constants name) body

/-- What an attribute says. -/
def RawAttribute.decode (constants : ConstantPool) (a : RawAttribute) :
    Except DescriptorError Attribute := do
  Attribute.ofBody constants (← constants.text a.name) a.body

theorem yields_attribute (constants : ConstantPool) {a : RawAttribute} (h : a.Fits) :
    Yields (Attribute.read constants) a.encode (a.decode constants) := by
  refine (Reads.u2 h.name).yields ((Reads.u4 h.body).yields ?_)
  refine (Yields.ofExcept (constants.text a.name)).bind fun name => ?_
  have hbody : Yields _ a.body (Except.ok a.body >>= Attribute.ofBody constants name) :=
    Yields.last (Reads.slice a.body) fun body => .ofExcept _
  exact hbody

theorem reads_skipAttribute {a : RawAttribute} (h : a.Fits) : Reads skipAttribute a.encode () :=
  (Reads.skip (Binary.length_toBigEndian 2 _)).bind ((Reads.u4 h.body).bind (.skip rfl))

/-- Things that are read for their length only. -/
theorem Reads.counted_skip {read : Reader Unit} {β : Type} {things : List β} {write : β → Bytes}
    (hlength : things.length < 0x10000) (h : ∀ x ∈ things, Reads read (write x) ()) :
    Reads (Reader.counted read) (encodeCounted write things) (things.map fun _ => ()) := by
  refine .counted write hlength (List.forall₂_map_right_iff.mpr (List.forall₂_same.mpr ?_))
  exact h

theorem reads_skipMember {m : RawMember} (h : m.Fits) : Reads skipMember m.encode () := by
  refine (Reads.skip ?_).bind ((Reads.counted_skip h.count ?_).last (.pure ()))
  · simp only [encodeU2, List.length_append, Binary.length_toBigEndian]
  · exact fun a ha => reads_skipAttribute (h.attributes a ha)

theorem reads_rawHeader {header : RawHeader} {constants : ConstantPool}
    (h : header.Fits constants) : Reads readHeader header.encode constants := by
  have hnumber (n : Nat) : Reads (Reader.skip 2) (encodeU2 n) () :=
    .skip (Binary.length_toBigEndian 2 n)
  refine (Reads.u4 (by decide)).bind ?_
  dsimp only
  rw [if_neg (not_not_intro rfl)]
  refine (hnumber _).bind ((hnumber _).bind (h.pool.bind ?_))
  refine (hnumber _).bind ((hnumber _).bind ((hnumber _).bind ?_))
  refine (Reads.counted_skip h.interfaceCount fun n _ => hnumber n).bind ?_
  refine (Reads.counted_skip h.fieldCount fun m hm => reads_skipMember (h.fields m hm)).bind ?_
  exact (Reads.counted_skip h.methodCount fun m hm => reads_skipMember (h.methods m hm)).last
    (.pure constants)

/-- Reading a layout decodes the attributes of its table in order, and nothing else. -/
theorem parseModuleInfo_encode {c : RawClass} {constants : ConstantPool} (h : c.Fits constants)
    (rest : Bytes) :
    parseModuleInfo (c.encode ++ rest) =
      (c.attributes.mapM (RawAttribute.decode constants)) >>= assemble := by
  have hattributes : Yields (Reader.counted (Attribute.read constants))
      (encodeCounted RawAttribute.encode c.attributes)
      (c.attributes.mapM (RawAttribute.decode constants)) :=
    .counted h.count fun a ha => yields_attribute constants (h.attributes a ha)
  have hclass : Yields readModuleInfo c.encode
      ((c.attributes.mapM (RawAttribute.decode constants)) >>= assemble) :=
    (reads_rawHeader h.header).yields (hattributes.last fun attributes =>
      .ofExcept (assemble attributes))
  rw [parseModuleInfo, hclass rest]
  cases (c.attributes.mapM (RawAttribute.decode constants)) >>= assemble <;> rfl

end ModuleAtlas.ClassFile
