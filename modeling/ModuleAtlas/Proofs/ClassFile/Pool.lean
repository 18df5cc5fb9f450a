import ModuleAtlas.Proofs.ClassFile.Constants

/-! # The pool that is written and the pool that is read

The writer numbers the symbols of a pool by where they stand (`slotOf`), the reader looks slots up
in the constants it has read.  Each symbol is written as a constant that takes one slot, so the slots
are the places (`constantPoolOf`, `reads_constantPool`), and the slot of a symbol leads back to what the symbol says
(`text_slotOf`, `moduleName_slotOf`, `className_slotOf`, `packageName_slotOf`): with every symbol
the pool holds its name, and slashes turn back to dots because the dotted name has none.

A pool can be written when its slots fit in two bytes and its texts are short enough
(`PoolFits`).
-/
namespace ModuleAtlas.ClassFile
open Steps

/-! ## Symbols -/

/-- The text that a symbol says, with slashes in the names of classes and packages. -/
def Symbol.label : Symbol → String
  | .text s => s
  | .classRef name => name
  | .moduleRef name => name
  | .packageRef name => name

theorem Symbol.self_mem_withName (s : Symbol) : s ∈ s.withName := by
  cases s <;> simp [withName]

theorem Symbol.mem_withName {s t : Symbol} (h : t ∈ s.withName) : t = s ∨ t = .text s.label := by
  cases s <;> simpa [withName, label, or_comm] using h

theorem Symbol.text_label_mem_withName (s : Symbol) : .text s.label ∈ s.withName := by
  cases s <;> simp [withName, label]

/-! ## Pools -/

/-- A pool that can be written: with each symbol it holds its name, its slots fit in two bytes,
and so do the lengths of its texts. -/
structure PoolFits (pool : List Symbol) : Prop where
  named : ∀ s ∈ pool, Symbol.text s.label ∈ pool
  slots : pool.length < 0xFFFF
  texts : ∀ t, Symbol.text t ∈ pool → (Utf8.encode t).length < 0x10000

/-- The constant that a symbol is read as. -/
def constantOf (pool : List Symbol) : Symbol → Constant
  | .text s => .text s
  | .classRef name => .classRef (slotOf pool (.text name))
  | .moduleRef name => .moduleRef (slotOf pool (.text name))
  | .packageRef name => .packageRef (slotOf pool (.text name))

/-- The constants that a pool is read as. -/
def constantPoolOf (pool : List Symbol) : ConstantPool :=
  ⟨none :: pool.map fun s => some (constantOf pool s)⟩

section
variable {pool : List Symbol} {s : Symbol}

theorem slotOf_lt (hpool : PoolFits pool) (hs : s ∈ pool) : slotOf pool s < 0x10000 := by
  have hindex := List.idxOf_lt_length_of_mem hs
  have hslots := hpool.slots
  unfold slotOf
  omega

theorem get_slotOf (hs : s ∈ pool) :
    (constantPoolOf pool).get (slotOf pool s) = .ok (constantOf pool s) := by
  have hslot : (constantPoolOf pool).slots[slotOf pool s]? = some (some (constantOf pool s)) := by
    unfold constantPoolOf slotOf
    rw [List.getElem?_cons_succ, List.getElem?_map, List.getElem?_idxOf hs]
    rfl
  rw [ConstantPool.get, hslot]

theorem text_slotOf {t : String} (hs : .text t ∈ pool) :
    (constantPoolOf pool).text (slotOf pool (.text t)) = .ok t := by
  rw [ConstantPool.text, get_slotOf hs]
  rfl

theorem text?_slotOf {t : String} (hs : .text t ∈ pool) :
    (constantPoolOf pool).text? (slotOf pool (.text t)) = .ok (some t) := by
  rw [ConstantPool.text?, if_neg (show slotOf pool _ ≠ 0 from Nat.succ_ne_zero _),
    text_slotOf hs]
  rfl

/-- A lookup by name that accepts what a symbol is read as finds what the symbol says. -/
theorem find_slotOf (hpool : PoolFits pool) (lookup : Lookup) (hs : s ∈ pool)
    (hname : lookup.nameIn? (constantOf pool s) = some (slotOf pool (.text s.label))) :
    lookup.find (constantPoolOf pool) (slotOf pool s) = .ok (lookup.spelled s.label) := by
  have hlookup : lookup ≠ .text := by
    rintro rfl
    cases hname
  rw [Lookup.find_eq hlookup, bind_of_ok (get_slotOf hs), hname]
  show ((constantPoolOf pool).text (slotOf pool (.text s.label))).map lookup.spelled = _
  rw [text_slotOf (hpool.named s hs)]
  rfl

theorem moduleName_slotOf (hpool : PoolFits pool) {name : String} (hs : .moduleRef name ∈ pool) :
    (constantPoolOf pool).moduleName (slotOf pool (.moduleRef name)) = .ok name :=
  find_slotOf hpool .moduleName hs rfl

theorem className_slotOf (hpool : PoolFits pool) {dotted : String} (hs : .ofClass dotted ∈ pool)
    (hslash : '/' ∉ dotted.toList) :
    (constantPoolOf pool).className (slotOf pool (.ofClass dotted)) = .ok dotted :=
  (find_slotOf hpool .className hs rfl).trans (congrArg Except.ok (Text.replace_replace hslash))

theorem packageName_slotOf (hpool : PoolFits pool) {dotted : String}
    (hs : .ofPackage dotted ∈ pool) (hslash : '/' ∉ dotted.toList) :
    (constantPoolOf pool).packageName (slotOf pool (.ofPackage dotted)) = .ok dotted :=
  (find_slotOf hpool .packageName hs rfl).trans (congrArg Except.ok (Text.replace_replace hslash))

/-! ## Reading a pool -/

/-- The constant that a symbol is written as. -/
def storedConstantOf (pool : List Symbol) : Symbol → StoredConstant
  | .text s => .text s
  | .classRef name => .classRef (slotOf pool (.text name))
  | .moduleRef name => .moduleRef (slotOf pool (.text name))
  | .packageRef name => .packageRef (slotOf pool (.text name))

theorem encode_storedConstantOf (pool : List Symbol) (s : Symbol) :
    (storedConstantOf pool s).encode = encodeSymbol pool s := by
  cases s <;> rfl

theorem slots_storedConstantOf (pool : List Symbol) (s : Symbol) :
    (storedConstantOf pool s).kept.slots = [some (constantOf pool s)] := by
  cases s <;> rfl

theorem wellFormed_storedConstantOf (hpool : PoolFits pool) (hs : s ∈ pool) :
    (storedConstantOf pool s).WellFormed := by
  have hname : slotOf pool (.text s.label) < 0x10000 := slotOf_lt hpool (hpool.named s hs)
  cases s with
  | text t => exact hpool.texts t hs
  | classRef name => exact hname
  | moduleRef name => exact hname
  | packageRef name => exact hname

/-- Every symbol takes one slot. -/
theorem slotCount_map_storedConstantOf (pool symbols : List Symbol) :
    slotCount (symbols.map (storedConstantOf pool)) = symbols.length := by
  induction symbols with
  | nil => rfl
  | cons s symbols ih =>
    have hwidth : (storedConstantOf pool s).width = 1 := by cases s <;> rfl
    rw [List.map_cons, slotCount, ih, hwidth, List.length_cons, Nat.add_comm]

theorem encodePool_map_storedConstantOf (pool : List Symbol) :
    encodePool (pool.map (storedConstantOf pool)) =
      encodeU2 (pool.length + 1) ++ pool.flatMap (encodeSymbol pool) := by
  rw [encodePool, slotCount_map_storedConstantOf, List.flatMap_map]
  simp only [encode_storedConstantOf]

theorem poolFrom_map_storedConstantOf (pool : List Symbol) :
    poolFrom (pool.map (storedConstantOf pool)) = constantPoolOf pool := by
  rw [poolFrom, constantPoolOf, List.flatMap_map]
  simp only [slots_storedConstantOf, ← List.map_eq_flatMap]

theorem reads_constantPool (hpool : PoolFits pool) :
    Reads ConstantPool.read (encodeU2 (pool.length + 1) ++ pool.flatMap (encodeSymbol pool))
      (constantPoolOf pool) := by
  have hslots := hpool.slots
  rw [← encodePool_map_storedConstantOf, ← poolFrom_map_storedConstantOf]
  refine reads_encodePool (List.forall_mem_map.mpr fun s hs => ?_) ?_
  · exact wellFormed_storedConstantOf hpool hs
  · rw [slotCount_map_storedConstantOf]
    omega

end
end ModuleAtlas.ClassFile
