import ModuleAtlas.Proofs.ClassFile.Reading
import ModuleAtlas.Proofs.Steps
import ModuleAtlas.Proofs.Text.Utf8

/-! # The numbering of constants

The constants of a class file are numbered from 1 on, and a constant of eight bytes takes two
numbers.  `numbered` gives each constant its number, without looking at any pool, and `Denotes`
says from the numbers alone what a lookup finds: the text with that number, or the text that a
class, package or module with that number names.

The pool that is read has a slot for each number.  The constants fill the slots in their order, and
a wide one leaves the second of its slots empty, so the slot with a constant's number holds that
constant wherever wide ones stand (`slot_eq_some_iff`).  Names are looked up when all slots are
filled, so it makes no difference whether a name comes before or after what it names.

**Every lookup gives what the numbering says, and blames a number that has not what is needed
otherwise** (`reads_encodePool_find`).
-/
namespace ModuleAtlas.ClassFile
open Steps

/-! ## Constants in a class file -/

/-- A constant as it stands in a class file. -/
inductive StoredConstant where
  /-- A text. -/
  | text (value : String)
  /-- A class, and the number of its name. -/
  | classRef (name : Nat)
  /-- A module, and the number of its name. -/
  | moduleRef (name : Nat)
  /-- A package, and the number of its name. -/
  | packageRef (name : Nat)
  /-- Any other constant that takes one number: its tag and what follows the tag. -/
  | narrow (tag : UInt8) (payload : Bytes)
  /-- A constant that takes two numbers: its tag and what follows the tag. -/
  | wide (tag : UInt8) (payload : Bytes)
deriving DecidableEq, Repr

/-- How many bytes follow the tag of a narrow constant. -/
def narrowLength? : UInt8 → Option Nat
  | 3 | 4 | 9 | 10 | 11 | 12 | 17 | 18 => some 4
  | 8 | 16 => some 2
  | 15 => some 3
  | _ => none

namespace StoredConstant

/-- Numbers of names and lengths of texts fit in two bytes, and as many bytes follow a tag as it
calls for. -/
def WellFormed : StoredConstant → Prop
  | .text value => (Utf8.encode value).length < 0x10000
  | .classRef name | .moduleRef name | .packageRef name => name < 0x10000
  | .narrow tag payload => narrowLength? tag = some payload.length
  | .wide tag payload => (tag = 5 ∨ tag = 6) ∧ payload.length = 8

instance : DecidablePred WellFormed
  | .text value => inferInstanceAs (Decidable ((Utf8.encode value).length < 0x10000))
  | .classRef name | .moduleRef name | .packageRef name =>
    inferInstanceAs (Decidable (name < 0x10000))
  | .narrow tag payload => inferInstanceAs (Decidable (narrowLength? tag = some payload.length))
  | .wide tag payload => inferInstanceAs (Decidable ((tag = 5 ∨ tag = 6) ∧ payload.length = 8))

/-- The bytes of a constant. -/
def encode : StoredConstant → Bytes
  | .text value => 1 :: encodeU2 (Utf8.encode value).length ++ Utf8.encode value
  | .classRef name => 7 :: encodeU2 name
  | .moduleRef name => 19 :: encodeU2 name
  | .packageRef name => 20 :: encodeU2 name
  | .narrow tag payload | .wide tag payload => tag :: payload

/-- How many numbers a constant takes. -/
def width : StoredConstant → Nat
  | .wide _ _ => 2
  | _ => 1

/-- What is kept of a constant in a pool. -/
def kept : StoredConstant → Constant
  | .text value => .text value
  | .classRef name => .classRef name
  | .moduleRef name => .moduleRef name
  | .packageRef name => .packageRef name
  | .narrow _ _ => .narrow
  | .wide _ _ => .wide

end StoredConstant

/-- How many numbers some constants take. -/
def slotCount : List StoredConstant → Nat
  | [] => 0
  | c :: rest => c.width + slotCount rest

/-- The constants with their numbers, the first of which is `start`. -/
def numbered (start : Nat) : List StoredConstant → List (Nat × StoredConstant)
  | [] => []
  | c :: rest => (start, c) :: numbered (start + c.width) rest

/-- The bytes of a pool: the count of its slots, slot 0 included, and the constants. -/
def encodePool (constants : List StoredConstant) : Bytes :=
  encodeU2 (slotCount constants + 1) ++ constants.flatMap StoredConstant.encode

/-! ## Lookups -/

/-- What can be looked up in a pool. -/
inductive Lookup where
  /-- A text. -/
  | text
  /-- The dotted name of a class. -/
  | className
  /-- The dotted name of a package, for which a class will do. -/
  | packageName
  /-- The name of a module. -/
  | moduleName
deriving DecidableEq, Repr

namespace Lookup

/-- Looks a number up. -/
def find (pool : ConstantPool) : Lookup → Nat → Except DescriptorError String
  | .text => pool.text
  | .className => pool.className
  | .packageName => pool.packageName
  | .moduleName => pool.moduleName

/-- The number of the name, if the lookup goes by names and accepts the constant. -/
def nameOf? : Lookup → StoredConstant → Option Nat
  | .className, .classRef name => some name
  | .packageName, .packageRef name => some name
  | .packageName, .classRef name => some name
  | .moduleName, .moduleRef name => some name
  | _, _ => none

/-- A name as the lookup spells it. -/
def spelled : Lookup → String → String
  | .className, value | .packageName, value => Text.replace '/' '.' value
  | .text, value | .moduleName, value => value

/-- The number of the name, when the constant is one of a pool. -/
def nameIn? : Lookup → Constant → Option Nat
  | .className, .classRef name => some name
  | .packageName, .packageRef name => some name
  | .packageName, .classRef name => some name
  | .moduleName, .moduleRef name => some name
  | _, _ => none

theorem nameIn?_kept (lookup : Lookup) (c : StoredConstant) :
    lookup.nameIn? c.kept = lookup.nameOf? c := by
  cases lookup <;> cases c <;> rfl

/-- Lookups by name differ in the constants they accept and in how they spell a name. -/
theorem find_eq {lookup : Lookup} (hlookup : lookup ≠ .text) (pool : ConstantPool) (index : Nat) :
    lookup.find pool index = (do
      match lookup.nameIn? (← pool.get index) with
      | some name => (pool.text name).map lookup.spelled
      | none => .error (.invalidConstantIndex index)) := by
  cases lookup with
  | text => exact absurd rfl hlookup
  | className =>
    refine congrArg (pool.get index >>= ·) (funext fun c => ?_)
    cases c with
    | classRef name => cases pool.text name <;> rfl
    | _ => rfl
  | packageName =>
    refine congrArg (pool.get index >>= ·) (funext fun c => ?_)
    cases c with
    | packageRef name => cases pool.text name <;> rfl
    | classRef name => cases pool.text name <;> rfl
    | _ => rfl
  | moduleName =>
    refine congrArg (pool.get index >>= ·) (funext fun c => ?_)
    cases c with
    | moduleRef name =>
      show pool.text name = (pool.text name).map fun value => value
      cases pool.text name <;> rfl
    | _ => rfl

end Lookup

section
variable (constants : List StoredConstant)

/-- The constant has this number. -/
def StandsAt (index : Nat) (c : StoredConstant) : Prop := (index, c) ∈ numbered 1 constants

instance (index : Nat) (c : StoredConstant) : Decidable (StandsAt constants index c) :=
  inferInstanceAs (Decidable ((index, c) ∈ numbered 1 constants))

/-- What a lookup of a number is to find: the text with the number, or the text that the constant
with the number names. -/
inductive Denotes : Lookup → Nat → String → Prop
  | text {index : Nat} {value : String} (h : StandsAt constants index (.text value)) :
      Denotes .text index value
  | name {lookup : Lookup} {index name : Nat} {c : StoredConstant} {value : String}
      (h : StandsAt constants index c) (hname : lookup.nameOf? c = some name)
      (hvalue : StandsAt constants name (.text value)) :
      Denotes lookup index (lookup.spelled value)

/-- The numbers that no constant has: 0, the second number of a wide constant, and those from the
slot count on. -/
inductive Unusable : Nat → Prop
  | zero : Unusable 0
  | second {index : Nat} {tag : UInt8} {payload : Bytes}
      (h : StandsAt constants index (.wide tag payload)) : Unusable (index + 1)
  | beyond {index : Nat} (h : slotCount constants + 1 ≤ index) : Unusable index

end

/-! ## Reading constants -/

section
variable {c : StoredConstant} {constants : List StoredConstant}

theorem reads_storedConstant (h : c.WellFormed) : Reads Constant.read c.encode c.kept := by
  cases c with
  | text value =>
    refine (Reads.u1 1).bind ((Reads.u2 h).bind ((Reads.slice _).last ?_))
    rw [Utf8.decode_encode]
    exact .pure _
  | classRef name => exact (Reads.u1 7).bind ((Reads.u2 h).last (.pure _))
  | moduleRef name => exact (Reads.u1 19).bind ((Reads.u2 h).last (.pure _))
  | packageRef name => exact (Reads.u1 20).bind ((Reads.u2 h).last (.pure _))
  | narrow tag payload =>
    have hlength : narrowLength? tag = some payload.length := h
    unfold narrowLength? at hlength
    -- one case for each tag
    split at hlength
    all_goals first
      | cases hlength
      | exact (Reads.u1 _).bind ((Reads.skip (Option.some.inj hlength).symm).last (.pure _))
  | wide tag payload =>
    obtain ⟨rfl | rfl, hlength⟩ := h
    · exact (Reads.u1 5).bind ((Reads.skip hlength).last (.pure _))
    · exact (Reads.u1 6).bind ((Reads.skip hlength).last (.pure _))

/-- A constant that is not wide fills one slot, and reading goes on with the others. -/
theorem reads_slots_narrow {bytes more : Bytes} {c : Constant} {k : Nat}
    {slots : List (Option Constant)} (hread : Reads Constant.read bytes c) (hc : c ≠ .wide)
    (hmore : Reads (ConstantPool.readSlots k) more slots) :
    Reads (ConstantPool.readSlots (k + 1)) (bytes ++ more) (some c :: slots) := by
  have hslots : c.slots = [some c] := by
    cases c with
    | wide => exact absurd rfl hc
    | _ => rfl
  cases k with
  | zero =>
    -- no slots are left, so no bytes are
    obtain ⟨rfl, hnil⟩ := Prod.mk.inj (Except.ok.inj (hmore []))
    rw [List.append_nil] at hnil
    rw [hnil, List.append_nil, ← hslots]
    exact hread.last (.pure _)
  | succ k =>
    rw [ConstantPool.readSlots]
    refine hread.bind ?_
    dsimp only
    rw [if_neg hc]
    refine hmore.last ?_
    rw [hslots]
    exact .pure _

/-- A wide constant fills two slots, the second of which stays empty. -/
theorem reads_slots_wide {bytes more : Bytes} {k : Nat} {slots : List (Option Constant)}
    (hread : Reads Constant.read bytes .wide)
    (hmore : Reads (ConstantPool.readSlots k) more slots) :
    Reads (ConstantPool.readSlots (k + 2)) (bytes ++ more) (some .wide :: none :: slots) := by
  rw [ConstantPool.readSlots]
  refine hread.bind ?_
  dsimp only
  rw [if_pos rfl]
  exact hmore.last (.pure _)

theorem reads_storedSlots (h : ∀ c ∈ constants, c.WellFormed) :
    Reads (ConstantPool.readSlots (slotCount constants))
      (constants.flatMap StoredConstant.encode) (constants.flatMap fun c => c.kept.slots) := by
  induction constants with
  | nil => exact .pure []
  | cons c rest ih =>
    have hread := reads_storedConstant (h c List.mem_cons_self)
    have hrest := ih fun d hd => h d (List.mem_cons_of_mem c hd)
    rw [List.flatMap_cons, List.flatMap_cons, slotCount, Nat.add_comm]
    cases c with
    | wide tag payload => exact reads_slots_wide hread hrest
    | _ => exact reads_slots_narrow hread nofun hrest

/-- The pool that some constants are read as. -/
def poolFrom (constants : List StoredConstant) : ConstantPool :=
  ⟨none :: constants.flatMap fun c => c.kept.slots⟩

theorem reads_encodePool (h : ∀ c ∈ constants, c.WellFormed)
    (hcount : slotCount constants + 1 < 0x10000) :
    Reads ConstantPool.read (encodePool constants) (poolFrom constants) :=
  (Reads.u2 hcount).bind ((reads_storedSlots h).last (.pure _))

/-! ## Slots and numbers -/

theorem StoredConstant.width_pos (c : StoredConstant) : 0 < c.width := by
  cases c <;> simp [width]

theorem le_of_mem_numbered {start index : Nat} (h : (index, c) ∈ numbered start constants) :
    start ≤ index := by
  induction constants generalizing start with
  | nil => exact absurd h List.not_mem_nil
  | cons d rest ih =>
    rcases List.mem_cons.mp h with he | h
    · exact Nat.le_of_eq (Prod.mk.inj he).1.symm
    · exact Nat.le_trans (Nat.le_add_right _ _) (ih h)

theorem lt_of_mem_numbered {start index : Nat} (h : (index, c) ∈ numbered start constants) :
    index < start + slotCount constants := by
  induction constants generalizing start with
  | nil => exact absurd h List.not_mem_nil
  | cons d rest ih =>
    have hwidth : 0 < d.width := d.width_pos
    rw [slotCount]
    rcases List.mem_cons.mp h with he | h
    · have hindex := (Prod.mk.inj he).1
      omega
    · have hlt := ih h
      omega

theorem mem_numbered_cons_head {start : Nat} {d : StoredConstant} {rest : List StoredConstant} :
    (start, c) ∈ numbered start (d :: rest) ↔ c = d := by
  rw [numbered, List.mem_cons]
  constructor
  · rintro (he | h)
    · exact (Prod.mk.inj he).2
    · have hle := le_of_mem_numbered h
      have hwidth := d.width_pos
      omega
  · rintro rfl
    exact .inl rfl

theorem mem_numbered_cons_of_lt {start index : Nat} {d : StoredConstant}
    {rest : List StoredConstant} (hlt : start < index) :
    (index, c) ∈ numbered start (d :: rest) ↔ (index, c) ∈ numbered (start + d.width) rest := by
  rw [numbered, List.mem_cons]
  refine or_iff_right fun he => ?_
  have hindex := (Prod.mk.inj he).1
  omega

/-- The filled slots are those with the number of a constant; the first slot here has the number
`start`. -/
theorem getElem?_slots_eq_some_iff {start k : Nat} {x : Constant} :
    (constants.flatMap fun c => c.kept.slots)[k]? = some (some x) ↔
      ∃ c, (start + k, c) ∈ numbered start constants ∧ c.kept = x := by
  induction constants generalizing start k with
  | nil => simp [numbered]
  | cons d rest ih =>
    rw [List.flatMap_cons]
    cases k with
    | zero =>
      simp only [Nat.add_zero, mem_numbered_cons_head, exists_eq_left]
      cases d <;> simp [StoredConstant.kept, Constant.slots]
    | succ k =>
      simp only [mem_numbered_cons_of_lt (show start < start + (k + 1) by omega)]
      cases d with
      | wide tag payload =>
        cases k with
        | zero =>
          -- the second slot of a wide constant is empty, and its number is passed over
          refine iff_of_false nofun ?_
          rintro ⟨c, hc, -⟩
          have hle : start + 2 ≤ start + (0 + 1) := le_of_mem_numbered hc
          omega
        | succ k =>
          rw [show start + (k + 1 + 1) = start + 2 + k by omega]
          exact ih
      | _ =>
        rw [show start + (k + 1) = start + 1 + k by omega]
        exact ih

theorem slot_eq_some_iff {index : Nat} {x : Constant} :
    (poolFrom constants).slots[index]? = some (some x) ↔
      ∃ c, StandsAt constants index c ∧ c.kept = x := by
  cases index with
  | zero =>
    refine iff_of_false nofun ?_
    rintro ⟨c, hc, -⟩
    exact absurd (le_of_mem_numbered hc) (by decide)
  | succ k =>
    show (constants.flatMap fun c => c.kept.slots)[k]? = _ ↔
      ∃ c, (k + 1, c) ∈ numbered 1 constants ∧ c.kept = x
    rw [Nat.add_comm]
    exact getElem?_slots_eq_some_iff

/-- The second number of a wide constant is passed over. -/
theorem not_mem_numbered_second {start index : Nat} {tag : UInt8} {payload : Bytes}
    (hwide : (index, .wide tag payload) ∈ numbered start constants) :
    (index + 1, c) ∉ numbered start constants := by
  induction constants generalizing start with
  | nil => exact List.not_mem_nil
  | cons d rest ih =>
    have hle := le_of_mem_numbered hwide
    rw [mem_numbered_cons_of_lt (by omega)]
    by_cases hfirst : index = start
    · subst hfirst
      obtain rfl := mem_numbered_cons_head.mp hwide
      intro hc
      have hbehind : index + 2 ≤ index + 1 := le_of_mem_numbered hc
      omega
    · exact ih ((mem_numbered_cons_of_lt (by omega)).mp hwide)

/-- No constant has an unusable number. -/
theorem Unusable.not_standsAt {index : Nat} (h : Unusable constants index) :
    ¬ StandsAt constants index c := by
  intro hc
  cases h with
  | zero => exact absurd (le_of_mem_numbered hc) (by decide)
  | beyond hle =>
    have hlt := lt_of_mem_numbered hc
    omega
  | second hwide => exact not_mem_numbered_second hwide hc

/-! ## Answers -/

variable {index : Nat}

theorem get_of_standsAt (h : StandsAt constants index c) :
    (poolFrom constants).get index = .ok c.kept := by
  rw [ConstantPool.get, slot_eq_some_iff.mpr ⟨c, h, rfl⟩]

theorem get_of_not_standsAt (h : ∀ c, ¬ StandsAt constants index c) :
    (poolFrom constants).get index = .error (.invalidConstantIndex index) := by
  unfold ConstantPool.get
  split
  · next x hslot =>
    obtain ⟨c, hc, -⟩ := slot_eq_some_iff.mp hslot
    exact absurd hc (h c)
  · rfl

theorem text_of_standsAt {value : String} (h : StandsAt constants index (.text value)) :
    (poolFrom constants).text index = .ok value := by
  rw [ConstantPool.text, get_of_standsAt h]
  rfl

theorem text_of_not_standsAt (h : ∀ value, ¬ StandsAt constants index (.text value)) :
    (poolFrom constants).text index = .error (.invalidConstantIndex index) := by
  unfold ConstantPool.text
  by_cases hstands : ∃ c, StandsAt constants index c
  · obtain ⟨c, hc⟩ := hstands
    rw [get_of_standsAt hc]
    cases c with
    | text value => exact absurd hc (h value)
    | _ => rfl
  · rw [get_of_not_standsAt (not_exists.mp hstands)]
    rfl

/-- A lookup that accepts a constant looks its name up as a text. -/
theorem find_of_nameOf? {lookup : Lookup} {name : Nat} (h : StandsAt constants index c)
    (hname : lookup.nameOf? c = some name) :
    lookup.find (poolFrom constants) index =
      ((poolFrom constants).text name).map lookup.spelled := by
  have hlookup : lookup ≠ .text := by
    rintro rfl
    cases hname
  rw [Lookup.find_eq hlookup, bind_of_ok (get_of_standsAt h), Lookup.nameIn?_kept, hname]

/-- A lookup by name that does not accept a constant blames its number. -/
theorem find_of_nameOf?_eq_none {lookup : Lookup} (hlookup : lookup ≠ .text)
    (h : StandsAt constants index c) (hnone : lookup.nameOf? c = none) :
    lookup.find (poolFrom constants) index = .error (.invalidConstantIndex index) := by
  rw [Lookup.find_eq hlookup, bind_of_ok (get_of_standsAt h), Lookup.nameIn?_kept, hnone]

theorem find_of_not_standsAt (lookup : Lookup) (h : ∀ c, ¬ StandsAt constants index c) :
    lookup.find (poolFrom constants) index = .error (.invalidConstantIndex index) := by
  by_cases hlookup : lookup = .text
  · subst hlookup
    exact text_of_not_standsAt fun _ => h _
  · rw [Lookup.find_eq hlookup]
    exact bind_of_error (get_of_not_standsAt h) _

theorem find_of_denotes {lookup : Lookup} {s : String} (h : Denotes constants lookup index s) :
    lookup.find (poolFrom constants) index = .ok s := by
  cases h with
  | text h => exact text_of_standsAt h
  | name h hname hvalue =>
    rw [find_of_nameOf? h hname, text_of_standsAt hvalue]
    rfl

/-- What a lookup blames when it finds nothing: the number itself, or that of the name. -/
theorem find_of_not_denotes {lookup : Lookup} (h : ∀ s, ¬ Denotes constants lookup index s) :
    ∃ blamed, lookup.find (poolFrom constants) index = .error (.invalidConstantIndex blamed) ∧
      ((∃ c, StandsAt constants index c ∧ lookup.nameOf? c = some blamed) ∨
        blamed = index ∧ ∀ c, StandsAt constants index c → lookup.nameOf? c = none) := by
  by_cases hnamed : ∃ c name, StandsAt constants index c ∧ lookup.nameOf? c = some name
  · obtain ⟨c, name, hc, hname⟩ := hnamed
    have hvalue : ∀ value, ¬ StandsAt constants name (.text value) :=
      fun value hvalue => h _ (.name hc hname hvalue)
    refine ⟨name, ?_, .inl ⟨c, hc, hname⟩⟩
    rw [find_of_nameOf? hc hname, text_of_not_standsAt hvalue]
    rfl
  · have hnone : ∀ c, StandsAt constants index c → lookup.nameOf? c = none := fun c hc =>
      Option.eq_none_iff_forall_ne_some.mpr fun name hname => hnamed ⟨c, name, hc, hname⟩
    refine ⟨index, ?_, .inr ⟨rfl, hnone⟩⟩
    by_cases hlookup : lookup = .text
    · subst hlookup
      exact text_of_not_standsAt fun value hvalue => h value (.text hvalue)
    · by_cases hstands : ∃ c, StandsAt constants index c
      · obtain ⟨c, hc⟩ := hstands
        exact find_of_nameOf?_eq_none hlookup hc (hnone c hc)
      · exact find_of_not_standsAt lookup (not_exists.mp hstands)

end

/-- **Slots follow the numbering.**  A pool of well-formed constants is read, and exactly its bytes
are.  A lookup of a number finds what the number denotes.  When it denotes nothing, the lookup
fails: it blames the name of the constant with that number if it accepts the constant, and the
number itself otherwise, as it always does for numbers that no constant has. -/
theorem reads_encodePool_find (constants : List StoredConstant)
    (h : ∀ c ∈ constants, c.WellFormed) (hcount : slotCount constants + 1 < 0x10000) :
    ∃ pool, Reads ConstantPool.read (encodePool constants) pool ∧
      ∀ (lookup : Lookup) (index : Nat),
        (∀ s, lookup.find pool index = .ok s ↔ Denotes constants lookup index s) ∧
        ((∀ s, ¬ Denotes constants lookup index s) →
          ∃ blamed, lookup.find pool index = .error (.invalidConstantIndex blamed) ∧
            ((∃ c, StandsAt constants index c ∧ lookup.nameOf? c = some blamed) ∨
              blamed = index ∧ ∀ c, StandsAt constants index c → lookup.nameOf? c = none)) ∧
        (Unusable constants index →
          lookup.find pool index = .error (.invalidConstantIndex index)) := by
  refine ⟨poolFrom constants, reads_encodePool h hcount, fun lookup index => ⟨fun s => ?_, ?_, ?_⟩⟩
  · refine ⟨fun hfind => ?_, find_of_denotes⟩
    by_contra hdenotes
    have hnothing : ∀ s', ¬ Denotes constants lookup index s' := by
      intro s' hs'
      rw [find_of_denotes hs'] at hfind
      exact hdenotes (Except.ok.inj hfind ▸ hs')
    obtain ⟨blamed, herror, -⟩ := find_of_not_denotes hnothing
    rw [herror] at hfind
    cases hfind
  · exact find_of_not_denotes
  · exact fun hunusable => find_of_not_standsAt lookup fun c => hunusable.not_standsAt

/-- Constants among which two are wide, a class and a package come before their names, and a module
has a number for its name that belongs to no text. -/
def stockConstants : List StoredConstant := [
  .wide 5 [0, 0, 0, 0, 0, 0, 0, 1],
  .classRef 4,
  .text "shop/Item",
  .wide 6 [0x40, 0, 0, 0, 0, 0, 0, 0],
  .packageRef 8,
  .text "shop/api",
  .narrow 3 [0, 0, 0, 7],
  .moduleRef 9]

/-- The class is found as a class and as a package.  What the module names is blamed, and the
second number of a wide constant and the number behind the last constant blame themselves. -/
theorem reads_encodePool_find_stock :
    (∀ c ∈ stockConstants, c.WellFormed) ∧ slotCount stockConstants + 1 = 11 ∧
      ∃ pool, Reads ConstantPool.read (encodePool stockConstants) pool ∧
        pool.className 3 = .ok "shop.Item" ∧ pool.packageName 3 = .ok "shop.Item" ∧
        pool.packageName 7 = .ok "shop.api" ∧ pool.text 8 = .ok "shop/api" ∧
        pool.moduleName 10 = .error (.invalidConstantIndex 9) ∧
        pool.text 6 = .error (.invalidConstantIndex 6) ∧
        pool.className 11 = .error (.invalidConstantIndex 11) := by
  have hformed : ∀ c ∈ stockConstants, c.WellFormed := by decide
  have hcount : slotCount stockConstants + 1 = 11 := by decide
  have hitem : Text.replace '/' '.' "shop/Item" = "shop.Item" := by decide
  have hapi : Text.replace '/' '.' "shop/api" = "shop.api" := by decide
  have hclass : StandsAt stockConstants 3 (.classRef 4) := by decide
  have hname : StandsAt stockConstants 4 (.text "shop/Item") := by decide
  have hpackage : StandsAt stockConstants 7 (.packageRef 8) := by decide
  have htext : StandsAt stockConstants 8 (.text "shop/api") := by decide
  have hwide : StandsAt stockConstants 5 (.wide 6 [0x40, 0, 0, 0, 0, 0, 0, 0]) := by decide
  have hmodule : StandsAt stockConstants 10 (.moduleRef 9) := by decide
  have hten : ∀ p ∈ numbered 1 stockConstants, p.1 = 10 → p.2 = .moduleRef 9 := by decide
  have hnine : ∀ p ∈ numbered 1 stockConstants, p.1 = 9 → p.2 = .narrow 3 [0, 0, 0, 7] := by
    decide
  obtain ⟨pool, hreads, hfind⟩ := reads_encodePool_find stockConstants hformed (by decide)
  refine ⟨hformed, hcount, pool, hreads, ?_, ?_, ?_, ?_, ?_, ?_, ?_⟩
  · exact ((hfind .className 3).1 _).mpr (hitem ▸ .name hclass rfl hname)
  · exact ((hfind .packageName 3).1 _).mpr (hitem ▸ .name hclass rfl hname)
  · exact ((hfind .packageName 7).1 _).mpr (hapi ▸ .name hpackage rfl htext)
  · exact ((hfind .text 8).1 _).mpr (.text htext)
  · have hnothing : ∀ s, ¬ Denotes stockConstants .moduleName 10 s := by
      rintro _ (_ | ⟨hc, hc', hvalue⟩)
      obtain rfl := hten _ hc rfl
      obtain rfl := Option.some.inj hc'
      cases hnine _ hvalue rfl
    obtain ⟨blamed, hblamed, ⟨c, hc, hc'⟩ | ⟨-, hnone⟩⟩ := (hfind .moduleName 10).2.1 hnothing
    · obtain rfl := hten _ hc rfl
      obtain rfl := Option.some.inj hc'
      exact hblamed
    · cases hnone _ hmodule
  · exact (hfind .text 6).2.2 (.second hwide)
  · exact (hfind .className 11).2.2 (.beyond (by decide))

end ModuleAtlas.ClassFile
