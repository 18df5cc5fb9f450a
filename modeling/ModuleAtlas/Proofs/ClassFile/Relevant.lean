import ModuleAtlas.Proofs.ClassFile.Constants
import ModuleAtlas.Proofs.ClassFile.Layout

/-! # What descriptors are made of

A descriptor is made of the attributes with five names (`descriptorAttributes`).  Each attribute is
decoded by itself, and of each kind only the attributes of that kind are looked at, in their order
(`assemble_congr`).  So two tables of attributes that have the same bodies under each of the five
names (`SameBodies`) give the same descriptor: it does not matter how the kinds are mixed, and
attributes with other names do not matter at all.

**Only the relevant attributes matter** (`parseModuleInfo_of_replaces`): neither do the version,
the flags, the class and the members that stand before the table, nor what stands behind it.
-/
namespace ModuleAtlas.ClassFile
open Steps

/-- The names of the attributes that descriptors are made of. -/
def descriptorAttributes : List String :=
  ["Module", "ModulePackages", "ModuleMainClass", "ModuleTarget", "ModuleHashes"]

/-- The bodies under a name, in the order of the table. -/
def bodiesOf (constants : ConstantPool) (name : String) (attributes : List RawAttribute) :
    List Bytes :=
  (attributes.filter fun a => constants.text a.name = .ok name).map RawAttribute.body

theorem bodiesOf_cons (constants : ConstantPool) (name : String) (a : RawAttribute)
    (attributes : List RawAttribute) :
    bodiesOf constants name (a :: attributes) =
      if constants.text a.name = .ok name then a.body :: bodiesOf constants name attributes
      else bodiesOf constants name attributes := by
  unfold bodiesOf
  rw [List.filter_cons]
  by_cases h : constants.text a.name = .ok name
  · rw [if_pos (decide_eq_true h), if_pos h, List.map_cons]
  · rw [if_neg (mt of_decide_eq_true h), if_neg h]

theorem bodiesOf_append (constants : ConstantPool) (name : String)
    (front back : List RawAttribute) :
    bodiesOf constants name (front ++ back) =
      bodiesOf constants name front ++ bodiesOf constants name back := by
  rw [bodiesOf, List.filter_append, List.map_append]
  rfl

/-! ## Tables that amount to the same -/

/-- The tables have the same bodies under each name that descriptors are made of. -/
def SameBodies (constants : ConstantPool) (attributes others : List RawAttribute) : Prop :=
  ∀ name ∈ descriptorAttributes,
    bodiesOf constants name attributes = bodiesOf constants name others

namespace SameBodies
variable {constants : ConstantPool} {attributes others more back : List RawAttribute}
  {a b : RawAttribute}

theorem symm (h : SameBodies constants attributes others) : SameBodies constants others attributes :=
  fun name hname => (h name hname).symm

theorem trans (h : SameBodies constants attributes others)
    (hmore : SameBodies constants others more) : SameBodies constants attributes more :=
  fun name hname => (h name hname).trans (hmore name hname)

/-- An attribute with another name may be inserted anywhere. -/
theorem insert (front : List RawAttribute)
    (ha : ∀ name ∈ descriptorAttributes, constants.text a.name ≠ .ok name) :
    SameBodies constants (front ++ back) (front ++ a :: back) := by
  intro name hname
  rw [bodiesOf_append, bodiesOf_append, bodiesOf_cons, if_neg (ha name hname)]

/-- Two neighbours with different names may be swapped. -/
theorem swap (front : List RawAttribute) (hab : constants.text a.name ≠ constants.text b.name) :
    SameBodies constants (front ++ a :: b :: back) (front ++ b :: a :: back) := by
  intro name _
  rw [bodiesOf_append, bodiesOf_append, bodiesOf_cons, bodiesOf_cons, bodiesOf_cons, bodiesOf_cons]
  by_cases ha : constants.text a.name = .ok name
  · have hb : constants.text b.name ≠ .ok name := fun hb => hab (ha.trans hb.symm)
    rw [if_neg hb, if_neg hb]
  · rw [if_neg ha, if_neg ha]

end SameBodies

/-! ## Kinds of attributes -/

/-- The name under which an attribute stands. -/
def Attribute.kind? : Attribute → Option String
  | .module _ => some "Module"
  | .packages _ => some "ModulePackages"
  | .mainClass _ => some "ModuleMainClass"
  | .target _ => some "ModuleTarget"
  | .hashes _ => some "ModuleHashes"
  | .other => none

/-- The attributes that stand under a name. -/
def ofKind (name : String) (attributes : List Attribute) : List Attribute :=
  attributes.filter fun a => a.kind? = some name

theorem ofKind_cons (name : String) (a : Attribute) (attributes : List Attribute) :
    ofKind name (a :: attributes) =
      if a.kind? = some name then a :: ofKind name attributes else ofKind name attributes := by
  unfold ofKind
  rw [List.filter_cons]
  by_cases h : a.kind? = some name
  · rw [if_pos (decide_eq_true h), if_pos h]
  · rw [if_neg (mt of_decide_eq_true h), if_neg h]

section
variable {constants : ConstantPool} {name : String} {body : Bytes} {a : Attribute}

theorem exists_of_valueOn_return {α : Type} {read : Reader α} {make : α → Attribute}
    (h : valueOn (do return make (← read)) body = .ok a) : ∃ x, a = make x := by
  obtain ⟨⟨_, _⟩, hrun, rfl⟩ := map_eq_ok_iff.mp h
  obtain ⟨⟨x, _⟩, -, he⟩ := bind_eq_ok_iff.mp hrun
  exact ⟨x, ((Prod.mk.inj (Except.ok.inj he)).1).symm⟩

theorem kind?_of_ofBody (h : Attribute.ofBody constants name body = .ok a) :
    a.kind? = if name ∈ descriptorAttributes then some name else none := by
  unfold Attribute.ofBody Attribute.readBody at h
  split at h
  · subst name
    obtain ⟨d, rfl⟩ := exists_of_valueOn_return h
    rfl
  split at h
  · subst name
    obtain ⟨names, rfl⟩ := exists_of_valueOn_return h
    rfl
  split at h
  · subst name
    obtain ⟨mainClass, rfl⟩ := exists_of_valueOn_return h
    rfl
  split at h
  · subst name
    obtain ⟨platform, rfl⟩ := exists_of_valueOn_return h
    rfl
  split at h
  · subst name
    obtain ⟨hashes, rfl⟩ := exists_of_valueOn_return h
    rfl
  · obtain rfl : Attribute.other = a := Except.ok.inj h
    rw [if_neg (by simp [descriptorAttributes, *])]
    rfl

/-- The bodies under a name that matters are decoded to the attributes of that kind. -/
theorem mapM_ofBody_bodiesOf {attributes : List RawAttribute} {decoded : List Attribute}
    (hname : name ∈ descriptorAttributes)
    (h : attributes.mapM (RawAttribute.decode constants) = .ok decoded) :
    (bodiesOf constants name attributes).mapM (Attribute.ofBody constants name) =
      .ok (ofKind name decoded) := by
  replace h := mapM_eq_ok_iff.mp h
  rw [mapM_eq_ok_iff]
  induction h with
  | nil => exact .nil
  | @cons raw a _ _ ha _ ih =>
    obtain ⟨actual, htext, hbody⟩ := bind_eq_ok_iff.mp ha
    have hkind := kind?_of_ofBody hbody
    rw [bodiesOf_cons, ofKind_cons, htext, hkind]
    by_cases hactual : actual = name
    · subst hactual
      rw [if_pos rfl, if_pos hname, if_pos rfl]
      exact .cons hbody ih
    · have hother : (if actual ∈ descriptorAttributes then some actual else none) ≠ some name := by
        split
        · exact fun he => hactual (Option.some.inj he)
        · exact nofun
      rw [if_neg fun he => hactual (Except.ok.inj he), if_neg hother]
      exact ih

/-- An attribute with another name says nothing. -/
theorem ofBody_eq_other (hname : name ∉ descriptorAttributes) :
    Attribute.ofBody constants name body = .ok .other := by
  simp only [descriptorAttributes, List.mem_cons, List.not_mem_nil, or_false, not_or] at hname
  obtain ⟨hmodule, hpackages, hmainClass, htarget, hhashes⟩ := hname
  rw [Attribute.ofBody, Attribute.readBody, if_neg hmodule, if_neg hpackages, if_neg hmainClass,
    if_neg htarget, if_neg hhashes]
  rfl

end

/-! ## Putting attributes together -/

section
variable {attributes others : List Attribute} {name : String}

/-- What is found among the attributes of a kind is found among all. -/
theorem lastSome?_ofKind {β : Type} {f : Attribute → Option β}
    (hf : ∀ a, a.kind? ≠ some name → f a = none) :
    lastSome? f (ofKind name attributes) = lastSome? f attributes := by
  rw [lastSome?, lastSome?, ← List.head?_filterMap, ← List.head?_filterMap,
    List.filterMap_reverse, List.filterMap_reverse, ofKind, List.filterMap_filter]
  refine congrArg (fun g => (attributes.filterMap g).reverse.head?) (funext fun a => ?_)
  by_cases ha : a.kind? = some name
  · rw [if_pos (decide_eq_true ha)]
  · rw [if_neg (mt of_decide_eq_true ha), hf a ha]

theorem flatMap_ofKind {β : Type} {f : Attribute → List β}
    (hf : ∀ a, a.kind? ≠ some name → f a = []) :
    (ofKind name attributes).flatMap f = attributes.flatMap f := by
  induction attributes with
  | nil => rfl
  | cons a attributes ih =>
    rw [ofKind_cons, List.flatMap_cons, ← ih]
    by_cases ha : a.kind? = some name
    · rw [if_pos ha, List.flatMap_cons]
    · rw [if_neg ha, hf a ha, List.nil_append]

theorem lastSome?_congr {β : Type} {f : Attribute → Option β}
    (h : ofKind name attributes = ofKind name others)
    (hf : ∀ a, a.kind? ≠ some name → f a = none) :
    lastSome? f attributes = lastSome? f others := by
  rw [← lastSome?_ofKind hf, h, lastSome?_ofKind hf]

theorem flatMap_congr {β : Type} {f : Attribute → List β}
    (h : ofKind name attributes = ofKind name others)
    (hf : ∀ a, a.kind? ≠ some name → f a = []) :
    attributes.flatMap f = others.flatMap f := by
  rw [← flatMap_ofKind hf, h, flatMap_ofKind hf]

/-- Each kind of attribute counts by itself. -/
theorem assemble_congr
    (h : ∀ name ∈ descriptorAttributes, ofKind name attributes = ofKind name others) :
    assemble attributes = assemble others := by
  unfold assemble
  rw [lastSome?_congr (h "Module" (by decide)) ?_, flatMap_congr (h "ModulePackages" (by decide)) ?_,
    lastSome?_congr (h "ModuleMainClass" (by decide)) ?_,
    lastSome?_congr (h "ModuleTarget" (by decide)) ?_,
    lastSome?_congr (h "ModuleHashes" (by decide)) ?_]
  all_goals
    intro a ha
    cases a <;> first | rfl | exact absurd rfl ha

end

/-! ## Other class files with the same descriptor -/

/-- A class over the same constants, with the same bodies under each name that descriptors are made
of.  Every attribute has some name; nothing else is asked of the rest. -/
structure RawClass.Replaces (other c : RawClass) (constants : ConstantPool) : Prop where
  fits : other.Fits constants
  named : ∀ a ∈ other.attributes, ∃ name, constants.text a.name = .ok name
  bodies : SameBodies constants c.attributes other.attributes

theorem exists_decode {constants : ConstantPool} {attributes others : List RawAttribute}
    {decoded : List Attribute} (hbodies : SameBodies constants attributes others)
    (h : attributes.mapM (RawAttribute.decode constants) = .ok decoded) {a : RawAttribute}
    (ha : a ∈ others) {name : String} (hname : constants.text a.name = .ok name) :
    ∃ value, a.decode constants = .ok value := by
  have hdecode : a.decode constants = Attribute.ofBody constants name a.body := by
    rw [RawAttribute.decode, hname]
    rfl
  rw [hdecode]
  by_cases hmatters : name ∈ descriptorAttributes
  · -- the same body has been decoded under the same name before
    have hbody : a.body ∈ bodiesOf constants name attributes := by
      rw [hbodies name hmatters]
      exact List.mem_map_of_mem (List.mem_filter.mpr ⟨ha, decide_eq_true hname⟩)
    exact exists_mapM_eq_ok_iff.mp ⟨_, mapM_ofBody_bodiesOf hmatters h⟩ a.body hbody
  · exact ⟨.other, ofBody_eq_other hmatters⟩

/-- **Only the relevant attributes matter.**  A file with a descriptor is a class file with anything
behind it, and every class file that replaces it, with anything behind it, has the same
descriptor. -/
theorem parseModuleInfo_of_replaces {bytes : Bytes} {d : ModuleDescriptor}
    (h : parseModuleInfo bytes = .ok d) :
    (∃ (c : RawClass) (constants : ConstantPool) (rest : Bytes),
      c.Fits constants ∧ bytes = c.encode ++ rest) ∧
    ∀ (c : RawClass) (constants : ConstantPool) (rest : Bytes),
      c.Fits constants → bytes = c.encode ++ rest →
      ∀ other : RawClass, other.Replaces c constants →
      ∀ rest' : Bytes, parseModuleInfo (other.encode ++ rest') = .ok d := by
  refine ⟨exists_layout h, ?_⟩
  rintro c constants rest hfits rfl other hother rest'
  rw [parseModuleInfo_encode hfits] at h
  obtain ⟨decoded, hdecoded, hd⟩ := bind_eq_ok_iff.mp h
  obtain ⟨decoded', hdecoded'⟩ : ∃ decoded',
      other.attributes.mapM (RawAttribute.decode constants) = .ok decoded' := by
    refine exists_mapM_eq_ok_iff.mpr fun a ha => ?_
    obtain ⟨name, hname⟩ := hother.named a ha
    exact exists_decode hother.bodies hdecoded ha hname
  have hkinds : ∀ name ∈ descriptorAttributes, ofKind name decoded = ofKind name decoded' := by
    intro name hname
    have hbodies := mapM_ofBody_bodiesOf hname hdecoded
    rw [hother.bodies name hname, mapM_ofBody_bodiesOf hname hdecoded'] at hbodies
    exact (Except.ok.inj hbodies).symm
  rw [parseModuleInfo_encode hother.fits, hdecoded']
  show assemble decoded' = .ok d
  rw [← assemble_congr hkinds, hd]

/-- The constants of a class file with a descriptor. -/
def lanternConstants : List StoredConstant := [
  .text "Module", .text "ModulePackages", .text "SourceFile", .text "lantern", .moduleRef 4,
  .text "lantern/core", .packageRef 6]

/-- A class file with a name, a package and an attribute of no concern between them. -/
def lanternClass : RawClass where
  header := ⟨0, 53, encodePool lanternConstants, 0x8000, 0, 0, [], [], []⟩
  attributes := [⟨1, encodeU2 5 ++ List.replicate 14 0⟩, ⟨3, [0, 4]⟩, ⟨2, encodeU2 1 ++ encodeU2 7⟩]

/-- The descriptor in it. -/
def lanternDescriptor : ModuleDescriptor where
  name := "lantern"
  packages := NameSet.ofList ["lantern.core"]

theorem parseModuleInfo_lanternClass :
    parseModuleInfo (lanternClass.encode ++ [0xCA, 0xFE]) = .ok lanternDescriptor := by
  decide

theorem fits_lanternClass : lanternClass.Fits (poolFrom lanternConstants) where
  header := {
    pool := reads_encodePool (by decide) (by decide)
    interfaceCount := by decide
    fieldCount := by decide
    methodCount := by decide
    fields := by decide
    methods := by decide }
  count := by decide
  attributes := by decide

/-- The packages come first, and an attribute of no concern is at the end instead of in the middle.
There is a field with such an attribute, an interface, another version and other flags. -/
def lanternVariant : RawClass where
  header := ⟨3, 65, encodePool lanternConstants, 1, 2, 9, [1], [⟨2, 1, 4, [⟨3, [0, 4]⟩]⟩], []⟩
  attributes := [⟨2, encodeU2 1 ++ encodeU2 7⟩, ⟨1, encodeU2 5 ++ List.replicate 14 0⟩,
    ⟨3, [0, 4, 0xFF]⟩]

theorem replaces_lanternVariant :
    lanternVariant.Replaces lanternClass (poolFrom lanternConstants) where
  fits := {
    header := {
      pool := reads_encodePool (by decide) (by decide)
      interfaceCount := by decide
      fieldCount := by decide
      methodCount := by decide
      fields := by decide
      methods := by decide }
    count := by decide
    attributes := by decide }
  named := by
    refine List.forall_mem_cons.mpr ⟨⟨"ModulePackages", rfl⟩, List.forall_mem_cons.mpr
      ⟨⟨"Module", rfl⟩, List.forall_mem_singleton.mpr ⟨"SourceFile", rfl⟩⟩⟩
  bodies := by
    have hdelete : SameBodies (poolFrom lanternConstants) lanternClass.attributes
        [⟨1, encodeU2 5 ++ List.replicate 14 0⟩, ⟨2, encodeU2 1 ++ encodeU2 7⟩] :=
      (SameBodies.insert [⟨1, encodeU2 5 ++ List.replicate 14 0⟩] (by decide)).symm
    exact (hdelete.trans (.swap [] (by decide))).trans
      (.insert [⟨2, encodeU2 1 ++ encodeU2 7⟩, ⟨1, encodeU2 5 ++ List.replicate 14 0⟩] (by decide))

/-- The variant has the descriptor of the class, whatever stands behind it. -/
theorem parseModuleInfo_of_replaces_lantern :
    parseModuleInfo (lanternClass.encode ++ [0xCA, 0xFE]) = .ok lanternDescriptor ∧
      lanternClass.Fits (poolFrom lanternConstants) ∧
      lanternVariant.Replaces lanternClass (poolFrom lanternConstants) ∧
      ∀ more, parseModuleInfo (lanternVariant.encode ++ more) = .ok lanternDescriptor :=
  ⟨parseModuleInfo_lanternClass, fits_lanternClass, replaces_lanternVariant,
    (parseModuleInfo_of_replaces parseModuleInfo_lanternClass).2 lanternClass _ _
      fits_lanternClass rfl lanternVariant replaces_lanternVariant⟩

end ModuleAtlas.ClassFile
