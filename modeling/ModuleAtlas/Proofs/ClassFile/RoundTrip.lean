import ModuleAtlas.Proofs.ClassFile.Pieces

/-! # Written descriptors are read back

A descriptor that fits the format (`Writable`) is read back from its class file, with the packages
that it exports or opens added to those it holds (`parseModuleInfo_encodeModuleInfo`).

Everything in the pool of a descriptor is one of its texts or the name of an attribute, so the
pool can be written (`Writable.poolFits`).  Each attribute is then read as its part of the
descriptor (`readAs_ofDescriptor`), and the parts are put together again
(`assemble_attributesOf`).
-/
namespace ModuleAtlas

namespace ModuleDescriptor

/-- The names of classes and packages, which a class file writes with slashes. -/
def slashedNames (d : ModuleDescriptor) : List String :=
  d.visiblePackages ++ d.uses.toList ++ d.provides.flatMap (fun p => p.service :: p.providers) ++
    d.packages.toList ++ d.mainClass.toList

/-- The other texts, which a class file writes as they are. -/
def plainTexts (d : ModuleDescriptor) : List String :=
  d.name :: d.version.toList ++ d.requires.flatMap (fun r => r.name :: r.compiledVersion.toList) ++
    (d.exports ++ d.opens).flatMap (fun e => e.targets.toList) ++ d.targetPlatform.toList ++
    d.hashes.toList.flatMap (fun h => h.algorithm :: h.hashes.keys)

section
variable {d : ModuleDescriptor} {t : String}

theorem source_mem_slashedNames {e : Exports} (he : e ∈ d.exports ++ d.opens) :
    e.source ∈ d.slashedNames := by
  have hvisible : e.source ∈ d.visiblePackages := by
    rw [visiblePackages, ← List.map_append]
    exact List.mem_map_of_mem he
  simp [slashedNames, hvisible]

theorem mem_slashedNames_of_uses (ht : t ∈ d.uses) : t ∈ d.slashedNames := by
  simp [slashedNames, ht]

theorem mem_slashedNames_of_provides {p : Provides} (hp : p ∈ d.provides)
    (ht : t ∈ p.service :: p.providers) : t ∈ d.slashedNames := by
  have hprovides := List.mem_flatMap_of_mem (f := fun p => p.service :: p.providers) hp ht
  simp only [slashedNames, List.mem_append, hprovides, true_or, or_true]

theorem mem_slashedNames_of_packages (ht : t ∈ d.packages) : t ∈ d.slashedNames := by
  simp [slashedNames, ht]

theorem mem_slashedNames_of_mainClass (ht : d.mainClass = some t) : t ∈ d.slashedNames := by
  simp [slashedNames, ht]

theorem name_mem_plainTexts : d.name ∈ d.plainTexts := by
  simp [plainTexts]

theorem mem_plainTexts_of_version (ht : d.version = some t) : t ∈ d.plainTexts := by
  simp [plainTexts, ht]

theorem mem_plainTexts_of_requires {r : Requires} (hr : r ∈ d.requires)
    (ht : t ∈ r.name :: r.compiledVersion.toList) : t ∈ d.plainTexts := by
  have hrequires := List.mem_flatMap_of_mem (f := fun r => r.name :: r.compiledVersion.toList) hr ht
  simp only [plainTexts, List.mem_append, hrequires, true_or, or_true]

theorem mem_plainTexts_of_targets {e : Exports} (he : e ∈ d.exports ++ d.opens)
    (ht : t ∈ e.targets) : t ∈ d.plainTexts := by
  have htargets := List.mem_flatMap_of_mem (f := fun e => e.targets.toList) he ht
  simp only [plainTexts, List.mem_append, htargets, true_or, or_true]

theorem mem_plainTexts_of_targetPlatform (ht : d.targetPlatform = some t) : t ∈ d.plainTexts := by
  simp [plainTexts, ht]

theorem mem_plainTexts_of_hashes {h : ModuleHashes} (hh : d.hashes = some h)
    (ht : t ∈ h.algorithm :: h.hashes.keys) : t ∈ d.plainTexts := by
  simp only [plainTexts, hh, Option.toList_some, List.flatMap_singleton, List.mem_append, ht,
    or_true]

end

end ModuleDescriptor

namespace ClassFile
open ModuleDescriptor

/-! ## Descriptors that fit the format -/

/-- A descriptor that fits the format of class files: its counts and the lengths of its texts and
hashes fit in two bytes, its pool in a class file, and the lengths of its attributes in four
bytes; and no name that will be written with slashes has one. -/
structure Writable (d : ModuleDescriptor) : Prop where
  requires : d.requires.length < 0x10000
  exports : d.exports.length < 0x10000
  opens : d.opens.length < 0x10000
  targets : ∀ e ∈ d.exports ++ d.opens, e.targets.toList.length < 0x10000
  uses : d.uses.toList.length < 0x10000
  provides : d.provides.length < 0x10000
  providers : ∀ p ∈ d.provides, p.providers.length < 0x10000
  packages : d.packages.toList.length < 0x10000
  /-- There are not too many recorded hashes. -/
  hashes : ∀ h ∈ d.hashes, h.hashes.entries.length < 0x10000
  /-- No recorded hash is too long. -/
  hashLengths : ∀ h ∈ d.hashes, ∀ e ∈ h.hashes.entries, e.2.length < 0x10000
  /-- No text is too long. -/
  texts : ∀ t ∈ d.slashedNames ++ d.plainTexts, (Utf8.encode t).length < 0x10000
  /-- Dots are turned into slashes and back, so there are no slashes to begin with. -/
  dotted : ∀ n ∈ d.slashedNames, '/' ∉ n.toList
  /-- Every reference is a slot of two bytes, and the slot count is one more than the last. -/
  slots : (poolOf (WrittenAttribute.ofDescriptor d)).length < 0xFFFF
  /-- No body is too long. -/
  bodies : ∀ a ∈ WrittenAttribute.ofDescriptor d,
    (a.body.flatMap (encodePiece (poolOf (WrittenAttribute.ofDescriptor d)))).length < 0x100000000

/-! ## The pool of a descriptor -/

/-- Turning dots into slashes does not change the length. -/
theorem length_encode_replace (s : String) :
    (Utf8.encode (Text.replace '.' '/' s)).length = (Utf8.encode s).length := by
  unfold Utf8.encode Text.replace
  rw [String.toList_ofList, List.flatMap_map, List.length_flatMap, List.length_flatMap]
  refine congrArg List.sum (List.map_congr_left fun c _ => ?_)
  by_cases hc : c = '.'
  · rw [if_pos hc, hc]
    rfl
  · rw [if_neg hc]

section
variable {d : ModuleDescriptor} {a : WrittenAttribute}

theorem mem_ofDescriptor (ha : a ∈ WrittenAttribute.ofDescriptor d) :
    a = .ofModule d ∨ a = .ofPackages d.packages ∨ (∃ m ∈ d.mainClass, a = .ofMainClass m) ∨
      (∃ t ∈ d.targetPlatform, a = .ofTarget t) ∨ ∃ h ∈ d.hashes, a = .ofHashes h := by
  simp only [WrittenAttribute.ofDescriptor, List.cons_append, List.mem_cons, List.mem_append,
    Option.mem_toList, Option.map_eq_some_iff] at ha
  rcases ha with rfl | ((ha | ⟨m, hm, rfl⟩) | ⟨t, ht, rfl⟩) | ⟨h, hh, rfl⟩
  · exact .inl rfl
  · split at ha
    · exact absurd ha List.not_mem_nil
    · exact .inr (.inl (List.mem_singleton.mp ha))
  · exact .inr (.inr (.inl ⟨m, hm, rfl⟩))
  · exact .inr (.inr (.inr (.inl ⟨t, ht, rfl⟩)))
  · exact .inr (.inr (.inr (.inr ⟨h, hh, rfl⟩)))

theorem length_ofDescriptor_le (d : ModuleDescriptor) :
    (WrittenAttribute.ofDescriptor d).length ≤ 5 := by
  have hmain := Option.length_toList_le (o := d.mainClass.map WrittenAttribute.ofMainClass)
  have htarget := Option.length_toList_le (o := d.targetPlatform.map WrittenAttribute.ofTarget)
  have hhashes := Option.length_toList_le (o := d.hashes.map WrittenAttribute.ofHashes)
  simp only [WrittenAttribute.ofDescriptor, List.length_append, List.length_cons]
  split
  · rw [List.length_nil]
    omega
  · rw [List.length_singleton]
    omega

theorem refers_ofModule {P : Symbol → Prop}
    (hplain : ∀ t ∈ d.plainTexts, P (.text t) ∧ P (.moduleRef t))
    (hslashed : ∀ n ∈ d.slashedNames, P (.ofClass n) ∧ P (.ofPackage n)) :
    Refers P (WrittenAttribute.ofModule d).body := by
  have hname : P (.moduleRef d.name) := (hplain _ name_mem_plainTexts).2
  have hversion : ∀ t, d.version = some t → P (.text t) := fun t ht =>
    (hplain t (mem_plainTexts_of_version ht)).1
  have hrequires : ∀ r ∈ d.requires, Refers P (Piece.ofRequires r) := by
    intro r hr
    simp only [Piece.ofRequires, refers_cons_ref, refers_cons_number, refers_cons_optionalText]
    have hmodule := (hplain _ (mem_plainTexts_of_requires hr List.mem_cons_self)).2
    refine ⟨hmodule, fun t ht => ?_, refers_nil⟩
    have hversion := List.mem_cons_of_mem r.name (Option.mem_toList.mpr ht)
    exact (hplain t (mem_plainTexts_of_requires hr hversion)).1
  have hexports : ∀ e ∈ d.exports ++ d.opens, Refers P (Piece.ofExports e) := by
    intro e he
    simp only [Piece.ofExports, refers_cons_ref, refers_cons_number, refers_counted]
    refine ⟨(hslashed _ (source_mem_slashedNames he)).2, fun t ht => ⟨?_, refers_nil⟩⟩
    exact (hplain t (mem_plainTexts_of_targets he ht)).2
  have huses : ∀ n ∈ d.uses.toList, Refers P (Piece.ofClass n) := fun n hn =>
    refers_cons_ref.mpr ⟨(hslashed n (mem_slashedNames_of_uses hn)).1, refers_nil⟩
  have hprovides : ∀ p ∈ d.provides, Refers P (Piece.ofProvides p) := by
    intro p hp
    have hclass : ∀ n ∈ p.service :: p.providers, P (.ofClass n) := fun n hn =>
      (hslashed n (mem_slashedNames_of_provides hp hn)).1
    obtain ⟨hservice, hproviders⟩ := List.forall_mem_cons.mp hclass
    simp only [Piece.ofProvides, Piece.ofClass, refers_cons_ref, refers_counted]
    exact ⟨hservice, fun n hn => ⟨hproviders n hn, refers_nil⟩⟩
  simp only [WrittenAttribute.ofModule, refers_append, refers_counted, refers_cons_ref,
    refers_cons_number, refers_cons_optionalText]
  rw [List.forall_mem_append] at hexports
  exact ⟨⟨⟨⟨⟨⟨hname, hversion, refers_nil⟩, hrequires⟩, hexports.1⟩, hexports.2⟩, huses⟩, hprovides⟩

/-- What holds of all texts of a descriptor holds of all that its attributes refer to. -/
theorem refers_ofDescriptor {P : Symbol → Prop}
    (hplain : ∀ t ∈ d.plainTexts, P (.text t) ∧ P (.moduleRef t))
    (hslashed : ∀ n ∈ d.slashedNames, P (.ofClass n) ∧ P (.ofPackage n))
    (ha : a ∈ WrittenAttribute.ofDescriptor d) : Refers P a.body := by
  rcases mem_ofDescriptor ha with rfl | rfl | ⟨m, hm, rfl⟩ | ⟨t, ht, rfl⟩ | ⟨h, hh, rfl⟩
  · exact refers_ofModule hplain hslashed
  · refine refers_counted.mpr fun n hn => refers_cons_ref.mpr ⟨?_, refers_nil⟩
    exact (hslashed n (mem_slashedNames_of_packages hn)).2
  · exact refers_cons_ref.mpr ⟨(hslashed m (mem_slashedNames_of_mainClass hm)).1, refers_nil⟩
  · exact refers_cons_ref.mpr ⟨(hplain t (mem_plainTexts_of_targetPlatform ht)).1, refers_nil⟩
  · have hrecorded : ∀ t ∈ h.algorithm :: h.hashes.keys, P (.text t) ∧ P (.moduleRef t) :=
      fun t ht => hplain t (mem_plainTexts_of_hashes hh ht)
    obtain ⟨halgorithm, hkeys⟩ := List.forall_mem_cons.mp hrecorded
    simp only [WrittenAttribute.ofHashes, Piece.ofHash, refers_cons_ref, refers_counted,
      refers_cons_number, refers_cons_raw]
    exact ⟨halgorithm.1, fun e he => ⟨(hkeys e.1 (List.mem_map_of_mem he)).2, refers_nil⟩⟩

/-- The names of attributes are short. -/
theorem length_encode_name (ha : a ∈ WrittenAttribute.ofDescriptor d) :
    (Utf8.encode a.name).length < 0x10000 := by
  have hshort : ∀ n ∈ ["Module", "ModulePackages", "ModuleMainClass", "ModuleTarget",
      "ModuleHashes"], (Utf8.encode n).length < 0x10000 := by decide
  refine hshort a.name ?_
  rcases mem_ofDescriptor ha with rfl | rfl | ⟨m, hm, rfl⟩ | ⟨t, ht, rfl⟩ | ⟨h, hh, rfl⟩
  · exact List.mem_cons_self
  all_goals simp [WrittenAttribute.ofPackages, WrittenAttribute.ofMainClass,
    WrittenAttribute.ofTarget, WrittenAttribute.ofHashes]

theorem Writable.poolFits (h : Writable d) :
    PoolFits (poolOf (WrittenAttribute.ofDescriptor d)) where
  named := fun _ hs => label_mem_poolOf hs
  slots := h.slots
  texts := by
    intro t ht
    obtain ⟨r, hr, rfl⟩ := referenced_of_text_mem_poolOf ht
    rcases hr with ⟨a, ha, hr | rfl⟩ | rfl
    · refine refers_ofDescriptor (P := fun s => (Utf8.encode s.label).length < 0x10000)
        ?_ ?_ ha r hr
      · intro t ht
        have hshort := h.texts t (List.mem_append_right _ ht)
        exact ⟨hshort, hshort⟩
      · intro n hn
        have hshort := h.texts n (List.mem_append_left _ hn)
        rw [← length_encode_replace] at hshort
        exact ⟨hshort, hshort⟩
    · exact length_encode_name ha
    · show (Utf8.encode "module-info").length < 0x10000
      decide

end

/-! ## The attributes of a descriptor -/

section
variable {d : ModuleDescriptor} {a : WrittenAttribute} {pool : List Symbol}

/-- What the `Module` attribute holds. -/
def directives (d : ModuleDescriptor) : ModuleDescriptor where
  name := d.name
  isOpen := d.isOpen
  version := d.version
  requires := d.requires
  exports := d.exports
  opens := d.opens
  uses := d.uses
  provides := d.provides

theorem isOpen_flag (isOpen : Bool) :
    (UInt16.ofNat (if isOpen then openBit.toNat else 0) &&& openBit != 0) = isOpen := by
  cases isOpen <;> decide

theorem reads_module (hpool : PoolFits pool) (h : Writable d)
    (hrefers : Refers (· ∈ pool) (WrittenAttribute.ofModule d).body) :
    ReadsPieces pool (Attribute.readModule (constantPoolOf pool))
      (WrittenAttribute.ofModule d).body (directives d) := by
  simp only [WrittenAttribute.ofModule, refers_append, refers_counted, refers_cons_ref,
    refers_cons_number, refers_cons_optionalText] at hrefers
  obtain ⟨⟨⟨⟨⟨⟨hname, hversion, -⟩, hrequires⟩, hexports⟩, hopens⟩, huses⟩, hprovides⟩ := hrefers
  obtain ⟨slot, hslot, htext⟩ := reads_optionalText hpool hversion
  have hflag : (if d.isOpen then openBit.toNat else 0) < 0x10000 := by
    split
    · decide
    · omega
  have hexport : ∀ e ∈ d.exports ++ d.opens, Refers (· ∈ pool) (Piece.ofExports e) →
      ReadsPieces pool (Attribute.readExports (constantPoolOf pool)) (Piece.ofExports e) e :=
    fun e he hr =>
      reads_exports hpool hr (h.dotted _ (source_mem_slashedNames he)) (h.targets e he)
  simp only [WrittenAttribute.ofModule, List.append_assoc, List.cons_append, List.nil_append]
  -- the three numbers in front are read before the first two are looked up
  refine .cons (reads_ref hpool hname) (.cons (reads_number hflag) (.cons hslot
    (.look (moduleName_slotOf hpool hname) (.look htext ?_))))
  refine .append (.counted h.requires fun r hr => reads_requires hpool (hrequires r hr)) ?_
  refine .append (.counted h.exports fun e he =>
    hexport e (List.mem_append_left _ he) (hexports e he)) ?_
  refine .append (.counted h.opens fun e he =>
    hexport e (List.mem_append_right _ he) (hopens e he)) ?_
  refine .append (reads_classes hpool (fun n hn => (refers_cons_ref.mp (huses n hn)).1)
    (fun n hn => h.dotted n (mem_slashedNames_of_uses hn)) h.uses) ?_
  refine .last (.counted h.provides fun p hp => reads_provides hpool (hprovides p hp)
    (fun n hn => h.dotted n (mem_slashedNames_of_provides hp hn)) (h.providers p hp)) ?_
  rw [isOpen_flag, NameSet.ofList_toList]
  exact .pure _

/-- The attributes that a descriptor is read as. -/
def attributesOf (d : ModuleDescriptor) : List Attribute :=
  .module (directives d) :: (if d.packages.isEmpty then [] else [.packages d.packages.toList]) ++
    (d.mainClass.map Attribute.mainClass).toList ++
    (d.targetPlatform.map fun t => Attribute.target (some t)).toList ++
    (d.hashes.map Attribute.hashes).toList

/-- The attributes say all of the descriptor, and make its visible packages held ones. -/
theorem assemble_attributesOf (d : ModuleDescriptor) :
    assemble (attributesOf d) =
      .ok { d with packages := d.packages.insertAll d.visiblePackages } := by
  have hset : d.packages.insertAll d.visiblePackages =
      NameSet.ofList (d.packages.toList ++ d.visiblePackages) := by
    rw [NameSet.ofList, NameSet.insertAll, NameSet.insertAll, List.foldl_append]
    exact congrArg (fun s => List.foldl NameSet.insert s _) d.packages.ofList_toList.symm
  rw [hset]
  obtain ⟨name, isOpen, version, requires, exports, opens, uses, provides, packages, mainClass,
    targetPlatform, hashes⟩ := d
  unfold attributesOf
  dsimp only
  split
  · next hempty =>
    rw [show packages.toList = [] from List.isEmpty_iff.mp hempty]
    cases mainClass <;> cases targetPlatform <;> cases hashes <;> rfl
  · -- the package lists of all attributes are joined, and there is only this one
    conv_rhs => rw [← List.append_nil packages.toList]
    cases mainClass <;> cases targetPlatform <;> cases hashes <;> rfl

theorem reads_packages (hpool : PoolFits pool) (h : Writable d)
    (hrefers : Refers (· ∈ pool) (WrittenAttribute.ofPackages d.packages).body) :
    ReadsPieces pool (Reader.counted (Attribute.indexed (constantPoolOf pool).packageName))
      (WrittenAttribute.ofPackages d.packages).body d.packages.toList := by
  refine reads_references hpool h.packages fun n hn => ?_
  have hs := (refers_cons_ref.mp (refers_counted.mp hrefers n hn)).1
  have hslash := h.dotted n (mem_slashedNames_of_packages hn)
  exact ⟨hs, packageName_slotOf hpool hs hslash⟩

theorem reads_mainClass (hpool : PoolFits pool) {name : String}
    (hslash : '/' ∉ name.toList)
    (hrefers : Refers (· ∈ pool) (WrittenAttribute.ofMainClass name).body) :
    ReadsPieces pool (Attribute.indexed (constantPoolOf pool).className)
      (WrittenAttribute.ofMainClass name).body name := by
  have hs := (refers_cons_ref.mp hrefers).1
  have hread := reads_indexed hpool hs (className_slotOf hpool hs hslash)
  rwa [← List.flatMap_singleton (encodePiece pool)] at hread

theorem reads_target (hpool : PoolFits pool) {platform : String}
    (hrefers : Refers (· ∈ pool) (WrittenAttribute.ofTarget platform).body) :
    ReadsPieces pool (Attribute.indexed (constantPoolOf pool).text?)
      (WrittenAttribute.ofTarget platform).body (some platform) := by
  have hs := (refers_cons_ref.mp hrefers).1
  have hread := reads_indexed hpool hs (text?_slotOf hs)
  rwa [← List.flatMap_singleton (encodePiece pool)] at hread

/-- With a pool that holds what it refers to, the attribute is read as another. -/
def ReadAs (pool : List Symbol) (a : WrittenAttribute) (x : Attribute) : Prop :=
  Refers (· ∈ pool) a.body →
    ReadsPieces pool (Attribute.readBody (constantPoolOf pool) a.name) a.body x

theorem readAs_ofDescriptor (hpool : PoolFits pool) (h : Writable d) :
    List.Forall₂ (ReadAs pool) (WrittenAttribute.ofDescriptor d) (attributesOf d) := by
  have hpackages : List.Forall₂ (ReadAs pool)
      (if d.packages.isEmpty then [] else [.ofPackages d.packages])
      (if d.packages.isEmpty then [] else [.packages d.packages.toList]) := by
    split
    · exact .nil
    · exact .cons (fun hrefers => (reads_packages hpool h hrefers).last (.pure _)) .nil
  refine List.rel_append (List.rel_append (List.rel_append (.cons ?_ hpackages) ?_) ?_) ?_
  · exact fun hrefers => (reads_module hpool h hrefers).last (.pure _)
  · cases hm : d.mainClass with
    | none => exact .nil
    | some name =>
      have hslash := h.dotted name (mem_slashedNames_of_mainClass hm)
      exact .cons (fun hrefers => (reads_mainClass hpool hslash hrefers).last (.pure _)) .nil
  · cases d.targetPlatform with
    | none => exact .nil
    | some platform =>
      exact .cons (fun hrefers => (reads_target hpool hrefers).last (.pure _)) .nil
  · cases hh : d.hashes with
    | none => exact .nil
    | some r =>
      refine .cons (fun hrefers => ReadsPieces.last ?_ (.pure _)) .nil
      exact reads_hashes hpool hrefers (h.hashes r hh) (h.hashLengths r hh)

theorem reads_attribute (hpool : PoolFits pool) {x : Attribute}
    (hname : .text a.name ∈ pool)
    (hlength : (a.body.flatMap (encodePiece pool)).length < 0x100000000)
    (hbody : ReadsPieces pool (Attribute.readBody (constantPoolOf pool) a.name) a.body x) :
    Reads (Attribute.read (constantPoolOf pool)) (encodeAttribute pool a) x := by
  rw [encodeAttribute, List.append_assoc]
  refine (reads_ref hpool hname).bind ((Reads.u4 hlength).bind
    (.look (.ofExcept (text_slotOf hname)) ((Reads.slice _).last (.ofExcept ?_))))
  rw [Reads.run_eq hbody]
  rfl

theorem reads_attributes (h : Writable d) :
    Reads (Reader.counted
        (Attribute.read (constantPoolOf (poolOf (WrittenAttribute.ofDescriptor d)))))
      (encodeU2 (WrittenAttribute.ofDescriptor d).length ++
        (WrittenAttribute.ofDescriptor d).flatMap
          (encodeAttribute (poolOf (WrittenAttribute.ofDescriptor d)))) (attributesOf d) := by
  refine Reads.counted _ (Nat.lt_of_le_of_lt (length_ofDescriptor_le d) (by decide)) ?_
  obtain ⟨hlength, hread⟩ := List.forall₂_iff_zip.mp (readAs_ofDescriptor h.poolFits h)
  refine List.forall₂_iff_zip.mpr ⟨hlength, fun {a x} hax => ?_⟩
  have ha := (List.of_mem_zip hax).1
  exact reads_attribute h.poolFits (name_mem_poolOf ha) (h.bodies a ha)
    (hread hax (refers_poolOf ha))

/-! ## The whole file -/

theorem reads_header (hpool : PoolFits pool) :
    Reads readHeader (encodeU4 magic ++ (encodeU2 0 ++ (encodeU2 moduleVersion ++
      ((encodeU2 (pool.length + 1) ++ pool.flatMap (encodeSymbol pool)) ++
      (encodeU2 moduleFlags ++ (encodeU2 (slotOf pool thisClass) ++ (encodeU2 0 ++
      (encodeU2 0 ++ (encodeU2 0 ++ encodeU2 0))))))))) (constantPoolOf pool) := by
  have hmagic : Reads Reader.u4 (encodeU4 magic) magic := Reads.u4 (by decide)
  have hu2 : ∀ n, Reads (Reader.skip 2) (encodeU2 n) () := fun n =>
    .skip (Binary.length_toBigEndian 2 n)
  unfold readHeader
  refine hmagic.bind ?_
  dsimp only
  rw [if_neg (not_not_intro rfl)]
  exact (hu2 0).bind ((hu2 _).bind ((reads_constantPool hpool).bind ((hu2 _).bind ((hu2 _).bind
    ((hu2 0).bind ((Reads.counted_nil _).bind ((Reads.counted_nil _).bind
      ((Reads.counted_nil _).last (.pure _)))))))))

end

/-- **Decoding undoes encoding**, except that visible packages become held ones. -/
theorem parseModuleInfo_encodeModuleInfo (d : ModuleDescriptor) (h : Writable d) :
    parseModuleInfo (encodeModuleInfo d) =
      .ok { d with packages := d.packages.insertAll d.visiblePackages } := by
  have hread : Reads readModuleInfo _ _ := (reads_header h.poolFits).bind
    ((reads_attributes h).last (.ofExcept (assemble_attributesOf d)))
  rw [parseModuleInfo, encodeModuleInfo, encodeAttributes]
  simp only [List.append_assoc] at hread ⊢
  rw [hread.run_eq]
  rfl

/-- A descriptor with something in each of its parts. -/
def codecDescriptor : ModuleDescriptor where
  name := "shop.codec"
  isOpen := true
  version := some "2.1"
  requires := [{ name := "java.base", modifiers := { mandated := true }, compiledVersion := "21" },
    { name := "shop.model", modifiers := { transitive := true, isStatic := true } }]
  exports := [{ source := "shop.codec.api", targets := ⟨["shop.app", "shop.web"], by decide⟩ }]
  opens := [{ source := "shop.codec.db" }]
  uses := ⟨["shop.spi.Codec"], by decide⟩
  provides := [{ service := "shop.spi.Codec", providers := ["shop.codec.Fast", "shop.codec.Safe"] }]
  packages := ⟨["shop.codec", "shop.codec.api"], by decide⟩
  mainClass := some "shop.codec.Main"
  targetPlatform := some "linux-amd64"
  hashes := some { algorithm := "SHA-256", hashes := ⟨[("shop.app", [7, 1, 9])], by decide⟩ }

theorem writable_codecDescriptor : Writable codecDescriptor where
  requires := by decide
  exports := by decide
  opens := by decide
  targets := by decide
  uses := by decide
  provides := by decide
  providers := by decide
  packages := by decide
  hashes := by decide
  hashLengths := by decide
  texts := by decide
  dotted := by decide
  slots := by decide +kernel
  bodies := by decide

theorem parseModuleInfo_codecDescriptor :
    Writable codecDescriptor ∧ parseModuleInfo (encodeModuleInfo codecDescriptor) =
      .ok { codecDescriptor with
        packages := ⟨["shop.codec", "shop.codec.api", "shop.codec.db"], by decide⟩ } := by
  have hpackages : codecDescriptor.packages.insertAll codecDescriptor.visiblePackages =
      ⟨["shop.codec", "shop.codec.api", "shop.codec.db"], by decide⟩ := by decide
  refine ⟨writable_codecDescriptor, ?_⟩
  rw [parseModuleInfo_encodeModuleInfo codecDescriptor writable_codecDescriptor, hpackages]

end ClassFile
end ModuleAtlas
