import ModuleAtlas.Proofs.ClassFile.Reading
import ModuleAtlas.Proofs.Steps

/-! # What a reader consumes

A reader sees its input from the front only, and of that only the bytes it takes.  What it says of
some bytes it therefore says of them with anything behind: it gives the same value, or it fails for
the same reason, unless it fails because the bytes end too early (`Forward`).  This holds of the
fields of a class file and is kept by everything that readers are put together with, loops whose
length stands in the file included.  An attribute is read from a part of the file that has been cut
out before, so nothing has to be known of how its body is decoded.

Two facts follow for every such reader.  An answer other than "too early" is final
(`Forward.value_append`).  And when there is a value, the bytes that were taken decide it: every
shorter part of the input ends too early, and every longer part gives the same value
(`Forward.value_take`), since a reader that were content with less would have left more.

**A class file is decided by its front part up to the last attribute**
(`parseModuleInfo_append_take`).
-/
namespace ModuleAtlas.ClassFile
open Steps

/-- What the reader says of some bytes it says of them whatever follows, unless it asks for more. -/
structure Forward {α : Type} (read : Reader α) : Prop where
  /-- A value is read from a front part of the bytes. -/
  reads : ∀ {bytes a rest}, read.run bytes = .ok (a, rest) →
    ∃ front, bytes = front ++ rest ∧ Reads read front a
  /-- A failure does not go away. -/
  fails : ∀ {bytes e}, read.run bytes = .error e → e ≠ .unexpectedEnd →
    ∀ more, read.run (bytes ++ more) = .error e

theorem run_slice_eq_ok_iff {n : Nat} {bytes part rest : Bytes} :
    (Reader.slice n).run bytes = .ok (part, rest) ↔ part.length = n ∧ bytes = part ++ rest := by
  constructor
  · intro h
    change Reader.slice n bytes = _ at h
    rw [Reader.slice, Binary.take?_eq] at h
    by_cases hn : n ≤ bytes.length
    · rw [if_pos hn] at h
      obtain ⟨rfl, rfl⟩ := Prod.mk.inj (Except.ok.inj h)
      exact ⟨List.length_take_of_le hn, (List.take_append_drop n bytes).symm⟩
    · rw [if_neg hn] at h
      cases h
  · rintro ⟨rfl, rfl⟩
    exact Reads.slice part rest

/-- The value of a reader, whatever it leaves. -/
def valueOn {α : Type} (read : Reader α) (bytes : Bytes) : Except DescriptorError α :=
  (read.run bytes).map Prod.fst

namespace Forward
variable {α β : Type} {read : Reader α} {next : α → Reader β}

/-! ## Putting readers together -/

theorem pure (a : α) : Forward (Pure.pure a : Reader α) where
  reads := by
    rintro bytes a' rest h
    obtain ⟨rfl, rfl⟩ := Prod.mk.inj (Except.ok.inj h)
    exact ⟨[], rfl, .pure a⟩
  fails := by
    intro bytes e h
    cases h

theorem throw (e : DescriptorError) : Forward (MonadExcept.throw e : Reader α) where
  reads := by
    intro bytes a rest h
    cases h
  fails := by
    intro bytes e' h _ more
    obtain rfl := Except.error.inj h
    rfl

theorem ofExcept (e : Except DescriptorError α) : Forward (Reader.ofExcept e) := by
  cases e with
  | ok a => exact pure a
  | error e => exact throw e

theorem bind (hread : Forward read) (hnext : ∀ a, Forward (next a)) : Forward (read >>= next) where
  reads := by
    intro bytes b rest h
    rw [StateT.run_bind] at h
    obtain ⟨⟨a, middle⟩, ha, hb⟩ := bind_eq_ok_iff.mp h
    obtain ⟨front, rfl, hfront⟩ := hread.reads ha
    obtain ⟨back, rfl, hback⟩ := (hnext a).reads hb
    exact ⟨front ++ back, (List.append_assoc _ _ _).symm, hfront.bind hback⟩
  fails := by
    intro bytes e h hne more
    rw [StateT.run_bind] at h ⊢
    cases hrun : read.run bytes with
    | error e' =>
      rw [hrun] at h
      obtain rfl := Except.error.inj h
      rw [hread.fails hrun hne more]
      rfl
    | ok p =>
      obtain ⟨a, middle⟩ := p
      rw [hrun] at h
      obtain ⟨front, rfl, hfront⟩ := hread.reads hrun
      rw [List.append_assoc, hfront (middle ++ more)]
      exact (hnext a).fails h hne more

/-! ## Fields -/

theorem slice (n : Nat) : Forward (Reader.slice n) where
  reads := by
    intro bytes part rest h
    obtain ⟨rfl, rfl⟩ := run_slice_eq_ok_iff.mp h
    exact ⟨part, rfl, .slice part⟩
  fails := by
    intro bytes e h hne
    change Reader.slice n bytes = _ at h
    rw [Reader.slice, Binary.take?_eq] at h
    by_cases hn : n ≤ bytes.length
    · rw [if_pos hn] at h
      cases h
    · rw [if_neg hn] at h
      exact absurd (Except.error.inj h).symm hne

theorem u1 : Forward Reader.u1 where
  reads := by
    intro bytes a rest h
    cases bytes with
    | nil => cases h
    | cons b bytes =>
      obtain ⟨rfl, rfl⟩ := Prod.mk.inj (Except.ok.inj h)
      exact ⟨[b], rfl, .u1 b⟩
  fails := by
    intro bytes e h hne
    cases bytes with
    | nil => exact absurd (Except.error.inj h).symm hne
    | cons b bytes => cases h

theorem u2 : Forward Reader.u2 := (slice 2).bind fun _ => pure _

theorem u4 : Forward Reader.u4 := (slice 4).bind fun _ => pure _

theorem skip (n : Nat) : Forward (Reader.skip n) := (slice n).bind fun _ => pure _

/-! ## Repetition -/

theorem times (hread : Forward read) (n : Nat) : Forward (Reader.times read n) := by
  induction n with
  | zero => exact pure []
  | succ n ih => exact hread.bind fun _ => ih.bind fun _ => pure _

theorem counted (hread : Forward read) : Forward (Reader.counted read) := u2.bind (times hread)

/-! ## Values -/

section
variable {bytes front rest : Bytes} {a : α}

/-- An answer other than that the bytes end too early is final. -/
theorem value_append (hread : Forward read) (hne : valueOn read bytes ≠ .error .unexpectedEnd)
    (more : Bytes) : valueOn read (bytes ++ more) = valueOn read bytes := by
  unfold valueOn at hne ⊢
  cases hrun : read.run bytes with
  | ok p =>
    obtain ⟨a, rest⟩ := p
    obtain ⟨front, rfl, hfront⟩ := hread.reads hrun
    rw [List.append_assoc, hfront (rest ++ more)]
    rfl
  | error e =>
    rw [hrun] at hne
    have he : e ≠ .unexpectedEnd := fun he => hne (congrArg Except.error he)
    rw [hread.fails hrun he more]

/-- A reader is not content with less than it takes. -/
theorem value_take (hread : Forward read) (hfront : Reads read front a) {k : Nat}
    (hk : k < front.length) : valueOn read ((front ++ rest).take k) = .error .unexpectedEnd := by
  have hwhole := hfront rest
  rw [← List.take_append_drop k (front ++ rest)] at hwhole
  unfold valueOn
  cases hrun : read.run ((front ++ rest).take k) with
  | ok p =>
    obtain ⟨a', left⟩ := p
    obtain ⟨taken, htaken, hreads⟩ := hread.reads hrun
    rw [htaken, List.append_assoc, hreads] at hwhole
    -- everything behind the short part would be left over, which is more than the rest
    have hrest : left ++ (front ++ rest).drop k = rest := (Prod.mk.inj (Except.ok.inj hwhole)).2
    have hlength := congrArg List.length hrest
    rw [List.length_append, List.length_drop, List.length_append] at hlength
    omega
  | error e =>
    by_cases he : e = .unexpectedEnd
    · rw [he]
      rfl
    · rw [hread.fails hrun he] at hwhole
      cases hwhole

end

end Forward

/-- A reader is content with what it takes. -/
theorem Reads.value_take {α : Type} {read : Reader α} {front : Bytes} {a : α}
    (h : Reads read front a) (rest : Bytes) {k : Nat} (hk : front.length ≤ k) :
    valueOn read ((front ++ rest).take k) = .ok a := by
  rw [List.take_append, List.take_of_length_le hk, valueOn, h]
  rfl

/-! ## Class files -/

theorem forward_constant : Forward Constant.read := by
  unfold Constant.read
  refine Forward.u1.bind fun tag => ?_
  split
  · refine Forward.u2.bind fun length => (Forward.slice length).bind fun bytes => ?_
    split
    · exact .pure _
    · exact .throw _
  all_goals first
    | exact (Forward.skip _).bind fun _ => .pure _
    | exact Forward.u2.bind fun _ => .pure _
    | exact .throw _

theorem forward_slots (n : Nat) : Forward (ConstantPool.readSlots n) := by
  induction n using ConstantPool.readSlots.induct with
  | case1 => exact .pure []
  | case2 => exact forward_constant.bind fun _ => .pure _
  | case3 n hwide hnarrow =>
    rw [ConstantPool.readSlots]
    refine forward_constant.bind fun c => ?_
    split
    · exact hwide.bind fun _ => .pure _
    · exact hnarrow.bind fun _ => .pure _

theorem forward_constantPool : Forward ConstantPool.read :=
  Forward.u2.bind fun count => (forward_slots (count - 1)).bind fun _ => .pure _

/-- The body is cut out before it is looked at. -/
theorem forward_attribute (pool : ConstantPool) : Forward (Attribute.read pool) :=
  Forward.u2.bind fun _ => Forward.u4.bind fun length => (Forward.ofExcept _).bind fun _ =>
    (Forward.slice length).bind fun _ => .ofExcept _

theorem forward_skipAttribute : Forward skipAttribute :=
  (Forward.skip 2).bind fun _ => Forward.u4.bind .skip

theorem forward_skipMember : Forward skipMember :=
  (Forward.skip 6).bind fun _ => forward_skipAttribute.counted.bind fun _ => .pure _

theorem forward_header : Forward readHeader := by
  unfold readHeader
  refine Forward.u4.bind fun mark => ?_
  dsimp only
  split
  · exact .throw _
  · exact (Forward.skip 2).bind fun _ => (Forward.skip 2).bind fun _ =>
      forward_constantPool.bind fun _ => (Forward.skip 2).bind fun _ =>
      (Forward.skip 2).bind fun _ => (Forward.skip 2).bind fun _ =>
      (Forward.skip 2).counted.bind fun _ => forward_skipMember.counted.bind fun _ =>
      forward_skipMember.counted.bind fun _ => .pure _

theorem forward_moduleInfo : Forward readModuleInfo :=
  forward_header.bind fun pool => (forward_attribute pool).counted.bind fun _ => .ofExcept _

/-- **A class file is decided by its front part up to the last attribute.**  An answer other than
that the file ends too early stays the same whatever is put behind the file.  A descriptor is read
from the first `n` bytes: with fewer of them the file ends too early, and the others make no
difference. -/
theorem parseModuleInfo_append_take (bytes : Bytes) :
    (parseModuleInfo bytes ≠ .error .unexpectedEnd →
      ∀ more, parseModuleInfo (bytes ++ more) = parseModuleInfo bytes) ∧
    ∀ d, parseModuleInfo bytes = .ok d →
      ∃ n ≤ bytes.length, Reads readModuleInfo (bytes.take n) d ∧
        (∀ k < n, parseModuleInfo (bytes.take k) = .error .unexpectedEnd) ∧
          ∀ k, n ≤ k → parseModuleInfo (bytes.take k) = .ok d := by
  refine ⟨forward_moduleInfo.value_append, fun d hd => ?_⟩
  obtain ⟨⟨d', rest⟩, hrun, rfl⟩ := map_eq_ok_iff.mp hd
  obtain ⟨front, rfl, hfront⟩ := forward_moduleInfo.reads hrun
  refine ⟨front.length, ?_, ?_, ?_, ?_⟩
  · rw [List.length_append]
    omega
  · rw [List.take_left]
    exact hfront
  · intro k hk
    exact forward_moduleInfo.value_take hfront hk
  · intro k hk
    exact hfront.value_take rest hk

/-- The descriptor of a small module. -/
def lampDescriptor : ModuleDescriptor where
  name := "lamp"
  requires := [{ name := "base", modifiers := { mandated := true } }]

/-- Its class file, with two bytes behind it. -/
def lampFile : Bytes := encodeModuleInfo lampDescriptor ++ [0xCA, 0xFE]

theorem parse_lampFile : parseModuleInfo lampFile = .ok lampDescriptor := by
  decide

/-- A file with another mark is none, however it goes on; and the class file of the small module
has a length up to which it ends too early and from which on it is the module's. -/
theorem parseModuleInfo_append_take_lamp :
    (parseModuleInfo [0, 1, 2, 3] ≠ .error .unexpectedEnd ∧
      ∀ more, parseModuleInfo ([0, 1, 2, 3] ++ more) = .error .invalidMagic) ∧
    (parseModuleInfo lampFile = .ok lampDescriptor ∧
      ∃ n ≤ lampFile.length, Reads readModuleInfo (lampFile.take n) lampDescriptor ∧
        (∀ k < n, parseModuleInfo (lampFile.take k) = .error .unexpectedEnd) ∧
          ∀ k, n ≤ k → parseModuleInfo (lampFile.take k) = .ok lampDescriptor) := by
  have hmark : parseModuleInfo [0, 1, 2, 3] = .error .invalidMagic := by decide
  have hfinal : parseModuleInfo [0, 1, 2, 3] ≠ .error .unexpectedEnd := by decide
  refine ⟨⟨hfinal, fun more => ?_⟩, parse_lampFile, ?_⟩
  · rw [(parseModuleInfo_append_take [0, 1, 2, 3]).1 hfinal more, hmark]
  · exact (parseModuleInfo_append_take lampFile).2 lampDescriptor parse_lampFile

end ModuleAtlas.ClassFile
