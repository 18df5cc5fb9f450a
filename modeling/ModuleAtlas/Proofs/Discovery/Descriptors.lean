import ModuleAtlas.ClassFile.ModuleInfo
import ModuleAtlas.Proofs.Steps

/-! # The part of a descriptor that analysis needs

Adding the packages of entries depends on which entries there are, not on their order
(`extendPackages_congr`).  A descriptor that was read from a class file holds the packages that it
exports or opens, so sanitizing it leaves its packages alone (`packages_sanitized`).  Sanitizing any
descriptor again takes nothing away (`sanitized_sanitized`), and the packages of entries may be added
before it or after it (`sanitized_extendPackages`).
-/
namespace ModuleAtlas

namespace ModuleDescriptor

theorem mem_packagesOfEntries_iff {entries : List String} {p : String} :
    p ∈ packagesOfEntries entries ↔
      ∃ e ∈ entries, EntryName.isModuleClass e = true ∧ EntryName.package e = p ∧ p ≠ "" := by
  unfold packagesOfEntries
  rw [List.mem_filter, List.mem_map, decide_eq_true_iff]
  constructor
  · rintro ⟨⟨e, he, hp⟩, hne⟩
    obtain ⟨hentry, hclass⟩ := List.mem_filter.mp he
    exact ⟨e, hentry, hclass, hp, hne⟩
  · rintro ⟨e, hentry, hclass, hp, hne⟩
    exact ⟨⟨e, List.mem_filter.mpr ⟨hentry, hclass⟩, hp⟩, hne⟩

theorem extendPackages_congr (d : ModuleDescriptor) {entries entries' : List String}
    (h : ∀ e, e ∈ entries ↔ e ∈ entries') :
    d.extendPackages entries = d.extendPackages entries' := by
  have hpackages : d.packages.insertAll (packagesOfEntries entries) =
      d.packages.insertAll (packagesOfEntries entries') := by
    refine NameSet.ext_mem fun p => ?_
    simp only [NameSet.mem_insertAll, mem_packagesOfEntries_iff, h]
  exact congrArg (fun packages => { d with packages }) hpackages

/-- Whether the packages that are exported or opened are held. -/
def HoldsVisible (d : ModuleDescriptor) : Prop := ∀ p ∈ d.visiblePackages, p ∈ d.packages

theorem packages_sanitized {d : ModuleDescriptor} (h : d.HoldsVisible) :
    d.sanitized.packages = d.packages := by
  refine NameSet.ext_mem fun p => ?_
  exact NameSet.mem_insertAll.trans ⟨fun hp => hp.elim (h p) id, Or.inr⟩

theorem HoldsVisible.extendPackages {d : ModuleDescriptor} (h : d.HoldsVisible)
    (entries : List String) : (d.extendPackages entries).HoldsVisible :=
  fun p hp => NameSet.mem_insertAll.mpr (Or.inr (h p hp))

theorem sanitized_sanitized (d : ModuleDescriptor) : d.sanitized.sanitized = d.sanitized := by
  have hholds : d.sanitized.HoldsVisible := by
    intro p hp
    -- it opens nothing
    have hvisible : d.sanitized.visiblePackages = d.exports.map Exports.source := List.append_nil _
    rw [hvisible] at hp
    exact NameSet.mem_insertAll.mpr (.inl (List.mem_append_left _ hp))
  exact congrArg (fun packages => { d.sanitized with packages }) (packages_sanitized hholds)

/-- What is visible and what is found in entries join the packages in either order. -/
theorem sanitized_extendPackages (d : ModuleDescriptor) (entries : List String) :
    (d.extendPackages entries).sanitized = d.sanitized.extendPackages entries := by
  have hpackages : (d.packages.insertAll (packagesOfEntries entries)).insertAll d.visiblePackages =
      (d.packages.insertAll d.visiblePackages).insertAll (packagesOfEntries entries) := by
    refine NameSet.ext_mem fun p => ?_
    simp only [NameSet.mem_insertAll]
    exact or_left_comm
  exact congrArg (fun packages => { d.sanitized with packages }) hpackages

/-- A descriptor that may have been sanitized. -/
inductive MaybeSanitized (d : ModuleDescriptor) : ModuleDescriptor → Prop
  /-- It is as it was. -/
  | kept : MaybeSanitized d d
  /-- It was sanitized. -/
  | sanitized : MaybeSanitized d d.sanitized

namespace MaybeSanitized
variable {d d' : ModuleDescriptor} (h : d.MaybeSanitized d')
include h

theorem name_eq : d.name = d'.name := by
  cases h <;> rfl

theorem requires_eq : d.requires = d'.requires := by
  cases h <;> rfl

end MaybeSanitized
end ModuleDescriptor

namespace ClassFile

theorem holdsVisible_of_assemble {attributes : List Attribute} {d : ModuleDescriptor}
    (h : assemble attributes = .ok d) : d.HoldsVisible := by
  unfold assemble at h
  split at h
  · cases h
  · obtain rfl := Except.ok.inj h
    exact fun p hp => NameSet.mem_ofList.mpr (List.mem_append_right _ hp)

/-- A descriptor that is read holds what it exports and opens. -/
theorem holdsVisible_of_parseModuleInfo {bytes : Bytes} {d : ModuleDescriptor}
    (h : parseModuleInfo bytes = .ok d) : d.HoldsVisible := by
  obtain ⟨⟨parsed, rest⟩, hrun, rfl⟩ := Steps.map_eq_ok_iff.mp h
  obtain ⟨⟨pool, afterHeader⟩, -, hrun⟩ := Steps.bind_eq_ok_iff.mp hrun
  obtain ⟨⟨attributes, afterAttributes⟩, -, hrun⟩ := Steps.bind_eq_ok_iff.mp hrun
  obtain ⟨assembled, hassemble, he⟩ := Steps.map_eq_ok_iff.mp hrun
  obtain ⟨rfl, -⟩ := Prod.mk.inj he
  exact holdsVisible_of_assemble hassemble

end ClassFile
end ModuleAtlas
