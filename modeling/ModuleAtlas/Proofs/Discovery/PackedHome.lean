import ModuleAtlas.Proofs.Discovery.HomeContent
import ModuleAtlas.Proofs.Image.RoundTrip

/-! # Packed homes

A packed home has its modules in a runtime image.  It opens if the descriptors in the image can be
read, each module declares its sanitized descriptor, and the readers of the modules read from the
image (`PackedHome.openHome_spec`).
-/
namespace ModuleAtlas

/-- The image of a packed home opens, and its modules hold some contents. -/
structure PackedHome (tree : FileTree) (home : Path) (holds : HomeContent) : Prop where
  opens : ∀ handle, ∃ image,
    RuntimeImage.openFile tree handle (Platform.packedFile home) = .ok image ∧
      ∀ m e, image.read {} m e = .ok (holds m e)

namespace RuntimeImage

/-- Reading finds something exactly for the entries of the module. -/
theorem mem_entries_iff_of_read {image : RuntimeImage} {closed : Closed} {m e : String}
    {content : Option Bytes} (h : image.read closed m e = .ok content) :
    e ∈ image.entries m ↔ ∃ bytes, content = some bytes := by
  rw [← contains_iff, contains]
  cases hfind : image.find? m e with
  | none =>
    rw [read, hfind] at h
    obtain rfl : none = content := Except.ok.inj h
    simp
  | some location =>
    refine iff_of_true rfl ?_
    rw [read, hfind] at h
    dsimp only at h
    split at h
    · cases h
    · split at h
      · cases h
      · obtain ⟨bytes, -, hbytes⟩ := Steps.map_eq_ok_iff.mp h
        exact ⟨bytes, hbytes.symm⟩

theorem hasModule_of_mem_entries {image : RuntimeImage} {m e : String} (h : e ∈ image.entries m) :
    image.hasModule m = true := by
  unfold hasModule OrderedMap.contains
  cases hfind : image.modules.find? m with
  | none =>
    rw [entries, hfind] at h
    exact absurd h List.not_mem_nil
  | some entries => rfl

end RuntimeImage

/-- What a module of an image declares, as it is catalogued. -/
def packedShape (image : RuntimeImage) (m : String) (d : ModuleDescriptor) : ModuleDescriptor :=
  (d.extendPackages (image.entries m)).sanitized

section
variable {image : RuntimeImage} {holds : HomeContent}
  (hholds : ∀ m e, image.read {} m e = .ok (holds m e))
include hholds

theorem readBy_packed (m : String) :
    holds.ReadBy (packedShape image) (Platform.readPacked image) m where
  absent h := by
    rw [Platform.readPacked, hholds, h]
    rfl
  present bytes d h hd := by
    rw [Platform.readPacked, hholds, h]
    dsimp only
    rw [hd]
    rfl
  broken bytes e h he := by
    rw [Platform.readPacked, hholds, h]
    dsimp only
    rw [he]
    exact ⟨_, rfl⟩

theorem mem_moduleNames_of_holds {m e : String} {bytes : Bytes} (h : holds m e = some bytes) :
    m ∈ image.moduleNames := by
  have hentry : e ∈ image.entries m :=
    (RuntimeImage.mem_entries_iff_of_read (hholds m e)).mpr ⟨bytes, h⟩
  exact OrderedMap.contains_iff.mp (RuntimeImage.hasModule_of_mem_entries hentry)

theorem offers_ofModule (tree : FileTree) (handle : Handle) (m : String) :
    (EntryReader.ofModule handle image m).Offers tree (holds m) := by
  refine .of_readListed (OrderedMap.distinct _)
    (fun e => RuntimeImage.mem_entries_iff_of_read (hholds m e)) fun e _ => ?_
  unfold EntryReader.ofModule EntryReader.readListed
  dsimp only
  rw [hholds]
  rfl

end

namespace PackedHome
variable {tree : FileTree} {home : Path} {holds : HomeContent}

/-- A home with a written image holds the resources that were written. -/
theorem of_write {order : Binary.ByteOrder} {resources : List Image.NewResource}
    (h : Image.Writable order resources)
    (hfile : tree.status (Platform.packedFile home) = .ok (.file (Image.write order resources))) :
    PackedHome tree home fun m e =>
      (Image.lastAdded resources m e).map Image.NewResource.content where
  opens handle := ⟨_, Image.openFile_eq h hfile handle, fun m e => Image.read_imageOf h _ rfl m e⟩

theorem openHome_eq (h : PackedHome tree home holds) (handle : Handle) :
    Platform.openHome tree handle home =
      Platform.openPacked tree handle home (Platform.packedFile home) := by
  obtain ⟨image, hopen, -⟩ := h.opens handle
  have hfile : tree.isFile (Platform.packedFile home) = true := by
    unfold FileTree.isFile
    unfold RuntimeImage.openFile at hopen
    cases hstatus : tree.status (Platform.packedFile home) with
    | error e => rw [hstatus] at hopen; cases hopen
    | ok node =>
      rw [hstatus] at hopen
      cases node with
      | file content => rfl
      | link target => cases hopen
      | folder inner => cases hopen
  rw [Platform.openHome, if_pos hfile]

/-- A packed home opens if its descriptors can be read, and then it offers what it holds. -/
theorem openHome_spec (h : PackedHome tree home holds) (hnamed : holds.Named) (handle : Handle) :
    ∃ entries : String → List String,
      (∀ m e, e ∈ entries m ↔ ∃ bytes, holds m e = some bytes) ∧
      ((∃ p, Platform.openHome tree handle home = .ok p) ↔ holds.Readable) ∧
      ∀ p, Platform.openHome tree handle home = .ok p →
        p.Offers tree holds fun m d => (d.extendPackages (entries m)).sanitized := by
  obtain ⟨image, hopen, hholds⟩ := h.opens handle
  have hcollect : Platform.openHome tree handle home =
      (Catalog.collect (Platform.readPacked image) .empty image.moduleNames).map fun units =>
        { home := some home, source := .packed image, units } := by
    rw [h.openHome_eq, Platform.openPacked, hopen]
    dsimp only
    rw [Catalog.catalogPacked_eq_collect]
    rfl
  refine ⟨image.entries, fun m e => RuntimeImage.mem_entries_iff_of_read (hholds m e),
    Platform.opens_of_collect hcollect (fun m _ => readBy_packed hholds m)
      (fun m bytes hm => mem_moduleNames_of_holds hholds hm) image.modules.distinct hnamed
      (fun m d => rfl) (fun c => rfl) fun c m e bytes hm handle => ?_⟩
  refine ⟨EntryReader.ofModule handle image m, ?_, offers_ofModule hholds tree handle m⟩
  have hmodule : image.hasModule m = true :=
    OrderedMap.contains_iff.mpr (mem_moduleNames_of_holds hholds hm)
  rw [Platform.classReader]
  exact if_pos hmodule

end PackedHome

end ModuleAtlas
