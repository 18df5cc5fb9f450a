import ModuleAtlas.Proofs.Discovery.DefaultRoots
import ModuleAtlas.Proofs.Discovery.Descriptors
import ModuleAtlas.Proofs.Discovery.ExplodedHome
import ModuleAtlas.Proofs.Discovery.PackedHome

/-! # Platforms that agree

A platform that is packed and one that is exploded agree if for each name the one has the sanitized
descriptor of the other, and if their readers list and read the same (`Platform.Agrees`).  The order
of discovery is left open: the descriptors of the one are a permutation of the sanitized descriptors
of the other (`Agrees.perm_descriptors`), and this is all that default roots depend on
(`Agrees.perm_defaultRoots`).

Homes that hold the same contents give rise to platforms that agree (`agrees_of_offers`).
-/
namespace ModuleAtlas

theorem perm_distinct {l m : List String} (h : l.Perm m) : (distinct l).Perm (distinct m) := by
  refine (List.perm_ext_iff_of_nodup (nodup_distinct l) (nodup_distinct m)).mpr fun x => ?_
  rw [mem_distinct, mem_distinct]
  exact h.mem_iff

/-! ## Default roots -/

/-- Sanitizing keeps the name and the exports, which are all that default roots depend on. -/
theorem ModuleDescriptor.MaybeSanitized.sameOffer {d d' : ModuleDescriptor}
    (h : d.MaybeSanitized d') : d.SameOffer d' := by
  cases h <;> exact ⟨rfl, rfl⟩

theorem defaultRoots_of_forall₂ {family family' : List ModuleDescriptor}
    (h : List.Forall₂ ModuleDescriptor.MaybeSanitized family family') (aggregator : String) :
    defaultRoots family aggregator = defaultRoots family' aggregator :=
  defaultRoots_congr (h.imp fun _ _ hd => hd.sameOffer) aggregator

theorem defaultRoots_sanitized (modules : List ModuleDescriptor) (aggregator : String) :
    defaultRoots (modules.map ModuleDescriptor.sanitized) aggregator =
      defaultRoots modules aggregator := by
  refine (defaultRoots_of_forall₂ (List.forall₂_map_right_iff.mpr ?_) aggregator).symm
  exact List.forall₂_same.mpr fun _ _ => .sanitized

theorem perm_defaultRoots_of_perm {l m : List ModuleDescriptor} (h : l.Perm m)
    (aggregator : String) : (defaultRoots l aggregator).Perm (defaultRoots m aggregator) := by
  unfold defaultRoots
  dsimp only
  rw [h.any_eq]
  exact perm_distinct (((h.filter _).map _).append_left _)

/-! ## Agreement -/

/-- Readers that list and read the same contents, whatever the order in which they list them. -/
structure EntryReader.BothRead (tree : FileTree) (content : String → Option Bytes)
    (r s : EntryReader) : Prop where
  entries : r.entries.Perm s.entries
  read : ∀ e, r.read tree {} e = .ok (content e) ∧ s.read tree {} e = .ok (content e)

/-- The first platform has the sanitized descriptors of the second one, and both hold the same. -/
structure Platform.Agrees (tree : FileTree) (holds : HomeContent) (p q : Platform) : Prop where
  find? : ∀ n, p.find? n = (q.find? n).map ModuleDescriptor.sanitized
  holdsVisible : ∀ n d, q.find? n = some d → d.HoldsVisible
  readers : ∀ n d, q.find? n = some d → ∀ handle handle', ∃ r s,
    p.classReader tree handle n = .ok r ∧ q.classReader tree handle' n = .ok s ∧
      EntryReader.BothRead tree (holds n) r s

theorem EntryReader.Offers.bothRead {tree : FileTree} {content : String → Option Bytes}
    {r s : EntryReader} (hr : r.Offers tree content) (hs : s.Offers tree content) :
    BothRead tree content r s where
  entries := (List.perm_ext_iff_of_nodup hr.distinct hs.distinct).mpr fun e =>
    (hr.mem_entries e).trans (hs.mem_entries e).symm
  read e := ⟨hr.read e, hs.read e⟩

/-- Platforms that offer the same contents agree, if the one sanitizes what the other one keeps. -/
theorem Platform.agrees_of_offers {tree : FileTree} {holds : HomeContent} {p q : Platform}
    {entries entries' : String → List String} (hentries : ∀ m e, e ∈ entries m ↔ e ∈ entries' m)
    (hp : p.Offers tree holds fun m d => (d.extendPackages (entries m)).sanitized)
    (hq : q.Offers tree holds fun m d => d.extendPackages (entries' m)) :
    Agrees tree holds p q where
  find? n := by
    have hextend : ∀ d : ModuleDescriptor, (d.extendPackages (entries n)).sanitized =
        (d.extendPackages (entries' n)).sanitized :=
      fun d => congrArg _ (d.extendPackages_congr (hentries n))
    rw [hp.find?, hq.find?, Option.map_map]
    exact congrArg (fun f => (holds.declared? n).map f) (funext hextend)
  holdsVisible n d h := by
    rw [hq.find?] at h
    obtain ⟨declared, hdeclared, rfl⟩ := Option.map_eq_some_iff.mp h
    obtain ⟨bytes, -, hparse⟩ := HomeContent.declared?_eq_some_iff.mp hdeclared
    exact (ClassFile.holdsVisible_of_parseModuleInfo hparse).extendPackages (entries' n)
  readers n d h handle handle' := by
    rw [hq.find?] at h
    obtain ⟨declared, hdeclared, -⟩ := Option.map_eq_some_iff.mp h
    obtain ⟨bytes, hbytes, -⟩ := HomeContent.declared?_eq_some_iff.mp hdeclared
    obtain ⟨r, hr, hroffers⟩ := hp.reader n _ bytes hbytes handle
    obtain ⟨s, hs, hsoffers⟩ := hq.reader n _ bytes hbytes handle'
    exact ⟨r, s, hr, hs, hroffers.bothRead hsoffers⟩

namespace Platform.Agrees
variable {tree : FileTree} {holds : HomeContent} {p q : Platform}

/-- The modules of the one are those of the other, sanitized and in some other order. -/
theorem perm_descriptors (h : p.Agrees tree holds q) :
    p.descriptors.Perm (q.descriptors.map ModuleDescriptor.sanitized) := by
  have hdistinct : ∀ c : Catalog, (c.descriptors.map ModuleDescriptor.name).Nodup := by
    intro c
    rw [c.map_name_descriptors]
    exact c.table.distinct
  have hsanitized : (q.descriptors.map ModuleDescriptor.sanitized).Nodup := by
    refine List.Nodup.of_map ModuleDescriptor.name ?_
    rw [List.map_map]
    exact hdistinct q.units
  refine (List.perm_ext_iff_of_nodup (.of_map _ (hdistinct p.units)) hsanitized).mpr fun d => ?_
  have hfind : p.find? d.name = (q.find? d.name).map ModuleDescriptor.sanitized := h.find? d.name
  rw [List.mem_map]
  constructor
  · intro hd
    have hd' : p.find? d.name = some d := Catalog.mem_descriptors_iff.mp hd
    obtain ⟨d', hd', rfl⟩ := Option.map_eq_some_iff.mp (hfind.symm.trans hd')
    exact ⟨d', Catalog.mem_descriptors_iff.mpr hd', rfl⟩
  · rintro ⟨d', hd', rfl⟩
    have hd'' : q.find? d'.name = some d' := Catalog.mem_descriptors_iff.mp hd'
    exact Catalog.mem_descriptors_iff.mpr (hfind.trans (congrArg _ hd''))

theorem perm_unitNames (h : p.Agrees tree holds q) : p.unitNames.Perm q.unitNames := by
  have hnames := h.perm_descriptors.map ModuleDescriptor.name
  rw [List.map_map] at hnames
  have hp : p.descriptors.map ModuleDescriptor.name = p.unitNames := p.units.map_name_descriptors
  have hq : q.descriptors.map ModuleDescriptor.name = q.unitNames := q.units.map_name_descriptors
  rw [← hp, ← hq]
  exact hnames

theorem perm_defaultRoots (h : p.Agrees tree holds q) : p.defaultRoots.Perm q.defaultRoots := by
  have hroots := perm_defaultRoots_of_perm h.perm_descriptors defaultAggregator
  rw [defaultRoots_sanitized] at hroots
  exact hroots

end Platform.Agrees

end ModuleAtlas
