import ModuleAtlas.Proofs.Configuration.Units
import ModuleAtlas.Proofs.Discovery.Subtrees
import ModuleAtlas.Proofs.Ownership.Additions

/-! # The classes of a configuration

A class is looked for in the package that its name gives, and so it is found only if the package was
noted when the index was made.  For artifacts the packages are computed from their entries, with the
same function; it remains that an entry given as the name of a class stands for itself
(`EntryName.ofClass_eq_self`).  For modules the packages are those that they declare, and these
cover what their readers list (`BuiltFrom.covers`).
-/
namespace ModuleAtlas

/-! ## Names of classes -/

namespace EntryName

theorem ofClass_append (stem : String) :
    ofClass (stem ++ classEnding) =
      if '/' ∈ stem.toList then stem ++ classEnding
      else Text.replace '.' '/' stem ++ classEnding := by
  have hstem : Text.beforeEnd? classEnding (stem ++ classEnding) = some stem :=
    Text.beforeEnd?_eq_some_iff.mpr rfl
  simp only [ofClass, hstem, Option.getD_some, String.contains_char_eq, decide_eq_true_eq]

/-- A class entry, given as the name of a class, is that class; without a slash its name must not be
taken for a dotted one. -/
theorem ofClass_eq_self {e : String} (hclass : isClass e = true)
    (h : '/' ∈ e.toList ∨ ∃ stem, e = stem ++ classEnding ∧ '.' ∉ stem.toList) : ofClass e = e := by
  obtain ⟨stem, rfl⟩ := Text.endsWith_iff.mp hclass
  rw [ofClass_append]
  by_cases hslash : '/' ∈ stem.toList
  · rw [if_pos hslash]
  · have hdot : '.' ∉ stem.toList := by
      rcases h with h | ⟨stem', he, hdot⟩
      · rw [String.toList_append, List.mem_append] at h
        exact absurd (h.resolve_left hslash) (by decide)
      · have hsame : stem.toList = stem'.toList := by
          rw [← String.toList_inj, String.toList_append, String.toList_append] at he
          exact List.append_cancel_right he
        rwa [hsame]
    rw [if_neg hslash, Text.replace_of_not_mem hdot]

theorem slash_mem_of_package {e : String} (h : package e ≠ "") : '/' ∈ e.toList := by
  unfold package at h
  split at h
  · next folder last hsplit =>
    rw [(Text.toList_of_splitLast? hsplit).1]
    exact List.mem_append_right _ List.mem_cons_self
  · exact absurd rfl h

theorem isClass_of_isModuleClass {e : String} (h : isModuleClass e = true) : isClass e = true :=
  (Bool.and_eq_true_iff.mp h).1

/-- A module class in a named package, given as the name of a class, is that class. -/
theorem ofClass_eq_self_of_package {e : String} (hclass : isModuleClass e = true)
    (hpackage : package e ≠ "") : ofClass e = e :=
  ofClass_eq_self (isClass_of_isModuleClass hclass) (.inl (slash_mem_of_package hpackage))

end EntryName

theorem EntryReader.contains_iff {r : EntryReader} {e : String} :
    r.contains e = true ↔ e ∈ r.entries := decide_eq_true_iff

/-! ## Artifacts -/

/-- A class of an artifact of an index has an owner that holds it. -/
theorem BuildPlan.exists_findOwner_indexOf {units : List ModuleUnit} {artifacts : List Artifact}
    {a : Artifact} (ha : a ∈ artifacts) {e : String} (he : e ∈ a.reader.entries)
    (hclass : EntryName.isClass e = true) (hnot : e ≠ EntryName.moduleInfo)
    (hself : EntryName.ofClass e = e) :
    ∃ o, (indexOf units artifacts).findOwner e = some o ∧ o.contains e = true := by
  have hcontributor : a ∈ (indexOf units artifacts).contributorsOf (EntryName.package e) := by
    rw [contributorsOf_indexOf]
    exact List.mem_filter.mpr ⟨ha, decide_eq_true ⟨e, he, hclass, hnot, rfl⟩⟩
  have hfound : ((indexOf units artifacts).findOwner e).isSome :=
    (PackageIndex.isSome_findOwner_iff hself).mpr
      (.inr ⟨a, hcontributor, EntryReader.contains_iff.mpr he⟩)
  obtain ⟨o, ho⟩ := Option.isSome_iff_exists.mp hfound
  exact ⟨o, ho, PackageIndex.contains_of_findOwner hself ho⟩

/-! ## Modules -/

/-- A platform that is open already was opened on the file tree that the plan is built on. -/
def BuildPlan.PlatformOpenedOn (plan : BuildPlan) (tree : FileTree) : Prop :=
  ∀ p, plan.platform = some p → ∃ handle choice, Platform.openChoice tree handle choice = .ok p

namespace Configuration

theorem Coherent.findUnit_name {c : Configuration} (h : c.Coherent) {u : ModuleUnit}
    (hu : u ∈ c.units.values) : c.findUnit u.name = some u := by
  obtain ⟨⟨n, v⟩, hentry, rfl⟩ := List.mem_map.mp hu
  have hfind : c.findUnit n = some v := OrderedMap.find?_eq_some_iff.mpr hentry
  rw [h.named n v hfind]
  exact hfind

namespace BuiltFrom
variable {c : Configuration} {plan : BuildPlan} {tree : FileTree} {opening : Nat} {inputs : Inputs}

theorem exists_openChoice (h : c.BuiltFrom plan tree opening inputs)
    (hopened : plan.PlatformOpenedOn tree) :
    ∃ handle choice, Platform.openChoice tree handle choice = .ok c.platform := by
  have hplatform := (BuildPlan.gather_eq_ok_iff.mp h.gathered).platform
  rw [h.platform]
  unfold BuildPlan.openPlatform at hplatform
  cases hgiven : plan.platform with
  | some p =>
    rw [hgiven] at hplatform
    obtain rfl := Except.ok.inj hplatform
    exact hopened _ hgiven
  | none =>
    rw [hgiven] at hplatform
    exact ⟨_, _, hplatform⟩

/-- A module declares the packages of its classes. -/
theorem covers (h : c.BuiltFrom plan tree opening inputs) (hopened : plan.PlatformOpenedOn tree)
    (hstored : c.platform.StoredByName tree) {u : ModuleUnit} (hu : u ∈ c.units.values) :
    u.descriptor.Covers u.reader.entries := by
  obtain ⟨handle, r, hr, hopen⟩ := h.opened u hu
  have hname : u.name = r.name := congrArg ModuleDescriptor.name hopen.descriptor
  rw [Configuration.finder, h.layers] at hr
  rw [hopen.descriptor]
  rcases Inputs.cases_of_find?_layers hr with ⟨⟨d, hd, rfl⟩, -⟩ | ⟨-, hfound⟩
  · obtain ⟨opened, choice, hchoice⟩ := h.exists_openChoice hopened
    rw [hname, ← h.platform] at hd
    exact Platform.covers_of_openChoice hchoice hstored hd (hopen.ofPlatform rfl)
  · obtain ⟨p, hp, hread⟩ := (BuildPlan.areRead_of_gather h.gathered).exists_path hfound
    exact ModulePath.covers_of_readModule hread (hopen.ofPath p hp)

end BuiltFrom
end Configuration

/-- **No class is lost.**  In a built configuration a class of an artifact has an owner that holds
it, if its entry is not taken for a dotted name.  A class of a module that is in a named package has
a module that owns its package; and the class is found in its own module if no other module declares
the package.  The latter supposes that the files stay what they were when the platform was opened,
and that the platform stores modules under the names that they declare. -/
theorem findOwner_of_build {plan : BuildPlan} {tree : FileTree} {opening : Nat} {c : Configuration}
    (h : plan.build tree opening = .ok c) :
    (∀ a ∈ c.initialArtifacts ++ c.classPathArtifacts, ∀ e ∈ a.reader.entries,
      EntryName.isClass e = true → e ≠ EntryName.moduleInfo →
      ('/' ∈ e.toList ∨ ∃ stem, e = stem ++ EntryName.classEnding ∧ '.' ∉ stem.toList) →
      ∃ o, c.index.findOwner e = some o ∧ o.contains e = true) ∧
    (plan.PlatformOpenedOn tree → c.platform.StoredByName tree →
      ∀ u ∈ c.units.values, ∀ e ∈ u.reader.entries, EntryName.isModuleClass e = true →
        EntryName.package e ≠ "" →
        (∃ v ∈ c.units.values, c.index.owner? (EntryName.package e) = some v) ∧
          ((∀ v ∈ c.units.values, v.name ≠ u.name → EntryName.package e ∉ v.packages) →
            c.index.findOwner e = some (.unit u))) := by
  obtain ⟨inputs, hbuilt⟩ := exists_builtFrom_of_build h
  have hcoherent := coherent_of_build h
  rw [hbuilt.index]
  constructor
  · intro a ha e he hclass hnot hname
    exact BuildPlan.exists_findOwner_indexOf ha he hclass hnot
      (EntryName.ofClass_eq_self hclass hname)
  · intro hopened hstored u hu e he hclass hpackage
    have hdeclared : EntryName.package e ∈ u.packages :=
      (hbuilt.covers hopened hstored hu).mem_packages he hclass hpackage
    have hsome : (c.units.values.find? fun v => decide (EntryName.package e ∈ v.packages)).isSome :=
      List.find?_isSome.mpr ⟨u, hu, decide_eq_true hdeclared⟩
    obtain ⟨v, hv⟩ := Option.isSome_iff_exists.mp hsome
    have hmem : v ∈ c.units.values := List.mem_of_find?_eq_some hv
    rw [BuildPlan.owner?_indexOf]
    refine ⟨⟨v, hmem, hv⟩, fun honly => ?_⟩
    have hdeclares := List.find?_some hv
    have hsame : v.name = u.name := by
      by_contra hne
      exact honly v hmem hne (of_decide_eq_true hdeclares)
    have hu' := hcoherent.findUnit_name hu
    rw [← hsame, hcoherent.findUnit_name hmem] at hu'
    obtain rfl := Option.some.inj hu'
    refine PackageIndex.findOwner_eq_unit (EntryName.ofClass_eq_self_of_package hclass hpackage) ?_
      (EntryReader.contains_iff.mpr he)
    rw [BuildPlan.owner?_indexOf]
    exact hv

namespace Shop

theorem folderAt_homeModules : marketTree.FolderAt ⟨"/market/home/modules"⟩ homeModules :=
  FileTree.FolderAt.below folderAt_market
    (by decide : IsLocation (["home", "modules"].map OsText.ofText)) rfl

theorem isFile_packedFile_market :
    marketTree.isFile (Platform.packedFile ⟨"/market/home"⟩) = false := by
  rw [Bool.eq_false_iff, ne_eq]
  intro hfile
  obtain ⟨content, h⟩ := (FileTree.FolderAt.isFile_iff folderAt_market
    (by decide : IsLocation (["home", "lib", "modules"].map OsText.ofText))).mp hfile
  cases h

theorem readBy_market (handle : Handle) {m : String} (hm : IsName m) :
    homeContent.ReadBy (fun m d => d.extendPackages (folderEntries homeModules m))
      (fun m => Platform.readExploded marketTree handle
        ((Platform.explodedFolder ⟨"/market/home"⟩).child m)) m :=
  readBy_exploded folderAt_homeModules holds_homeModules handle hm

theorem openChoice_market (handle : Handle) :
    Platform.openChoice marketTree handle (.home ⟨"/market/home"⟩) = .ok marketPlatform := by
  have happ := (readBy_market handle (by decide : IsName "app")).present _ programDescriptor rfl
    parse_program
  have hbase := (readBy_market handle (by decide : IsName "base")).present _ declaredLibrary rfl
    parse_library
  have hopen := ExplodedHome.openHome_eq_collect isFile_packedFile_market
    folderAt_homeModules.status handle
  have hnames : homeModules.names = ["app", "base"].map OsText.ofText := rfl
  rw [Platform.openChoice, hopen, folderAt_homeModules.ordered.mergeSort_names, hnames,
    Catalog.collect_map]
  simp only [Catalog.collect, happ, hbase]
  rfl

theorem storedByName_market : marketPlatform.StoredByName marketTree := by
  intro names hnames m hm handle d hread
  have hlist : marketTree.listFolder ⟨"/market/home/modules"⟩ = .ok homeModules.names := by
    rw [FileTree.listFolder, folderAt_homeModules.status]
  obtain rfl := Except.ok.inj (hnames.symm.trans hlist)
  obtain ⟨hname, htext⟩ := folderAt_homeModules.plain.isName_of_mem_names hm
  obtain ⟨name, rfl⟩ : ∃ name : String, m = OsText.ofText name := ⟨m.text, htext.symm⟩
  obtain ⟨d', hd', rfl⟩ := Option.map_eq_some_iff.mp
    ((readBy_market handle hname).eq_ok_some_iff.mp hread)
  obtain ⟨bytes, hbytes, hparse⟩ := HomeContent.declared?_eq_some_iff.mp hd'
  exact congrArg OsText.ofText (named_homeContent name bytes d' hbytes hparse).symm

/-- The class of the class path is found, and so is that of the patched library. -/
theorem findOwner_of_build_market :
    ∃ c, marketPlan.build marketTree 1 = .ok c ∧
      (∃ o, c.index.findOwner "goods/Price.class" = some o ∧
        o.contains "goods/Price.class" = true) ∧
      ∃ u ∈ c.units.values, u.name = "base" ∧
        c.index.findOwner "base/Item.class" = some (.unit u) := by
  obtain ⟨hartifacts, hmodules⟩ := findOwner_of_build (build_market 1)
  have hopened : marketPlan.PlatformOpenedOn marketTree := by
    intro p hp
    obtain rfl := Option.some.inj hp
    exact ⟨default, .home ⟨"/market/home"⟩, openChoice_market default⟩
  have hlibrary : marketLibrary 1 ∈ (marketConfiguration 1).units.values :=
    List.mem_cons_of_mem _ List.mem_cons_self
  obtain ⟨-, hown⟩ := hmodules hopened storedByName_market _ hlibrary "base/Item.class"
    List.mem_cons_self (by decide) (by decide)
  refine ⟨_, build_market 1, ?_, _, hlibrary, rfl, hown fun v hv hne => ?_⟩
  · exact hartifacts (marketClasses 1) List.mem_cons_self "goods/Price.class" List.mem_cons_self
      (by decide) (by decide) (.inl (by decide))
  · rcases List.mem_cons.mp hv with rfl | hv
    · decide
    · obtain rfl := List.mem_singleton.mp hv
      exact absurd rfl hne

end Shop
end ModuleAtlas
