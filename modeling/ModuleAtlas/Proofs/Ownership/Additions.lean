import ModuleAtlas.Proofs.Ownership.Owners

/-! # Additions to a package index

Modules and artifacts are added to an index one at a time, in any order.  The two kinds of additions
do not meet: an index depends on the modules in their order and on the artifacts in their order, but
not on how the two are interleaved (`foldl_add`).

A package is owned by the first module that declares it, and contributed by each artifact that has a
class in it, in the order in which they were added.  Hence the order of the artifacts shows in
nothing but the order of contributors (`isSome_findOwner_iff`, `find?_splitPackages`).
-/
namespace ModuleAtlas

/-! ## Contributors -/

/-- An artifact has a class in a package.  The descriptor of the module counts as no class. -/
def Artifact.HasClassIn (a : Artifact) (package : String) : Prop :=
  ∃ e ∈ a.reader.entries, EntryName.isClass e = true ∧ e ≠ EntryName.moduleInfo ∧
    EntryName.package e = package

instance (a : Artifact) (package : String) : Decidable (a.HasClassIn package) :=
  inferInstanceAs (Decidable (∃ e ∈ a.reader.entries, _))

theorem Artifact.mem_packagesOfClasses_iff {entries : List String} {package : String} :
    package ∈ packagesOfClasses entries ↔
      ∃ e ∈ entries, EntryName.isClass e = true ∧ e ≠ EntryName.moduleInfo ∧
        EntryName.package e = package := by
  rw [packagesOfClasses, mem_distinct, List.mem_map]
  refine exists_congr fun e => ?_
  rw [List.mem_filter, Bool.and_eq_true, bne_iff_ne, and_assoc, and_assoc]

theorem Artifact.mem_classPackages_iff {a : Artifact} {package : String} :
    package ∈ a.classPackages ↔ a.HasClassIn package :=
  mem_packagesOfClasses_iff

theorem Artifact.nodup_classPackages (a : Artifact) : a.classPackages.Nodup :=
  nodup_distinct _

namespace PackageIndex

/-- A contributor comes last at each of its packages, and nothing changes at the others. -/
theorem find?_foldl_contribute (a : Artifact) {packages : List String} (h : packages.Nodup)
    (contributors : OrderedMap (List Artifact)) (package : String) :
    (packages.foldl (contribute a) contributors).find? package =
      if package ∈ packages then some ((contributors.find? package).getD [] ++ [a])
      else contributors.find? package := by
  induction packages generalizing contributors with
  | nil => rfl
  | cons first packages ih =>
    obtain ⟨hfirst, hrest⟩ := List.nodup_cons.mp h
    rw [List.foldl_cons, ih hrest, contribute, OrderedMap.find?_insert]
    by_cases hp : first = package
    · subst hp
      rw [if_neg hfirst, if_pos rfl, if_pos List.mem_cons_self]
    · have hmem : package ∈ first :: packages ↔ package ∈ packages :=
        ⟨fun h => (List.mem_cons.mp h).resolve_left (Ne.symm hp), List.mem_cons_of_mem first⟩
      rw [if_neg hp]
      simp only [hmem]

theorem find?_contributors_addArtifact (ix : PackageIndex) (a : Artifact) (package : String) :
    (ix.addArtifact a).contributors.find? package =
      if a.HasClassIn package then some (ix.contributorsOf package ++ [a])
      else ix.contributors.find? package := by
  rw [addArtifact, find?_foldl_contribute a a.nodup_classPackages]
  simp only [Artifact.mem_classPackages_iff, contributorsOf]

theorem contributorsOf_addArtifact (ix : PackageIndex) (a : Artifact) (package : String) :
    (ix.addArtifact a).contributorsOf package =
      ix.contributorsOf package ++ [a].filter fun a => decide (a.HasClassIn package) := by
  rw [contributorsOf, find?_contributors_addArtifact]
  by_cases h : a.HasClassIn package
  · rw [if_pos h, List.filter_cons, if_pos (decide_eq_true h)]
    rfl
  · rw [if_neg h, List.filter_cons, if_neg fun hd => h (of_decide_eq_true hd)]
    exact (List.append_nil _).symm

theorem contributorsOf_foldl_addArtifact (artifacts : List Artifact) (ix : PackageIndex)
    (package : String) :
    (artifacts.foldl addArtifact ix).contributorsOf package =
      ix.contributorsOf package ++ artifacts.filter fun a => decide (a.HasClassIn package) := by
  induction artifacts generalizing ix with
  | nil => exact (List.append_nil _).symm
  | cons a artifacts ih =>
    rw [List.foldl_cons, ih, contributorsOf_addArtifact, List.append_assoc, ← List.filter_append]
    rfl

theorem contributors_foldl_addUnit (units : List ModuleUnit) (ix : PackageIndex) :
    (units.foldl addUnit ix).contributors = ix.contributors := by
  induction units generalizing ix with
  | nil => rfl
  | cons u units ih => exact ih (ix.addUnit u)

/-- Each package that is contributed has a contributor. -/
def Contributed (ix : PackageIndex) : Prop :=
  ∀ package, package ∈ ix.contributors.keys ↔ ix.contributorsOf package ≠ []

theorem Contributed.addArtifact {ix : PackageIndex} (h : ix.Contributed) (a : Artifact) :
    (ix.addArtifact a).Contributed := by
  intro package
  rw [← OrderedMap.contains_iff, OrderedMap.contains, contributorsOf,
    find?_contributors_addArtifact]
  by_cases ha : a.HasClassIn package
  · simp [ha]
  · rw [if_neg ha, ← OrderedMap.contains, OrderedMap.contains_iff]
    exact h package

theorem Contributed.foldl_addArtifact {ix : PackageIndex} (h : ix.Contributed)
    (artifacts : List Artifact) : (artifacts.foldl PackageIndex.addArtifact ix).Contributed := by
  induction artifacts generalizing ix with
  | nil => exact h
  | cons a artifacts ih => exact ih (h.addArtifact a)

end PackageIndex

namespace BuildPlan
variable (units : List ModuleUnit) (artifacts : List Artifact)

theorem contributorsOf_indexOf (package : String) :
    (indexOf units artifacts).contributorsOf package =
      artifacts.filter fun a => decide (a.HasClassIn package) := by
  rw [indexOf, PackageIndex.contributorsOf_foldl_addArtifact, PackageIndex.contributorsOf,
    PackageIndex.contributors_foldl_addUnit]
  rfl

theorem contributed_indexOf : (indexOf units artifacts).Contributed := by
  refine PackageIndex.Contributed.foldl_addArtifact (fun package => ?_) artifacts
  rw [PackageIndex.contributorsOf, PackageIndex.contributors_foldl_addUnit]
  exact ⟨fun h => absurd h List.not_mem_nil, fun h => absurd rfl h⟩

theorem mem_owners_indexOf_iff {package : String} :
    package ∈ (indexOf units artifacts).owners.keys ↔ ∃ u ∈ units, package ∈ u.packages := by
  have howner := owner?_indexOf units artifacts package
  rw [PackageIndex.owner?] at howner
  rw [← OrderedMap.contains_iff, OrderedMap.contains, howner, List.find?_isSome]
  simp only [decide_eq_true_iff]

theorem mem_contributors_indexOf_iff {package : String} :
    package ∈ (indexOf units artifacts).contributors.keys ↔
      ∃ a ∈ artifacts, a.HasClassIn package := by
  rw [contributed_indexOf units artifacts package, contributorsOf_indexOf, ne_eq,
    List.filter_eq_nil_iff]
  simp

end BuildPlan

/-! ## Answers -/

namespace PackageIndex

theorem mem_packages_iff {ix : PackageIndex} {package : String} :
    package ∈ ix.packages ↔ package ∈ ix.owners.keys ∨ package ∈ ix.contributors.keys := by
  rw [packages, NameSet.mem_ofList, List.mem_append]

theorem find?_splitPackages (ix : PackageIndex) (package : String) :
    ix.splitPackages.find? package = ix.origins? package := by
  refine Option.ext fun origins => ?_
  rw [splitPackages, NameMap.find?_ofList_eq_some_iff, List.mem_filterMap]
  · constructor
    · rintro ⟨p, -, hp⟩
      obtain ⟨o, ho, he⟩ := Option.map_eq_some_iff.mp hp
      obtain ⟨rfl, rfl⟩ := Prod.mk.inj he
      exact ho
    · intro horigins
      refine ⟨package, ?_, by rw [horigins]; rfl⟩
      rw [← OrderedMap.contains_iff, OrderedMap.contains]
      cases hfind : ix.contributors.find? package with
      | none => simp [origins?, hfind] at horigins
      | some l => rfl
  · intro p hp q hq hkey
    obtain ⟨n, -, hn⟩ := List.mem_filterMap.mp hp
    obtain ⟨m, -, hm⟩ := List.mem_filterMap.mp hq
    obtain ⟨o, ho, rfl⟩ := Option.map_eq_some_iff.mp hn
    obtain ⟨o', ho', rfl⟩ := Option.map_eq_some_iff.mp hm
    obtain rfl : n = m := hkey
    rw [Option.some.inj (ho.symm.trans ho')]

/-- A package is split if it has an owner and contributors; it comes from all of them. -/
theorem Contributed.origins?_eq_some_iff {ix : PackageIndex} (h : ix.Contributed) {package : String}
    {origins : NameSet} :
    ix.origins? package = some origins ↔
      ∃ u, ix.owner? package = some u ∧ ix.contributorsOf package ≠ [] ∧
        origins = NameSet.ofList (u.location :: (ix.contributorsOf package).map (·.path.text)) := by
  rw [← h package, ← OrderedMap.contains_iff, OrderedMap.contains, origins?, contributorsOf]
  cases ix.owner? package with
  | none => simp
  | some u =>
    cases ix.contributors.find? package with
    | none => simp
    | some l => simp [eq_comm]

theorem findOwner_eq (ix : PackageIndex) {className entry : String}
    (h : EntryName.ofClass className = entry) :
    ix.findOwner className =
      match (ix.owner? (EntryName.package entry)).filter fun u => u.contains entry with
      | some u => some (.unit u)
      | none =>
        ((ix.contributorsOf (EntryName.package entry)).find? fun a => a.contains entry).map
          .artifact := by
  subst h
  rfl

/-- The owner of the package comes first if it holds the class. -/
theorem findOwner_eq_unit {ix : PackageIndex} {className entry : String} {u : ModuleUnit}
    (h : EntryName.ofClass className = entry) (howner : ix.owner? (EntryName.package entry) = some u)
    (hholds : u.contains entry = true) : ix.findOwner className = some (.unit u) := by
  have hfilter : (ix.owner? (EntryName.package entry)).filter (fun u => u.contains entry) =
      some u := Option.filter_eq_some_iff.mpr ⟨howner, hholds⟩
  rw [findOwner_eq ix h, hfilter]

/-- What is found holds the class. -/
theorem contains_of_findOwner {ix : PackageIndex} {className entry : String} {o : Owner}
    (h : EntryName.ofClass className = entry) (ho : ix.findOwner className = some o) :
    o.contains entry = true := by
  rw [findOwner_eq ix h] at ho
  cases hfilter : (ix.owner? (EntryName.package entry)).filter fun u => u.contains entry with
  | some u =>
    rw [hfilter] at ho
    obtain rfl := Option.some.inj ho
    exact (Option.filter_eq_some_iff.mp hfilter).2
  | none =>
    rw [hfilter] at ho
    obtain ⟨a, hfind, rfl⟩ := Option.map_eq_some_iff.mp ho
    have hholds := List.find?_some hfind
    exact hholds

/-- A class is found if the owner of its package holds it, or else a contributor. -/
theorem isSome_findOwner_iff {ix : PackageIndex} {className entry : String}
    (h : EntryName.ofClass className = entry) :
    (ix.findOwner className).isSome ↔
      (∃ u, ix.owner? (EntryName.package entry) = some u ∧ u.contains entry = true) ∨
        ∃ a ∈ ix.contributorsOf (EntryName.package entry), a.contains entry = true := by
  by_cases howner :
      ∃ u, ix.owner? (EntryName.package entry) = some u ∧ u.contains entry = true
  · obtain ⟨u, hu, hholds⟩ := howner
    rw [findOwner_eq_unit h hu hholds]
    exact ⟨fun _ => .inl ⟨u, hu, hholds⟩, fun _ => rfl⟩
  · have hfilter : (ix.owner? (EntryName.package entry)).filter (fun u => u.contains entry) =
        none := Option.filter_eq_none_iff.mpr fun u hu hholds => howner ⟨u, hu, hholds⟩
    rw [findOwner_eq ix h, hfilter, or_iff_right howner, Option.isSome_map, List.find?_isSome]

end PackageIndex

/-! ## Runs of additions -/

namespace Owner

/-- The modules among some owners. -/
def units (owners : List Owner) : List ModuleUnit :=
  owners.filterMap fun
    | .unit u => some u
    | .artifact _ => none

/-- The artifacts among some owners. -/
def artifacts (owners : List Owner) : List Artifact :=
  owners.filterMap fun
    | .unit _ => none
    | .artifact a => some a

end Owner

namespace PackageIndex

/-- Adds a module or an artifact. -/
def add (ix : PackageIndex) : Owner → PackageIndex
  | .unit u => ix.addUnit u
  | .artifact a => ix.addArtifact a

/-- The index after some additions. -/
def ofAdditions (additions : List Owner) : PackageIndex := additions.foldl add empty

theorem addArtifact_addUnit (ix : PackageIndex) (u : ModuleUnit) (a : Artifact) :
    (ix.addArtifact a).addUnit u = (ix.addUnit u).addArtifact a := rfl

theorem foldl_addUnit_addArtifact (units : List ModuleUnit) (ix : PackageIndex) (a : Artifact) :
    units.foldl addUnit (ix.addArtifact a) = (units.foldl addUnit ix).addArtifact a := by
  induction units generalizing ix with
  | nil => rfl
  | cons u units ih => rw [List.foldl_cons, addArtifact_addUnit, ih, List.foldl_cons]

/-- All modules might as well have been added before the artifacts. -/
theorem foldl_add (additions : List Owner) (ix : PackageIndex) :
    additions.foldl add ix =
      (Owner.artifacts additions).foldl addArtifact ((Owner.units additions).foldl addUnit ix) := by
  induction additions generalizing ix with
  | nil => rfl
  | cons o additions ih =>
    rw [List.foldl_cons, ih]
    cases o with
    | unit u => rfl
    | artifact a =>
      rw [add, foldl_addUnit_addArtifact]
      rfl

theorem ofAdditions_eq (additions : List Owner) :
    ofAdditions additions =
      BuildPlan.indexOf (Owner.units additions) (Owner.artifacts additions) :=
  foldl_add additions empty

theorem owner?_ofAdditions (additions : List Owner) (package : String) :
    (ofAdditions additions).owner? package =
      (Owner.units additions).find? fun u => decide (package ∈ u.packages) := by
  rw [ofAdditions_eq, BuildPlan.owner?_indexOf]

theorem contributorsOf_ofAdditions (additions : List Owner) (package : String) :
    (ofAdditions additions).contributorsOf package =
      (Owner.artifacts additions).filter fun a => decide (a.HasClassIn package) := by
  rw [ofAdditions_eq, BuildPlan.contributorsOf_indexOf]

theorem contributed_ofAdditions (additions : List Owner) : (ofAdditions additions).Contributed := by
  rw [ofAdditions_eq]
  exact BuildPlan.contributed_indexOf _ _

/-- What owns a package goes on to own it. -/
theorem owner?_append {additions : List Owner} {package : String} {u : ModuleUnit}
    (h : (ofAdditions additions).owner? package = some u) (later : List Owner) :
    (ofAdditions (additions ++ later)).owner? package = some u := by
  rw [owner?_ofAdditions] at h
  rw [owner?_ofAdditions, Owner.units, List.filterMap_append, List.find?_append]
  exact Option.or_eq_some_iff.mpr (.inl h)

section
variable {additions other : List Owner} (hunits : Owner.units other = Owner.units additions)
  (hartifacts : (Owner.artifacts other).Perm (Owner.artifacts additions))

include hunits in
theorem owner?_eq_of_units (package : String) :
    (ofAdditions other).owner? package = (ofAdditions additions).owner? package := by
  rw [owner?_ofAdditions, owner?_ofAdditions, hunits]

include hartifacts in
theorem perm_contributorsOf (package : String) :
    ((ofAdditions other).contributorsOf package).Perm
      ((ofAdditions additions).contributorsOf package) := by
  rw [contributorsOf_ofAdditions, contributorsOf_ofAdditions]
  exact hartifacts.filter _

include hunits hartifacts

theorem packages_eq_of_perm : (ofAdditions other).packages = (ofAdditions additions).packages := by
  refine NameSet.ext_mem fun package => ?_
  rw [mem_packages_iff, mem_packages_iff, ofAdditions_eq, ofAdditions_eq]
  simp only [BuildPlan.mem_owners_indexOf_iff, BuildPlan.mem_contributors_indexOf_iff, hunits,
    hartifacts.mem_iff]

theorem splitPackages_eq_of_perm :
    (ofAdditions other).splitPackages = (ofAdditions additions).splitPackages := by
  refine NameMap.ext_find? fun package => Option.ext fun origins => ?_
  have hperm := perm_contributorsOf hartifacts package
  have hempty : (ofAdditions other).contributorsOf package ≠ [] ↔
      (ofAdditions additions).contributorsOf package ≠ [] := by
    rw [ne_eq, ne_eq, ← List.isEmpty_iff, ← List.isEmpty_iff, hperm.isEmpty_eq]
  have horigins : ∀ u : ModuleUnit,
      NameSet.ofList (u.location :: ((ofAdditions other).contributorsOf package).map (·.path.text)) =
        NameSet.ofList
          (u.location :: ((ofAdditions additions).contributorsOf package).map (·.path.text)) := by
    refine fun u => NameSet.ext_mem fun origin => ?_
    rw [NameSet.mem_ofList, NameSet.mem_ofList]
    exact ((hperm.map _).cons _).mem_iff
  rw [find?_splitPackages, find?_splitPackages,
    (contributed_ofAdditions other).origins?_eq_some_iff,
    (contributed_ofAdditions additions).origins?_eq_some_iff, owner?_eq_of_units hunits]
  simp only [hempty, horigins]

theorem isSome_findOwner_eq_of_perm (className : String) :
    ((ofAdditions other).findOwner className).isSome =
      ((ofAdditions additions).findOwner className).isSome := by
  rw [Bool.eq_iff_iff, isSome_findOwner_iff rfl, isSome_findOwner_iff rfl, owner?_eq_of_units hunits]
  simp only [(perm_contributorsOf hartifacts _).mem_iff]

end

/-- **What an index answers after any run of additions.**  The owner of a package is the first
added module that declares it, and stays so.  Its contributors are the added artifacts that have a
class in it, in order, each as often as it was added.  The packages are those that are owned or
contributed; the split ones are both, and each comes from its owner and from all its contributors.
How the modules are interleaved with the artifacts does not matter, and of the order among the
artifacts nothing depends but the order of contributors. -/
theorem answers_ofAdditions (additions : List Owner) :
    (∀ package, (ofAdditions additions).owner? package =
        (Owner.units additions).find? fun u => decide (package ∈ u.packages)) ∧
      (∀ package u later, (ofAdditions additions).owner? package = some u →
        (ofAdditions (additions ++ later)).owner? package = some u) ∧
      (∀ package, (ofAdditions additions).contributorsOf package =
        (Owner.artifacts additions).filter fun a => decide (a.HasClassIn package)) ∧
      ((∀ package, package ∈ (ofAdditions additions).packages ↔
          package ∈ (ofAdditions additions).owners.keys ∨
            package ∈ (ofAdditions additions).contributors.keys) ∧
        (∀ package, package ∈ (ofAdditions additions).owners.keys ↔
          ∃ u ∈ Owner.units additions, package ∈ u.packages) ∧
        ∀ package, package ∈ (ofAdditions additions).contributors.keys ↔
          ∃ a ∈ Owner.artifacts additions, a.HasClassIn package) ∧
      (∀ package origins, (ofAdditions additions).splitPackages.find? package = some origins ↔
        ∃ u, (ofAdditions additions).owner? package = some u ∧
          (ofAdditions additions).contributorsOf package ≠ [] ∧
          origins = NameSet.ofList (u.location ::
            ((ofAdditions additions).contributorsOf package).map (·.path.text))) ∧
      (∀ other, Owner.units other = Owner.units additions →
        Owner.artifacts other = Owner.artifacts additions →
        ofAdditions other = ofAdditions additions) ∧
      ∀ other, Owner.units other = Owner.units additions →
        (Owner.artifacts other).Perm (Owner.artifacts additions) →
        (ofAdditions other).packages = (ofAdditions additions).packages ∧
          (ofAdditions other).splitPackages = (ofAdditions additions).splitPackages ∧
          ∀ className, ((ofAdditions other).findOwner className).isSome =
            ((ofAdditions additions).findOwner className).isSome := by
  refine ⟨owner?_ofAdditions additions, fun package u later h => owner?_append h later,
    contributorsOf_ofAdditions additions, ⟨fun package => mem_packages_iff, ?_, ?_⟩, ?_, ?_, ?_⟩
  · rw [ofAdditions_eq]
    exact fun package => BuildPlan.mem_owners_indexOf_iff _ _
  · rw [ofAdditions_eq]
    exact fun package => BuildPlan.mem_contributors_indexOf_iff _ _
  · intro package origins
    rw [find?_splitPackages]
    exact (contributed_ofAdditions additions).origins?_eq_some_iff
  · intro other hunits hartifacts
    rw [ofAdditions_eq, ofAdditions_eq, hunits, hartifacts]
  · intro other hunits hartifacts
    exact ⟨packages_eq_of_perm hunits hartifacts, splitPackages_eq_of_perm hunits hartifacts,
      isSome_findOwner_eq_of_perm hunits hartifacts⟩

end PackageIndex

namespace Shop
open PackageIndex

/-- A module with one package. -/
def shelf (name package : String) : ModuleUnit where
  descriptor := { name, packages := NameSet.ofList [package] }
  location := "file:///shelves/" ++ name
  isPlatform := false
  reader := default

/-- An artifact that is no module. -/
def crate (path : String) (entries : List String) : Artifact where
  reader := ⟨.folder ⟨path⟩ entries, default⟩
  descriptor := none

/-- An artifact that has two classes in a package, two modules that declare the package, and an
artifact that repeats one of the classes. -/
def deliveries : List Owner :=
  [.artifact (crate "/crates/1" ["goods/Item.class", "goods/Price.class"]),
    .unit (shelf "left" "goods"),
    .artifact (crate "/crates/2" ["goods/Item.class", EntryName.moduleInfo]),
    .unit (shelf "right" "goods")]

/-- The same modules, and the artifacts the other way round. -/
def returns : List Owner :=
  [.unit (shelf "left" "goods"), .unit (shelf "right" "goods"),
    .artifact (crate "/crates/2" ["goods/Item.class", EntryName.moduleInfo]),
    .artifact (crate "/crates/1" ["goods/Item.class", "goods/Price.class"])]

/-- The left module stays the owner, each artifact contributes once, and the order in which the
artifacts come shows neither in what is split nor in what is found. -/
theorem answers_ofAdditions_deliveries :
    ((ofAdditions (deliveries ++ [.unit (shelf "late" "goods")])).owner? "goods").map
        ModuleUnit.name = some "left" ∧
      (ofAdditions deliveries).splitPackages.find? "goods" =
        some (NameSet.ofList ["file:///shelves/left", "/crates/1", "/crates/2"]) ∧
      ofAdditions ((Owner.units deliveries).map .unit ++
        (Owner.artifacts deliveries).map .artifact) = ofAdditions deliveries ∧
      (ofAdditions returns).splitPackages = (ofAdditions deliveries).splitPackages ∧
      ((ofAdditions returns).findOwner "goods.Price").isSome := by
  obtain ⟨howner, hlater, hcontributors, -, hsplit, hinterleave, hperm⟩ :=
    answers_ofAdditions deliveries
  have hleft : (ofAdditions deliveries).owner? "goods" = some (shelf "left" "goods") := by
    rw [howner]
    rfl
  have hcrates : (ofAdditions deliveries).contributorsOf "goods" = Owner.artifacts deliveries := by
    rw [hcontributors]
    rfl
  obtain ⟨-, hsame, hfound⟩ := hperm returns rfl (List.Perm.swap _ _ _)
  refine ⟨?_, ?_, hinterleave _ rfl rfl, hsame, ?_⟩
  · rw [hlater "goods" _ _ hleft]
    rfl
  · refine (hsplit "goods" _).mpr ⟨_, hleft, ?_, ?_⟩
    · rw [hcrates]
      exact List.cons_ne_nil _ _
    · rw [hcrates]
      rfl
  · rw [hfound]
    cbv

end Shop
end ModuleAtlas
