import ModuleAtlas.Configuration.Build

/-! # Owners of packages

The owner of a package is the first module that declares it, of all that have been added.  Nothing
that is added later changes this, and artifacts do not touch it.
-/
namespace ModuleAtlas

namespace PackageIndex

theorem owner?_addUnit (ix : PackageIndex) (u : ModuleUnit) (package : String) :
    (ix.addUnit u).owner? package =
      (ix.owner? package).or (if package ∈ u.packages then some u else none) :=
  OrderedMap.find?_foldl_insertNew u u.packages.toList ix.owners package

theorem owner?_foldl_addUnit (units : List ModuleUnit) (ix : PackageIndex) (package : String) :
    (units.foldl addUnit ix).owner? package =
      (ix.owner? package).or (units.find? fun u => decide (package ∈ u.packages)) := by
  induction units generalizing ix with
  | nil => exact Option.or_none.symm
  | cons u units ih =>
    rw [List.foldl_cons, ih, owner?_addUnit, List.find?_cons, Option.or_assoc]
    by_cases h : package ∈ u.packages
    · rw [if_pos h, decide_eq_true h]
      rfl
    · rw [if_neg h, decide_eq_false h, Option.none_or]

theorem owner?_foldl_addArtifact (artifacts : List Artifact) (ix : PackageIndex)
    (package : String) : (artifacts.foldl addArtifact ix).owner? package = ix.owner? package := by
  induction artifacts generalizing ix with
  | nil => rfl
  | cons a artifacts ih =>
    rw [List.foldl_cons, ih]
    rfl

end PackageIndex

/-- The first module that declares a package owns it. -/
theorem BuildPlan.owner?_indexOf (units : List ModuleUnit) (artifacts : List Artifact)
    (package : String) :
    (indexOf units artifacts).owner? package =
      units.find? fun u => decide (package ∈ u.packages) := by
  rw [indexOf, PackageIndex.owner?_foldl_addArtifact, PackageIndex.owner?_foldl_addUnit]
  exact Option.none_or

end ModuleAtlas
