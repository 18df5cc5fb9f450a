import Mathlib.Data.List.Induction
import ModuleAtlas.Image.RuntimeImage
import ModuleAtlas.Names.Distinct

/-! # The table of an image

The index of an image is read into a table of modules, one resource after the other.  What comes of
it is told by the list of the resources: modules and entries stand where they are added first
(`keys_modulesOf`, `keys_entriesOf`), and of several resources of a name the one that is added last
is found (`find?_entriesOf`).
-/
namespace ModuleAtlas
namespace Image

/-- The entries of a module; a module that is not there has none. -/
def entriesOf (modules : Modules) (m : String) : OrderedMap Location := (modules.find? m).getD ∅

theorem keys_addResource (modules : Modules) (r : Resource) :
    (addResource modules r).keys = appendNew modules.keys r.module :=
  OrderedMap.keys_insert modules r.module _

theorem entriesOf_addResource (modules : Modules) (r : Resource) (m : String) :
    entriesOf (addResource modules r) m =
      if r.module = m then (entriesOf modules m).insert r.entry r.location
      else entriesOf modules m := by
  unfold entriesOf addResource
  rw [OrderedMap.find?_insert]
  by_cases h : r.module = m
  · subst h
    rw [if_pos rfl, if_pos rfl]
    rfl
  · rw [if_neg h, if_neg h]

section
variable (resources : List Resource)

theorem keys_modulesOf :
    (resources.foldl addResource ∅).keys = distinct (resources.map Resource.module) := by
  induction resources using List.reverseRecOn with
  | nil => rfl
  | append_singleton resources r ih =>
    rw [List.foldl_append, List.map_append, List.map_singleton, distinct_concat, ← ih]
    exact keys_addResource _ r

theorem keys_entriesOf (m : String) :
    (entriesOf (resources.foldl addResource ∅) m).keys =
      distinct ((resources.filter fun r => r.module == m).map Resource.entry) := by
  induction resources using List.reverseRecOn with
  | nil => rfl
  | append_singleton resources r ih =>
    rw [List.foldl_append, List.foldl_cons, List.foldl_nil, entriesOf_addResource,
      List.filter_append]
    by_cases h : r.module = m
    · have hfilter : [r].filter (fun r => r.module == m) = [r] := by simp [h]
      rw [if_pos h, hfilter, List.map_append, List.map_singleton, distinct_concat, ← ih]
      exact OrderedMap.keys_insert _ r.entry r.location
    · have hfilter : [r].filter (fun r => r.module == m) = [] := by simp [h]
      rw [if_neg h, hfilter, List.append_nil, ih]

/-- Of several resources of a name the last one is found. -/
theorem find?_entriesOf (m e : String) :
    (entriesOf (resources.foldl addResource ∅) m).find? e =
      (resources.reverse.find? fun r => r.module == m && r.entry == e).map Resource.location := by
  induction resources using List.reverseRecOn with
  | nil => rfl
  | append_singleton resources r ih =>
    rw [List.foldl_append, List.foldl_cons, List.foldl_nil, entriesOf_addResource,
      List.reverse_append, List.reverse_singleton, List.singleton_append]
    by_cases hm : r.module = m
    · rw [if_pos hm, OrderedMap.find?_insert]
      by_cases he : r.entry = e
      · rw [if_pos he, List.find?_cons_of_pos (by simp [hm, he])]
        rfl
      · rw [if_neg he, List.find?_cons_of_neg (by simp [he]), ih]
    · rw [if_neg hm, List.find?_cons_of_neg (by simp [hm]), ih]

end

end Image

namespace RuntimeImage

theorem find?_eq (image : RuntimeImage) (m e : String) :
    image.find? m e = (Image.entriesOf image.modules m).find? e := by
  unfold find? Image.entriesOf
  cases image.modules.find? m <;> rfl

theorem contains_iff {image : RuntimeImage} {m e : String} :
    image.contains m e = true ↔ e ∈ image.entries m := by
  rw [contains, find?_eq]
  exact OrderedMap.contains_iff

end RuntimeImage
end ModuleAtlas
