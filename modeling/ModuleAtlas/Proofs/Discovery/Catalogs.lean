import ModuleAtlas.Discovery.Platform
import ModuleAtlas.Proofs.Steps

/-! # Collecting descriptors

The modules of a platform are catalogued one after the other, whether they are read from an image
or from folders: `Catalog.collect` is the loop that both kinds of platform have in common.  It
succeeds if every module can be looked at (`exists_collect_iff`), and where each descriptor declares
the name that it was looked up by, the catalog holds for each name what was read
(`find?_collect_iff`), so the order in which the modules come does not matter.
-/
namespace ModuleAtlas

namespace Catalog

theorem find?_add (c : Catalog) (d : ModuleDescriptor) (n : String) :
    (c.add d).find? n = if d.name = n then some d else c.find? n :=
  OrderedMap.find?_insert c.table d.name n d

theorem mem_names_iff {c : Catalog} {n : String} : n ∈ c.names ↔ ∃ d, c.find? n = some d := by
  constructor
  · exact OrderedMap.exists_find?_of_mem
  · rintro ⟨d, hd⟩
    exact OrderedMap.mem_keys_of_find? hd

theorem name_of_find? {c : Catalog} {n : String} {d : ModuleDescriptor} (h : c.find? n = some d) :
    d.name = n :=
  c.named (n, d) (OrderedMap.find?_eq_some_iff.mp h)

theorem mem_descriptors_iff {c : Catalog} {d : ModuleDescriptor} :
    d ∈ c.descriptors ↔ c.find? d.name = some d := by
  constructor
  · intro h
    obtain ⟨⟨n, found⟩, hentry, rfl⟩ := List.mem_map.mp h
    have hname : found.name = n := c.named (n, found) hentry
    exact OrderedMap.find?_eq_some_iff.mpr (hname ▸ hentry)
  · exact OrderedMap.mem_values_of_find?

theorem find?_map_snd {entries : List (String × ModuleDescriptor)}
    (h : ∀ p ∈ entries, p.2.name = p.1) (n : String) :
    (entries.map Prod.snd).find? (fun d => d.name == n) = OrderedMap.lookup n entries := by
  induction entries with
  | nil => rfl
  | cons p entries ih =>
    obtain ⟨hname, hrest⟩ := List.forall_mem_cons.mp h
    rw [List.map_cons, List.find?_cons, hname, OrderedMap.lookup]
    by_cases hn : p.1 = n
    · rw [beq_iff_eq.mpr hn, if_pos hn]
    · rw [beq_eq_false_iff_ne.mpr hn, if_neg hn]
      exact ih hrest

/-- The finder over a catalog finds what the catalog holds. -/
theorem find?_finder (c : Catalog) (n : String) :
    c.finder.find? n = (c.find? n).map referenceTo := by
  show (c.descriptors.map referenceTo).find? _ = _
  rw [List.find?_map]
  exact congrArg (Option.map referenceTo) (find?_map_snd c.named n)

/-! ## The loop -/

/-- Adds what is read under each of some keys; keys under which nothing is found are passed
over. -/
def collect {α : Type} (read : α → Except AtlasError (Option ModuleDescriptor))
    (units : Catalog) : List α → Except AtlasError Catalog
  | [] => .ok units
  | name :: names => do
    match ← read name with
    | some d => collect read (units.add d) names
    | none => collect read units names

theorem collect_map {α β : Type} (read : β → Except AtlasError (Option ModuleDescriptor))
    (key : α → β) (units : Catalog) (names : List α) :
    collect read units (names.map key) = collect (fun name => read (key name)) units names := by
  induction names generalizing units with
  | nil => rfl
  | cons name names ih =>
    rw [List.map_cons, collect, collect]
    cases read (key name) with
    | error e => rfl
    | ok found =>
      cases found with
      | none => exact ih units
      | some d => exact ih (units.add d)

theorem catalogPacked_eq_collect (image : RuntimeImage) (units : Catalog) (names : List String) :
    Platform.catalogPacked image units names = collect (Platform.readPacked image) units names := by
  induction names generalizing units with
  | nil => rfl
  | cons name names ih =>
    rw [Platform.catalogPacked, collect]
    cases Platform.readPacked image name with
    | error e => rfl
    | ok found =>
      cases found with
      | none => exact ih units
      | some d => exact ih (units.add d)

theorem catalogExploded_eq_collect (tree : FileTree) (handle : Handle) (root : Path)
    (units : Catalog) (names : List OsText) :
    Platform.catalogExploded tree handle units (names.map root.child) =
      collect (fun name => Platform.readExploded tree handle (root.child name)) units names := by
  induction names generalizing units with
  | nil => rfl
  | cons name names ih =>
    rw [List.map_cons, Platform.catalogExploded, collect]
    cases Platform.readExploded tree handle (root.child name) with
    | error e => rfl
    | ok found =>
      cases found with
      | none => exact ih units
      | some d => exact ih (units.add d)

variable {read : String → Except AtlasError (Option ModuleDescriptor)} {units c : Catalog}
  {names : List String}

/-- Every module can be looked at if and only if there is a catalog. -/
theorem exists_collect_iff :
    (∃ c, collect read units names = .ok c) ↔ ∀ n ∈ names, ∃ found, read n = .ok found := by
  induction names generalizing units with
  | nil => exact iff_of_true ⟨units, rfl⟩ fun n hn => absurd hn List.not_mem_nil
  | cons name names ih =>
    rw [List.forall_mem_cons, collect]
    cases hread : read name with
    | error e =>
      refine iff_of_false ?_ ?_
      · rintro ⟨c, hc⟩
        cases hc
      · rintro ⟨⟨found, hfound⟩, -⟩
        cases hfound
    | ok found =>
      cases found with
      | none => exact (@ih units).trans (and_iff_right ⟨none, rfl⟩).symm
      | some d => exact (@ih (units.add d)).trans (and_iff_right ⟨some d, rfl⟩).symm

/-- Where every descriptor declares the name that it was read under, the catalog holds what was
read. -/
theorem find?_collect (h : collect read units names = .ok c) (hdistinct : names.Nodup)
    (hname : ∀ n ∈ names, ∀ d, read n = .ok (some d) → d.name = n) (n : String) :
    c.find? n =
      if n ∈ names then ((read n).toOption.join).or (units.find? n) else units.find? n := by
  induction names generalizing units with
  | nil =>
    obtain rfl : units = c := Except.ok.inj h
    rfl
  | cons name names ih =>
    obtain ⟨hnew, hrest⟩ := List.nodup_cons.mp hdistinct
    obtain ⟨hfirst, hlater⟩ := List.forall_mem_cons.mp hname
    rw [collect] at h
    cases hread : read name with
    | error e => rw [hread] at h; cases h
    | ok found =>
      rw [hread] at h
      by_cases hn : n = name
      · -- the name does not come again, so what is read now stays
        subst hn
        rw [if_pos List.mem_cons_self, hread]
        cases found with
        | none => rw [ih h hrest hlater, if_neg hnew]; rfl
        | some d => rw [ih h hrest hlater, if_neg hnew, find?_add, if_pos (hfirst d hread)]; rfl
      · have hmem : n ∈ name :: names ↔ n ∈ names :=
          ⟨fun hc => (List.mem_cons.mp hc).resolve_left hn, List.mem_cons_of_mem name⟩
        simp only [hmem]
        cases found with
        | none => exact ih h hrest hlater
        | some d =>
          have hother : (units.add d).find? n = units.find? n := by
            rw [find?_add, hfirst d hread, if_neg (Ne.symm hn)]
          rw [← hother]
          exact ih h hrest hlater

/-- In a catalog that was started empty, there is under each name what was read there. -/
theorem find?_collect_iff (h : collect read .empty names = .ok c) (hdistinct : names.Nodup)
    (hname : ∀ n ∈ names, ∀ d, read n = .ok (some d) → d.name = n) {n : String}
    {d : ModuleDescriptor} :
    c.find? n = some d ↔ n ∈ names ∧ read n = .ok (some d) := by
  have hempty : Catalog.empty.find? n = none := rfl
  rw [find?_collect h hdistinct hname, hempty, Option.or_none]
  by_cases hn : n ∈ names
  · rw [if_pos hn, and_iff_right hn]
    cases read n with
    | error e => simp [Except.toOption]
    | ok found => simp [Except.toOption]
  · rw [if_neg hn]
    exact iff_of_false nofun fun hd => hn hd.1

end Catalog
end ModuleAtlas
