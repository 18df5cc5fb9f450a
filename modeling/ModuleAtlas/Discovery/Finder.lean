import ModuleAtlas.Discovery.Reference

/-! # Finders

A finder knows finitely many modules, one of each name.  Finders stack in layers: the first
layer that knows a name answers for it, and `Finder.stack` is the one finder that a stack
amounts to.
-/
namespace ModuleAtlas

/-- The first reference of each name in a list, in order. -/
def keepFirst : List ModuleReference → List ModuleReference
  | [] => []
  | r :: rest => r :: (keepFirst rest).filter fun s => s.name ≠ r.name

theorem mem_of_mem_keepFirst {r : ModuleReference} {l : List ModuleReference}
    (h : r ∈ keepFirst l) : r ∈ l := by
  induction l with
  | nil => exact h
  | cons s rest ih =>
    rcases List.mem_cons.mp h with rfl | h
    · exact List.mem_cons_self ..
    · exact List.mem_cons_of_mem _ (ih (List.mem_filter.mp h).1)

theorem nodup_keepFirst (l : List ModuleReference) :
    ((keepFirst l).map ModuleReference.name).Nodup := by
  induction l with
  | nil => exact List.nodup_nil
  | cons r rest ih =>
    refine List.nodup_cons.mpr ⟨?_, ?_⟩
    · intro h
      obtain ⟨s, hs, he⟩ := List.mem_map.mp h
      exact (of_decide_eq_true (List.mem_filter.mp hs).2) he
    · exact ((List.filter_sublist (l := keepFirst rest)).map _).nodup ih

/-- A source of modules that knows one module of each of finitely many names. -/
structure Finder where
  /-- The modules it knows, in the order in which it lists them. -/
  references : List ModuleReference
  /-- No name occurs twice. -/
  distinct : (references.map ModuleReference.name).Nodup := by simp

namespace Finder

/-- The finder that knows no module. -/
def empty : Finder := ⟨[], List.nodup_nil⟩

instance : Inhabited Finder := ⟨empty⟩

/-- The finder over a list of references, in which earlier ones hide later ones of the same
name. -/
def ofList (references : List ModuleReference) : Finder :=
  ⟨keepFirst references, nodup_keepFirst references⟩

/-- The module of a name. -/
def find? (finder : Finder) (name : String) : Option ModuleReference :=
  finder.references.find? fun r => r.name == name

/-- The names it knows, in its order. -/
def names (finder : Finder) : List String := finder.references.map ModuleReference.name

/-- The finder that a stack amounts to: the first layer that knows a name answers, and names
are listed by first appearance over the layers. -/
def stack (layers : List Finder) : Finder := ofList (layers.flatMap references)

theorem name_of_find? {finder : Finder} {name : String} {r : ModuleReference}
    (h : finder.find? name = some r) : r.name = name := by
  have hp := List.find?_some (p := fun (q : ModuleReference) => q.name == name) h
  exact eq_of_beq hp

theorem mem_of_find? {finder : Finder} {name : String} {r : ModuleReference}
    (h : finder.find? name = some r) : r ∈ finder.references :=
  List.mem_of_find?_eq_some h

end Finder

/-- The layers that a resolution looks through, each of which may be missing. -/
structure Layers where
  /-- Modules that take precedence over the platform. -/
  override : Option Finder := none
  /-- The modules of the platform. -/
  platform : Option Finder := none
  /-- The modules of the application. -/
  application : Option Finder := none
  /-- Modules that only fill gaps. -/
  extra : Option Finder := none
deriving Inhabited

/-- The layers that are there, the one of highest precedence first. -/
def Layers.finders (layers : Layers) : List Finder :=
  [layers.override, layers.platform, layers.application, layers.extra].filterMap id

/-- The finder over all layers. -/
def Layers.finder (layers : Layers) : Finder := Finder.stack layers.finders

end ModuleAtlas
