import ModuleAtlas.Discovery.Finder
import ModuleAtlas.Names.OrderedMap

/-! # Catalogs

A catalog holds descriptors by the names they declare, in order of first appearance.  A
descriptor that is added takes the place of one of the same name.
-/
namespace ModuleAtlas

/-- Descriptors by the names they declare. -/
structure Catalog where
  /-- The descriptor of each name. -/
  table : OrderedMap ModuleDescriptor
  /-- Each descriptor stands under its own name. -/
  named : ∀ p ∈ table.entries, p.2.name = p.1

namespace Catalog

/-- The catalog without descriptors. -/
def empty : Catalog := ⟨∅, fun _ h => absurd h List.not_mem_nil⟩

instance : Inhabited Catalog := ⟨empty⟩

/-- Adds a descriptor under its name. -/
def add (c : Catalog) (d : ModuleDescriptor) : Catalog where
  table := c.table.insert d.name d
  named p h := by
    rcases OrderedMap.mem_write h with rfl | h
    · rfl
    · exact c.named p h

/-- The names in order. -/
def names (c : Catalog) : List String := c.table.keys

/-- The descriptors in order. -/
def descriptors (c : Catalog) : List ModuleDescriptor := c.table.values

/-- The descriptor of a name. -/
def find? (c : Catalog) (name : String) : Option ModuleDescriptor := c.table.find? name

theorem map_name_descriptors (c : Catalog) :
    c.descriptors.map ModuleDescriptor.name = c.names := by
  unfold descriptors names OrderedMap.values OrderedMap.keys
  rw [List.map_map]
  exact List.map_congr_left c.named

/-- The reference to a module of the platform. -/
def referenceTo (d : ModuleDescriptor) : ModuleReference := ⟨d, .platform⟩

/-- The finder over a catalog of platform modules. -/
def finder (c : Catalog) : Finder where
  references := c.descriptors.map referenceTo
  distinct := by
    rw [List.map_map, show ModuleReference.name ∘ referenceTo = ModuleDescriptor.name from rfl,
      map_name_descriptors]
    exact c.table.distinct

end Catalog
end ModuleAtlas
