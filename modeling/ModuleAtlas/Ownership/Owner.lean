import ModuleAtlas.Content.Artifact
import ModuleAtlas.Discovery.Reference

/-! # Owners

A class belongs to a module or to an artifact that is no module.
-/
namespace ModuleAtlas

/-- A named module together with the reader of its content. -/
structure ModuleUnit where
  /-- What it declares. -/
  descriptor : ModuleDescriptor
  /-- The address of its content. -/
  location : String
  /-- Whether the platform has a module of this name. -/
  isPlatform : Bool
  /-- The reader of its content. -/
  reader : EntryReader
deriving Inhabited

namespace ModuleUnit

/-- The module's name. -/
def name (u : ModuleUnit) : String := u.descriptor.name

/-- The packages it declares. -/
def packages (u : ModuleUnit) : NameSet := u.descriptor.packages

/-- Whether it holds an entry. -/
def contains (u : ModuleUnit) (entry : String) : Bool := u.reader.contains entry

end ModuleUnit

/-- What a class can belong to. -/
inductive Owner where
  /-- A named module. -/
  | unit (u : ModuleUnit)
  /-- An artifact that is no module. -/
  | artifact (a : Artifact)
deriving Inhabited

namespace Owner

/-- The name to show. -/
def name : Owner → String
  | .unit u => u.name
  | .artifact a => a.name

/-- The address of a module, and the path of an artifact. -/
def location : Owner → String
  | .unit u => u.location
  | .artifact a => a.path.text

/-- The reader of the content. -/
def reader : Owner → EntryReader
  | .unit u => u.reader
  | .artifact a => a.reader

/-- Whether it holds an entry. -/
def contains (o : Owner) (entry : String) : Bool := o.reader.contains entry

end Owner
end ModuleAtlas
