import ModuleAtlas.EntryName
import ModuleAtlas.Names.NameMap
import ModuleAtlas.Names.NameSet

/-! # Module descriptors

What a module declares about itself: the modules it requires, the packages it exports and
opens, the services it uses and provides, and the packages it holds.  Package and class names
are written with dots throughout.

Dependency analysis looks at part of this only; `ModuleDescriptor.sanitized` is that part.
-/
namespace ModuleAtlas

/-- The modifiers of a `requires` directive. -/
structure Modifiers where
  /-- Readers of the requiring module read the required one as well. -/
  transitive : Bool := false
  /-- The required module may be absent at run time. -/
  isStatic : Bool := false
  /-- Not written by a programmer. -/
  synthetic : Bool := false
  /-- Implied by the language. -/
  mandated : Bool := false
deriving DecidableEq, Repr, Inhabited

namespace Modifiers

/-- The bit of `transitive`. -/
def transitiveBit : UInt16 := 0x0020
/-- The bit of `static`. -/
def staticBit : UInt16 := 0x0040
/-- The bit of `synthetic`. -/
def syntheticBit : UInt16 := 0x1000
/-- The bit of `mandated`. -/
def mandatedBit : UInt16 := 0x8000

/-- The modifiers recorded in a flag word; other bits are ignored. -/
def ofFlags (flags : UInt16) : Modifiers where
  transitive := flags &&& transitiveBit != 0
  isStatic := flags &&& staticBit != 0
  synthetic := flags &&& syntheticBit != 0
  mandated := flags &&& mandatedBit != 0

/-- The flag word of a set of modifiers. -/
def toFlags (m : Modifiers) : UInt16 :=
  (if m.transitive then transitiveBit else 0) ||| (if m.isStatic then staticBit else 0) |||
    (if m.synthetic then syntheticBit else 0) ||| (if m.mandated then mandatedBit else 0)

theorem ofFlags_toFlags (m : Modifiers) : ofFlags m.toFlags = m := by
  obtain ⟨t, s, y, d⟩ := m
  cases t <;> cases s <;> cases y <;> cases d <;> decide

end Modifiers

/-- A `requires` directive. -/
structure Requires where
  /-- The required module. -/
  name : String
  /-- How it is required. -/
  modifiers : Modifiers := {}
  /-- The version that was there at compile time. -/
  compiledVersion : Option String := none
deriving DecidableEq, Repr, Inhabited

/-- An `exports` or `opens` directive. -/
structure Exports where
  /-- The package made visible. -/
  source : String
  /-- The modules it is visible to; without any, it is visible to all. -/
  targets : NameSet := ∅
deriving DecidableEq, Repr, Inhabited

/-- Whether the directive names the modules it is meant for. -/
def Exports.isQualified (e : Exports) : Bool := !e.targets.isEmpty

/-- A `provides` directive. -/
structure Provides where
  /-- The service class. -/
  service : String
  /-- The providing classes, in the order declared. -/
  providers : List String
deriving DecidableEq, Repr, Inhabited

/-- Hashes of other modules, recorded when the module was built. -/
structure ModuleHashes where
  /-- The name of the hash function. -/
  algorithm : String
  /-- The hash of each module. -/
  hashes : NameMap (List UInt8)
deriving DecidableEq, Inhabited

/-- What a module declares about itself. -/
structure ModuleDescriptor where
  /-- The module's name. -/
  name : String
  /-- Whether all its packages are open. -/
  isOpen : Bool := false
  /-- The module's version. -/
  version : Option String := none
  /-- The required modules, in the order declared. -/
  requires : List Requires := []
  /-- The exported packages, in the order declared. -/
  exports : List Exports := []
  /-- The opened packages, in the order declared. -/
  opens : List Exports := []
  /-- The services it looks up. -/
  uses : NameSet := ∅
  /-- The services it provides, in the order declared. -/
  provides : List Provides := []
  /-- The packages it holds. -/
  packages : NameSet := ∅
  /-- The class to launch. -/
  mainClass : Option String := none
  /-- The platform it was built for. -/
  targetPlatform : Option String := none
  /-- The hashes it records. -/
  hashes : Option ModuleHashes := none
deriving DecidableEq, Inhabited

namespace ModuleDescriptor

/-- The packages named by the directives that export and open packages. -/
def visiblePackages (d : ModuleDescriptor) : List String :=
  d.exports.map Exports.source ++ d.opens.map Exports.source

/-- The part that dependency analysis needs: requires, exports, services and the package set,
which takes in all exported and opened packages.  Versions, hashes, openness and what concerns
launching are dropped. -/
def sanitized (d : ModuleDescriptor) : ModuleDescriptor where
  name := d.name
  requires := d.requires
  exports := d.exports
  uses := d.uses
  provides := d.provides
  packages := d.packages.insertAll d.visiblePackages

/-- Whether some package is exported to every module. -/
def exportsUnqualified (d : ModuleDescriptor) : Bool :=
  d.exports.any fun e => !e.isQualified

/-- The packages of the class entries among `entries`, leaving out descriptors and the unnamed
package. -/
def packagesOfEntries (entries : List String) : List String :=
  ((entries.filter EntryName.isModuleClass).map EntryName.package).filter (· ≠ "")

/-- Adds the packages of the class entries that the module was found to hold. -/
def extendPackages (d : ModuleDescriptor) (entries : List String) : ModuleDescriptor :=
  { d with packages := d.packages.insertAll (packagesOfEntries entries) }

end ModuleDescriptor
end ModuleAtlas
