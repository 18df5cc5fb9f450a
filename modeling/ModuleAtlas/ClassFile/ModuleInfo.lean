import ModuleAtlas.ClassFile.ConstantPool
import ModuleAtlas.Descriptor

/-! # Module descriptors in class files

A descriptor is spread over the attributes of a class file named `module-info.class`.
`Attribute.read` decodes one attribute, `assemble` puts the attributes together, and
`parseModuleInfo` is the whole reader.  Everything else in the file is skipped.
-/
namespace ModuleAtlas.ClassFile

/-- The bit of a module whose packages are all open. -/
def openBit : UInt16 := 0x0020

/-- The first four bytes of a class file. -/
def magic : Nat := 0xCAFEBABE

/-- An attribute, as far as descriptors need it. -/
inductive Attribute where
  /-- `Module`: the name, directives and version; all else is empty. -/
  | module (d : ModuleDescriptor)
  /-- `ModulePackages`: packages held. -/
  | packages (names : List String)
  /-- `ModuleMainClass`: the class to launch. -/
  | mainClass (name : String)
  /-- `ModuleTarget`: the platform, if it is given. -/
  | target (platform : Option String)
  /-- `ModuleHashes`: hashes of other modules. -/
  | hashes (h : ModuleHashes)
  /-- An attribute of no concern here. -/
  | other
deriving DecidableEq, Inhabited

namespace Attribute

/-- Reads an index and looks it up. -/
def indexed {α : Type} (look : Nat → Except DescriptorError α) : Reader α := do
  Reader.ofExcept (look (← Reader.u2))

/-- Reads one `requires` directive. -/
def readRequires (pool : ConstantPool) : Reader Requires := do
  let name ← Reader.u2
  let flags ← Reader.u2
  let version ← Reader.u2
  return {
    name := ← Reader.ofExcept (pool.moduleName name)
    modifiers := Modifiers.ofFlags (UInt16.ofNat flags)
    compiledVersion := ← Reader.ofExcept (pool.text? version) }

/-- Reads one `exports` or `opens` directive. -/
def readExports (pool : ConstantPool) : Reader Exports := do
  let source ← indexed pool.packageName
  Reader.skip 2
  let targets ← Reader.counted (indexed pool.moduleName)
  return { source, targets := NameSet.ofList targets }

/-- Reads one `provides` directive. -/
def readProvides (pool : ConstantPool) : Reader Provides := do
  let service ← indexed pool.className
  let providers ← Reader.counted (indexed pool.className)
  return { service, providers }

/-- Reads the body of a `Module` attribute. -/
def readModule (pool : ConstantPool) : Reader ModuleDescriptor := do
  let name ← Reader.u2
  let flags ← Reader.u2
  let version ← Reader.u2
  let name ← Reader.ofExcept (pool.moduleName name)
  let version ← Reader.ofExcept (pool.text? version)
  let requires ← Reader.counted (readRequires pool)
  let exports ← Reader.counted (readExports pool)
  let opens ← Reader.counted (readExports pool)
  let uses ← Reader.counted (indexed pool.className)
  let provides ← Reader.counted (readProvides pool)
  return {
    name, version, requires, exports, opens, provides
    isOpen := UInt16.ofNat flags &&& openBit != 0
    uses := NameSet.ofList uses }

/-- Reads one recorded hash. -/
def readHash (pool : ConstantPool) : Reader (String × Bytes) := do
  let name ← indexed pool.moduleName
  let hash ← Reader.slice (← Reader.u2)
  return (name, hash)

/-- Reads the body of a `ModuleHashes` attribute. -/
def readHashes (pool : ConstantPool) : Reader ModuleHashes := do
  let algorithm ← indexed pool.text
  let hashes ← Reader.counted (readHash pool)
  return { algorithm, hashes := NameMap.ofList hashes }

/-- Reads the body of the attribute of a given name. -/
def readBody (pool : ConstantPool) (name : String) : Reader Attribute := do
  if name = "Module" then return .module (← readModule pool)
  else if name = "ModulePackages" then
    return .packages (← Reader.counted (indexed pool.packageName))
  else if name = "ModuleMainClass" then return .mainClass (← indexed pool.className)
  else if name = "ModuleTarget" then return .target (← indexed pool.text?)
  else if name = "ModuleHashes" then return .hashes (← readHashes pool)
  else return .other

/-- Reads an attribute: the index of its name, the length of its body, and the body, in which
bytes may be left over. -/
def read (pool : ConstantPool) : Reader Attribute := do
  let nameIndex ← Reader.u2
  let length ← Reader.u4
  let name ← Reader.ofExcept (pool.text nameIndex)
  let body ← Reader.slice length
  Reader.ofExcept (((readBody pool name).run body).map Prod.fst)

end Attribute

/-- Skips an attribute. -/
def skipAttribute : Reader Unit := do
  Reader.skip 2
  Reader.skip (← Reader.u4)

/-- Skips a field or method. -/
def skipMember : Reader Unit := do
  Reader.skip 6
  let _ ← Reader.counted skipAttribute

/-- The last value that a function finds in a list. -/
def lastSome? {α β : Type} (f : α → Option β) (l : List α) : Option β :=
  l.reverse.findSome? f

/-- The descriptor that a list of attributes amounts to.  Of several attributes that give the
same thing the last one counts, except that package sets add up; exported and opened packages
are always held. -/
def assemble (attributes : List Attribute) : Except DescriptorError ModuleDescriptor :=
  match lastSome? (fun | .module d => some d | _ => none) attributes with
  | none => .error .missingModuleAttribute
  | some d =>
    .ok { d with
      packages := NameSet.ofList
        (attributes.flatMap (fun | .packages names => names | _ => []) ++ d.visiblePackages)
      mainClass := lastSome? (fun | .mainClass name => some name | _ => none) attributes
      targetPlatform := lastSome? (fun | .target platform => platform | _ => none) attributes
      hashes := lastSome? (fun | .hashes h => some h | _ => none) attributes }

/-- Reads everything that stands before the attributes, and keeps the constant pool. -/
def readHeader : Reader ConstantPool := do
  if (← Reader.u4) ≠ magic then throw .invalidMagic
  Reader.skip 2
  Reader.skip 2
  let pool ← ConstantPool.read
  Reader.skip 2
  Reader.skip 2
  Reader.skip 2
  let _ ← Reader.counted (Reader.skip 2)
  let _ ← Reader.counted skipMember
  let _ ← Reader.counted skipMember
  return pool

/-- Reads a class file up to its last attribute. -/
def readModuleInfo : Reader ModuleDescriptor := do
  let pool ← readHeader
  let attributes ← Reader.counted (Attribute.read pool)
  Reader.ofExcept (assemble attributes)

/-- The module descriptor in a class file; bytes after the last attribute are ignored. -/
def parseModuleInfo (bytes : Bytes) : Except DescriptorError ModuleDescriptor :=
  (readModuleInfo.run bytes).map Prod.fst

end ModuleAtlas.ClassFile
