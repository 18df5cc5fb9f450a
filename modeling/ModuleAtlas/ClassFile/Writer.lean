import ModuleAtlas.ClassFile.ModuleInfo
import ModuleAtlas.Names.Distinct

/-! # Writing module descriptors

A written class file is a constant pool and, for each attribute, a sequence of pieces that are
numbers, references to the pool or plain bytes.  The pool is made from the pieces: it holds what
they refer to, in the order in which it is first referred to.

`encodeModuleInfo` writes what `parseModuleInfo` reads.
-/
namespace ModuleAtlas.ClassFile

/-- What a piece can refer to.  Names of classes and packages are written with slashes. -/
inductive Symbol where
  /-- A text. -/
  | text (s : String)
  /-- A class. -/
  | classRef (name : String)
  /-- A module. -/
  | moduleRef (name : String)
  /-- A package. -/
  | packageRef (name : String)
deriving DecidableEq, Repr, Inhabited

namespace Symbol

/-- The class of a dotted name. -/
def ofClass (dotted : String) : Symbol := .classRef (Text.replace '.' '/' dotted)

/-- The package of a dotted name. -/
def ofPackage (dotted : String) : Symbol := .packageRef (Text.replace '.' '/' dotted)

/-- What has to be in the pool for a symbol, in order: its name comes first. -/
def withName : Symbol → List Symbol
  | .text s => [.text s]
  | .classRef name => [.text name, .classRef name]
  | .moduleRef name => [.text name, .moduleRef name]
  | .packageRef name => [.text name, .packageRef name]

end Symbol

/-- A part of an attribute. -/
inductive Piece where
  /-- A number of two bytes. -/
  | number (n : Nat)
  /-- The slot of a symbol. -/
  | ref (s : Symbol)
  /-- Plain bytes. -/
  | raw (bytes : Bytes)
deriving DecidableEq, Repr, Inhabited

namespace Piece

/-- A text that may be missing. -/
def optionalText : Option String → Piece
  | some s => .ref (.text s)
  | none => .number 0

/-- What a piece refers to. -/
def symbols : Piece → List Symbol
  | .ref s => s.withName
  | _ => []

/-- The number of things, and the pieces of each. -/
def counted {α : Type} (write : α → List Piece) (things : List α) : List Piece :=
  .number things.length :: things.flatMap write

/-- A `requires` directive. -/
def ofRequires (r : Requires) : List Piece :=
  [.ref (.moduleRef r.name), .number r.modifiers.toFlags.toNat, optionalText r.compiledVersion]

/-- An `exports` or `opens` directive. -/
def ofExports (e : Exports) : List Piece :=
  .ref (.ofPackage e.source) :: .number 0 ::
    counted (fun target => [.ref (.moduleRef target)]) e.targets.toList

/-- A class. -/
def ofClass (dotted : String) : List Piece := [.ref (.ofClass dotted)]

/-- A `provides` directive. -/
def ofProvides (p : Provides) : List Piece :=
  .ref (.ofClass p.service) :: counted ofClass p.providers

/-- A recorded hash. -/
def ofHash (h : String × Bytes) : List Piece :=
  [.ref (.moduleRef h.1), .number h.2.length, .raw h.2]

end Piece

/-- An attribute as it is written. -/
structure WrittenAttribute where
  /-- Its name. -/
  name : String
  /-- Its body. -/
  body : List Piece
deriving DecidableEq, Repr, Inhabited

namespace WrittenAttribute

/-- The attribute with the name, the directives and the version. -/
def ofModule (d : ModuleDescriptor) : WrittenAttribute where
  name := "Module"
  body :=
    [.ref (.moduleRef d.name), .number (if d.isOpen then openBit.toNat else 0),
      Piece.optionalText d.version] ++
    Piece.counted Piece.ofRequires d.requires ++
    Piece.counted Piece.ofExports d.exports ++
    Piece.counted Piece.ofExports d.opens ++
    Piece.counted Piece.ofClass d.uses.toList ++
    Piece.counted Piece.ofProvides d.provides

/-- The attribute with the packages. -/
def ofPackages (packages : NameSet) : WrittenAttribute where
  name := "ModulePackages"
  body := Piece.counted (fun p => [.ref (.ofPackage p)]) packages.toList

/-- The attribute with the class to launch. -/
def ofMainClass (name : String) : WrittenAttribute where
  name := "ModuleMainClass"
  body := Piece.ofClass name

/-- The attribute with the platform. -/
def ofTarget (platform : String) : WrittenAttribute where
  name := "ModuleTarget"
  body := [.ref (.text platform)]

/-- The attribute with the recorded hashes. -/
def ofHashes (h : ModuleHashes) : WrittenAttribute where
  name := "ModuleHashes"
  body := .ref (.text h.algorithm) :: Piece.counted Piece.ofHash h.hashes.entries

/-- The attributes of a descriptor; all but the first are written only if there is something to
say. -/
def ofDescriptor (d : ModuleDescriptor) : List WrittenAttribute :=
  ofModule d :: (if d.packages.isEmpty then [] else [ofPackages d.packages]) ++
    (d.mainClass.map ofMainClass).toList ++ (d.targetPlatform.map ofTarget).toList ++
    (d.hashes.map ofHashes).toList

/-- What an attribute refers to; its name comes last. -/
def symbols (a : WrittenAttribute) : List Symbol := a.body.flatMap Piece.symbols ++ [.text a.name]

end WrittenAttribute

/-- The class that a descriptor is written as. -/
def thisClass : Symbol := .classRef "module-info"

/-- The pool for some attributes: everything that is referred to, from slot 1 on. -/
def poolOf (attributes : List WrittenAttribute) : List Symbol :=
  distinct (attributes.flatMap WrittenAttribute.symbols ++ thisClass.withName)

/-- The slot of a symbol. -/
def slotOf (pool : List Symbol) (s : Symbol) : Nat := pool.idxOf s + 1

/-- A number of two bytes. -/
def encodeU2 (n : Nat) : Bytes := Binary.toBigEndian 2 n

/-- A number of four bytes. -/
def encodeU4 (n : Nat) : Bytes := Binary.toBigEndian 4 n

/-- A constant of the pool: its tag, and its text or the slot of its name. -/
def encodeSymbol (pool : List Symbol) : Symbol → Bytes
  | .text s => 1 :: encodeU2 (Utf8.encode s).length ++ Utf8.encode s
  | .classRef name => 7 :: encodeU2 (slotOf pool (.text name))
  | .moduleRef name => 19 :: encodeU2 (slotOf pool (.text name))
  | .packageRef name => 20 :: encodeU2 (slotOf pool (.text name))

/-- The bytes of a piece. -/
def encodePiece (pool : List Symbol) : Piece → Bytes
  | .number n => encodeU2 n
  | .ref s => encodeU2 (slotOf pool s)
  | .raw bytes => bytes

/-- The bytes of an attribute: the slot of its name, the length of its body, and the body. -/
def encodeAttribute (pool : List Symbol) (a : WrittenAttribute) : Bytes :=
  let body := a.body.flatMap (encodePiece pool)
  encodeU2 (slotOf pool (.text a.name)) ++ encodeU4 body.length ++ body

/-- The version of class files that knows modules. -/
def moduleVersion : Nat := 53

/-- The flags of a class file with a module descriptor. -/
def moduleFlags : Nat := 0x8000

/-- The class file with some attributes. -/
def encodeAttributes (attributes : List WrittenAttribute) : Bytes :=
  let pool := poolOf attributes
  encodeU4 magic ++ encodeU2 0 ++ encodeU2 moduleVersion ++
    encodeU2 (pool.length + 1) ++ pool.flatMap (encodeSymbol pool) ++
    encodeU2 moduleFlags ++ encodeU2 (slotOf pool thisClass) ++
    encodeU2 0 ++ encodeU2 0 ++ encodeU2 0 ++ encodeU2 0 ++
    encodeU2 attributes.length ++ attributes.flatMap (encodeAttribute pool)

/-- The class file of a descriptor. -/
def encodeModuleInfo (d : ModuleDescriptor) : Bytes :=
  encodeAttributes (WrittenAttribute.ofDescriptor d)

end ModuleAtlas.ClassFile
