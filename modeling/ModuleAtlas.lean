import ModuleAtlas.Binary
import ModuleAtlas.ClassFile.ConstantPool
import ModuleAtlas.ClassFile.ModuleInfo
import ModuleAtlas.ClassFile.Reader
import ModuleAtlas.ClassFile.Writer
import ModuleAtlas.CommandLine.Arguments
import ModuleAtlas.CommandLine.Footprint
import ModuleAtlas.CommandLine.Run
import ModuleAtlas.Configuration.Build
import ModuleAtlas.Configuration.BuildPlan
import ModuleAtlas.Configuration.ClassPath
import ModuleAtlas.Configuration.Queries
import ModuleAtlas.Configuration.Settings
import ModuleAtlas.Content.Artifact
import ModuleAtlas.Content.EntryReader
import ModuleAtlas.Content.Layout
import ModuleAtlas.Descriptor
import ModuleAtlas.Discovery.Catalog
import ModuleAtlas.Discovery.DefaultRoots
import ModuleAtlas.Discovery.Finder
import ModuleAtlas.Discovery.ModulePath
import ModuleAtlas.Discovery.Platform
import ModuleAtlas.Discovery.Reference
import ModuleAtlas.EntryName
import ModuleAtlas.Error
import ModuleAtlas.Files.Folder
import ModuleAtlas.Files.Handle
import ModuleAtlas.Files.Path
import ModuleAtlas.Files.Tree
import ModuleAtlas.Image.Header
import ModuleAtlas.Image.Location
import ModuleAtlas.Image.RuntimeImage
import ModuleAtlas.Image.Writer
import ModuleAtlas.Main
import ModuleAtlas.Names.Distinct
import ModuleAtlas.Names.NameMap
import ModuleAtlas.Names.NameSet
import ModuleAtlas.Names.OrderedMap
import ModuleAtlas.Ownership.Owner
import ModuleAtlas.Ownership.PackageIndex
import ModuleAtlas.Proofs.Resolution.Needed
import ModuleAtlas.Report.Json
import ModuleAtlas.Report.Views
import ModuleAtlas.Resolution.Circles
import ModuleAtlas.Resolution.Error
import ModuleAtlas.Resolution.Graph
import ModuleAtlas.Resolution.Readability
import ModuleAtlas.Resolution.Selection
import ModuleAtlas.Text.Blank
import ModuleAtlas.Text.CodePage437
import ModuleAtlas.Text.Cut
import ModuleAtlas.Text.Quoted
import ModuleAtlas.Text.Shown
import ModuleAtlas.Text.Utf8
import ModuleAtlas.Toml.Document
import ModuleAtlas.Toml.Grammar
import ModuleAtlas.Toml.Number
import ModuleAtlas.Toml.Text
import ModuleAtlas.Toml.Value
import ModuleAtlas.Zip.Archive
import ModuleAtlas.Zip.Checksum
import ModuleAtlas.Zip.Error
import ModuleAtlas.Zip.Huffman
import ModuleAtlas.Zip.Inflate
import ModuleAtlas.Proofs.Resolution.Outcome
import ModuleAtlas.Proofs.Resolution.Reads
import ModuleAtlas.Proofs.ClassFile.Reading
import ModuleAtlas.Proofs.Text.Utf8
import ModuleAtlas.Proofs.ClassFile.Pool
import ModuleAtlas.Proofs.ClassFile.Pieces
import ModuleAtlas.Proofs.ClassFile.RoundTrip
import ModuleAtlas.Proofs.Steps
import ModuleAtlas.Proofs.Resolution.Congruence
import ModuleAtlas.Proofs.Resolution.Monotone
import ModuleAtlas.Proofs.Configuration.Consistency
import ModuleAtlas.Proofs.Image.Words
import ModuleAtlas.Proofs.Image.Locations
import ModuleAtlas.Proofs.Image.Tables
import ModuleAtlas.Proofs.Image.Slots
import ModuleAtlas.Proofs.Image.RoundTrip
import ModuleAtlas.Proofs.Files.Paths
import ModuleAtlas.Proofs.Files.Locate
import ModuleAtlas.Proofs.Ownership.Owners
import ModuleAtlas.Proofs.Discovery.Descriptors
import ModuleAtlas.Proofs.Discovery.Catalogs
import ModuleAtlas.Proofs.Discovery.HomeContent
import ModuleAtlas.Proofs.Discovery.PackedHome
import ModuleAtlas.Proofs.Discovery.ExplodedHome
import ModuleAtlas.Proofs.Discovery.Agreement
import ModuleAtlas.Proofs.Configuration.Agreement
import ModuleAtlas.Proofs.Configuration.Homes
import ModuleAtlas.Proofs.Ownership.Additions
import ModuleAtlas.Proofs.Discovery.Layers
import ModuleAtlas.Proofs.Discovery.Declared
import ModuleAtlas.Proofs.Configuration.Units
import ModuleAtlas.Proofs.Configuration.Classes
import ModuleAtlas.Proofs.Content.Archives
import ModuleAtlas.Proofs.Image.Places
import ModuleAtlas.Proofs.Discovery.Subtrees
import ModuleAtlas.Proofs.Configuration.Closing
import ModuleAtlas.Proofs.Configuration.Roots
import ModuleAtlas.Proofs.ClassFile.Constants
import ModuleAtlas.Proofs.ClassFile.Consumed
import ModuleAtlas.Proofs.ClassFile.Layout
import ModuleAtlas.Proofs.ClassFile.Relevant
import ModuleAtlas.Proofs.Image.Opening
import ModuleAtlas.Proofs.Text.ByteOrder
import ModuleAtlas.Proofs.Resolution.Requests
import ModuleAtlas.Proofs.Resolution.Discovery
import ModuleAtlas.Proofs.Resolution.Marks
import ModuleAtlas.Proofs.Ownership.Spellings
import ModuleAtlas.Proofs.Content.Releases
import ModuleAtlas.Proofs.Content.Nesting
import ModuleAtlas.Proofs.Configuration.Unknown
import ModuleAtlas.Proofs.Discovery.Search
import ModuleAtlas.Proofs.Content.Runs
import ModuleAtlas.Proofs.Image.OtherOrder
import ModuleAtlas.Proofs.Ownership.ClassPackages
import ModuleAtlas.Proofs.Configuration.Sanitizing
import ModuleAtlas.Proofs.Configuration.ClassPaths
import ModuleAtlas.Proofs.Discovery.DefaultRoots
import ModuleAtlas.Proofs.Configuration.PathLists
import ModuleAtlas.Proofs.Content.Folders
import ModuleAtlas.Proofs.Resolution.Endings
import ModuleAtlas.Proofs.Resolution.Asking
import ModuleAtlas.Proofs.Image.Attributes
