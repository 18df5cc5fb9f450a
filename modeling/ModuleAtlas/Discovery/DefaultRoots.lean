import ModuleAtlas.Descriptor
import ModuleAtlas.Names.Distinct

/-! # Default roots

When no module of the platform is asked for by name, those that serve every program are roots.
An aggregator module stands for all modules of its namespace; the others are roots if they
export some package to everyone.
-/
namespace ModuleAtlas

/-- The module that stands for the whole standard platform. -/
def defaultAggregator : String := "java.se"

/-- The common beginning of the modules that an aggregator stands for: its own name up to the
first dot, dot included. -/
def namespaceOf (aggregator : String) : String :=
  match Text.splitFirst? '.' aggregator with
  | some (first, _) => first ++ "."
  | none => aggregator ++ "."

/-- Whether a module is a root beside the aggregator: it exports a package to everyone, and the
aggregator, if there is one, does not stand for it. -/
def isDefaultRoot (aggregator : String) (aggregated : Bool) (d : ModuleDescriptor) : Bool :=
  d.name != aggregator && !(aggregated && Text.beginsWith (namespaceOf aggregator) d.name) &&
    d.exportsUnqualified

/-- The default roots among some modules: the aggregator if it is one of them, then the others
in order of first appearance. -/
def defaultRoots (modules : List ModuleDescriptor) (aggregator : String) : List String :=
  let aggregated := modules.any fun d => d.name == aggregator
  let others := (modules.filter (isDefaultRoot aggregator aggregated)).map ModuleDescriptor.name
  distinct ((if aggregated then [aggregator] else []) ++ others)

end ModuleAtlas
