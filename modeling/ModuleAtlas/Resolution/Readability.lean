import ModuleAtlas.Names.Distinct
import ModuleAtlas.Names.OrderedMap
import ModuleAtlas.Resolution.Circles

/-! # Which modules a module reads

A module reads every selected module that it requires, and what those imply: a module implies
what it requires transitively, and what that implies in turn.

`readAlong` is the rule.  `readCached` gives the same answers and keeps what each module implies
once it is known, so that shared dependencies are looked at once.  Both carry the modules they
have entered, and neither enters one twice; where no circle is left that makes no difference.
-/
namespace ModuleAtlas

/-- The selected ones of the targets, each followed by the modules it implies; a name counts
where it first appears. -/
def readAlong (s : Selection) (trail : List String) (found : List String) :
    List String → List String
  | [] => found
  | name :: targets =>
    match _hfind : s.find? name with
    | none => readAlong s trail found targets
    | some r =>
      if _htrail : name ∈ trail then readAlong s trail (appendNew found name) targets
      else
        let implied := readAlong s (name :: trail) [] r.transitiveNames
        readAlong s trail (appendAllNew (appendNew found name) implied) targets
termination_by targets => ((s.names.filter (· ∉ trail)).length, targets.length)
decreasing_by
  · exact Prod.Lex.right _ (Nat.lt_succ_self _)
  · exact Prod.Lex.right _ (Nat.lt_succ_self _)
  · exact Prod.Lex.left _ _ (offTrail_cons_length _htrail _hfind)
  · exact Prod.Lex.right _ (Nat.lt_succ_self _)

/-- The modules that a module implies: those its readers read along with it. -/
def impliedBy (s : Selection) (name : String) : List String :=
  match s.find? name with
  | none => []
  | some r => readAlong s [name] [] r.transitiveNames

/-- What modules imply, as far as it is known. -/
abbrev Implications := OrderedMap (List String)

/-- `readAlong` that looks into what is known first and adds what it finds out. -/
def readCached (s : Selection) (trail : List String) (known : Implications)
    (found : List String) : List String → List String × Implications
  | [] => (found, known)
  | name :: targets =>
    match _hfind : s.find? name with
    | none => readCached s trail known found targets
    | some r =>
      match known.find? name with
      | some implied =>
        readCached s trail known (appendAllNew (appendNew found name) implied) targets
      | none =>
        if _htrail : name ∈ trail then readCached s trail known (appendNew found name) targets
        else
          -- what is found out on the way is known for the targets after this one
          let (implied, known) := readCached s (name :: trail) known [] r.transitiveNames
          readCached s trail (known.insert name implied)
            (appendAllNew (appendNew found name) implied) targets
termination_by targets => ((s.names.filter (· ∉ trail)).length, targets.length)
decreasing_by
  · exact Prod.Lex.right _ (Nat.lt_succ_self _)
  · exact Prod.Lex.right _ (Nat.lt_succ_self _)
  · exact Prod.Lex.right _ (Nat.lt_succ_self _)
  · exact Prod.Lex.left _ _ (offTrail_cons_length _htrail _hfind)
  · exact Prod.Lex.right _ (Nat.lt_succ_self _)

/-- The modules read by each of some modules, in the same order. -/
def readEach (s : Selection) (known : Implications) : List ModuleReference → List (List String)
  | [] => []
  | r :: rest =>
    let (reads, known) := readCached s [] known [] r.requiredNames
    reads :: readEach s known rest

end ModuleAtlas
