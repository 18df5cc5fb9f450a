import ModuleAtlas.Discovery.Finder
import ModuleAtlas.Resolution.Error

/-! # Selecting modules

A resolution selects the modules that its roots need: the roots, and what selected modules
require without the static modifier.  `select` works through a queue, breadth first, and keeps
with each queued name the module that asked for it.

The queue may hold a name many times, but a name is selected once, and only names that the
finder knows are selected.  So the names it knows that are not selected yet become fewer with
every selection, and in between the queue becomes shorter.
-/
namespace ModuleAtlas

/-- The modules selected so far, in the order of their selection. -/
structure Selection where
  /-- The selected modules. -/
  modules : List ModuleReference := []
deriving Inhabited

namespace Selection

/-- The selected names in order. -/
def names (s : Selection) : List String := s.modules.map ModuleReference.name

/-- The selected module of a name. -/
def find? (s : Selection) (name : String) : Option ModuleReference :=
  s.modules.find? fun r => r.name == name

/-- Whether a name is selected. -/
def contains (s : Selection) (name : String) : Bool := s.modules.any fun r => r.name == name

/-- Selects one more module. -/
def add (s : Selection) (r : ModuleReference) : Selection := ⟨s.modules ++ [r]⟩

theorem contains_add (s : Selection) (r : ModuleReference) (name : String) :
    (s.add r).contains name = (s.contains name || r.name == name) := by
  simp [contains, add]

/-- The modules of a finder that are not selected. -/
def unselected (s : Selection) (finder : Finder) : List ModuleReference :=
  finder.references.filter fun r => !s.contains r.name

theorem unselected_add_length {s : Selection} {finder : Finder} {name : String}
    {r : ModuleReference} (hnew : s.contains name = false) (hfind : finder.find? name = some r) :
    ((s.add r).unselected finder).length < (s.unselected finder).length := by
  have hmem : r ∈ s.unselected finder :=
    List.mem_filter.mpr ⟨Finder.mem_of_find? hfind, by rw [Finder.name_of_find? hfind, hnew]; rfl⟩
  -- what is left after `r` was left before and has another name
  have hsub : (s.add r).unselected finder = (s.unselected finder).filter fun q => !(r.name == q.name) := by
    unfold unselected
    rw [List.filter_filter]
    refine List.filter_congr fun q _ => ?_
    rw [contains_add, Bool.not_or, Bool.and_comm]
  rw [hsub]
  exact List.length_filter_lt_length_iff_exists.mpr ⟨r, hmem, by simp⟩

end Selection

/-- A name to be selected, and the module that requires it unless it is a root. -/
structure Request where
  /-- The name asked for. -/
  name : String
  /-- The module that asks for it. -/
  origin : Option String := none
deriving DecidableEq, Repr, Inhabited

/-- What a newly selected module asks for: what it requires at run time and what is not
selected yet. -/
def requestsOf (s : Selection) (r : ModuleReference) : List Request :=
  (r.followedNames.filter fun n => !s.contains n).map fun n => ⟨n, some r.name⟩

/-- Works through a queue of requests. -/
def select (finder : Finder) (s : Selection) : List Request → Except ResolutionError Selection
  | [] => .ok s
  | q :: queue =>
    if _hseen : s.contains q.name then select finder s queue
    else
      match _hfind : finder.find? q.name with
      | none => .error (.unresolved q.name q.origin)
      | some r => select finder (s.add r) (queue ++ requestsOf s r)
termination_by queue => ((s.unselected finder).length, queue.length)
decreasing_by
  -- a repeated name only shortens the queue
  · exact Prod.Lex.right _ (Nat.lt_succ_self _)
  -- the queue may grow, but `r` was not selected before
  · exact Prod.Lex.left _ _
      (Selection.unselected_add_length (Bool.eq_false_iff.mpr _hseen) _hfind)

/-- The modules that a set of roots needs. -/
def selectRoots (finder : Finder) (roots : NameSet) : Except ResolutionError Selection :=
  select finder {} (roots.toList.map fun name => ⟨name, none⟩)

end ModuleAtlas
