import ModuleAtlas.Resolution.Selection

/-! # Circles among selected modules

Selected modules must not require each other in a circle, and for this every requirement among
them counts, the static ones too.  The search goes depth first.  The modules it has entered and
not left form the trail; a requirement that leads back to the trail closes a circle.  Modules it
has left are done and are not entered again.

The trail never repeats a module and holds selected ones only, so it cannot grow for ever; at
one length of the trail the targets left to look at become fewer.
-/
namespace ModuleAtlas

/-- The circle that a requirement of the top of the trail closes by leading back to `name`: from
`name` along the trail to its top, and `name` again.  The trail is written top first. -/
def circleOf (trail : List String) (name : String) : List String :=
  name :: (trail.takeWhile (· ≠ name)).reverse ++ [name]

theorem offTrail_cons_length {s : Selection} {trail : List String} {name : String}
    {r : ModuleReference} (hnew : name ∉ trail) (hfind : s.find? name = some r) :
    (s.names.filter (· ∉ name :: trail)).length < (s.names.filter (· ∉ trail)).length := by
  have hname : r.name = name := by
    have hp := List.find?_some (p := fun (q : ModuleReference) => q.name == name) hfind
    exact eq_of_beq hp
  have hmem : name ∈ s.names.filter (· ∉ trail) :=
    List.mem_filter.mpr
      ⟨hname ▸ List.mem_map_of_mem (List.mem_of_find?_eq_some hfind), decide_eq_true hnew⟩
  -- what is off the longer trail is off the shorter one and is not `name`
  have hsub : s.names.filter (· ∉ name :: trail) =
      (s.names.filter (· ∉ trail)).filter fun n => !(n == name) := by
    rw [List.filter_filter]
    refine List.filter_congr fun n _ => ?_
    by_cases h : n = name <;> simp [h]
  rw [hsub]
  exact List.length_filter_lt_length_iff_exists.mpr ⟨name, hmem, by simp⟩

/-- Enters the targets one after the other, unless they are done.  The answer is the modules
that are done then, or a circle. -/
def searchCircle (s : Selection) (trail done : List String) :
    List String → Except (List String) (List String)
  | [] => .ok done
  | name :: targets =>
    match _hfind : s.find? name with
    | none => searchCircle s trail done targets
    | some r =>
      if name ∈ done then searchCircle s trail done targets
      else if _htrail : name ∈ trail then .error (circleOf trail name)
      else
        match searchCircle s (name :: trail) done r.requiredNames with
        | .error circle => .error circle
        | .ok done' => searchCircle s trail (name :: done') targets
termination_by targets => ((s.names.filter (· ∉ trail)).length, targets.length)
decreasing_by
  -- a target that is not selected, and one that is done
  · exact Prod.Lex.right _ (Nat.lt_succ_self _)
  · exact Prod.Lex.right _ (Nat.lt_succ_self _)
  -- the entered module joins the trail
  · exact Prod.Lex.left _ _ (offTrail_cons_length _htrail _hfind)
  -- the trail is as before
  · exact Prod.Lex.right _ (Nat.lt_succ_self _)

/-- Fails with the first circle among the selected modules, in the order of selection. -/
def rejectCircles (s : Selection) : Except ResolutionError Unit :=
  match searchCircle s [] [] s.names with
  | .ok _ => .ok ()
  | .error circle => .error (.cycle circle)

end ModuleAtlas
