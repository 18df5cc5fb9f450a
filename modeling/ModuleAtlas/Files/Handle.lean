/-! # Open files

What has been opened stays readable until it is closed, and closing one thing never closes
another.  A handle says which thing is meant: the opening it stems from, and its part in it.
`Closed` is the set of handles that have been closed, which is all that closing changes.

A call can be broken off while it reads.  What it was reading from stays readable, but it is
marked, and `Closed` keeps the marks as well.
-/
namespace ModuleAtlas

/-- The part that an open file plays in the opening it stems from. -/
inductive HandlePart where
  /-- What was to be opened. -/
  | whole
  /-- The packed platform. -/
  | platform
  /-- The root archive of a number. -/
  | root (index : Nat)
  /-- The class path archive of a number. -/
  | classPath (index : Nat)
  /-- The module of a name. -/
  | unit (name : String)
deriving DecidableEq, Repr, Inhabited

/-- An open file. -/
structure Handle where
  /-- The number of the opening. -/
  opening : Nat
  /-- The part in it. -/
  part : HandlePart
deriving DecidableEq, Repr, Inhabited

/-- The files that have been closed, and those at which a call was broken off. -/
structure Closed where
  /-- The handles of those that have been closed. -/
  handles : List Handle := []
  /-- The handles of those at which a call was broken off. -/
  marked : List Handle := []
deriving Inhabited

namespace Closed

/-- Whether a file has been closed. -/
def contains (c : Closed) (h : Handle) : Bool := decide (h ∈ c.handles)

/-- Closes a file.  The answer is whether it was open before. -/
def close (c : Closed) (h : Handle) : Bool × Closed :=
  if c.contains h then (false, c) else (true, { c with handles := h :: c.handles })

/-- Whether a call on a file was broken off. -/
def isMarked (c : Closed) (h : Handle) : Bool := decide (h ∈ c.marked)

/-- Marks a file, as a call on it is broken off. -/
def mark (c : Closed) (h : Handle) : Closed := { c with marked := h :: c.marked }

theorem contains_close (c : Closed) (h other : Handle) :
    ((c.close h).2).contains other = (decide (other = h) || c.contains other) := by
  unfold close
  by_cases hc : c.contains h = true
  · rw [if_pos hc]
    by_cases ho : other = h
    · subst ho; simp [hc]
    · simp [ho]
  · rw [if_neg hc]
    simp [contains]

@[simp] theorem contains_mark (c : Closed) (h other : Handle) :
    (c.mark h).contains other = c.contains other := rfl

@[simp] theorem isMarked_mark (c : Closed) (h other : Handle) :
    (c.mark h).isMarked other = (decide (other = h) || c.isMarked other) := by
  simp [isMarked, mark]

@[simp] theorem isMarked_close (c : Closed) (h other : Handle) :
    ((c.close h).2).isMarked other = c.isMarked other := by
  unfold close
  split <;> rfl

end Closed
end ModuleAtlas
