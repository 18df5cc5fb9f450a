import Mathlib.Data.List.Induction
import ModuleAtlas.Names.Distinct
import ModuleAtlas.Proofs.Resolution.Needed

/-! # The requests behind a selection

While modules are selected, requests are made: for the roots, and then for what each selected module
requires at run time.  The queue leaves out requests for names that are selected by then, and is
worked off from the front, so it holds names twice and lacks others.  This module takes the queue
away: `requestsMade` are all requests in the order in which they are made, with nothing left out.

The loop goes through them from the front.  What it has gone through gives the selected names,
each where it is first asked for, and what the queue holds of names that are not selected is what
the requests from there on hold of them (`Progress`).  So a finished selection lists the names of
its own requests (`Progress.names_eq`), and a name that is about to be selected is the first that
is asked for and not selected (`SelectsThrough.exists_requestsMade_eq`).
-/
namespace ModuleAtlas

/-! ## Requests -/

/-- The requests for what a module requires at run time. -/
def ModuleReference.requests (r : ModuleReference) : List Request :=
  r.followedNames.map fun n => ⟨n, some r.name⟩

/-- All requests that are made: for the roots, and for what each selected module in turn requires at
run time. -/
def requestsMade (roots : NameSet) (s : Selection) : List Request :=
  roots.toList.map (⟨·, none⟩) ++ s.modules.flatMap ModuleReference.requests

/-- The names of these requests. -/
def namesAsked (roots : NameSet) (s : Selection) : List String :=
  roots.toList ++ s.modules.flatMap ModuleReference.followedNames

/-- A request is for a name that is not selected. -/
def Selection.lacks (s : Selection) (q : Request) : Bool := !s.contains q.name

section
variable {roots : NameSet} {s : Selection} {r : ModuleReference} {q : Request} {n : String}

theorem map_name_requests (r : ModuleReference) :
    r.requests.map Request.name = r.followedNames := by
  rw [ModuleReference.requests, List.map_map]
  exact List.map_id _

theorem map_name_requestsMade (roots : NameSet) (s : Selection) :
    (requestsMade roots s).map Request.name = namesAsked roots s := by
  have hroots : (roots.toList.map fun n => (⟨n, none⟩ : Request)).map Request.name =
      roots.toList := by
    rw [List.map_map]
    exact List.map_id _
  rw [requestsMade, namesAsked, List.map_append, hroots, List.map_flatMap]
  simp only [map_name_requests]

theorem requestsMade_add (roots : NameSet) (s : Selection) (r : ModuleReference) :
    requestsMade roots (s.add r) = requestsMade roots s ++ r.requests := by
  simp [requestsMade]

theorem mem_namesAsked_iff :
    n ∈ namesAsked roots s ↔ n ∈ roots ∨ ∃ r ∈ s.modules, n ∈ r.followedNames := by
  rw [namesAsked, List.mem_append, NameSet.mem_toList, List.mem_flatMap]

theorem Selection.lacks_iff : s.lacks q = true ↔ q.name ∉ s.names := by
  rw [lacks, Bool.not_eq_true', contains_eq_false_iff]

theorem requestsOf_eq_filter (s : Selection) (r : ModuleReference) :
    requestsOf s r = r.requests.filter s.lacks := by
  rw [ModuleReference.requests, List.filter_map]
  rfl

/-- What a larger selection lacks is lacked by the smaller one. -/
theorem Selection.filter_lacks_add (s : Selection) (r : ModuleReference) (queue : List Request) :
    (queue.filter s.lacks).filter (s.add r).lacks = queue.filter (s.add r).lacks := by
  rw [List.filter_filter]
  refine List.filter_congr fun q _ => ?_
  unfold lacks
  rw [contains_add]
  cases s.contains q.name <;> simp

end

/-! ## The loop goes through the requests -/

/-- A state of the selection loop: the requests up to a place have been dealt with, and of those
behind it the queue has all that are for names which are not selected. -/
structure Progress (roots : NameSet) (s : Selection) (queue dealt ahead : List Request) : Prop where
  made : requestsMade roots s = dealt ++ ahead
  selected : distinct (dealt.map Request.name) = s.names
  queued : queue.filter s.lacks = ahead.filter s.lacks

namespace Progress
variable {roots : NameSet} {s : Selection} {q : Request} {queue dealt ahead : List Request}
  {r : ModuleReference} {n : String}

theorem initial (roots : NameSet) :
    Progress roots {} (roots.toList.map (⟨·, none⟩)) [] (roots.toList.map (⟨·, none⟩)) where
  made := List.append_nil _
  selected := rfl
  queued := rfl

theorem skip (h : Progress roots s (q :: queue) dealt ahead) (hseen : q.name ∈ s.names) :
    Progress roots s queue dealt ahead where
  made := h.made
  selected := h.selected
  queued := by
    have hqueued := h.queued
    rwa [List.filter_cons_of_neg fun hq => Selection.lacks_iff.mp hq hseen] at hqueued

/-- Before the next request that the queue has there are only requests for selected names. -/
theorem next (h : Progress roots s (q :: queue) dealt ahead) (hnew : q.name ∉ s.names) :
    ∃ passed rest, ahead = passed ++ q :: rest ∧ (∀ p ∈ passed, p.name ∈ s.names) ∧
      queue.filter s.lacks = rest.filter s.lacks := by
  have hqueued := h.queued
  rw [List.filter_cons_of_pos (Selection.lacks_iff.mpr hnew)] at hqueued
  obtain ⟨passed, rest, rfl, hpassed, -, hrest⟩ := List.filter_eq_cons_iff.mp hqueued.symm
  refine ⟨passed, rest, rfl, fun p hp => ?_, hrest.symm⟩
  exact not_not.mp fun hn => hpassed p hp (Selection.lacks_iff.mpr hn)

/-- The names that have been asked for up to a place do not change when only names follow that have
been asked for. -/
theorem selected_append (h : Progress roots s queue dealt ahead) {passed : List Request}
    (hpassed : ∀ p ∈ passed, p.name ∈ s.names) :
    distinct ((dealt ++ passed).map Request.name) = s.names := by
  have hnames : ∀ n ∈ passed.map Request.name, n ∈ s.names := by
    intro n hn
    obtain ⟨p, hp, rfl⟩ := List.mem_map.mp hn
    exact hpassed p hp
  rw [List.map_append, distinct_append, h.selected]
  generalize passed.map Request.name = names at hnames
  induction names with
  | nil => rfl
  | cons n names ih =>
    rw [appendAllNew, List.foldl_cons, appendNew, if_pos (hnames n List.mem_cons_self)]
    exact ih fun m hm => hnames m (List.mem_cons_of_mem n hm)

theorem add (h : Progress roots s (q :: queue) dealt ahead) (hnew : q.name ∉ s.names)
    (hname : r.name = q.name) :
    ∃ dealt ahead, Progress roots (s.add r) (queue ++ requestsOf s r) dealt ahead := by
  obtain ⟨passed, rest, rfl, hpassed, hrest⟩ := h.next hnew
  refine ⟨dealt ++ passed ++ [q], rest ++ r.requests, ?made, ?selected, ?queued⟩
  case made =>
    rw [requestsMade_add, h.made]
    simp only [List.append_assoc, List.cons_append, List.nil_append]
  case selected =>
    rw [List.map_append, List.map_singleton, distinct_concat, h.selected_append hpassed, appendNew,
      if_neg hnew, Selection.names_add, hname]
  case queued =>
    rw [List.filter_append, List.filter_append, ← s.filter_lacks_add r queue, hrest,
      s.filter_lacks_add, requestsOf_eq_filter, s.filter_lacks_add]

theorem namesAsked_eq (h : Progress roots s queue dealt ahead) :
    namesAsked roots s = dealt.map Request.name ++ ahead.map Request.name := by
  rw [← map_name_requestsMade, h.made, List.map_append]

theorem mem_dealt_iff (h : Progress roots s queue dealt ahead) :
    n ∈ dealt.map Request.name ↔ n ∈ s.names := by
  rw [← h.selected, mem_distinct]

theorem mem_namesAsked (h : Progress roots s queue dealt ahead) (hn : n ∈ s.names) :
    n ∈ namesAsked roots s := by
  rw [h.namesAsked_eq]
  exact List.mem_append_left _ (h.mem_dealt_iff.mpr hn)

/-- With an empty queue, the selected names are those that have been asked for. -/
theorem names_eq (h : Progress roots s [] dealt ahead) :
    s.names = distinct (namesAsked roots s) := by
  have hahead : ∀ q ∈ ahead, q.name ∈ s.names := by
    intro q hq
    refine not_not.mp fun hn => ?_
    have hmem : q ∈ ahead.filter s.lacks := List.mem_filter.mpr ⟨hq, Selection.lacks_iff.mpr hn⟩
    rw [← h.queued] at hmem
    exact List.not_mem_nil hmem
  rw [← h.selected_append hahead, ← h.made, map_name_requestsMade]

end Progress

/-- The states that the selection loop goes through for some roots. -/
inductive SelectsThrough (finder : Finder) (roots : NameSet) : Selection → List Request → Prop where
  /-- Nothing is selected, and the roots are asked for. -/
  | start : SelectsThrough finder roots {} (roots.toList.map (⟨·, none⟩))
  /-- A request for a selected name is dropped. -/
  | skip {s : Selection} {q : Request} {queue : List Request}
    (h : SelectsThrough finder roots s (q :: queue)) (hseen : q.name ∈ s.names) :
    SelectsThrough finder roots s queue
  /-- A request for another name is met, if the finder knows the name. -/
  | add {s : Selection} {q : Request} {queue : List Request} {r : ModuleReference}
    (h : SelectsThrough finder roots s (q :: queue)) (hnew : q.name ∉ s.names)
    (hfind : finder.find? q.name = some r) :
    SelectsThrough finder roots (s.add r) (queue ++ requestsOf s r)

namespace SelectsThrough
variable {finder : Finder} {roots : NameSet} {s : Selection} {q : Request} {queue : List Request}

theorem frontier (h : SelectsThrough finder roots s queue) : Frontier finder roots s queue := by
  induction h with
  | start => exact .initial finder roots
  | skip _ hseen ih => exact ih.skip hseen
  | add _ hnew hfind ih => exact ih.add hnew hfind

theorem exists_progress (h : SelectsThrough finder roots s queue) :
    ∃ dealt ahead, Progress roots s queue dealt ahead := by
  induction h with
  | start => exact ⟨_, _, .initial roots⟩
  | skip _ hseen ih =>
    obtain ⟨dealt, ahead, h⟩ := ih
    exact ⟨dealt, ahead, h.skip hseen⟩
  | add _ hnew hfind ih =>
    obtain ⟨dealt, ahead, h⟩ := ih
    exact h.add hnew (Finder.name_of_find? hfind)

/-- A name that is about to be selected is the first that is asked for and not selected. -/
theorem exists_requestsMade_eq (h : SelectsThrough finder roots s (q :: queue))
    (hnew : q.name ∉ s.names) :
    ∃ before after, requestsMade roots s = before ++ q :: after ∧
      ∀ p ∈ before, p.name ∈ s.names := by
  obtain ⟨dealt, ahead, hprogress⟩ := h.exists_progress
  obtain ⟨passed, rest, rfl, hpassed, -⟩ := hprogress.next hnew
  refine ⟨dealt ++ passed, rest, ?_, fun p hp => ?_⟩
  · rw [hprogress.made, List.append_assoc]
  · rcases List.mem_append.mp hp with hp | hp
    · exact hprogress.mem_dealt_iff.mp (List.mem_map_of_mem hp)
    · exact hpassed p hp

end SelectsThrough

/-- The loop ends in one of its states: with an empty queue, or at a name that is not known. -/
theorem selectsThrough_selectRoots (finder : Finder) (roots : NameSet) :
    match selectRoots finder roots with
    | .ok s => SelectsThrough finder roots s []
    | .error e => ∃ s q rest, SelectsThrough finder roots s (q :: rest) ∧ q.name ∉ s.names ∧
        finder.find? q.name = none ∧ e = .unresolved q.name q.origin :=
  select_induction (P := SelectsThrough finder roots) (fun _ _ _ => .skip) (fun _ _ _ _ => .add)
    .start

end ModuleAtlas
