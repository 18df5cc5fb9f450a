import Mathlib.Data.Nat.Find
import Mathlib.Order.Bounds.Basic
import ModuleAtlas.Proofs.Resolution.Outcome
import ModuleAtlas.Proofs.Resolution.Requests
import ModuleAtlas.Proofs.Text.ByteOrder

/-! # The order of discovery

The **distance** of a name is the least number of requirements at run time that lead to it from a
root (`AtDistance`).  A resolved graph lists the roots in the order of their octets, and then the
other modules by distance; of those at one distance, the ones that an earlier module asks for, and
of those the ones that it asks for in an earlier directive (`InDiscoveryOrder`).

A finished selection lists the names of the requests behind it, each where it is first asked for.
The requests of earlier modules come before those of later ones, so a name that is asked for before
another is not further away: on the way to the other one there is a name at one distance less, and
the module that asks for the first one is not behind that (`reachedIn_of_idxOf_le`).

The same holds of a selection that ends at a name which is not known, and of the names it has been
asked for.  Such a name is therefore as near as any unknown name, and it is blamed on the module
that asked for it first (`discovery_of_resolve`).
-/
namespace ModuleAtlas

/-! ## Distances -/

/-- A name is reached from a root by a number of requirements at run time. -/
inductive ReachedIn (finder : Finder) (roots : NameSet) : Nat → String → Prop where
  /-- A root. -/
  | root {n : String} (hn : n ∈ roots) : ReachedIn finder roots 0 n
  /-- A name that a reached module requires at run time. -/
  | follow {k : Nat} {m n : String} (hm : ReachedIn finder roots k m) (h : finder.Follows m n) :
    ReachedIn finder roots (k + 1) n

/-- The least number of requirements at run time that lead to a name from a root. -/
def AtDistance (finder : Finder) (roots : NameSet) (n : String) (d : Nat) : Prop :=
  IsLeast {k | ReachedIn finder roots k n} d

section
variable {finder : Finder} {roots : NameSet} {n : String} {d k : Nat}

theorem ReachedIn.needed (h : ReachedIn finder roots k n) : Needed finder roots n := by
  induction h with
  | root hn => exact .root hn
  | follow _ h ih => exact .follow ih h

theorem Needed.exists_reachedIn (h : Needed finder roots n) : ∃ k, ReachedIn finder roots k n := by
  induction h with
  | root hn => exact ⟨0, .root hn⟩
  | follow _ h ih =>
    obtain ⟨k, hk⟩ := ih
    exact ⟨k + 1, .follow hk h⟩

theorem ReachedIn.exists_atDistance (h : ReachedIn finder roots k n) :
    ∃ d, AtDistance finder roots n d := by
  classical
  have hex : ∃ k, ReachedIn finder roots k n := ⟨k, h⟩
  exact ⟨Nat.find hex, Nat.find_spec hex, fun j hj => Nat.find_min' hex hj⟩

end

/-! ## Places -/

/-- The place of the first module in a list that requires a name at run time. -/
def askerPlace (modules : List ModuleReference) (n : String) : Nat :=
  modules.findIdx fun r => decide (n ∈ r.followedNames)

/-- The place of the first directive of a module that requires a name at run time. -/
def ModuleReference.directivePlace (r : ModuleReference) (n : String) : Nat :=
  r.descriptor.requires.findIdx fun q => !q.modifiers.isStatic && q.name == n

/-- The first module in a list that asks for one name comes before the first that asks for another;
or they are the same module, and its first directive for the one comes before that for the other. -/
def AskedBefore (modules : List ModuleReference) (m n : String) : Prop :=
  askerPlace modules m < askerPlace modules n ∨
    askerPlace modules m = askerPlace modules n ∧
      ∃ r, modules[askerPlace modules m]? = some r ∧ r.directivePlace m < r.directivePlace n

/-- Names that come first in a list come before those that do not. -/
theorem idxOf_append_lt {l : List String} (more : List String) {m n : String} (hm : m ∈ l)
    (hn : n ∉ l) : (l ++ more).idxOf m < (l ++ more).idxOf n := by
  rw [List.idxOf_append_of_mem hm, List.idxOf_append_of_notMem hn]
  have hlt := List.idxOf_lt_length_of_mem hm
  omega

/-- Of two names that some members of a list bear, the one that comes first among the names comes
first in the list. -/
theorem findIdx_lt_of_idxOf_lt {α : Type} (p : α → Bool) (name : α → String) {l : List α}
    {m n : String} (h : ((l.filter p).map name).idxOf m < ((l.filter p).map name).idxOf n) :
    (l.findIdx fun x => p x && name x == m) < l.findIdx fun x => p x && name x == n := by
  induction l with
  | nil => exact absurd h (Nat.lt_irrefl 0)
  | cons x l ih =>
    rw [List.findIdx_cons, List.findIdx_cons]
    cases hp : p x with
    | false =>
      rw [List.filter_cons_of_neg (by simp [hp])] at h
      simpa using ih h
    | true =>
      rw [List.filter_cons_of_pos hp, List.map_cons, List.idxOf_cons, List.idxOf_cons] at h
      cases hm : name x == m with
      | true =>
        cases hn : name x == n with
        | true => simp [hm, hn] at h
        | false => simp
      | false =>
        cases hn : name x == n with
        | true => simp [hn] at h
        | false =>
          simp only [hm, hn, cond_false] at h
          simpa using ih (Nat.lt_of_succ_lt_succ h)

theorem ModuleReference.directivePlace_lt (r : ModuleReference) {m n : String}
    (h : r.followedNames.idxOf m < r.followedNames.idxOf n) :
    r.directivePlace m < r.directivePlace n :=
  findIdx_lt_of_idxOf_lt (fun q : Requires => !q.modifiers.isStatic) Requires.name h

/-- The requests of modules are ordered by the modules, and then by their directives. -/
theorem askedBefore_of_idxOf_lt {modules : List ModuleReference} {m n : String}
    (h : (modules.flatMap ModuleReference.followedNames).idxOf m <
      (modules.flatMap ModuleReference.followedNames).idxOf n) : AskedBefore modules m n := by
  unfold AskedBefore askerPlace
  induction modules with
  | nil => exact absurd h (Nat.lt_irrefl 0)
  | cons r modules ih =>
    rw [List.flatMap_cons] at h
    rw [List.findIdx_cons, List.findIdx_cons]
    by_cases hm : m ∈ r.followedNames
    · by_cases hn : n ∈ r.followedNames
      · rw [List.idxOf_append_of_mem hm, List.idxOf_append_of_mem hn] at h
        simpa [hm, hn] using r.directivePlace_lt h
      · simp [hm, hn]
    · have hn : n ∉ r.followedNames := by
        intro hn
        have hlt := idxOf_append_lt (modules.flatMap ModuleReference.followedNames) hn hm
        omega
      rw [List.idxOf_append_of_notMem hm, List.idxOf_append_of_notMem hn] at h
      simpa [hm, hn] using ih (Nat.lt_of_add_lt_add_left h)

/-! ## Names that are asked for -/

/-- Distinct values stand in the order in which they first appear. -/
theorem pairwise_idxOf_distinct (names : List String) :
    (distinct names).Pairwise fun m n => names.idxOf m < names.idxOf n := by
  induction names using List.reverseRecOn with
  | nil => exact List.Pairwise.nil
  | append_singleton names last ih =>
    have hfront : (distinct names).Pairwise fun m n =>
        (names ++ [last]).idxOf m < (names ++ [last]).idxOf n := by
      refine ih.imp_of_mem fun hm hn hlt => ?_
      rw [List.idxOf_append_of_mem (mem_distinct.mp hm),
        List.idxOf_append_of_mem (mem_distinct.mp hn)]
      exact hlt
    rw [distinct_concat, appendNew]
    split
    · exact hfront
    · next hnew =>
      refine List.pairwise_append.mpr ⟨hfront, List.pairwise_singleton _ _, fun m hm n hn => ?_⟩
      obtain rfl := List.mem_singleton.mp hn
      exact idxOf_append_lt _ (mem_distinct.mp hm) fun h => hnew (mem_distinct.mpr h)

namespace Progress
variable {roots : NameSet} {s : Selection} {queue dealt ahead : List Request} {m n : String}

/-- Names are selected in the order in which they are first asked for. -/
theorem pairwise_names (h : Progress roots s queue dealt ahead) :
    s.names.Pairwise fun m n => (namesAsked roots s).idxOf m < (namesAsked roots s).idxOf n := by
  have hdealt := pairwise_idxOf_distinct (dealt.map Request.name)
  rw [h.selected] at hdealt
  refine hdealt.imp_of_mem fun hm hn hlt => ?_
  rw [h.namesAsked_eq, List.idxOf_append_of_mem (h.mem_dealt_iff.mpr hm),
    List.idxOf_append_of_mem (h.mem_dealt_iff.mpr hn)]
  exact hlt

/-- What is not selected is asked for, if at all, behind what is selected. -/
theorem idxOf_lt (h : Progress roots s queue dealt ahead) (hm : m ∈ s.names) (hn : n ∉ s.names) :
    (namesAsked roots s).idxOf m < (namesAsked roots s).idxOf n := by
  rw [h.namesAsked_eq]
  exact idxOf_append_lt _ (h.mem_dealt_iff.mpr hm) fun hdealt => hn (h.mem_dealt_iff.mp hdealt)

end Progress

namespace SelectsThrough
variable {finder : Finder} {roots : NameSet} {s : Selection} {queue : List Request} {k : Nat}
  {m n p : String}

theorem find?_of_mem (h : SelectsThrough finder roots s queue) {r : ModuleReference}
    (hr : r ∈ s.modules) : finder.find? r.name = some r :=
  h.frontier.known r hr

theorem mem_modules_of_find? (h : SelectsThrough finder roots s queue) {r : ModuleReference}
    (hfind : finder.find? n = some r) (hn : n ∈ s.names) : r ∈ s.modules := by
  obtain ⟨r', hr', rfl⟩ := List.mem_map.mp hn
  obtain rfl := Option.some.inj ((h.find?_of_mem hr').symm.trans hfind)
  exact hr'

/-- If `m` is not asked for behind `n`, which a module requires, then `m` is a root or required by a
module that is not asked for behind that one. -/
theorem exists_asker (h : SelectsThrough finder roots s queue) (hfollows : finder.Follows p n)
    (hm : m ∈ namesAsked roots s)
    (hle : (namesAsked roots s).idxOf m ≤ (namesAsked roots s).idxOf n) :
    m ∈ roots ∨ ∃ r ∈ s.modules, m ∈ r.followedNames ∧
      (namesAsked roots s).idxOf r.name ≤ (namesAsked roots s).idxOf p := by
  obtain ⟨dealt, ahead, hprogress⟩ := h.exists_progress
  by_cases hp : p ∈ s.names
  · obtain ⟨r, hfind, hn⟩ := hfollows
    obtain rfl : r.name = p := Finder.name_of_find? hfind
    obtain ⟨before, after, hsplit⟩ := List.append_of_mem (h.mem_modules_of_find? hfind hp)
    -- the requests of the modules up to this one come first, and `n` is among them
    have hasked : namesAsked roots s =
        (roots.toList ++ (before ++ [r]).flatMap ModuleReference.followedNames) ++
          after.flatMap ModuleReference.followedNames := by
      rw [namesAsked, hsplit]
      simp only [List.flatMap_append, List.flatMap_cons, List.flatMap_nil, List.append_nil,
        List.append_assoc]
    have hfirst : m ∈ roots.toList ++ (before ++ [r]).flatMap ModuleReference.followedNames := by
      by_contra hnot
      have hn' : n ∈ roots.toList ++ (before ++ [r]).flatMap ModuleReference.followedNames :=
        List.mem_append_right _ (List.mem_flatMap.mpr
          ⟨r, List.mem_append_right _ List.mem_cons_self, hn⟩)
      have hlt := idxOf_append_lt (after.flatMap ModuleReference.followedNames) hn' hnot
      rw [← hasked] at hlt
      omega
    refine (List.mem_append.mp hfirst).imp_right fun hfirst => ?_
    obtain ⟨r', hr', hmr'⟩ := List.mem_flatMap.mp hfirst
    have hpairs := hprogress.pairwise_names
    rw [Selection.names, hsplit, List.map_append, List.map_cons, List.pairwise_append] at hpairs
    rcases List.mem_append.mp hr' with hbefore | hlast
    · refine ⟨r', hsplit ▸ List.mem_append_left _ hbefore, hmr', Nat.le_of_lt ?_⟩
      exact hpairs.2.2 _ (List.mem_map_of_mem hbefore) _ List.mem_cons_self
    · obtain rfl := List.mem_singleton.mp hlast
      exact ⟨r', hsplit ▸ List.mem_append_right _ List.mem_cons_self, hmr', Nat.le_refl _⟩
  · refine (mem_namesAsked_iff.mp hm).imp_right ?_
    rintro ⟨r', hr', hmr'⟩
    have hname : r'.name ∈ s.names := List.mem_map_of_mem hr'
    exact ⟨r', hr', hmr', Nat.le_of_lt (hprogress.idxOf_lt hname hp)⟩

/-- A name that is asked for before another is reached in no more steps than that one. -/
theorem reachedIn_of_idxOf_le (h : SelectsThrough finder roots s queue)
    (hn : ReachedIn finder roots k n) (hm : m ∈ namesAsked roots s)
    (hle : (namesAsked roots s).idxOf m ≤ (namesAsked roots s).idxOf n) :
    ∃ j ≤ k, ReachedIn finder roots j m := by
  induction hn generalizing m with
  | @root n hn =>
    -- only roots are asked for before a root
    refine ⟨0, Nat.le_refl 0, .root ?_⟩
    by_contra hroot
    have hlt := idxOf_append_lt (s.modules.flatMap ModuleReference.followedNames)
      (NameSet.mem_toList.mpr hn) hroot
    unfold namesAsked at hle
    omega
  | @follow k p n hp hfollows ih =>
    rcases h.exists_asker hfollows hm hle with hroot | ⟨r, hr, hmr, hbefore⟩
    · exact ⟨0, Nat.zero_le _, .root hroot⟩
    · obtain ⟨dealt, ahead, hprogress⟩ := h.exists_progress
      have hname : r.name ∈ namesAsked roots s := hprogress.mem_namesAsked (List.mem_map_of_mem hr)
      obtain ⟨j, hj, hreached⟩ := ih hname hbefore
      exact ⟨j + 1, Nat.succ_le_succ hj, .follow hreached ⟨r, h.find?_of_mem hr, hmr⟩⟩

/-- Names are asked for in the order of their distances. -/
theorem exists_atDistance_of_idxOf_le (h : SelectsThrough finder roots s queue)
    (hn : ReachedIn finder roots k n) (hm : m ∈ namesAsked roots s)
    (hle : (namesAsked roots s).idxOf m ≤ (namesAsked roots s).idxOf n) :
    ∃ d ≤ k, AtDistance finder roots m d := by
  obtain ⟨j, hj, hreached⟩ := h.reachedIn_of_idxOf_le hn hm hle
  obtain ⟨d, hd⟩ := hreached.exists_atDistance
  exact ⟨d, Nat.le_trans (hd.2 hreached) hj, hd⟩

end SelectsThrough

/-! ## Finished selections -/

/-- A list without repetitions stays in front when names are added. -/
theorem exists_distinct_append {names : List String} (h : names.Nodup) (more : List String) :
    ∃ others, distinct (names ++ more) = names ++ others := by
  induction more using List.reverseRecOn with
  | nil =>
    refine ⟨[], ?_⟩
    rw [List.append_nil, distinct_of_nodup h]
  | append_singleton more last ih =>
    obtain ⟨others, hothers⟩ := ih
    rw [← List.append_assoc, distinct_concat, hothers, appendNew]
    split
    · exact ⟨others, rfl⟩
    · exact ⟨others ++ [last], List.append_assoc names others [last]⟩

/-- The order in which a graph over some roots lists its modules: the roots by the octets of their
names, and then the others by distance, by the first listed module that asks for them and by its
first directive that does. -/
structure InDiscoveryOrder (finder : Finder) (roots : NameSet) (modules : List ModuleReference)
    (first others : List String) : Prop where
  names : modules.map ModuleReference.name = first ++ others
  mem_first_iff : ∀ n, n ∈ first ↔ n ∈ roots
  not_mem_roots : ∀ n ∈ others, n ∉ roots
  octets : first.Pairwise fun m n => Utf8.encode m < Utf8.encode n
  asked : ∀ n ∈ others, ∃ r ∈ modules, n ∈ r.followedNames
  distances : others.Pairwise fun m n => ∃ d e, AtDistance finder roots m d ∧
    AtDistance finder roots n e ∧ (d < e ∨ d = e ∧ AskedBefore modules m n)

theorem SelectsThrough.inDiscoveryOrder {finder : Finder} {roots : NameSet} {s : Selection}
    (h : SelectsThrough finder roots s []) :
    ∃ others, InDiscoveryOrder finder roots s.modules roots.toList others := by
  obtain ⟨dealt, ahead, hprogress⟩ := h.exists_progress
  have hroots : roots.toList.Nodup := by
    refine roots.sorted.imp fun {m n} hlt => ?_
    rintro rfl
    exact String.lt_irrefl m hlt
  obtain ⟨others, hothers⟩ :=
    exists_distinct_append hroots (s.modules.flatMap ModuleReference.followedNames)
  have hnames : s.names = roots.toList ++ others := hprogress.names_eq.trans hothers
  have hmem : ∀ n ∈ others, n ∈ s.names := fun n hn => hnames ▸ List.mem_append_right _ hn
  have hnot : ∀ n ∈ others, n ∉ roots := by
    intro n hn hroot
    have hdistinct := h.frontier.distinct
    rw [hnames, List.nodup_append] at hdistinct
    exact hdistinct.2.2 n hroot n hn rfl
  refine ⟨others, hnames, fun _ => Iff.rfl, hnot, roots.sorted.imp Utf8.encode_lt_encode, ?_, ?_⟩
  · intro n hn
    exact (mem_namesAsked_iff.mp (hprogress.mem_namesAsked (hmem n hn))).resolve_left (hnot n hn)
  · have hpairs := hprogress.pairwise_names
    rw [hnames, List.pairwise_append] at hpairs
    refine hpairs.2.1.imp_of_mem fun {m n} hm hn hlt => ?_
    obtain ⟨k, hk⟩ := (h.frontier.selected n (hmem n hn)).exists_reachedIn
    obtain ⟨e, he⟩ := hk.exists_atDistance
    obtain ⟨d, hd, hmd⟩ := h.exists_atDistance_of_idxOf_le he.1
      (hprogress.mem_namesAsked (hmem m hm)) (Nat.le_of_lt hlt)
    refine ⟨d, e, hmd, he, (Nat.lt_or_eq_of_le hd).imp_right fun heq => ⟨heq, ?_⟩⟩
    -- neither is a root, so both places are among the requests of modules
    rw [namesAsked, List.idxOf_append_of_notMem (fun hr => hnot m hm hr),
      List.idxOf_append_of_notMem (fun hr => hnot n hn hr)] at hlt
    exact askedBefore_of_idxOf_lt (Nat.lt_of_add_lt_add_left hlt)

/-! ## Names that are not known -/

theorem find?_map_request (names : List String) (origin : Option String) (n : String) :
    (names.map fun m => (⟨m, origin⟩ : Request)).find? (fun q => q.name == n) =
      if n ∈ names then some ⟨n, origin⟩ else none := by
  induction names with
  | nil => rfl
  | cons m names ih =>
    rw [List.map_cons, List.find?_cons]
    by_cases hm : m = n
    · subst hm
      simp
    · have hmem : n ∈ m :: names ↔ n ∈ names :=
        ⟨fun h => (List.mem_cons.mp h).resolve_left (Ne.symm hm), List.mem_cons_of_mem m⟩
      rw [beq_eq_false_iff_ne.mpr hm, ih]
      simp only [hmem]

theorem find?_flatMap_requests (modules : List ModuleReference) (n : String) :
    (modules.flatMap ModuleReference.requests).find? (fun q => q.name == n) =
      (modules.find? fun r => decide (n ∈ r.followedNames)).map fun r => ⟨n, some r.name⟩ := by
  induction modules with
  | nil => rfl
  | cons r modules ih =>
    rw [List.flatMap_cons, List.find?_append, ih, ModuleReference.requests, find?_map_request,
      List.find?_cons]
    by_cases hn : n ∈ r.followedNames
    · rw [if_pos hn, decide_eq_true hn]
      rfl
    · rw [if_neg hn, decide_eq_false hn, Option.none_or]

/-- The first request for a name is that for the root, or else that of the first module that
requires it at run time. -/
theorem find?_requestsMade (roots : NameSet) (s : Selection) (n : String) :
    (requestsMade roots s).find? (fun q => q.name == n) =
      if n ∈ roots then some ⟨n, none⟩
      else
        (s.modules.find? fun r => decide (n ∈ r.followedNames)).map fun r => ⟨n, some r.name⟩ := by
  rw [requestsMade, List.find?_append, find?_map_request, find?_flatMap_requests]
  by_cases hn : n ∈ roots
  · rw [if_pos (NameSet.mem_toList.mpr hn), if_pos hn, Option.some_or]
  · rw [if_neg (fun h => hn (NameSet.mem_toList.mp h)), if_neg hn, Option.none_or]

namespace SelectsThrough
variable {finder : Finder} {roots : NameSet} {s : Selection} {q : Request} {queue : List Request}

theorem find?_requestsMade_eq (h : SelectsThrough finder roots s (q :: queue))
    (hnew : q.name ∉ s.names) :
    (requestsMade roots s).find? (fun p => p.name == q.name) = some q := by
  obtain ⟨before, after, hmade, hbefore⟩ := h.exists_requestsMade_eq hnew
  have hnone : before.find? (fun p => p.name == q.name) = none := by
    refine List.find?_eq_none.mpr fun p hp he => hnew ?_
    rw [← eq_of_beq he]
    exact hbefore p hp
  rw [hmade, List.find?_append, hnone, Option.none_or, List.find?_cons, beq_self_eq_true]

/-- No name that is not selected is asked for before one that is about to be selected. -/
theorem idxOf_le (h : SelectsThrough finder roots s (q :: queue)) (hnew : q.name ∉ s.names)
    {n : String} (hn : n ∉ s.names) :
    (namesAsked roots s).idxOf q.name ≤ (namesAsked roots s).idxOf n := by
  obtain ⟨before, after, hmade, hbefore⟩ := h.exists_requestsMade_eq hnew
  have hnot : ∀ m ∉ s.names, m ∉ before.map Request.name := by
    intro m hm hmem
    obtain ⟨p, hp, rfl⟩ := List.mem_map.mp hmem
    exact hm (hbefore p hp)
  rw [← map_name_requestsMade, hmade, List.map_append, List.map_cons,
    List.idxOf_append_of_notMem (hnot _ hnew), List.idxOf_append_of_notMem (hnot n hn),
    List.idxOf_cons_self]
  omega

theorem not_mem_names (h : SelectsThrough finder roots s queue) {n : String}
    (hfind : finder.find? n = none) : n ∉ s.names := by
  intro hn
  obtain ⟨r, hr, rfl⟩ := List.mem_map.mp hn
  rw [h.find?_of_mem hr] at hfind
  cases hfind

/-- A name that is about to be selected is at no greater distance than a name which is not known. -/
theorem exists_nearest (h : SelectsThrough finder roots s (q :: queue)) (hnew : q.name ∉ s.names) :
    ∃ d, AtDistance finder roots q.name d ∧
      ∀ n e, finder.find? n = none → AtDistance finder roots n e → d ≤ e := by
  have hasked : q.name ∈ namesAsked roots s := by
    rw [← map_name_requestsMade]
    exact List.mem_map_of_mem (List.mem_of_find?_eq_some (h.find?_requestsMade_eq hnew))
  obtain ⟨k, hk⟩ := (h.frontier.queued q List.mem_cons_self).exists_reachedIn
  obtain ⟨d, hd⟩ := hk.exists_atDistance
  refine ⟨d, hd, fun n e hfind he => ?_⟩
  obtain ⟨j, hj, hreached⟩ := h.reachedIn_of_idxOf_le he.1 hasked
    (h.idxOf_le hnew (h.not_mem_names hfind))
  exact Nat.le_trans (hd.2 hreached) hj

end SelectsThrough

/-! ## Resolutions -/

/-- A resolution that ends at an unknown name ends in a state of the selection loop. -/
theorem exists_selectsThrough_of_unresolved {finder : Finder} {roots : NameSet} {n : String}
    {origin : Option String} (h : resolve finder roots = .error (.unresolved n origin)) :
    ∃ s queue, SelectsThrough finder roots s (⟨n, origin⟩ :: queue) ∧ n ∉ s.names ∧
      finder.find? n = none := by
  rcases resolve_eq_error_iff.mp h with hselect | ⟨s, -, hreject⟩
  · have hends := selectsThrough_selectRoots finder roots
    rw [hselect] at hends
    obtain ⟨s, q, queue, hstate, hnew, hfind, he⟩ := hends
    obtain ⟨rfl, rfl⟩ := ResolutionError.unresolved.inj he
    exact ⟨s, queue, hstate, hnew, hfind⟩
  · -- circles are reported as such
    obtain ⟨path, he, -⟩ := isCircle_of_rejectCircles hreject
    cases he

/-- **The order of discovery, and blame.**  A resolved graph lists its modules in the order in which
they are discovered.  A name that is reported as unknown is one of those at the least distance from
the roots.  Nobody is blamed for it exactly if it is a root, and otherwise the first of the modules
that are selected by then and that require it at run time. -/
theorem discovery_of_resolve (finder : Finder) (roots : NameSet) :
    (∀ g, resolve finder roots = .ok g → ∃ first others, InDiscoveryOrder finder roots
        (g.modules.map ResolvedModule.reference) first others) ∧
      ∀ n origin, resolve finder roots = .error (.unresolved n origin) →
        finder.find? n = none ∧
        (∃ d, AtDistance finder roots n d ∧
          ∀ m e, finder.find? m = none → AtDistance finder roots m e → d ≤ e) ∧
        (origin = none ↔ n ∈ roots) ∧
        ∃ s queue, SelectsThrough finder roots s (⟨n, origin⟩ :: queue) ∧ n ∉ s.names ∧
          (n ∉ roots → ∃ r, s.modules.find? (fun r => decide (n ∈ r.followedNames)) = some r ∧
            origin = some r.name) := by
  constructor
  · intro g hg
    obtain ⟨s, hselect, -, rfl⟩ := resolve_eq_ok_iff.mp hg
    have hstate := selectsThrough_selectRoots finder roots
    rw [hselect] at hstate
    obtain ⟨others, horder⟩ := hstate.inDiscoveryOrder
    rw [references_graphOf]
    exact ⟨roots.toList, others, horder⟩
  · intro n origin herror
    obtain ⟨s, queue, hstate, hnew, hfind⟩ := exists_selectsThrough_of_unresolved herror
    have hblame := hstate.find?_requestsMade_eq hnew
    rw [find?_requestsMade] at hblame
    have hasker (hroot : n ∉ roots) :
        ∃ r, s.modules.find? (fun r => decide (n ∈ r.followedNames)) = some r ∧
          origin = some r.name := by
      rw [if_neg hroot] at hblame
      obtain ⟨r, hr, he⟩ := Option.map_eq_some_iff.mp hblame
      exact ⟨r, hr, (congrArg Request.origin he).symm⟩
    refine ⟨hfind, hstate.exists_nearest hnew, ⟨fun hnone => ?_, fun hroot => ?_⟩, s, queue, hstate,
      hnew, hasker⟩
    · by_contra hroot
      obtain ⟨r, -, hr⟩ := hasker hroot
      rw [hnone] at hr
      cases hr
    · rw [if_pos hroot] at hblame
      exact (congrArg Request.origin (Option.some.inj hblame)).symm

namespace Shop

/-- A till whose stock and ledger ask for what nobody has: the stock over a shelf, and at compile
time. -/
def tillFinder : Finder :=
  .ofList [.requiring "till" [{ name := "stock" }, { name := "ledger" }],
    .requiring "stock"
      [{ name := "paper", modifiers := { isStatic := true } }, { name := "shelf" }],
    .requiring "shelf" [{ name := "ink" }],
    .requiring "ledger" [{ name := "paper" }]]

/-- The modules of the program are listed as they are discovered.  Of the two things that nobody has
the paper is nearer than the ink, and the ledger is blamed, because the stock does not ask for paper
at run time. -/
theorem discovery_of_resolve_till :
    (∃ first others, InDiscoveryOrder finder (.ofList ["app"]) [app, api, model, base] first
        others) ∧
      resolve tillFinder (.ofList ["till"]) = .error (.unresolved "paper" (some "ledger")) ∧
      "paper" ∉ NameSet.ofList ["till"] ∧
      ∃ d, AtDistance tillFinder (.ofList ["till"]) "paper" d ∧
        ∀ m e, tillFinder.find? m = none → AtDistance tillFinder (.ofList ["till"]) m e →
          d ≤ e := by
  have hgraph : resolve finder (.ofList ["app"]) = .ok graph := by cbv
  have hpaper : resolve tillFinder (.ofList ["till"]) =
      .error (.unresolved "paper" (some "ledger")) := by cbv
  obtain ⟨-, hnearest, hroot, -⟩ :=
    (discovery_of_resolve tillFinder (.ofList ["till"])).2 _ _ hpaper
  refine ⟨(discovery_of_resolve finder (.ofList ["app"])).1 _ hgraph, hpaper, fun h => ?_, hnearest⟩
  exact Option.some_ne_none _ (hroot.mpr h)

end Shop

end ModuleAtlas
