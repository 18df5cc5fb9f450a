import Mathlib.Data.List.Permutation
import ModuleAtlas.Proofs.Resolution.Endings

/-! # What is known makes no difference

What a module implies is told by a recursion over the modules that it requires transitively
(`Selection.SolvedBy`).  In an acyclic selection it comes to the ground everywhere, so it has one
solution, and that is `impliedBy` (`solvedBy_iff`).

`ask` is one call of the recursion with a cache: it looks up what is known, finds out what is not,
and keeps what it has found out, about the modules on the way as well as about the one that was
asked for.  The invariant is that every entry is the solution at its name (`Sound`); a call answers
with the solution and keeps the invariant (`ask_spec`), and so do any calls in any order
(`sound_askAll`).  Conversely every sound entry is the answer of some call (`recorded_iff_sound`).

What a module reads is gathered by such calls (`readCached_cons_of_mem`).  It is therefore the same
list whatever has been asked before (`readEach_eq_along`), and the order in which modules are looked
at decides about the order of the modules only (`ask_transparent`).
-/
namespace ModuleAtlas
open Relation

/-! ## The recursion without a cache -/

namespace Selection

/-- What a module requires transitively; nothing, if it is not selected. -/
def transitiveNames (s : Selection) (name : String) : List String :=
  (s.find? name).elim [] ModuleReference.transitiveNames

/-- The selected ones of the targets, each followed by what it implies; a name counts where it first
appears. -/
def along (s : Selection) (implied : String → List String) (targets : List String) :
    List String :=
  distinct ((targets.filter s.contains).flatMap fun n => n :: implied n)

/-- The recursion without a cache, as an equation: a name implies the selected ones of the names
that its module requires transitively, each followed by what it implies in turn. -/
def SolvedBy (s : Selection) (implied : String → List String) : Prop :=
  ∀ name, implied name = s.along implied (s.transitiveNames name)

variable {s : Selection} {name : String}

theorem transitiveNames_of_find? {r : ModuleReference} (hfind : s.find? name = some r) :
    s.transitiveNames name = r.transitiveNames := by
  rw [transitiveNames, hfind]
  rfl

theorem transitiveNames_of_none (hfind : s.find? name = none) : s.transitiveNames name = [] := by
  rw [transitiveNames, hfind]
  rfl

theorem implies_iff {n : String} :
    s.Implies name n ↔ n ∈ s.transitiveNames name ∧ n ∈ s.names := by
  constructor
  · rintro ⟨r, hfind, hn, hselected⟩
    exact ⟨transitiveNames_of_find? hfind ▸ hn, hselected⟩
  · rintro ⟨hn, hselected⟩
    cases hfind : s.find? name with
    | none =>
      rw [transitiveNames_of_none hfind] at hn
      exact absurd hn List.not_mem_nil
    | some r => exact ⟨r, hfind, transitiveNames_of_find? hfind ▸ hn, hselected⟩

theorem along_congr {f g : String → List String} {targets : List String}
    (h : ∀ n ∈ targets, n ∈ s.names → f n = g n) :
    s.along f targets = s.along g targets := by
  refine congrArg distinct (List.flatMap_congr fun n hn => ?_)
  obtain ⟨htarget, hselected⟩ := List.mem_filter.mp hn
  rw [h n htarget (contains_iff.mp hselected)]

/-- From no module of an acyclic selection does an endless way lead on. -/
theorem Acyclic.grounded (ha : s.Acyclic) (name : String) : s.Grounded name := by
  have hrun : ReadsTo s ∅ [] [name] (readCached s [] ∅ [] [name]) :=
    (readsTo_iff ha (Above.nil s [name])).mpr rfl
  exact (hrun.grounded (knowsGrounded_empty s)).2 name (List.mem_singleton_self name)

end Selection

section
variable {s : Selection} {name : String}

/-- In an acyclic selection the trail makes no difference to what is found, nor does it matter what
was found before. -/
theorem readAlong_eq (ha : s.Acyclic) {trail found targets : List String}
    (h : Above s trail targets) :
    readAlong s trail found targets =
      appendAllNew found ((targets.filter s.contains).flatMap fun n => n :: impliedBy s n) := by
  induction targets generalizing found with
  | nil =>
    rw [readAlong]
    rfl
  | cons name targets ih =>
    cases hfind : s.find? name with
    | none =>
      have hnot : s.contains name = false :=
        Selection.contains_eq_false_iff.mpr (Selection.find?_eq_none_iff.mp hfind)
      rw [readAlong_cons_of_none hfind, ih h.tail, List.filter_cons_of_neg (by simp [hnot])]
    | some r =>
      have hselected : s.contains name = true :=
        Selection.contains_iff.mpr (Selection.mem_names_of_find? hfind)
      rw [readAlong_cons ha h hfind, ih h.tail, List.filter_cons_of_pos hselected,
        List.flatMap_cons]
      unfold appendAllNew
      rw [List.foldl_append]
      rfl

theorem readAlong_nil_eq_along (ha : s.Acyclic) {trail targets : List String}
    (h : Above s trail targets) : readAlong s trail [] targets = s.along (impliedBy s) targets :=
  readAlong_eq ha h

/-- What a module requires transitively is below it. -/
theorem above_transitiveNames (s : Selection) (name : String) :
    Above s [name] (s.transitiveNames name) := by
  intro m hm n hn hselected
  obtain rfl := List.mem_singleton.mp hm
  exact .single (Selection.implies_iff.mpr ⟨hn, hselected⟩).requires

theorem impliedBy_eq_readAlong (s : Selection) (name : String) :
    impliedBy s name = readAlong s [name] [] (s.transitiveNames name) := by
  cases hfind : s.find? name with
  | none => rw [impliedBy, hfind, Selection.transitiveNames_of_none hfind, readAlong]
  | some r => rw [impliedBy, hfind, Selection.transitiveNames_of_find? hfind]

theorem solvedBy_impliedBy (ha : s.Acyclic) : s.SolvedBy (impliedBy s) := by
  intro name
  rw [impliedBy_eq_readAlong, readAlong_nil_eq_along ha (above_transitiveNames s name)]

/-- The recursion has one solution, as it always comes to the ground. -/
theorem solvedBy_iff (ha : s.Acyclic) {implied : String → List String} :
    s.SolvedBy implied ↔ implied = impliedBy s := by
  refine ⟨fun h => funext fun name => ?_, fun h => h ▸ solvedBy_impliedBy ha⟩
  induction ha.grounded name with
  | intro name _ ih =>
    rw [h name, solvedBy_impliedBy ha name]
    exact Selection.along_congr fun n hn hselected =>
      ih n (Selection.implies_iff.mpr ⟨hn, hselected⟩)

end

/-! ## Calls -/

/-- Asks what a name implies.  The answer is looked up, or else it is found out and kept. -/
def ask (s : Selection) (known : Implications) (name : String) : List String × Implications :=
  match known.find? name with
  | some implied => (implied, known)
  | none =>
    let (implied, known) := readCached s [name] known [] (s.transitiveNames name)
    (implied, known.insert name implied)

/-- A call without anything that makes it end. -/
inductive AsksTo (s : Selection) (known : Implications) (name : String) :
    List String × Implications → Prop where
  /-- The answer is known. -/
  | known {implied : List String} (hhit : known.find? name = some implied) :
    AsksTo s known name (implied, known)
  /-- The answer is found out. -/
  | enter {known' : Implications} {implied : List String} (hmiss : known.find? name = none)
    (hinner : ReadsTo s known [] (s.transitiveNames name) (implied, known')) :
    AsksTo s known name (implied, known'.insert name implied)

/-- Asks about some names, one after the other. -/
def askAll (s : Selection) (known : Implications) (names : List String) : Implications :=
  names.foldl (fun known name => (ask s known name).2) known

/-- A call about the name has given the answer, and what it had to go on were the answers of earlier
calls. -/
inductive Answered (s : Selection) : String → List String → Prop where
  /-- A call whose cache holds answers only. -/
  | call {known : Implications} {name : String}
    (hknown : ∀ n implied, known.find? n = some implied → Answered s n implied) :
    Answered s name (ask s known name).1

/-- Every entry of the cache is the answer of an earlier call. -/
def Recorded (s : Selection) (known : Implications) : Prop :=
  ∀ n implied, known.find? n = some implied → Answered s n implied

section
variable {s : Selection} {known : Implications} {name : String}

theorem ask_of_known {implied : List String} (hhit : known.find? name = some implied) :
    ask s known name = (implied, known) := by
  rw [ask, hhit]

theorem ask_of_new (hmiss : known.find? name = none) :
    ask s known name =
      ((readCached s [name] known [] (s.transitiveNames name)).1,
        (readCached s [name] known [] (s.transitiveNames name)).2.insert name
          (readCached s [name] known [] (s.transitiveNames name)).1) := by
  rw [ask, hmiss]

theorem asksTo_iff (ha : s.Acyclic) {answer : List String × Implications} :
    AsksTo s known name answer ↔ answer = ask s known name := by
  have hread : ∀ answer, ReadsTo s known [] (s.transitiveNames name) answer ↔
      answer = readCached s [name] known [] (s.transitiveNames name) :=
    fun _ => readsTo_iff ha (above_transitiveNames s name)
  constructor
  · intro h
    cases h with
    | known hhit => rw [ask_of_known hhit]
    | enter hmiss hinner => rw [ask_of_new hmiss, ← (hread _).mp hinner]
  · rintro rfl
    cases hfind : known.find? name with
    | some implied =>
      rw [ask_of_known hfind]
      exact .known hfind
    | none =>
      rw [ask_of_new hfind]
      exact .enter hfind ((hread _).mpr rfl)

/-- A call with sound entries answers with the solution of the recursion and leaves sound
entries. -/
theorem ask_spec (ha : s.Acyclic) (hknown : Sound s known) (name : String) :
    (ask s known name).1 = impliedBy s name ∧ Sound s (ask s known name).2 := by
  cases hfind : known.find? name with
  | some implied =>
    rw [ask_of_known hfind]
    exact ⟨hknown name implied hfind, hknown⟩
  | none =>
    obtain ⟨hfound, hsound⟩ := readCached_spec ha [] hknown (above_transitiveNames s name)
    rw [← impliedBy_eq_readAlong] at hfound
    rw [ask_of_new hfind, hfound]
    exact ⟨rfl, hsound.insert name⟩

/-- The answer of a call is known from then on. -/
theorem find?_ask (s : Selection) (known : Implications) (name : String) :
    (ask s known name).2.find? name = some (ask s known name).1 := by
  cases hfind : known.find? name with
  | some implied =>
    rw [ask_of_known hfind]
    exact hfind
  | none => rw [ask_of_new hfind, OrderedMap.find?_insert, if_pos rfl]

theorem Answered.eq_impliedBy (ha : s.Acyclic) {implied : List String}
    (h : Answered s name implied) : implied = impliedBy s name := by
  induction h with
  | call _ ih => exact (ask_spec ha ih _).1

/-- Caches of answers are the sound ones: what a name implies is also the answer of a call that
nothing is known to. -/
theorem recorded_iff_sound (ha : s.Acyclic) : Recorded s known ↔ Sound s known := by
  refine ⟨fun h n implied hfind => (h n implied hfind).eq_impliedBy ha,
    fun h n implied hfind => ?_⟩
  have hfirst : Answered s n (ask s ∅ n).1 := by
    refine .call fun m answer hm => ?_
    rw [OrderedMap.find?_empty] at hm
    cases hm
  rw [h n implied hfind, ← (ask_spec ha (sound_empty s) n).1]
  exact hfirst

/-- However many calls are made, and in whatever order. -/
theorem sound_askAll (ha : s.Acyclic) (hknown : Sound s known) (names : List String) :
    Sound s (askAll s known names) := by
  induction names generalizing known with
  | nil => exact hknown
  | cons name names ih => exact ih (ask_spec ha hknown name).2

/-- What is read along with a selected target is asked for by a call. -/
theorem readCached_cons_of_mem (ha : s.Acyclic) {trail found targets : List String}
    (h : Above s trail (name :: targets)) (hname : name ∈ s.names) :
    readCached s trail known found (name :: targets) =
      readCached s trail (ask s known name).2
        (appendAllNew (appendNew found name) (ask s known name).1) targets := by
  obtain ⟨r, hfind⟩ := Selection.exists_find?_of_mem hname
  cases hhit : known.find? name with
  | some implied => rw [readCached_of_known hfind hhit, ask_of_known hhit]
  | none =>
    -- the longer trail makes no difference to the run below the target
    have hinner : readCached s (name :: trail) known [] r.transitiveNames =
        readCached s [name] known [] (s.transitiveNames name) := by
      rw [Selection.transitiveNames_of_find? hfind]
      exact (readsTo_iff ha ((Above.nil s [name]).enter hfind)).mp
        ((readsTo_iff ha (h.enter hfind)).mpr rfl)
    rw [readCached_of_new hfind hhit (h.not_mem ha hfind) hinner, ask_of_new hhit]

/-! ## Reads -/

theorem readEach_eq_along (ha : s.Acyclic) (hknown : Sound s known)
    (modules : List ModuleReference) :
    readEach s known modules = modules.map fun r => s.along (impliedBy s) r.requiredNames := by
  rw [readEach_eq ha modules hknown]
  exact List.map_congr_left fun r _ => readAlong_nil_eq_along ha (Above.nil s r.requiredNames)

/-- The modules of a selection with what they read, if they are looked at in the given order. -/
def graphInOrder (s : Selection) (order : List ModuleReference) : ResolvedGraph :=
  ⟨(order.zip (readEach s ∅ order)).map fun (r, reads) => ⟨r, reads⟩⟩

theorem modules_graphInOrder (ha : s.Acyclic) (order : List ModuleReference) :
    (graphInOrder s order).modules =
      order.map fun r => ⟨r, s.along (impliedBy s) r.requiredNames⟩ := by
  have hzip : order.zip (order.map fun r => s.along (impliedBy s) r.requiredNames) =
      order.map fun r => (r, s.along (impliedBy s) r.requiredNames) := by
    have hself : (order.map id).zip (order.map fun r => s.along (impliedBy s) r.requiredNames) =
        order.map fun r => (id r, s.along (impliedBy s) r.requiredNames) := List.zip_map'
    rwa [List.map_id] at hself
  rw [graphInOrder, readEach_eq_along ha (sound_empty s) order, hzip, List.map_map]
  rfl

/-- **The cache is transparent.**  In an acyclic selection the recursion without a cache has one
solution, `impliedBy s`.  Any calls in any order leave a cache in which every entry is the answer of
an earlier call.  With such a cache a call about any name ends; its answer is what the recursion
without a cache gives, in the same order, and so is every entry of the cache that it leaves, among
them the one that it has answered for.  The reads of a module are gathered by such calls.  Whatever
is known and whichever modules are looked at before it, a module reads the selected modules that it
requires, each followed by what it implies, a name counting where it first appears; so looking at
the modules in another order gives the same modules with the same reads. -/
theorem ask_transparent {s : Selection} (ha : s.Acyclic) :
    (∀ implied, s.SolvedBy implied ↔ implied = impliedBy s) ∧
      (∀ earlier, Recorded s (askAll s ∅ earlier)) ∧
      (∀ known name, Recorded s known →
        (∀ answer, AsksTo s known name answer ↔ answer = ask s known name) ∧
        (ask s known name).1 = impliedBy s name ∧
        (ask s known name).2.find? name = some (impliedBy s name) ∧
        Recorded s (ask s known name).2 ∧ Sound s (ask s known name).2) ∧
      (∀ known found name targets, name ∈ s.names →
        readCached s [] known found (name :: targets) =
          readCached s [] (ask s known name).2
            (appendAllNew (appendNew found name) (ask s known name).1) targets) ∧
      (∀ known modules, Recorded s known →
        readEach s known modules =
          modules.map fun r => s.along (impliedBy s) r.requiredNames) ∧
      ∀ order, order.Perm s.modules →
        (graphInOrder s order).modules.Perm (graphOf s).modules := by
  refine ⟨fun _ => solvedBy_iff ha, fun earlier => ?_, fun known name hknown => ?_,
    fun _ _ name targets => readCached_cons_of_mem ha (Above.nil s (name :: targets)),
    fun known modules hknown => ?_, fun order horder => ?_⟩
  · exact (recorded_iff_sound ha).mpr (sound_askAll ha (sound_empty s) earlier)
  · obtain ⟨hanswer, hsound⟩ := ask_spec ha ((recorded_iff_sound ha).mp hknown) name
    have hfind := find?_ask s known name
    rw [hanswer] at hfind
    exact ⟨fun _ => asksTo_iff ha, hanswer, hfind, (recorded_iff_sound ha).mpr hsound, hsound⟩
  · exact readEach_eq_along ha ((recorded_iff_sound ha).mp hknown) modules
  · show (graphInOrder s order).modules.Perm (graphInOrder s s.modules).modules
    rw [modules_graphInOrder ha, modules_graphInOrder ha]
    exact horder.map _

end

namespace Shop

/-- The stock, which passes the base and the model on. -/
def stock : ModuleReference :=
  .requiring "stock" [{ name := "base", modifiers := { transitive := true } },
    { name := "model", modifiers := { transitive := true } }]

/-- The counter, which passes the interface and the stock on, so that two ways lead from it to the
model and more to the base. -/
def counter : ModuleReference :=
  .requiring "counter" [{ name := "api", modifiers := { transitive := true } },
    { name := "stock", modifiers := { transitive := true } }, { name := "tool" }]

/-- The modules that take part at the counter. -/
def counterSelection : Selection := ⟨[counter, api, stock, model, base]⟩

/-- The stock passes the base on before the model, and the interface the other way round.  What is
known about the stock does not show in what is found out about the counter, and neither does the
order in which the modules are looked at. -/
theorem ask_transparent_counter :
    counterSelection.Acyclic ∧
      Recorded counterSelection (askAll counterSelection ∅ ["stock", "till"]) ∧
      (askAll counterSelection ∅ ["stock", "till"]).entries =
        [("base", []), ("model", ["base"]), ("stock", ["base", "model"]), ("till", [])] ∧
      (ask counterSelection (askAll counterSelection ∅ ["stock", "till"]) "counter").1 =
        ["api", "model", "base", "stock"] ∧
      impliedBy counterSelection "counter" = ["api", "model", "base", "stock"] ∧
      [base, stock, model, api, counter].Perm counterSelection.modules ∧
      readEach counterSelection ∅ [base, stock, model, api, counter] =
        [[], ["base", "model"], ["base"], ["model", "base"], ["api", "model", "base", "stock"]] ∧
      (graphInOrder counterSelection [base, stock, model, api, counter]).modules.Perm
        (graphOf counterSelection).modules := by
  have ha : counterSelection.Acyclic := acyclic_of_rejectCircles (by cbv)
  obtain ⟨-, hearlier, hcall, -, -, horder⟩ := ask_transparent ha
  have hrecorded := hearlier ["stock", "till"]
  obtain ⟨-, hanswer, -, -, -⟩ := hcall _ "counter" hrecorded
  have hfound : (ask counterSelection (askAll counterSelection ∅ ["stock", "till"])
      "counter").1 = ["api", "model", "base", "stock"] := by cbv
  have hperm : [base, stock, model, api, counter].Perm counterSelection.modules := by decide
  refine ⟨ha, hrecorded, by cbv, hfound, hanswer.symm.trans hfound, hperm, by cbv, ?_⟩
  exact horder _ hperm

end Shop
end ModuleAtlas
