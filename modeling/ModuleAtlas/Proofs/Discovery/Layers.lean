import Mathlib.Data.List.Induction
import Mathlib.Data.List.Nodup
import ModuleAtlas.Discovery.Finder
import ModuleAtlas.Names.Distinct
import ModuleAtlas.Names.OrderedMap
import ModuleAtlas.Proofs.Resolution.Needed

/-! # Layers of sources

A source of modules is asked in two ways: for the module of a name, and for all that it knows.  When
sources are stacked, the first question goes from one source to the next until one of them answers,
and the second one collects what all of them list (`ModuleSource.compose`).  The two ways have
nothing in common but their order, yet they agree if they agree for each source
(`combines_compose`).

A source whose answers agree is a finder, and stacking finders is composing them as sources
(`Finder.source_stack`).
-/
namespace ModuleAtlas

/-! ## Lists of references -/

theorem keepFirst_concat (l : List ModuleReference) (r : ModuleReference) :
    keepFirst (l ++ [r]) =
      if r.name ∈ l.map ModuleReference.name then keepFirst l else keepFirst l ++ [r] := by
  induction l with
  | nil => rfl
  | cons s l ih =>
    rw [List.cons_append, keepFirst, keepFirst, ih, List.map_cons]
    by_cases hs : r.name = s.name
    · -- the new reference is hidden by the first one
      rw [if_pos (List.mem_cons.mpr (.inl hs))]
      split
      · rfl
      · rw [List.filter_append, List.filter_cons_of_neg (by simp [hs]), List.filter_nil,
          List.append_nil]
    · by_cases hl : r.name ∈ l.map ModuleReference.name
      · rw [if_pos hl, if_pos (List.mem_cons_of_mem _ hl)]
      · rw [if_neg hl, if_neg fun h => (List.mem_cons.mp h).elim hs hl, List.filter_append,
          List.filter_cons_of_pos (by simp [hs]), List.filter_nil, List.cons_append]

/-- What is kept has the names of all, each where it first appears. -/
theorem map_name_keepFirst (l : List ModuleReference) :
    (keepFirst l).map ModuleReference.name = distinct (l.map ModuleReference.name) := by
  induction l using List.reverseRecOn with
  | nil => rfl
  | append_singleton l r ih =>
    rw [keepFirst_concat, List.map_append, List.map_singleton, distinct_concat, ← ih, appendNew]
    have hmem : r.name ∈ (keepFirst l).map ModuleReference.name ↔
        r.name ∈ l.map ModuleReference.name := by rw [ih, mem_distinct]
    by_cases hr : r.name ∈ l.map ModuleReference.name
    · rw [if_pos hr, if_pos (hmem.mpr hr)]
    · rw [if_neg hr, if_neg fun h => hr (hmem.mp h), List.map_append, List.map_singleton]

theorem OrderedMap.values_insertNew {β : Type} (m : OrderedMap β) (key : String) (value : β) :
    (m.insertNew key value).values = if key ∈ m.keys then m.values else m.values ++ [value] := by
  unfold insertNew
  by_cases h : key ∈ m.keys
  · rw [if_pos (contains_iff.mpr h), if_pos h]
  · rw [if_neg fun hc => h (contains_iff.mp hc), if_neg h]
    show (write key value m.entries).map Prod.snd = _
    rw [write_of_not_mem h, List.map_append]
    rfl

/-- A table of references by name. -/
def tabulate (l : List ModuleReference) : OrderedMap ModuleReference :=
  l.foldl (fun table r => table.insertNew r.name r) ∅

theorem tabulate_concat (l : List ModuleReference) (r : ModuleReference) :
    tabulate (l ++ [r]) = (tabulate l).insertNew r.name r := by
  rw [tabulate, List.foldl_append]
  rfl

theorem keys_tabulate (l : List ModuleReference) :
    (tabulate l).keys = distinct (l.map ModuleReference.name) := by
  induction l using List.reverseRecOn with
  | nil => rfl
  | append_singleton l r ih =>
    rw [tabulate_concat, OrderedMap.keys_insertNew, List.map_append, List.map_singleton,
      distinct_concat, ← ih, appendNew]

/-- The table holds what is kept of the list. -/
theorem values_tabulate (l : List ModuleReference) : (tabulate l).values = keepFirst l := by
  induction l using List.reverseRecOn with
  | nil => rfl
  | append_singleton l r ih =>
    rw [tabulate_concat, OrderedMap.values_insertNew, keepFirst_concat, keys_tabulate, ih]
    simp only [mem_distinct]

/-! ## Finders -/

namespace Finder

theorem isSome_find?_iff {f : Finder} {n : String} : (f.find? n).isSome ↔ n ∈ f.names := by
  rw [find?, List.find?_isSome, names, List.mem_map]
  exact exists_congr fun r => and_congr_right fun _ => beq_iff_eq

theorem mem_references_iff {f : Finder} {r : ModuleReference} :
    r ∈ f.references ↔ f.find? r.name = some r := by
  constructor
  · intro h
    obtain ⟨s, hs⟩ := Option.isSome_iff_exists.mp
      (isSome_find?_iff.mpr (List.mem_map_of_mem (f := ModuleReference.name) h))
    rw [hs, List.inj_on_of_nodup_map f.distinct (mem_of_find? hs) h (name_of_find? hs)]
  · exact mem_of_find?

theorem find?_stack (layers : List Finder) (n : String) :
    (stack layers).find? n = layers.findSome? fun f => f.find? n := by
  rw [stack, find?_ofList, List.find?_flatMap]
  rfl

theorem names_stack (layers : List Finder) :
    (stack layers).names = ModuleAtlas.distinct (layers.flatMap names) := by
  show (keepFirst (layers.flatMap references)).map ModuleReference.name = _
  rw [map_name_keepFirst, List.map_flatMap]
  rfl

end Finder

theorem Layers.find?_finder (layers : Layers) (n : String) :
    layers.finder.find? n = layers.finders.findSome? fun f => f.find? n :=
  Finder.find?_stack layers.finders n

/-! ## Sources -/

/-- A source of modules, which is asked for a name or for all that it knows. -/
structure ModuleSource where
  /-- The module of a name. -/
  find : String → Option ModuleReference
  /-- All modules that it knows. -/
  listing : List ModuleReference

/-- A finder as a source. -/
def Finder.source (f : Finder) : ModuleSource := ⟨f.find?, f.references⟩

namespace ModuleSource

/-- A source lists no name twice, and finds what it lists. -/
structure Agrees (s : ModuleSource) : Prop where
  distinct : (s.listing.map ModuleReference.name).Nodup
  find : ∀ n, s.find n = s.listing.find? fun r => r.name == n

theorem agrees_source (f : Finder) : f.source.Agrees := ⟨f.distinct, fun _ => rfl⟩

/-- Several sources as one.  A name is asked of one source after the other; the listing is that of
all sources, in which later entries of a name are left out. -/
def compose (sources : List ModuleSource) : ModuleSource where
  find n := sources.findSome? fun s => s.find n
  listing := (tabulate (sources.flatMap listing)).values

/-- A source that answers for some others: the first that knows a name finds its module, each name
that one of them knows is listed once, in order of first appearance, and what is listed is what is
found. -/
structure Combines (s : ModuleSource) (parts : List ModuleSource) : Prop where
  find : ∀ n, s.find n = parts.findSome? fun p => p.find n
  distinct : (s.listing.map ModuleReference.name).Nodup
  mem_names_iff : ∀ n, n ∈ s.listing.map ModuleReference.name ↔ ∃ p ∈ parts, (p.find n).isSome
  mem_listing_iff : ∀ r, r ∈ s.listing ↔ s.find r.name = some r
  order : s.listing.map ModuleReference.name =
    ModuleAtlas.distinct (parts.flatMap fun p => p.listing.map ModuleReference.name)

/-- A source whose answers agree is a finder. -/
theorem Agrees.exists_finder {s : ModuleSource} (h : s.Agrees) : ∃ f : Finder, f.source = s := by
  refine ⟨⟨s.listing, h.distinct⟩, ?_⟩
  obtain ⟨find, listing⟩ := s
  exact congrArg (ModuleSource.mk · listing) (funext fun n => (h.find n).symm)

theorem exists_finders {sources : List ModuleSource} (h : ∀ s ∈ sources, s.Agrees) :
    ∃ finders : List Finder, finders.map Finder.source = sources := by
  induction sources with
  | nil => exact ⟨[], rfl⟩
  | cons s sources ih =>
    obtain ⟨hs, hsources⟩ := List.forall_mem_cons.mp h
    obtain ⟨f, rfl⟩ := hs.exists_finder
    obtain ⟨finders, rfl⟩ := ih hsources
    exact ⟨f :: finders, rfl⟩

end ModuleSource

namespace Finder

theorem source_stack (layers : List Finder) :
    (stack layers).source = ModuleSource.compose (layers.map source) := by
  have hfind : (stack layers).find? =
      fun n => (layers.map source).findSome? fun s => s.find n := by
    funext n
    rw [find?_stack, List.findSome?_map]
    rfl
  have hlisting : (stack layers).references =
      (tabulate ((layers.map source).flatMap ModuleSource.listing)).values := by
    rw [values_tabulate, List.flatMap_map]
    rfl
  rw [source, ModuleSource.compose, hfind, hlisting]

theorem combines_stack (layers : List Finder) :
    (stack layers).source.Combines (layers.map source) where
  find n := by
    rw [source_stack]
    rfl
  distinct := (stack layers).distinct
  mem_names_iff n := by
    have hnames : n ∈ (stack layers).names ↔ ∃ f ∈ layers, n ∈ f.names := by
      rw [names_stack, mem_distinct, List.mem_flatMap]
    refine hnames.trans ?_
    constructor
    · rintro ⟨f, hf, hn⟩
      exact ⟨f.source, List.mem_map_of_mem hf, isSome_find?_iff.mpr hn⟩
    · rintro ⟨s, hs, hn⟩
      obtain ⟨f, hf, rfl⟩ := List.mem_map.mp hs
      exact ⟨f, hf, isSome_find?_iff.mp hn⟩
  mem_listing_iff r := mem_references_iff
  order := by
    rw [List.flatMap_map]
    exact names_stack layers

end Finder

/-- Sources whose answers agree are combined by composing them. -/
theorem ModuleSource.combines_compose {sources : List ModuleSource}
    (h : ∀ s ∈ sources, s.Agrees) : (compose sources).Combines sources := by
  obtain ⟨finders, rfl⟩ := exists_finders h
  rw [← Finder.source_stack]
  exact Finder.combines_stack finders

/-! ## Chains -/

/-- The layers of a chain. -/
inductive Layer where
  /-- Modules that take precedence over the platform. -/
  | override
  /-- The modules of the platform. -/
  | platform
  /-- The modules of the application. -/
  | application
  /-- Modules that only fill gaps. -/
  | extra
deriving DecidableEq

/-- All layers, the one of highest precedence first. -/
def Layer.all : List Layer := [.override, .platform, .application, .extra]

/-- A chain of sources, at most one in each layer. -/
@[ext] structure Chain where
  /-- The source of a layer, if it is set. -/
  source? : Layer → Option ModuleSource

namespace Chain

/-- The chain without sources. -/
def empty : Chain := ⟨fun _ => none⟩

/-- Sets the source of a layer, in place of the one that may be there. -/
def set (chain : Chain) (layer : Layer) (s : ModuleSource) : Chain :=
  ⟨fun l => if l = layer then some s else chain.source? l⟩

/-- The chain that results from setting layers one after the other. -/
def ofCalls (calls : List (Layer × ModuleSource)) : Chain :=
  calls.foldl (fun chain call => chain.set call.1 call.2) empty

/-- The sources of a chain, the one of highest precedence first. -/
def sources (chain : Chain) : List ModuleSource := Layer.all.filterMap chain.source?

theorem source?_set (chain : Chain) (layer other : Layer) (s : ModuleSource) :
    (chain.set layer s).source? other = if other = layer then some s else chain.source? other :=
  rfl

theorem ofCalls_concat (calls : List (Layer × ModuleSource)) (call : Layer × ModuleSource) :
    ofCalls (calls ++ [call]) = (ofCalls calls).set call.1 call.2 := by
  rw [ofCalls, List.foldl_append]
  rfl

/-- A layer has the source that it was set to last. -/
theorem source?_ofCalls (calls : List (Layer × ModuleSource)) (layer : Layer) :
    (ofCalls calls).source? layer =
      (calls.reverse.find? fun call => call.1 = layer).map Prod.snd := by
  induction calls using List.reverseRecOn with
  | nil => rfl
  | append_singleton calls call ih =>
    rw [ofCalls_concat, source?_set, List.reverse_append, List.reverse_singleton,
      List.singleton_append, List.find?_cons]
    by_cases h : layer = call.1
    · rw [if_pos h, decide_eq_true h.symm]
      rfl
    · rw [if_neg h, decide_eq_false (Ne.symm h)]
      exact ih

theorem mem_of_source? {calls : List (Layer × ModuleSource)} {layer : Layer} {s : ModuleSource}
    (h : (ofCalls calls).source? layer = some s) : (layer, s) ∈ calls := by
  rw [source?_ofCalls] at h
  obtain ⟨call, hfind, rfl⟩ := Option.map_eq_some_iff.mp h
  have hlayer := List.find?_some hfind
  obtain rfl := of_decide_eq_true hlayer
  exact List.mem_reverse.mp (List.mem_of_find?_eq_some hfind)

theorem source?_eq_some_iff {calls : List (Layer × ModuleSource)}
    (h : (calls.map Prod.fst).Nodup) {layer : Layer} {s : ModuleSource} :
    (ofCalls calls).source? layer = some s ↔ (layer, s) ∈ calls := by
  refine ⟨mem_of_source?, fun hs => ?_⟩
  have hsome : (calls.reverse.find? fun call => call.1 = layer).isSome :=
    List.find?_isSome.mpr ⟨(layer, s), List.mem_reverse.mpr hs, decide_eq_true rfl⟩
  obtain ⟨t, ht⟩ := Option.isSome_iff_exists.mp
    ((congrArg Option.isSome (source?_ofCalls calls layer)).trans (Option.isSome_map.trans hsome))
  have he := List.inj_on_of_nodup_map h (mem_of_source? ht) hs rfl
  exact ht.trans (congrArg some (Prod.mk.inj he).2)

/-- Where no layer is set twice, the order in which they are set does not matter. -/
theorem ofCalls_eq_of_perm {calls other : List (Layer × ModuleSource)}
    (h : (calls.map Prod.fst).Nodup) (hperm : other.Perm calls) : ofCalls other = ofCalls calls := by
  have hother : (other.map Prod.fst).Nodup := (hperm.map Prod.fst).nodup_iff.mpr h
  refine Chain.ext (funext fun layer => Option.ext fun s => ?_)
  rw [source?_eq_some_iff h, source?_eq_some_iff hother, hperm.mem_iff]

theorem agrees_of_mem_sources {calls : List (Layer × ModuleSource)}
    (h : ∀ call ∈ calls, call.2.Agrees) : ∀ s ∈ (ofCalls calls).sources, s.Agrees := by
  intro s hs
  obtain ⟨layer, -, hlayer⟩ := List.mem_filterMap.mp hs
  exact h (layer, s) (mem_of_source? hlayer)

end Chain

namespace Layers

/-- The layers as a chain. -/
def chain (layers : Layers) : Chain where
  source?
    | .override => layers.override.map Finder.source
    | .platform => layers.platform.map Finder.source
    | .application => layers.application.map Finder.source
    | .extra => layers.extra.map Finder.source

theorem sources_chain (layers : Layers) :
    layers.chain.sources = layers.finders.map Finder.source := by
  obtain ⟨override, platform, application, extra⟩ := layers
  cases override <;> cases platform <;> cases application <;> cases extra <;> rfl

/-- The finder over all layers is what the chain of their sources comes to. -/
theorem source_finder (layers : Layers) :
    layers.finder.source = ModuleSource.compose layers.chain.sources := by
  rw [finder, Finder.source_stack, sources_chain]

end Layers
end ModuleAtlas
