import ModuleAtlas.Proofs.Resolution.Congruence

/-! # Resolving from fewer roots

Two resolutions over one finder differ in their queues, in the order of selection and in the order
in which the cache of readability is filled.  None of this shows.

What roots need grows with the roots (`Needed.mono`).  So when all roots of one resolution are
modules of another resolved graph, what they need is known and free of circles, because it is
part of what the other resolution has selected (`Within`), and the first resolution succeeds too
(`exists_within_of_selects`).  A module of both graphs reads in the smaller graph part of what it
reads in the larger one, because static requirements only count among selected modules.

When each resolution has the roots of the other among its modules, the selections answer for
every name alike, and reads do not depend on anything else (`Selection.Alike`): the graphs hold the
same modules with the same lists of reads (`resolve_mono`).
-/
namespace ModuleAtlas
open Relation

theorem Needed.mono {finder : Finder} {roots roots' : NameSet} {n : String}
    (hroots : ∀ n ∈ roots, Needed finder roots' n) (h : Needed finder roots n) :
    Needed finder roots' n := by
  induction h with
  | root hn => exact hroots _ hn
  | follow _ hstep ih => exact .follow ih hstep

/-! ## One selection within another -/

/-- The modules of the first selection are modules of the second, under the same names. -/
def Within (s t : Selection) : Prop := ∀ n r, s.find? n = some r → t.find? n = some r

namespace Within
variable {s t : Selection} {m n : String}

theorem mem_names (h : Within s t) (hn : n ∈ s.names) : n ∈ t.names := by
  obtain ⟨r, hr⟩ := Selection.exists_find?_of_mem hn
  exact Selection.mem_names_of_find? (h n r hr)

theorem requires (h : Within s t) (hmn : s.Requires m n) : t.Requires m n := by
  obtain ⟨r, hr, hn, hs⟩ := hmn
  exact ⟨r, h m r hr, hn, h.mem_names hs⟩

theorem implies (h : Within s t) (hmn : s.Implies m n) : t.Implies m n := by
  obtain ⟨r, hr, hn, hs⟩ := hmn
  exact ⟨r, h m r hr, hn, h.mem_names hs⟩

theorem acyclic (h : Within s t) (ht : t.Acyclic) : s.Acyclic := by
  intro n hcircle
  have hle : s.Requires ≤ t.Requires := fun _ _ => h.requires
  exact ht n (TransGen.mono hle n n hcircle)

/-- A larger selection lets the same targets lead further. -/
theorem readAlong_subset (h : Within s t) (ht : t.Acyclic) {targets : List String} :
    readAlong s [] [] targets ⊆ readAlong t [] [] targets := by
  intro x hx
  rw [mem_readAlong_iff (h.acyclic ht) (Above.nil s targets)] at hx
  rw [mem_readAlong_iff ht (Above.nil t targets)]
  have hle : s.Implies ≤ t.Implies := fun _ _ => h.implies
  rcases hx with hx | ⟨n, hn, hs, hpath⟩
  · exact absurd hx List.not_mem_nil
  · exact Or.inr ⟨n, hn, h.mem_names hs, ReflTransGen.mono hle n x hpath⟩

end Within

/-! ## Finished selections -/

namespace Selects
variable {finder : Finder} {roots roots' : NameSet} {s t : Selection}

theorem find?_eq_none (h : Selects finder roots s) {n : String} (hn : ¬ Needed finder roots n) :
    s.find? n = none :=
  Selection.find?_eq_none_iff.mpr fun hs => hn ((h.mem_names_iff n).mp hs)

/-- Of two finished selections the one with fewer needed names is within the other. -/
theorem within (hs : Selects finder roots s) (ht : Selects finder roots' t)
    (hneeded : ∀ n, Needed finder roots n → Needed finder roots' n) : Within s t := by
  intro n r hr
  have hn : n ∈ s.names := Selection.mem_names_of_find? hr
  have hn' : n ∈ t.names := (ht.mem_names_iff n).mpr (hneeded n ((hs.mem_names_iff n).mp hn))
  rw [ht.find?_eq hn', ← hs.find?_eq hn]
  exact hr

theorem find?_congr (hs : Selects finder roots s) (ht : Selects finder roots' t)
    (hneeded : ∀ n, Needed finder roots n ↔ Needed finder roots' n) : s.find? = t.find? := by
  funext n
  by_cases hn : Needed finder roots n
  · rw [hs.find?_eq ((hs.mem_names_iff n).mpr hn),
      ht.find?_eq ((ht.mem_names_iff n).mpr ((hneeded n).mp hn))]
  · rw [hs.find?_eq_none hn, ht.find?_eq_none fun hn' => hn ((hneeded n).mpr hn')]

theorem nodup_modules (h : Selects finder roots s) : s.modules.Nodup :=
  List.Nodup.of_map ModuleReference.name h.distinct

end Selects

/-! ## Two resolutions -/

section
variable {finder : Finder} {roots roots' : NameSet} {g' : ResolvedGraph}

/-- A resolution of needed names succeeds wherever the larger one does. -/
theorem exists_within_of_selects {t : Selection} (ht : Selects finder roots' t)
    (hacyclic : t.Acyclic) (hroots : ∀ n ∈ roots, n ∈ t.names) :
    ∃ s, resolve finder roots = .ok (graphOf s) ∧ Selects finder roots s ∧ Within s t := by
  have hneeded : ∀ n, Needed finder roots n → Needed finder roots' n :=
    fun n => Needed.mono fun k hk => (ht.mem_names_iff k).mp (hroots k hk)
  rcases resolve_cases finder roots with ⟨n, origin, -, hn, hfind⟩ | ⟨s, hs, hends⟩
  · obtain ⟨r, hr⟩ := ht.known_of_needed (hneeded n hn)
    rw [hfind] at hr
    cases hr
  · have hwithin : Within s t := hs.within ht hneeded
    rcases hends with ⟨path, -, hcircle⟩ | ⟨hresolve, -⟩
    · exact absurd (hwithin.acyclic hacyclic) hcircle.not_acyclic
    · exact ⟨s, hresolve, hs, hwithin⟩

/-- **Resolution is monotone and depends on the closure only.**  When a set of roots resolves,
every set of modules of its graph resolves too, to a graph of some of the same modules, each of
which reads part of what it reads in the first graph.  When the roots of the first are in the
second graph, both graphs hold the same modules with the same lists of reads. -/
theorem resolve_mono (h : resolve finder roots' = .ok g') (hroots : ∀ n ∈ roots, n ∈ g'.names) :
    ∃ g, resolve finder roots = .ok g ∧ g.names ⊆ g'.names ∧
      (∀ m ∈ g.modules, ∃ m' ∈ g'.modules, m'.reference = m.reference ∧ m.reads ⊆ m'.reads) ∧
      ((∀ n ∈ roots', n ∈ g.names) → g.modules.Perm g'.modules) := by
  obtain ⟨t, ht, hacyclic', rfl⟩ := exists_selects_of_resolve h
  rw [names_graphOf] at hroots
  obtain ⟨s, hresolve, hs, hwithin⟩  := exists_within_of_selects ht hacyclic' hroots
  have hacyclic := hwithin.acyclic hacyclic'
  refine ⟨graphOf s, hresolve, ?_, ?_, ?_⟩
  · rw [names_graphOf, names_graphOf]
    exact fun n hn => hwithin.mem_names hn
  · intro m hm
    rw [graphOf_eq hacyclic] at hm
    obtain ⟨r, hr, rfl⟩ := List.mem_map.mp hm
    have hr' : r ∈ t.modules :=
      Selection.mem_of_find? (hwithin r.name r (hs.find?_of_mem hr))
    rw [graphOf_eq hacyclic']
    exact ⟨_, List.mem_map_of_mem hr', rfl, hwithin.readAlong_subset hacyclic'⟩
  · intro hback
    rw [names_graphOf] at hback
    have hneeded : ∀ n, Needed finder roots n ↔ Needed finder roots' n := by
      intro n
      constructor
      · exact Needed.mono fun k hk => (ht.mem_names_iff k).mp (hroots k hk)
      · exact Needed.mono fun k hk => (hs.mem_names_iff k).mp (hback k hk)
    have hfind := hs.find?_congr ht hneeded
    have hmodules : s.modules.Perm t.modules := by
      rw [List.perm_ext_iff_of_nodup hs.nodup_modules ht.nodup_modules]
      intro r
      constructor
      · intro hr
        exact Selection.mem_of_find? (hwithin r.name r (hs.find?_of_mem hr))
      · intro hr
        exact Selection.mem_of_find? (hfind ▸ ht.find?_of_mem hr)
    rw [graphOf_eq hacyclic, graphOf_eq hacyclic']
    have halike : s.Alike t := .of_find?_eq hfind
    have hreads : ∀ r : ModuleReference, (⟨r, readAlong s [] [] r.requiredNames⟩ : ResolvedModule) =
        ⟨r, readAlong t [] [] r.requiredNames⟩ :=
      fun r => congrArg (ResolvedModule.mk r) (halike.readAlong_congr_alike [] [] r.requiredNames)
    rw [funext hreads]
    exact hmodules.map _

end

namespace Shop

/-- The graph of the program and the tool, which the program then reads. -/
def graphWithTool : ResolvedGraph where
  modules := [⟨app, ["api", "model", "base", "tool"]⟩, ⟨tool, ["base"]⟩, ⟨api, ["model", "base"]⟩,
    ⟨base, []⟩, ⟨model, ["base"]⟩]

/-- The same modules, found from one root more. -/
def graphFromBase : ResolvedGraph where
  modules := [⟨app, ["api", "model", "base", "tool"]⟩, ⟨base, []⟩, ⟨tool, ["base"]⟩,
    ⟨api, ["model", "base"]⟩, ⟨model, ["base"]⟩]

theorem resolve_mono_app :
    resolve finder (.ofList ["app", "tool"]) = .ok graphWithTool ∧
      (∀ n ∈ NameSet.ofList ["app"], n ∈ graphWithTool.names) ∧
      (∃ g, resolve finder (.ofList ["app"]) = .ok g ∧ g.names ⊆ graphWithTool.names ∧
        (∀ m ∈ g.modules, ∃ m' ∈ graphWithTool.modules,
          m'.reference = m.reference ∧ m.reads ⊆ m'.reads) ∧
        ((∀ n ∈ NameSet.ofList ["app", "tool"], n ∈ g.names) →
          g.modules.Perm graphWithTool.modules)) ∧
      graphFromBase.modules.Perm graphWithTool.modules := by
  have h : resolve finder (.ofList ["app", "tool"]) = .ok graphWithTool := by cbv
  have hroots : ∀ n ∈ NameSet.ofList ["app"], n ∈ graphWithTool.names := by decide
  have hbase : resolve finder (.ofList ["app", "base", "tool"]) = .ok graphFromBase := by cbv
  have hroots' : ∀ n ∈ NameSet.ofList ["app", "base", "tool"], n ∈ graphWithTool.names := by decide
  obtain ⟨g, hg, -, -, hperm⟩ := resolve_mono h hroots'
  obtain rfl : graphFromBase = g := Except.ok.inj (hbase.symm.trans hg)
  exact ⟨h, hroots, resolve_mono h hroots, hperm (by decide)⟩

end Shop

end ModuleAtlas
