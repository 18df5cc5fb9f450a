import ModuleAtlas.Discovery.DefaultRoots
import ModuleAtlas.Proofs.Resolution.Discovery
import ModuleAtlas.Proofs.Steps

/-! # Which modules are default roots

A module **qualifies** at a place of a list if it exports a package there to everyone
(`QualifiesAt`); a name may stand at several places.  The aggregator is a root if it is in the
list at all, and it comes first.  What its presence takes away are the names of its namespace
(`StandsFor`), and every other name that qualifies somewhere is listed, by the first place where
it does (`default_roots_qualify`).

Nothing but the names and the unqualified exports of the modules counts (`defaultRoots_congr`).
-/
namespace ModuleAtlas

/-- Some package is exported without naming the modules that it is meant for. -/
def ModuleDescriptor.ExportsToAll (d : ModuleDescriptor) : Prop :=
  ∃ e ∈ d.exports, ∀ target, target ∉ e.targets

/-- Descriptors of one name that export the same to everyone. -/
def ModuleDescriptor.SameOffer (d d' : ModuleDescriptor) : Prop :=
  d.name = d'.name ∧
    d.exports.filter (fun e => !e.isQualified) = d'.exports.filter (fun e => !e.isQualified)

/-- At a place of a list there is a module of some name that exports a package to everyone. -/
def QualifiesAt (modules : List ModuleDescriptor) (n : String) (i : Nat) : Prop :=
  ∃ d, modules[i]? = some d ∧ d.name = n ∧ d.ExportsToAll

/-- The namespace of an aggregator reaches up to the first dot of its name; a name without a dot is
closed by one. -/
inductive IsNamespace : String → String → Prop where
  /-- The name has a dot. -/
  | dotted {first rest : String} (h : '.' ∉ first.toList) :
    IsNamespace (first ++ "." ++ rest) (first ++ ".")
  /-- The name has no dot. -/
  | plain {name : String} (h : '.' ∉ name.toList) : IsNamespace name (name ++ ".")

/-- A name begins with the namespace of an aggregator. -/
def StandsFor (aggregator n : String) : Prop :=
  ∃ front, IsNamespace aggregator front ∧ ∃ rest, n = front ++ rest

/-! ## The conditions on one module -/

theorem ModuleDescriptor.exportsUnqualified_iff {d : ModuleDescriptor} :
    d.exportsUnqualified = true ↔ d.ExportsToAll := by
  unfold exportsUnqualified ExportsToAll
  rw [List.any_eq_true]
  refine exists_congr fun e => and_congr_right fun _ => ?_
  rw [Exports.isQualified, Bool.not_not, NameSet.isEmpty, List.isEmpty_iff,
    List.eq_nil_iff_forall_not_mem]
  rfl

theorem ModuleDescriptor.SameOffer.exportsUnqualified_eq {d d' : ModuleDescriptor}
    (h : d.SameOffer d') : d.exportsUnqualified = d'.exportsUnqualified := by
  have hany : ∀ d : ModuleDescriptor, d.exportsUnqualified =
      (d.exports.filter fun e => !e.isQualified).any fun _ => true := by
    intro d
    rw [List.any_filter, exportsUnqualified]
    simp only [Bool.and_true]
  rw [hany, hany, h.2]

theorem isNamespace_namespaceOf (aggregator : String) :
    IsNamespace aggregator (namespaceOf aggregator) := by
  unfold namespaceOf
  split
  · next first rest hsplit =>
    obtain ⟨htext, hfirst⟩ := Text.splitFirst?_eq_some_iff.mp hsplit
    have heq : aggregator = first ++ "." ++ rest := by
      rw [← String.toList_inj, htext]
      simp
    exact heq ▸ .dotted hfirst
  · next hnone => exact .plain (Text.splitFirst?_eq_none_iff.mp hnone)

theorem IsNamespace.eq_namespaceOf {aggregator front : String} (h : IsNamespace aggregator front) :
    front = namespaceOf aggregator := by
  cases h with
  | @dotted first rest hfirst =>
    have hsplit : Text.splitFirst? '.' (first ++ "." ++ rest) = some (first, rest) :=
      Text.splitFirst?_eq_some_iff.mpr ⟨by simp, hfirst⟩
    rw [namespaceOf, hsplit]
  | plain hname => rw [namespaceOf, Text.splitFirst?_eq_none_iff.mpr hname]

theorem beginsWith_namespaceOf_iff {aggregator n : String} :
    Text.beginsWith (namespaceOf aggregator) n = true ↔ StandsFor aggregator n := by
  rw [Text.beginsWith_iff]
  constructor
  · exact fun h => ⟨_, isNamespace_namespaceOf aggregator, h⟩
  · rintro ⟨front, hfront, h⟩
    exact hfront.eq_namespaceOf ▸ h

/-- Whether a module is a root beside the aggregator depends on its name, and on whether it exports
a package to everyone. -/
theorem isDefaultRoot_iff {aggregator : String} {aggregated : Bool} {d : ModuleDescriptor} :
    isDefaultRoot aggregator aggregated d = true ↔
      (d.name ≠ aggregator ∧ ¬(aggregated = true ∧ StandsFor aggregator d.name)) ∧
        d.ExportsToAll := by
  rw [isDefaultRoot, Bool.and_eq_true, Bool.and_eq_true, bne_iff_ne, Bool.not_eq_true',
    ← Bool.not_eq_true, Bool.and_eq_true, beginsWith_namespaceOf_iff,
    ModuleDescriptor.exportsUnqualified_iff]

/-! ## The roots beside the aggregator -/

/-- The names of the modules that are roots beside the aggregator, in the order of the modules. -/
def otherRoots (modules : List ModuleDescriptor) (aggregator : String) : List String :=
  (modules.filter (isDefaultRoot aggregator (modules.any fun d => d.name == aggregator))).map
    ModuleDescriptor.name

section
variable {modules : List ModuleDescriptor} {aggregator m n : String}

theorem any_name_iff :
    (modules.any fun d => d.name == n) = true ↔ ∃ d ∈ modules, d.name = n := by
  rw [List.any_eq_true]
  exact exists_congr fun d => and_congr_right fun _ => beq_iff_eq

theorem mem_otherRoots_iff :
    n ∈ otherRoots modules aggregator ↔
      (n ≠ aggregator ∧ ¬((∃ d ∈ modules, d.name = aggregator) ∧ StandsFor aggregator n)) ∧
        ∃ d ∈ modules, d.name = n ∧ d.ExportsToAll := by
  unfold otherRoots
  simp only [List.mem_map, List.mem_filter, isDefaultRoot_iff, any_name_iff]
  constructor
  · rintro ⟨d, ⟨hd, hname, hexports⟩, rfl⟩
    exact ⟨hname, d, hd, rfl, hexports⟩
  · rintro ⟨hname, d, hd, rfl, hexports⟩
    exact ⟨d, ⟨hd, hname, hexports⟩, rfl⟩

theorem mem_defaultRoots_iff :
    n ∈ defaultRoots modules aggregator ↔
      (n = aggregator ∧ ∃ d ∈ modules, d.name = aggregator) ∨
        n ∈ otherRoots modules aggregator := by
  have hfirst : n ∈ (if modules.any fun d => d.name == aggregator then [aggregator] else []) ↔
      n = aggregator ∧ ∃ d ∈ modules, d.name = aggregator := by
    rw [← any_name_iff]
    split
    · next hany => simp [hany]
    · next hany => simp [hany]
  rw [← hfirst]
  exact mem_distinct.trans List.mem_append

theorem exists_of_mem_defaultRoots (h : n ∈ defaultRoots modules aggregator) :
    ∃ d ∈ modules, d.name = n := by
  rcases mem_defaultRoots_iff.mp h with ⟨rfl, hpresent⟩ | hother
  · exact hpresent
  · obtain ⟨-, d, hd, hname, -⟩ := mem_otherRoots_iff.mp hother
    exact ⟨d, hd, hname⟩

theorem filter_defaultRoots :
    (defaultRoots modules aggregator).filter (· ≠ aggregator) =
      distinct (otherRoots modules aggregator) := by
  have hothers : (otherRoots modules aggregator).filter (· ≠ aggregator) =
      otherRoots modules aggregator :=
    List.filter_eq_self.mpr fun n hn => decide_eq_true (mem_otherRoots_iff.mp hn).1.1
  show (distinct (_ ++ otherRoots modules aggregator)).filter _ = _
  rw [filter_distinct, List.filter_append, hothers]
  split <;> simp

theorem head?_defaultRoots :
    (defaultRoots modules aggregator).head? = some aggregator ↔
      ∃ d ∈ modules, d.name = aggregator := by
  constructor
  · intro h
    rcases mem_defaultRoots_iff.mp (List.mem_of_head? h) with ⟨-, hpresent⟩ | hother
    · exact hpresent
    · exact absurd rfl (mem_otherRoots_iff.mp hother).1.1
  · intro h
    obtain ⟨others, hothers⟩ := exists_distinct_append (List.nodup_singleton aggregator)
      (otherRoots modules aggregator)
    have hroots : defaultRoots modules aggregator = [aggregator] ++ others := by
      rw [← hothers, defaultRoots, if_pos (any_name_iff.mpr h)]
      rfl
    rw [hroots]
    rfl

/-! ## Order -/

/-- The first place of a list where something holds of its value. -/
theorem isLeast_findIdx {α : Type} {p : α → Bool} {l : List α} (h : ∃ x ∈ l, p x = true) :
    IsLeast {i | ∃ x, l[i]? = some x ∧ p x = true} (l.findIdx p) := by
  have hlt : l.findIdx p < l.length := List.findIdx_lt_length_of_exists h
  refine ⟨⟨l[l.findIdx p], List.getElem?_eq_getElem hlt, List.findIdx_getElem⟩, ?_⟩
  rintro i ⟨x, hx, hpx⟩
  by_contra hbefore
  obtain ⟨hi, rfl⟩ := List.getElem?_eq_some_iff.mp hx
  exact Bool.false_ne_true
    ((List.not_of_lt_findIdx (Nat.lt_of_not_le hbefore)).symm.trans hpx)

/-- What the name of a root beside the aggregator meets is met wherever the name stands. -/
theorem isDefaultRoot_and_name_iff (h : n ∈ otherRoots modules aggregator) {d : ModuleDescriptor} :
    (isDefaultRoot aggregator (modules.any fun d => d.name == aggregator) d && d.name == n) = true ↔
      d.name = n ∧ d.ExportsToAll := by
  rw [Bool.and_eq_true, isDefaultRoot_iff, any_name_iff, beq_iff_eq]
  constructor
  · exact fun hroot => ⟨hroot.2, hroot.1.2⟩
  · rintro ⟨rfl, hexports⟩
    exact ⟨⟨(mem_otherRoots_iff.mp h).1, hexports⟩, rfl⟩

/-- The first place where a root beside the aggregator qualifies. -/
theorem isLeast_of_mem_otherRoots (h : n ∈ otherRoots modules aggregator) :
    IsLeast {i | QualifiesAt modules n i} (modules.findIdx fun d =>
      isDefaultRoot aggregator (modules.any fun d => d.name == aggregator) d && d.name == n) := by
  have hplaces : {i | QualifiesAt modules n i} = {i | ∃ d, modules[i]? = some d ∧
      (isDefaultRoot aggregator (modules.any fun d => d.name == aggregator) d &&
        d.name == n) = true} := by
    simp only [isDefaultRoot_and_name_iff h]
    rfl
  obtain ⟨-, d, hd, hqualifies⟩ := mem_otherRoots_iff.mp h
  rw [hplaces]
  exact isLeast_findIdx ⟨d, hd, (isDefaultRoot_and_name_iff h).mpr hqualifies⟩

theorem pairwise_otherRoots :
    (distinct (otherRoots modules aggregator)).Pairwise fun m n =>
      ∃ i j, IsLeast {i | QualifiesAt modules m i} i ∧ IsLeast {j | QualifiesAt modules n j} j ∧
        i < j := by
  refine (pairwise_idxOf_distinct _).imp_of_mem fun {m n} hm hn hlt => ?_
  exact ⟨_, _, isLeast_of_mem_otherRoots (mem_distinct.mp hm),
    isLeast_of_mem_otherRoots (mem_distinct.mp hn), findIdx_lt_of_idxOf_lt _ _ hlt⟩

end

/-! ## What does not count -/

theorem isDefaultRoot_congr {d d' : ModuleDescriptor} (h : d.SameOffer d') (aggregator : String)
    (aggregated : Bool) :
    isDefaultRoot aggregator aggregated d = isDefaultRoot aggregator aggregated d' := by
  unfold isDefaultRoot
  rw [h.1, h.exportsUnqualified_eq]

/-- Modules of the same names that export the same to everyone have the same default roots. -/
theorem defaultRoots_congr {modules modules' : List ModuleDescriptor}
    (h : List.Forall₂ ModuleDescriptor.SameOffer modules modules') (aggregator : String) :
    defaultRoots modules aggregator = defaultRoots modules' aggregator := by
  have hnames : ∀ {l l' : List ModuleDescriptor}, List.Forall₂ ModuleDescriptor.SameOffer l l' →
      l.map ModuleDescriptor.name = l'.map ModuleDescriptor.name :=
    fun hl => Steps.map_eq_map_of_forall₂ (hl.imp fun _ _ hd => hd.1)
  have haggregated : (modules.any fun d => d.name == aggregator) =
      modules'.any fun d => d.name == aggregator := by
    have hany : ∀ l : List ModuleDescriptor, (l.any fun d => d.name == aggregator) =
        (l.map ModuleDescriptor.name).any (· == aggregator) := by
      intro l
      rw [List.any_map]
      rfl
    rw [hany, hany, hnames h]
  have hothers : ∀ aggregated, List.Forall₂ ModuleDescriptor.SameOffer
      (modules.filter (isDefaultRoot aggregator aggregated))
      (modules'.filter (isDefaultRoot aggregator aggregated)) := by
    intro aggregated
    exact List.rel_filter (R := ModuleDescriptor.SameOffer) (fun d d' hd => iff_of_eq
      (congrArg (· = true) (isDefaultRoot_congr hd aggregator aggregated))) h
  unfold defaultRoots
  dsimp only
  rw [haggregated, hnames (hothers _)]

/-! ## Default roots -/

/-- **The default roots are the aggregator and what qualifies beside it.**  Each is listed once and
is the name of a module in the list.  The aggregator comes first if a module has its name, whatever
it exports.  Any other name is listed if and only if a module of that name exports a package to
everyone, unless the aggregator is there and the name is in its namespace; these names are ordered
by the first place where they qualify.  What the modules require or open, and what they export to
named modules only, has no influence. -/
theorem default_roots_qualify (modules : List ModuleDescriptor) (aggregator : String) :
    (defaultRoots modules aggregator).Nodup ∧
      (∀ n ∈ defaultRoots modules aggregator, ∃ d ∈ modules, d.name = n) ∧
      ((defaultRoots modules aggregator).head? = some aggregator ↔
        ∃ d ∈ modules, d.name = aggregator) ∧
      (∀ n, n ≠ aggregator → (n ∈ defaultRoots modules aggregator ↔
        (∃ d ∈ modules, d.name = n ∧ d.ExportsToAll) ∧
          ¬((∃ d ∈ modules, d.name = aggregator) ∧ StandsFor aggregator n))) ∧
      ((defaultRoots modules aggregator).filter (· ≠ aggregator)).Pairwise (fun m n =>
        ∃ i j, IsLeast {i | QualifiesAt modules m i} i ∧ IsLeast {j | QualifiesAt modules n j} j ∧
          i < j) ∧
      ∀ modules', List.Forall₂ ModuleDescriptor.SameOffer modules modules' →
        defaultRoots modules' aggregator = defaultRoots modules aggregator := by
  refine ⟨nodup_distinct _, fun n => exists_of_mem_defaultRoots, head?_defaultRoots, ?_, ?_, ?_⟩
  · intro n hne
    rw [mem_defaultRoots_iff, mem_otherRoots_iff]
    tauto
  · rw [filter_defaultRoots]
    exact pairwise_otherRoots
  · exact fun modules' h => (defaultRoots_congr h aggregator).symm

namespace Shop

/-- Modules around an aggregator, one of them twice, and one with exports to a named module only. -/
def bazaar : List ModuleDescriptor :=
  let everyone : List Exports := [⟨"impl", .ofList ["other"]⟩, ⟨"api", ∅⟩]
  [{ name := "tools", exports := everyone }, { name := "agg" },
    { name := "plain", exports := [⟨"impl", .ofList ["tools"]⟩] },
    { name := "agg.impl", exports := everyone }, { name := "aggregate", exports := everyone },
    { name := "tools", exports := everyone }]

/-- The modules with other requirements and opened packages, exporting nothing to named modules. -/
def rearranged : List ModuleDescriptor :=
  bazaar.map fun d =>
    { d with
      requires := [{ name := "agg.impl" }]
      exports := d.exports.filter fun e => !e.isQualified
      opens := [{ source := "api" }] }

theorem default_roots_qualify_bazaar :
    defaultRoots bazaar "agg" = ["agg", "tools", "aggregate"] ∧
      List.Forall₂ ModuleDescriptor.SameOffer bazaar rearranged ∧
      defaultRoots rearranged "agg" = ["agg", "tools", "aggregate"] ∧
      (∃ d ∈ bazaar, d.name = "tools" ∧ d.ExportsToAll) ∧
        ¬((∃ d ∈ bazaar, d.name = "agg") ∧ StandsFor "agg" "tools") := by
  obtain ⟨-, -, -, hmem, -, hcongr⟩ := default_roots_qualify bazaar "agg"
  have hroots : defaultRoots bazaar "agg" = ["agg", "tools", "aggregate"] := by decide
  have hsame : List.Forall₂ ModuleDescriptor.SameOffer bazaar rearranged :=
    List.forall₂_map_right_iff.mpr (List.forall₂_same.mpr fun d _ => ⟨rfl, by simp⟩)
  exact ⟨hroots, hsame, (hcongr rearranged hsame).trans hroots,
    (hmem "tools" (by decide)).mp (by rw [hroots]; decide)⟩

end Shop

end ModuleAtlas
