import ModuleAtlas.Proofs.Configuration.Classes

/-! # Spellings of class names

The full name of a class is written with dots, with slashes, or as the name of its entry.  An index
turns every spelling into the entry first (`EntryName.ofClass`), and what has been turned into an
entry stays as it is (`EntryName.ofClass_ofClass`), so all spellings of a name are answered alike.

The answer itself is a fall-back: the owner of the package if it holds the entry, and otherwise the
first contributor of the package that does (`PackageIndex.findOwner_eq_or`).
-/
namespace ModuleAtlas

/-! ## Texts with separators -/

namespace Text
variable {c old new : Char} {a b s : String}

theorem splitLast?_of_not_mem (h : c ∉ s.toList) : splitLast? c s = none := by
  rw [splitLast?, cutLast?_eq_none_iff.mpr h, Option.map_none]

theorem replace_append (old new : Char) (a b : String) :
    replace old new (a ++ b) = replace old new a ++ replace old new b := by
  rw [replace, String.toList_append, List.map_append, String.ofList_append]
  rfl

theorem replace_singleton (old new : Char) :
    replace old new (String.singleton old) = String.singleton new := by
  rw [replace, String.toList_singleton, List.map_singleton, if_pos rfl]
  rfl

/-- Parts in which a separator does not occur are joined by another one. -/
theorem replace_intercalate {parts : List String} (h : ∀ p ∈ parts, old ∉ p.toList) :
    replace old new ((String.singleton old).intercalate parts) =
      (String.singleton new).intercalate parts := by
  induction parts with
  | nil => rfl
  | cons p parts ih =>
    obtain ⟨hp, hparts⟩ := List.forall_mem_cons.mp h
    by_cases hlast : parts = []
    · subst hlast
      rw [String.intercalate_singleton, String.intercalate_singleton, replace_of_not_mem hp]
    · rw [String.intercalate_cons_of_ne_nil hlast, String.intercalate_cons_of_ne_nil hlast,
        replace_append, replace_append, replace_of_not_mem hp, replace_singleton, ih hparts]

theorem not_mem_replace (h : old ≠ new) (s : String) : old ∉ (replace old new s).toList := by
  intro hmem
  rw [replace, String.toList_ofList, List.mem_map] at hmem
  obtain ⟨x, -, hx⟩ := hmem
  by_cases ho : x = old
  · rw [if_pos ho] at hx
    exact h hx.symm
  · rw [if_neg ho] at hx
    exact ho hx

/-- A character of joined parts is in one of the parts or in the separator. -/
theorem mem_intercalate {sep : String} {parts : List String}
    (h : c ∈ (sep.intercalate parts).toList) : c ∈ sep.toList ∨ ∃ p ∈ parts, c ∈ p.toList := by
  induction parts with
  | nil => exact absurd h List.not_mem_nil
  | cons p parts ih =>
    by_cases hlast : parts = []
    · subst hlast
      rw [String.intercalate_singleton] at h
      exact Or.inr ⟨p, List.mem_cons_self, h⟩
    · rw [String.intercalate_cons_of_ne_nil hlast, String.toList_append, String.toList_append,
        List.mem_append, List.mem_append] at h
      rcases h with (hp | hsep) | hrest
      · exact Or.inr ⟨p, List.mem_cons_self, hp⟩
      · exact Or.inl hsep
      · refine (ih hrest).imp id ?_
        rintro ⟨q, hq, hc⟩
        exact ⟨q, List.mem_cons_of_mem p hq, hc⟩

end Text

/-! ## Spellings -/

namespace EntryName

/-- The ending may be left out. -/
theorem ofClass_of_beforeEnd? {className : String}
    (h : Text.beforeEnd? classEnding className = none) :
    ofClass className = ofClass (className ++ classEnding) := by
  have hstem : Text.beforeEnd? classEnding (className ++ classEnding) = some className :=
    Text.beforeEnd?_eq_some_iff.mpr rfl
  unfold ofClass
  rw [h, hstem, Option.getD_none, Option.getD_some]

/-- The name of an entry ends like one, and its dots are not taken for slashes again. -/
theorem exists_ofClass_eq_append (className : String) :
    ∃ stem, ofClass className = stem ++ classEnding ∧ ('/' ∈ stem.toList ∨ '.' ∉ stem.toList) := by
  -- the ending is given or left out, which makes no difference
  obtain ⟨given, hgiven⟩ : ∃ given, ofClass className = ofClass (given ++ classEnding) := by
    cases h : Text.beforeEnd? classEnding className with
    | none => exact ⟨className, ofClass_of_beforeEnd? h⟩
    | some given => exact ⟨given, by rw [Text.beforeEnd?_eq_some_iff.mp h]⟩
  rw [hgiven, ofClass_append]
  by_cases hslash : '/' ∈ given.toList
  · exact ⟨given, if_pos hslash, .inl hslash⟩
  · exact ⟨Text.replace '.' '/' given, if_neg hslash,
      .inr (Text.not_mem_replace (by decide) given)⟩

theorem isClass_ofClass (className : String) : isClass (ofClass className) = true := by
  obtain ⟨stem, hstem, -⟩ := exists_ofClass_eq_append className
  exact Text.endsWith_iff.mpr ⟨stem, hstem⟩

/-- The entry of a class stands for the same class. -/
theorem ofClass_ofClass (className : String) : ofClass (ofClass className) = ofClass className := by
  obtain ⟨stem, hstem, hdots⟩ := exists_ofClass_eq_append className
  refine ofClass_eq_self (isClass_ofClass className) ?_
  rcases hdots with hslash | hdot
  · rw [hstem, String.toList_append]
    exact .inl (List.mem_append_left _ hslash)
  · exact .inr ⟨stem, hstem, hdot⟩

/-- The parts of the full name of a class. -/
structure IsFullName (segments : List String) : Prop where
  nonempty : segments ≠ []
  plain : ∀ p ∈ segments, '.' ∉ p.toList ∧ '/' ∉ p.toList
  last : segments.getLast? ≠ some "class"

/-- The ways to write a full name: with dots or with slashes, and either as an entry. -/
def spellings (segments : List String) : List String :=
  [".".intercalate segments, "/".intercalate segments, ".".intercalate segments ++ classEnding,
    "/".intercalate segments ++ classEnding]

/-- The entry of the class of a full name. -/
def ofSegments (segments : List String) : String := "/".intercalate segments ++ classEnding

namespace IsFullName
variable {segments : List String}

theorem dot_not_mem (h : IsFullName segments) : '.' ∉ ("/".intercalate segments).toList := by
  intro hmem
  rcases Text.mem_intercalate hmem with hsep | ⟨p, hp, hdot⟩
  · exact absurd hsep (by decide)
  · exact (h.plain p hp).1 hdot

theorem slash_not_mem (h : IsFullName segments) : '/' ∉ (".".intercalate segments).toList := by
  intro hmem
  rcases Text.mem_intercalate hmem with hsep | ⟨p, hp, hslash⟩
  · exact absurd hsep (by decide)
  · exact (h.plain p hp).2 hslash

/-- A full name in dots does not look like an entry, because its last part is not the ending. -/
theorem beforeEnd?_dotted (h : IsFullName segments) :
    Text.beforeEnd? classEnding (".".intercalate segments) = none := by
  rw [Option.eq_none_iff_forall_ne_some]
  intro rest hrest
  have hdotted := Text.beforeEnd?_eq_some_iff.mp hrest
  have hparts : Text.splitAll '.' (".".intercalate segments) = segments :=
    Text.splitAll_intercalate h.nonempty fun p hp => (h.plain p hp).1
  have hcut : (rest ++ classEnding).toList = rest.toList ++ '.' :: "class".toList :=
    String.toList_append
  rw [hdotted, Text.splitAll_append '.' hcut,
    Text.splitAll_of_not_mem (s := "class") (by decide)] at hparts
  refine h.last ?_
  rw [← hparts, List.getLast?_concat]

theorem beforeEnd?_slashed (h : IsFullName segments) :
    Text.beforeEnd? classEnding ("/".intercalate segments) = none := by
  rw [Option.eq_none_iff_forall_ne_some]
  intro rest hrest
  refine h.dot_not_mem ?_
  rw [Text.beforeEnd?_eq_some_iff.mp hrest, String.toList_append]
  exact List.mem_append_right _ List.mem_cons_self

theorem ofClass_dotted (h : IsFullName segments) :
    ofClass (".".intercalate segments ++ classEnding) = ofSegments segments := by
  have hslashed : Text.replace '.' '/' (".".intercalate segments) = "/".intercalate segments :=
    Text.replace_intercalate fun p hp => (h.plain p hp).1
  rw [ofClass_append, if_neg h.slash_not_mem, hslashed]
  rfl

theorem ofClass_slashed (h : IsFullName segments) :
    ofClass ("/".intercalate segments ++ classEnding) = ofSegments segments :=
  ofClass_eq_self (Text.endsWith_iff.mpr ⟨_, rfl⟩) (.inr ⟨_, rfl, h.dot_not_mem⟩)

/-- All spellings of a full name give the same entry. -/
theorem ofClass_spelling (h : IsFullName segments) {className : String}
    (hc : className ∈ spellings segments) : ofClass className = ofSegments segments := by
  simp only [spellings, List.mem_cons, List.not_mem_nil, or_false] at hc
  rcases hc with rfl | rfl | rfl | rfl
  · rw [ofClass_of_beforeEnd? h.beforeEnd?_dotted, h.ofClass_dotted]
  · rw [ofClass_of_beforeEnd? h.beforeEnd?_slashed, h.ofClass_slashed]
  · exact h.ofClass_dotted
  · exact h.ofClass_slashed

/-- The package of a class is named by all parts but the last. -/
theorem package_ofSegments (h : IsFullName segments) :
    package (ofSegments segments) = ".".intercalate segments.dropLast := by
  obtain ⟨before, last, rfl⟩ := (List.eq_nil_or_concat' segments).resolve_left h.nonempty
  have hlast : '/' ∉ (last ++ classEnding).toList := by
    rw [String.toList_append, List.mem_append, not_or]
    exact ⟨(h.plain last (List.mem_append_right _ List.mem_cons_self)).2, by decide⟩
  rw [List.dropLast_concat, package, ofSegments]
  by_cases hbefore : before = []
  · subst hbefore
    rw [List.nil_append, String.intercalate_singleton, Text.splitLast?_of_not_mem hlast]
    rfl
  · have hcut : "/".intercalate (before ++ [last]) ++ classEnding =
        "/".intercalate before ++ String.singleton '/' ++ (last ++ classEnding) := by
      rw [String.intercalate_append_of_ne_nil hbefore (List.cons_ne_nil last []),
        String.intercalate_singleton, String.append_assoc]
      rfl
    rw [hcut, Text.splitLast?_append hlast]
    exact Text.replace_intercalate fun p hp => (h.plain p (List.mem_append_left _ hp)).2

end IsFullName
end EntryName

/-! ## Answers -/

/-- An entry of a class that an artifact holds is a class in the package, unless it is the
descriptor. -/
theorem Artifact.hasClassIn_of_contains (a : Artifact) {className entry package : String}
    (hentry : EntryName.ofClass className = entry) (hpackage : EntryName.package entry = package)
    (h : a.contains entry = true) (hne : entry ≠ EntryName.moduleInfo) : a.HasClassIn package :=
  ⟨entry, EntryReader.contains_iff.mp h, hentry ▸ EntryName.isClass_ofClass className, hne,
    hpackage⟩

namespace PackageIndex

/-- An index knows classes by their entries. -/
theorem findOwner_congr (ix : PackageIndex) {className other : String}
    (h : EntryName.ofClass other = EntryName.ofClass className) :
    ix.findOwner other = ix.findOwner className := by
  rw [findOwner_eq ix h, findOwner_eq ix rfl]

/-- The owner of the package is asked first, and then its contributors in their order. -/
theorem findOwner_eq_or {ix : PackageIndex} {className entry package : String}
    (hentry : EntryName.ofClass className = entry) (hpackage : EntryName.package entry = package) :
    ix.findOwner className =
      (((ix.owner? package).filter (·.contains entry)).map Owner.unit).or
        (((ix.contributorsOf package).find? (·.contains entry)).map Owner.artifact) := by
  subst hpackage
  rw [findOwner_eq ix hentry]
  cases (ix.owner? (EntryName.package entry)).filter (·.contains entry) <;> rfl

section
variable {additions : List Owner} {className entry package : String}
  (hentry : EntryName.ofClass className = entry) (hpackage : EntryName.package entry = package)

include hentry hpackage

theorem findOwner_ofAdditions_eq_or :
    (ofAdditions additions).findOwner className =
      ((((ofAdditions additions).owner? package).filter (·.contains entry)).map Owner.unit).or
        (((Owner.artifacts additions).find? fun a =>
          decide (a.HasClassIn package) && a.contains entry).map Owner.artifact) := by
  rw [findOwner_eq_or hentry hpackage, contributorsOf_ofAdditions, List.find?_filter]
  simp only [Bool.decide_and, Bool.decide_eq_true]

/-- An artifact that is found contributes the package. -/
theorem mem_contributorsOf_of_findOwner {a : Artifact}
    (h : (ofAdditions additions).findOwner className = some (.artifact a)) :
    a ∈ (ofAdditions additions).contributorsOf package := by
  rw [findOwner_eq_or hentry hpackage, Option.or_eq_some_iff] at h
  rcases h with h | ⟨-, h⟩
  · obtain ⟨u, -, hu⟩ := Option.map_eq_some_iff.mp h
    cases hu
  · obtain ⟨b, hb, he⟩ := Option.map_eq_some_iff.mp h
    obtain rfl : b = a := Owner.artifact.inj he
    exact List.mem_of_find?_eq_some hb

/-- A module that does not hold the class leaves it to the contributors of the package. -/
theorem exists_findOwner_of_lacks {u : ModuleUnit}
    (howner : (ofAdditions additions).owner? package = some u) (hlacks : u.contains entry = false)
    {a : Artifact} (ha : a ∈ Owner.artifacts additions) (hclass : a.HasClassIn package)
    (hholds : a.contains entry = true) :
    ∃ b, (ofAdditions additions).findOwner className = some (.artifact b) := by
  have hfilter : ((ofAdditions additions).owner? package).filter (·.contains entry) = none := by
    rw [howner, Option.filter_some, hlacks]
    rfl
  have hfound : ((Owner.artifacts additions).find? fun a =>
      decide (a.HasClassIn package) && a.contains entry).isSome :=
    List.find?_isSome.mpr ⟨a, ha, by rw [decide_eq_true hclass, hholds, Bool.and_self]⟩
  obtain ⟨b, hb⟩ := Option.isSome_iff_exists.mp hfound
  exact ⟨b, by rw [findOwner_ofAdditions_eq_or hentry hpackage, hfilter, hb]; rfl⟩

/-- A class that is found in an artifact although its package has an owner is in a split package,
and the artifact is among the origins of it. -/
theorem exists_origins_of_findOwner {u : ModuleUnit} {a : Artifact}
    (howner : (ofAdditions additions).owner? package = some u)
    (h : (ofAdditions additions).findOwner className = some (.artifact a)) :
    ∃ origins, (ofAdditions additions).splitPackages.find? package = some origins ∧
      a.path.text ∈ origins := by
  have ha := mem_contributorsOf_of_findOwner hentry hpackage h
  refine ⟨NameSet.ofList
    (u.location :: ((ofAdditions additions).contributorsOf package).map (·.path.text)), ?_, ?_⟩
  · rw [find?_splitPackages]
    exact (contributed_ofAdditions additions).origins?_eq_some_iff.mpr
      ⟨u, howner, List.ne_nil_of_mem ha, rfl⟩
  · rw [NameSet.mem_ofList]
    exact List.mem_cons_of_mem _ (List.mem_map_of_mem ha)

end

/-- **Which owner a class is found in.**  The owner of its package, if this holds the class; or
else the artifact added first that contributes the package and holds the class; or else none.  So
an owner of the package that does not hold the class does not hide an artifact that does, and what
is found in an artifact of an owned package is in a split package that comes from that artifact
too.  The entry of a class is found where the class is, and all spellings of a full name have one
entry, one package and one answer. -/
theorem findOwner_ofAdditions (additions : List Owner) {className entry package : String}
    (hentry : EntryName.ofClass className = entry) (hpackage : EntryName.package entry = package) :
    (ofAdditions additions).findOwner className =
        ((((ofAdditions additions).owner? package).filter (·.contains entry)).map Owner.unit).or
          (((Owner.artifacts additions).find? fun a =>
            decide (a.HasClassIn package) && a.contains entry).map Owner.artifact) ∧
      (∀ o, (ofAdditions additions).findOwner className = some o → o.contains entry = true) ∧
      (∀ u, (ofAdditions additions).owner? package = some u → u.contains entry = false →
        ∀ a ∈ Owner.artifacts additions, a.contains entry = true →
          entry ≠ EntryName.moduleInfo ∨ a.HasClassIn package →
          ∃ b, (ofAdditions additions).findOwner className = some (.artifact b)) ∧
      (∀ u a, (ofAdditions additions).owner? package = some u →
        (ofAdditions additions).findOwner className = some (.artifact a) →
        ∃ origins, (ofAdditions additions).splitPackages.find? package = some origins ∧
          a.path.text ∈ origins) ∧
      (ofAdditions additions).findOwner entry = (ofAdditions additions).findOwner className ∧
      ∀ segments, EntryName.IsFullName segments → className ∈ EntryName.spellings segments →
        entry = "/".intercalate segments ++ ".class" ∧
          package = ".".intercalate segments.dropLast ∧
          ∀ other ∈ EntryName.spellings segments,
            (ofAdditions additions).findOwner other =
              (ofAdditions additions).findOwner className := by
  refine ⟨findOwner_ofAdditions_eq_or hentry hpackage,
    fun o ho => contains_of_findOwner hentry ho, fun u howner hlacks a ha hholds hclass => ?_,
    fun u a howner ha => exists_origins_of_findOwner hentry hpackage howner ha, ?_, ?_⟩
  · refine exists_findOwner_of_lacks hentry hpackage howner hlacks ha ?_ hholds
    exact hclass.elim (a.hasClassIn_of_contains hentry hpackage hholds) id
  · exact findOwner_congr _ (by rw [← hentry, EntryName.ofClass_ofClass])
  · intro segments hname hclass
    have hsegments := hname.ofClass_spelling hclass
    refine ⟨hentry.symm.trans hsegments, ?_, fun other hother => ?_⟩
    · rw [← hpackage, ← hentry, hsegments, hname.package_ofSegments]
    · exact findOwner_congr _ ((hname.ofClass_spelling hother).trans hsegments.symm)

end PackageIndex

namespace Shop
open PackageIndex

/-- The owner of the package holds nothing, so the price is found in the first artifact, which the
package then comes from as well; and it is found under each of its names. -/
theorem findOwner_ofAdditions_deliveries :
    (ofAdditions deliveries).findOwner "goods.Price" =
        some (.artifact (crate "/crates/1" ["goods/Item.class", "goods/Price.class"])) ∧
      (∃ origins, (ofAdditions deliveries).splitPackages.find? "goods" = some origins ∧
        "/crates/1" ∈ origins) ∧
      ∀ other ∈ EntryName.spellings ["goods", "Price"],
        (ofAdditions deliveries).findOwner other =
          some (.artifact (crate "/crates/1" ["goods/Item.class", "goods/Price.class"])) := by
  have hentry : EntryName.ofClass "goods.Price" = "goods/Price.class" := by cbv
  have hpackage : EntryName.package "goods/Price.class" = "goods" := by cbv
  obtain ⟨hfind, -, -, hsplit, -, hspellings⟩ :=
    findOwner_ofAdditions deliveries hentry hpackage
  have howner : (ofAdditions deliveries).owner? "goods" = some (shelf "left" "goods") := by
    rw [owner?_ofAdditions]
    rfl
  have hfound : (ofAdditions deliveries).findOwner "goods.Price" =
      some (.artifact (crate "/crates/1" ["goods/Item.class", "goods/Price.class"])) := by
    rw [hfind, howner]
    rfl
  have hname : EntryName.IsFullName ["goods", "Price"] := ⟨by decide, by decide, by decide⟩
  obtain ⟨-, -, hall⟩ := hspellings ["goods", "Price"] hname (by decide)
  exact ⟨hfound, hsplit _ _ howner hfound, fun other h => (hall other h).trans hfound⟩

end Shop

end ModuleAtlas
