import Mathlib.Data.List.DropRight
import ModuleAtlas.Proofs.Files.Paths

/-! # The last component of a path

A path names something in a folder if it ends with a component.  Whatever comes after that, up to
the end, is blank: segments that are empty or `.` are no components.  What stands before it leads to
the folder, which is the current one if there is nothing, and the root if there is nothing but its
slash; blank segments between the two belong to neither (`Path.LeadsTo`, `Path.Names`).

The file name of a path and its parent are this component and this folder
(`Path.fileName?_eq_some_iff_names`, `Path.Names.exists_parent`).
-/
namespace ModuleAtlas.Path
open OsText (slash)

/-- Segments none of which is a component. -/
def Blank (segments : List OsText) : Prop := ∀ s ∈ segments, s = "" ∨ s = "."

theorem isNaming_eq_false_iff {s : OsText} : isNaming s = false ↔ s = "" ∨ s = "." := by
  rw [isNaming, Bool.and_eq_false_iff, bne_eq_false_iff_eq, bne_eq_false_iff_eq]

theorem blank_iff {segments : List OsText} :
    Blank segments ↔ ∀ s ∈ segments, isNaming s = false :=
  forall₂_congr fun _ _ => isNaming_eq_false_iff.symm

theorem segments_ne_nil (p : Path) : p.segments ≠ [] :=
  p.raw.segments_ne_nil

theorem joined_segments (p : Path) : OsText.joined p.segments = p.raw :=
  p.raw.joined_segments

/-! ## Blank ends -/

theorem dropTrailing_append {blank : List OsText} (h : Blank blank) (l : List OsText) :
    dropTrailing (l ++ blank) = dropTrailing l := by
  have hblank : ∀ s ∈ blank.reverse, (!isNaming s) = true := by
    intro s hs
    rw [blank_iff.mp h s (List.mem_reverse.mp hs)]
    rfl
  rw [dropTrailing, dropTrailing, List.reverse_append, List.dropWhile_append_of_pos hblank]

/-- Nothing is dropped behind a component. -/
theorem dropTrailing_eq_self {l : List OsText}
    (h : ∀ last, l.getLast? = some last → isNaming last = true) : dropTrailing l = l := by
  refine List.rdropWhile_eq_self_iff.mpr fun hne => ?_
  rw [h _ (List.getLast?_eq_some_getLast hne)]
  decide

theorem isNaming_of_getLast?_dropTrailing {l : List OsText} {last : OsText}
    (h : (dropTrailing l).getLast? = some last) : isNaming last = true := by
  have hne : dropTrailing l ≠ [] := by
    intro he
    rw [he] at h
    cases h
  have hlast := List.rdropWhile_last_not (fun s => !isNaming s) l hne
  rw [List.getLast?_eq_some_getLast hne] at h
  rw [Bool.not_eq_true', Bool.not_eq_false] at hlast
  rw [← Option.some.inj h]
  exact hlast

/-- What is dropped is blank. -/
theorem exists_dropTrailing_append (l : List OsText) :
    ∃ blank, Blank blank ∧ l = dropTrailing l ++ blank := by
  refine ⟨l.rtakeWhile fun s => !isNaming s, blank_iff.mpr fun s hs => ?_,
    List.rdropWhile_append_rtakeWhile.symm⟩
  simpa using List.mem_rtakeWhile_imp hs

/-- The last component is followed by what is blank. -/
theorem getLast?_filter_isNaming_iff {l : List OsText} {name : OsText} :
    (l.filter isNaming).getLast? = some name ↔
      isNaming name = true ∧ ∃ front trailing, Blank trailing ∧ l = front ++ name :: trailing := by
  rw [List.getLast?_filter, List.find?_eq_some_iff_append]
  refine and_congr_right fun _ => ?_
  constructor
  · rintro ⟨trailing, front, hl, hblank⟩
    refine ⟨front.reverse, trailing.reverse, blank_iff.mpr fun s hs => ?_, ?_⟩
    · simpa using hblank s (List.mem_reverse.mp hs)
    · rw [← List.reverse_reverse l, hl]
      simp
  · rintro ⟨front, trailing, hblank, rfl⟩
    refine ⟨trailing.reverse, front.reverse, by simp, fun s hs => ?_⟩
    rw [blank_iff.mp hblank s (List.mem_reverse.mp hs)]
    rfl

/-! ## Names in folders -/

/-- Segments that lead to a folder, as they stand before a component of a path. -/
inductive LeadsTo : List OsText → Path → Prop
  /-- Where there is nothing, it is the current folder. -/
  | here : LeadsTo [] ⟨"."⟩
  /-- The slash at the beginning leads to the root. -/
  | root {blank : List OsText} (hblank : Blank blank) : LeadsTo (OsText.ofText "" :: blank) ⟨"/"⟩
  /-- A path that is a dot, or ends with a component, leads where it leads, with blank segments
  behind it or without. -/
  | path {p : Path} {blank : List OsText} (hblank : Blank blank)
      (hlast : p = ⟨"."⟩ ∨ ∃ last, p.segments.getLast? = some last ∧ isNaming last = true) :
      LeadsTo (p.segments ++ blank) p

/-- A path that names something in a folder. -/
def Names (p folder : Path) (name : OsText) : Prop :=
  ∃ front trailing, Blank trailing ∧ p.segments = front ++ name :: trailing ∧ LeadsTo front folder

/-- The folder that the segments before a component stand for. -/
def folderOf : List OsText → Path
  | [] => ⟨"."⟩
  | first :: rest =>
    if first :: dropTrailing rest = [OsText.ofText ""] then ⟨"/"⟩
    else ⟨OsText.joined (first :: dropTrailing rest)⟩

theorem LeadsTo.eq {front : List OsText} {folder : Path} (h : LeadsTo front folder) :
    folder = folderOf front := by
  cases h with
  | here => rfl
  | @root blank hblank =>
    have hdrop : dropTrailing blank = [] := dropTrailing_append hblank []
    rw [folderOf, hdrop, if_pos rfl]
  | @path p blank hblank hlast =>
    obtain ⟨first, more, hsegments⟩ := List.exists_cons_of_ne_nil folder.segments_ne_nil
    have hmore : ∀ last, more.getLast? = some last → isNaming last = true := by
      intro last hl
      rcases hlast with rfl | ⟨last', hlast, hnaming⟩
      · -- a dot is the only segment of its path
        have hdot : segments ⟨"."⟩ = [OsText.ofText "."] := by decide
        obtain ⟨-, rfl⟩ := List.cons.inj (hdot.symm.trans hsegments)
        cases hl
      · rw [hsegments, List.getLast?_cons, hl] at hlast
        rwa [← Option.some.inj hlast] at hnaming
    have hne : folder.segments ≠ [OsText.ofText ""] := by
      intro he
      rcases hlast with rfl | ⟨last, hlast, hnaming⟩
      · exact absurd he (by decide)
      · rw [he] at hlast
        obtain rfl := Option.some.inj hlast
        exact absurd hnaming (by decide)
    rw [hsegments, List.cons_append, folderOf, dropTrailing_append hblank,
      dropTrailing_eq_self hmore, ← hsegments, if_neg hne, joined_segments]

theorem segments_joined {kept : List OsText} (hne : kept ≠ [])
    (h : ∀ s ∈ kept, slash ∉ s.octets) : segments ⟨OsText.joined kept⟩ = kept :=
  OsText.segments_joined hne h

theorem slash_not_mem_dropTrailing {first : OsText} {rest : List OsText}
    (h : ∀ s ∈ first :: rest, slash ∉ s.octets) :
    ∀ s ∈ first :: dropTrailing rest, slash ∉ s.octets := by
  obtain ⟨hfirst, hrest⟩ := List.forall_mem_cons.mp h
  obtain ⟨blank, -, he⟩ := exists_dropTrailing_append rest
  rw [he, List.forall_mem_append] at hrest
  exact List.forall_mem_cons.mpr ⟨hfirst, hrest.1⟩

/-- Unless only the slash of the root is left, what is left is a dot or ends with a component. -/
theorem kept_eq_dot_or_isNaming {first : OsText} {rest : List OsText}
    (hne : first :: dropTrailing rest ≠ [OsText.ofText ""]) :
    first :: dropTrailing rest = [OsText.ofText "."] ∨
      ∃ last, (first :: dropTrailing rest).getLast? = some last ∧ isNaming last = true := by
  cases hlast : (dropTrailing rest).getLast? with
  | none =>
    rw [List.getLast?_eq_none_iff.mp hlast] at hne ⊢
    have hfirst : first ≠ "" := fun he => hne (congrArg (fun s => [s]) he)
    by_cases hdot : first = "."
    · exact .inl (congrArg (fun s => [s]) hdot)
    · exact .inr ⟨first, rfl, by simp [isNaming, hfirst, hdot]⟩
  | some last =>
    refine .inr ⟨last, ?_, isNaming_of_getLast?_dropTrailing hlast⟩
    rw [List.getLast?_cons, hlast]
    rfl

/-- Segments of a path lead to a folder. -/
theorem leadsTo_folderOf {front : List OsText} (h : ∀ s ∈ front, slash ∉ s.octets) :
    LeadsTo front (folderOf front) := by
  cases front with
  | nil => exact .here
  | cons first rest =>
    obtain ⟨blank, hblank, hrest⟩ := exists_dropTrailing_append rest
    rw [folderOf]
    split
    · next he =>
      obtain ⟨rfl, hdrop⟩ := List.cons.inj he
      rw [hrest, hdrop]
      exact .root hblank
    · next hne =>
      have hsegments := segments_joined (List.cons_ne_nil first (dropTrailing rest))
        (slash_not_mem_dropTrailing h)
      have hfront : first :: rest = first :: dropTrailing rest ++ blank := by
        rw [List.cons_append, ← hrest]
      have hpath := @LeadsTo.path ⟨OsText.joined (first :: dropTrailing rest)⟩ blank hblank
      rw [hsegments, ← hfront] at hpath
      refine hpath ((kept_eq_dot_or_isNaming hne).imp_left fun hdot => ?_)
      rw [hdot, OsText.joined_singleton]

theorem slash_not_mem_front {p : Path} {front rest : List OsText}
    (hp : p.segments = front ++ rest) : ∀ s ∈ front, slash ∉ s.octets := by
  intro s hs
  have hmem : s ∈ p.segments := hp ▸ List.mem_append_left rest hs
  exact OsText.slash_not_mem_of_mem_segments hmem

/-- The parent of a path is the folder of its last component, but it is empty where that is the
current folder. -/
theorem parent?_eq {p : Path} {front trailing : List OsText} {name : OsText}
    (hp : p.segments = front ++ name :: trailing) (hname : isNaming name = true)
    (htrailing : Blank trailing) :
    ∃ parent, p.parent? = some parent ∧
      folderOf front = if parent.raw = "" then ⟨"."⟩ else parent := by
  have hdrop : dropTrailing p.segments = front ++ [name] := by
    rw [hp, List.append_cons, dropTrailing_append htrailing]
    refine dropTrailing_eq_self fun last hlast => ?_
    rw [List.getLast?_concat] at hlast
    rwa [← Option.some.inj hlast]
  have hslash := slash_not_mem_front hp
  rw [parent?, hdrop]
  cases front with
  | nil => exact ⟨⟨""⟩, rfl, rfl⟩
  | cons first rest =>
    have hdropLast : (first :: (rest ++ [name])).dropLast = first :: rest := by
      rw [← List.cons_append, List.dropLast_concat]
    rw [List.cons_append]
    dsimp only
    rw [hdropLast]
    refine ⟨_, rfl, ?_⟩
    rw [folderOf]
    split
    · rfl
    · next hne =>
      have htext : OsText.joined (first :: dropTrailing rest) ≠ "" := by
        intro he
        have hsegments := segments_joined (List.cons_ne_nil first (dropTrailing rest))
          (slash_not_mem_dropTrailing hslash)
        rw [he] at hsegments
        exact hne hsegments.symm
      rw [if_neg htext]

theorem fileName?_eq_some_iff {p : Path} {name : OsText} (hup : name ≠ "..") :
    p.fileName? = some name ↔ (p.segments.filter isNaming).getLast? = some name := by
  rw [fileName?, Option.filter_eq_some_iff, and_iff_left (bne_iff_ne.mpr hup)]

/-- The file name of a path is what the path names in some folder. -/
theorem fileName?_eq_some_iff_names {p : Path} {name : OsText} (hname : isNaming name = true)
    (hup : name ≠ "..") : p.fileName? = some name ↔ ∃ folder, p.Names folder name := by
  rw [fileName?_eq_some_iff hup, getLast?_filter_isNaming_iff]
  constructor
  · rintro ⟨-, front, trailing, htrailing, hp⟩
    exact ⟨folderOf front, front, trailing, htrailing, hp,
      leadsTo_folderOf (slash_not_mem_front hp)⟩
  · rintro ⟨folder, front, trailing, htrailing, hp, -⟩
    exact ⟨hname, front, trailing, htrailing, hp⟩

/-- This folder is the parent, unless the parent is empty; then it is the current folder. -/
theorem Names.exists_parent {p folder : Path} {name : OsText} (h : p.Names folder name)
    (hname : isNaming name = true) :
    ∃ parent, p.parent? = some parent ∧
      folder = if parent.raw = "" then ⟨"."⟩ else parent := by
  obtain ⟨front, trailing, htrailing, hp, hleads⟩ := h
  obtain ⟨parent, hparent, hfolder⟩ := parent?_eq hp hname htrailing
  exact ⟨parent, hparent, hleads.eq.trans hfolder⟩

/-! ## Items of a folder -/

theorem fileName?_child (base : Path) {name : OsText} (h : IsName name) :
    (base.child name).fileName? = some name := by
  obtain ⟨front, hsegments⟩ := exists_segments_child base h
  have hname : isNaming name = true := by simp [isNaming, h.ne_empty, h.ne_here]
  exact (fileName?_eq_some_iff h.ne_up).mpr
    (getLast?_filter_isNaming_iff.mpr ⟨hname, front, [], nofun, hsegments⟩)

theorem dot_not_mem_of_sameLetters {ending : String} (h : Text.sameLetters ending "jar" = true) :
    dot ∉ Utf8.encode ending := by
  intro hmem
  have hdot : '.' ∈ ending.toList := (Utf8.mem_encode_iff (c := '.') (by decide)).mp hmem
  have hlower : '.'.toLower ∈ ending.toList.map Char.toLower := List.mem_map_of_mem hdot
  rw [eq_of_beq h] at hlower
  exact absurd hlower (by decide)

/-- The ending of an item of a folder is what follows the last dot of its name, if there is
something in front of that dot. -/
theorem extension?_child_eq_some_iff (base : Path) {name ending : OsText} (h : IsName name) :
    (base.child name).extension? = some ending ↔ ∃ stem : OsText, stem ≠ "" ∧
      name = stem ++ OsText.ofText "." ++ ending ∧ dot ∉ ending.octets := by
  have hextension : (base.child name).extension? = (Text.cutLast? dot name.octets).bind fun parts =>
      if parts.1 = [] then none else some ⟨parts.2⟩ := by
    rw [extension?, fileName?_child base h]
    rfl
  have hoctets : ∀ stem : OsText, (stem ++ OsText.ofText "." ++ ending).octets =
      stem.octets ++ dot :: ending.octets := by
    intro stem
    rw [OsText.octets_append, OsText.octets_append, List.append_assoc]
    rfl
  rw [hextension, Option.bind_eq_some_iff]
  constructor
  · rintro ⟨⟨stem, octets⟩, hcut, hending⟩
    obtain ⟨htext, hdot⟩ := Text.eq_append_of_cutLast? hcut
    by_cases hstem : stem = []
    · cases (if_pos hstem).symm.trans hending
    · obtain rfl := Option.some.inj ((if_neg hstem).symm.trans hending)
      exact ⟨⟨stem⟩, fun he => hstem (congrArg OsText.octets he),
        congrArg OsText.mk (htext.trans (hoctets ⟨stem⟩).symm), hdot⟩
  · rintro ⟨stem, hstem, rfl, hdot⟩
    refine ⟨(stem.octets, ending.octets), ?_, if_neg fun he => hstem (congrArg OsText.mk he)⟩
    rw [hoctets, Text.cutLast?_append hdot]

/-- An item of a folder is an archive by its name if that has something, a dot and then `jar`, in
small letters or in capitals. -/
theorem hasExtension_child_iff (base : Path) {name : OsText} (h : IsName name) :
    (base.child name).hasExtension ["jar"] = true ↔
      ∃ (stem : OsText) (ending : String), stem ≠ "" ∧
        name = stem ++ OsText.ofText "." ++ OsText.ofText ending ∧
        Text.sameLetters ending "jar" = true := by
  constructor
  · intro hjar
    rw [hasExtension] at hjar
    cases hending : (base.child name).extension?.bind OsText.text? with
    | none =>
      rw [hending] at hjar
      cases hjar
    | some ending =>
      rw [hending] at hjar
      obtain ⟨octets, hextension, htext⟩ := Option.bind_eq_some_iff.mp hending
      obtain rfl := OsText.text?_eq_some_iff.mp htext
      obtain ⟨stem, hstem, hname, -⟩ := (extension?_child_eq_some_iff base h).mp hextension
      exact ⟨stem, ending, hstem, hname, by simpa using hjar⟩
  · rintro ⟨stem, ending, hstem, hname, hletters⟩
    have hextension := (extension?_child_eq_some_iff base h).mpr
      ⟨stem, hstem, hname, dot_not_mem_of_sameLetters hletters⟩
    rw [hasExtension, hextension, Option.bind_some, OsText.text?_eq_some_iff.mpr rfl]
    simpa using hletters

end ModuleAtlas.Path
