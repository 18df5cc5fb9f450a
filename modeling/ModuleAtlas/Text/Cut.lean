/-! # Cutting texts

Names, paths and manifest lines are taken apart at single characters.  Every operation here
works on the characters of a text and is total; the ones that can fail say so by `none`.
-/
namespace ModuleAtlas.Text

section
variable {α : Type} [DecidableEq α]

/-- The parts of a list before and after the first `c`, which belongs to neither. -/
def cutFirst? (c : α) : List α → Option (List α × List α)
  | [] => none
  | x :: xs => if x = c then some ([], xs) else (cutFirst? c xs).map fun (a, b) => (x :: a, b)

/-- The parts of a list before and after the last `c`, which belongs to neither. -/
def cutLast? (c : α) : List α → Option (List α × List α)
  | [] => none
  | x :: xs =>
    match cutLast? c xs with
    | some (a, b) => some (x :: a, b)
    | none => if x = c then some ([], xs) else none

theorem cutFirst?_eq_some_iff {c : α} {l a b : List α} :
    cutFirst? c l = some (a, b) ↔ l = a ++ c :: b ∧ c ∉ a := by
  induction l generalizing a with
  | nil => simp [cutFirst?]
  | cons x l ih =>
    rw [cutFirst?]
    by_cases hx : x = c
    · subst hx
      rw [if_pos rfl]
      cases a with
      | nil => simp [eq_comm]
      | cons y a => simp +contextual [eq_comm]
    · rw [if_neg hx, Option.map_eq_some_iff]
      cases a with
      | nil => simp [hx]
      | cons y a =>
        constructor
        · rintro ⟨⟨front, back⟩, hcut, he⟩
          obtain ⟨hcons, rfl⟩ := Prod.mk.inj he
          obtain ⟨rfl, rfl⟩ := List.cons.inj hcons
          obtain ⟨rfl, hfront⟩ := ih.mp hcut
          exact ⟨rfl, List.not_mem_cons_of_ne_of_not_mem (Ne.symm hx) hfront⟩
        · rintro ⟨he, hnot⟩
          obtain ⟨rfl, hl⟩ := List.cons.inj he
          exact ⟨(a, b), ih.mpr ⟨hl, List.not_mem_of_not_mem_cons hnot⟩, rfl⟩

theorem cutLast?_eq_none_iff {c : α} {l : List α} : cutLast? c l = none ↔ c ∉ l := by
  induction l with
  | nil => simp [cutLast?]
  | cons x l ih =>
    rw [cutLast?, List.mem_cons, not_or, ← ih]
    cases cutLast? c l with
    | some p => simp
    | none => simp [eq_comm]

theorem eq_append_of_cutLast? {c : α} {l a b : List α} (h : cutLast? c l = some (a, b)) :
    l = a ++ c :: b ∧ c ∉ b := by
  induction l generalizing a with
  | nil => cases h
  | cons x l ih =>
    rw [cutLast?] at h
    cases hcut : cutLast? c l with
    | some p =>
      obtain ⟨front, back⟩ := p
      rw [hcut] at h
      obtain ⟨rfl, rfl⟩ := Prod.mk.inj (Option.some.inj h)
      obtain ⟨rfl, hback⟩ := ih hcut
      exact ⟨rfl, hback⟩
    | none =>
      rw [hcut] at h
      by_cases hx : x = c
      · obtain ⟨rfl, rfl⟩ := Prod.mk.inj (Option.some.inj ((if_pos hx).symm.trans h))
        exact ⟨congrArg (· :: l) hx, cutLast?_eq_none_iff.mp hcut⟩
      · cases (if_neg hx).symm.trans h

theorem cutLast?_append {c : α} {front back : List α} (h : c ∉ back) :
    cutLast? c (front ++ c :: back) = some (front, back) := by
  induction front with
  | nil =>
    rw [List.nil_append, cutLast?, cutLast?_eq_none_iff.mpr h]
    exact if_pos rfl
  | cons x front ih => rw [List.cons_append, cutLast?, ih]

/-- No part of a list between occurrences of a value has that value. -/
theorem not_mem_of_mem_splitOn {c : α} {l part : List α} (h : part ∈ l.splitOn c) : c ∉ part := by
  induction l generalizing part with
  | nil => simp_all
  | cons x l ih =>
    rw [List.splitOn_cons_eq_if_modifyHead] at h
    by_cases hx : x = c
    · rw [if_pos (beq_iff_eq.mpr hx)] at h
      rcases List.mem_cons.mp h with rfl | h
      · exact List.not_mem_nil
      · exact ih h
    · rw [if_neg fun he => hx (eq_of_beq he)] at h
      obtain ⟨first, rest, hsplit⟩ := List.exists_cons_of_ne_nil (List.splitOn_ne_nil c l)
      rw [hsplit] at ih h
      rcases List.mem_cons.mp h with rfl | h
      · exact List.not_mem_cons_of_ne_of_not_mem (Ne.symm hx) (ih List.mem_cons_self)
      · exact ih (List.mem_cons_of_mem first h)

end

/-- The rest of a list that begins with `front`. -/
def stripFront? : List Char → List Char → Option (List Char)
  | [], xs => some xs
  | _ :: _, [] => none
  | f :: fs, x :: xs => if f = x then stripFront? fs xs else none

theorem stripFront?_eq_some_iff {front l rest : List Char} :
    stripFront? front l = some rest ↔ l = front ++ rest := by
  induction front generalizing l with
  | nil => simp [stripFront?]
  | cons f front ih =>
    cases l with
    | nil => simp [stripFront?]
    | cons x l =>
      rw [stripFront?]
      by_cases h : f = x
      · subst h
        rw [if_pos rfl, ih, List.cons_append, List.cons.injEq, and_iff_right rfl]
      · rw [if_neg h]
        simp [Ne.symm h]

/-- The text before and after the first `c`. -/
def splitFirst? (c : Char) (s : String) : Option (String × String) :=
  (cutFirst? c s.toList).map fun (a, b) => (String.ofList a, String.ofList b)

/-- The text before and after the last `c`. -/
def splitLast? (c : Char) (s : String) : Option (String × String) :=
  (cutLast? c s.toList).map fun (a, b) => (String.ofList a, String.ofList b)

/-- The parts around the last `c` make up the text, and the last part has no `c`. -/
theorem toList_of_splitLast? {c : Char} {s a b : String} (h : splitLast? c s = some (a, b)) :
    s.toList = a.toList ++ c :: b.toList ∧ c ∉ b.toList := by
  obtain ⟨⟨front, back⟩, hcut, he⟩ := Option.map_eq_some_iff.mp h
  obtain ⟨rfl, rfl⟩ := Prod.mk.inj he
  rw [String.toList_ofList, String.toList_ofList]
  exact eq_append_of_cutLast? hcut

theorem splitLast?_append {c : Char} {a b : String} (h : c ∉ b.toList) :
    splitLast? c (a ++ String.singleton c ++ b) = some (a, b) := by
  have htoList : (a ++ String.singleton c ++ b).toList = a.toList ++ c :: b.toList := by
    rw [String.toList_append, String.toList_append, String.toList_singleton, List.append_assoc,
      List.singleton_append]
  rw [splitLast?, htoList, cutLast?_append h, Option.map_some]
  exact congrArg some (Prod.ext String.ofList_toList String.ofList_toList)

theorem splitFirst?_eq_some_iff {c : Char} {s a b : String} :
    splitFirst? c s = some (a, b) ↔ s.toList = a.toList ++ c :: b.toList ∧ c ∉ a.toList := by
  unfold splitFirst?
  rw [Option.map_eq_some_iff, ← cutFirst?_eq_some_iff]
  constructor
  · rintro ⟨⟨front, back⟩, hcut, he⟩
    obtain ⟨rfl, rfl⟩ := Prod.mk.inj he
    rw [String.toList_ofList, String.toList_ofList]
    exact hcut
  · intro hcut
    exact ⟨(a.toList, b.toList), hcut, Prod.ext String.ofList_toList String.ofList_toList⟩

theorem splitFirst?_eq_none_iff {c : Char} {s : String} :
    splitFirst? c s = none ↔ c ∉ s.toList := by
  constructor
  · intro h hc
    obtain ⟨front, back, hsplit, hfront⟩ := List.eq_append_cons_of_mem hc
    have hsome : splitFirst? c s = some (String.ofList front, String.ofList back) := by
      rw [splitFirst?_eq_some_iff, String.toList_ofList, String.toList_ofList]
      exact ⟨hsplit, hfront⟩
    cases h.symm.trans hsome
  · intro h
    refine Option.eq_none_iff_forall_ne_some.mpr fun (a, b) hsome => h ?_
    rw [(splitFirst?_eq_some_iff.mp hsome).1]
    exact List.mem_append_right _ List.mem_cons_self

/-- All parts of the text between occurrences of `c`; a text without `c` is its only part. -/
def splitAll (c : Char) (s : String) : List String :=
  (s.toList.splitOn c).map String.ofList

theorem splitAll_append (c : Char) {s a b : String} (h : s.toList = a.toList ++ c :: b.toList) :
    splitAll c s = splitAll c a ++ splitAll c b := by
  rw [splitAll, h, List.splitOn_append_cons_self, List.map_append]
  rfl

theorem splitAll_of_not_mem {c : Char} {s : String} (h : c ∉ s.toList) : splitAll c s = [s] := by
  rw [splitAll, List.splitOn_eq_singleton h, List.map_singleton, String.ofList_toList]

/-- Parts without the character are given back. -/
theorem splitAll_intercalate {c : Char} {parts : List String} (hne : parts ≠ [])
    (h : ∀ p ∈ parts, c ∉ p.toList) :
    splitAll c ((String.singleton c).intercalate parts) = parts := by
  have hparts : ∀ l ∈ parts.map String.toList, c ∉ l := by
    intro l hl
    obtain ⟨p, hp, rfl⟩ := List.mem_map.mp hl
    exact h p hp
  rw [splitAll, String.toList_intercalate, String.toList_singleton,
    List.splitOn_intercalate c hparts (fun he => hne (List.map_eq_nil_iff.mp he)), List.map_map]
  exact (List.map_congr_left fun p _ => String.ofList_toList).trans (List.map_id parts)

theorem splitAll_ne_nil (c : Char) (s : String) : splitAll c s ≠ [] :=
  fun he => List.splitOn_ne_nil c s.toList (List.map_eq_nil_iff.mp he)

/-- The parts make up the text. -/
theorem intercalate_splitAll (c : Char) (s : String) :
    (String.singleton c).intercalate (splitAll c s) = s := by
  have hparts : (splitAll c s).map String.toList = s.toList.splitOn c := by
    rw [splitAll, List.map_map]
    exact (List.map_congr_left fun p _ => String.toList_ofList).trans (List.map_id _)
  rw [← String.toList_inj, String.toList_intercalate, String.toList_singleton, hparts,
    List.intercalate_splitOn]

/-- No part has the character. -/
theorem not_mem_of_mem_splitAll {c : Char} {s part : String} (h : part ∈ splitAll c s) :
    c ∉ part.toList := by
  obtain ⟨p, hp, rfl⟩ := List.mem_map.mp h
  rw [String.toList_ofList]
  exact not_mem_of_mem_splitOn hp

/-- The text after a given beginning. -/
def afterFront? (front s : String) : Option String :=
  (stripFront? front.toList s.toList).map String.ofList

/-- The text before a given ending. -/
def beforeEnd? (ending s : String) : Option String :=
  (stripFront? ending.toList.reverse s.toList.reverse).map fun r => String.ofList r.reverse

/-- Whether the text begins with `front`. -/
def beginsWith (front s : String) : Bool := (stripFront? front.toList s.toList).isSome

/-- Whether the text ends with `ending`. -/
def endsWith (ending s : String) : Bool :=
  (stripFront? ending.toList.reverse s.toList.reverse).isSome

theorem afterFront?_eq_some_iff {front s rest : String} :
    afterFront? front s = some rest ↔ s = front ++ rest := by
  rw [← String.toList_inj, String.toList_append, ← stripFront?_eq_some_iff]
  constructor
  · intro h
    obtain ⟨back, hstrip, rfl⟩ := Option.map_eq_some_iff.mp h
    rw [String.toList_ofList]
    exact hstrip
  · intro h
    exact Option.map_eq_some_iff.mpr ⟨_, h, String.ofList_toList⟩

theorem beforeEnd?_eq_some_iff {ending s rest : String} :
    beforeEnd? ending s = some rest ↔ s = rest ++ ending := by
  have hreverse : s = rest ++ ending ↔
      s.toList.reverse = ending.toList.reverse ++ rest.toList.reverse := by
    rw [← List.reverse_append, List.reverse_inj, ← String.toList_append, String.toList_inj]
  rw [hreverse, ← stripFront?_eq_some_iff]
  constructor
  · intro h
    obtain ⟨back, hstrip, rfl⟩ := Option.map_eq_some_iff.mp h
    rw [String.toList_ofList, List.reverse_reverse]
    exact hstrip
  · intro h
    refine Option.map_eq_some_iff.mpr ⟨_, h, ?_⟩
    rw [List.reverse_reverse, String.ofList_toList]

theorem beginsWith_iff {front s : String} :
    beginsWith front s = true ↔ ∃ rest, s = front ++ rest := by
  have hafter : beginsWith front s = (afterFront? front s).isSome := by
    rw [afterFront?, Option.isSome_map]
    rfl
  rw [hafter, Option.isSome_iff_exists]
  exact exists_congr fun rest => afterFront?_eq_some_iff

theorem endsWith_iff {ending s : String} :
    endsWith ending s = true ↔ ∃ rest, s = rest ++ ending := by
  have hbefore : endsWith ending s = (beforeEnd? ending s).isSome := by
    rw [beforeEnd?, Option.isSome_map]
    rfl
  rw [hbefore, Option.isSome_iff_exists]
  exact exists_congr fun rest => beforeEnd?_eq_some_iff

theorem afterFront?_eq_none_iff {front s : String} :
    afterFront? front s = none ↔ beginsWith front s = false := by
  rw [Option.eq_none_iff_forall_ne_some, Bool.eq_false_iff, ne_eq, beginsWith_iff, not_exists]
  exact forall_congr' fun rest => not_congr afterFront?_eq_some_iff

/-- The text with every `old` turned into `new`. -/
def replace (old new : Char) (s : String) : String :=
  String.ofList (s.toList.map fun c => if c = old then new else c)

theorem replace_of_not_mem {old new : Char} {s : String} (h : old ∉ s.toList) :
    replace old new s = s := by
  have hsame : ∀ c ∈ s.toList, (if c = old then new else c) = c :=
    fun c hc => if_neg fun (he : c = old) => h (he ▸ hc)
  calc replace old new s = String.ofList (s.toList.map id) :=
        congrArg String.ofList (List.map_congr_left hsame)
    _ = s := by rw [List.map_id, String.ofList_toList]

/-- Turning a character into one that does not occur can be undone. -/
theorem replace_replace {old new : Char} {s : String} (h : new ∉ s.toList) :
    replace new old (replace old new s) = s := by
  unfold replace
  rw [String.toList_ofList, List.map_map]
  have hback : ∀ c ∈ s.toList, (if (if c = old then new else c) = new then old
      else if c = old then new else c) = c := by
    intro c hc
    have hne : c ≠ new := fun e => h (e ▸ hc)
    by_cases ho : c = old
    · rw [if_pos ho, if_pos rfl, ho]
    · rw [if_neg ho, if_neg hne]
  calc String.ofList (s.toList.map _) = String.ofList (s.toList.map id) :=
        congrArg String.ofList (List.map_congr_left hback)
    _ = s := by rw [List.map_id, String.ofList_toList]

/-- Whether two texts are equal up to the case of the letters A to Z. -/
def sameLetters (a b : String) : Bool :=
  a.toList.map Char.toLower == b.toList.map Char.toLower

end ModuleAtlas.Text
