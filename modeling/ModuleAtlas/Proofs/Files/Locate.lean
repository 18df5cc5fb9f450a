import Mathlib.Data.List.Nodup
import ModuleAtlas.Proofs.Files.Paths

/-! # Looking below a folder

What is looked up below a folder is followed from that folder, whatever path leads to it
(`FileTree.exists_lookup_below`), and what has something below it is a folder
(`FileTree.isFolder_of_status_child`).

Below a folder without links, following a path is a plain descent (`Folder.locate`), whatever links
there are on the way to the folder (`FolderAt.toOption_lookup`).  So what the look-ups of a file
tree say about the files below such a folder, and what a walk through it lists, is told by the
folder alone (`Folder.mem_walk_iff`).
-/
namespace ModuleAtlas

namespace Folder

/-! ## Folders without links -/

/-- Whether every item at every level has a name that is a text and that a path can hold, and none is
a link. -/
def Plain : Folder → Prop
  | .empty => True
  | .file name _ rest => (IsName name ∧ name.IsText) ∧ rest.Plain
  | .link .. => False
  | .folder name inner rest => (IsName name ∧ name.IsText) ∧ inner.Plain ∧ rest.Plain

instance decidablePlain : (f : Folder) → Decidable f.Plain
  | .empty => inferInstanceAs (Decidable True)
  | .file name _ rest =>
    have := decidablePlain rest
    inferInstanceAs (Decidable ((IsName name ∧ name.IsText) ∧ rest.Plain))
  | .link .. => inferInstanceAs (Decidable False)
  | .folder name inner rest =>
    have := decidablePlain inner
    have := decidablePlain rest
    inferInstanceAs (Decidable ((IsName name ∧ name.IsText) ∧ inner.Plain ∧ rest.Plain))

instance decidableOrdered : (f : Folder) → Decidable f.Ordered
  | .empty => inferInstanceAs (Decidable True)
  | .file name _ rest =>
    have := decidableOrdered rest
    inferInstanceAs (Decidable ((∀ n ∈ rest.names, name < n) ∧ rest.Ordered))
  | .link name _ rest =>
    have := decidableOrdered rest
    inferInstanceAs (Decidable ((∀ n ∈ rest.names, name < n) ∧ rest.Ordered))
  | .folder name inner rest =>
    have := decidableOrdered inner
    have := decidableOrdered rest
    inferInstanceAs (Decidable ((∀ n ∈ rest.names, name < n) ∧ inner.Ordered ∧ rest.Ordered))

/-- What is at a location below a folder, as far as no link stands in between. -/
def locate : Folder → List OsText → Option Node
  | f, [] => some (.folder f)
  | f, name :: rest =>
    match f.find? name with
    | some (.folder inner) => inner.locate rest
    | some node => if rest = [] then some node else none
    | none => none

variable {f inner : Folder} {name : OsText} {node : Node} {location : List OsText}

theorem mem_items_of_find? (h : f.find? name = some node) : (name, node) ∈ f.items := by
  obtain ⟨⟨n, found⟩, hfind, he⟩ := Option.map_eq_some_iff.mp h
  have hname : n = name := by
    have hp := List.find?_some hfind
    exact eq_of_beq hp
  obtain rfl : found = node := he
  exact hname ▸ List.mem_of_find?_eq_some hfind

/-- What holds of the items of a plain folder. -/
theorem Plain.of_mem_items (h : f.Plain) (hitem : (name, node) ∈ f.items) :
    (IsName name ∧ name.IsText) ∧ (∀ target, node ≠ .link target) ∧
      ∀ inner, node = .folder inner → inner.Plain := by
  induction f with
  | empty => exact absurd hitem List.not_mem_nil
  | file n content rest ih =>
    rcases List.mem_cons.mp hitem with he | hitem
    · obtain ⟨rfl, rfl⟩ := Prod.mk.inj he
      exact ⟨h.1, nofun, nofun⟩
    · exact ih h.2 hitem
  | link n target rest ih => exact absurd h id
  | folder n inner rest _ ih =>
    rcases List.mem_cons.mp hitem with he | hitem
    · obtain ⟨rfl, rfl⟩ := Prod.mk.inj he
      exact ⟨h.1, nofun, fun g hg => Node.folder.inj hg ▸ h.2.1⟩
    · exact ih h.2.2 hitem

theorem Plain.of_find? (h : f.Plain) (hfind : f.find? name = some (.folder inner)) : inner.Plain :=
  (h.of_mem_items (mem_items_of_find? hfind)).2.2 inner rfl

theorem Plain.isName_of_mem_names (h : f.Plain) (hname : name ∈ f.names) :
    IsName name ∧ name.IsText := by
  obtain ⟨⟨n, node⟩, hitem, rfl⟩ := List.mem_map.mp hname
  exact (h.of_mem_items hitem).1

/-- What is located in a plain folder has a location that a path can hold. -/
theorem Plain.isName_of_mem_location (h : f.Plain) (hlocate : f.locate location = some node) :
    ∀ n ∈ location, IsName n ∧ n.IsText := by
  induction location generalizing f with
  | nil => exact fun n hn => absurd hn List.not_mem_nil
  | cons name rest ih =>
    rw [locate] at hlocate
    cases hfind : f.find? name with
    | none => rw [hfind] at hlocate; cases hlocate
    | some found =>
      rw [hfind] at hlocate
      have hname := (h.of_mem_items (mem_items_of_find? hfind)).1
      refine List.forall_mem_cons.mpr ⟨hname, ?_⟩
      cases found with
      | folder inner => exact ih (h.of_find? hfind) hlocate
      | file content =>
        by_cases hrest : rest = []
        · exact hrest ▸ fun n hn => absurd hn List.not_mem_nil
        · cases (if_neg hrest).symm.trans hlocate
      | link target => exact absurd rfl ((h.of_mem_items (mem_items_of_find? hfind)).2.1 target)

/-! ## Ordered folders -/

/-- Names increase along an ordered listing. -/
theorem Ordered.pairwise_names (h : f.Ordered) : f.names.Pairwise (· < ·) := by
  induction f with
  | empty => exact List.Pairwise.nil
  | file n content rest ih => exact List.pairwise_cons.mpr ⟨h.1, ih h.2⟩
  | link n target rest ih => exact List.pairwise_cons.mpr ⟨h.1, ih h.2⟩
  | folder n inner rest _ ih => exact List.pairwise_cons.mpr ⟨h.1, ih h.2.2⟩

theorem Ordered.nodup_names (h : f.Ordered) : f.names.Nodup :=
  h.pairwise_names.imp OsText.ne_of_lt

theorem Ordered.mergeSort_names (h : f.Ordered) : f.names.mergeSort = f.names :=
  List.mergeSort_of_pairwise (h.pairwise_names.imp fun hlt =>
    decide_eq_true (OsText.le_of_lt hlt))

theorem Ordered.of_mem_items (h : f.Ordered) (hitem : (name, .folder inner) ∈ f.items) :
    inner.Ordered := by
  induction f with
  | empty => exact absurd hitem List.not_mem_nil
  | file n content rest ih =>
    rcases List.mem_cons.mp hitem with he | hitem
    · cases (Prod.mk.inj he).2
    · exact ih h.2 hitem
  | link n target rest ih =>
    rcases List.mem_cons.mp hitem with he | hitem
    · cases (Prod.mk.inj he).2
    · exact ih h.2 hitem
  | folder n g rest _ ih =>
    rcases List.mem_cons.mp hitem with he | hitem
    · exact Node.folder.inj (Prod.mk.inj he).2 ▸ h.2.1
    · exact ih h.2.2 hitem

/-- In an ordered folder each name stands for one item. -/
theorem Ordered.find?_eq_some_iff (h : f.Ordered) :
    f.find? name = some node ↔ (name, node) ∈ f.items := by
  refine ⟨mem_items_of_find?, fun hitem => ?_⟩
  have hsome : (f.items.find? fun item => item.1 == name).isSome :=
    List.find?_isSome.mpr ⟨(name, node), hitem, beq_self_eq_true name⟩
  obtain ⟨⟨n, found⟩, hfind⟩ := Option.isSome_iff_exists.mp hsome
  have hname : n = name := by
    have hp := List.find?_some hfind
    exact eq_of_beq hp
  have he : (n, found) = (name, node) :=
    List.inj_on_of_nodup_map h.nodup_names (List.mem_of_find?_eq_some hfind) hitem hname
  rw [find?, hfind, he]
  rfl

/-- A folder in a plain and ordered folder is plain and ordered. -/
theorem plain_ordered_of_locate (hplain : f.Plain) (hordered : f.Ordered)
    (h : f.locate location = some (.folder inner)) : inner.Plain ∧ inner.Ordered := by
  induction location generalizing f with
  | nil =>
    obtain rfl : f = inner := Node.folder.inj (Option.some.inj h)
    exact ⟨hplain, hordered⟩
  | cons name rest ih =>
    rw [locate] at h
    cases hfind : f.find? name with
    | none => rw [hfind] at h; cases h
    | some node =>
      rw [hfind] at h
      cases node with
      | folder g =>
        exact ih (hplain.of_find? hfind) (hordered.of_mem_items (mem_items_of_find? hfind)) h
      | file content => by_cases hrest : rest = [] <;> simp [hrest] at h
      | link target => by_cases hrest : rest = [] <;> simp [hrest] at h

/-! ## Walks -/

/-- The locations of the files that an item is or holds. -/
def filesOf : OsText × Node → List (List OsText)
  | (name, .file _) => [[name]]
  | (_, .link _) => []
  | (name, .folder inner) => inner.walk.map (name :: ·)

theorem walk_eq_flatMap (f : Folder) : f.walk = f.items.flatMap filesOf := by
  induction f with
  | empty => rfl
  | file n content rest ih => rw [walk, items, List.flatMap_cons, ← ih]; rfl
  | link n target rest ih => rw [walk, items, List.flatMap_cons, ← ih]; rfl
  | folder n inner rest _ ih => rw [walk, items, List.flatMap_cons, ← ih]; rfl

theorem exists_of_mem_filesOf (h : location ∈ filesOf (name, node)) :
    ∃ rest, location = name :: rest := by
  cases node with
  | file content => exact ⟨[], List.mem_singleton.mp h⟩
  | link target => exact absurd h List.not_mem_nil
  | folder inner =>
    obtain ⟨rest, -, rfl⟩ := List.mem_map.mp h
    exact ⟨rest, rfl⟩

theorem head_mem_names_of_mem_walk (h : location ∈ f.walk) :
    ∃ name rest, location = name :: rest ∧ name ∈ f.names := by
  rw [walk_eq_flatMap] at h
  obtain ⟨⟨name, node⟩, hitem, hfiles⟩ := List.mem_flatMap.mp h
  obtain ⟨rest, rfl⟩ := exists_of_mem_filesOf hfiles
  exact ⟨name, rest, rfl, List.mem_map_of_mem hitem⟩

theorem Ordered.mem_walk_cons_iff (h : f.Ordered) {rest : List OsText} :
    name :: rest ∈ f.walk ↔
      ∃ node, f.find? name = some node ∧ name :: rest ∈ filesOf (name, node) := by
  rw [walk_eq_flatMap, List.mem_flatMap]
  constructor
  · rintro ⟨⟨n, node⟩, hitem, hfiles⟩
    obtain ⟨rest', he⟩ := exists_of_mem_filesOf hfiles
    obtain ⟨rfl, -⟩ := List.cons_eq_cons.mp he
    exact ⟨node, h.find?_eq_some_iff.mpr hitem, hfiles⟩
  · rintro ⟨node, hfind, hfiles⟩
    exact ⟨(name, node), mem_items_of_find? hfind, hfiles⟩

/-- A walk through an ordered folder comes to the files in it, and to nothing else. -/
theorem mem_walk_iff (h : f.Ordered) :
    location ∈ f.walk ↔ location ≠ [] ∧ ∃ content, f.locate location = some (.file content) := by
  induction location generalizing f with
  | nil =>
    refine iff_of_false (fun hmem => ?_) fun hne => hne.1 rfl
    obtain ⟨name, rest, he, -⟩ := head_mem_names_of_mem_walk hmem
    cases he
  | cons name rest ih =>
    rw [h.mem_walk_cons_iff, locate, and_iff_right (List.cons_ne_nil name rest)]
    cases hfind : f.find? name with
    | none => simp
    | some node =>
      cases node with
      | file content => by_cases hrest : rest = [] <;> simp [filesOf, hrest]
      | link target => by_cases hrest : rest = [] <;> simp [filesOf, hrest]
      | folder inner =>
        -- a location that ends at the folder itself is no location of a file
        have hne : (∃ content, inner.locate rest = some (.file content)) → rest ≠ [] := by
          rintro ⟨content, hlocate⟩ rfl
          cases hlocate
        have hrest := ih (h.of_mem_items (mem_items_of_find? hfind))
        rw [and_iff_right_of_imp hne] at hrest
        simp [filesOf, hrest]

theorem Ordered.nodup_walk (h : f.Ordered) : f.walk.Nodup := by
  induction f with
  | empty => exact List.nodup_nil
  | file n content rest ih =>
    refine List.nodup_cons.mpr ⟨fun hmem => ?_, ih h.2⟩
    obtain ⟨name, l, he, hname⟩ := head_mem_names_of_mem_walk hmem
    obtain ⟨rfl, -⟩ := List.cons_eq_cons.mp he
    exact OsText.lt_irrefl n (h.1 n hname)
  | link n target rest ih => exact ih h.2
  | folder n inner rest ihInner ih =>
    have hinner : (inner.walk.map (n :: ·)).Nodup :=
      (ihInner h.2.1).map fun _ _ he => (List.cons_eq_cons.mp he).2
    refine List.nodup_append.mpr ⟨hinner, ih h.2.2, ?_⟩
    rintro a ha b hb rfl
    obtain ⟨l, -, rfl⟩ := List.mem_map.mp ha
    obtain ⟨name, l', he, hname⟩ := head_mem_names_of_mem_walk hb
    obtain ⟨rfl, -⟩ := List.cons_eq_cons.mp he
    exact OsText.lt_irrefl n (h.1 n hname)

end Folder

/-! ## Following a path -/

namespace FileTree

section
variable {root : Folder} {links : Nat} {here : List Folder}

theorem follow_here (last : Bool) (rest : List OsText) :
    follow last root links here (OsText.ofText "." :: rest) = follow last root links here rest := by
  rw [follow, if_pos rfl]

theorem follow_up (last : Bool) (rest : List OsText) :
    follow last root links here (OsText.ofText ".." :: rest) =
      follow last root links here.tail rest := by
  rw [follow, if_neg (by decide), if_pos rfl]

/-- A step to the item of a name. -/
theorem follow_name (last : Bool) {name : OsText} (hhere : name ≠ ".") (hup : name ≠ "..")
    (rest : List OsText) :
    follow last root links here (name :: rest) =
      match (here.head?.getD root).find? name with
      | none => .error .notFound
      | some (.file content) => if rest = [] then .ok (.file content) else .error .notADirectory
      | some (.folder inner) => follow last root links (inner :: here) rest
      | some (.link target) =>
        if rest = [] ∧ !last then .ok (.link target)
        else match links with
          | 0 => .error .tooManyLinks
          | links + 1 =>
            follow last root links (if target.isAbsolute then [] else here)
              (steps target ++ rest) := by
  rw [follow]
  exact (if_neg hhere).trans (if_neg hup)

/-- Following a path to a folder and on is following the rest from that folder. -/
theorem follow_append {names : List OsText} {f : Folder}
    (h : follow true root links here names = .ok (.folder f)) :
    ∃ links' here', here'.head?.getD root = f ∧ ∀ last rest, rest ≠ [] →
      follow last root links here (names ++ rest) = follow last root links' here' rest := by
  induction links, here, names using follow.induct true root with
  | case1 links here =>
    rw [follow] at h
    exact ⟨links, here, Node.folder.inj (Except.ok.inj h), fun _ _ _ => rfl⟩
  | case2 links here names ih =>
    rw [follow_here] at h
    obtain ⟨links', here', hhead, hfollow⟩ := ih h
    refine ⟨links', here', hhead, fun last rest hrest => ?_⟩
    rw [List.cons_append, follow_here]
    exact hfollow last rest hrest
  | case3 links here names hne ih =>
    rw [follow_up] at h
    obtain ⟨links', here', hhead, hfollow⟩ := ih h
    refine ⟨links', here', hhead, fun last rest hrest => ?_⟩
    rw [List.cons_append, follow_up]
    exact hfollow last rest hrest
  | case4 links here name names hhere hup hfind =>
    rw [follow_name true hhere hup, hfind] at h
    cases h
  | case5 links here name hhere hup content hfind =>
    rw [follow_name true hhere hup, hfind] at h
    cases h
  | case6 links here name names hhere hup content hfind hne =>
    rw [follow_name true hhere hup, hfind] at h
    cases (if_neg hne).symm.trans h
  | case7 links here name names hhere hup inner hfind ih =>
    rw [follow_name true hhere hup, hfind] at h
    obtain ⟨links', here', hhead, hfollow⟩ := ih h
    refine ⟨links', here', hhead, fun last rest hrest => ?_⟩
    rw [List.cons_append, follow_name last hhere hup, hfind]
    exact hfollow last rest hrest
  | case8 links here name names hhere hup target hfind hlast => exact absurd hlast.2 (by decide)
  | case9 here name names hhere hup target hfind hlast =>
    rw [follow_name true hhere hup, hfind] at h
    cases (if_neg hlast).symm.trans h
  | case10 here name names hhere hup target hfind hlast links ih =>
    rw [follow_name true hhere hup, hfind] at h
    obtain ⟨links', here', hhead, hfollow⟩ := ih ((if_neg hlast).symm.trans h)
    refine ⟨links', here', hhead, fun last rest hrest => ?_⟩
    -- something comes behind the link, so it is followed whatever `last` says
    have hmore : ¬ (names ++ rest = [] ∧ (!last) = true) :=
      fun hnone => hrest (List.append_eq_nil_iff.mp hnone.1).2
    rw [List.cons_append, follow_name last hhere hup, hfind]
    dsimp only
    rw [if_neg hmore, ← List.append_assoc]
    exact hfollow last rest hrest

/-- Where one more name leads on, the names before it lead to a folder. -/
theorem exists_folder_of_follow {names : List OsText} {name : OsText} {node : Node}
    (h : follow true root links here (names ++ [name]) = .ok node) :
    ∃ f, follow true root links here names = .ok (.folder f) := by
  induction links, here, names using follow.induct true root with
  | case1 links here =>
    rw [follow]
    exact ⟨_, rfl⟩
  | case2 links here names ih =>
    rw [List.cons_append, follow_here] at h
    rw [follow_here]
    exact ih h
  | case3 links here names hne ih =>
    rw [List.cons_append, follow_up] at h
    rw [follow_up]
    exact ih h
  | case4 links here first names hhere hup hfind =>
    rw [List.cons_append, follow_name true hhere hup, hfind] at h
    cases h
  | case5 links here first hhere hup content hfind =>
    rw [List.cons_append, follow_name true hhere hup, hfind] at h
    cases (if_neg (List.cons_ne_nil name [])).symm.trans h
  | case6 links here first names hhere hup content hfind hne =>
    have hmore : ¬ names ++ [name] = [] := List.append_ne_nil_of_left_ne_nil hne [name]
    rw [List.cons_append, follow_name true hhere hup, hfind] at h
    cases (if_neg hmore).symm.trans h
  | case7 links here first names hhere hup inner hfind ih =>
    rw [List.cons_append, follow_name true hhere hup, hfind] at h
    rw [follow_name true hhere hup, hfind]
    exact ih h
  | case8 links here first names hhere hup target hfind hlast => exact absurd hlast.2 (by decide)
  | case9 here first names hhere hup target hfind hlast =>
    have hmore : ¬ (names ++ [name] = [] ∧ (!true) = true) :=
      not_and_of_not_right _ Bool.false_ne_true
    rw [List.cons_append, follow_name true hhere hup, hfind] at h
    cases (if_neg hmore).symm.trans h
  | case10 here first names hhere hup target hfind hlast links ih =>
    have hmore : ¬ (names ++ [name] = [] ∧ (!true) = true) :=
      not_and_of_not_right _ Bool.false_ne_true
    rw [List.cons_append, follow_name true hhere hup, hfind] at h
    rw [follow_name true hhere hup, hfind]
    dsimp only at h ⊢
    rw [if_neg hmore, ← List.append_assoc] at h
    rw [if_neg hlast]
    exact ih h

/-- A step that stays in a folder can be put after the names that lead to it. -/
theorem follow_append_here {names : List OsText} {f : Folder}
    (h : follow true root links here names = .ok (.folder f)) :
    follow true root links here (names ++ [OsText.ofText "."]) = .ok (.folder f) := by
  obtain ⟨links', here', hhead, hfollow⟩ := follow_append h
  rw [hfollow true [OsText.ofText "."] (List.cons_ne_nil _ _), follow_here, follow, hhead]

/-- From a plain folder, following is looking below the folder. -/
theorem toOption_follow (last : Bool) {f : Folder} (hf : here.head?.getD root = f)
    (hplain : f.Plain) {location : List OsText} (h : ∀ name ∈ location, IsName name) :
    (follow last root links here location).toOption = f.locate location := by
  induction location generalizing here f with
  | nil =>
    rw [follow, hf]
    rfl
  | cons name rest ih =>
    obtain ⟨hname, hrest⟩ := List.forall_mem_cons.mp h
    rw [follow_name last hname.ne_here hname.ne_up, hf, Folder.locate]
    cases hfind : f.find? name with
    | none => rfl
    | some node =>
      have hitem := hplain.of_mem_items (Folder.mem_items_of_find? hfind)
      cases node with
      | folder inner => exact ih rfl (hplain.of_find? hfind) hrest
      | link target => exact absurd rfl (hitem.2.1 target)
      | file content =>
        dsimp only
        by_cases hend : rest = []
        · rw [if_pos hend, if_pos hend]
          rfl
        · rw [if_neg hend, if_neg hend]
          rfl

end

/-! ## Items of the root -/

theorem segments_root_item {name : OsText} (h : IsName name) :
    Path.segments ⟨OsText.ofText "/" ++ name⟩ = [OsText.ofText "", name] := by
  have hname : name.segments = [name] := by
    rw [← OsText.joined_singleton name, h.location.segments_joined, OsText.joined_singleton]
  have hsplit : Path.segments ⟨OsText.ofText "/" ++ name⟩ = OsText.segments "" ++ name.segments :=
    OsText.segments_append rfl
  rw [hsplit, hname]
  rfl

/-- A slash and a name lead to the item of the root that has this name, if it is no link. -/
theorem status_root_item {tree : FileTree} {name : OsText} {node : Node} (h : IsName name)
    (hfind : tree.root.find? name = some node) (hlink : ∀ target, node ≠ .link target) :
    tree.status ⟨OsText.ofText "/" ++ name⟩ = .ok node := by
  have habsolute : Path.isAbsolute ⟨OsText.ofText "/" ++ name⟩ = true := rfl
  have hzero : 0 ∉ (OsText.ofText "/" ++ name).octets :=
    List.not_mem_cons_of_ne_of_not_mem (by decide) h.noZero
  have hsteps : steps ⟨OsText.ofText "/" ++ name⟩ = [name] := by
    rw [steps, segments_root_item h]
    simp [h.ne_empty]
  have hroot : (([] : List Folder).head?.getD tree.root).find? name = some node := hfind
  rw [status_eq_follow tree habsolute hzero, hsteps, follow_name true h.ne_here h.ne_up, hroot]
  cases node with
  | file content => rfl
  | folder inner => simp [follow]
  | link target => exact absurd rfl (hlink target)

/-! ## Paths below a path -/

section
variable {tree : FileTree} {base : Path} {location : List OsText} {node : Node} {f : Folder}

theorem raw_ne_empty_of_lookup {last : Bool} (h : tree.lookup last base = .ok node) :
    base.raw ≠ "" := by
  intro he
  rw [lookup, if_pos he] at h
  cases h

/-- A path leads to a folder if the names do that come before those below it. -/
theorem status_eq_folder_iff (hne : base.raw ≠ "") (hzero : 0 ∉ base.raw.octets)
    {names : List OsText}
    (hbase : tree.trail base = names ∨ tree.trail base = names ++ [OsText.ofText "."]) :
    tree.status base = .ok (.folder f) ↔
      follow true tree.root maxLinks [] names = .ok (.folder f) := by
  rw [status, lookup_eq tree true hne hzero]
  rcases hbase with hbase | hbase
  · rw [hbase]
  · rw [hbase]
    refine ⟨fun h => ?_, follow_append_here⟩
    obtain ⟨g, hg⟩ := exists_folder_of_follow h
    rw [hg, ← h, follow_append_here hg]

/-- Looking up a path below a folder is following the names from that folder, whatever the path of
the folder is. -/
theorem exists_lookup_below (h : tree.status base = .ok (.folder f)) (hloc : IsLocation location) :
    ∃ links here, here.head?.getD tree.root = f ∧ ∀ last,
      tree.lookup last (base.below location) = follow last tree.root links here location := by
  have hne : base.raw ≠ "" := raw_ne_empty_of_lookup h
  have hzero : 0 ∉ base.raw.octets := zero_not_mem_of_lookup h
  obtain ⟨names, htrail, hbase⟩ := exists_trail_below tree hne hloc
  obtain ⟨links, here, hhead, hfollow⟩ :=
    follow_append ((status_eq_folder_iff hne hzero hbase).mp h)
  refine ⟨links, here, hhead, fun last => ?_⟩
  rw [lookup_eq tree last (base.below_endsInName hloc).raw_ne_empty
    (mt (Path.zero_mem_below_iff hne hloc).mp hzero), htrail, hfollow last location hloc.ne_nil]

/-- What has something of a name below it is a folder. -/
theorem isFolder_of_status_child (hne : base.raw ≠ "") {name : OsText} (hname : IsName name)
    (h : tree.status (base.child name) = .ok node) : tree.isFolder base = true := by
  have hloc := hname.location
  rw [← base.below_singleton name] at h
  have hzero : 0 ∉ base.raw.octets :=
    mt (Path.zero_mem_below_iff hne hloc).mpr (zero_not_mem_of_lookup h)
  obtain ⟨names, htrail, hbase⟩ := exists_trail_below tree hne hloc
  rw [status, lookup_eq tree true (raw_ne_empty_of_lookup h) (zero_not_mem_of_lookup h), htrail]
    at h
  obtain ⟨f, hf⟩ := exists_folder_of_follow h
  rw [isFolder, (status_eq_folder_iff hne hzero hbase).mpr hf]

end

/-! ## Folders of a file tree -/

/-- At a path there is an ordered folder that is plain at all levels.  The path ends with a name. -/
structure FolderAt (tree : FileTree) (base : Path) (f : Folder) : Prop where
  endsInName : base.EndsInName
  status : tree.status base = .ok (.folder f)
  plain : f.Plain
  ordered : f.Ordered

theorem folderAt_root_item {tree : FileTree} {name : OsText} {f : Folder} (h : IsName name)
    (hfind : tree.root.find? name = some (.folder f)) (hplain : f.Plain) (hordered : f.Ordered) :
    tree.FolderAt ⟨OsText.ofText "/" ++ name⟩ f where
  endsInName := by
    rw [Path.EndsInName, segments_root_item h]
    exact fun he => h.ne_empty (Option.some.inj he)
  status := status_root_item h hfind nofun
  plain := hplain
  ordered := hordered

namespace FolderAt
variable {tree : FileTree} {base : Path} {f : Folder} {location : List OsText}

/-- What is at a location below the folder, links or not on the way to the folder. -/
theorem toOption_lookup (h : tree.FolderAt base f) (hloc : IsLocation location) (last : Bool) :
    (tree.lookup last (base.below location)).toOption = f.locate location := by
  obtain ⟨links, here, hhead, hlookup⟩ := exists_lookup_below h.status hloc
  rw [hlookup last]
  exact toOption_follow last hhead h.plain hloc.names

theorem lookup_eq_ok_iff (h : tree.FolderAt base f) (hloc : IsLocation location) {last : Bool}
    {node : Node} :
    tree.lookup last (base.below location) = .ok node ↔ f.locate location = some node := by
  rw [← h.toOption_lookup hloc last]
  cases tree.lookup last (base.below location) <;> simp [Except.toOption]

/-- A folder below the folder. -/
theorem below (h : tree.FolderAt base f) (hloc : IsLocation location) {inner : Folder}
    (hinner : f.locate location = some (.folder inner)) :
    tree.FolderAt (base.below location) inner where
  endsInName := base.below_endsInName hloc
  status := (h.lookup_eq_ok_iff hloc).mpr hinner
  plain := (Folder.plain_ordered_of_locate h.plain h.ordered hinner).1
  ordered := (Folder.plain_ordered_of_locate h.plain h.ordered hinner).2

theorem isFile_iff (h : tree.FolderAt base f) (hloc : IsLocation location) :
    tree.isFile (base.below location) = true ↔
      ∃ content, f.locate location = some (.file content) := by
  have hlookup : ∀ node, tree.lookup true (base.below location) = .ok node ↔
      f.locate location = some node := fun node => h.lookup_eq_ok_iff hloc
  unfold isFile FileTree.status
  cases hnode : tree.lookup true (base.below location) with
  | error e =>
    refine iff_of_false Bool.false_ne_true ?_
    rintro ⟨content, hlocate⟩
    rw [(hlookup _).mpr hlocate] at hnode
    cases hnode
  | ok node =>
    have hlocate := (hlookup node).mp hnode
    rw [hlocate]
    cases node <;> simp

theorem readFile_eq (h : tree.FolderAt base f) (hloc : IsLocation location) {content : Bytes}
    (hfile : f.locate location = some (.file content)) :
    tree.readFile (base.below location) = .ok content := by
  have hstatus : tree.status (base.below location) = .ok (.file content) :=
    (h.lookup_eq_ok_iff hloc).mpr hfile
  rw [readFile, hstatus]

theorem isFolder_of_locate (h : tree.FolderAt base f) (hloc : IsLocation location) {inner : Folder}
    (hinner : f.locate location = some (.folder inner)) :
    tree.isFolder (base.below location) = true := by
  rw [isFolder, (h.below hloc hinner).status]

/-- A walk below the folder lists what is in there. -/
theorem walk_below (h : tree.FolderAt base f) (hloc : IsLocation location) {inner : Folder}
    (hinner : f.locate location = some (.folder inner)) :
    tree.walk (base.below location) = .ok inner.walk := by
  rw [walk, (h.lookup_eq_ok_iff hloc).mpr hinner]
  rfl

end FolderAt
end FileTree
end ModuleAtlas
