import ModuleAtlas.Content.EntryReader
import ModuleAtlas.Proofs.Files.Listings

/-! # Readers of folders

A folder holds the files in it and those in its inner folders, and none behind a link
(`Folder.HasFile`).  A walk comes to just these.  It goes through an inner folder where that stands
among its siblings, so the walk is ordered by the names along the way, one after the other, and not
by the text of the paths: a slash does not count against the octets of names
(`Folder.Ordered.pairwise_walk`).

The folder may be given by any path that leads to it, through links or with slashes at the end.  A
walk starts in it all the same (`FileTree.walk_of_status`), and so does what is looked up below the
path (`FileTree.lookup_child_location`).
-/
namespace ModuleAtlas

namespace Folder
variable {f inner : Folder} {name : OsText} {node : Node} {location : List OsText}
  {content : Bytes}

/-- At a location there is a regular file, and no link on the way there. -/
inductive HasFile : Folder → List OsText → Bytes → Prop where
  /-- A file of the folder itself. -/
  | here {f : Folder} {name : OsText} {content : Bytes} (h : (name, .file content) ∈ f.items) :
    HasFile f [name] content
  /-- A file of an inner folder. -/
  | inside {f inner : Folder} {name : OsText} {location : List OsText} {content : Bytes}
    (h : (name, .folder inner) ∈ f.items) (hinner : HasFile inner location content) :
    HasFile f (name :: location) content

/-- Whether every item at every level has a name that a path can hold. -/
def Named : Folder → Prop
  | .empty => True
  | .file name _ rest => IsName name ∧ rest.Named
  | .link name _ rest => IsName name ∧ rest.Named
  | .folder name inner rest => IsName name ∧ inner.Named ∧ rest.Named

instance decidableNamed : (f : Folder) → Decidable f.Named
  | .empty => inferInstanceAs (Decidable True)
  | .file name _ rest =>
    have := decidableNamed rest
    inferInstanceAs (Decidable (IsName name ∧ rest.Named))
  | .link name _ rest =>
    have := decidableNamed rest
    inferInstanceAs (Decidable (IsName name ∧ rest.Named))
  | .folder name inner rest =>
    have := decidableNamed inner
    have := decidableNamed rest
    inferInstanceAs (Decidable (IsName name ∧ inner.Named ∧ rest.Named))

theorem Named.of_mem_items (h : f.Named) (hitem : (name, node) ∈ f.items) :
    IsName name ∧ ∀ inner, node = .folder inner → inner.Named := by
  induction f with
  | empty => exact absurd hitem List.not_mem_nil
  | file n content rest ih =>
    rcases List.mem_cons.mp hitem with he | hitem
    · obtain ⟨rfl, rfl⟩ := Prod.mk.inj he
      exact ⟨h.1, nofun⟩
    · exact ih h.2 hitem
  | link n target rest ih =>
    rcases List.mem_cons.mp hitem with he | hitem
    · obtain ⟨rfl, rfl⟩ := Prod.mk.inj he
      exact ⟨h.1, nofun⟩
    · exact ih h.2 hitem
  | folder n inner rest _ ih =>
    rcases List.mem_cons.mp hitem with he | hitem
    · obtain ⟨rfl, rfl⟩ := Prod.mk.inj he
      exact ⟨h.1, fun g hg => Node.folder.inj hg ▸ h.2.1⟩
    · exact ih h.2.2 hitem

theorem HasFile.isLocation (h : f.HasFile location content) (hnamed : f.Named) :
    IsLocation location := by
  induction h with
  | here hitem => exact (hnamed.of_mem_items hitem).1.location
  | inside hitem _ ih =>
    obtain ⟨hname, hinner⟩ := hnamed.of_mem_items hitem
    exact .cons hname (ih (hinner _ rfl)).names

/-! ## Walks -/

/-- A walk comes to the files of the folder, and to nothing else. -/
theorem mem_walk_iff_hasFile : location ∈ f.walk ↔ ∃ content, f.HasFile location content := by
  constructor
  · intro h
    induction location generalizing f with
    | nil =>
      obtain ⟨name, rest, he, -⟩ := head_mem_names_of_mem_walk h
      cases he
    | cons name rest ih =>
      rw [walk_eq_flatMap, List.mem_flatMap] at h
      obtain ⟨⟨n, node⟩, hitem, hfiles⟩ := h
      cases node with
      | file content =>
        obtain ⟨rfl, rfl⟩ := List.cons_eq_cons.mp (List.mem_singleton.mp hfiles)
        exact ⟨content, .here hitem⟩
      | link target => exact absurd hfiles List.not_mem_nil
      | folder inner =>
        obtain ⟨l, hl, he⟩ := List.mem_map.mp hfiles
        obtain ⟨rfl, rfl⟩ := List.cons_eq_cons.mp he
        obtain ⟨content, hcontent⟩ := ih hl
        exact ⟨content, .inside hitem hcontent⟩
  · rintro ⟨content, h⟩
    induction h with
    | here hitem =>
      rw [walk_eq_flatMap]
      exact List.mem_flatMap.mpr ⟨_, hitem, List.mem_singleton_self _⟩
    | inside hitem _ ih =>
      rw [walk_eq_flatMap]
      exact List.mem_flatMap.mpr ⟨_, hitem, List.mem_map_of_mem ih⟩

/-- The octets of the names along a location. -/
def octets (location : List OsText) : List Bytes := location.map OsText.octets

theorem octets_cons_lt {n : OsText} {rest : List OsText} (h : name < n) :
    octets (name :: location) < octets (n :: rest) :=
  List.cons_lt_cons_iff.mpr (.inl h)

/-- A walk through an ordered folder is ordered by the octets of the names, name by name. -/
theorem Ordered.pairwise_walk (h : f.Ordered) :
    f.walk.Pairwise fun l m => octets l < octets m := by
  -- what follows an item begins with a greater name
  have hbefore : ∀ {n : OsText} {rest : Folder}, (∀ m ∈ rest.names, n < m) →
      ∀ {l : List OsText}, ∀ m ∈ rest.walk, octets (n :: l) < octets m := by
    intro n rest hlt l m hm
    obtain ⟨name, l', rfl, hname⟩ := head_mem_names_of_mem_walk hm
    exact octets_cons_lt (hlt name hname)
  induction f with
  | empty => exact .nil
  | file n content rest ih => exact List.pairwise_cons.mpr ⟨hbefore h.1, ih h.2⟩
  | link n target rest ih => exact ih h.2
  | folder n inner rest ihInner ih =>
    refine List.pairwise_append.mpr ⟨List.pairwise_map.mpr ?_, ih h.2.2, ?_⟩
    · exact (ihInner h.2.1).imp fun hlt => List.cons_lt_cons_iff.mpr (.inr ⟨rfl, hlt⟩)
    · intro l hl m hm
      obtain ⟨l', -, rfl⟩ := List.mem_map.mp hl
      exact hbefore h.1 m hm

end Folder

/-! ## Paths that lead to a folder -/

namespace FileTree
variable {tree : FileTree} {root f : Folder} {links : Nat} {here : List Folder}
  {names location : List OsText} {base : Path} {content : Bytes}

/-- What a path leads to is what it leads to without following a link at its end, or else there is
a link. -/
theorem follow_false_of_follow {node : Node} (h : follow true root links here names = .ok node) :
    follow false root links here names = .ok node ∨
      ∃ target, follow false root links here names = .ok (.link target) := by
  induction links, here, names using follow.induct true root with
  | case1 links here =>
    rw [follow] at h ⊢
    exact .inl h
  | case2 links here names ih =>
    rw [follow_here] at h ⊢
    exact ih h
  | case3 links here names hne ih =>
    rw [follow_up] at h ⊢
    exact ih h
  | case4 links here first names hdot hup hfind =>
    rw [follow_name true hdot hup, hfind] at h
    cases h
  | case5 links here first hdot hup content hfind =>
    rw [follow_name true hdot hup, hfind] at h
    rw [follow_name false hdot hup, hfind]
    exact .inl h
  | case6 links here first names hdot hup content hfind hne =>
    rw [follow_name true hdot hup, hfind] at h
    cases (if_neg hne).symm.trans h
  | case7 links here first names hdot hup inner hfind ih =>
    rw [follow_name true hdot hup, hfind] at h
    rw [follow_name false hdot hup, hfind]
    exact ih h
  | case8 links here first names hdot hup target hfind hlast => exact absurd hlast.2 (by decide)
  | case9 here first names hdot hup target hfind hlast =>
    rw [follow_name true hdot hup, hfind] at h
    cases (if_neg hlast).symm.trans h
  | case10 here first names hdot hup target hfind hlast links ih =>
    rw [follow_name true hdot hup, hfind] at h
    rw [follow_name false hdot hup, hfind]
    dsimp only
    by_cases hend : names = []
    · rw [if_pos ⟨hend, rfl⟩]
      exact .inr ⟨target, rfl⟩
    · rw [if_neg (fun hboth => hend hboth.1)]
      exact ih ((if_neg hlast).symm.trans h)

/-- A walk starts in the folder that the path leads to, be it a link or not. -/
theorem walk_of_status (h : tree.status base = .ok (.folder f)) : tree.walk base = .ok f.walk := by
  have hne : base.raw ≠ "" := raw_ne_empty_of_lookup h
  have hzero : 0 ∉ base.raw.octets := zero_not_mem_of_lookup h
  have hfollow : follow true tree.root maxLinks [] (tree.trail base) = .ok (.folder f) := by
    rw [← lookup_eq tree true hne hzero]
    exact h
  rw [walk, h, lookup_eq tree false hne hzero]
  rcases follow_false_of_follow hfollow with hfolder | ⟨target, hlink⟩
  · rw [hfolder]
    rfl
  · rw [hlink]
    rfl

/-- The names of the location of a file lead to that file. -/
theorem follow_of_hasFile (last : Bool) (hfile : f.HasFile location content)
    (hordered : f.Ordered) (hnamed : f.Named) (hhere : here.head?.getD root = f) :
    follow last root links here location = .ok (.file content) := by
  induction hfile generalizing here with
  | here hitem =>
    have hname := (hnamed.of_mem_items hitem).1
    rw [follow_name last hname.ne_here hname.ne_up, hhere, hordered.find?_eq_some_iff.mpr hitem]
    rfl
  | inside hitem _ ih =>
    obtain ⟨hname, hinner⟩ := hnamed.of_mem_items hitem
    rw [follow_name last hname.ne_here hname.ne_up, hhere, hordered.find?_eq_some_iff.mpr hitem]
    exact ih (hordered.of_mem_items hitem) (hinner _ rfl) rfl

theorem readFile_of_hasFile (h : tree.status base = .ok (.folder f)) (hordered : f.Ordered)
    (hnamed : f.Named) (hfile : f.HasFile location content) :
    tree.readFile (base.below location) = .ok content := by
  obtain ⟨links, here, hhere, hlookup⟩ := exists_lookup_below h (hfile.isLocation hnamed)
  have hstatus : tree.status (base.below location) = .ok (.file content) :=
    (hlookup true).trans (follow_of_hasFile true hfile hordered hnamed hhere)
  rw [readFile, hstatus]

end FileTree

/-! ## Readers -/

namespace EntryReader
variable {tree : FileTree} {root : Path} {f : Folder}

/-- What is listed of a folder is read below its path. -/
theorem read_folder {listing : List String} {handle : Handle} {entry : String} {closed : Closed}
    {content : Bytes} (hlisted : entry ∈ listing) (hopen : closed.contains handle = false)
    (hread : tree.readFile (root.child entry) = .ok content) :
    read ⟨.folder root listing, handle⟩ tree closed entry = .ok (some content) := by
  have hcontains : contains ⟨.folder root listing, handle⟩ entry = true := decide_eq_true hlisted
  rw [read, hcontains, hopen]
  show readListed tree closed (.folder root listing) entry = .ok (some content)
  rw [readListed, hread]

/-- **A reader of a folder lists what is shown for the files in it, and reads them by it.**
Whatever path leads to the folder, the regular files at any depth are gone through, and nothing else
is; what is behind a link is not.  They are ordered by the octets of the names along the way, name
by name.  What is shown for them, the names with slashes between them, is listed once, in this
order.  If all names are texts, this is one entry for each file.  A file whose names are texts is
read by what is shown for it as long as the reader is not closed, whatever the other files are
named. -/
theorem lists_folder (hstatus : tree.status root = .ok (.folder f)) (hordered : f.Ordered)
    (hnamed : f.Named) (handle : Handle) :
    ∃ (reader : EntryReader) (locations : List (List OsText)),
      openFolder tree handle root = .ok reader ∧
      (∀ location, location ∈ locations ↔ ∃ content, f.HasFile location content) ∧
      locations.Pairwise (fun l m => Folder.octets l < Folder.octets m) ∧
      reader.entries = distinct (locations.map locationText) ∧ reader.entries.Nodup ∧
      ((∀ location ∈ locations, ∀ name ∈ location, name.IsText) →
        reader.entries = locations.map locationText) ∧
      ∀ location content, f.HasFile location content → (∀ name ∈ location, name.IsText) →
        ∀ closed, closed.contains handle = false →
          reader.read tree closed (locationText location) = .ok (some content) := by
  have hopened : openFolder tree handle root =
      .ok ⟨.folder root (distinct (f.walk.map locationText)), handle⟩ := by
    rw [openFolder, FileTree.walk_of_status hstatus]
  refine ⟨_, f.walk, hopened, fun location => Folder.mem_walk_iff_hasFile, hordered.pairwise_walk,
    rfl, nodup_distinct _, fun htexts => ?_, ?_⟩
  · refine distinct_of_nodup (hordered.nodup_walk.map_on fun l hl m hm he => ?_)
    obtain ⟨_, hfile⟩ := Folder.mem_walk_iff_hasFile.mp hl
    obtain ⟨_, hfile'⟩ := Folder.mem_walk_iff_hasFile.mp hm
    exact (hfile.isLocation hnamed).eq_of_locationText (hfile'.isLocation hnamed) (htexts l hl)
      (htexts m hm) he
  · intro location content hfile htexts closed hopen
    have hlisted : locationText location ∈ distinct (f.walk.map locationText) :=
      mem_distinct.mpr (List.mem_map_of_mem (Folder.mem_walk_iff_hasFile.mpr ⟨content, hfile⟩))
    refine read_folder hlisted hopen ?_
    rw [Path.child_locationText root htexts]
    exact FileTree.readFile_of_hasFile hstatus hordered hnamed hfile

end EntryReader

namespace Shop

/-- A folder in which a name continues that of an inner folder, with links and an empty folder. -/
def pantry : Folder :=
  .folder "jam" (.file "plum" [1] (.link "quince" ⟨"plum"⟩ .empty))
    (.file "jam-recipes" [2] (.folder "pots" .empty (.link "sweets" ⟨"jam"⟩ .empty)))

/-- The file tree with a link to this folder. -/
def pantryTree : FileTree where
  root := .link "kitchen" ⟨"pantry"⟩ (.folder "pantry" pantry .empty)

theorem status_kitchen : pantryTree.status ⟨"/kitchen/"⟩ = .ok (.folder pantry) := by
  have hsteps : FileTree.steps ⟨"/kitchen/"⟩ =
      [OsText.ofText "kitchen", OsText.ofText "."] := by decide
  have htarget : FileTree.steps ⟨"pantry"⟩ = [OsText.ofText "pantry"] := by decide
  rw [FileTree.status_eq_follow _ (by decide) (by decide), hsteps,
    FileTree.follow_name true (by decide) (by decide)]
  show FileTree.follow true _ 39 [] (FileTree.steps ⟨"pantry"⟩ ++ [OsText.ofText "."]) = _
  rw [htarget, List.singleton_append, FileTree.follow_name true (by decide) (by decide)]
  show FileTree.follow true _ 39 [pantry] [OsText.ofText "."] = _
  rw [FileTree.follow_here, FileTree.follow]
  rfl

/-- The file in the inner folder comes first, although its path is the greater text. -/
theorem lists_folder_kitchen :
    pantryTree.status ⟨"/kitchen/"⟩ = .ok (.folder pantry) ∧ pantry.Ordered ∧ pantry.Named ∧
      pantry.walk = [[OsText.ofText "jam", OsText.ofText "plum"], [OsText.ofText "jam-recipes"]] ∧
      ∃ reader, EntryReader.openFolder pantryTree ⟨0, .whole⟩ ⟨"/kitchen/"⟩ = .ok reader ∧
        reader.read pantryTree {} "jam/plum" = .ok (some [1]) := by
  have hordered : pantry.Ordered := by decide
  have hnamed : pantry.Named := by decide
  obtain ⟨reader, locations, hopen, -, -, -, -, -, hread⟩ :=
    EntryReader.lists_folder status_kitchen hordered hnamed ⟨0, .whole⟩
  have hplum : pantry.HasFile [OsText.ofText "jam", OsText.ofText "plum"] [1] :=
    .inside List.mem_cons_self (.here List.mem_cons_self)
  exact ⟨status_kitchen, hordered, hnamed, rfl, reader, hopen,
    hread _ _ hplum (by decide) {} rfl⟩

/-- A folder of two files whose names are no texts. -/
def attic : Folder := .file ⟨[0xFE]⟩ [1] (.file ⟨[0xFF]⟩ [2] .empty)

/-- The file tree with this folder. -/
def atticTree : FileTree where
  root := .folder "attic" attic .empty

/-- The same is shown for both files, and that leads to neither. -/
theorem read_shown_attic :
    atticTree.status ⟨"/attic"⟩ = .ok (.folder attic) ∧ attic.Ordered ∧ attic.Named ∧
      attic.HasFile [⟨[0xFE]⟩] [1] ∧ attic.HasFile [⟨[0xFF]⟩] [2] ∧
      ∃ reader, EntryReader.openFolder atticTree ⟨0, .whole⟩ ⟨"/attic"⟩ = .ok reader ∧
        reader.entries = ["\uFFFD"] ∧
        reader.read atticTree {} "\uFFFD" = .error (.io ⟨"/attic/\uFFFD"⟩ .notFound) := by
  have hstatus : atticTree.status ⟨"/attic"⟩ = .ok (.folder attic) :=
    FileTree.status_root_item (by decide : IsName "attic") rfl nofun
  have hshown : FileTree.status atticTree ⟨"/attic/\uFFFD"⟩ = .error .notFound := by
    have hsteps : FileTree.steps ⟨"/attic/\uFFFD"⟩ =
        [OsText.ofText "attic", OsText.ofText "\uFFFD"] := by decide
    rw [FileTree.status_eq_follow _ (by decide) (by decide), hsteps,
      FileTree.follow_name true (by decide) (by decide)]
    show FileTree.follow true _ 40 [attic] [OsText.ofText "\uFFFD"] = _
    rw [FileTree.follow_name true (by decide) (by decide)]
    rfl
  have hlisted : distinct (attic.walk.map locationText) = ["\uFFFD"] := by decide
  have hopened : EntryReader.openFolder atticTree ⟨0, .whole⟩ ⟨"/attic"⟩ =
      .ok ⟨.folder ⟨"/attic"⟩ ["\uFFFD"], ⟨0, .whole⟩⟩ := by
    rw [EntryReader.openFolder, FileTree.walk_of_status hstatus]
    dsimp only
    rw [hlisted]
  refine ⟨hstatus, by decide, by decide, .here List.mem_cons_self,
    .here (List.mem_cons_of_mem _ List.mem_cons_self), _, hopened, rfl, ?_⟩
  have hpath : Path.child ⟨"/attic"⟩ "\uFFFD" = ⟨"/attic/\uFFFD"⟩ := by decide
  have hread : atticTree.readFile ⟨"/attic/\uFFFD"⟩ = .error .notFound := by
    rw [FileTree.readFile, hshown]
  show EntryReader.readListed atticTree {} (.folder ⟨"/attic"⟩ ["\uFFFD"]) "\uFFFD" = _
  rw [EntryReader.readListed, hpath, hread]

end Shop
end ModuleAtlas
