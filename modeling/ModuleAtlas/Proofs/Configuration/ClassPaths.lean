import ModuleAtlas.Proofs.Configuration.Roots
import ModuleAtlas.Proofs.Files.Components

/-! # Class paths

A class path is expanded part by part: what two class paths stand for, joined by the separator, is
what the one stands for and then what the other does (`expand_append`).  A part whose last component
is a wildcard stands for the archives among the items of a folder, and any other part for itself
(`expand_of_names`, `expand_of_not_names`).

A build expands all its class paths in the order of the calls, and opens what there is
(`paths_of_openClassPath`).
-/
namespace ModuleAtlas
open Steps

namespace ClassPath
variable {tree : FileTree}

/-! ## Parts -/

/-- What goes through items one by one, and puts together the lists that a step gives. -/
theorem eq_flatten_mapM {α β ε : Type} (step : α → Except ε (List β))
    (run : List α → Except ε (List β)) (hnil : run [] = .ok [])
    (hcons : ∀ a rest, run (a :: rest) = do
      let results ← step a
      (run rest).map (results ++ ·)) (items : List α) :
    run items = (items.mapM step).map List.flatten := by
  induction items with
  | nil => exact hnil
  | cons a rest ih =>
    rw [hcons, ih, List.mapM_cons]
    cases step a with
    | error e => rfl
    | ok results => cases rest.mapM step <;> rfl

theorem expandEntries_eq (tree : FileTree) (entries : List Path) :
    expandEntries tree entries = (entries.mapM (expandEntry tree)).map List.flatten := by
  refine eq_flatten_mapM _ (expandEntries tree) rfl (fun entry rest => ?_) entries
  rw [expandEntries]
  cases expandEntry tree entry <;> rfl

theorem expandAll_eq (tree : FileTree) (classPaths : List String) :
    expandAll tree classPaths = (classPaths.mapM (expand tree)).map List.flatten := by
  refine eq_flatten_mapM _ (expandAll tree) rfl (fun classPath rest => ?_) classPaths
  rw [expandAll]
  cases expand tree classPath <;> rfl

theorem expand_append (tree : FileTree) (a b : String) :
    expand tree (a ++ ":" ++ b) = do
      let front ← expand tree a
      let back ← expand tree b
      return front ++ back := by
  have htext : (a ++ ":" ++ b).toList = a.toList ++ Path.listSeparator :: b.toList := by
    rw [String.toList_append, String.toList_append, List.append_assoc]
    rfl
  have hparts : Path.splitList (a ++ ":" ++ b) = Path.splitList a ++ Path.splitList b := by
    rw [Path.splitList, Text.splitAll_append _ htext, List.map_append]
    rfl
  rw [expand, expand, expand, hparts, expandEntries_eq, expandEntries_eq, expandEntries_eq,
    List.mapM_append]
  cases (Path.splitList a).mapM (expandEntry tree) with
  | error e => rfl
  | ok front =>
    cases (Path.splitList b).mapM (expandEntry tree) with
    | error e => rfl
    | ok back => exact congrArg Except.ok List.flatten_append

/-- A text without a separator is the only part of its class path. -/
theorem expand_of_not_mem {s : String} (hcolon : ':' ∉ s.toList) :
    expand tree s = expandEntry tree ⟨s⟩ := by
  have hparts : Path.splitList s = [⟨s⟩] := by
    rw [Path.splitList, Path.listSeparator, Text.splitAll_of_not_mem hcolon, List.map_singleton]
    rfl
  rw [expand, hparts, expandEntries_eq, List.mapM_cons, List.mapM_nil]
  cases expandEntry tree ⟨s⟩ with
  | error e => rfl
  | ok paths => exact congrArg Except.ok (List.append_nil paths)

section
variable {entry : Path} (hne : entry.raw ≠ "")
include hne

theorem expandEntry_of_not_names (h : ∀ folder, ¬ entry.Names folder wildcard) :
    expandEntry tree entry = .ok [entry] := by
  have hname : entry.fileName? ≠ some wildcard := by
    rw [ne_eq, Path.fileName?_eq_some_iff_names (by decide) (by decide), not_exists]
    exact h
  rw [expandEntry, if_neg hne, if_pos hname]

theorem expandEntry_of_names {folder : Path} (h : entry.Names folder wildcard) :
    expandEntry tree entry = ((tree.listFolder folder).map fun names =>
      (names.map folder.child).filter fun p => p.hasExtension ["jar"] && tree.isFile p).mapError
        (.io folder) := by
  have hname : entry.fileName? = some wildcard :=
    (Path.fileName?_eq_some_iff_names (by decide) (by decide)).mpr ⟨folder, h⟩
  obtain ⟨parent, hparent, hfolder⟩ := h.exists_parent (by decide)
  have hwildcard : wildcardFolder entry = folder := by
    rw [wildcardFolder, hparent]
    exact hfolder.symm
  rw [expandEntry, if_neg hne, if_neg (not_not_intro hname), hwildcard]
  dsimp only
  rw [FileTree.children]
  cases tree.listFolder folder <;> rfl

end

end ClassPath

/-! ## Builds -/

theorem BuildPlan.paths_of_openClassPath {plan : BuildPlan} {tree : FileTree} {opening : Nat}
    {paths : List Path} {artifacts : List Artifact}
    (h : plan.openClassPath tree opening paths = .ok artifacts) :
    artifacts.map Artifact.path = paths.filter tree.pathExists :=
  Artifact.paths_of_mapM (fun _ _ => ⟨_, rfl⟩) h

/-- The class path of a configuration is what the class paths of the calls stand for, as far as it
is there. -/
theorem BuildPlan.paths_of_build {choice : PlatformChoice} {calls : List PlanCall}
    {tree : FileTree} {opening : Nat} {c : Configuration}
    (h : (ofCalls choice calls).build tree opening = .ok c) :
    ∃ parts, (calls.flatMap PlanCall.classPaths).mapM (ClassPath.expand tree) = .ok parts ∧
      c.classPathArtifacts.map Artifact.path = parts.flatten.filter tree.pathExists := by
  obtain ⟨inputs, -, -, artifacts, hinputs, -, -, hartifacts, rfl⟩ := build_eq_ok_iff.mp h
  have hclassPath := (gather_eq_ok_iff.mp hinputs).classPath
  rw [(rootedBy_ofCalls choice calls).classPaths, ClassPath.expandAll_eq] at hclassPath
  obtain ⟨parts, hparts, hflatten⟩ := map_eq_ok_iff.mp hclassPath
  refine ⟨parts, hparts, ?_⟩
  rw [hflatten]
  exact paths_of_openClassPath hartifacts

/-- **How class paths are expanded.**  Two class paths with a separator between them stand for what
the first one stands for, followed by what the second one does, and if one of them fails, they fail
as the first one to fail does.  A single part that is not empty stands for itself, unless its last
component is a wildcard.  Then it stands for the archives among the items of the folder that the
wildcard is in, in the order of the listing, or fails as the listing does.  An item is an archive if
it is a file, possibly behind links, and its name ends in `jar` after something and a dot, with
letters in any case.  The artifacts on the class path of a configuration are those at the paths that
the class paths of the calls stand for, one after the other, and that exist. -/
theorem ClassPath.expand_laws (tree : FileTree) :
    (∀ a b, expand tree (a ++ ":" ++ b) = do
      let front ← expand tree a
      let back ← expand tree b
      return front ++ back) ∧
    (∀ s, s ≠ "" → ':' ∉ s.toList →
      ((∀ folder, ¬ Path.Names ⟨s⟩ folder "*") → expand tree s = .ok [⟨s⟩]) ∧
      ∀ folder, Path.Names ⟨s⟩ folder "*" →
        expand tree s = ((tree.listFolder folder).map fun names =>
          (names.map folder.child).filter fun p => p.hasExtension ["jar"] && tree.isFile p).mapError
            (.io folder)) ∧
    (∀ (folder : Path) (name : OsText), IsName name →
      ((folder.child name).hasExtension ["jar"] = true ↔
        ∃ (stem : OsText) (ending : String), stem ≠ "" ∧
          name = stem ++ OsText.ofText "." ++ OsText.ofText ending ∧
          Text.sameLetters ending "jar" = true)) ∧
    ∀ (choice : PlatformChoice) (calls : List PlanCall) (opening : Nat) (c : Configuration),
      (BuildPlan.ofCalls choice calls).build tree opening = .ok c →
      ∃ parts, (calls.flatMap PlanCall.classPaths).mapM (expand tree) = .ok parts ∧
        c.classPathArtifacts.map Artifact.path = parts.flatten.filter tree.pathExists := by
  refine ⟨expand_append tree, fun s hne hcolon => ?_,
    fun folder name => folder.hasExtension_child_iff,
    fun choice calls opening c => BuildPlan.paths_of_build⟩
  rw [expand_of_not_mem hcolon]
  have hraw : (⟨s⟩ : Path).raw ≠ "" := fun he => hne (OsText.ofText_inj.mp he)
  exact ⟨expandEntry_of_not_names hraw, fun folder => expandEntry_of_names hraw⟩

namespace Shop

/-- A folder with an archive, a link to it, and items that are no archives. -/
def basket : Folder :=
  .folder "box.jar" .empty (.file "bread.jar" [1] (.file "list.txt" [2]
    (.link "milk.Jar" ⟨"bread.jar"⟩ .empty)))

/-- The file tree with this folder. -/
def basketTree : FileTree where
  root := .folder "basket" basket .empty

theorem status_basket {p : Path} (habsolute : p.isAbsolute = true)
    (hzero : 0 ∉ p.raw.octets) {names : List OsText}
    (hsteps : FileTree.steps p = OsText.ofText "basket" :: names) :
    basketTree.status p =
      FileTree.follow true basketTree.root FileTree.maxLinks [basket] names := by
  rw [FileTree.status_eq_follow _ habsolute hzero, hsteps]
  simp [FileTree.follow, Folder.find?, Folder.items, basketTree]

/-- What is in the folder. -/
def basketNames : List OsText := ["box.jar", "bread.jar", "list.txt", "milk.Jar"].map OsText.ofText

theorem listFolder_basket : basketTree.listFolder ⟨"/basket"⟩ = .ok basketNames := by
  have hsteps : FileTree.steps ⟨"/basket"⟩ = [OsText.ofText "basket"] := by decide
  rw [FileTree.listFolder, status_basket (by decide) (by decide) hsteps]
  simp [FileTree.follow, Folder.names, Folder.items, basket, basketNames]

/-- The link leads to a file, and the folder is none. -/
theorem isFile_basket : basketTree.isFile ⟨"/basket/box.jar"⟩ = false ∧
    basketTree.isFile ⟨"/basket/bread.jar"⟩ = true ∧
    basketTree.isFile ⟨"/basket/milk.Jar"⟩ = true := by
  have hbox : FileTree.steps ⟨"/basket/box.jar"⟩ =
      ["basket", "box.jar"].map OsText.ofText := by decide
  have hbread : FileTree.steps ⟨"/basket/bread.jar"⟩ =
      ["basket", "bread.jar"].map OsText.ofText := by decide
  have hmilk : FileTree.steps ⟨"/basket/milk.Jar"⟩ =
      ["basket", "milk.Jar"].map OsText.ofText := by decide
  have htarget : FileTree.steps ⟨"bread.jar"⟩ = [OsText.ofText "bread.jar"] := by decide
  have hrelative : Path.isAbsolute ⟨"bread.jar"⟩ = false := by decide
  rw [FileTree.isFile, FileTree.isFile, FileTree.isFile,
    status_basket (by decide) (by decide) hbox, status_basket (by decide) (by decide) hbread,
    status_basket (by decide) (by decide) hmilk]
  simp [FileTree.follow, Folder.find?, Folder.items, basket, FileTree.maxLinks, hrelative,
    htarget]

theorem filter_basket :
    ((basketNames.map (⟨"/basket"⟩ : Path).child).filter
      fun p => p.hasExtension ["jar"] && basketTree.isFile p) =
      [⟨"/basket/bread.jar"⟩, ⟨"/basket/milk.Jar"⟩] := by
  have hitems : basketNames.map (⟨"/basket"⟩ : Path).child =
      [⟨"/basket/box.jar"⟩, ⟨"/basket/bread.jar"⟩, ⟨"/basket/list.txt"⟩, ⟨"/basket/milk.Jar"⟩] := by
    decide
  have hbread : Path.hasExtension ⟨"/basket/bread.jar"⟩ ["jar"] = true := by decide
  have hlist : Path.hasExtension ⟨"/basket/list.txt"⟩ ["jar"] = false := by decide
  have hmilk : Path.hasExtension ⟨"/basket/milk.Jar"⟩ ["jar"] = true := by decide
  rw [hitems]
  simp [isFile_basket, hbread, hlist, hmilk]

/-- The wildcard stands for the archive and the link, and a part without one for itself, whether it
is there or not.  The class path of the program is the folder that its call adds. -/
theorem expand_laws_basket :
    ClassPath.expand basketTree "/basket//*/.:lost.jar" =
      .ok [⟨"/basket/bread.jar"⟩, ⟨"/basket/milk.Jar"⟩, ⟨"lost.jar"⟩] ∧
    (Path.hasExtension ⟨"/basket/milk.Jar"⟩ ["jar"] = true ↔
      ∃ (stem : OsText) (ending : String), stem ≠ "" ∧
        OsText.ofText "milk.Jar" = stem ++ OsText.ofText "." ++ OsText.ofText ending ∧
        Text.sameLetters ending "jar" = true) ∧
    ∃ c, (BuildPlan.ofCalls .none marketCalls).build marketTree 1 = .ok c ∧
      ∃ parts, ["/market/classes"].mapM (ClassPath.expand marketTree) = .ok parts ∧
        c.classPathArtifacts.map Artifact.path = parts.flatten.filter marketTree.pathExists := by
  obtain ⟨happend, hpart, hname, -⟩ := ClassPath.expand_laws basketTree
  obtain ⟨-, -, -, hbuild⟩ := ClassPath.expand_laws marketTree
  refine ⟨?_, hname ⟨"/basket"⟩ "milk.Jar" (by decide), _, build_market 1,
    hbuild .none marketCalls 1 _ (build_market 1)⟩
  have hwildcard : Path.Names ⟨"/basket//*/."⟩ ⟨"/basket"⟩ "*" := by
    refine ⟨["", "basket", ""].map OsText.ofText, [OsText.ofText "."], by simp [Path.Blank],
      by decide, ?_⟩
    exact @Path.LeadsTo.path ⟨"/basket"⟩ [OsText.ofText ""] (by simp [Path.Blank])
      (.inr ⟨OsText.ofText "basket", by decide⟩)
  have hplain : ∀ folder, ¬ Path.Names ⟨"lost.jar"⟩ folder "*" := by
    rintro folder ⟨front, trailing, -, hsegments, -⟩
    have hmem : OsText.ofText "*" ∈ (⟨"lost.jar"⟩ : Path).segments := by simp [hsegments]
    exact absurd hmem (by decide)
  have hfront := (hpart "/basket//*/." (by decide) (by decide)).2 ⟨"/basket"⟩ hwildcard
  have hback := (hpart "lost.jar" (by decide) (by decide)).1 hplain
  rw [listFolder_basket, Except.map, filter_basket] at hfront
  have hparts := happend "/basket//*/." "lost.jar"
  rw [hfront, hback] at hparts
  exact hparts

end Shop
end ModuleAtlas
