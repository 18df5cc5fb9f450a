import ModuleAtlas.Proofs.Configuration.Roots
import ModuleAtlas.Proofs.Files.Listings

/-! # Searching module paths

The search of a module path takes the modules at one entry after the other, and those that earlier
entries hide are left out at the end.  So the search of two lists of entries is that of the first and
that of the second, and what it finds is what the two find when they are stacked: leaving out what is
hidden may happen in each list beforehand, as it happens again in the end (`Finder.ofList_append`).

In a folder of modules nothing is hidden.  As long as the children can be read, the search goes on
until a child repeats a name, and the names before that child are distinct (`searchChildren_spec`).
So the clash that is reported is the first one (`IsFirstClash`).
-/
namespace ModuleAtlas
open Steps

/-! ## Stacking lists -/

theorem keepFirst_of_nodup {l : List ModuleReference} (h : (l.map ModuleReference.name).Nodup) :
    keepFirst l = l := by
  induction l using List.reverseRecOn with
  | nil => rfl
  | append_singleton l r ih =>
    rw [List.map_append, List.map_singleton, List.nodup_append] at h
    obtain ⟨hl, -, hne⟩ := h
    have hnew : r.name ∉ l.map ModuleReference.name :=
      fun hmem => hne _ hmem _ (List.mem_singleton_self _) rfl
    rw [keepFirst_concat, if_neg hnew, ih hl]

theorem mem_names_keepFirst {l : List ModuleReference} {n : String} :
    n ∈ (keepFirst l).map ModuleReference.name ↔ n ∈ l.map ModuleReference.name := by
  rw [map_name_keepFirst, mem_distinct]

/-- References may be left out of the lists before the lists are put together. -/
theorem keepFirst_append (a b : List ModuleReference) :
    keepFirst (keepFirst a ++ keepFirst b) = keepFirst (a ++ b) := by
  induction b using List.reverseRecOn with
  | nil =>
    show keepFirst (keepFirst a ++ []) = keepFirst (a ++ [])
    rw [List.append_nil, List.append_nil, keepFirst_of_nodup (nodup_keepFirst a)]
  | append_singleton b r ih =>
    have hmem : r.name ∈ (a ++ b).map ModuleReference.name ↔
        r.name ∈ (keepFirst a ++ keepFirst b).map ModuleReference.name := by
      rw [List.map_append, List.map_append, List.mem_append, List.mem_append, mem_names_keepFirst,
        mem_names_keepFirst]
    rw [keepFirst_concat, ← List.append_assoc, keepFirst_concat (a ++ b)]
    by_cases hr : r.name ∈ b.map ModuleReference.name
    · -- the reference is hidden by one of the second list already
      have hboth : r.name ∈ (a ++ b).map ModuleReference.name := by
        rw [List.map_append]
        exact List.mem_append_right _ hr
      rw [if_pos hr, if_pos hboth, ih]
    · rw [if_neg hr, ← List.append_assoc, keepFirst_concat, ih]
      simp only [hmem]

theorem Finder.ofList_append (a b : List ModuleReference) :
    ofList (a ++ b) = stack [ofList a, ofList b] := by
  have hreferences : [ofList a, ofList b].flatMap references = keepFirst a ++ keepFirst b := by
    rw [List.flatMap_cons, List.flatMap_singleton]
    rfl
  rw [stack, hreferences]
  simp only [ofList, keepFirst_append]

theorem Finder.find?_eq_some_iff {f : Finder} {n : String} {r : ModuleReference} :
    f.find? n = some r ↔ r ∈ f.references ∧ r.name = n := by
  constructor
  · exact fun h => ⟨mem_of_find? h, name_of_find? h⟩
  · rintro ⟨hr, rfl⟩
    exact mem_references_iff.mp hr

/-! ## Clashes -/

/-- The names that some modules declare, in order. -/
def declaredNames (found : List (Path × ModuleDescriptor)) : List String :=
  found.map fun m => m.2.name

/-- In a list of modules without repetitions up to some place, the module at that place repeats the
name of an earlier one. -/
def ClashAt (found : List (Path × ModuleDescriptor)) (i : Nat) (name : String)
    (first second : Path) : Prop :=
  (declaredNames (found.take i)).Nodup ∧
    (∃ d, found[i]? = some (second, d) ∧ d.name = name) ∧
    ∃ d, (first, d) ∈ found.take i ∧ d.name = name

/-- The first clash of names in a list of modules, and the paths of the two modules. -/
def IsFirstClash (found : List (Path × ModuleDescriptor)) (name : String) (first second : Path) :
    Prop :=
  ∃ i, ClashAt found i name first second

section
variable {found : List (Path × ModuleDescriptor)} {i j : Nat} {name name' : String}
  {first first' second second' : Path}

theorem ClashAt.not_nodup (h : ClashAt found i name first second) {k : Nat} (hk : i < k) :
    ¬ (declaredNames (found.take k)).Nodup := by
  obtain ⟨-, ⟨d, hd, rfl⟩, d', hd', hname⟩ := h
  intro hnodup
  have htake : found.take (i + 1) = found.take i ++ [(second, d)] := by
    rw [List.take_add_one, hd]
    rfl
  have hbegins : found.take (i + 1) <+: found.take k := List.take_prefix_take_left hk
  have hfront := (hbegins.sublist.map fun m : Path × ModuleDescriptor => m.2.name).nodup hnodup
  rw [htake, List.map_append, List.nodup_append] at hfront
  exact hfront.2.2 d'.name (List.mem_map_of_mem (f := fun m : Path × ModuleDescriptor => m.2.name)
    hd') d.name List.mem_cons_self hname

theorem isFirstClash_append (h : (declaredNames found).Nodup) {d d' : ModuleDescriptor}
    (hmem : (first, d') ∈ found) (hname : d'.name = d.name)
    (after : List (Path × ModuleDescriptor)) :
    IsFirstClash (found ++ (second, d) :: after) d.name first second := by
  refine ⟨found.length, ?_, ⟨d, ?_, rfl⟩, d', ?_, hname⟩
  · rwa [List.take_left]
  · rw [List.getElem?_append_right (Nat.le_refl _), Nat.sub_self, List.getElem?_cons_zero]
  · rwa [List.take_left]

theorem nodup_declaredNames_concat (h : (declaredNames found).Nodup) {d : ModuleDescriptor}
    (hnew : d.name ∉ declaredNames found) (p : Path) :
    (declaredNames (found ++ [(p, d)])).Nodup := by
  rw [declaredNames, List.map_append, List.nodup_append]
  refine ⟨h, List.nodup_singleton _, fun n hn n' hn' => ?_⟩
  rintro rfl
  rw [List.map_singleton, List.mem_singleton] at hn'
  exact hnew (hn' ▸ hn)

theorem find?_name_eq_none_iff {n : String} :
    (found.find? fun m => m.2.name == n) = none ↔ n ∉ declaredNames found := by
  rw [List.find?_eq_none, declaredNames, List.mem_map]
  simp only [beq_iff_eq, not_exists, not_and]

theorem IsFirstClash.not_nodup (h : IsFirstClash found name first second) :
    ¬ (declaredNames found).Nodup := by
  obtain ⟨i, hclash⟩ := h
  obtain ⟨d, hd, -⟩ := hclash.2.1
  have hall := hclash.not_nodup (List.getElem?_eq_some_iff.mp hd).1
  rwa [List.take_length] at hall

theorem IsFirstClash.unique (h : IsFirstClash found name first second)
    (h' : IsFirstClash found name' first' second') :
    name = name' ∧ first = first' ∧ second = second' := by
  obtain ⟨i, hi⟩ := h
  obtain ⟨j, hj⟩ := h'
  obtain rfl : i = j := by
    rcases Nat.lt_trichotomy i j with hlt | rfl | hlt
    · exact absurd hj.1 (hi.not_nodup hlt)
    · rfl
    · exact absurd hi.1 (hj.not_nodup hlt)
  obtain ⟨hnodup, ⟨d, hd, rfl⟩, e, he, hename⟩ := hi
  obtain ⟨-, ⟨d', hd', rfl⟩, e', he', hename'⟩ := hj
  obtain ⟨rfl, rfl⟩ := Prod.mk.inj (Option.some.inj (hd.symm.trans hd'))
  have hsame : (first, e) = (first', e') :=
    List.inj_on_of_nodup_map hnodup he he' (hename.trans hename'.symm)
  exact ⟨rfl, (Prod.mk.inj hsame).1, rfl⟩

end

/-! ## Folders of modules -/

namespace ModulePath
variable {tree : FileTree} {release : Option Nat}

/-- The module of a child that is looked at, with its path. -/
def declaredAt (tree : FileTree) (release : Option Nat) (child : Path) :
    Option (Path × ModuleDescriptor) :=
  match readModule tree release child with
  | .ok (some d) => some (child, d)
  | _ => none

/-- The modules that some children declare, with their paths, in the order of the children. -/
def declaredIn (tree : FileTree) (release : Option Nat) (children : List Path) :
    List (Path × ModuleDescriptor) :=
  (children.filter (isCandidate tree)).filterMap (declaredAt tree release)

/-- Every child that is looked at can be read. -/
def Readable (tree : FileTree) (release : Option Nat) (children : List Path) : Prop :=
  ∀ child ∈ children, isCandidate tree child = true →
    ∃ found, readModule tree release child = .ok found

/-- Children that can be read are all looked at, unless one repeats a name. -/
theorem searchChildren_spec {children : List Path} (hread : Readable tree release children)
    {found : List (Path × ModuleDescriptor)} (hfound : (declaredNames found).Nodup) :
    ((declaredNames (found ++ declaredIn tree release children)).Nodup ∧
        searchChildren tree release found children =
          .ok (found ++ declaredIn tree release children)) ∨
      ∃ name first second,
        IsFirstClash (found ++ declaredIn tree release children) name first second ∧
        searchChildren tree release found children =
          .error (.resolution (.duplicate name first second)) := by
  induction children generalizing found with
  | nil =>
    refine .inl ⟨?_, ?_⟩
    · rwa [declaredIn, List.filter_nil, List.filterMap_nil, List.append_nil]
    · rw [declaredIn, List.filter_nil, List.filterMap_nil, List.append_nil, searchChildren]
  | cons child children ih =>
    obtain ⟨hchild, hrest⟩ := List.forall_mem_cons.mp hread
    rw [searchChildren, declaredIn]
    by_cases hcandidate : isCandidate tree child = true
    · obtain ⟨module, hmodule⟩ := hchild hcandidate
      rw [if_pos hcandidate, List.filter_cons_of_pos hcandidate, hmodule]
      cases module with
      | none =>
        rw [List.filterMap_cons_none (by rw [declaredAt, hmodule])]
        exact ih hrest hfound
      | some d =>
        rw [List.filterMap_cons_some (b := (child, d)) (by rw [declaredAt, hmodule])]
        dsimp only
        cases hfind : found.find? fun m => m.2.name == d.name with
        | none =>
          have hnew := find?_name_eq_none_iff.mp hfind
          have hcons := ih hrest (nodup_declaredNames_concat hfound hnew child)
          rw [List.append_assoc, List.singleton_append] at hcons
          exact hcons
        | some m =>
          have hname := List.find?_some hfind
          exact .inr ⟨d.name, m.1, child, isFirstClash_append hfound
            (List.mem_of_find?_eq_some hfind) (eq_of_beq hname) _, rfl⟩
    · rw [if_neg hcandidate, List.filter_cons_of_neg hcandidate]
      exact ih hrest hfound

theorem searchEntry_of_folder {entry : Path} (hfolder : tree.isFolder entry = true)
    (hnone : holdsDescriptor tree entry = false) {children : List Path}
    (hchildren : tree.sortedChildren entry = .ok children) :
    searchEntry tree release entry = searchChildren tree release [] children := by
  have hexists : tree.pathExists entry = true := by
    unfold FileTree.isFolder at hfolder
    split at hfolder
    · next hstatus => rw [FileTree.pathExists, hstatus]; rfl
    · cases hfolder
  rw [searchEntry, hexists, hfolder, hnone, if_neg (by decide), if_pos (by decide), hchildren]

theorem searchEntry_of_readModule {entry : Path} (hfolder : tree.isFolder entry = false)
    (hread : readModule tree release entry = .ok none) :
    searchEntry tree release entry = .ok [] := by
  obtain ⟨a, hopen, -⟩ := map_eq_ok_iff.mp hread
  have hexists := EntryReader.pathExists_of_openPath (Artifact.openPath_eq_ok_iff.mp hopen).1
  rw [searchEntry, hexists, hfolder, if_neg (by decide), Bool.false_and, if_neg (by decide), hread]
  rfl

/-- What a folder below a folder declares is what its descriptor does, with the packages of the
classes below it. -/
theorem readModule_below {base : Path} {f inner : Folder} (h : tree.FolderAt base f)
    {location : List OsText} (hloc : IsLocation location)
    (hinner : f.locate location = some (.folder inner)) {bytes : Bytes} {d : ModuleDescriptor}
    (hfile : inner.locate [OsText.ofText EntryName.moduleInfo] = some (.file bytes))
    (hparse : ClassFile.parseModuleInfo bytes = .ok d) :
    readModule tree release (base.below location) =
      .ok (some (d.extendPackages (inner.walk.map locationText))) := by
  have hbelow := h.below hloc hinner
  have hcontent : tree.readFile ((base.below location).child EntryName.moduleInfo) = .ok bytes :=
    hbelow.readFile_eq (by decide : IsLocation [OsText.ofText EntryName.moduleInfo]) hfile
  have hreader := h.openPath_below hloc hinner searchHandle release
  generalize hlisting : inner.walk.map locationText = listing at hreader ⊢
  have hlisted : EntryName.moduleInfo ∈ listing := by
    rw [← hlisting]
    exact List.mem_map.mpr ⟨[OsText.ofText EntryName.moduleInfo],
      (Folder.mem_walk_iff hbelow.ordered).mpr ⟨List.cons_ne_nil _ _, bytes, hfile⟩, rfl⟩
  have hread : EntryReader.read ⟨.folder (base.below location) listing, searchHandle⟩ tree {}
      EntryName.moduleInfo = .ok (some bytes) := by
    rw [EntryReader.read, EntryReader.contains, decide_eq_true (by exact hlisted),
      if_neg (by decide), if_neg (by exact Bool.false_ne_true), EntryReader.readListed, hcontent]
  refine map_eq_ok_iff.mpr ⟨⟨_, some (d.extendPackages listing)⟩,
    Artifact.openPath_eq_ok_iff.mpr ⟨hreader, ?_⟩, rfl⟩
  rw [EntryReader.descriptor, bind_of_ok hread]
  dsimp only
  rw [hparse]
  rfl

theorem holdsDescriptor_below {base : Path} {f inner : Folder} (h : tree.FolderAt base f)
    {location : List OsText} (hloc : IsLocation location)
    (hinner : f.locate location = some (.folder inner)) :
    holdsDescriptor tree (base.below location) = true ↔
      ∃ content, inner.locate [OsText.ofText EntryName.moduleInfo] = some (.file content) := by
  have hname : IsLocation [OsText.ofText EntryName.moduleInfo] := by decide
  have hchild : (base.below location).child EntryName.moduleInfo =
      (base.below location).below [OsText.ofText EntryName.moduleInfo] := rfl
  rw [holdsDescriptor, hchild]
  exact (h.below hloc hinner).isFile_iff hname

/-! ## Searches -/

theorem searchEntries_append (left right : List Path) :
    searchEntries tree release (left ++ right) = (do
      let a ← searchEntries tree release left
      let b ← searchEntries tree release right
      return a ++ b) := by
  induction left with
  | nil =>
    show searchEntries tree release right = (searchEntries tree release right).map ([] ++ ·)
    cases searchEntries tree release right <;> rfl
  | cons entry left ih =>
    rw [List.cons_append, searchEntries, searchEntries, ih]
    cases searchEntry tree release entry with
    | error e => rfl
    | ok found =>
      cases searchEntries tree release left with
      | error e => rfl
      | ok a =>
        cases searchEntries tree release right with
        | error e => rfl
        | ok b => exact congrArg Except.ok (List.append_assoc found a b).symm

/-- The modules of two searches, stacked. -/
def merge (a b : ModulePath) : ModulePath where
  entries := a.entries ++ b.entries
  finder := .stack [a.finder, b.finder]

/-- The search of two lists of entries, one after the other, is that of each. -/
theorem search_append (left right : List Path) :
    search tree release (left ++ right) = (do
      let a ← search tree release left
      let b ← search tree release right
      return merge a b) := by
  unfold search
  rw [searchEntries_append]
  cases searchEntries tree release left with
  | error e => rfl
  | ok a =>
    cases searchEntries tree release right with
    | error e => rfl
    | ok b =>
      have hfinder : Finder.ofList ((a ++ b).map referenceTo) =
          .stack [.ofList (a.map referenceTo), .ofList (b.map referenceTo)] := by
        rw [List.map_append, Finder.ofList_append]
      exact congrArg (fun f => Except.ok (ModulePath.mk (left ++ right) f)) hfinder

theorem search_singleton (entry : Path) :
    search tree release [entry] = (searchEntry tree release entry).map fun found =>
      ⟨[entry], .ofList (found.map referenceTo)⟩ := by
  rw [search, searchEntries]
  cases searchEntry tree release entry with
  | error e => rfl
  | ok found =>
    exact congrArg (fun l => Except.ok (ModulePath.mk [entry] (.ofList (l.map referenceTo))))
      (List.append_nil found)

/-- How the search of two lists of entries, one after the other, comes out: it succeeds if both
searches do, and fails as the first one of them does that fails. -/
structure Merges (left right whole : Except AtlasError ModulePath) : Prop where
  succeeds_iff : (∃ path, whole = .ok path) ↔
    (∃ path, left = .ok path) ∧ ∃ path, right = .ok path
  error_left : ∀ e, left = .error e → whole = .error e
  error_right : ∀ a e, left = .ok a → right = .error e → whole = .error e
  source : ∀ a b path, left = .ok a → right = .ok b → whole = .ok path →
    path.entries = a.entries ++ b.entries ∧
      path.finder.source = ModuleSource.compose [a.finder.source, b.finder.source]

theorem merges_append (left right : List Path) :
    Merges (search tree release left) (search tree release right)
      (search tree release (left ++ right)) := by
  rw [search_append]
  cases search tree release left with
  | error e => exact ⟨by simp [bind, Except.bind], fun _ h => h, nofun, nofun⟩
  | ok a =>
    cases search tree release right with
    | error e => exact ⟨by simp [bind, Except.bind], nofun, fun _ _ _ h => h, nofun⟩
    | ok b =>
      refine ⟨iff_of_true ⟨_, rfl⟩ ⟨⟨_, rfl⟩, _, rfl⟩, nofun, nofun, ?_⟩
      rintro a' b' path ha hb hpath
      obtain rfl := Except.ok.inj ha
      obtain rfl := Except.ok.inj hb
      obtain rfl := Except.ok.inj hpath
      exact ⟨rfl, Finder.source_stack [a.finder, b.finder]⟩

/-- What the search of a folder of modules comes to: the first clash is reported, and if there is
none, the modules that the children declare are found, in the order of the children. -/
structure FindsDeclared (found : List (Path × ModuleDescriptor))
    (whole : Except AtlasError ModulePath) : Prop where
  duplicate_iff : ∀ name first second,
    whole = .error (.resolution (.duplicate name first second)) ↔
      IsFirstClash found name first second
  fails_iff : (∃ name first second, whole = .error (.resolution (.duplicate name first second))) ↔
    ¬ (declaredNames found).Nodup
  references : (declaredNames found).Nodup →
    ∃ path, whole = .ok path ∧ path.finder.references = found.map referenceTo

theorem findsDeclared_of_folder {entry : Path} (hfolder : tree.isFolder entry = true)
    (hnone : holdsDescriptor tree entry = false) {children : List Path}
    (hchildren : tree.sortedChildren entry = .ok children)
    (hread : Readable tree release children) :
    FindsDeclared (declaredIn tree release children) (search tree release [entry]) := by
  rw [search_singleton, searchEntry_of_folder hfolder hnone hchildren]
  have hnil : (declaredNames []).Nodup := List.nodup_nil
  have hspec := searchChildren_spec hread hnil
  rw [List.nil_append] at hspec
  rcases hspec with ⟨hnodup, hsearch⟩ | ⟨name, first, second, hclash, hsearch⟩
  · rw [hsearch]
    refine ⟨fun name first second => iff_of_false nofun fun h => h.not_nodup hnodup,
      iff_of_false nofun (not_not_intro hnodup), fun _ => ⟨_, rfl, ?_⟩⟩
    refine keepFirst_of_nodup ?_
    rw [List.map_map]
    exact hnodup
  · rw [hsearch]
    refine ⟨fun name' first' second' => ⟨fun h => ?_, fun h => ?_⟩,
      iff_of_true ⟨_, _, _, rfl⟩ hclash.not_nodup, fun h => absurd h hclash.not_nodup⟩
    · obtain ⟨rfl, rfl, rfl⟩ := ResolutionError.duplicate.inj
        (AtlasError.resolution.inj (Except.error.inj h))
      exact hclash
    · obtain ⟨rfl, rfl, rfl⟩ := hclash.unique h
      rfl

/-- **Searching a module path is merging.**  The search of two lists of entries succeeds if the search
of each does, and fails as the first of the two that fails.  What it finds is what the two find, one
before the other: each name once, and under a name the module that is listed with it.  An entry that
does not exist, or that is an archive without a descriptor, adds nothing.  In a folder of modules all
children are taken, by the octets of their names in whatever order the folder lists them.  If those
that are looked at can be read, the search reports the first clash of two of them with their paths,
and it finds what they declare if no two of them clash, in this order. -/
theorem search_merges (tree : FileTree) (release : Option Nat) :
    (∀ left right, Merges (search tree release left) (search tree release right)
        (search tree release (left ++ right))) ∧
      (∀ entries path, search tree release entries = .ok path →
        path.entries = entries ∧ path.finder.names.Nodup ∧
          ∀ n r, path.finder.find? n = some r ↔ r ∈ path.finder.references ∧ r.name = n) ∧
      (∀ entry, tree.pathExists entry = false ∨
          tree.isFolder entry = false ∧ readModule tree release entry = .ok none →
        search tree release [entry] = .ok ⟨[entry], .empty⟩) ∧
      ∀ entry, tree.isFolder entry = true → holdsDescriptor tree entry = false →
        ∃ listed names : List OsText, tree.listFolder entry = .ok listed ∧ names.Perm listed ∧
          names.Pairwise (· ≤ ·) ∧
          (Readable tree release (names.map entry.child) →
            FindsDeclared (declaredIn tree release (names.map entry.child))
              (search tree release [entry])) := by
  refine ⟨merges_append, ?_, ?_, ?_⟩
  · intro entries path h
    obtain ⟨found, -, rfl⟩ := map_eq_ok_iff.mp h
    exact ⟨rfl, Finder.distinct _, fun n r => Finder.find?_eq_some_iff⟩
  · rintro entry hentry
    have hnothing : searchEntry tree release entry = .ok [] := by
      rcases hentry with hmissing | ⟨hfolder, hread⟩
      · rw [searchEntry, hmissing, if_pos (by decide)]
      · exact searchEntry_of_readModule hfolder hread
    rw [search_singleton, hnothing]
    rfl
  · intro entry hfolder hnone
    obtain ⟨listed, names, hlisted, hnames, hperm, hsorted⟩ := FileTree.exists_sortedNames hfolder
    have hchildren : tree.sortedChildren entry = .ok (names.map entry.child) := by
      rw [FileTree.sortedChildren, hnames]
      rfl
    exact ⟨listed, names, hlisted, hperm, hsorted, findsDeclared_of_folder hfolder hnone hchildren⟩

end ModulePath

namespace Shop
open ModulePath

/-- A folder that holds the library, and nothing else. -/
def box : Folder :=
  .file EntryName.moduleInfo (ClassFile.encodeModuleInfo libraryDescriptor) .empty

/-- The library once on the left and twice on the right. -/
def shelves : Folder :=
  .folder "left" (.folder "goods" box .empty)
    (.folder "right" (.folder "goods" box (.folder "stock" box .empty)) .empty)

/-- The file tree with these. -/
def shelvesTree : FileTree where
  root := .folder "shelves" shelves .empty

theorem folderAt_shelves : shelvesTree.FolderAt ⟨"/shelves"⟩ shelves :=
  FileTree.folderAt_root_item (by decide : IsName "shelves") rfl (by decide) (by decide)

/-- The place of a box. -/
def boxPath (location : List OsText) : Path := (⟨"/shelves"⟩ : Path).below location

/-- At every one of some locations there is a box. -/
def AreBoxes (locations : List (List OsText)) : Prop :=
  ∀ location ∈ locations, IsLocation location ∧ shelves.locate location = some (.folder box)

section
variable {location : List OsText} (hloc : IsLocation location)
  (hbox : shelves.locate location = some (.folder box))
include hloc hbox

theorem readModule_box :
    readModule shelvesTree none (boxPath location) = .ok (some declaredLibrary) := by
  have hextended : declaredLibrary.extendPackages (box.walk.map locationText) =
      declaredLibrary := by decide
  rw [boxPath, readModule_below folderAt_shelves hloc hbox rfl parse_library, hextended]

theorem isCandidate_box : isCandidate shelvesTree (boxPath location) = true := by
  rw [isCandidate, boxPath, (holdsDescriptor_below folderAt_shelves hloc hbox).mpr ⟨_, rfl⟩,
    Bool.or_true]

end

theorem declaredIn_boxes {locations : List (List OsText)} (h : AreBoxes locations) :
    declaredIn shelvesTree none (locations.map boxPath) =
        locations.map (fun location => (boxPath location, declaredLibrary)) ∧
      Readable shelvesTree none (locations.map boxPath) := by
  induction locations with
  | nil => exact ⟨rfl, fun child hchild => absurd hchild List.not_mem_nil⟩
  | cons location locations ih =>
    obtain ⟨⟨hloc, hbox⟩, hrest⟩ := List.forall_mem_cons.mp h
    obtain ⟨hdeclared, hreadable⟩ := ih hrest
    have hread := readModule_box hloc hbox
    constructor
    · rw [List.map_cons, List.map_cons, ← hdeclared, declaredIn,
        List.filter_cons_of_pos (isCandidate_box hloc hbox),
        List.filterMap_cons_some (b := (boxPath location, declaredLibrary))
          (by rw [declaredAt, hread])]
      rfl
    · exact List.forall_mem_cons.mpr ⟨fun _ => ⟨_, hread⟩, hreadable⟩

/-- A shelf of boxes is a folder of modules. -/
theorem folder_shelf {name : OsText} (hname : IsLocation [name]) {inner : Folder}
    (hinner : shelves.locate [name] = some (.folder inner))
    (hnone : inner.locate [OsText.ofText EntryName.moduleInfo] = none) :
    shelvesTree.isFolder (boxPath [name]) = true ∧
      holdsDescriptor shelvesTree (boxPath [name]) = false ∧
      shelvesTree.listFolder (boxPath [name]) = .ok inner.names := by
  refine ⟨folderAt_shelves.isFolder_of_locate hname hinner, ?_, ?_⟩
  · rw [Bool.eq_false_iff, ne_eq, boxPath, holdsDescriptor_below folderAt_shelves hname hinner,
      hnone]
    simp
  · rw [FileTree.listFolder, boxPath, (folderAt_shelves.below hname hinner).status]

theorem pathExists_up : shelvesTree.pathExists ⟨"/shelves/up"⟩ = false := by
  have hup : IsLocation [OsText.ofText "up"] := by decide
  rw [FileTree.pathExists]
  cases hstatus : shelvesTree.status ⟨"/shelves/up"⟩ with
  | error e => rfl
  | ok node =>
    have hlocate : shelves.locate [OsText.ofText "up"] = some node :=
      (folderAt_shelves.lookup_eq_ok_iff hup).mp hstatus
    cases hlocate

/-- Above the shelves there is nothing, so the search finds what is on the left; on the right two
boxes clash. -/
theorem search_merges_shelves :
    (∃ path, search shelvesTree none [⟨"/shelves/left"⟩, ⟨"/shelves/up"⟩] = .ok path ∧
      path.finder.references = [⟨declaredLibrary, .path ⟨"/shelves/left/goods"⟩⟩]) ∧
    search shelvesTree none [⟨"/shelves/left"⟩, ⟨"/shelves/right"⟩] =
      .error (.resolution (.duplicate "base" ⟨"/shelves/right/goods"⟩ ⟨"/shelves/right/stock"⟩)) := by
  obtain ⟨hmerges, -, hnothing, hfolders⟩ := search_merges shelvesTree none
  have hfinds : ∀ (name : OsText) (inner : Folder) (locations : List (List OsText)),
      IsLocation [name] → shelves.locate [name] = some (.folder inner) →
      inner.locate [OsText.ofText EntryName.moduleInfo] = none → AreBoxes locations →
      inner.names.Pairwise (· ≤ ·) →
      inner.names.map (boxPath [name]).child = locations.map boxPath →
      FindsDeclared (locations.map fun location => (boxPath location, declaredLibrary))
        (search shelvesTree none [boxPath [name]]) := by
    intro name inner locations hname hinner hnone hboxes hsorted hpaths
    obtain ⟨hfolder, hdescriptor, hlist⟩ := folder_shelf hname hinner hnone
    obtain ⟨listed, names, hlisted, hperm, hnames, hfinds⟩ := hfolders _ hfolder hdescriptor
    obtain rfl := Except.ok.inj (hlist.symm.trans hlisted)
    have he : names = inner.names := hperm.eq_of_pairwise
      (fun m n _ _ hle hge => OsText.le_antisymm hle hge) hnames hsorted
    rw [he, hpaths] at hfinds
    obtain ⟨hdeclared, hreadable⟩ := declaredIn_boxes hboxes
    rw [hdeclared] at hfinds
    exact hfinds hreadable
  have hgoods : AreBoxes ([["left", "goods"]].map (List.map OsText.ofText)) :=
    List.forall_mem_cons.mpr ⟨⟨by decide, rfl⟩, fun _ h => absurd h List.not_mem_nil⟩
  have hboth : AreBoxes
      ([["right", "goods"], ["right", "stock"]].map (List.map OsText.ofText)) :=
    List.forall_mem_cons.mpr ⟨⟨by decide, rfl⟩, List.forall_mem_cons.mpr ⟨⟨by decide, rfl⟩,
      fun _ h => absurd h List.not_mem_nil⟩⟩
  have hleft := hfinds "left" (.folder "goods" box .empty) _ (by decide) rfl rfl hgoods (by decide)
    (by decide)
  have hright := hfinds "right" (.folder "goods" box (.folder "stock" box .empty)) _ (by decide)
    rfl rfl hboth (by decide) (by decide)
  obtain ⟨a, ha, hreferences⟩ := hleft.references (List.nodup_singleton _)
  have hup := hnothing ⟨"/shelves/up"⟩ (.inl pathExists_up)
  constructor
  · have hmerge := hmerges [⟨"/shelves/left"⟩] [⟨"/shelves/up"⟩]
    obtain ⟨path, hpath⟩ := hmerge.succeeds_iff.mpr ⟨⟨a, ha⟩, _, hup⟩
    obtain ⟨-, hsource⟩ := hmerge.source a _ path ha hup hpath
    refine ⟨path, hpath, (congrArg ModuleSource.listing hsource).trans ?_⟩
    show (tabulate (a.finder.references ++ [])).values = _
    rw [hreferences]
    rfl
  · refine (hmerges [⟨"/shelves/left"⟩] [⟨"/shelves/right"⟩]).error_right a _ ha ?_
    exact (hright.duplicate_iff _ _ _).mpr ⟨1, List.nodup_singleton _, ⟨declaredLibrary, rfl, rfl⟩,
      declaredLibrary, List.mem_singleton_self _, rfl⟩

end Shop
end ModuleAtlas
