import ModuleAtlas.CommandLine.Run
import ModuleAtlas.Proofs.Configuration.Roots

/-! # Path lists

Settings hold the paths of a module path one by one, and a build plan holds them as one text.
Joining paths and splitting a text undo each other, unless a path holds the separator itself, in
which case there is nothing to join (`Path.splitList_of_joinList?`, `Path.joinList?_splitList`).
Both keep empty paths; the search is what leaves them out.  A path list is a text, so of a path that
is none, what is shown for it comes back (`Path.shown`).

What holds of the path of the application holds of the path that takes precedence over the
platform, so which of the two is meant is a parameter (`PathRole`).  An option for such a path is
split into the settings and joined again for the plan.  That is as if the settings had no such
path, and the text were set in the plan that they amount to (`PathRole.configure_eq`).
-/
namespace ModuleAtlas
open Steps

namespace Path
variable {paths : List Path} {list : String}

/-- The path that what is shown for a path leads along. -/
def shown (p : Path) : Path := ofText p.text

theorem shown_eq_self {p : Path} (h : p.raw.IsText) : p.shown = p := congrArg mk h

theorem shown_ne_empty_iff {p : Path} : p.shown.raw ≠ "" ↔ p.raw ≠ "" := by
  have hoctets : p.raw.octets = [] ↔ p.raw = "" := ⟨congrArg OsText.mk, congrArg OsText.octets⟩
  refine not_congr (OsText.ofText_inj.trans ?_)
  rw [text, OsText.text, Utf8.decodeLenient_eq_empty_iff, hoctets]

theorem map_shown_of_forall (h : ∀ p ∈ paths, p.raw.IsText) : paths.map shown = paths :=
  (List.map_congr_left fun p hp => shown_eq_self (h p hp)).trans (List.map_id paths)

/-- Something is shown for a path exactly if it is not empty. -/
theorem filter_map_shown (paths : List Path) :
    (paths.map shown).filter (fun p : Path => p.raw ≠ "") =
      (paths.filter fun p : Path => p.raw ≠ "").map shown := by
  rw [List.filter_map]
  exact congrArg _ (List.filter_congr fun p _ => decide_eq_decide.mpr shown_ne_empty_iff)

theorem joinList?_eq_none_iff :
    joinList? paths = none ↔ ∃ p ∈ paths, separatorOctet ∈ p.raw.octets := by
  have hany : (paths.any fun p => p.raw.octets.contains separatorOctet) = true ↔
      ∃ p ∈ paths, separatorOctet ∈ p.raw.octets := by
    rw [List.any_eq_true]
    exact exists_congr fun p => and_congr_right fun _ => List.contains_iff_mem
  rw [joinList?, ← hany, ite_eq_left_iff]
  exact ⟨fun h => by_contra fun hnot => Option.some_ne_none _ (h hnot), fun h hnot => absurd h hnot⟩

/-- What is shown for joined paths is found again, but for no paths at all, which are joined to an
empty text. -/
theorem splitList_of_joinList? (hne : paths ≠ []) (h : joinList? paths = some list) :
    splitList list = paths.map shown := by
  have hparts : ∀ part ∈ paths.map fun p => p.raw.octets, separatorOctet ∉ part := by
    intro part hpart hcolon
    obtain ⟨p, hp, rfl⟩ := List.mem_map.mp hpart
    cases h.symm.trans (joinList?_eq_none_iff.mpr ⟨p, hp, hcolon⟩)
  have hnames : (paths.map fun p => p.raw.octets) ≠ [] :=
    fun he => hne (List.map_eq_nil_iff.mp he)
  have hsplit : Text.splitAll listSeparator
      (OsText.text ⟨[separatorOctet].intercalate (paths.map fun p => p.raw.octets)⟩) =
      (paths.map fun p => p.raw.octets).map Utf8.decodeLenient :=
    Utf8.splitAll_decodeLenient (by decide) (by decide) hnames hparts
  unfold joinList? at h
  split at h
  · cases h
  · obtain rfl := Option.some.inj h
    rw [splitList, hsplit, List.map_map, List.map_map]
    rfl

/-- The octets of joined texts. -/
theorem encode_intercalate (parts : List String) :
    Utf8.encode ((String.singleton listSeparator).intercalate parts) =
      [separatorOctet].intercalate (parts.map Utf8.encode) := by
  induction parts with
  | nil => rfl
  | cons part rest ih =>
    cases rest with
    | nil =>
      rw [String.intercalate_singleton, List.map_singleton, List.intercalate_singleton]
    | cons next rest =>
      rw [String.intercalate_cons_cons, List.map_cons, List.map_cons, List.intercalate_cons_cons,
        ← List.map_cons, ← ih]
      simp only [Utf8.encode, String.toList_append, List.flatMap_append]
      rfl

theorem joinList?_splitList (list : String) : joinList? (splitList list) = some list := by
  have hparts : ¬((splitList list).any fun p => p.raw.octets.contains separatorOctet) = true := by
    intro hany
    obtain ⟨p, hp, hcolon⟩ := List.any_eq_true.mp hany
    obtain ⟨part, hpart, rfl⟩ := List.mem_map.mp hp
    have hmem : listSeparator ∈ part.toList :=
      (Utf8.mem_encode_iff (c := listSeparator) (by decide)).mp (List.contains_iff_mem.mp hcolon)
    exact Text.not_mem_of_mem_splitAll hpart hmem
  have hoctets : ((splitList list).map fun p => p.raw.octets) =
      (Text.splitAll listSeparator list).map Utf8.encode := by
    rw [splitList, List.map_map]
    rfl
  rw [joinList?, if_neg hparts, hoctets, ← encode_intercalate, Text.intercalate_splitAll]
  exact congrArg some (Utf8.decodeLenient_encode list)

example : joinList? (splitList ":mods::more:") = some ":mods::more:" := by cbv

theorem splitList_ne_nil (list : String) : splitList list ≠ [] :=
  fun he => Text.splitAll_ne_nil _ _ (List.map_eq_nil_iff.mp he)

end Path

namespace Settings
variable {paths : List Path}

theorem listOf_of_mem {p : Path} (hp : p ∈ paths)
    (hcolon : Path.separatorOctet ∈ p.raw.octets) :
    listOf paths = .error .separatorInPath := by
  have hne : ¬paths.isEmpty = true := fun h => List.ne_nil_of_mem hp (List.isEmpty_iff.mp h)
  rw [listOf, if_neg hne, Path.joinList?_eq_none_iff.mpr ⟨p, hp, hcolon⟩]

theorem listOf_of_forall (h : ∀ p ∈ paths, Path.separatorOctet ∉ p.raw.octets) :
    ∃ list?, listOf paths = .ok list? ∧
      (paths ≠ [] → ∃ list, list? = some list ∧ Path.splitList list = paths.map Path.shown) := by
  by_cases hempty : paths = []
  · exact ⟨none, by rw [hempty]; rfl, fun hne => absurd hempty hne⟩
  · cases hjoin : Path.joinList? paths with
    | none =>
      obtain ⟨p, hp, hcolon⟩ := Path.joinList?_eq_none_iff.mp hjoin
      exact absurd hcolon (h p hp)
    | some list =>
      refine ⟨some list, ?_, fun hne => ⟨list, rfl, Path.splitList_of_joinList? hne hjoin⟩⟩
      rw [listOf, if_neg (fun he => hempty (List.isEmpty_iff.mp he)), hjoin]

theorem not_mem_of_listOf {list? : Option String} (h : listOf paths = .ok list?) :
    ∀ p ∈ paths, Path.separatorOctet ∉ p.raw.octets := by
  intro p hp hcolon
  cases h.symm.trans (listOf_of_mem hp hcolon)

theorem failsOnly_listOf (paths : List Path) :
    FailsOnly (· = .separatorInPath) (listOf paths) := by
  unfold listOf
  split
  · exact .ok none
  · split
    · exact .ok _
    · exact .error rfl

/-- A path list that is split into the settings is joined again. -/
theorem listOf_splitList (list : String) : listOf (Path.splitList list) = .ok (some list) := by
  have hne : ¬(Path.splitList list).isEmpty = true :=
    fun h => Path.splitList_ne_nil list (List.isEmpty_iff.mp h)
  rw [listOf, if_neg hne, Path.joinList?_splitList]

end Settings

/-! ## The two module paths -/

/-- Which module path is meant. -/
inductive PathRole where
  /-- The one that takes precedence over the platform. -/
  | override
  /-- The one of the application. -/
  | application

namespace PathRole

/-- The paths in the settings. -/
def paths : PathRole → Settings → List Path
  | override, s => s.upgradeModulePath
  | application, s => s.modulePath

/-- The settings with other paths. -/
def withPaths : PathRole → Settings → List Path → Settings
  | override, s, paths => { s with upgradeModulePath := paths }
  | application, s, paths => { s with modulePath := paths }

/-- The path list in a plan. -/
def list : PathRole → BuildPlan → Option String
  | override, plan => plan.overridePath
  | application, plan => plan.applicationPath

/-- The call that sets the path list. -/
def call : PathRole → String → PlanCall
  | override => .setOverride
  | application => .setApplication

/-- The path list among the options. -/
def given : PathRole → CommandLine.Options → Option String
  | override, o => o.upgradeModulePath
  | application, o => o.modulePath

/-- The options without the path list. -/
def without : PathRole → CommandLine.Options → CommandLine.Options
  | override, o => { o with upgradeModulePath := none }
  | application, o => { o with modulePath := none }

end PathRole

/-! ## Plans -/

namespace Settings
variable {s : Settings} {fallback : PlatformChoice} {plan : BuildPlan}

/-- The plan that settings amount to, but for their module paths. -/
def planBesides (s : Settings) (fallback : PlatformChoice) : BuildPlan :=
  let plan := BuildPlan.addModules {
    choice := s.system.getD fallback
    release := s.multiRelease
    rootPaths := s.roots
    classPaths := s.classPath } s.addModules
  if s.allModules then plan.addAllModules else plan

theorem toPlan_eq (s : Settings) (fallback : PlatformChoice) :
    s.toPlan fallback = do
      s.validate
      let overridePath ← listOf (PathRole.override.paths s)
      let applicationPath ← listOf (PathRole.application.paths s)
      return { s.planBesides fallback with overridePath, applicationPath } := by
  unfold toPlan planBesides PathRole.paths
  cases s.validate with
  | error cause => rfl
  | ok =>
    cases listOf s.upgradeModulePath with
    | error cause => rfl
    | ok overridePath =>
      cases listOf s.modulePath with
      | error cause => rfl
      | ok applicationPath =>
        refine congrArg Except.ok ?_
        rw [BuildPlan.addModules_eq, BuildPlan.addModules_eq]
        cases s.allModules <;> rfl

/-- Settings amount to a plan if their release is valid and no path of theirs holds a separator.
The plan has the path lists that what is shown for their paths is found in. -/
theorem toPlan_of_forall (fallback : PlatformChoice) (hvalid : s.validate = .ok ())
    (h : ∀ (role : PathRole), ∀ p ∈ role.paths s, Path.separatorOctet ∉ p.raw.octets) :
    ∃ plan, s.toPlan fallback = .ok plan ∧ ∀ role : PathRole, role.paths s ≠ [] →
      ∃ list, role.list plan = some list ∧
        Path.splitList list = (role.paths s).map Path.shown := by
  obtain ⟨overridePath, hoverride, hfound⟩ := listOf_of_forall (h .override)
  obtain ⟨applicationPath, happlication, hfound'⟩ := listOf_of_forall (h .application)
  refine ⟨{ s.planBesides fallback with overridePath, applicationPath }, ?_, ?_⟩
  · rw [toPlan_eq, bind_of_ok hvalid, bind_of_ok hoverride, bind_of_ok happlication]
    rfl
  · intro role
    cases role with
    | override => exact hfound
    | application => exact hfound'

theorem forall_of_toPlan (h : s.toPlan fallback = .ok plan) :
    s.validate = .ok () ∧
      ∀ (role : PathRole), ∀ p ∈ role.paths s, Path.separatorOctet ∉ p.raw.octets := by
  rw [toPlan_eq] at h
  obtain ⟨_, hvalid, h⟩ := bind_eq_ok_iff.mp h
  obtain ⟨_, hoverride, h⟩ := bind_eq_ok_iff.mp h
  obtain ⟨_, happlication, -⟩ := bind_eq_ok_iff.mp h
  refine ⟨hvalid, fun role => ?_⟩
  cases role with
  | override => exact not_mem_of_listOf hoverride
  | application => exact not_mem_of_listOf happlication

theorem failsOnly_toPlan (hvalid : s.validate = .ok ()) (fallback : PlatformChoice) :
    FailsOnly (· = .separatorInPath) (s.toPlan fallback) := by
  rw [toPlan_eq, bind_of_ok hvalid]
  exact (failsOnly_listOf _).bind fun _ => (failsOnly_listOf _).bind fun _ => .ok _

/-- A path list that is split into the settings comes back in the plan, which is otherwise the plan
of settings without these paths. -/
theorem toPlan_withPaths (role : PathRole) (list : String) (s : Settings)
    (fallback : PlatformChoice) :
    (role.withPaths s (Path.splitList list)).toPlan fallback =
      ((role.withPaths s []).toPlan fallback).map fun plan => (role.call list).apply plan := by
  have hset : ∀ paths, (role.withPaths s paths).validate = s.validate ∧
      (role.withPaths s paths).planBesides fallback = s.planBesides fallback := by
    intro paths
    cases role <;> exact ⟨rfl, rfl⟩
  rw [toPlan_eq, toPlan_eq, (hset _).1, (hset _).1, (hset _).2, (hset _).2]
  cases s.validate with
  | error cause => rfl
  | ok =>
    cases role with
    | override =>
      show (listOf (Path.splitList list) >>= fun _ => listOf s.modulePath >>= _) =
        Except.map _ (listOf s.modulePath >>= _)
      rw [listOf_splitList]
      cases listOf s.modulePath <;> rfl
    | application =>
      show (listOf s.upgradeModulePath >>= fun _ => listOf (Path.splitList list) >>= _) =
        Except.map _ (listOf s.upgradeModulePath >>= _)
      rw [listOf_splitList]
      cases listOf s.upgradeModulePath <;> rfl

theorem plan_withPaths (role : PathRole) (list : String) (s : Settings)
    (fallback : PlatformChoice) :
    (role.withPaths s (Path.splitList list)).plan fallback =
      ((role.withPaths s []).plan fallback).map fun plan => (role.call list).apply plan := by
  rw [plan, plan, toPlan_withPaths]
  cases (role.withPaths s []).toPlan fallback <;> rfl

end Settings

/-! ## Options -/

namespace PathRole
open CommandLine
variable {role : PathRole} {o : Options} {list : String}

theorem overrideSettings_eq (h : role.given o = some list) (s : Settings) :
    overrideSettings s o = (overrideSettings s (role.without o)).map fun settings =>
      role.withPaths settings (Path.splitList list) := by
  obtain ⟨config, system, modulePath, upgradeModulePath⟩ := o
  cases system with
  | none =>
    cases role <;> obtain rfl := h <;> rfl
  | some raw =>
    unfold overrideSettings
    cases role with
    | override =>
      obtain rfl : upgradeModulePath = some list := h
      dsimp only [without]
      cases ofSettings (PlatformChoice.ofText raw) <;> rfl
    | application =>
      obtain rfl : modulePath = some list := h
      dsimp only [without]
      cases ofSettings (PlatformChoice.ofText raw) <;> rfl

/-- The configuration that is built with an option for a module path is built from the plan without
that path, in which the text of the option is set. -/
theorem configure_eq (h : role.given o = some list) (tree : FileTree) (env : Environment) :
    configure tree env o = (do
      let settings ← overrideSettings (← loadSettings tree o) (role.without o)
      let plan ← ((role.withPaths settings []).plan (env.fallback tree)).mapError .step
      (((role.call list).apply plan).build tree buildOpening).mapError .configuration) := by
  unfold configure
  cases loadSettings tree o with
  | error cause => rfl
  | ok base =>
    show overrideSettings base o >>= _ = overrideSettings base (role.without o) >>= _
    rw [overrideSettings_eq h]
    cases overrideSettings base (role.without o) with
    | error cause => rfl
    | ok settings =>
      show ((role.withPaths settings _).plan _).mapError _ >>= _ =
        ((role.withPaths settings []).plan _).mapError _ >>= _
      rw [Settings.plan_withPaths]
      cases (role.withPaths settings []).plan (env.fallback tree) <;> rfl

end PathRole

/-! ## Path lists -/

/-- **Path lists survive the settings and the command line.**  Settings amount to a plan if and only
if their release is valid and no path of their module paths holds the separator.  For paths that are
given, the plan then has a path list which is searched like what is shown for the paths that are not
empty, in their order, and if they are texts, like these paths; a path with the separator fails the
plan, for just this reason if the release is valid.

An option for a module path is split into the settings and joined again to the text that was given.
So the configuration is built, or is not built, as if the settings had no such path and the text
were set in their plan directly. -/
theorem path_lists_survive :
    (∀ (s : Settings) (fallback : PlatformChoice),
      ((∃ plan, s.plan fallback = .ok plan) ↔ s.validate = .ok () ∧
        ∀ (role : PathRole), ∀ p ∈ role.paths s, Path.separatorOctet ∉ p.raw.octets) ∧
      (∀ plan, s.plan fallback = .ok plan → ∀ role : PathRole, role.paths s ≠ [] →
        ∃ list, role.list plan = some list ∧ ∀ tree release,
          ModulePath.searchList tree release list = ModulePath.search tree release
            (((role.paths s).filter fun p : Path => p.raw ≠ "").map Path.shown) ∧
          ((∀ p ∈ role.paths s, p.raw.IsText) → ModulePath.searchList tree release list =
            ModulePath.search tree release ((role.paths s).filter fun p : Path => p.raw ≠ ""))) ∧
      ∀ (role : PathRole), ∀ p ∈ role.paths s, Path.separatorOctet ∈ p.raw.octets →
        ∃ cause, s.plan fallback = .error (.configuration (.invalidSettings cause)) ∧
          (s.validate = .ok () → cause = .separatorInPath)) ∧
    ∀ (role : PathRole) (o : CommandLine.Options) (list : String), role.given o = some list →
      Settings.listOf (Path.splitList list) = .ok (some list) ∧
      ∀ tree env, CommandLine.configure tree env o = (do
        let base ← CommandLine.loadSettings tree o
        let settings ← CommandLine.overrideSettings base (role.without o)
        let plan ← ((role.withPaths settings []).plan (env.fallback tree)).mapError .step
        (((role.call list).apply plan).build tree CommandLine.buildOpening).mapError
          .configuration) := by
  refine ⟨fun s fallback => ⟨⟨?_, ?_⟩, ?_, ?_⟩, fun role o list hgiven => ?_⟩
  · rintro ⟨plan, hplan⟩
    exact Settings.forall_of_toPlan (mapError_eq_ok_iff.mp hplan)
  · rintro ⟨hvalid, hpaths⟩
    obtain ⟨plan, hplan, -⟩ := Settings.toPlan_of_forall fallback hvalid hpaths
    exact ⟨plan, mapError_eq_ok_iff.mpr hplan⟩
  · intro plan hplan role hne
    have htoPlan := mapError_eq_ok_iff.mp hplan
    obtain ⟨hvalid, hpaths⟩ := Settings.forall_of_toPlan htoPlan
    obtain ⟨plan', hplan', hlists⟩ := Settings.toPlan_of_forall fallback hvalid hpaths
    obtain rfl := Except.ok.inj (htoPlan.symm.trans hplan')
    obtain ⟨list, hlist, hsplit⟩ := hlists role hne
    have hshown : (Path.splitList list).filter (fun p : Path => p.raw ≠ "") =
        ((role.paths s).filter fun p : Path => p.raw ≠ "").map Path.shown := by
      rw [hsplit, Path.filter_map_shown]
    refine ⟨list, hlist, fun tree release => ⟨by rw [ModulePath.searchList, hshown], ?_⟩⟩
    intro htexts
    rw [ModulePath.searchList, hshown,
      Path.map_shown_of_forall fun p hp => htexts p (List.mem_filter.mp hp).1]
  · intro role p hp hcolon
    cases htoPlan : s.toPlan fallback with
    | ok plan => exact absurd hcolon ((Settings.forall_of_toPlan htoPlan).2 role p hp)
    | error cause =>
      refine ⟨cause, by rw [Settings.plan, htoPlan]; rfl, fun hvalid => ?_⟩
      exact Settings.failsOnly_toPlan hvalid fallback cause htoPlan
  · exact ⟨Settings.listOf_splitList list, fun tree env => PathRole.configure_eq hgiven tree env⟩

namespace Shop
open CommandLine

/-- Settings with two paths of the application, and an empty one between them. -/
def errand : Settings := { modulePath := [⟨"mods"⟩, ⟨""⟩, ⟨"more"⟩] }

theorem path_lists_survive_errand :
    (∃ plan list, errand.plan .none = .ok plan ∧ plan.applicationPath = some list ∧
      ∀ tree release, ModulePath.searchList tree release list =
        ModulePath.search tree release [⟨"mods"⟩, ⟨"more"⟩]) ∧
      { errand with upgradeModulePath := [⟨"c:/patch"⟩] }.plan .none =
        .error (.configuration (.invalidSettings .separatorInPath)) ∧
      PathRole.override.given { upgradeModulePath := some "c:/patch:" } = some "c:/patch:" ∧
      Settings.listOf (Path.splitList "c:/patch:") = .ok (some "c:/patch:") := by
  obtain ⟨hsettings, hoption⟩ := path_lists_survive
  obtain ⟨hbuilds, hlists, -⟩ := hsettings errand .none
  obtain ⟨-, -, hfails⟩ :=
    hsettings { errand with upgradeModulePath := [⟨"c:/patch"⟩] } .none
  obtain ⟨plan, hplan⟩ := hbuilds.mpr ⟨rfl, fun role => by cases role <;> decide⟩
  obtain ⟨list, hlist, hsearch⟩ := hlists plan hplan .application (by decide)
  obtain ⟨cause, hcause, hwhy⟩ :=
    hfails .override ⟨"c:/patch"⟩ List.mem_cons_self (by decide)
  obtain rfl := hwhy rfl
  have htexts : ∀ p ∈ PathRole.application.paths errand, p.raw.IsText := by decide
  exact ⟨⟨plan, list, hplan, hlist, fun tree release => (hsearch tree release).2 htexts⟩, hcause,
    rfl, (hoption .override { upgradeModulePath := some "c:/patch:" } "c:/patch:" rfl).1⟩

/-- A name that is no text. -/
def bundle : OsText := ⟨[0x6D, 0xFF]⟩

/-- The file tree with a folder of that name. -/
def bundleTree : FileTree where
  root := .folder bundle .empty .empty

/-- Settings with the path of the folder. -/
def haul : Settings := { modulePath := [⟨OsText.ofText "/" ++ bundle⟩] }

/-- A path can be without a separator and lead to a folder, and the path list that comes of it leads
to nothing. -/
theorem searchList_haul :
    (∀ p ∈ haul.modulePath, Path.separatorOctet ∉ p.raw.octets ∧ bundleTree.isFolder p = true) ∧
      ∃ plan, haul.plan .none = .ok plan ∧ plan.applicationPath = some "/m\uFFFD" ∧
        bundleTree.pathExists ⟨"/m\uFFFD"⟩ = false ∧
        ModulePath.searchList bundleTree none "/m\uFFFD" ≠
          ModulePath.search bundleTree none haul.modulePath := by
  have hfolder : bundleTree.status ⟨OsText.ofText "/" ++ bundle⟩ = .ok (.folder .empty) :=
    FileTree.status_root_item (by decide) rfl nofun
  have hmissing : bundleTree.pathExists ⟨"/m\uFFFD"⟩ = false := by
    have hsteps : FileTree.steps ⟨"/m\uFFFD"⟩ = [OsText.ofText "m\uFFFD"] := by decide
    rw [FileTree.pathExists, FileTree.status_eq_follow _ (by decide) (by decide), hsteps,
      FileTree.follow_name true (by decide) (by decide)]
    rfl
  refine ⟨List.forall_mem_singleton.mpr ⟨by decide, ?_⟩, _, rfl, by decide, hmissing, fun he => ?_⟩
  · rw [FileTree.isFolder, hfolder]
  · have hlist : (Path.splitList "/m\uFFFD").filter (fun p : Path => p.raw ≠ "") =
        [⟨"/m\uFFFD"⟩] := by decide
    have hsearch : ModulePath.searchList bundleTree none "/m\uFFFD" =
        .ok ⟨[⟨"/m\uFFFD"⟩], .ofList []⟩ := by
      rw [ModulePath.searchList, hlist, ModulePath.search, ModulePath.searchEntries,
        ModulePath.searchEntry, hmissing]
      rfl
    obtain ⟨found, -, hpath⟩ := map_eq_ok_iff.mp (he.symm.trans hsearch)
    have hentries : haul.modulePath = [⟨"/m\uFFFD"⟩] := congrArg ModulePath.entries hpath
    exact absurd hentries (by decide)

end Shop

end ModuleAtlas
