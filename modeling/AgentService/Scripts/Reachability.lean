import AgentService.Lib.Reached
import AgentService.Scripts.LockPaths

/-!
# The `dev` flags are reachability

A lock path is a chain of names, each in the `node_modules` of the one before. A name is looked up
from a path outwards, and the search of the script comes to what is reached over the edges so found.
-/

namespace AgentService.Dependencies
open Lib

/-! ## The search -/

section
variable {packages : Record Entry} {path : JsString} {search : Search} {y : JsString}

theorem mem_seen_visit {name : JsString} :
    y ∈ (visit packages path search name).seen.keys ↔ y ∈ search.seen.keys ∨
      resolveDep packages path name = some y := by
  obtain ⟨hnone, hvisit⟩ | ⟨target, htarget, ⟨hseen, hvisit⟩ | ⟨-, hvisit⟩⟩ :=
    visit_cases packages path search name
  · simp [hvisit, hnone]
  · rw [hvisit, htarget, Option.some_inj]
    constructor
    · exact Or.inl
    · rintro (h | rfl)
      · exact h
      · exact hseen
  · rw [hvisit, htarget, OrderedMap.mem_keys_addNew, Option.some_inj, @eq_comm _ y]

theorem mem_queue_visit {name : JsString} :
    y ∈ (visit packages path search name).queue ↔
      y ∈ search.queue ∨ y ∉ search.seen.keys ∧ resolveDep packages path name = some y := by
  obtain ⟨hnone, hvisit⟩ | ⟨target, htarget, ⟨hseen, hvisit⟩ | ⟨hnew, hvisit⟩⟩ :=
    visit_cases packages path search name
  · simp [hvisit, hnone]
  · rw [hvisit, htarget, Option.some_inj]
    constructor
    · exact Or.inl
    · rintro (h | ⟨hnot, rfl⟩)
      · exact h
      · exact absurd hseen hnot
  · rw [hvisit, htarget, List.mem_cons, Option.some_inj]
    constructor
    · rintro (rfl | h)
      · exact .inr ⟨hnew, rfl⟩
      · exact .inl h
    · rintro (h | ⟨-, rfl⟩)
      · exact .inr h
      · exact .inl rfl

theorem mem_seen_visits (names : List JsString) (search : Search) :
    y ∈ (names.foldl (visit packages path) search).seen.keys ↔
      y ∈ search.seen.keys ∨ ∃ name ∈ names, resolveDep packages path name = some y := by
  induction names generalizing search with
  | nil => simp
  | cons name names ih =>
    rw [List.foldl_cons, ih, mem_seen_visit, or_assoc]
    simp

theorem mem_queue_visits (names : List JsString) (search : Search) :
    y ∈ (names.foldl (visit packages path) search).queue ↔
      y ∈ search.queue ∨ y ∉ search.seen.keys ∧ ∃ name ∈ names, resolveDep packages path name =
        some y := by
  induction names generalizing search with
  | nil => simp
  | cons name names ih =>
    rw [List.foldl_cons, ih, mem_queue_visit, mem_seen_visit, or_assoc]
    simp only [List.exists_mem_cons_iff]
    tauto

end

/-- An edge of the search. -/
def Leads (packages : Record Entry) (optional : Bool) (path target : JsString) : Prop :=
  ∃ entry, packages.get? path = some entry ∧ ∃ name ∈ edgeNames optional entry,
    resolveDep packages path name = some target

theorem leads_iff {packages : Record Entry} {optional : Bool} {path target : JsString} :
    Leads packages optional path target ↔
      ∃ name ∈ (packages.get? path).elim [] (edgeNames optional), resolveDep packages path name =
        some target := by
  unfold Leads
  cases packages.get? path with
  | none => simp
  | some entry => simp

/-- The invariant of the search. -/
def Following (packages : Record Entry) (optional : Bool) (roots : JsString → Prop)
    (search : Search) : Prop :=
  Frontier roots (Leads packages optional) (· ∈ search.seen.keys) (· ∈ search.queue)

section
variable {packages : Record Entry} {optional : Bool} {roots : JsString → Prop}

/-- Following the path on the stack keeps it. -/
theorem Following.turn {seen : OrderedSet JsString} {path : JsString} {queue : List JsString}
    (h : Following packages optional roots ⟨seen, path :: queue⟩) :
    Following packages optional roots
      (((packages.get? path).elim [] (edgeNames optional)).foldl (visit packages path) ⟨seen,
        queue⟩) := by
  have hbefore : Frontier roots (Leads packages optional) (· ∈ seen.keys) fun y =>
    y = path ∨ y ∈ queue := by
    simpa only [Following, List.mem_cons] using h
  unfold Following
  simpa only [mem_seen_visits, mem_queue_visits, ← leads_iff] using hbefore.follow

theorem mem_reachLoop (search : Search) (h : Following packages optional roots search)
    (y : JsString) :
    y ∈ ((reachLoop packages optional).result search).keys ↔
      Reached roots (Leads packages optional) y := by
  refine Loop.result_induction (P := fun (search : Search) (seen : OrderedSet JsString) =>
    Following packages optional roots search →
      (y ∈ seen.keys ↔ Reached roots (Leads packages optional) y)) ?_ ?_ search h
  · intro search seen hturn hfollowing
    simp only [reachLoop] at hturn
    split at hturn
    · rename_i hqueue
      cases hturn
      exact hfollowing.done (by simp [hqueue])
    · cases hturn
  · intro search search' hturn ih hfollowing
    simp only [reachLoop] at hturn
    split at hturn
    · cases hturn
    · rename_i path queue hqueue
      cases hturn
      obtain ⟨seen, whole⟩ := search
      cases hqueue
      exact ih hfollowing.turn

/-- The search comes to what is reached, and to nothing else. -/
theorem mem_reachable {rootNames : List JsString} {y : JsString} :
    y ∈ (reachable packages rootNames optional).keys ↔
      Reached (fun y => ∃ name ∈ rootNames, resolveDep packages [] name = some y)
      (Leads packages optional) y := by
  apply mem_reachLoop
  unfold Following
  simpa [mem_seen_visits, mem_queue_visits] using Frontier.atRoots _ (Leads packages optional)

end

/-! ## The graph -/

/-- The names an entry's edges go to. -/
def Asks (entry : Entry) (name : JsString) : Prop :=
  name ∈ namesOf entry.dependencies ∨ name ∈ namesOf entry.optionalDependencies ∨
    name ∈ namesOf entry.peerDependencies

/-- A peer the entry can do without. -/
def OptionalPeer (entry : Entry) (name : JsString) : Prop :=
  ∃ peers, entry.peerDependenciesMeta = some peers ∧ (name, true) ∈ peers.entries

/-- The names of the edges that are left where nothing optional is installed. -/
def Needs (entry : Entry) (name : JsString) : Prop :=
  name ∈ namesOf entry.dependencies ∨ name ∈ namesOf entry.peerDependencies ∧
    ¬ OptionalPeer entry name

/-- From an entry to the nearest copy of what it wants. -/
def Edge (packages : Record Entry) (wants : Entry → JsString → Prop) (path target : JsString) :
    Prop :=
  ∃ chain entry name, (∀ name ∈ chain, ¬ NODE_MODULES <:+: name) ∧ path = pathOf chain ∧
    (path, entry) ∈ packages.entries ∧ wants entry name ∧ Nearest packages chain name target

/-- The paths reachable from the root's names. -/
def Reachable (packages : Record Entry) (rootNames : List JsString)
    (wants : Entry → JsString → Prop) : JsString → Prop :=
  Reached (fun target => ∃ name ∈ rootNames, Nearest packages [] name target) (Edge packages wants)

theorem mem_edgeNames_true {entry : Entry} {name : JsString} :
    name ∈ edgeNames true entry ↔ Asks entry name := by
  simp [edgeNames, Asks]

theorem optionalPeer_iff {entry : Entry} {name : JsString} :
    (entry.peerDependenciesMeta.any fun peers => peers.get? name == some true) = true ↔
      OptionalPeer entry name := by
  simp only [Option.any_eq_true, beq_iff_eq, OrderedMap.get?_eq_some, OptionalPeer]

theorem mem_edgeNames_false {entry : Entry} {name : JsString} :
    name ∈ edgeNames false entry ↔ Needs entry name := by
  rw [Needs, ← optionalPeer_iff]
  simp [edgeNames]

theorem needs_asks {entry : Entry} {name : JsString} (h : Needs entry name) : Asks entry name := by
  rcases h with h | ⟨h, -⟩
  · exact .inl h
  · exact .inr (.inr h)

theorem nearest_root_iff {packages : Record Entry} {name target : JsString} :
    resolveDep packages [] name = some target ↔ Nearest packages [] name target := by
  have hroot : ∀ name ∈ ([] : List JsString), ¬ NODE_MODULES <:+: name := by simp
  exact resolveDep_iff hroot

section
variable {packages : Record Entry} {optional : Bool} {wants : Entry → JsString → Prop}
    {path target : JsString}
  {rootNames rootNames' : List JsString}

theorem leads_iff_edge (hwants : ∀ entry name, name ∈ edgeNames optional entry ↔ wants entry name)
    (hkeys : ∀ path ∈ packages.keys, IsLockPath path) :
    Leads packages optional path target ↔ Edge packages wants path target := by
  constructor
  · rintro ⟨entry, hentry, name, hname, hresolve⟩
    have hmem := OrderedMap.get?_eq_some.mp hentry
    obtain ⟨chain, hchain, rfl⟩ := hkeys path (OrderedMap.mem_keys_of_mem hmem)
    exact ⟨chain, entry, name, hchain, rfl, hmem, (hwants entry name).mp hname,
      (resolveDep_iff hchain).mp hresolve⟩
  · rintro ⟨chain, entry, name, hchain, rfl, hmem, hname, hnearest⟩
    exact ⟨entry, OrderedMap.get?_eq_some.mpr hmem, name, (hwants entry name).mpr hname,
      (resolveDep_iff hchain).mpr hnearest⟩

/-- The search comes to the paths reachable in the graph. -/
theorem mem_reachable_iff (hwants : ∀ entry name, name ∈ edgeNames optional entry ↔
    wants entry name) (hkeys : ∀ path ∈ packages.keys, IsLockPath path) :
    path ∈ (reachable packages rootNames optional).keys ↔
      Reachable packages rootNames wants path := by
  have hedge (a b : JsString) : Leads packages optional a b ↔ Edge packages wants a b :=
    leads_iff_edge hwants hkeys
  rw [mem_reachable]
  constructor
  · apply Reached.mono
    · rintro y ⟨name, hname, hy⟩
      exact ⟨name, hname, nearest_root_iff.mp hy⟩
    · exact fun a b => (hedge a b).mp
  · apply Reached.mono
    · rintro y ⟨name, hname, hy⟩
      exact ⟨name, hname, nearest_root_iff.mpr hy⟩
    · exact fun a b => (hedge a b).mpr

/-- A path that is reached has a last name, so it is not the root. -/
theorem reachable_ne_nil (h : Reachable packages rootNames wants path) : path ≠ [] := by
  have hnearest : ∃ chain name, Nearest packages chain name path := by
    rcases h.root_or_step with ⟨name, -, hnearest⟩ | ⟨-, -, chain, -, name, -, -, -, -, hnearest⟩
    · exact ⟨[], name, hnearest⟩
    · exact ⟨chain, name, hnearest⟩
  obtain ⟨-, -, -, -, rfl, -⟩ := hnearest
  simp [pathOf_eq_nil]

/-- What is needed is among what is asked for. -/
theorem reachable_of_needs (hnames : ∀ name ∈ rootNames, name ∈ rootNames')
    (h : Reachable packages rootNames Needs path) :
    Reachable packages rootNames' Asks path := by
  refine h.mono ?_ ?_
  · rintro y ⟨name, hname, hy⟩
    exact ⟨name, hnames name hname, hy⟩
  · rintro a b ⟨chain, entry, name, hchain, hpath, hmem, hname, hnearest⟩
    exact ⟨chain, entry, name, hchain, hpath, hmem, needs_asks hname, hnearest⟩

end

/-! ## The flags -/

/-- Which entries pass: the search from `devDependencies` only tells two sentences apart. -/
theorem devFlagEntry_eq_nil {runtime dev mandatory : OrderedSet JsString} {path : JsString}
    {entry : Entry} (hmandatory : path ∈ mandatory.keys → path ∈ runtime.keys) (hpath : path ≠ [])
    (hlink : entry.link = false) :
    devFlagEntry runtime dev mandatory path entry = [] ↔
      (entry.dev = true ↔ path ∉ runtime.keys) ∧
      (path ∈ mandatory.keys → entry.optional = false ∧ entry.devOptional = false) := by
  unfold devFlagEntry
  rw [if_neg (by simp [hpath, hlink])]
  by_cases hruntime : path ∈ runtime.keys
  · rw [if_pos (OrderedMap.has_iff.mpr hruntime)]
    simp only [OrderedMap.has_iff, List.append_eq_nil_iff, ite_eq_right_iff, List.cons_ne_nil,
      imp_false, hruntime]
    simp
  · have hneeds : path ∉ mandatory.keys := fun h => hruntime (hmandatory h)
    rw [if_neg (by rwa [OrderedMap.has_iff])]
    simp only [hruntime, hneeds, not_false_eq_true, iff_true, false_imp_iff, and_true]
    cases entry.dev with
    | false => split <;> simp
    | true => simp

/-- Reachable from the dependencies of the package, optional ones included. -/
def Runtime (pkg : Package) (lock : Lock) : JsString → Prop :=
  Reachable lock.table (namesOf pkg.dependencies ++ namesOf pkg.optionalDependencies) Asks

/-- Reachable where nothing optional is installed. -/
def Mandatory (pkg : Package) (lock : Lock) : JsString → Prop :=
  Reachable lock.table (namesOf pkg.dependencies) Needs

/-- The flags of a lockfile are right just where the check has nothing to say: `dev` is set on
the entries that are not reachable, and none that is mandatory is optional. A link has no
flags of its own and is skipped. -/
theorem devFlagProblems_eq_nil_iff (pkg : Package) (lock : Lock) (hkeys : ∀ path ∈ lock.table.keys,
    IsLockPath path) :
    devFlagProblems pkg lock = [] ↔
      (∀ path entry, (path, entry) ∈ lock.table.entries → path ≠ [] → entry.link = false →
        (entry.dev = true ↔ ¬ Runtime pkg lock path)) ∧
      ∀ path entry, (path, entry) ∈ lock.table.entries → entry.link = false →
        Mandatory pkg lock path →
        entry.optional = false ∧ entry.devOptional = false := by
  generalize hruntimeSet :
    reachable lock.table (namesOf pkg.dependencies ++ namesOf pkg.optionalDependencies) true =
      runtime
  generalize hmandatorySet : reachable lock.table (namesOf pkg.dependencies) false = mandatory
  have hruntime (path : JsString) : path ∈ runtime.keys ↔ Runtime pkg lock path := by
    rw [← hruntimeSet]
    exact mem_reachable_iff (fun _ _ => mem_edgeNames_true) hkeys
  have hmandatory (path : JsString) : path ∈ mandatory.keys ↔ Mandatory pkg lock path := by
    rw [← hmandatorySet]
    exact mem_reachable_iff (fun _ _ => mem_edgeNames_false) hkeys
  have hsubset (path : JsString) (h : path ∈ mandatory.keys) : path ∈ runtime.keys := by
    rw [hruntime]
    exact reachable_of_needs (fun _ => List.mem_append_left _) ((hmandatory path).mp h)
  unfold devFlagProblems
  rw [hruntimeSet, hmandatorySet, List.flatMap_eq_nil_iff]
  constructor
  · intro h
    constructor
    · intro path entry hmem hpath hlink
      rw [← hruntime]
      exact ((devFlagEntry_eq_nil (hsubset path) hpath hlink).mp (h (path, entry) hmem)).1
    · intro path entry hmem hlink hneeded
      have hpath : path ≠ [] := reachable_ne_nil hneeded
      exact ((devFlagEntry_eq_nil (hsubset path) hpath hlink).mp (h (path, entry) hmem)).2
        ((hmandatory path).mpr hneeded)
  · rintro ⟨hdev, hoptional⟩ ⟨path, entry⟩ hmem
    by_cases hskipped : path = [] ∨ entry.link = true
    · exact if_pos hskipped
    · rw [not_or, Bool.not_eq_true] at hskipped
      rw [devFlagEntry_eq_nil (hsubset path) hskipped.1 hskipped.2, hruntime, hmandatory]
      exact ⟨hdev path entry hmem hskipped.1 hskipped.2, hoptional path entry hmem hskipped.2⟩

/-- `b` and its own copy of `a` want each other; the flag of that copy is wrong. -/
def cyclicLock : Lock where
  packages := some ⟨[
    ([], {}),
    (js "node_modules/a", { dev := true }),
    (js "node_modules/b", { dependencies := some ⟨[(js "a", js "1")], by decide⟩ }),
    (js "node_modules/b/node_modules/a",
      { dev := true, dependencies := some ⟨[(js "b", js "1")], by decide⟩ })],
    by decide⟩

def cyclicPackage : Package where
  dependencies := some ⟨[(js "b", js "1")], by decide⟩

theorem devFlagProblems_cyclicLock : devFlagProblems cyclicPackage cyclicLock ≠ [] := by
  have hkeys : ∀ path ∈ cyclicLock.table.keys, IsLockPath path := by
    have hpaths : cyclicLock.table.keys =
        [pathOf [], pathOf [js "a"], pathOf [js "b"], pathOf [js "b", js "a"]] := by decide
    rw [hpaths]
    simp only [List.forall_mem_cons]
    refine ⟨⟨_, by decide, rfl⟩, ⟨_, by decide, rfl⟩, ⟨_, by decide, rfl⟩, ⟨_, by decide, rfl⟩, ?_⟩
    exact fun _ h => absurd h List.not_mem_nil
  have hb : Runtime cyclicPackage cyclicLock (pathOf [js "b"]) := by
    apply Reached.root
    refine ⟨js "b", by decide, (nearest_of_mem ?_).mpr rfl⟩
    decide
  have ha : Runtime cyclicPackage cyclicLock (pathOf [js "b", js "a"]) := by
    refine Reached.step hb ⟨[js "b"], _, js "a", by decide, rfl,
      List.mem_of_getElem? (i := 2) rfl, .inl ?_, (nearest_of_mem ?_).mpr rfl⟩
    · decide
    · decide
  intro hpasses
  have hflags := ((devFlagProblems_eq_nil_iff cyclicPackage cyclicLock hkeys).mp hpasses).1
  have hdev :=
    hflags (pathOf [js "b", js "a"]) _ (List.mem_of_getElem? (i := 3) rfl) (by decide) rfl
  exact hdev.mp rfl ha

/-- A link that package.json depends on. -/
def linkedLock : Lock where
  packages := some ⟨[(js "node_modules/a", { link := true, optional := true })], by decide⟩

def linkedPackage : Package where
  dependencies := some ⟨[(js "a", js "1")], by decide⟩

/-- A link passes whatever its flags, also where it is mandatory. -/
theorem link_optional_passes :
    ¬ (devFlagProblems linkedPackage linkedLock = [] ↔
      (∀ path entry, (path, entry) ∈ linkedLock.table.entries → path ≠ [] → entry.link = false →
        (entry.dev = true ↔ ¬ Runtime linkedPackage linkedLock path)) ∧
      ∀ path entry, (path, entry) ∈ linkedLock.table.entries →
        Mandatory linkedPackage linkedLock path →
        entry.optional = false ∧ entry.devOptional = false) := by
  have hpasses : devFlagProblems linkedPackage linkedLock = [] := by
    simp [devFlagProblems, devFlagEntry, linkedLock, Lock.table]
  have hmem : (js "node_modules/a", { link := true, optional := true }) ∈
      linkedLock.table.entries :=
    List.mem_singleton_self _
  have hmandatory : Mandatory linkedPackage linkedLock (js "node_modules/a") := by
    apply Reached.root
    refine ⟨js "a", List.mem_singleton_self _, (nearest_of_mem ?_).mpr ?_⟩
    · decide
    · decide
  intro h
  have hflag := (h.mp hpasses).2 _ _ hmem hmandatory
  cases hflag.1

end AgentService.Dependencies
