import AgentService.Lib.Loop
import AgentService.Scripts.Snapshot

/-!
# The lockfile's `dev` flags against its graph

The graph is implicit: an edge is a dependency name looked up from a lock path outwards, through
the enclosing `node_modules`. The search over it keeps the paths it has seen and a stack of those it
still has to follow.
-/

namespace AgentService.Dependencies
open Lib

/-- A `package.json` as far as the script reads it. Of the bundled packages it asks whether they are
truthy, of the three keys that rewrite names whether they are there. A section that is there is an
object of texts: `null`, numbers and arrays in its place are not modelled. -/
structure Package where
  dependencies : Option (Record JsString) := none
  devDependencies : Option (Record JsString) := none
  optionalDependencies : Option (Record JsString) := none
  peerDependencies : Option (Record JsString) := none
  bundledDependencies : Bool := false
  bundleDependencies : Bool := false
  overrides : Bool := false
  resolutions : Bool := false
  workspaces : Bool := false

/-- `Object.keys(record ?? {})` -/
def namesOf {α : Type} (record : Option (Record α)) : List JsString :=
  (record.getD OrderedMap.empty).keys

/-! ## Resolving a name -/

theorem lastIndexOfText_le {needle s : JsString} {i : Nat} (h : lastIndexOfText needle s = some i) :
    i ≤ s.length := by
  induction s generalizing i with
  | nil =>
    rw [lastIndexOfText] at h
    split at h
    · cases h
      exact Nat.le_refl _
    · cases h
  | cons c s ih =>
    rw [lastIndexOfText] at h
    rw [List.length_cons]
    split at h
    · rename_i j hj
      cases h
      exact Nat.succ_le_succ (ih hj)
    · split at h
      · cases h
        exact Nat.zero_le _
      · cases h

/-- The lock path around a path: what stands before the last `/node_modules/`, or the root. -/
def enclosingPath (base : JsString) : JsString :=
  match lastIndexOfText NODE_MODULES base with
  | some (i + 1) => base.take i
  | _ => []

theorem enclosingPath_length {base : JsString} (h : base ≠ []) :
    (enclosingPath base).length < base.length := by
  have hpos := List.length_pos_iff.mpr h
  unfold enclosingPath
  split
  · rename_i i hi
    have := lastIndexOfText_le hi
    rw [List.length_take]
    omega
  · exact hpos

/-- The path `name` has in the `node_modules` of `base`. -/
def candidate (base name : JsString) : JsString :=
  if base = [] then NODE_MODULES ++ name else base ++ js "/" ++ NODE_MODULES ++ name

/-- The loop of `resolveDep`, over `base`. -/
def resolveLoop (packages : Record Entry) (name : JsString) :
    Loop JsString Unit (Option JsString) where
  turn base _ :=
    if packages.has (candidate base name) = true then .done (some (candidate base name))
    else if base = [] then .done none
    else .again (enclosingPath base)
  rank := List.length
  rank_lt := by
    intro base _ base' h
    split at h
    · cases h
    · split at h
      · cases h
      · rename_i hbase
        cases h
        exact enclosingPath_length hbase

/-- `resolveDep`: nested first, then each parent. -/
def resolveDep (packages : Record Entry) (path name : JsString) : Option JsString :=
  (resolveLoop packages name).result path

theorem resolveDep_has {packages : Record Entry} {path name target : JsString}
    (h : resolveDep packages path name = some target) : target ∈ packages.keys := by
  have hrun : ∀ base, (resolveLoop packages name).result base = some target →
      target ∈ packages.keys := by
    refine Loop.result_induction (P := fun _ r => r = some target → target ∈ packages.keys) ?_ ?_
    · intro base r hturn hr
      simp only [resolveLoop] at hturn
      split at hturn
      · rename_i hhas
        cases hturn
        cases hr
        exact OrderedMap.has_iff.mp hhas
      · split at hturn
        · cases hturn
          cases hr
        · cases hturn
    · intro _ _ _ ih
      exact ih
  exact hrun path h

/-! ## The search -/

/-- `seen`, and `queue` from its end: what was pushed last is followed first. -/
structure Search where
  seen : OrderedSet JsString
  queue : List JsString

/-- `visit` -/
def visit (packages : Record Entry) (path : JsString) (search : Search) (name : JsString) :
    Search :=
  match resolveDep packages path name with
  | some target => if search.seen.has target = true then search
      else ⟨search.seen.addNew target (), target :: search.queue⟩
  | none => search

/-- The names an entry's edges go to. Without `optional`, those `npm ci
--omit=optional` still installs. -/
def edgeNames (optional : Bool) (entry : Entry) : List JsString :=
  if optional = true then
    namesOf entry.dependencies ++ namesOf entry.optionalDependencies ++
      namesOf entry.peerDependencies
  else
    namesOf entry.dependencies ++ (namesOf entry.peerDependencies).filter fun name =>
      !(entry.peerDependenciesMeta.any fun peers => peers.get? name == some true)

/-- How many entries the search has not seen. -/
def unseen (packages : Record Entry) (search : Search) : Nat :=
  (packages.keys.filter fun key => !search.seen.has key).length

/-- What a visit does. -/
theorem visit_cases (packages : Record Entry) (path : JsString) (search : Search)
    (name : JsString) :
    (resolveDep packages path name = none ∧ visit packages path search name = search) ∨
    ∃ target, resolveDep packages path name = some target ∧
      (target ∈ search.seen.keys ∧ visit packages path search name = search ∨
       target ∉ search.seen.keys ∧
         visit packages path search name = ⟨search.seen.addNew target (),
           target :: search.queue⟩) := by
  unfold visit
  cases hresolve : resolveDep packages path name with
  | none => exact .inl ⟨rfl, rfl⟩
  | some target =>
    refine .inr ⟨target, rfl, ?_⟩
    dsimp only
    split
    · rename_i hseen
      exact .inl ⟨OrderedMap.has_iff.mp hseen, rfl⟩
    · rename_i hnew
      rw [OrderedMap.has_iff] at hnew
      exact .inr ⟨hnew, rfl⟩

/-- A visit that pushes an entry has seen one more. -/
theorem visit_rank (packages : Record Entry) (path : JsString) (search : Search) (name : JsString) :
    unseen packages (visit packages path search name) +
      (visit packages path search name).queue.length ≤
        unseen packages search + search.queue.length := by
  obtain ⟨-, hvisit⟩ | ⟨target, htarget, ⟨-, hvisit⟩ | ⟨hnew, hvisit⟩⟩ :=
    visit_cases packages path search name
  · rw [hvisit]
  · rw [hvisit]
  · have hmem : target ∈ packages.keys.filter fun key => !search.seen.has key := by
      rw [List.mem_filter, OrderedMap.has_eq_false.mpr hnew]
      exact ⟨resolveDep_has htarget, rfl⟩
    have hfewer : unseen packages ⟨search.seen.addNew target (), target :: search.queue⟩ ≤
        ((packages.keys.filter fun key => !search.seen.has key).filter fun key =>
          key ≠ target).length := by
      apply Nat.le_of_eq
      rw [unseen, List.filter_filter]
      apply congrArg List.length
      apply List.filter_congr
      intro key _
      rw [Bool.eq_iff_iff]
      simp [OrderedMap.has_eq_false, OrderedMap.mem_keys_addNew, and_comm]
    have hlt : ((packages.keys.filter fun key => !search.seen.has key).filter fun key =>
      key ≠ target).length <
        (packages.keys.filter fun key => !search.seen.has key).length :=
      List.length_filter_lt_length_iff_exists.mpr ⟨target, hmem, by simp⟩
    rw [hvisit, List.length_cons]
    unfold unseen at *
    omega

theorem visits_rank (packages : Record Entry) (path : JsString) (names : List JsString)
    (search : Search) :
    unseen packages (names.foldl (visit packages path) search) +
      (names.foldl (visit packages path) search).queue.length ≤
        unseen packages search + search.queue.length := by
  induction names generalizing search with
  | nil => exact Nat.le_refl _
  | cons name names ih =>
    exact (ih (visit packages path search name)).trans (visit_rank packages path search name)

/-- The loop of `reachable`. -/
def reachLoop (packages : Record Entry) (optional : Bool) :
    Loop Search Unit (OrderedSet JsString) where
  turn search _ :=
    match search.queue with
    | [] => .done search.seen
    | path :: queue =>
      let names := (packages.get? path).elim [] (edgeNames optional)
      .again (names.foldl (visit packages path) ⟨search.seen, queue⟩)
  rank search := unseen packages search + search.queue.length
  rank_lt := by
    intro search _ search' h
    split at h
    · cases h
    · rename_i path queue hqueue
      cases h
      have hrank := visits_rank packages path ((packages.get? path).elim [] (edgeNames optional))
        ⟨search.seen, queue⟩
      rw [hqueue, List.length_cons]
      exact Nat.lt_succ_of_le hrank

/-- `reachable`: the lock paths a search from the root's names comes to. -/
def reachable (packages : Record Entry) (rootNames : List JsString) (optional : Bool) :
    OrderedSet JsString :=
  (reachLoop packages optional).result (rootNames.foldl (visit packages []) ⟨OrderedMap.empty, []⟩)

/-! ## The flags -/

/-- What an entry is reported for, given what is reachable. -/
def devFlagEntry (runtime dev mandatory : OrderedSet JsString) (path : JsString) (entry : Entry) :
    List JsString :=
  if path = [] ∨ entry.link = true then []
  else if runtime.has path = true then
    (if entry.dev = true then
      [js "package-lock.json: " ++ path ++
        js " is reachable from dependencies but is flagged \"dev\": true"]
    else []) ++
    if mandatory.has path = true ∧ (entry.optional = true ∨ entry.devOptional = true) then
      [js "package-lock.json: " ++ path ++
        js " is reachable from dependencies, which package.json does not declare optional, but is flagged \"" ++
        (if entry.optional = true then js "optional" else js "devOptional") ++
        js "\": npm ci --omit=optional would drop it"]
    else []
  else if dev.has path = true then
    if entry.dev = true then []
    else [js "package-lock.json: " ++ path ++
      js (" is reachable only from devDependencies but has no \"dev\": true," ++
        " so npm ci --omit=dev would install it into the production tree")]
  else if entry.dev = true then []
  else [js "package-lock.json: " ++ path ++
    js (" is not reachable from package.json and has no \"dev\": true:" ++
      " npm left an extraneous entry; regenerate the lockfile")]

def devFlagProblems (pkg : Package) (lock : Lock) : List JsString :=
  let runtime :=
    reachable lock.table (namesOf pkg.dependencies ++ namesOf pkg.optionalDependencies) true
  let dev := reachable lock.table (namesOf pkg.devDependencies) true
  let mandatory := reachable lock.table (namesOf pkg.dependencies) false
  lock.table.entries.flatMap fun e => devFlagEntry runtime dev mandatory e.1 e.2

end AgentService.Dependencies
