import AgentService.Lib.JsText
import AgentService.Lib.OrderedMap
import AgentService.Lib.Except
import Mathlib.Data.List.Sort

/-!
# The snapshot of the lockfile (`scripts/check-dependencies.cjs`)

A lockfile as far as the script reads it, the snapshot computed from it, its text and the
comparison of a committed text with a lockfile. A flag that is left out is `false`: the script
asks of each only whether it is `true`.
-/

namespace AgentService.Dependencies
open Lib

/-- An object read as a table of names. -/
abbrev Record (α : Type) := OrderedMap JsString α

/-- An entry of the lockfile's `packages`. Of `peerDependenciesMeta` only `optional` is read. A
field that is there is a text, a flag or an object of texts, as npm writes it: `null`, numbers and
arrays in its place are not modelled. -/
structure Entry where
  name : Option JsString := none
  version : Option JsString := none
  resolved : Option JsString := none
  integrity : Option JsString := none
  link : Bool := false
  dev : Bool := false
  optional : Bool := false
  devOptional : Bool := false
  dependencies : Option (Record JsString) := none
  devDependencies : Option (Record JsString) := none
  optionalDependencies : Option (Record JsString) := none
  peerDependencies : Option (Record JsString) := none
  peerDependenciesMeta : Option (Record Bool) := none

structure Lock where
  lockfileVersion : Option Int := none
  packages : Option (Record Entry) := none

/-- `lock.packages ?? {}` -/
def Lock.table (lock : Lock) : Record Entry := lock.packages.getD OrderedMap.empty

/-- The entries but the root: `if (where === "") continue`. -/
def Lock.installed (lock : Lock) : List (JsString × Entry) := lock.table.entries.filter (·.1 ≠ [])

/-- A value in a template literal. -/
def shown (v : Option JsString) : JsString := v.getD (js "undefined")

/-- `lastIndexOf` -/
def lastIndexOfText (needle : JsString) : JsString → Option Nat
  | [] => if needle = [] then some 0 else none
  | c :: s =>
    match lastIndexOfText needle s with
    | some i => some (i + 1)
    | none => if needle.isPrefixOf (c :: s) = true then some 0 else none

def NODE_MODULES : JsString := js "node_modules/"

/-- `nameOfPath`: what follows the last `node_modules/`. Without one, `lastIndexOf` is −1. -/
def nameOfPath (path : JsString) : JsString :=
  match lastIndexOfText NODE_MODULES path with
  | some i => path.drop (i + NODE_MODULES.length)
  | none => path.drop (NODE_MODULES.length - 1)

def SNAPSHOT_SECTIONS : List JsString := [js "runtime", js "dev"]

def sectionOfEntry (entry : Entry) : JsString := if entry.dev = true then js "dev" else js "runtime"

/-- `entry.name ?? nameOfPath(where)` -/
def installedName (path : JsString) (entry : Entry) : JsString := entry.name.getD (nameOfPath path)

/-- `name@version` -/
def nameVersion (path : JsString) (entry : Entry) : JsString :=
  installedName path entry ++ js "@" ++ shown entry.version

/-- `section name@version` -/
def snapshotKey (path : JsString) (entry : Entry) : JsString :=
  sectionOfEntry entry ++ js " " ++ nameVersion path entry

def integrityText (entry : Entry) : JsString := entry.integrity.getD (js "(no integrity)")

abbrev Snapshot := OrderedMap JsString JsString

/-- What an entry brings to the snapshot. -/
def pin (e : JsString × Entry) : JsString × JsString := (snapshotKey e.1 e.2, integrityText e.2)

/-- `computeSnapshot`: a second copy of the same name and version keeps the first's integrity. -/
def computeSnapshot (lock : Lock) : Snapshot := OrderedMap.empty.addAll (lock.installed.map pin)

/-- What `snapshotConflicts` remembers of the first entry of a key. -/
structure First where
  path : JsString
  integrity : JsString

/-- The loop of `snapshotConflicts`. -/
def conflictsFrom (seen : OrderedMap JsString First) : List (JsString × Entry) → List JsString
  | [] => []
  | (path, entry) :: es =>
    match seen.get? (snapshotKey path entry) with
    | none => conflictsFrom (seen.addNew (snapshotKey path entry) ⟨path, integrityText entry⟩) es
    | some first =>
      if first.integrity ≠ integrityText entry then
        (js "package-lock.json: " ++ nameVersion path entry ++ js " has different integrity at " ++
          first.path ++ js " and at " ++ path ++ js ": one name and version, two sets of bytes") ::
            conflictsFrom seen es
      else conflictsFrom seen es

def snapshotConflicts (lock : Lock) : List JsString := conflictsFrom OrderedMap.empty lock.installed

/-! ## The text -/

def HEADER_LINES : List JsString := [
  js "# Transitive dependency snapshot " ++ js "(meta#103, decision 23). " ++
    js "Generated by `npm run snapshot:deps` " ++ js "from",
  js "# package-lock.json; " ++ js "scripts/check-dependencies.cjs " ++
    js "fails CI when the lockfile and " ++ js "this file differ in any way.",
  js "# One line per package: " ++ js "\"section name@version integrity\", " ++
    js "the section first so a line " ++ js "moved between sections is",
  js "# self-describing in a diff. " ++ js "runtime is what " ++
    js "`npm ci --omit=dev` installs " ++ js "and the image ships; " ++ js "dev is everything else",
  js "# (build, test, lint). " ++ js "A package that appears here is " ++
    js "a package a reviewer saw."]

def unlines (ls : List JsString) : JsString := ls.flatMap (· ++ [0x0a])

def SNAPSHOT_HEADER : JsString := unlines HEADER_LINES

/-- The lines of a section, sorted by their code units. -/
def sectionLines (snapshot : Snapshot) (sect : JsString) : List JsString :=
  ((snapshot.entries.filter fun e => (sect ++ js " ").isPrefixOf e.1).map fun e =>
    e.1 ++ js " " ++ e.2).insertionSort
    (· ≤ ·)

def renderSnapshot (snapshot : Snapshot) : JsString :=
  SNAPSHOT_HEADER ++ unlines (SNAPSHOT_SECTIONS.flatMap (sectionLines snapshot))

/-- One turn of the loop of `parseSnapshot`. -/
def parseLine (out : Snapshot) (raw : JsString) : Except JsString Snapshot :=
  let line := trim raw
  if line = [] ∨ (js "#").isPrefixOf line = true then .ok out
  else
    match splitSpaces line with
    | [sect, nameVersion, integrity] =>
      let key := sect ++ js " " ++ nameVersion
      if SNAPSHOT_SECTIONS.contains sect = false then
        .error (js "dependency-snapshot.txt: unknown section \"" ++ sect ++ js "\" in \"" ++
          line ++ js "\"")
      else if out.has key = true then
        .error (js "dependency-snapshot.txt: " ++ nameVersion ++ js " is listed twice in " ++ sect)
      else .ok (out.addNew key integrity)
    | _ => .error (js "dependency-snapshot.txt: \"" ++ line ++
      js "\" is not \"section name@version integrity\"")

def parseSnapshot (text : JsString) : Except JsString Snapshot :=
  (splitLines text).foldlM parseLine OrderedMap.empty

/-! ## The comparison -/

/-- `label` of a key: the name and version, then the section. -/
def label (key : JsString) : JsString :=
  match key.idxOf? 0x20 with
  | some space => key.drop (space + 1) ++ js " [" ++ key.take space ++ js "]"
  | none => key ++ js " [" ++ key.dropLast ++ js "]"

/-- What an entry of the lockfile's snapshot is reported for. -/
def gainedProblem (committed : Snapshot) (e : JsString × JsString) : Option JsString :=
  match committed.get? e.1 with
  | none => some (js "package-lock.json gained " ++ label e.1 ++
      js ", which is not in dependency-snapshot.txt: review it, then run \"npm run snapshot:deps\"")
  | some integrity =>
    if integrity ≠ e.2 then
      some (label e.1 ++ js (" has a different integrity in package-lock.json than in dependency-snapshot.txt" ++
        " (same version, other bytes)"))
    else none

/-- What a key of the committed snapshot is reported for. -/
def lostProblem (actual : Snapshot) (key : JsString) : Option JsString :=
  if actual.has key = true then none
  else some (js "dependency-snapshot.txt lists " ++ label key ++
    js ", which package-lock.json no longer has: run \"npm run snapshot:deps\"")

def snapshotProblems (lock : Lock) (snapshotText : JsString) : List JsString :=
  match parseSnapshot snapshotText with
  | .error message => [message]
  | .ok committed =>
    let actual := computeSnapshot lock
    actual.entries.filterMap (gainedProblem committed) ++ committed.keys.filterMap
      (lostProblem actual)

end AgentService.Dependencies
