import AgentService.Gateway.Time
import AgentService.Lib.Split
import AgentService.Scripts.DevFlags

/-!
# The dependency check (`check` of `scripts/check-dependencies.cjs`)

Four texts against each other: `package.json`, the lockfile, the allowlist of direct dependencies
and the snapshot. A problem is a sentence; the allowlist alone can make the check throw. Membership
is tested as the script tests it: `Set.has` and `Object.hasOwn` know the keys of their table, the
`in` operator and a plain index also find what every object inherits.
-/

namespace AgentService.Dependencies
open Lib

/-- The sentence, where it is true. -/
def report (p : Prop) [Decidable p] (message : JsString) : List JsString :=
  if p then [message] else []

/-- Nothing is reported where nothing is wrong. -/
@[simp] theorem report_eq_nil {p : Prop} [Decidable p] {message : JsString} :
    report p message = [] ↔ ¬ p := by
  unfold report
  split <;> simp_all

/-! ## Objects -/

/-- The names every object inherits. -/
def OBJECT_PROTOTYPE : List JsString := [
  js "constructor", js "__defineGetter__", js "__defineSetter__", js "hasOwnProperty",
    js "__lookupGetter__",
  js "__lookupSetter__", js "isPrototypeOf", js "propertyIsEnumerable", js "toString", js "valueOf",
    js "__proto__",
  js "toLocaleString"]

/-- `name in object` -/
def inObject {α : Type} (object : Record α) (name : JsString) : Bool :=
  object.has name || OBJECT_PROTOTYPE.contains name

/-! ## The sections and the allowlist -/

inductive Section where
  | dependencies
  | devDependencies
  deriving DecidableEq, Repr

namespace Section

def name : Section → JsString
  | dependencies => js "dependencies"
  | devDependencies => js "devDependencies"

/-- `pkg[section]` -/
def ofPackage (pkg : Package) : Section → Option (Record JsString)
  | dependencies => pkg.dependencies
  | devDependencies => pkg.devDependencies

/-- `lockRoot[section]` -/
def ofEntry (entry : Entry) : Section → Option (Record JsString)
  | dependencies => entry.dependencies
  | devDependencies => entry.devDependencies

end Section

def SECTIONS : List Section := [.dependencies, .devDependencies]

structure Allowlist where
  dependencies : OrderedSet JsString
  devDependencies : OrderedSet JsString

namespace Allowlist

def names (allowed : Allowlist) : Section → OrderedSet JsString
  | .dependencies => allowed.dependencies
  | .devDependencies => allowed.devDependencies

/-- `out[section].add(line)` -/
def add (allowed : Allowlist) (sect : Section) (name : JsString) : Allowlist :=
  match sect with
  | .dependencies => { allowed with dependencies := allowed.dependencies.addNew name () }
  | .devDependencies => { allowed with devDependencies := allowed.devDependencies.addNew name () }

end Allowlist

/-- `.` matches everything but these. -/
def isLineTerminator (u : UInt16) : Bool := u == 0x0a || u == 0x0d || u == 0x2028 || u == 0x2029

/-- `raw.replace(/#.*/, "")` -/
def stripComment (raw : JsString) : JsString :=
  before 0x23 raw ++ (fromFirst 0x23 raw).dropWhile fun u => !isLineTerminator u

/-- `\w` -/
def isWordUnit (u : UInt16) : Bool :=
  isDigitUnit u || (0x41 ≤ u && u ≤ 0x5a) || (0x61 ≤ u && u ≤ 0x7a) || u == 0x5f

/-- `/^\[(\w+)\]$/.exec(line)?.[1]` -/
def sectionHeader (line : JsString) : Option JsString := do
  let s ← expect 0x5b line
  if s.takeWhile isWordUnit ≠ [] ∧ s.dropWhile isWordUnit = js "]" then
    some (s.takeWhile isWordUnit)
  else none

/-- One turn of the loop of `parseAllowlist`. -/
def allowLine (state : Allowlist × Option Section) (raw : JsString) :
    Except JsString (Allowlist × Option Section) :=
  let line := trim (stripComment raw)
  if line = [] then .ok state
  else
    match sectionHeader line with
    | some name =>
      match SECTIONS.find? fun sect => sect.name = name with
      | some sect => .ok (state.1, some sect)
      | none => .error (js "allowed-dependencies.txt: unknown section [" ++ name ++ js "]")
    | none =>
      match state.2 with
      | some sect => .ok (state.1.add sect line, some sect)
      | none => .error (js "allowed-dependencies.txt: \"" ++ line ++
          js "\" is outside a [dependencies] / [devDependencies] section")

def parseAllowlist (text : JsString) : Except JsString Allowlist := do
  let (out, _) ← (splitLines text).foldlM allowLine (⟨OrderedMap.empty, OrderedMap.empty⟩, none)
  return out

/-! ## The patterns -/

def expectText (t s : JsString) : Option JsString :=
  if t.isPrefixOf s = true then some (s.drop t.length) else none

/-- `[0-9]+\.[0-9]+\.[0-9]+` at the front. -/
def versionAt (s : JsString) : Option (JsString × JsString) := do
  let (major, s) ← digitRun 1 none s
  let s ← expect 0x2e s
  let (minor, s) ← digitRun 1 none s
  let s ← expect 0x2e s
  let (patch, s) ← digitRun 1 none s
  return (major ++ js "." ++ minor ++ js "." ++ patch, s)

/-- `[~^]?` at the front. -/
def dropRange : JsString → JsString
  | [] => []
  | c :: s => if c = 0x7e ∨ c = 0x5e then s else c :: s

/-- `SEMVER_RANGE` -/
def isSemverRange (spec : JsString) : Bool :=
  match versionAt (dropRange spec) with
  | some (_, rest) => rest == []
  | none => false

/-- `/^[~^]?4\./` -/
def isMajor4 (spec : JsString) : Bool := (js "4.").isPrefixOf (dropRange spec)

def isFileUnit (u : UInt16) : Bool := isWordUnit u || u == 0x2e || u == 0x2d

/-- `/^[A-Za-z0-9._-]+\.tgz$/` -/
def isTarball (s : JsString) : Bool :=
  (js ".tgz").isSuffixOf s && 4 < s.length && (s.take (s.length - 4)).all isFileUnit

structure Release where
  name : JsString
  sect : Section
  lockPath : JsString
  /-- The repository's release downloads, up to the version. -/
  base : JsString
  describe : JsString
  notARelease : JsString

/-- `release.url.test` -/
def Release.url (release : Release) (s : JsString) : Bool :=
  match (do let (_, s) ← versionAt (← expectText release.base s); expect 0x2f s) with
  | some file => isTarball file
  | none => false

def CLERK : Release where
  name := js "@v-m-pioneer-trading/clerk-client"
  sect := .dependencies
  lockPath := js "node_modules/@v-m-pioneer-trading/clerk-client"
  base := js "https://github.com/" ++ js "V-M-Pioneer-Trading/" ++ js "clerk-client/releases" ++
    js "/download/v"
  describe := js "a clerk-client GitHub release tarball URL in dependencies"
  notARelease := js "not a clerk-client release"

def ESLINT_CONFIG : Release where
  name := js "@v-m-pioneer-trading/eslint-config"
  sect := .devDependencies
  lockPath := js "node_modules/@v-m-pioneer-trading/eslint-config"
  base := js "https://github.com/" ++ js "V-M-Pioneer-Trading/" ++ js "eslint-config/releases" ++
    js "/download/v"
  describe := js "an eslint-config GitHub release tarball URL in devDependencies"
  notARelease := js "not an eslint-config release"

def RELEASES : List Release := [CLERK, ESLINT_CONFIG]

/-- `Object.hasOwn(RELEASES, name) ? RELEASES[name] : undefined` -/
def releaseNamed (name : JsString) : Option Release :=
  RELEASES.find? fun release => release.name = name

/-- `RELEASE_BY_LOCK_PATH.get` -/
def releaseAt (path : JsString) : Option Release :=
  RELEASES.find? fun release => release.lockPath = path

/-- `\/download\/v([0-9]+\.[0-9]+\.[0-9]+)\/` at the front. -/
def downloadVersion (s : JsString) : Option JsString := do
  let (version, s) ← versionAt (← expectText (js "/download/v") s)
  let _ ← expect 0x2f s
  return version

/-- `/\/download\/v([0-9]+\.[0-9]+\.[0-9]+)\//.exec(s)?.[1]` -/
def urlVersion : JsString → Option JsString
  | [] => none
  | c :: s =>
    match downloadVersion (c :: s) with
    | some version => some version
    | none => urlVersion s

structure Alias where
  name : Option JsString
  version : Option JsString

def KNOWN_ALIASES : List (JsString × Alias) := [
  (js "node_modules/@jest/react-is-18", ⟨some (js "react-is"), some (js "18.3.1")⟩),
  (js "node_modules/@jest/react-is-19", ⟨some (js "react-is"), some (js "19.3.0")⟩),
  (js "node_modules/string-width-cjs", ⟨some (js "string-width"), some (js "4.2.3")⟩),
  (js "node_modules/strip-ansi-cjs", ⟨some (js "strip-ansi"), some (js "6.0.1")⟩),
  (js "node_modules/wrap-ansi-cjs", ⟨some (js "wrap-ansi"), some (js "7.0.0")⟩)]

/-- The `name` and `version` of what every object inherits: functions, which have a
name, and `__proto__`. -/
def inheritedAlias (name : JsString) : Alias :=
  if name = js "__proto__" then ⟨none, none⟩
  else if name = js "constructor" then ⟨some (js "Object"), none⟩
  else ⟨some name, none⟩

/-- `KNOWN_ALIASES[where]` -/
def aliasAt (path : JsString) : Option Alias :=
  match KNOWN_ALIASES.lookup path with
  | some pinned => some pinned
  | none => if OBJECT_PROTOTYPE.contains path = true then some (inheritedAlias path) else none

def REGISTRY : JsString := js "https://registry.npmjs.org/"

/-- `name.slice(name.lastIndexOf("/") + 1)` -/
def unscoped (name : JsString) : JsString :=
  match lastIndexOf 0x2f name with
  | some i => name.drop (i + 1)
  | none => name

/-- The tarball of a package's version. -/
def registryUrl (name version : JsString) : JsString :=
  REGISTRY ++ name ++ js "/-/" ++ unscoped name ++ js "-" ++ version ++ js ".tgz"

/-- `/\.\.|[%?#\\]/.test` -/
def hasTrick (url : JsString) : Bool :=
  (lastIndexOfText (js "..") url).isSome || url.any fun u =>
    u == 0x25 || u == 0x3f || u == 0x23 || u == 0x5c

def isBase64Unit (u : UInt16) : Bool :=
  isDigitUnit u || (0x41 ≤ u && u ≤ 0x5a) || (0x61 ≤ u && u ≤ 0x7a) || u == 0x2b || u == 0x2f

/-- `/^sha512-[A-Za-z0-9+/]+=*$/.test` -/
def isSha512 (integrity : JsString) : Bool :=
  match expectText (js "sha512-") integrity with
  | some s => s.takeWhile isBase64Unit != [] && (s.dropWhile isBase64Unit).all (· == 0x3d)
  | none => false

/-! ## The parts of the check -/

def PACKAGE_LOCK : JsString := js "package-lock.json: "

def versionProblems (lock : Lock) : List JsString :=
  report (lock.lockfileVersion ≠ some 3) (js "package-lock.json has lockfileVersion " ++
    shown (lock.lockfileVersion.map fun n => (toString n).toList.map fun c =>
      UInt16.ofNat c.toNat) ++ js "; only 3 is checked")

/-- What `package.json` may not have, and the `.npmrc`. -/
def packageProblems (pkg : Package) (npmrc : Bool) : List JsString :=
  let extra (name : String) (record : Option (Record JsString)) :=
    report (namesOf record ≠ []) (js "package.json has " ++ js name ++
      js "; only dependencies and devDependencies are allowed")
  let bundled (name : String) (truthy : Bool) :=
    report (truthy = true) (js "package.json has " ++ js name ++
      js "; bundled dependencies are not allowed")
  let rewriting (name : String) (present : Bool) :=
    report (present = true) (js "package.json has " ++ js name ++
      js "; a name must resolve to itself")
  extra "optionalDependencies" pkg.optionalDependencies ++
    extra "peerDependencies" pkg.peerDependencies ++ bundled "bundledDependencies"
    pkg.bundledDependencies ++ bundled "bundleDependencies" pkg.bundleDependencies ++
    rewriting "overrides" pkg.overrides ++ rewriting "resolutions" pkg.resolutions ++
    report (pkg.workspaces = true)
      (js "package.json has workspaces; a workspace is installed from a local directory, not the registry") ++
    report (npmrc = true) (js
      ".npmrc exists; it can redirect the registry or alias packages. Configure nothing there")

/-- `lock.packages?.[""] ?? {}` -/
def Lock.root (lock : Lock) : Entry := (lock.table.get? []).getD {}

/-- What a declared dependency is reported for. -/
def declaredProblems (allowed : OrderedSet JsString) (root : Record JsString) (sect : Section)
    (name spec : JsString) : List JsString :=
  report (allowed.has name = false)
    (name ++ js " is in " ++ sect.name ++ js " but not in the [" ++ sect.name ++
      js "] section of allowed-dependencies.txt") ++
  (match releaseNamed name with
    | some release =>
      report (sect ≠ release.sect ∨ release.url spec = false) (name ++ js " must be " ++
        release.describe)
    | none =>
      report (isSemverRange spec = false)
        (name ++ js ": \"" ++ spec ++
          js "\" is not a plain semver range (no npm: alias, git, file or URL spec)")) ++
  report (name = js "express" ∧ isMajor4 spec = false)
    (js "express must stay on major version 4 (clerk-client's adapter targets Express 4)") ++
  report (inObject root name = false)
    (name ++ js " is in " ++ sect.name ++ js " but not in package-lock.json's root " ++ sect.name ++
      js ": run npm install")

def sectionProblems (pkg : Package) (lock : Lock) (allowed : Allowlist) (sect : Section) :
    List JsString :=
  let declared := (sect.ofPackage pkg).getD OrderedMap.empty
  let root := (sect.ofEntry lock.root).getD OrderedMap.empty
  (declared.entries.flatMap fun e => declaredProblems (allowed.names sect) root sect e.1 e.2) ++
    ((allowed.names sect).keys.flatMap fun name => report (inObject declared name = false)
      (name ++ js " is on the [" ++ sect.name ++ js "] allowlist but is not in " ++ sect.name ++
        js " (remove it)")) ++
    root.keys.flatMap fun name => report (inObject declared name = false)
      (name ++ js " is in package-lock.json's root " ++ sect.name ++ js " but not in package.json")

/-- The name an entry is installed as, against the pinned aliases. -/
def aliasProblems (path : JsString) (entry : Entry) : List JsString :=
  match entry.name with
  | some name =>
    if name ≠ nameOfPath path then
      report ((aliasAt path).all (fun a =>
        decide (a.name ≠ some name ∨ a.version ≠ entry.version)) = true)
        (PACKAGE_LOCK ++ path ++ js " is installed as \"" ++ name ++
          js "\" under another name; only the pinned aliases are allowed")
    else pinnedVersion
  | none => pinnedVersion
where
  /-- The entry has the name of its path. -/
  pinnedVersion : List JsString :=
    match aliasAt path with
    | some a =>
      report (entry.version ≠ a.version)
        (PACKAGE_LOCK ++ path ++ js " is not the pinned alias " ++ shown a.name ++ js "@" ++
          shown a.version)
    | none => []

/-- An entry that may leave the registry, for the URL `package.json` declares. -/
def releaseProblems (pkg : Package) (path : JsString) (entry : Entry) (release : Release)
    (resolved : JsString) : List JsString :=
  let declared := (release.sect.ofPackage pkg).bind fun record => record.get? release.name
  report (declared ≠ some resolved)
    (PACKAGE_LOCK ++ path ++ js " resolves from " ++ resolved ++
      js ", not from the URL package.json declares (" ++ shown declared ++ js ")") ++
  report (release.url resolved = false ∨ entry.version ≠ urlVersion resolved)
    (PACKAGE_LOCK ++ path ++ js " is version " ++ shown entry.version ++
      js " but its release URL is " ++ (urlVersion resolved).getD release.notARelease)

def registryProblems (path : JsString) (entry : Entry) (resolved : JsString) : List JsString :=
  let installedAs := installedName path entry
  let expected := registryUrl installedAs (shown entry.version)
  if hasTrick resolved = true then
    [PACKAGE_LOCK ++ path ++ js " resolves from " ++ resolved ++
      js ", which contains \"..\", \"%\", \"?\", \"#\" or a backslash"]
  else if REGISTRY.isPrefixOf resolved = false then
    [PACKAGE_LOCK ++ path ++ js " resolves from " ++ resolved ++
      js (", which is not registry.npmjs.org" ++
        " (only the clerk-client and eslint-config entries may leave it)")]
  else
    report (resolved ≠ expected) (PACKAGE_LOCK ++ path ++ js " is \"" ++ installedAs ++
      js "\" but resolves from " ++ resolved ++ js ", not " ++ expected)

/-- What an entry of the lockfile is reported for. -/
def entryProblems (pkg : Package) (path : JsString) (entry : Entry) : List JsString :=
  aliasProblems path entry ++
    if entry.link = true then
      [PACKAGE_LOCK ++ path ++ js " is a link entry; links and workspaces are not allowed"]
    else
      match entry.resolved with
      | none => [PACKAGE_LOCK ++ path ++ js " has no resolved URL"]
      | some resolved =>
        (match releaseAt path with
          | some release => releaseProblems pkg path entry release resolved
          | none => registryProblems path entry resolved) ++
        report (isSha512 (entry.integrity.getD []) = false) (PACKAGE_LOCK ++ path ++
          js " has no sha512 integrity")

/-- The problems of the four texts; `npmrc` says that there is an `.npmrc`. -/
def check (pkg : Package) (lock : Lock) (allowlistText snapshotText : JsString) (npmrc : Bool) :
    Except JsString (List JsString) := do
  let allowed ← parseAllowlist allowlistText
  return versionProblems lock ++ packageProblems pkg npmrc ++
    SECTIONS.flatMap (sectionProblems pkg lock allowed) ++ (lock.installed.flatMap fun e =>
      entryProblems pkg e.1 e.2) ++ devFlagProblems pkg lock ++
    snapshotConflicts lock ++ snapshotProblems lock snapshotText

/-- Nothing is reported, part by part. -/
structure Passes (pkg : Package) (lock : Lock) (allowed : Allowlist) (snapshotText : JsString)
    (npmrc : Bool) : Prop where
  version : versionProblems lock = []
  package : packageProblems pkg npmrc = []
  sections : ∀ sect ∈ SECTIONS, sectionProblems pkg lock allowed sect = []
  entries : ∀ e ∈ lock.installed, entryProblems pkg e.1 e.2 = []
  devFlags : devFlagProblems pkg lock = []
  conflicts : snapshotConflicts lock = []
  snapshot : snapshotProblems lock snapshotText = []

/-- The check has no problem to report exactly where the allowlist is read and every part of it
passes. -/
theorem check_passes {pkg : Package} {lock : Lock} {allowlistText snapshotText : JsString}
    {npmrc : Bool} :
    check pkg lock allowlistText snapshotText npmrc = .ok [] ↔
      ∃ allowed, parseAllowlist allowlistText = .ok allowed ∧
        Passes pkg lock allowed snapshotText npmrc := by
  rw [check, bind_eq_ok]
  apply exists_congr
  intro allowed
  apply and_congr_right
  intro _
  have hlist (l : List JsString) :
      (pure l : Except JsString (List JsString)) = .ok [] ↔ l = [] := by
    constructor
    · exact fun h => Except.ok.inj h
    · rintro rfl
      rfl
  rw [hlist]
  simp only [List.append_eq_nil_iff, List.flatMap_eq_nil_iff]
  constructor
  · rintro ⟨⟨⟨⟨⟨⟨hversion, hpackage⟩, hsections⟩, hentries⟩, hdev⟩, hconflicts⟩, hsnapshot⟩
    exact ⟨hversion, hpackage, hsections, hentries, hdev, hconflicts, hsnapshot⟩
  · rintro ⟨hversion, hpackage, hsections, hentries, hdev, hconflicts, hsnapshot⟩
    exact ⟨⟨⟨⟨⟨⟨hversion, hpackage⟩, hsections⟩, hentries⟩, hdev⟩, hconflicts⟩, hsnapshot⟩

end AgentService.Dependencies
