import AgentService.Gateway.TimeText
import AgentService.Scripts.Check

/-!
# Where the lockfile's entries come from

A checked entry carries a sha512 integrity and one URL: the declared one at the two release paths, a
tarball of the registry anywhere else. Which tarball is told by the entry's name and version as far
as it says them.
-/

namespace AgentService.Dependencies
open Lib

/-! ## The patterns, as what they match -/

/-- A run of digits, of which there is one. -/
def IsNumber (s : JsString) : Prop := s.all isDigitUnit = true ∧ s ≠ []

/-- Three numbers with dots between them. -/
def IsVersion (v : JsString) : Prop :=
  ∃ major minor patch, IsNumber major ∧ IsNumber minor ∧ IsNumber patch ∧
    v = major ++ js "." ++ minor ++ js "." ++ patch

/-- `sha512-` and a base 64 text. -/
def IsSha512 (integrity : JsString) : Prop :=
  ∃ text pad, text ≠ [] ∧ text.all isBase64Unit = true ∧
    integrity = js "sha512-" ++ text ++ List.replicate pad 0x3d

/-- A tarball among the downloads of a version's release. -/
def Release.IsDownload (release : Release) (version url : JsString) : Prop :=
  IsVersion version ∧ ∃ file, file ≠ [] ∧ file.all isFileUnit = true ∧
    url = release.base ++ version ++ js "/" ++ file ++ js ".tgz"

theorem expectText_ok {t s r : JsString} (h : expectText t s = some r) : s = t ++ r := by
  rw [expectText] at h
  split at h
  · rename_i hpre
    obtain ⟨rest, rfl⟩ := List.isPrefixOf_iff_prefix.mp hpre
    rw [List.drop_left] at h
    rw [Option.some.inj h]
  · cases h

theorem expectText_append (t s : JsString) : expectText t (t ++ s) = some s := by
  rw [expectText, if_pos (List.isPrefixOf_iff_prefix.mpr (List.prefix_append t s)), List.drop_left]

theorem digitRun_number {s g r : JsString} (h : digitRun 1 none s = some (g, r)) :
    s = g ++ r ∧ IsNumber g := by
  obtain ⟨happ, hall, hlen, -⟩ := digitRun_ok h
  exact ⟨happ, hall, List.ne_nil_of_length_pos hlen⟩

theorem versionAt_ok {s v r : JsString} (h : versionAt s = some (v, r)) :
    s = v ++ r ∧ IsVersion v := by
  simp only [versionAt, Option.bind_eq_bind, Option.bind_eq_some_iff, Prod.exists, Option.pure_def,
    Option.some.injEq, Prod.mk.injEq] at h
  obtain ⟨major, s₁, hmajor, s₂, hdot, minor, s₃, hminor, s₄, hdot', patch, s₅, hpatch, rfl, rfl⟩ :=
    h
  obtain ⟨rfl, hmajor'⟩ := digitRun_number hmajor
  obtain ⟨rfl, hminor'⟩ := digitRun_number hminor
  obtain ⟨rfl, hpatch'⟩ := digitRun_number hpatch
  obtain rfl := expect_ok hdot
  obtain rfl := expect_ok hdot'
  refine ⟨?_, major, minor, patch, hmajor', hminor', hpatch', rfl⟩
  simp [js]

theorem isSha512_ok {integrity : JsString} (h : isSha512 integrity = true) :
    IsSha512 integrity := by
  rw [isSha512] at h
  split at h
  · rename_i s hs
    rw [Bool.and_eq_true, bne_iff_ne] at h
    obtain ⟨hne, hpad⟩ := h
    have hrep : s.dropWhile isBase64Unit =
        List.replicate (s.dropWhile isBase64Unit).length 0x3d := by
      rw [List.eq_replicate_iff]
      refine ⟨rfl, ?_⟩
      intro u hu
      simpa using List.all_eq_true.mp hpad u hu
    refine ⟨s.takeWhile isBase64Unit, (s.dropWhile isBase64Unit).length, hne,
      List.all_takeWhile, ?_⟩
    rw [expectText_ok hs, List.append_assoc, ← hrep, List.takeWhile_append_dropWhile]
  · cases h

theorem isTarball_ok {s : JsString} (h : isTarball s = true) :
    ∃ file, file ≠ [] ∧ file.all isFileUnit = true ∧ s = file ++ js ".tgz" := by
  simp only [isTarball, Bool.and_eq_true, decide_eq_true_eq, List.isSuffixOf_iff_suffix] at h
  obtain ⟨⟨⟨file, rfl⟩, hlen⟩, hall⟩ := h
  have hlength : (js ".tgz").length = 4 := rfl
  rw [List.length_append, hlength] at hlen hall
  rw [Nat.add_sub_cancel, List.take_left] at hall
  exact ⟨file, List.ne_nil_of_length_pos (by omega), hall, rfl⟩

theorem Release.url_ok {release : Release} {s : JsString} (h : release.url s = true) :
    ∃ version, release.IsDownload version s ∧ ∃ rest,
      s = release.base ++ (version ++ 0x2f :: rest) ∧
      versionAt (version ++ 0x2f :: rest) = some (version, 0x2f :: rest) := by
  rw [Release.url] at h
  split at h
  · rename_i file hfile
    simp only [Option.bind_eq_bind, Option.bind_eq_some_iff, Prod.exists] at hfile
    obtain ⟨s₁, hbase, version, s₂, hversion, hslash⟩ := hfile
    obtain rfl := expectText_ok hbase
    have hread := hversion
    obtain ⟨rfl, hv⟩ := versionAt_ok hversion
    obtain rfl := expect_ok hslash
    obtain ⟨name, hne, hall, rfl⟩ := isTarball_ok h
    refine ⟨version, ⟨hv, name, hne, hall, ?_⟩, _, rfl, hread⟩
    simp [js]
  · cases h

/-! ## The version in a release URL -/

/-- The text is nowhere in front of itself behind `pre`, but at the end. -/
def noneBefore (text pre : JsString) : Bool :=
  pre.tails.all fun t => t == [] || !text.isPrefixOf (t ++ text)

theorem urlVersion_skip {pre s version : JsString}
    (hnone : noneBefore (js "/download/v") pre = true)
    (h : downloadVersion (js "/download/v" ++ s) = some version) :
    urlVersion (pre ++ (js "/download/v" ++ s)) = some version := by
  induction pre with
  | nil =>
    have hcons : js "/download/v" ++ s = 0x2f :: (js "download/v" ++ s) := rfl
    rw [List.nil_append]
    rw [hcons] at h ⊢
    rw [urlVersion, h]
  | cons c pre ih =>
    rw [noneBefore, List.tails_cons, List.all_cons, Bool.and_eq_true] at hnone
    have hnot : downloadVersion (c :: (pre ++ (js "/download/v" ++ s))) = none := by
      have hpre : ¬ js "/download/v" <+: c :: (pre ++ (js "/download/v" ++ s)) := by
        intro hp
        have hcut : js "/download/v" <+: c :: (pre ++ js "/download/v") := by
          apply List.prefix_of_prefix_length_le hp
          · exact ⟨s, by simp⟩
          · rw [List.length_cons, List.length_append]
            omega
        have hhead := hnone.1
        simp [List.isPrefixOf_iff_prefix.mpr hcut] at hhead
      rw [downloadVersion, expectText, if_neg fun hp => hpre (List.isPrefixOf_iff_prefix.mp hp)]
      rfl
    rw [List.cons_append, urlVersion, hnot]
    exact ih hnone.2

theorem urlVersion_of_url {release : Release} (hmem : release ∈ RELEASES) {s : JsString}
    (h : release.url s = true) :
    ∃ version, urlVersion s = some version ∧ release.IsDownload version s := by
  obtain ⟨version, hdownload, rest, hs, hread⟩ := Release.url_ok h
  refine ⟨version, ?_, hdownload⟩
  have hdown : downloadVersion (js "/download/v" ++ (version ++ 0x2f :: rest)) = some version := by
    rw [downloadVersion, expectText_append]
    simp only [Option.bind_eq_bind, Option.bind_some, hread, expect_cons]
    rfl
  have hbase : ∃ pre, release.base = pre ++ js "/download/v" ∧
      noneBefore (js "/download/v") pre = true := by
    rcases List.mem_pair.mp hmem with rfl | rfl
    · exact ⟨js "https://github.com/" ++ js "V-M-Pioneer-Trading/" ++ js "clerk-client/releases",
        rfl, by decide +kernel⟩
    · exact ⟨js "https://github.com/" ++ js "V-M-Pioneer-Trading/" ++ js "eslint-config/releases",
        rfl, by decide +kernel⟩
  obtain ⟨pre, hpre, hnone⟩ := hbase
  rw [hs, hpre, List.append_assoc]
  exact urlVersion_skip hnone hdown

/-! ## The entries of a checked lockfile -/

/-- The alias pinned at a lock path. -/
def pinnedAlias (path : JsString) : Option Alias := KNOWN_ALIASES.lookup path

/-- Where an entry may be fetched from: at a pinned path the pinned package, at a release path the
URL that is declared, anywhere else the package of the path. -/
def Fetched (pkg : Package) (path : JsString) (entry : Entry) : Prop :=
  match pinnedAlias path with
  | some a => entry.resolved = some (registryUrl (shown a.name) (shown a.version))
  | none =>
    match releaseAt path with
    | some release => ∃ url version, entry.resolved = some url ∧ entry.version = some version ∧
        (release.sect.ofPackage pkg).bind (fun record => record.get? release.name) = some url ∧
        release.IsDownload version url
    | none => ∃ version, entry.version = some version ∧
        entry.resolved = some (registryUrl (nameOfPath path) version)

/-- A sha512 integrity and one of the three origins. -/
def Provenance (pkg : Package) (path : JsString) (entry : Entry) : Prop :=
  (∃ integrity, entry.integrity = some integrity ∧ IsSha512 integrity) ∧ Fetched pkg path entry

/-- The entry says what the URL is made of: at a pinned path another name than the path's, at any
other path but a release's a version. -/
def SaysWhat (path : JsString) (entry : Entry) : Prop :=
  match pinnedAlias path with
  | some _ => ∃ name, entry.name = some name ∧ name ≠ nameOfPath path
  | none => releaseAt path = none → entry.version ≠ none

theorem aliasAt_pinned {path : JsString} {a : Alias} (h : pinnedAlias path = some a) :
    aliasAt path = some a := by
  rw [aliasAt, show KNOWN_ALIASES.lookup path = some a from h]

/-- What an entry without problems is. -/
theorem entryProblems_nil {pkg : Package} {path : JsString} {entry : Entry}
    (h : entryProblems pkg path entry = []) :
    aliasProblems path entry = [] ∧ (∃ integrity, entry.integrity = some integrity ∧
        IsSha512 integrity) ∧
      ∃ resolved, entry.resolved = some resolved ∧
        match releaseAt path with
        | some release => releaseProblems pkg path entry release resolved = []
        | none => registryProblems path entry resolved = [] := by
  rw [entryProblems, List.append_eq_nil_iff] at h
  obtain ⟨halias, h⟩ := h
  refine ⟨halias, ?_⟩
  split at h
  · cases h
  · split at h
    · cases h
    · rename_i resolved hresolved
      rw [List.append_eq_nil_iff, report_eq_nil, Bool.not_eq_false] at h
      obtain ⟨hurl, hsha⟩ := h
      constructor
      · cases hint : entry.integrity with
        | none =>
          rw [hint] at hsha
          cases hsha
        | some integrity =>
          rw [hint] at hsha
          exact ⟨integrity, rfl, isSha512_ok hsha⟩
      · refine ⟨resolved, hresolved, ?_⟩
        split
        · rename_i release hrelease
          rw [hrelease] at hurl
          exact hurl
        · rename_i hrelease
          rw [hrelease] at hurl
          exact hurl

theorem registryProblems_nil {path : JsString} {entry : Entry} {resolved : JsString}
    (h : registryProblems path entry resolved = []) :
    resolved = registryUrl (installedName path entry) (shown entry.version) := by
  unfold registryProblems at h
  dsimp only at h
  split at h
  · cases h
  · split at h
    · cases h
    · exact not_not.mp (report_eq_nil.mp h)

/-- A release entry is what `package.json` declares, and says the version of its URL. -/
theorem releaseProblems_nil {pkg : Package} {path : JsString} {entry : Entry} {release : Release}
    {resolved : JsString} (hmem : release ∈ RELEASES)
    (h : releaseProblems pkg path entry release resolved = []) :
    ∃ version, entry.version = some version ∧
      (release.sect.ofPackage pkg).bind (fun record => record.get? release.name) = some resolved ∧
      release.IsDownload version resolved := by
  unfold releaseProblems at h
  dsimp only at h
  rw [List.append_eq_nil_iff, report_eq_nil, report_eq_nil, not_not, not_or, not_not,
    Bool.not_eq_false] at h
  obtain ⟨hdeclared, hurl, hversion⟩ := h
  obtain ⟨version, hurlVersion, hdownload⟩ := urlVersion_of_url hmem hurl
  exact ⟨version, hversion.trans hurlVersion, hdeclared, hdownload⟩

/-- An entry with another name than its path's is the alias of that path. -/
theorem aliasProblems_renamed {path : JsString} {entry : Entry} {name : JsString}
    (hname : entry.name = some name) (hne : name ≠ nameOfPath path)
    (h : aliasProblems path entry = []) :
    ∃ a, aliasAt path = some a ∧ a.name = some name ∧ a.version = entry.version := by
  rw [aliasProblems, hname] at h
  dsimp only at h
  rw [if_pos hne, report_eq_nil] at h
  cases ha : aliasAt path with
  | none =>
    rw [ha] at h
    exact absurd rfl h
  | some a =>
    rw [ha] at h
    simp only [Option.all_some, decide_eq_true_eq, not_or, not_not] at h
    exact ⟨a, rfl, h.1, h.2⟩

/-- An entry with the name of its path, said or left out, has at least the alias' version. -/
theorem aliasProblems_own {path : JsString} {entry : Entry}
    (hname : ∀ name, entry.name = some name → name = nameOfPath path)
    (h : aliasProblems path entry = []) :
    ∀ a, aliasAt path = some a → entry.version = a.version := by
  have hpinned : aliasProblems.pinnedVersion path entry = [] := by
    rw [aliasProblems] at h
    split at h
    · rename_i name hsome
      rwa [if_neg (not_not.mpr (hname name hsome))] at h
    · exact h
  intro a ha
  rw [aliasProblems.pinnedVersion, ha] at hpinned
  exact not_not.mp (report_eq_nil.mp hpinned)

/-- A pinned path is no release path, and its own name has another tarball than the alias. -/
theorem pinnedAlias_facts {path : JsString} {a : Alias} (h : pinnedAlias path = some a) :
    releaseAt path = none ∧
      registryUrl (nameOfPath path) (shown a.version) ≠ registryUrl (shown a.name)
      (shown a.version) := by
  have hall : KNOWN_ALIASES.all (fun e => (releaseAt e.1).isNone &&
      registryUrl (nameOfPath e.1) (shown e.2.version) != registryUrl (shown e.2.name)
      (shown e.2.version)) = true := by
    decide +kernel
  obtain ⟨pre, post, hsplit, -⟩ := List.lookup_eq_some_iff.mp h
  have hmem : (path, a) ∈ KNOWN_ALIASES := by
    rw [hsplit]
    exact List.mem_append_right pre List.mem_cons_self
  have hfacts := Bool.and_eq_true_iff.mp (List.all_eq_true.mp hall _ hmem)
  exact ⟨Option.isNone_iff_eq_none.mp hfacts.1, bne_iff_ne.mp hfacts.2⟩

/-- What every object inherits has no version. -/
theorem aliasAt_inherited {path : JsString} {a : Alias} (hpinned : pinnedAlias path = none)
    (h : aliasAt path = some a) : a.version = none := by
  rw [aliasAt, show KNOWN_ALIASES.lookup path = none from hpinned] at h
  dsimp only at h
  split at h
  · cases h
    unfold inheritedAlias
    split
    · rfl
    · split <;> rfl
  · cases h

theorem installedName_own {path : JsString} {entry : Entry} (h : ∀ name, entry.name = some name →
    name = nameOfPath path) :
    installedName path entry = nameOfPath path := by
  rw [installedName]
  cases hname : entry.name with
  | none => rfl
  | some name => exact h name hname

/-- An entry without problems comes from where it may just when it says what its URL is made of. -/
theorem fetched_iff {pkg : Package} {path : JsString} {entry : Entry}
    (h : entryProblems pkg path entry = []) : Fetched pkg path entry ↔ SaysWhat path entry := by
  obtain ⟨halias, -, resolved, hresolved, hurl⟩ := entryProblems_nil h
  unfold Fetched SaysWhat
  by_cases hown : ∀ name, entry.name = some name → name = nameOfPath path
  · have hversion := aliasProblems_own hown halias
    have hname := installedName_own hown
    cases hpinned : pinnedAlias path with
    | some a =>
      obtain ⟨hrelease, hother⟩ := pinnedAlias_facts hpinned
      rw [hrelease] at hurl
      have hregistry := registryProblems_nil hurl
      rw [hname, hversion a (aliasAt_pinned hpinned)] at hregistry
      -- the tarball is the one of the path's own name
      apply iff_of_false
      · rw [hresolved, hregistry]
        exact fun heq => hother (Option.some.inj heq)
      · rintro ⟨name, hsome, hne⟩
        exact hne (hown name hsome)
    | none =>
      cases hrelease : releaseAt path with
      | some release =>
        rw [hrelease] at hurl
        obtain ⟨version, hstated, hdeclared, hdownload⟩ :=
          releaseProblems_nil (List.mem_of_find?_eq_some hrelease) hurl
        exact iff_of_true ⟨resolved, version, hresolved, hstated, hdeclared, hdownload⟩ nofun
      | none =>
        rw [hrelease] at hurl
        have hregistry := registryProblems_nil hurl
        rw [hname] at hregistry
        cases hstated : entry.version with
        | none =>
          apply iff_of_false
          · rintro ⟨version, hv, -⟩
            cases hv
          · exact fun hsome => hsome rfl rfl
        | some version =>
          rw [hstated] at hregistry
          exact iff_of_true ⟨version, rfl, hresolved.trans (congrArg some hregistry)⟩ fun _ =>
            Option.some_ne_none version
  · obtain ⟨name, hrenamed⟩ := not_forall.mp hown
    obtain ⟨hsome, hne⟩ := Classical.not_imp.mp hrenamed
    obtain ⟨a, hat, haname, haversion⟩ := aliasProblems_renamed hsome hne halias
    cases hpinned : pinnedAlias path with
    | some b =>
      have hab : b = a := Option.some.inj ((aliasAt_pinned hpinned).symm.trans hat)
      obtain ⟨hrelease, -⟩ := pinnedAlias_facts hpinned
      rw [hrelease] at hurl
      have hregistry := registryProblems_nil hurl
      have hinstalled : installedName path entry = name := by
        rw [installedName, hsome, Option.getD_some]
      rw [hinstalled, ← haversion] at hregistry
      apply iff_of_true
      · dsimp only
        rw [hab, haname, hresolved, hregistry]
        rfl
      · exact ⟨name, hsome, hne⟩
    | none =>
      have hnone : entry.version = none := haversion.symm.trans (aliasAt_inherited hpinned hat)
      cases hrelease : releaseAt path with
      | some release =>
        rw [hrelease] at hurl
        obtain ⟨version, hstated, -⟩ :=
          releaseProblems_nil (List.mem_of_find?_eq_some hrelease) hurl
        rw [hnone] at hstated
        cases hstated
      | none =>
        rw [hnone]
        apply iff_of_false
        · rintro ⟨version, hv, -⟩
          cases hv
        · exact fun hv => hv rfl rfl

/-- A checked lockfile has its provenance just when its entries say what their URLs are made of. -/
theorem provenance_iff {pkg : Package} {lock : Lock} {allowlistText snapshotText : JsString}
    {npmrc : Bool} (h : check pkg lock allowlistText snapshotText npmrc = .ok []) :
    (∀ e ∈ lock.installed, Provenance pkg e.1 e.2) ↔ ∀ e ∈ lock.installed, SaysWhat e.1 e.2 := by
  obtain ⟨allowed, -, hpasses⟩ := check_passes.mp h
  apply forall_congr'
  intro e
  apply forall_congr'
  intro he
  have hentry := hpasses.entries e he
  rw [← fetched_iff hentry]
  constructor
  · exact And.right
  · intro hfetched
    exact ⟨(entryProblems_nil hentry).2.1, hfetched⟩

/-! ## A lockfile with an alias -/

def clerkEntry : Entry where
  version := some (js "1.2.3")
  resolved := some (CLERK.base ++ js "1.2.3/clerk.tgz")
  integrity := some (js "sha512-Cc==")

def msEntry : Entry where
  version := some (js "2.1.3")
  resolved := some (registryUrl (js "ms") (js "2.1.3"))
  integrity := some (js "sha512-Aa=")
  dev := true

theorem aliasPaths_nodup :
    [[], CLERK.lockPath, js "node_modules/string-width-cjs", js "node_modules/ms"].Nodup := by
  decide +kernel

def clerkRecord : Record JsString :=
  ⟨[(CLERK.name, CLERK.base ++ js "1.2.3/clerk.tgz")], List.nodup_singleton _⟩

/-- The clerk client's release, an entry at the path of an alias, and a package of its own name. -/
def aliasLock (entry : Entry) : Lock where
  lockfileVersion := some 3
  packages := some ⟨[([], { dependencies := some clerkRecord }), (CLERK.lockPath, clerkEntry),
    (js "node_modules/string-width-cjs", entry), (js "node_modules/ms", msEntry)], aliasPaths_nodup⟩

def clerkPackage : Package where
  dependencies := some clerkRecord

def clerkAllowlist : JsString := js "[dependencies]\n" ++ CLERK.name ++ js " # guard\n"

def aliasSnapshot (name : String) : JsString :=
  js "runtime " ++ CLERK.name ++ js "@1.2.3 sha512-Cc==\n" ++ js "dev ms@2.1.3 sha512-Aa=\n" ++
    js "dev " ++ js name ++ js "@4.2.3 sha512-Bb==\n"

/-- The alias as npm writes it. -/
def pinnedEntry : Entry where
  name := some (js "string-width")
  version := some (js "4.2.3")
  resolved := some (registryUrl (js "string-width") (js "4.2.3"))
  integrity := some (js "sha512-Bb==")
  dev := true

/-- The package that is itself called `string-width-cjs`, at the lock path of the alias. -/
def squattedEntry : Entry where
  version := some (js "4.2.3")
  resolved := some (registryUrl (js "string-width-cjs") (js "4.2.3"))
  integrity := some (js "sha512-Bb==")
  dev := true

theorem provenance_pinned :
    check clerkPackage (aliasLock pinnedEntry) clerkAllowlist (aliasSnapshot "string-width") false =
      .ok [] ∧
      ((∀ e ∈ (aliasLock pinnedEntry).installed, Provenance clerkPackage e.1 e.2) ↔
        ∀ e ∈ (aliasLock pinnedEntry).installed, SaysWhat e.1 e.2) := by
  have hcheck : check clerkPackage (aliasLock pinnedEntry) clerkAllowlist
      (aliasSnapshot "string-width") false = .ok [] := by
    decide +kernel
  exact ⟨hcheck, provenance_iff hcheck⟩

/-- Without its `name`, the entry at the alias' path passes as another package. -/
theorem provenance_squatted :
    check clerkPackage (aliasLock squattedEntry) clerkAllowlist (aliasSnapshot "string-width-cjs")
    false = .ok [] ∧
      ¬ ∀ e ∈ (aliasLock squattedEntry).installed, Provenance clerkPackage e.1 e.2 := by
  constructor
  · decide +kernel
  · intro hall
    have hmem : (js "node_modules/string-width-cjs", squattedEntry) ∈
        (aliasLock squattedEntry).installed := by
      apply List.mem_filter.mpr
      exact ⟨by simp [Lock.table, aliasLock], by decide⟩
    obtain ⟨-, hfetched⟩ := hall _ hmem
    have hpinned : pinnedAlias (js "node_modules/string-width-cjs") =
        some ⟨some (js "string-width"), some (js "4.2.3")⟩ := by
      rfl
    rw [Fetched, hpinned] at hfetched
    have hname := Option.some.inj hfetched
    revert hname
    decide +kernel

end AgentService.Dependencies
