import AgentService.Scripts.Provenance
import AgentService.Scripts.Reachability
import AgentService.Scripts.SnapshotGate

/-!
# What a lockfile without problems installs in production

The parts of the check together: what is reachable from the dependencies of `package.json` is,
package by package, the runtime section of the committed snapshot, with the integrity npm verifies
and from an origin that is known.
-/

namespace AgentService.Dependencies
open Lib

variable {pkg : Package} {lock : Lock} {allowlistText snapshotText : JsString} {npmrc : Bool}
    {path : JsString} {entry : Entry}

/-- A release that `package.json` declares by its URL, or the registry's tarball of
the name and version. -/
inductive Origin (pkg : Package) (path : JsString) (entry : Entry) (url : JsString) : Prop
  | release {release : Release} {version : JsString} (hrelease : release ∈ RELEASES)
      (hpath : release.lockPath = path) (hversion : entry.version = some version)
      (hurl : release.IsDownload version url)
      (hdeclared : (release.sect.ofPackage pkg).bind (fun record =>
        record.get? release.name) = some url)
  | registry (hurl : url = registryUrl (installedName path entry) (shown entry.version))

/-- What production may install at a path. -/
structure IsPinned (pkg : Package) (committed : Snapshot) (path : JsString) (entry : Entry) :
    Prop where
  origin : ∃ url, entry.resolved = some url ∧ Origin pkg path entry url
  integrity : ∃ integrity, entry.integrity = some integrity ∧ IsSha512 integrity ∧
    committed.get? (js "runtime" ++ js " " ++ nameVersion path entry) = some integrity

theorem origin_of_entryProblems (h : entryProblems pkg path entry = []) :
    ∃ url, entry.resolved = some url ∧ Origin pkg path entry url := by
  obtain ⟨-, -, url, hresolved, hurl⟩ := entryProblems_nil h
  refine ⟨url, hresolved, ?_⟩
  cases hrelease : releaseAt path with
  | some release =>
    rw [hrelease] at hurl
    have hmem := List.mem_of_find?_eq_some hrelease
    have hpath := List.find?_some hrelease
    obtain ⟨version, hversion, hdeclared, hdownload⟩ := releaseProblems_nil hmem hurl
    exact .release hmem (by simpa using hpath) hversion hdownload hdeclared
  | none =>
    rw [hrelease] at hurl
    exact .registry (registryProblems_nil hurl)

theorem link_of_entryProblems (h : entryProblems pkg path entry = []) : entry.link = false := by
  rw [entryProblems, List.append_eq_nil_iff] at h
  by_contra hlink
  rw [Bool.not_eq_false] at hlink
  simp [hlink] at h

/-- The `dev` flags are right. -/
theorem dev_iff_of_devFlagProblems (hkeys : ∀ path ∈ lock.table.keys, IsLockPath path)
    (h : devFlagProblems pkg lock = []) (hmem : (path, entry) ∈ lock.table.entries)
    (hpath : path ≠ []) (hlink : entry.link = false) :
    entry.dev = true ↔ ¬ Runtime pkg lock path := by
  have hruntime {path : JsString} := @mem_reachable_iff lock.table true Asks path
    (namesOf pkg.dependencies ++ namesOf pkg.optionalDependencies)
    (fun _ _ => mem_edgeNames_true) hkeys
  have hmandatory {path : JsString} := @mem_reachable_iff lock.table false Needs path
      (namesOf pkg.dependencies)
    (fun _ _ => mem_edgeNames_false) hkeys
  have hentry := List.flatMap_eq_nil_iff.mp h (path, entry) hmem
  rw [devFlagEntry_eq_nil (fun hneeded => ?_) hpath hlink, hruntime] at hentry
  · exact hentry.1
  · exact hruntime.mpr (reachable_of_needs (fun _ => List.mem_append_left _)
      (hmandatory.mp hneeded))

theorem runtime_entry (h : Runtime pkg lock path) : ∃ entry, (path, entry) ∈ lock.installed := by
  have hkey : path ∈ lock.table.keys := by
    rcases h.root_or_step with ⟨name, -, -, -, -, hkey, -⟩ |
      ⟨-, -, chain, -, name, -, -, -, -, -, -, -, hkey, -⟩
    · exact hkey
    · exact hkey
  obtain ⟨entry, hmem⟩ := OrderedMap.mem_keys.mp hkey
  exact ⟨entry, List.mem_filter.mpr ⟨hmem, by simpa using reachable_ne_nil h⟩⟩

theorem sectionOfEntry_runtime : sectionOfEntry entry = js "runtime" ↔ entry.dev = false := by
  unfold sectionOfEntry
  cases entry.dev with
  | true => exact iff_of_false (by decide) nofun
  | false => exact iff_of_true rfl rfl

/-- With no problem reported, every package production can come to is in the runtime section of the
committed snapshot, with its integrity and an origin that is known, and the section has no other. -/
theorem production_is_pinned (hkeys : ∀ path ∈ lock.table.keys, IsLockPath path)
    (h : check pkg lock allowlistText snapshotText npmrc = .ok []) :
    ∃ committed, parseSnapshot snapshotText = .ok committed ∧
      (∀ path, Runtime pkg lock path → ∃ entry, (path, entry) ∈ lock.table.entries ∧
        IsPinned pkg committed path entry) ∧
      ∀ nameAtVersion integrity, committed.get? (js "runtime" ++ js " " ++ nameAtVersion) =
        some integrity →
        ∃ path entry, Runtime pkg lock path ∧ (path, entry) ∈ lock.table.entries ∧
          nameVersion path entry = nameAtVersion ∧
          entry.integrity = some integrity := by
  obtain ⟨allowed, -, hpasses⟩ := check_passes.mp h
  have hone := snapshotConflicts_eq_nil.mp hpasses.conflicts
  have hsnapshot := hpasses.snapshot
  cases hparse : parseSnapshot snapshotText with
  | error message => simp [snapshotProblems, hparse] at hsnapshot
  | ok committed =>
    rw [snapshotProblems_eq_nil hparse] at hsnapshot
    have hpin (e : JsString × Entry) (he : e ∈ lock.installed) : pin e ∈ committed.entries :=
      (hsnapshot _).mp ((mem_computeSnapshot hone).mpr ⟨e, he, rfl⟩)
    refine ⟨committed, rfl, fun path hruntime => ?_, fun nameAtVersion integrity hget => ?_⟩
    · obtain ⟨entry, hinstalled⟩ := runtime_entry hruntime
      have hmem := (List.mem_filter.mp hinstalled).1
      have hentry := hpasses.entries _ hinstalled
      obtain ⟨-, ⟨integrity, hintegrity, hsha⟩, -⟩ := entryProblems_nil hentry
      have hdev := dev_iff_of_devFlagProblems hkeys hpasses.devFlags hmem
        (reachable_ne_nil hruntime) (link_of_entryProblems hentry)
      have hsect : sectionOfEntry entry = js "runtime" := by
        rw [sectionOfEntry_runtime, ← Bool.not_eq_true, hdev, not_not]
        exact hruntime
      refine ⟨entry, hmem, origin_of_entryProblems hentry, integrity, hintegrity, hsha, ?_⟩
      have hcommitted := hpin _ hinstalled
      rw [pin, snapshotKey, hsect, integrityText, hintegrity, Option.getD_some] at hcommitted
      exact OrderedMap.get?_eq_some.mpr hcommitted
    · obtain ⟨⟨path, entry⟩, he, hkey⟩ :=
        pin_of_mem_computeSnapshot ((hsnapshot _).mpr (OrderedMap.get?_eq_some.mp hget))
      obtain ⟨hkey, hint⟩ := Prod.ext_iff.mp hkey
      obtain ⟨hsect, hname⟩ :=
        sectionKey_inj (isWord_of_mem_sections (sectionOfEntry_mem entry)) (by decide) hkey
      obtain ⟨hmem, hpath⟩ := List.mem_filter.mp he
      have hentry := hpasses.entries _ he
      obtain ⟨-, ⟨integrity', hintegrity, -⟩, -⟩ := entryProblems_nil hentry
      have hdev := dev_iff_of_devFlagProblems hkeys hpasses.devFlags hmem (by simpa using hpath)
        (link_of_entryProblems hentry)
      refine ⟨path, entry, ?_, hmem, hname, ?_⟩
      · rw [sectionOfEntry_runtime, ← Bool.not_eq_true, hdev, not_not] at hsect
        exact hsect
      · rw [pin, integrityText, hintegrity, Option.getD_some] at hint
        exact hintegrity.trans (congrArg some hint)

theorem aliasLock_keys : ∀ path ∈ (aliasLock pinnedEntry).table.keys, IsLockPath path := by
  have hone {name : JsString} (hname : ¬ NODE_MODULES <:+: name) : IsLockPath (pathOf [name]) :=
    ⟨[name], by simpa using hname, rfl⟩
  have hkeys : (aliasLock pinnedEntry).table.keys =
    [[], pathOf [CLERK.name], pathOf [js "string-width-cjs"], pathOf [js "ms"]] := by decide +kernel
  rw [hkeys]
  simp only [List.forall_mem_cons]
  exact ⟨⟨[], by simp, rfl⟩, hone (by decide +kernel), hone (by decide +kernel),
    hone (by decide +kernel), nofun⟩

/-- The clerk client's release among development packages. -/
theorem production_is_pinned_clerk :
    ∃ committed integrity, parseSnapshot (aliasSnapshot "string-width") = .ok committed ∧
      IsSha512 integrity ∧
      committed.get? (js "runtime" ++ js " " ++ CLERK.name ++ js "@1.2.3") = some integrity := by
  obtain ⟨committed, hparse, hpinned, -⟩ := production_is_pinned aliasLock_keys
    (show check clerkPackage (aliasLock pinnedEntry) clerkAllowlist (aliasSnapshot "string-width")
      false = .ok [] by decide +kernel)
  have hclerk : Nearest (aliasLock pinnedEntry).table [] CLERK.name CLERK.lockPath :=
    ⟨[], List.prefix_rfl, by decide +kernel, by decide +kernel, fun nearer hpre hlt =>
      absurd hpre.length_le (Nat.not_le_of_lt hlt)⟩
  have hruntime : Runtime clerkPackage (aliasLock pinnedEntry) CLERK.lockPath :=
    .root ⟨CLERK.name, List.mem_append_left _ (List.mem_singleton_self _), hclerk⟩
  obtain ⟨entry, hmem, hentry⟩ := hpinned _ hruntime
  have hsame : entry = clerkEntry :=
    OrderedMap.value_unique hmem (List.mem_cons_of_mem _ List.mem_cons_self)
  obtain ⟨integrity, -, hsha, hget⟩ := hentry.integrity
  refine ⟨committed, integrity, hparse, hsha, ?_⟩
  rw [hsame] at hget
  have hname : nameVersion CLERK.lockPath clerkEntry = CLERK.name ++ js "@1.2.3" := by
    decide +kernel
  rwa [hname, ← List.append_assoc] at hget

end AgentService.Dependencies
