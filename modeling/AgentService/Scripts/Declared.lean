import AgentService.Scripts.Check

/-!
# Direct dependencies are one set in three files

The four loops of a section compare `package.json`, the allowlist and the root of the lockfile with
each other. Every comparison is one-sided, and three of them go through the `in` operator.
-/

namespace AgentService.Dependencies
open Lib

/-- The names of a section in each of the three files. -/
def Section.declared (sect : Section) (pkg : Package) : List JsString :=
  namesOf (sect.ofPackage pkg)

def Section.allowed (sect : Section) (allowed : Allowlist) : List JsString :=
  (allowed.names sect).keys

def Section.locked (sect : Section) (lock : Lock) : List JsString :=
  namesOf (sect.ofEntry lock.root)

/-- The three files name the same. -/
def SameNames (pkg : Package) (lock : Lock) (allowed : Allowlist) : Prop :=
  ∀ (sect : Section) (name : JsString),
    (name ∈ sect.declared pkg ↔ name ∈ sect.allowed allowed) ∧
      (name ∈ sect.declared pkg ↔ name ∈ sect.locked lock)

/-- A name that is missing from the file in which `in` looks it up. -/
def Section.Missing (sect : Section) (pkg : Package) (lock : Lock) (allowed : Allowlist)
    (name : JsString) : Prop :=
  (name ∈ sect.allowed allowed ∧ name ∉ sect.declared pkg) ∨
    (name ∈ sect.locked lock ∧ name ∉ sect.declared pkg) ∨
    (name ∈ sect.declared pkg ∧ name ∉ sect.locked lock)

theorem inObject_iff {α : Type} {object : Record α} {name : JsString} :
    inObject object name = true ↔ name ∈ object.keys ∨ name ∈ OBJECT_PROTOTYPE := by
  rw [inObject, Bool.or_eq_true, OrderedMap.has_iff, List.contains_iff_mem]

theorem Section.mem_all (sect : Section) : sect ∈ SECTIONS := by
  cases sect with
  | dependencies => exact List.mem_cons_self
  | devDependencies => exact List.mem_cons_of_mem _ List.mem_cons_self

/-- What the loops of a section let through. -/
structure SectionPasses (pkg : Package) (lock : Lock) (allowed : Allowlist) (sect : Section) :
    Prop where
  declared_allowed : ∀ name ∈ sect.declared pkg, name ∈ sect.allowed allowed
  declared_locked : ∀ name ∈ sect.declared pkg, name ∈ sect.locked lock ∨ name ∈ OBJECT_PROTOTYPE
  allowed_declared : ∀ name ∈ sect.allowed allowed, name ∈ sect.declared pkg ∨
    name ∈ OBJECT_PROTOTYPE
  locked_declared : ∀ name ∈ sect.locked lock, name ∈ sect.declared pkg ∨ name ∈ OBJECT_PROTOTYPE

theorem sectionProblems_nil {pkg : Package} {lock : Lock} {allowed : Allowlist} {sect : Section}
    (h : sectionProblems pkg lock allowed sect = []) : SectionPasses pkg lock allowed sect := by
  unfold sectionProblems at h
  dsimp only at h
  simp only [List.append_eq_nil_iff, List.flatMap_eq_nil_iff, report_eq_nil, Bool.not_eq_false,
    inObject_iff] at h
  obtain ⟨⟨hdeclared, hallowed⟩, hlocked⟩ := h
  have hspec : ∀ name ∈ sect.declared pkg, name ∈ sect.allowed allowed ∧
      (name ∈ sect.locked lock ∨ name ∈ OBJECT_PROTOTYPE) := by
    intro name hname
    obtain ⟨spec, hmem⟩ := OrderedMap.mem_keys.mp hname
    have hentry := hdeclared _ hmem
    rw [declaredProblems] at hentry
    simp only [List.append_eq_nil_iff, report_eq_nil, Bool.not_eq_false, inObject_iff] at hentry
    exact ⟨OrderedMap.has_iff.mp hentry.1.1.1, hentry.2⟩
  exact ⟨fun name hname => (hspec name hname).1, fun name hname => (hspec name hname).2,
    hallowed, hlocked⟩

/-- Only a name that every object inherits can be missing unnoticed. -/
theorem SectionPasses.not_missing {pkg : Package} {lock : Lock} {allowed : Allowlist}
    {sect : Section} (h : SectionPasses pkg lock allowed sect) {name : JsString}
    (hname : name ∉ OBJECT_PROTOTYPE) : ¬ sect.Missing pkg lock allowed name := by
  rintro (⟨hin, hout⟩ | ⟨hin, hout⟩ | ⟨hin, hout⟩)
  · exact hout ((h.allowed_declared name hin).resolve_right hname)
  · exact hout ((h.locked_declared name hin).resolve_right hname)
  · exact hout ((h.declared_locked name hin).resolve_right hname)

/-- After a clean check the three files name the same direct dependencies just when none of the
names that every object inherits is missing where it is looked up. -/
theorem declared_iff {pkg : Package} {lock : Lock} {allowlistText snapshotText : JsString}
    {npmrc : Bool} (h : check pkg lock allowlistText snapshotText npmrc = .ok []) :
    ∃ allowed, parseAllowlist allowlistText = .ok allowed ∧
      (SameNames pkg lock allowed ↔
        ∀ (sect : Section), ∀ name ∈ OBJECT_PROTOTYPE, ¬ sect.Missing pkg lock allowed name) := by
  obtain ⟨allowed, hallowed, hpasses⟩ := check_passes.mp h
  refine ⟨allowed, hallowed, ?_⟩
  constructor
  · rintro hsame sect name - (⟨hin, hout⟩ | ⟨hin, hout⟩ | ⟨hin, hout⟩)
    · exact hout ((hsame sect name).1.mpr hin)
    · exact hout ((hsame sect name).2.mpr hin)
    · exact hout ((hsame sect name).2.mp hin)
  · intro hinherited sect name
    have hsect := sectionProblems_nil (hpasses.sections sect sect.mem_all)
    have hnot : ¬ sect.Missing pkg lock allowed name := by
      by_cases hname : name ∈ OBJECT_PROTOTYPE
      · exact hinherited sect name hname
      · exact hsect.not_missing hname
    simp only [Section.Missing, not_or, not_and, not_not] at hnot
    obtain ⟨hallowed, hlocked, hdeclared⟩ := hnot
    exact ⟨⟨hsect.declared_allowed name, hallowed⟩, ⟨hdeclared, hlocked⟩⟩

/-! ## A declared name, and an inherited one -/

def msRecord : Record JsString := ⟨[(js "ms", js "^2.1.3")], List.nodup_singleton _⟩

def msPackage : Package where
  dependencies := some msRecord

/-- `ms` for production, installed from the registry. -/
def msLock : Lock where
  lockfileVersion := some 3
  packages := some ⟨[([], { dependencies := some msRecord }),
    (js "node_modules/ms", { version := some (js "2.1.3"), integrity := some (js "sha512-Aa="),
                             resolved := some (registryUrl (js "ms") (js "2.1.3")) })], by
                               decide +kernel⟩

theorem declared_ms :
    check msPackage msLock (js "[dependencies]\nms # durations\n")
    (js "runtime ms@2.1.3 sha512-Aa=\n") false = .ok [] ∧
      ∃ allowed, parseAllowlist (js "[dependencies]\nms # durations\n") = .ok allowed ∧
        (SameNames msPackage msLock allowed ↔
          ∀ (sect : Section), ∀ name ∈ OBJECT_PROTOTYPE,
            ¬ sect.Missing msPackage msLock allowed name) := by
  have hcheck : check msPackage msLock (js "[dependencies]\nms # durations\n")
    (js "runtime ms@2.1.3 sha512-Aa=\n") false =
      .ok [] := by
    decide +kernel
  exact ⟨hcheck, declared_iff hcheck⟩

def bareLock : Lock where
  lockfileVersion := some 3
  packages := some ⟨[([], {})], List.nodup_singleton _⟩

/-- `constructor` stands on the allowlist alone, and the check finds it in every object. -/
theorem constructor_passes :
    check {} bareLock (js "[dependencies]\nconstructor\n") [] false = .ok [] ∧
      ∀ allowed, parseAllowlist (js "[dependencies]\nconstructor\n") = .ok allowed →
        ¬ SameNames {} bareLock allowed := by
  constructor
  · decide +kernel
  · intro allowed hallowed hsame
    have hparse : (parseAllowlist (js "[dependencies]\nconstructor\n")).map (fun a =>
      a.dependencies.keys) =
        .ok [js "constructor"] := by
      decide +kernel
    rw [hallowed] at hparse
    have hkeys : allowed.dependencies.keys = [js "constructor"] := Except.ok.inj hparse
    have hmem : js "constructor" ∈ Section.allowed .dependencies allowed := by
      rw [Section.allowed, Allowlist.names, hkeys]
      exact List.mem_cons_self
    have hdeclared := (hsame .dependencies _).1.mpr hmem
    cases hdeclared

end AgentService.Dependencies
