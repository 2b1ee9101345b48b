import AgentService.Db.Pool

/-!
# What becomes of every object that `getConnection` hands out

Each of them belongs to one operation and is in one of four states, which its events in the log
spell out: returned by `take`, asked, given back, or destroyed because its connection was too old.
In the two that are still open its operation holds it. A step takes one object to its next state,
or none, and leaves all others as they are.
-/

namespace AgentService
open Lib

variable {ι κ : Type}

/-! ## Reading the log -/

/-- The object that an event is about. -/
def PoolEvent.handle : PoolEvent ι κ → Option (PoolConnection κ)
  | .handed _ h _ => some h
  | .destroyed _ h => some h
  | .asked _ h _ => some h
  | .released _ h => some h
  | _ => none

/-- The operation that an event is of. -/
def PoolEvent.operation : PoolEvent ι κ → Option ι
  | .handed i _ _ => some i
  | .destroyed i _ => some i
  | .asked i _ _ => some i
  | .released i _ => some i
  | .settled i _ => some i
  | _ => none

def PoolEvent.isSettled : PoolEvent ι κ → Bool
  | .settled _ _ => true
  | _ => false

/-- All that happened to an object, in order. -/
def onHandle [DecidableEq κ] (h : PoolConnection κ) (log : List (PoolEvent ι κ)) :
    List (PoolEvent ι κ) :=
  log.filter fun e => e.handle = some h

/-- All that an operation did, in order. -/
def byOperation [DecidableEq ι] (i : ι) (log : List (PoolEvent ι κ)) : List (PoolEvent ι κ) :=
  log.filter fun e => e.operation = some i

@[simp] theorem onHandle_nil [DecidableEq κ] (h : PoolConnection κ) :
    onHandle h ([] : List (PoolEvent ι κ)) = [] := rfl

@[simp] theorem byOperation_nil [DecidableEq ι] (i : ι) :
    byOperation i ([] : List (PoolEvent ι κ)) = [] := rfl

@[simp] theorem onHandle_cons [DecidableEq κ] (h : PoolConnection κ) (e : PoolEvent ι κ)
    (es : List (PoolEvent ι κ)) :
    onHandle h (e :: es) = if e.handle = some h then e :: onHandle h es else onHandle h es := by
  simp [onHandle, List.filter_cons]

@[simp] theorem byOperation_cons [DecidableEq ι] (i : ι) (e : PoolEvent ι κ)
    (es : List (PoolEvent ι κ)) :
    byOperation i (e :: es) = if e.operation = some i then e :: byOperation i es
      else byOperation i es := by
  simp [byOperation, List.filter_cons]

@[simp] theorem onHandle_append [DecidableEq κ] (h : PoolConnection κ)
    (log es : List (PoolEvent ι κ)) :
    onHandle h (log ++ es) = onHandle h log ++ onHandle h es := List.filter_append _ _

@[simp] theorem byOperation_append [DecidableEq ι] (i : ι) (log es : List (PoolEvent ι κ)) :
    byOperation i (log ++ es) = byOperation i log ++ byOperation i es := List.filter_append _ _

theorem mem_onHandle [DecidableEq κ] {h : PoolConnection κ} {log : List (PoolEvent ι κ)}
    {e : PoolEvent ι κ} : e ∈ onHandle h log ↔ e ∈ log ∧ e.handle = some h := by
  rw [onHandle, List.mem_filter, decide_eq_true_iff]

theorem mem_byOperation [DecidableEq ι] {i : ι} {log : List (PoolEvent ι κ)} {e : PoolEvent ι κ} :
    e ∈ byOperation i log ↔ e ∈ log ∧ e.operation = some i := by
  rw [byOperation, List.mem_filter, decide_eq_true_iff]

/-! ## The states of an object -/

inductive LeaseState where
  | taken
  | asking (request : SqlRequest)
  | released (request : SqlRequest)
  | stale

/-- The log of an object that was handed to `i` at `t`. -/
@[simp] def LeaseState.events (i : ι) (h : PoolConnection κ) (t : Int) :
    LeaseState → List (PoolEvent ι κ)
  | taken => [.handed i h t]
  | asking request => [.handed i h t, .asked i h request]
  | released request => [.handed i h t, .asked i h request, .released i h]
  | stale => [.handed i h t, .destroyed i h]

/-- The object that an operation holds, and its state. -/
def SqlPhase.holds : SqlPhase κ → Option (PoolConnection κ × LeaseState)
  | taken _ h => some (h, .taken)
  | asking request h => some (h, .asking request)
  | _ => none

@[simp] def LeaseState.isOpen : LeaseState → Bool
  | taken => true
  | asking _ => true
  | _ => false

/-- The events of a lease tell whose it is, when it began and how far it is. -/
theorem LeaseState.events_injective {i j : ι} {h : PoolConnection κ} {t t' : Int}
    {state state' : LeaseState} (heq : state.events i h t = state'.events j h t') :
    i = j ∧ t = t' ∧ state = state' := by
  cases state <;> cases state' <;> simp_all

theorem LeaseState.events_ne_nil (i : ι) (h : PoolConnection κ) (t : Int) (state : LeaseState) :
    state.events i h t ≠ [] := by
  cases state <;> simp

section
variable [DecidableEq κ]

/-- An object that was handed to `i` at `t`, and what became of it so far. -/
structure Lease (s : PoolState ι κ) (i : ι) (h : PoolConnection κ) (t : Int) (state : LeaseState) :
    Prop where
  events : onHandle h s.log = state.events i h t
  age : ∃ t₀, s.born h.connection = some t₀ ∧ t₀ ≤ t ∧
    (state = .stale ↔ CONN_MAX_LIFETIME_MS < t - t₀)
  held : state.isOpen = true → (s.phase i).holds = some (h, state)

/-- What the pool keeps at every step. -/
structure Accounts (s : PoolState ι κ) : Prop where
  fresh : ∀ e ∈ s.log, ∀ h, e.handle = some h → h.id < s.made
  opened : ∀ c t, .opened c t ∈ s.log ↔ s.born c = some t
  past : ∀ c t, s.born c = some t → t ≤ s.clock
  leases : ∀ h, onHandle h s.log = [] ∨ ∃ i t state, Lease s i h t state
  holding : ∀ i h state, (s.phase i).holds = some (h, state) → ∃ t, Lease s i h t state

variable {s s' : PoolState ι κ} {touched : Option (PoolConnection κ)}

/-- What is handed out has one lease. -/
theorem Lease.unique {i j : ι} {h : PoolConnection κ} {t t' : Int} {state state' : LeaseState}
    (hl : Lease s i h t state) (hl' : Lease s j h t' state') : i = j ∧ t = t' ∧ state = state' :=
  LeaseState.events_injective (hl.events.symm.trans hl'.events)

theorem Lease.mem_log {i : ι} {h : PoolConnection κ} {t : Int} {state : LeaseState}
    (hl : Lease s i h t state) : .handed i h t ∈ s.log := by
  have hmem : .handed i h t ∈ onHandle h s.log := by
    rw [hl.events]
    cases state <;> simp
  exact (mem_onHandle.mp hmem).1

/-- Nothing has happened to an object that is yet to be made. -/
theorem Accounts.onHandle_made (hs : Accounts s) (c : κ) : onHandle ⟨s.made, c⟩ s.log = [] := by
  rw [List.eq_nil_iff_forall_not_mem]
  intro e he
  obtain ⟨hmem, hhandle⟩ := mem_onHandle.mp he
  exact Nat.lt_irrefl _ (hs.fresh e hmem _ hhandle)

/-- Nobody holds a connection that is not handed out yet. -/
theorem Accounts.not_holds_made (hs : Accounts s) (c : κ) (j : ι) (state : LeaseState) :
    (s.phase j).holds ≠ some (⟨s.made, c⟩, state) := by
  intro hholds
  obtain ⟨t, hlease⟩ := hs.holding j _ state hholds
  exact LeaseState.events_ne_nil j _ t state (hlease.events.symm.trans (hs.onHandle_made c))

/-- While a lease runs nobody else holds its connection. -/
theorem Accounts.not_holds_other (hs : Accounts s) {i j : ι} {h : PoolConnection κ} {t : Int}
    {state : LeaseState} (hlease : Lease s i h t state) (hji : j ≠ i) (state' : LeaseState) :
    (s.phase j).holds ≠ some (h, state') := by
  intro hholds
  obtain ⟨t', hother⟩ := hs.holding j h state' hholds
  exact hji (hother.unique hlease).1

theorem Accounts.made_of_holds (hs : Accounts s) {i : ι} {h : PoolConnection κ} {state : LeaseState}
    (hholds : (s.phase i).holds = some (h, state)) : h.id < s.made := by
  obtain ⟨t, hlease⟩ := hs.holding i h state hholds
  exact hs.fresh _ hlease.mem_log h rfl

/-- Every connection that was handed out has its lease. -/
theorem Accounts.lease_of_handed (hs : Accounts s) {i : ι} {h : PoolConnection κ} {t : Int}
    (hmem : .handed i h t ∈ s.log) : ∃ state, Lease s i h t state := by
  have hon : .handed i h t ∈ onHandle h s.log := mem_onHandle.mpr ⟨hmem, rfl⟩
  rcases hs.leases h with hnil | ⟨j, t', state, hlease⟩
  · rw [hnil] at hon
    cases hon
  · rw [hlease.events] at hon
    obtain ⟨rfl, rfl⟩ : i = j ∧ t = t' := by
      cases state <;> simpa using hon
    exact ⟨state, hlease⟩

/-- What was asked for was asked over a lease whose connection was young enough. -/
theorem Accounts.lease_of_asked (hs : Accounts s) {i : ι} {h : PoolConnection κ}
    {request : SqlRequest} (hmem : .asked i h request ∈ s.log) :
    ∃ t state, Lease s i h t state ∧ state ≠ .stale := by
  have hon : .asked i h request ∈ onHandle h s.log := mem_onHandle.mpr ⟨hmem, rfl⟩
  rcases hs.leases h with hnil | ⟨j, t, state, hlease⟩
  · rw [hnil] at hon
    cases hon
  · rw [hlease.events] at hon
    cases state with
    | taken => simp at hon
    | stale => simp at hon
    | asking r =>
      obtain ⟨rfl, -⟩ : i = j ∧ request = r := by simpa using hon
      exact ⟨t, _, hlease, by simp⟩
    | released r =>
      obtain ⟨rfl, -⟩ : i = j ∧ request = r := by simpa using hon
      exact ⟨t, _, hlease, by simp⟩

/-- The one time at which a connection was announced. -/
def OpenedAt (log : List (PoolEvent ι κ)) (c : κ) (t₀ : Int) : Prop :=
  .opened c t₀ ∈ log ∧ ∀ t, .opened c t ∈ log → t = t₀

theorem Accounts.openedAt (hs : Accounts s) {c : κ} {t₀ : Int} (h : s.born c = some t₀) :
    OpenedAt s.log c t₀ := by
  refine ⟨(hs.opened c t₀).mpr h, ?_⟩
  intro t ht
  rw [(hs.opened c t).mp ht] at h
  exact Option.some.inj h

/-! ## What a step leaves alone -/

/-- A step that touches one object at most. -/
structure LeavesRest (s s' : PoolState ι κ) (touched : Option (PoolConnection κ)) : Prop where
  log : ∃ es, s'.log = s.log ++ es ∧ ∀ h, touched ≠ some h → onHandle h es = []
  born : ∀ c t, s.born c = some t → s'.born c = some t
  holds : ∀ j h state, touched ≠ some h →
    ((s'.phase j).holds = some (h, state) ↔ (s.phase j).holds = some (h, state))

/-- A step leaves every lease alone but the one it touches. -/
theorem LeavesRest.lease (hrest : LeavesRest s s' touched) {i : ι} {h : PoolConnection κ} {t : Int}
    {state : LeaseState} (hne : touched ≠ some h) (hlease : Lease s i h t state) :
    Lease s' i h t state where
  events := by
    obtain ⟨es, hlog, hes⟩ := hrest.log
    rw [hlog, onHandle_append, hes h hne, List.append_nil, hlease.events]
  age := by
    obtain ⟨t₀, hborn, hage⟩ := hlease.age
    exact ⟨t₀, hrest.born _ _ hborn, hage⟩
  held hopen := (hrest.holds i h state hne).mpr (hlease.held hopen)

/-- The operation `i` goes on, with what it held before and holds now. -/
theorem leavesRest_act [DecidableEq ι] (i : ι) (phase : SqlPhase κ) (es : List (PoolEvent ι κ))
    (hlog : s'.log = s.log ++ es) (hphase : s'.phase = Function.update s.phase i phase)
    (hborn : s'.born = s.born)
    (hes : ∀ h, touched ≠ some h → onHandle h es = [])
    (hbefore : ∀ h state, (s.phase i).holds = some (h, state) → touched = some h)
    (hafter : ∀ h state, phase.holds = some (h, state) → touched = some h) :
    LeavesRest s s' touched where
  log := ⟨es, hlog, hes⟩
  born c t hc := by rw [hborn, hc]
  holds j h state hne := by
    rw [hphase]
    by_cases hj : j = i
    · subst hj
      rw [Function.update_self]
      exact ⟨fun hp => absurd (hafter h state hp) hne, fun hp => absurd (hbefore h state hp) hne⟩
    · rw [Function.update_of_ne hj]

/-- The object that a step touches has a new state; all others keep theirs. -/
theorem LeavesRest.accounts (hrest : LeavesRest s s' touched) (hs : Accounts s)
    (hnew : ∀ h, touched = some h → ∃ i t state, Lease s' i h t state ∧
      ∀ j state', (s'.phase j).holds = some (h, state') → j = i ∧ state' = state) :
    (∀ h, onHandle h s'.log = [] ∨ ∃ i t state, Lease s' i h t state) ∧
      ∀ i h state, (s'.phase i).holds = some (h, state) → ∃ t, Lease s' i h t state := by
  constructor
  · intro h
    by_cases htouched : touched = some h
    · obtain ⟨i, t, state, hlease, -⟩ := hnew h htouched
      exact .inr ⟨i, t, state, hlease⟩
    · rcases hs.leases h with hnil | ⟨i, t, state, hlease⟩
      · obtain ⟨es, hlog, hes⟩ := hrest.log
        left
        rw [hlog, onHandle_append, hes h htouched, hnil, List.append_nil]
      · exact .inr ⟨i, t, state, hrest.lease htouched hlease⟩
  · intro i h state hholds
    by_cases htouched : touched = some h
    · obtain ⟨j, t, state', hlease, hunique⟩ := hnew h htouched
      obtain ⟨rfl, rfl⟩ := hunique i state hholds
      exact ⟨t, hlease⟩
    · obtain ⟨t, hlease⟩ := hs.holding i h state ((hrest.holds i h state htouched).mp hholds)
      exact ⟨t, hrest.lease htouched hlease⟩

/-- An operation that goes on with one object, which nobody else holds. -/
theorem Accounts.lease_act [DecidableEq ι] (hs : Accounts s) (i : ι) (phase : SqlPhase κ)
    (es : List (PoolEvent ι κ)) (t : Int) (state : LeaseState) {h : PoolConnection κ}
    (hlog : s'.log = s.log ++ es)
    (hphase : s'.phase = Function.update s.phase i phase) (hborn : s'.born = s.born)
    (hes : ∀ h', h ≠ h' → onHandle h' es = [])
    (hbefore : ∀ h' state', (s.phase i).holds = some (h', state') → h = h')
    (hafter : ∀ h' state', phase.holds = some (h', state') → h = h' ∧ state = state')
    (hothers : ∀ j, j ≠ i → ∀ state', (s.phase j).holds ≠ some (h, state'))
    (hlease : Lease s' i h t state) :
    (∀ h, onHandle h s'.log = [] ∨ ∃ i t state, Lease s' i h t state) ∧
      ∀ i h state, (s'.phase i).holds = some (h, state) → ∃ t, Lease s' i h t state := by
  have hrest : LeavesRest s s' (some h) := by
    apply leavesRest_act i phase es hlog hphase hborn
    · exact fun h' hne => hes h' fun heq => hne (congrArg some heq)
    · exact fun h' state' hp => congrArg some (hbefore h' state' hp)
    · exact fun h' state' hp => congrArg some (hafter h' state' hp).1
  apply hrest.accounts hs
  rintro h ⟨⟩
  refine ⟨i, t, state, hlease, ?_⟩
  intro j state' hj
  rw [hphase] at hj
  by_cases hji : j = i
  · subst hji
    rw [Function.update_self] at hj
    exact ⟨rfl, (hafter h state' hj).2.symm⟩
  · rw [Function.update_of_ne hji] at hj
    exact absurd hj (hothers j hji state')

end

section
variable [DecidableEq ι] [DecidableEq κ] {s s' : PoolState ι κ}

/-! ## Steps -/

/-- What a step can do. -/
inductive PoolState.Step (s : PoolState ι κ) : PoolState ι κ → Prop
  | opened {c now} (hnew : s.born c = none) (hnow : s.clock ≤ now) : Step s (s.onConnection c now)
  | dropped {c} : Step s { s with log := s.log ++ [.dropped c] }
  | same : Step s s
  | called {i} (request : SqlRequest) (h : s.phase i = .idle) :
      Step s (s.act i (.waiting request) [])
  | refused {i request} (e : JsString) (h : s.phase i = .waiting request) :
      Step s (s.act i (.settled (.failed e)) [.settled i (.failed e)])
  | taken {i request c now t₀} (h : s.phase i = .waiting request) (hborn : s.born c = some t₀)
      (hfree : ∀ handle ∈ s.out, handle.connection ≠ c) (hnow : s.clock ≤ now)
      (hyoung : now - t₀ ≤ CONN_MAX_LIFETIME_MS) :
      Step s { ({ s with clock := now, made := s.made + 1 } : PoolState ι κ).act i
        (.taken request ⟨s.made, c⟩) [.handed i ⟨s.made, c⟩ now] with out := ⟨s.made, c⟩ :: s.out }
  | stale {i request c now t₀} (h : s.phase i = .waiting request) (hborn : s.born c = some t₀)
      (hnow : s.clock ≤ now) (hold : CONN_MAX_LIFETIME_MS < now - t₀) :
      Step s (({ s with clock := now, made := s.made + 1 } : PoolState ι κ).act i (.waiting request)
        [.handed i ⟨s.made, c⟩ now, .destroyed i ⟨s.made, c⟩])
  | resumed {i request handle} (h : s.phase i = .taken request handle) :
      Step s (s.act i (.asking request handle) [.asked i handle request])
  | answered {i request handle} (a : SqlAnswer) (h : s.phase i = .asking request handle) :
      Step s (s.finish i handle (request.outcome a))

/-- What a step of the pool can be. -/
theorem PoolState.step_cases {a : PoolAction ι κ} (h : s.step a = some s') : Step s s' := by
  cases a with
  | connection c now =>
    obtain ⟨hguard, hs⟩ := Option.ite_none_right_eq_some.mp h
    obtain rfl := Option.some.inj hs
    exact .opened hguard.1 hguard.2
  | timeZone c failed =>
    obtain ⟨-, hs⟩ := Option.ite_none_left_eq_some.mp h
    cases failed with
    | true =>
      obtain rfl := Option.some.inj hs
      exact .dropped
    | false =>
      obtain rfl := Option.some.inj hs
      exact .same
  | call i request =>
    rw [step] at h
    split at h
    · rename_i hphase
      obtain rfl := Option.some.inj h
      exact .called request hphase
    · cases h
  | refuse i e =>
    rw [step] at h
    split at h
    · rename_i hphase
      obtain rfl := Option.some.inj h
      exact .refused e hphase
    · cases h
  | hand i c bornNow now =>
    rw [step] at h
    split at h
    · rename_i request hphase
      obtain ⟨⟨hborn, hfree, hclock, hnow⟩, hs⟩ := Option.ite_none_right_eq_some.mp h
      obtain rfl := Option.some.inj hs
      obtain ⟨t₀, ht₀⟩ := Option.ne_none_iff_exists'.mp hborn
      have hnow : s.clock ≤ now := Int.le_trans hclock hnow
      have hfree : ∀ handle ∈ s.out, handle.connection ≠ c := by
        intro handle hmem hc
        have hin : c ∈ s.out.map PoolConnection.connection := hc ▸ List.mem_map_of_mem hmem
        rw [List.contains_eq_mem, decide_eq_false_iff_not] at hfree
        exact hfree hin
      rw [takeTurn]
      simp only [ht₀, Option.getD_some]
      split
      · rename_i hyoung
        exact .taken hphase ht₀ hfree hnow hyoung
      · rename_i hold
        exact .stale hphase ht₀ hnow (Int.not_le.mp hold)
    · cases h
  | resume i =>
    rw [step] at h
    split at h
    · rename_i hphase
      obtain rfl := Option.some.inj h
      exact .resumed hphase
    · cases h
  | answer i a =>
    rw [step] at h
    split at h
    · rename_i hphase
      obtain rfl := Option.some.inj h
      exact .answered a hphase
    · cases h

/-! ## What each step keeps -/

/-- Objects are numbered as they are made. -/
theorem Accounts.fresh_step (hs : Accounts s) (h : PoolState.Step s s') :
    ∀ e ∈ s'.log, ∀ h, e.handle = some h → h.id < s'.made := by
  have happend {es : List (PoolEvent ι κ)} {n : Nat} (hn : s.made ≤ n)
      (hes : ∀ e ∈ es, ∀ h, e.handle = some h → h.id < n) :
      ∀ e ∈ s.log ++ es, ∀ h, e.handle = some h → h.id < n := by
    intro e he
    rcases List.mem_append.mp he with he | he
    · exact fun h hh => Nat.lt_of_lt_of_le (hs.fresh e he h hh) hn
    · exact hes e he
  cases h with
  | opened hnew hnow => exact happend (Nat.le_refl _) (by simp [PoolEvent.handle])
  | dropped => exact happend (Nat.le_refl _) (by simp [PoolEvent.handle])
  | same => exact hs.fresh
  | called request hphase => exact happend (Nat.le_refl _) (by simp [PoolEvent.handle])
  | refused e hphase => exact happend (Nat.le_refl _) (by simp [PoolEvent.handle])
  | taken hphase hborn hfree hnow hyoung =>
    exact happend (Nat.le_succ _) (by simp [PoolEvent.handle])
  | stale hphase hborn hnow hold => exact happend (Nat.le_succ _) (by simp [PoolEvent.handle])
  | @resumed i request handle hphase =>
    have hmade : handle.id < s.made := hs.made_of_holds (by rw [hphase]; rfl)
    exact happend (Nat.le_refl _) (by simpa [PoolEvent.handle] using hmade)
  | @answered i request handle a hphase =>
    have hmade : handle.id < s.made := hs.made_of_holds (by rw [hphase]; rfl)
    exact happend (Nat.le_refl _) (by simpa [PoolEvent.handle] using hmade)

/-- A connection's time of birth is the one at which it was announced. -/
theorem Accounts.opened_step (hs : Accounts s) (h : PoolState.Step s s') :
    ∀ c t, .opened c t ∈ s'.log ↔ s'.born c = some t := by
  intro c t
  have hold := hs.opened c t
  cases h with
  | @opened d now hnew hnow =>
    by_cases hc : c = d
    · subst hc
      rw [hnew] at hold
      simp_all [eq_comm]
    · simp [hc, hold]
  | same => exact hold
  | _ => simpa using hold

theorem Accounts.past_step (hs : Accounts s) (h : PoolState.Step s s') :
    ∀ c t, s'.born c = some t → t ≤ s'.clock := by
  intro c t hc
  have hold := hs.past c t
  cases h with
  | @opened d now hnew hnow =>
    by_cases hcd : c = d
    · subst hcd
      simp at hc
      simp [hc]
    · simp only [PoolState.onConnection_born, Function.update_of_ne hcd] at hc
      exact Int.le_trans (hold hc) hnow
  | taken hphase hborn hfree hnow hyoung => exact Int.le_trans (hold hc) hnow
  | stale hphase hborn hnow _ => exact Int.le_trans (hold hc) hnow
  | _ => exact hold hc

/-- A step takes one object to its next state, or none. -/
theorem Accounts.leases_step (hs : Accounts s) (h : PoolState.Step s s') :
    (∀ h, onHandle h s'.log = [] ∨ ∃ i t state, Lease s' i h t state) ∧
      ∀ i h state, (s'.phase i).holds = some (h, state) → ∃ t, Lease s' i h t state := by
  cases h with
  | @opened c now hnew hnow =>
    refine LeavesRest.accounts (?_ : LeavesRest s _ none) hs (by simp)
    refine ⟨⟨_, rfl, by simp [PoolEvent.handle]⟩, ?_, fun _ _ _ _ => Iff.rfl⟩
    intro d t hd
    have hne : d ≠ c := by
      rintro rfl
      rw [hnew] at hd
      cases hd
    rw [PoolState.onConnection_born, Function.update_of_ne hne, hd]
  | dropped =>
    refine LeavesRest.accounts (?_ : LeavesRest s _ none) hs (by simp)
    exact ⟨⟨_, rfl, by simp [PoolEvent.handle]⟩, fun _ _ hc => hc, fun _ _ _ _ => Iff.rfl⟩
  | same => exact ⟨hs.leases, hs.holding⟩
  | @called i request hphase =>
    refine LeavesRest.accounts (?_ : LeavesRest s _ none) hs (by simp)
    exact leavesRest_act i _ _ rfl rfl rfl (by simp) (by simp [hphase, SqlPhase.holds])
      (by simp [SqlPhase.holds])
  | @refused i request e hphase =>
    refine LeavesRest.accounts (?_ : LeavesRest s _ none) hs (by simp)
    exact leavesRest_act i _ _ rfl rfl rfl (by simp [PoolEvent.handle]) (by simp [hphase,
      SqlPhase.holds]) (by simp [SqlPhase.holds])
  | @taken i request c now t₀ hphase hborn hfree hnow hyoung =>
    refine hs.lease_act i _ _ now .taken rfl rfl rfl ?_ (by simp [hphase, SqlPhase.holds])
      (by simp [SqlPhase.holds]) (fun j _ => hs.not_holds_made c j) ⟨?_, ⟨t₀, hborn, ?_, ?_⟩, ?_⟩
    · simp +contextual [PoolEvent.handle]
    · simp [hs.onHandle_made, PoolEvent.handle]
    · exact Int.le_trans (hs.past c t₀ hborn) hnow
    · simpa using hyoung
    · simp [SqlPhase.holds]
  | @stale i request c now t₀ hphase hborn hnow hold =>
    refine hs.lease_act i _ _ now .stale rfl rfl rfl ?_ (by simp [hphase, SqlPhase.holds])
      (by simp [SqlPhase.holds]) (fun j _ => hs.not_holds_made c j) ⟨?_, ⟨t₀, hborn, ?_, ?_⟩, ?_⟩
    · simp +contextual [PoolEvent.handle]
    · simp [hs.onHandle_made, PoolEvent.handle]
    · exact Int.le_trans (hs.past c t₀ hborn) hnow
    · simpa using hold
    · simp
  | @resumed i request handle hphase =>
    obtain ⟨t, hlease⟩ := hs.holding i handle .taken (by rw [hphase]; rfl)
    obtain ⟨t₀, hborn, hle, hage⟩ := hlease.age
    refine hs.lease_act i _ _ t (.asking request) rfl rfl rfl ?_ ?_ (by simp [SqlPhase.holds])
      (fun j hj => hs.not_holds_other hlease hj) ⟨?_, ⟨t₀, hborn, hle, ?_⟩, ?_⟩
    · simp +contextual [PoolEvent.handle]
    · simp +contextual [hphase, SqlPhase.holds]
    · simp [hlease.events, PoolEvent.handle]
    · simpa using hage
    · simp [SqlPhase.holds]
  | @answered i request handle a hphase =>
    obtain ⟨t, hlease⟩ := hs.holding i handle (.asking request) (by rw [hphase]; rfl)
    obtain ⟨t₀, hborn, hle, hage⟩ := hlease.age
    refine hs.lease_act i _ _ t (.released request) rfl rfl rfl ?_ ?_ (by simp [SqlPhase.holds])
      (fun j hj => hs.not_holds_other hlease hj) ⟨?_, ⟨t₀, hborn, hle, ?_⟩, ?_⟩
    · simp +contextual [PoolEvent.handle]
    · simp +contextual [hphase, SqlPhase.holds]
    · simp [hlease.events, PoolEvent.handle]
    · simpa using hage
    · simp

/-- A pool nobody has used. -/
theorem accounts_start (clock : Int) : Accounts (mysqlSql ι κ clock).start where
  fresh := by simp [mysqlSql]
  opened := by simp [mysqlSql]
  past := by simp [mysqlSql]
  leases _ := .inl rfl
  holding := by simp [mysqlSql, SqlPhase.holds]

/-- Every step keeps the accounts. -/
theorem Accounts.step (hs : Accounts s) (h : PoolState.Step s s') : Accounts s' where
  fresh := hs.fresh_step h
  opened := hs.opened_step h
  past := hs.past_step h
  leases := (hs.leases_step h).1
  holding := (hs.leases_step h).2

/-- Wherever a run leads, the accounts are kept. -/
theorem accounts_of_run {clock : Int} {actions : List (PoolAction ι κ)}
    (h : (mysqlSql ι κ clock).run actions = some s) : Accounts s :=
  Machine.run_invariant (accounts_start clock) (fun _ _ _ hs hstep =>
    hs.step (PoolState.step_cases hstep)) h

end

end AgentService
