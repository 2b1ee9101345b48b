import AgentService.Db.PoolLeases
import Mathlib.Data.List.Nodup

/-!
# Runs of the pool

An operation that has settled has done nothing since and holds nothing, so that whatever it was
handed is destroyed or given back by then. Two operations never hold one connection.
-/

namespace AgentService
open Lib

variable {ι κ : Type} [DecidableEq ι] [DecidableEq κ] {s s' : PoolState ι κ}

/-! ## Settled operations -/

/-- What an operation has done ends with its one settlement, if it has settled. -/
def SettledLast (i : ι) (phase : SqlPhase κ) (events : List (PoolEvent ι κ)) : Prop :=
  match phase with
  | .settled outcome => ∃ before, events = before ++ [.settled i outcome] ∧ ∀ e ∈ before,
      e.isSettled = false
  | _ => ∀ e ∈ events, e.isSettled = false

omit [DecidableEq κ] in
theorem settledLast_act {i : ι} {phase : SqlPhase κ} {es : List (PoolEvent ι κ)}
    (hs : ∀ j, SettledLast j (s.phase j) (byOperation j s.log))
    (hlog : s'.log = s.log ++ es) (hphase : s'.phase = Function.update s.phase i phase)
    (hothers : ∀ j, j ≠ i → byOperation j es = [])
    (hown : (∀ e ∈ byOperation i s.log, e.isSettled = false) →
      SettledLast i phase (byOperation i s.log ++ byOperation i es))
    (hopen : ∀ outcome, s.phase i ≠ .settled outcome) :
    ∀ j, SettledLast j (s'.phase j) (byOperation j s'.log) := by
  intro j
  rw [hlog, hphase, byOperation_append]
  by_cases hj : j = i
  · subst hj
    rw [Function.update_self]
    apply hown
    have hbefore := hs j
    unfold SettledLast at hbefore
    split at hbefore
    · rename_i outcome hsettled
      exact absurd hsettled (hopen outcome)
    · exact hbefore
  · rw [Function.update_of_ne hj, hothers j hj, List.append_nil]
    exact hs j

omit [DecidableEq ι] [DecidableEq κ] in
/-- An operation that goes on to another await has not settled on the way. -/
theorem SettledLast.goesOn {i : ι} {phase : SqlPhase κ} {events es : List (PoolEvent ι κ)}
    (hphase : ∀ outcome, phase ≠ .settled outcome) (hes : ∀ e ∈ es, e.isSettled = false)
    (hopen : ∀ e ∈ events, e.isSettled = false) : SettledLast i phase (events ++ es) := by
  unfold SettledLast
  split
  · rename_i outcome
    exact absurd rfl (hphase outcome)
  · intro e he
    rcases List.mem_append.mp he with he | he
    · exact hopen e he
    · exact hes e he

omit [DecidableEq ι] [DecidableEq κ] in
theorem SettledLast.settles {i : ι} {outcome : SqlOutcome} {events es : List (PoolEvent ι κ)}
    (hes : ∀ e ∈ es, e.isSettled = false) (hopen : ∀ e ∈ events, e.isSettled = false) :
    SettledLast i (.settled outcome : SqlPhase κ) (events ++ (es ++ [.settled i outcome])) := by
  refine ⟨events ++ es, by simp, ?_⟩
  intro e he
  rcases List.mem_append.mp he with he | he
  · exact hopen e he
  · exact hes e he

theorem settledLast_step (hs : ∀ j, SettledLast j (s.phase j) (byOperation j s.log))
    (h : PoolState.Step s s') : ∀ j, SettledLast j (s'.phase j) (byOperation j s'.log) := by
  cases h with
  | opened hnew hnow => simpa [PoolEvent.operation] using hs
  | dropped => simpa [PoolEvent.operation] using hs
  | same => exact hs
  | called request hphase =>
    refine settledLast_act hs rfl rfl (fun j hj => by simp) ?_ (by simp [hphase])
    exact .goesOn (by simp) (by simp)
  | @refused i request e hphase =>
    refine settledLast_act hs rfl rfl (fun j hj => by simp [PoolEvent.operation, Ne.symm hj]) ?_
      (by simp [hphase])
    have hnone : ∀ e ∈ ([] : List (PoolEvent ι κ)), e.isSettled = false := by simp
    simpa [PoolEvent.operation] using SettledLast.settles hnone
  | taken hphase hborn hfree hnow hyoung =>
    refine settledLast_act hs rfl rfl (fun j hj => by simp [PoolEvent.operation, Ne.symm hj]) ?_
      (by simp [hphase])
    exact .goesOn (by simp) (by simp [PoolEvent.operation, PoolEvent.isSettled])
  | stale hphase hborn hnow hold =>
    refine settledLast_act hs rfl rfl (fun j hj => by simp [PoolEvent.operation, Ne.symm hj]) ?_
      (by simp [hphase])
    exact .goesOn (by simp) (by simp [PoolEvent.operation, PoolEvent.isSettled])
  | resumed hphase =>
    refine settledLast_act hs rfl rfl (fun j hj => by simp [PoolEvent.operation, Ne.symm hj]) ?_
      (by simp [hphase])
    exact .goesOn (by simp) (by simp [PoolEvent.operation, PoolEvent.isSettled])
  | @answered i request handle a hphase =>
    refine settledLast_act hs rfl rfl (fun j hj => by simp [PoolEvent.operation, Ne.symm hj]) ?_
      (by simp [hphase])
    have hreleased : ∀ e ∈ [PoolEvent.released i handle], e.isSettled = false := by
      simp [PoolEvent.isSettled]
    simpa [PoolEvent.operation] using SettledLast.settles hreleased

theorem settledLast_of_run {clock : Int} {actions : List (PoolAction ι κ)}
    (h : (mysqlSql ι κ clock).run actions = some s) :
    ∀ i, SettledLast i (s.phase i) (byOperation i s.log) := by
  have hstart : ∀ i, SettledLast i ((mysqlSql ι κ clock).start.phase i)
      (byOperation i (mysqlSql ι κ clock).start.log) := by
    simp [mysqlSql, SettledLast]
  exact Machine.run_invariant (P := fun s => ∀ i,
    SettledLast i (s.phase i) (byOperation i s.log)) hstart (fun _ _ _ hs hstep =>
      settledLast_step hs (PoolState.step_cases hstep)) h

omit [DecidableEq κ] in
/-- The events of an operation whose settlement is in the log. -/
theorem SettledLast.of_mem {i : ι} {outcome : SqlOutcome}
    (hs : SettledLast i (s.phase i) (byOperation i s.log)) (hmem : .settled i outcome ∈ s.log) :
    s.phase i = .settled outcome ∧
      ∃ before, byOperation i s.log = before ++ [.settled i outcome] ∧ ∀ e ∈ before,
        e.isSettled = false := by
  have hown : .settled i outcome ∈ byOperation i s.log := mem_byOperation.mpr ⟨hmem, rfl⟩
  unfold SettledLast at hs
  split at hs
  · rename_i outcome' hphase
    obtain ⟨before, hevents, hbefore⟩ := hs
    rw [hevents] at hown
    rcases List.mem_append.mp hown with hin | hlast
    · exact absurd (hbefore _ hin) (by simp [PoolEvent.isSettled])
    · obtain ⟨-, rfl⟩ : i = i ∧ outcome = outcome' := by simpa using hlast
      exact ⟨hphase, before, hevents, hbefore⟩
  · exact absurd (hs _ hown) (by simp [PoolEvent.isSettled])

/-! ## Connections that are held -/

/-- What an operation holds is out, and nothing else of that connection is. -/
structure Exclusive (s : PoolState ι κ) : Prop where
  nodup : (s.out.map PoolConnection.connection).Nodup
  held : ∀ i h state, (s.phase i).holds = some (h, state) → h ∈ s.out

theorem Exclusive.step (hs : Exclusive s) (haccounts : Accounts s) (h : PoolState.Step s s') :
    Exclusive s' := by
  have hact {i : ι} {phase : SqlPhase κ} (hnone : phase.holds = none) :
      ∀ j h state, (Function.update s.phase i phase j).holds = some (h, state) → h ∈ s.out := by
    intro j h state hj
    by_cases hji : j = i
    · subst hji
      simp [hnone] at hj
    · rw [Function.update_of_ne hji] at hj
      exact hs.held j h state hj
  cases h with
  | opened hnew hnow => exact ⟨hs.nodup, hs.held⟩
  | dropped => exact ⟨hs.nodup, hs.held⟩
  | same => exact hs
  | called request hphase => exact ⟨hs.nodup, hact rfl⟩
  | refused e hphase => exact ⟨hs.nodup, hact rfl⟩
  | @taken i request c now t₀ hphase hborn hfree hnow hyoung =>
    constructor
    · simpa using ⟨hfree, hs.nodup⟩
    · intro j h state hj
      by_cases hji : j = i
      · subst hji
        obtain ⟨rfl, -⟩ : ⟨s.made, c⟩ = h ∧ LeaseState.taken = state := by
          simpa [SqlPhase.holds] using hj
        simp
      · simp only [PoolState.act_phase, Function.update_of_ne hji] at hj
        exact List.mem_cons_of_mem _ (hs.held j h state hj)
  | stale hphase hborn hnow hold => exact ⟨hs.nodup, hact rfl⟩
  | @resumed i request handle hphase =>
    refine ⟨hs.nodup, ?_⟩
    intro j h state hj
    by_cases hji : j = i
    · subst hji
      obtain ⟨rfl, -⟩ : handle = h ∧ LeaseState.asking request = state := by
        simpa [SqlPhase.holds] using hj
      exact hs.held j handle .taken (by rw [hphase]; rfl)
    · simp only [PoolState.act_phase, Function.update_of_ne hji] at hj
      exact hs.held j h state hj
  | @answered i request handle a hphase =>
    obtain ⟨t, hlease⟩ := haccounts.holding i handle (.asking request) (by rw [hphase]; rfl)
    constructor
    · exact hs.nodup.sublist (List.filter_sublist.map _)
    · intro j h state hj
      by_cases hji : j = i
      · subst hji
        simp [SqlPhase.holds] at hj
      · simp only [PoolState.finish_phase, PoolState.act_phase, Function.update_of_ne hji] at hj
        have hne : h ≠ handle := by
          rintro rfl
          exact haccounts.not_holds_other hlease hji state hj
        simpa [hne] using hs.held j h state hj

/-- No two operations ever hold one connection. -/
theorem held_connection_unique {clock : Int} {actions : List (PoolAction ι κ)}
    (h : (mysqlSql ι κ clock).run actions = some s) {i j : ι} {handle handle' : PoolConnection κ}
    {state state' : LeaseState} (hi : (s.phase i).holds = some (handle, state))
    (hj : (s.phase j).holds = some (handle', state'))
    (hsame : handle.connection = handle'.connection) : i = j ∧ handle = handle' := by
  have hstart : Accounts (mysqlSql ι κ clock).start ∧ Exclusive (mysqlSql ι κ clock).start :=
    ⟨accounts_start clock, by simp [mysqlSql], by simp [mysqlSql, SqlPhase.holds]⟩
  obtain ⟨haccounts, hexclusive⟩ :=
    Machine.run_invariant (P := fun s => Accounts s ∧ Exclusive s) hstart (fun _ _ _ hs hstep =>
      ⟨hs.1.step (PoolState.step_cases hstep), hs.2.step hs.1 (PoolState.step_cases hstep)⟩) h
  have hone : handle = handle' :=
    List.inj_on_of_nodup_map hexclusive.nodup (hexclusive.held i _ _ hi)
      (hexclusive.held j _ _ hj) hsame
  subst hone
  obtain ⟨t, hlease⟩ := haccounts.holding i _ _ hi
  obtain ⟨t', hlease'⟩ := haccounts.holding j _ _ hj
  exact ⟨(hlease.unique hlease').1, rfl⟩

/-! ## The accounts of a run -/

/-- In every run, whatever the interleaving and the failures: what an operation was handed has, once
the operation has settled, been destroyed and nothing else if it was more than three minutes old by
then, and asked once and released once if it was not; what is asked was young when it was handed
out; and an operation does nothing behind its one settlement. -/
theorem pool_connections_accounted {clock : Int} {actions : List (PoolAction ι κ)}
    (h : (mysqlSql ι κ clock).run actions = some s) :
    (∀ i handle t outcome, .handed i handle t ∈ s.log → .settled i outcome ∈ s.log →
      ∃ t₀, OpenedAt s.log handle.connection t₀ ∧ t₀ ≤ t ∧
        (3 * 60 * 1000 < t - t₀ ∧ onHandle handle s.log = [.handed i handle t,
            .destroyed i handle] ∨
          t - t₀ ≤ 3 * 60 * 1000 ∧ ∃ request,
            onHandle handle s.log = [.handed i handle t, .asked i handle request,
              .released i handle])) ∧
    (∀ i handle request, .asked i handle request ∈ s.log →
      ∃ t₀ t, OpenedAt s.log handle.connection t₀ ∧ .handed i handle t ∈ s.log ∧ t₀ ≤ t ∧
        t - t₀ ≤ 3 * 60 * 1000) ∧
    ∀ i outcome, .settled i outcome ∈ s.log →
      ∃ before, byOperation i s.log = before ++ [.settled i outcome] ∧ ∀ e ∈ before,
        e.isSettled = false := by
  have haccounts := accounts_of_run h
  have hsettled := settledLast_of_run h
  refine ⟨?_, ?_, ?_⟩
  · intro i handle t outcome hhanded hmem
    have hphase := ((hsettled i).of_mem hmem).1
    obtain ⟨state, hlease⟩ := haccounts.lease_of_handed hhanded
    obtain ⟨t₀, hborn, hle, hage⟩ := hlease.age
    have hclosed : state.isOpen = false := by
      by_contra hopen
      have hheld := hlease.held (by simpa using hopen)
      rw [hphase] at hheld
      cases hheld
    refine ⟨t₀, haccounts.openedAt hborn, hle, ?_⟩
    cases state with
    | taken => cases hclosed
    | asking request => cases hclosed
    | released request =>
      exact .inr ⟨by simpa [CONN_MAX_LIFETIME_MS] using hage, request, hlease.events⟩
    | stale => exact .inl ⟨by simpa [CONN_MAX_LIFETIME_MS] using hage, hlease.events⟩
  · intro i handle request hasked
    obtain ⟨t, state, hlease, hyoung⟩ := haccounts.lease_of_asked hasked
    obtain ⟨t₀, hborn, hle, hage⟩ := hlease.age
    refine ⟨t₀, t, haccounts.openedAt hborn, hlease.mem_log, hle, ?_⟩
    exact Int.not_lt.mp (mt hage.mpr hyoung)
  · intro i outcome hmem
    exact ((hsettled i).of_mem hmem).2

/-- A ping, and a statement that fails, on a pool whose first connection is too old: it is
destroyed, and the second one is used and given back. -/
def staleRun : List (PoolAction Nat Nat) :=
  [.connection 0 0, .call 0 (.execute ⟨"SELECT 1", []⟩), .call 1 .ping, .hand 0 0 180001 180001,
    .connection 1 180001, .hand 1 1 180001 180002, .connection 2 180003, .hand 0 2 180003 180003,
    .resume 0, .resume 1,
    .answer 0 (.failed (js "gone")), .answer 1 .noRows]

theorem pool_connections_accounted_at_stale :
    ∃ s, (mysqlSql Nat Nat 0).run staleRun = some s ∧
      (∃ t₀, OpenedAt s.log 0 t₀ ∧ t₀ ≤ 180001 ∧
        (3 * 60 * 1000 < 180001 - t₀ ∧ onHandle ⟨0, 0⟩ s.log = [.handed 0 ⟨0, 0⟩ 180001,
            .destroyed 0 ⟨0, 0⟩] ∨
          180001 - t₀ ≤ 3 * 60 * 1000 ∧ ∃ request,
            onHandle ⟨0, 0⟩ s.log = [.handed 0 ⟨0, 0⟩ 180001, .asked 0 ⟨0, 0⟩ request,
              .released 0 ⟨0, 0⟩])) ∧
      ∃ t₀, OpenedAt s.log 1 t₀ ∧ t₀ ≤ 180002 ∧
        (3 * 60 * 1000 < 180002 - t₀ ∧ onHandle ⟨1, 1⟩ s.log = [.handed 1 ⟨1, 1⟩ 180002,
            .destroyed 1 ⟨1, 1⟩] ∨
          180002 - t₀ ≤ 3 * 60 * 1000 ∧ ∃ request,
            onHandle ⟨1, 1⟩ s.log = [.handed 1 ⟨1, 1⟩ 180002, .asked 1 ⟨1, 1⟩ request,
              .released 1 ⟨1, 1⟩]) := by
  refine ⟨_, rfl, ?_⟩
  obtain ⟨haccounted, -, -⟩ := @pool_connections_accounted Nat Nat _ _ _ 0 staleRun rfl
  exact ⟨haccounted 0 ⟨0, 0⟩ 180001 (.failed (js "gone")) (by decide) (by decide),
    haccounted 1 ⟨1, 1⟩ 180002 .pinged (by decide) (by decide)⟩

end AgentService
