import Loadshear.Dispatcher
import Loadshear.Logs
import Loadshear.OrchestratorSound
import Loadshear.Runs

/-!
# What a step of the orchestrator's thread does

`stepped_of_step` is the inversion of a step. The runs of this model are runs
of the orchestrator with its thread left out (`orchestrator_run`).
-/

namespace Loadshear.Dispatcher

variable {env : OrchestratorEnv} {now : Nat} {d d' : Dispatcher}

/-! ## The loop that dispatches -/

def take (h : Handler) (d : Dispatcher) : Dispatcher := { d with ready := d.ready.erase h }

@[simp] theorem take_orchestrator (h : Handler) (d : Dispatcher) : (d.take h).orchestrator = d.orchestrator := rfl

inductive Passed (env : OrchestratorEnv) (now : Nat) : Dispatcher → Dispatcher → Prop
  | none {d : Dispatcher} : Passed env now d d
  | pass {d d₁ d₂ : Dispatcher} {action : ActionDescriptor}
      (ha : env.actions[d.orchestrator.currentActionIndx]? = some action) (hle : action.offset ≤ now)
      (hd : d.distribute action now = some d₁) (r : Passed env now d₁ d₂) : Passed env now d d₂

theorem Passed.invariant {I : Dispatcher → Prop}
    (hs : ∀ (d d' : Dispatcher) (action : ActionDescriptor), I d →
      env.actions[d.orchestrator.currentActionIndx]? = some action → action.offset ≤ now →
      d.distribute action now = some d' → I d') (r : Passed env now d d') (h : I d) : I d' := by
  induction r with
  | none => exact h
  | pass ha hle hd r ih => exact ih (hs _ _ _ h ha hle hd)

theorem distribute_spec {action : ActionDescriptor} (h : d.distribute action now = some d') :
    ∃ shards, Orchestrator.submitAll action d.orchestrator.shards (d.orchestrator.rangesFor action) = some shards ∧
      d' = { d with
        orchestrator := { d.orchestrator with
          shards := shards
          shardRanges := d.orchestrator.rangesFor action
          currentActionIndx := d.orchestrator.currentActionIndx + 1 }
        log := d.log ++ .distributed action now ::
          submissions action 0 d.orchestrator.shards (d.orchestrator.rangesFor action) } := by
  simp only [distribute, Orchestrator.distributeActionToShards, Option.map_map] at h
  obtain ⟨shards, hs, rfl⟩ := Option.map_eq_some_iff.mp h
  exact ⟨shards, hs, rfl⟩

theorem dispatchLoop_spec : ∀ {rest : List ActionDescriptor} {d : Dispatcher},
    env.actions.drop d.orchestrator.currentActionIndx = rest → dispatchLoop now rest d = some d' →
    ∃ d₁, Passed env now d d₁ ∧
      ((∃ action, env.actions[d₁.orchestrator.currentActionIndx]? = some action ∧ now < action.offset ∧
          d' = d₁.scheduleNextAction action.offset) ∨
        (env.actions.length ≤ d₁.orchestrator.currentActionIndx ∧ d' = d₁.doShutdown))
  | [], d, hr, h => ⟨d, .none, .inr ⟨by simpa using hr, (Option.some.inj h).symm⟩⟩
  | action :: rest, d, hr, h => by
    have ha : env.actions[d.orchestrator.currentActionIndx]? = some action := by
      rw [← Nat.add_zero d.orchestrator.currentActionIndx, ← List.getElem?_drop, hr]
      rfl
    unfold dispatchLoop at h
    split at h
    · rename_i hlt
      exact ⟨d, .none, .inl ⟨action, ha, hlt, (Option.some.inj h).symm⟩⟩
    · rename_i hle
      obtain ⟨d₁, hd, h⟩ := Option.bind_eq_some_iff.mp h
      have hr₁ : env.actions.drop d₁.orchestrator.currentActionIndx = rest := by
        obtain ⟨shards, -, rfl⟩ := distribute_spec hd
        rw [← List.tail_drop, hr]
        rfl
      obtain ⟨d₂, r, h⟩ := dispatchLoop_spec hr₁ h
      exact ⟨d₂, .pass ha (Nat.le_of_not_lt hle) hd r, h⟩

theorem mem_submissions {action : ActionDescriptor} {x : Effect} :
    ∀ {i : Nat} {shards : List Shard} {ranges : List (UInt32 × UInt32)},
      x ∈ submissions action i shards ranges → ∃ k ≥ i, ∃ part, x = .submitted k part
  | i, s :: shards, range :: ranges, h => by
    rcases List.mem_append.mp h with h | h
    · obtain ⟨part, -, rfl⟩ := List.mem_map.mp h
      exact ⟨i, Nat.le_refl i, part, rfl⟩
    · obtain ⟨k, hk, h⟩ := mem_submissions h
      exact ⟨k, Nat.le_of_succ_le hk, h⟩
  | _, [], _, h => by simp [submissions] at h
  | _, _ :: _, [], h => by simp [submissions] at h

def Dispatching : Effect → Prop
  | .distributed .. | .submitted .. => True
  | _ => False

theorem distribute_frame {action : ActionDescriptor} (h : d.distribute action now = some d') :
    ∃ o chunk, d' = { d with orchestrator := o, log := d.log ++ chunk } ∧ ∀ x ∈ chunk, Dispatching x := by
  obtain ⟨shards, -, rfl⟩ := distribute_spec h
  refine ⟨_, _, rfl, fun x hx => ?_⟩
  rcases List.mem_cons.mp hx with rfl | hx
  · trivial
  · obtain ⟨k, -, part, rfl⟩ := mem_submissions hx
    trivial

theorem Passed.frame (r : Passed env now d d') :
    ∃ o chunk, d' = { d with orchestrator := o, log := d.log ++ chunk } ∧ ∀ x ∈ chunk, Dispatching x := by
  refine r.invariant
    (I := fun d' => ∃ o chunk, d' = { d with orchestrator := o, log := d.log ++ chunk } ∧ ∀ x ∈ chunk, Dispatching x)
    (fun d₁ d₂ action ⟨o, chunk, h, hc⟩ _ _ hd => ?_) ⟨d.orchestrator, [], by simp, by simp⟩
  obtain ⟨o', chunk', rfl, hc'⟩ := distribute_frame hd
  subst h
  refine ⟨o', chunk ++ chunk', by rw [List.append_assoc], fun x hx => ?_⟩
  exact (List.mem_append.mp hx).elim (hc x) (hc' x)

/-! ## Steps -/

theorem thread_spec {k : Nat} {t : Thread} (h : d.thread k = some t) :
    d.threads[k]? = some t ∧ t.status = .running := by
  obtain ⟨ht, hr⟩ := Option.filter_eq_some_iff.mp h
  exact ⟨ht, by simpa using hr⟩

def Ready (h : Handler) (d : Dispatcher) : Prop := d.returned = false ∧ d.requesting = [] ∧ h ∈ d.ready

inductive Stepped (env : OrchestratorEnv) (d : Dispatcher) : Event → Dispatcher → Prop
  | armed {now : Nat} {d₁ : Dispatcher} {action : ActionDescriptor} (hr : d.Ready .dispatchPendingActions)
      (hd : Passed env now (d.take .dispatchPendingActions) d₁)
      (ha : env.actions[d₁.orchestrator.currentActionIndx]? = some action) (hlt : now < action.offset) :
    Stepped env d (.run .dispatchPendingActions now) (d₁.scheduleNextAction action.offset)
  | finished {now : Nat} {d₁ : Dispatcher} (hr : d.Ready .dispatchPendingActions)
      (hd : Passed env now (d.take .dispatchPendingActions) d₁)
      (ha : env.actions.length ≤ d₁.orchestrator.currentActionIndx) :
    Stepped env d (.run .dispatchPendingActions now) d₁.doShutdown
  | requested {now : Nat} (hr : d.Ready .doRequestMetrics) :
    Stepped env d (.run .doRequestMetrics now) (d.take .doRequestMetrics).doRequestMetrics
  | reported {now : Nat} (hr : d.Ready .onMetricsRoundComplete) : Stepped env d (.run .onMetricsRoundComplete now)
      ((d.take .onMetricsRoundComplete).onMetricsRoundComplete now)
  | stopped {now : Nat} (hr : d.Ready .doShutdown) :
    Stepped env d (.run .doShutdown now) (d.take .doShutdown).doShutdown
  | left {now : Nat} (hr : d.Ready .lastShardExit) : Stepped env d (.run .lastShardExit now)
      { d.take .lastShardExit with workGuard := false, dispatchTimer := none }
  | posted {k : Nat} {requesting : List Nat} {t : Thread} (hq : d.requesting = k :: requesting)
      (ht : d.threads[k]? = some t) :
    Stepped env d .post ({ d with requesting := requesting }.setThread k { t with pulls := t.pulls + 1 })
  | dispatchFired (hr : d.returned = false) (ht : d.dispatchTimer ≠ none) : Stepped env d .dispatchTimer
      { d with dispatchTimer := none, ready := d.ready ++ [.dispatchPendingActions] }
  | metricsFired (hr : d.returned = false) (ht : d.metricsTimer = true) : Stepped env d .metricsTimer
      { d with metricsTimer := false, ready := d.ready ++ [.doRequestMetrics] }
  | earlyStop : Stepped env d .earlyStop { d with ready := d.ready ++ [.doShutdown] }
  | finish (hw : d.workGuard = false) : Stepped env d .finish { d with returned := true }
  | tasked {k : Nat} {t : Thread} {s : Shard} {task : Task} {inbox : List Task} {pool : Pool}
      (ht : d.thread k = some t) (hk : d.orchestrator.shards[k]? = some s) (hi : s.inbox = task :: inbox)
      (hp : s.pool.handleTask env.session task = some pool) : Stepped env d (.task k)
      ({ d with orchestrator := d.orchestrator.setShard k { s with inbox := inbox, pool := pool } }.write
        [.handled k task])
  | handled {k : Nat} {e : Pool.Event} {t : Thread} {s : Shard} {pool : Pool} (ht : d.thread k = some t)
      (hk : d.orchestrator.shards[k]? = some s) (hp : s.pool.handle env.session e = some pool) :
    Stepped env d (.handler k e) { d with orchestrator := d.orchestrator.setShard k { s with pool := pool } }
  | pulled {k : Nat} {counters snapshot : MetricsSnapshot} {t : Thread} {snapshots : List MetricsSnapshot}
      (ht : d.thread k = some t) (hh : d.shardMetricHistory[k]? = some snapshots) (hp : t.pulls ≠ 0) :
    Stepped env d (.pull k counters)
      ({ d with shardMetricHistory := d.shardMetricHistory.set k (snapshots ++ [snapshot]) }.setThread k
        { t with pulls := t.pulls - 1 }).shardMetricsCallback
  | exited {k : Nat} {t : Thread} {s : Shard} (ht : d.thread k = some t) (hk : d.orchestrator.shards[k]? = some s)
      (hc : s.pool.closed) : Stepped env d (.exit k) (d.setThread k { t with status := .closed }).shardExitCallback
  | failed {k : Nat} {t : Thread} (ht : d.thread k = some t) :
    Stepped env d (.fail k) (d.setThread k { t with status := .failed }).shardExitCallback

theorem stepped_of_run {h : Handler} (hs : step env d (.run h now) = some d') : Stepped env d (.run h now) d' := by
  simp only [step] at hs
  split at hs
  · cases hs
  · rename_i hr
    have hr : d.Ready h := by simpa [Ready] using hr
    cases h with
    | dispatchPendingActions =>
      obtain ⟨d₁, hd, ⟨action, ha, hlt, rfl⟩ | ⟨ha, rfl⟩⟩ := dispatchLoop_spec rfl hs
      · exact .armed hr hd ha hlt
      · exact .finished hr hd ha
    | doRequestMetrics =>
      obtain rfl := Option.some.inj hs
      exact .requested hr
    | onMetricsRoundComplete =>
      obtain rfl := Option.some.inj hs
      exact .reported hr
    | doShutdown =>
      obtain rfl := Option.some.inj hs
      exact .stopped hr
    | lastShardExit =>
      obtain rfl := Option.some.inj hs
      exact .left hr

theorem stepped_of_pull {k : Nat} {counters : MetricsSnapshot} (h : d.pull k counters = some d') :
    Stepped env d (.pull k counters) d' := by
  obtain ⟨t, ht, h⟩ := Option.bind_eq_some_iff.mp h
  obtain ⟨s, hk, h⟩ := Option.bind_eq_some_iff.mp h
  obtain ⟨snapshots, hh, h⟩ := Option.bind_eq_some_iff.mp h
  split at h
  · cases h
  · rename_i hp
    obtain rfl := Option.some.inj h
    exact .pulled ht hh hp

theorem stepped_of_step {e : Event} (h : step env d e = some d') : Stepped env d e d' := by
  cases e with
  | run handler now => exact stepped_of_run h
  | post =>
    simp only [step] at h
    split at h
    · cases h
    · rename_i hq
      obtain ⟨t, ht, h⟩ := Option.bind_eq_some_iff.mp h
      obtain rfl := Option.some.inj h
      exact .posted hq ht
  | dispatchTimer =>
    simp only [step] at h
    split at h
    · cases h
    · rename_i hr
      obtain rfl := Option.some.inj h
      exact .dispatchFired (by simpa using fun hn => hr (.inl hn)) fun hn => hr (.inr hn)
  | metricsTimer =>
    simp only [step] at h
    split at h
    · cases h
    · rename_i hr
      obtain rfl := Option.some.inj h
      exact .metricsFired (by simpa using fun hn => hr (.inl hn)) (by simpa using fun hn => hr (.inr hn))
  | earlyStop =>
    obtain rfl := Option.some.inj h
    exact .earlyStop
  | finish =>
    simp only [step] at h
    split at h
    · cases h
    · rename_i hr
      obtain rfl := Option.some.inj h
      exact .finish (by simpa using fun hn => hr (.inl hn))
  | task k =>
    obtain ⟨t, ht, h⟩ := Option.bind_eq_some_iff.mp h
    obtain ⟨s, hk, h⟩ := Option.bind_eq_some_iff.mp h
    obtain ⟨task, hi, h⟩ := Option.bind_eq_some_iff.mp h
    obtain ⟨o, ho, h⟩ := Option.bind_eq_some_iff.mp h
    obtain rfl := Option.some.inj h
    cases Orchestrator.stepped_of_step ho with
    | @tasked _ s' task' inbox pool hk' hi' hp =>
      obtain rfl := Option.some.inj (hk.symm.trans hk')
      obtain rfl : task' = task := by simpa [hi'] using hi
      exact .tasked ht hk hi' hp
  | handler k event =>
    obtain ⟨t, ht, h⟩ := Option.bind_eq_some_iff.mp h
    obtain ⟨o, ho, h⟩ := Option.bind_eq_some_iff.mp h
    obtain rfl := Option.some.inj h
    cases Orchestrator.stepped_of_step ho with
    | handled hk hp => exact .handled ht hk hp
  | pull k counters => exact stepped_of_pull h
  | exit k =>
    obtain ⟨t, ht, h⟩ := Option.bind_eq_some_iff.mp h
    obtain ⟨s, hk, h⟩ := Option.bind_eq_some_iff.mp h
    split at h
    · rename_i hc
      obtain rfl := Option.some.inj h
      exact .exited ht hk hc
    · cases h
  | fail k =>
    obtain ⟨t, ht, h⟩ := Option.bind_eq_some_iff.mp h
    obtain rfl := Option.some.inj h
    exact .failed ht

/-! ## Stopping -/

def stops (n : Nat) : List Effect := .shutdown :: (List.range n).map .stopped

theorem doShutdown_of_shutdown (h : d.orchestrator.shutdown = true) : d.doShutdown = d := if_pos h

theorem doShutdown_of_not_shutdown (h : d.orchestrator.shutdown = false) : d.doShutdown = { d with
    orchestrator := { d.orchestrator with shutdown := true, shards := d.orchestrator.shards.map Shard.stop }
    dispatchTimer := none
    metricsTimer := false
    log := d.log ++ stops d.orchestrator.shards.length } := by
  simp [doShutdown, h, Orchestrator.doShutdown, write, stops]

theorem doShutdown_frame (d : Dispatcher) : ∃ o deadline armed chunk, d.doShutdown = { d with
    orchestrator := o, dispatchTimer := deadline, metricsTimer := armed, log := d.log ++ chunk } := by
  cases h : d.orchestrator.shutdown with
  | true => exact ⟨_, _, _, [], by rw [doShutdown_of_shutdown h, List.append_nil]⟩
  | false => exact ⟨_, _, _, _, doShutdown_of_not_shutdown h⟩

theorem ready_of_shardMetricsCallback {h : Handler} (hm : h ∈ d.shardMetricsCallback.ready) :
    h ∈ d.ready ∨ h = .onMetricsRoundComplete := by
  simp only [shardMetricsCallback] at hm
  split at hm
  · simpa using hm
  · exact .inl hm

theorem ready_of_shardExitCallback {h : Handler} (hm : h ∈ d.shardExitCallback.ready) :
    h ∈ d.ready ∨ h = .lastShardExit := by
  simp only [shardExitCallback] at hm
  split at hm
  · simpa using hm
  · exact .inl hm

theorem onMetricsRoundComplete_log (d : Dispatcher) : (d.onMetricsRoundComplete now).log =
    d.log ++ [.reported (getAggregateDelta d.shardMetricHistory now), .armedMetrics] := by
  simp [onMetricsRoundComplete, scheduleMetricsSnapshot, write]

/-! ## The orchestrator without its thread -/

theorem doShutdown_orchestrator (d : Dispatcher) : d.doShutdown.orchestrator = d.orchestrator.doShutdown := by
  unfold doShutdown
  split
  · rename_i hs
    rw [Orchestrator.doShutdown, if_pos hs]
  · rfl

section

open Runs (Run)

abbrev free {σ ε : Type} : σ → ε → Prop := fun _ _ => True

def eventsOf (place : Nat × Nat) (d : Dispatcher) : Event → List (Nat × Loadshear.Event)
  | .handler k e => d.orchestrator.eventsOf place (.handler k e)
  | _ => []

/-- What the session runs of the events of a run from `d`. -/
def historyOf (env : OrchestratorEnv) (place : Nat × Nat) (d : Dispatcher) (es : List Event) :
    List (Nat × Loadshear.Event) := Runs.shown (step env) (eventsOf place) d es

theorem Passed.orchestrator_run (r : Passed env now d d') :
    ∃ es, Run (Orchestrator.step env) free d.orchestrator es d'.orchestrator ∧
      ∀ place, Orchestrator.historyOf env place d.orchestrator es = [] := by
  induction r with
  | none => exact ⟨[], .nil, fun _ => rfl⟩
  | @pass d d₁ d₂ action ha hle hd r ih =>
    obtain ⟨es, ih, hquiet⟩ := ih
    have hstep : Orchestrator.step env d.orchestrator .dispatch = some d₁.orchestrator := by
      obtain ⟨o, ho, rfl⟩ := Option.map_eq_some_iff.mp hd
      simp [Orchestrator.step, Orchestrator.dispatch, ha, ho, write]
    exact ⟨.dispatch :: es, Run.cons trivial hstep ih, fun place => (Runs.shown_cons hstep es).trans (hquiet place)⟩

theorem orchestrator_run_of_step {e : Event} (h : step env d e = some d') :
    ∃ es, Run (Orchestrator.step env) free d.orchestrator es d'.orchestrator ∧
      ∀ place, Orchestrator.historyOf env place d.orchestrator es = d.eventsOf place e := by
  have one : ∀ {e' : Orchestrator.Event} {o : Orchestrator}, Orchestrator.step env d.orchestrator e' = some o →
      (∀ place, d.orchestrator.eventsOf place e' = d.eventsOf place e) →
      ∃ es, Run (Orchestrator.step env) free d.orchestrator es o ∧
        ∀ place, Orchestrator.historyOf env place d.orchestrator es = d.eventsOf place e :=
    fun ho he => ⟨_, Run.cons trivial ho .nil, fun place => by
      rw [Orchestrator.historyOf, Runs.shown_cons ho, he]
      exact List.append_nil _⟩
  cases stepped_of_step h with
  | armed hr hd ha hlt => exact hd.orchestrator_run
  | finished hr hd ha =>
    obtain ⟨es, r, hquiet⟩ := hd.orchestrator_run
    rw [take_orchestrator] at r
    refine ⟨es ++ [.dispatch], r.snoc trivial ?_, fun place => ?_⟩
    · simp [Orchestrator.step, Orchestrator.dispatch, List.getElem?_eq_none ha, doShutdown_orchestrator]
    · rw [Orchestrator.historyOf, r.shown_snoc]
      exact (List.append_nil _).trans (hquiet place)
  | stopped hr =>
    rw [doShutdown_orchestrator]
    exact @one .earlyStop _ rfl fun _ => rfl
  | @tasked k t s task inbox pool ht hk hi hp =>
    refine @one (.task k) _ ?_ fun _ => rfl
    simp [Orchestrator.step, hk, hi, hp, write]
  | @handled k e t s pool ht hk hp =>
    refine @one (.handler k e) _ ?_ fun _ => rfl
    simp [Orchestrator.step, hk, hp]
  | _ => exact ⟨[], .nil, fun _ => rfl⟩

/-- The orchestrator's part of a run, in which each session runs the same. -/
theorem orchestrator_run {G : Dispatcher → Event → Prop} {es : List Event} (r : Run (step env) G d es d') :
    ∃ es', Run (Orchestrator.step env) free d.orchestrator es' d'.orchestrator ∧
      ∀ place, Orchestrator.historyOf env place d.orchestrator es' = historyOf env place d es := by
  induction r with
  | nil => exact ⟨[], .nil, fun _ => rfl⟩
  | snoc r hg he ih =>
    obtain ⟨es₁, r₁, h₁⟩ := ih
    obtain ⟨es₂, r₂, h₂⟩ := orchestrator_run_of_step he
    refine ⟨_, r₁.trans r₂, fun place => ?_⟩
    rw [Orchestrator.historyOf, r₁.shown_append, historyOf, r.shown_snoc]
    exact congrArg₂ (· ++ ·) (h₁ place) (h₂ place)

end

end Loadshear.Dispatcher
