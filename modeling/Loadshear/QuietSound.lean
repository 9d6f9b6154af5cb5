import Loadshear.RoundSound

/-!
# After the shutdown

`do_shutdown` cancels both timers. It does not take back a dispatch that is
ready, nor a round of metrics that is under way, and each of these arms its
timer again. Where nothing of the kind is left, the orchestrator goes quiet.
-/

namespace Loadshear.Dispatcher

open Runs (Run)
open Logs (Each)

def Noisy : Effect → Prop
  | .distributed .. | .armedDispatch _ | .armedMetrics => True
  | _ => False

/-- Nothing of the kind comes after the shutdown. -/
def Quiet (log : List Effect) : Prop := Each (fun before x => Noisy x → .shutdown ∉ before) log

/-- Nothing that is ready or under way can dispatch an action or end a round of
metrics. A round cannot end without the pull of a thread that has ended. -/
def AtEase (env : OrchestratorEnv) (d : Dispatcher) : Prop :=
  (.dispatchPendingActions ∈ d.ready → env.actions.length ≤ d.orchestrator.currentActionIndx) ∧
  .onMetricsRoundComplete ∉ d.ready ∧
  (.doRequestMetrics ∈ d.ready → d.threads = [] ∨ ∃ t ∈ d.threads, t.status ≠ .running) ∧
  (d.pendingMetricPulls ≠ 0 → ∃ t ∈ d.threads, t.status ≠ .running ∧ t.pulls ≠ 0)
deriving Decidable

def Shuts (env : OrchestratorEnv) (d : Dispatcher) (h : Handler) (now : Nat) : Prop :=
  d.orchestrator.shutdown = false ∧ (h = .doShutdown ∨ h = .dispatchPendingActions ∧
    ∀ action ∈ env.actions.drop d.orchestrator.currentActionIndx, action.offset ≤ now)
deriving Decidable

/-- The shutdown comes when nothing else is left to do. -/
def Settled (env : OrchestratorEnv) (d : Dispatcher) : Event → Prop
  | .run h now => Shuts env d h now → AtEase env (d.take h)
  | _ => True

instance {env : OrchestratorEnv} {d : Dispatcher} : ∀ {e : Event}, Decidable (Settled env d e)
  | .run h now => inferInstanceAs (Decidable (Shuts env d h now → AtEase env (d.take h)))
  | .post | .dispatchTimer | .metricsTimer | .earlyStop | .finish | .task _ | .handler .. | .pull .. | .exit _
  | .fail _ => instDecidableTrue

variable {env : OrchestratorEnv} {d d' : Dispatcher} {e : Event} {n now : Nat}

/-! ## The loop that dispatches -/

theorem Passed.shutdown (r : Passed env now d d') : d'.orchestrator.shutdown = d.orchestrator.shutdown := by
  refine r.invariant (I := fun d' => d'.orchestrator.shutdown = d.orchestrator.shutdown) (fun _ _ _ h _ _ hd => ?_) rfl
  obtain ⟨shards, -, rfl⟩ := distribute_spec hd
  exact h

theorem Passed.due (r : Passed env now d d') {i : Nat} {action : ActionDescriptor}
    (hi : d.orchestrator.currentActionIndx ≤ i) (hlt : i < d'.orchestrator.currentActionIndx)
    (ha : env.actions[i]? = some action) : action.offset ≤ now := by
  induction r with
  | none => omega
  | @pass d d₁ d₂ action' ha' hle hd r ih =>
    obtain ⟨shards, -, rfl⟩ := distribute_spec hd
    by_cases he : d.orchestrator.currentActionIndx = i
    · subst he
      obtain rfl := Option.some.inj (ha.symm.trans ha')
      exact hle
    · refine ih ?_ hlt
      show d.orchestrator.currentActionIndx + 1 ≤ i
      omega

theorem Passed.eq_of_done (r : Passed env now d d') (hn : env.actions.length ≤ d.orchestrator.currentActionIndx) :
    d' = d := by
  cases r with
  | none => rfl
  | pass ha hle hd r =>
    rw [List.getElem?_eq_none hn] at ha
    cases ha

theorem shuts_of_finished {d₁ : Dispatcher} (hs : d.orchestrator.shutdown = false)
    (r : Passed env now (d.take .dispatchPendingActions) d₁)
    (hn : env.actions.length ≤ d₁.orchestrator.currentActionIndx) : Shuts env d .dispatchPendingActions now := by
  refine ⟨hs, .inr ⟨rfl, fun action hm => ?_⟩⟩
  obtain ⟨i, hi⟩ := List.mem_iff_getElem?.mp hm
  rw [List.getElem?_drop] at hi
  have hlt := (List.getElem?_eq_some_iff.mp hi).1
  exact r.due (i := d.orchestrator.currentActionIndx + i) (Nat.le_add_right _ i) (by omega) hi

/-! ## At rest -/

structure AtRest (env : OrchestratorEnv) (d : Dispatcher) : Prop where
  dispatchTimer : d.dispatchTimer = none
  metricsTimer : d.metricsTimer = false
  dispatch : .dispatchPendingActions ∈ d.ready → env.actions.length ≤ d.orchestrator.currentActionIndx
  complete : .onMetricsRoundComplete ∉ d.ready
  request : .doRequestMetrics ∈ d.ready → d.threads = [] ∨ ∃ t ∈ d.threads, t.status ≠ .running
  round : d.pendingMetricPulls ≠ 0 → ∃ (k : Nat) (t : Thread), d.threads[k]? = some t ∧ t.status ≠ .running ∧
    0 < t.pulls + d.requesting.count k

structure Resting (env : OrchestratorEnv) (d : Dispatcher) : Prop where
  before : d.orchestrator.shutdown = false → .shutdown ∉ d.log
  after : d.orchestrator.shutdown = true → AtRest env d ∧ Quiet d.log

theorem quiet_of_not_mem {log : List Effect} (h : .shutdown ∉ log) : Quiet log :=
  fun _ _ hx _ hm => h (((List.prefix_append _ _).trans hx).subset hm)

theorem Quiet.still {log chunk : List Effect} (h : Quiet log) (hc : ∀ x ∈ chunk, ¬ Noisy x) : Quiet (log ++ chunk) :=
  h.skip fun x hx _ hn => absurd hn (hc x hx)

theorem Resting.quiet (h : Resting env d) : Quiet d.log := by
  cases hs : d.orchestrator.shutdown with
  | true => exact (h.after hs).2
  | false => exact quiet_of_not_mem (h.before hs)

/-- Steps that leave what is at rest as it is. -/
theorem AtRest.frame (h : AtRest env d) (hd : d'.dispatchTimer = none) (hm : d'.metricsTimer = d.metricsTimer)
    (ho : d'.orchestrator.currentActionIndx = d.orchestrator.currentActionIndx)
    (hq : ∀ handler ∈ d'.ready, handler ∈ d.ready ∨ handler = .doShutdown ∨ handler = .lastShardExit)
    (ht : d'.threads = d.threads) (hr : d'.requesting = d.requesting)
    (hp : d'.pendingMetricPulls = d.pendingMetricPulls) : AtRest env d' where
  dispatchTimer := hd
  metricsTimer := hm ▸ h.metricsTimer
  dispatch hin := by
    rw [ho]
    exact h.dispatch (by simpa using hq _ hin)
  complete hin := h.complete (by simpa using hq _ hin)
  request hin := by
    rw [ht]
    exact h.request (by simpa using hq _ hin)
  round hne := by
    rw [ht, hr]
    exact h.round (hp ▸ hne)

theorem AtRest.take {handler : Handler} (h : AtRest env d) : AtRest env (d.take handler) :=
  h.frame h.dispatchTimer rfl rfl (fun _ hm => .inl (List.mem_of_mem_erase hm)) rfl rfl rfl

theorem Resting.write {chunk : List Effect} (h : Resting env d)
    (hs : d'.orchestrator.shutdown = d.orchestrator.shutdown) (hl : d'.log = d.log ++ chunk)
    (hc : .shutdown ∉ chunk) (hr : d.orchestrator.shutdown = true → AtRest env d → AtRest env d' ∧ ∀ x ∈ chunk, ¬ Noisy x) :
    Resting env d' where
  before hf := by
    rw [hl, List.mem_append]
    exact fun hm => hm.elim (h.before (hs ▸ hf)) hc
  after ht := by
    obtain ⟨hrest, hquiet⟩ := h.after (hs ▸ ht)
    obtain ⟨hrest', hstill⟩ := hr (hs ▸ ht) hrest
    exact ⟨hrest', hl ▸ hquiet.still hstill⟩

theorem resting_doShutdown (hs : d.orchestrator.shutdown = false) (hl : .shutdown ∉ d.log)
    (he : AtEase env d) : Resting env d.doShutdown := by
  obtain ⟨hdispatch, hcomplete, hrequest, hround⟩ := he
  rw [doShutdown_of_not_shutdown hs]
  refine ⟨fun hf => by simp at hf, fun _ => ⟨⟨rfl, rfl, hdispatch, hcomplete, hrequest, fun hne => ?_⟩, ?_⟩⟩
  · obtain ⟨t, ht, hst, hp⟩ := hround hne
    obtain ⟨k, hk⟩ := List.mem_iff_getElem?.mp ht
    exact ⟨k, t, hk, hst, by omega⟩
  · exact (quiet_of_not_mem hl).still fun x hx hn => by
      rcases List.mem_cons.mp hx with rfl | hx
      · exact hn
      · obtain ⟨k, -, rfl⟩ := List.mem_map.mp hx
        exact hn

theorem Resting.take {handler : Handler} (h : Resting env d) : Resting env (d.take handler) :=
  h.write rfl (List.append_nil _).symm (by simp) fun _ hr => ⟨hr.take, by simp⟩

theorem Resting.armed {d₁ : Dispatcher} {action : ActionDescriptor} (h : Resting env d)
    (hr : d.Ready .dispatchPendingActions) (hd : Passed env now (d.take .dispatchPendingActions) d₁)
    (ha : env.actions[d₁.orchestrator.currentActionIndx]? = some action) :
    Resting env (d₁.scheduleNextAction action.offset) := by
  have hs : d₁.orchestrator.shutdown = d.orchestrator.shutdown := hd.shutdown
  have hnone : d.orchestrator.shutdown = true → AtRest env d → False := by
    intro _ hrest
    have hdone := hrest.dispatch hr.2.2
    rw [hd.eq_of_done hdone, take_orchestrator, List.getElem?_eq_none hdone] at ha
    cases ha
  obtain ⟨o, chunk, rfl, hc⟩ := hd.frame
  refine h.write hs (List.append_assoc ..) (fun hm => ?_) fun ht hrest => (hnone ht hrest).elim
  rcases List.mem_append.mp hm with hm | hm
  · exact hc _ hm
  · simp at hm

theorem Resting.finished {d₁ : Dispatcher} (h : Resting env d) (hr : d.Ready .dispatchPendingActions)
    (hg : Settled env d (.run .dispatchPendingActions now))
    (hd : Passed env now (d.take .dispatchPendingActions) d₁)
    (ha : env.actions.length ≤ d₁.orchestrator.currentActionIndx) : Resting env d₁.doShutdown := by
  cases hs : d.orchestrator.shutdown with
  | true =>
    obtain rfl := hd.eq_of_done ((h.after hs).1.dispatch hr.2.2)
    rw [doShutdown_of_shutdown ((take_orchestrator _ d).symm ▸ hs)]
    exact h.take
  | false =>
    have hs₁ : d₁.orchestrator.shutdown = false := hd.shutdown.trans hs
    obtain ⟨-, hcomplete, hrequest, hround⟩ := hg (shuts_of_finished hs hd ha)
    obtain ⟨o, chunk, rfl, hc⟩ := hd.frame
    refine resting_doShutdown hs₁ (fun hm => ?_) ⟨fun _ => ha, hcomplete, hrequest, hround⟩
    exact (List.mem_append.mp hm).elim (h.before hs) (hc _)

theorem Resting.stopped (h : Resting env d) (hg : Settled env d (.run .doShutdown now)) :
    Resting env (d.take .doShutdown).doShutdown := by
  cases hs : d.orchestrator.shutdown with
  | true =>
    rw [doShutdown_of_shutdown ((take_orchestrator _ d).symm ▸ hs)]
    exact h.take
  | false => exact resting_doShutdown hs (h.before hs) (hg ⟨hs, .inl rfl⟩)

theorem Resting.requested (h : Resting env d) (hr : d.Ready .doRequestMetrics) :
    Resting env (d.take .doRequestMetrics).doRequestMetrics := by
  refine h.write rfl rfl (by simp) fun _ hrest => ⟨?_, by simp [Noisy]⟩
  obtain ⟨hd, hm, hdispatch, hcomplete, hrequest, -⟩ := @AtRest.take _ _ .doRequestMetrics hrest
  refine ⟨hd, hm, hdispatch, hcomplete, hrequest, fun hne => ?_⟩
  rcases hrest.request hr.2.2 with hnil | ⟨t, ht, hst⟩
  · exact absurd (List.length_eq_zero_iff.mpr hnil) hne
  · obtain ⟨k, hk⟩ := List.mem_iff_getElem?.mp ht
    have hlt := (List.getElem?_eq_some_iff.mp hk).1
    refine ⟨k, t, hk, hst, Nat.lt_of_lt_of_le ?_ (Nat.le_add_left _ _)⟩
    exact List.count_pos_iff.mpr (List.mem_range.mpr hlt)

section Threads

variable {threads : List Thread} {j k : Nat} {t u : Thread} (t' : Thread)

theorem thread_set (hk : threads[k]? = some t) (hj : threads[j]? = some u) :
    (threads.set k t')[j]? = some t' ∧ j = k ∧ u = t ∨ (threads.set k t')[j]? = some u ∧ j ≠ k := by
  by_cases hjk : j = k
  · subst hjk
    exact .inl ⟨List.getElem?_set_self (List.getElem?_eq_some_iff.mp hk).1, rfl, Option.some.inj (hj.symm.trans hk)⟩
  · exact .inr ⟨by rwa [List.getElem?_set_ne (Ne.symm hjk)], hjk⟩

theorem ended_set (hk : threads[k]? = some t) (hs : t.status ≠ .running → t'.status ≠ .running)
    (h : threads = [] ∨ ∃ u ∈ threads, u.status ≠ .running) :
    threads.set k t' = [] ∨ ∃ u ∈ threads.set k t', u.status ≠ .running := by
  rcases h with rfl | ⟨u, hu, hst⟩
  · exact .inl rfl
  · obtain ⟨j, hj⟩ := List.mem_iff_getElem?.mp hu
    rcases thread_set t' hk hj with ⟨hset, -, rfl⟩ | ⟨hset, -⟩
    · exact .inr ⟨t', List.mem_of_getElem? hset, hs hst⟩
    · exact .inr ⟨u, List.mem_of_getElem? hset, hst⟩

end Threads

theorem AtRest.post {k : Nat} {requesting : List Nat} {t : Thread} (h : AtRest env d)
    (hq : d.requesting = k :: requesting) (ht : d.threads[k]? = some t) :
    AtRest env ({ d with requesting := requesting }.setThread k { t with pulls := t.pulls + 1 }) := by
  refine ⟨h.dispatchTimer, h.metricsTimer, h.dispatch, h.complete, fun hin => ended_set _ ht id (h.request hin),
    fun hne => ?_⟩
  obtain ⟨j, u, hj, hst, hpos⟩ := h.round hne
  rcases thread_set { t with pulls := t.pulls + 1 } ht hj with ⟨hset, rfl, rfl⟩ | ⟨hset, hjk⟩
  · exact ⟨j, _, hset, hst, Nat.lt_of_lt_of_le (Nat.succ_pos _) (Nat.le_add_right _ _)⟩
  · refine ⟨j, u, hset, hst, ?_⟩
    rw [hq, List.count_cons_of_ne (Ne.symm hjk)] at hpos
    exact hpos

/-- A round that waits for a thread that has ended cannot end. -/
theorem AtRest.pull {k : Nat} {snapshot : MetricsSnapshot} {t : Thread} {snapshots : List MetricsSnapshot}
    (h : AtRest env d) (hn : Rounds n d) (ht : d.thread k = some t) (hp : t.pulls ≠ 0) :
    AtRest env ({ d with shardMetricHistory := d.shardMetricHistory.set k (snapshots ++ [snapshot]) }.setThread k
      { t with pulls := t.pulls - 1 }).shardMetricsCallback := by
  obtain ⟨hk, hrun⟩ := thread_spec ht
  have hpending := hn.pending
  have hsum := sum_set_add 0 (waiting_of_thread hk)
  obtain ⟨j, u, hj, hst, hpos⟩ := h.round (by omega)
  have hjk : j ≠ k := by
    intro he
    subst he
    obtain rfl := Option.some.inj (hj.symm.trans hk)
    exact hst hrun
  have hlast : d.pendingMetricPulls - 1 ≠ 0 := by
    have hj' : (d.waiting.set k 0)[j]? = some u.pulls := by
      rw [List.getElem?_set_ne (Ne.symm hjk), waiting_of_thread hj]
    have hsum' := sum_set_add 0 hj'
    have hcount := List.count_le_length (a := j) (l := d.requesting)
    omega
  have hset : (d.threads.set k { t with pulls := t.pulls - 1 })[j]? = some u := by
    rwa [List.getElem?_set_ne (Ne.symm hjk)]
  have hready : ∀ handler, handler ∈ ({ d with shardMetricHistory := d.shardMetricHistory.set k (snapshots ++
      [snapshot]) }.setThread k { t with pulls := t.pulls - 1 }).shardMetricsCallback.ready → handler ∈ d.ready := by
    intro handler hm
    simpa [shardMetricsCallback, setThread, hlast] using hm
  exact ⟨h.dispatchTimer, h.metricsTimer, fun hin => h.dispatch (hready _ hin), fun hin => h.complete (hready _ hin),
    fun hin => ended_set _ hk id (h.request (hready _ hin)), fun _ => ⟨j, u, hset, hst, hpos⟩⟩

theorem AtRest.exit {k : Nat} {t : Thread} {status : ThreadStatus} (h : AtRest env d) (ht : d.thread k = some t)
    (hne : status ≠ .running) : AtRest env (d.setThread k { t with status := status }).shardExitCallback := by
  obtain ⟨hk, hrun⟩ := thread_spec ht
  have hready : ∀ handler, handler ∈ (d.setThread k { t with status := status }).shardExitCallback.ready →
      handler ≠ .lastShardExit → handler ∈ d.ready :=
    fun handler hm hne => (ready_of_shardExitCallback hm).resolve_right hne
  refine ⟨h.dispatchTimer, h.metricsTimer, fun hin => h.dispatch (hready _ hin (by simp)),
    fun hin => h.complete (hready _ hin (by simp)),
    fun hin => ended_set _ hk (fun _ => hne) (h.request (hready _ hin (by simp))), fun hp => ?_⟩
  obtain ⟨j, u, hj, hst, hpos⟩ := h.round hp
  rcases thread_set { t with status := status } hk hj with ⟨hset, rfl, rfl⟩ | ⟨hset, -⟩
  · exact ⟨j, _, hset, hne, hpos⟩
  · exact ⟨j, u, hset, hst, hpos⟩

theorem Resting.step (h : Resting env d) (hn : Rounds n d) (hg : Settled env d e) (hs : step env d e = some d') :
    Resting env d' := by
  have keep : ∀ {d' : Dispatcher}, d'.orchestrator = d.orchestrator → d'.log = d.log →
      (AtRest env d → AtRest env d') → Resting env d' := by
    intro d' ho hl hr
    exact h.write (by rw [ho]) (hl.trans (List.append_nil _).symm) (by simp) fun _ hrest => ⟨hr hrest, by simp⟩
  cases stepped_of_step hs with
  | armed hr hd ha hlt => exact h.armed hr hd ha
  | finished hr hd ha => exact h.finished hr hg hd ha
  | requested hr => exact h.requested hr
  | reported hr => exact h.write rfl (onMetricsRoundComplete_log _) (by simp) fun _ hrest => absurd hr.2.2 hrest.complete
  | stopped hr => exact h.stopped hg
  | left hr =>
    exact keep rfl rfl fun hrest => hrest.frame rfl rfl rfl (fun _ hm => .inl (List.mem_of_mem_erase hm)) rfl rfl rfl
  | posted hq ht => exact keep rfl rfl fun hrest => hrest.post hq ht
  | dispatchFired hr ht => exact keep rfl rfl fun hrest => absurd hrest.dispatchTimer ht
  | metricsFired hr ht => exact keep rfl rfl fun hrest => absurd ht (by simp [hrest.metricsTimer])
  | earlyStop =>
    exact keep rfl rfl fun hrest => hrest.frame hrest.dispatchTimer rfl rfl
      (fun _ hm => (List.mem_append.mp hm).imp id fun hm => .inl (by simpa using hm)) rfl rfl rfl
  | finish hw => exact keep rfl rfl fun hrest => hrest.frame hrest.dispatchTimer rfl rfl (fun _ => .inl) rfl rfl rfl
  | tasked ht hk hi hp =>
    exact h.write rfl rfl (by simp) fun _ hrest =>
      ⟨hrest.frame hrest.dispatchTimer rfl rfl (fun _ => .inl) rfl rfl rfl, by simp [Noisy]⟩
  | handled ht hk hp =>
    exact h.write rfl (List.append_nil _).symm (by simp) fun _ hrest =>
      ⟨hrest.frame hrest.dispatchTimer rfl rfl (fun _ => .inl) rfl rfl rfl, by simp⟩
  | pulled ht hh hp => exact keep rfl rfl fun hrest => hrest.pull hn ht hp
  | exited ht hk hc | failed ht => exact keep rfl rfl fun hrest => hrest.exit ht (by simp)

/-! ## Whole runs -/

/-- The orchestrator is quiet after the shutdown in every run where the
shutdown comes when nothing else is left to do. -/
theorem quiet_after_shutdown {es : List Event} (r : Run (step env) (Settled env) (init n) es d) : Quiet d.log := by
  have hinit : Resting env (init n) := ⟨fun _ => by simp [init], fun hs => by cases hs⟩
  exact (r.invariant (I := fun d => Rounds n d ∧ Resting env d)
    (fun _ _ _ h hg hs => ⟨h.1.step hs, h.2.step h.1 hg hs⟩) ⟨rounds_init, hinit⟩).2.quiet

section Example

def pausedEnv : OrchestratorEnv where
  actions := [⟨.CREATE, 0, 1, 1, 0⟩, ⟨.DISCONNECT, 0, 1, 0, 510⟩]
  session := ⟨.TCP, ⟨0, 0, false, false, 0⟩, []⟩

def calmRun : List Event :=
  [.run .dispatchPendingActions 0, .metricsTimer, .run .doRequestMetrics 500, .post, .pull 0 {},
    .run .onMetricsRoundComplete 501, .dispatchTimer, .run .dispatchPendingActions 510, .task 0, .task 0, .task 0,
    .exit 0, .run .lastShardExit 511, .finish]

theorem quiet_after_shutdown_calm : ∃ d, Run (step pausedEnv) (Settled pausedEnv) (init 1) calmRun d ∧
    .shutdown ∈ d.log ∧ Quiet d.log := by
  have hrun : ∃ d ∈ Runs.guarded (step pausedEnv) (Settled pausedEnv) (init 1) calmRun, .shutdown ∈ d.log := by
    decide +kernel
  obtain ⟨d, hd, hm⟩ := hrun
  exact ⟨d, Runs.run_of_guarded hd, hm, quiet_after_shutdown (Runs.run_of_guarded hd)⟩

def hastyRun : List Event :=
  [.run .dispatchPendingActions 0, .metricsTimer, .run .doRequestMetrics 509, .post, .earlyStop, .dispatchTimer,
    .run .doShutdown 510, .run .dispatchPendingActions 510, .pull 0 {}, .run .onMetricsRoundComplete 511]

/-- After the shutdown the last action is distributed and the metrics timer is
armed. -/
theorem not_quiet : ¬ ∀ (env : OrchestratorEnv) (n : Nat) (es : List Event) (d : Dispatcher),
    Run (step env) free (init n) es d → Quiet d.log := by
  intro h
  have hrun : ∃ d ∈ Runs.guarded (step pausedEnv) free (init 1) hastyRun,
      d.log.dropLast ++ [.armedMetrics] = d.log ∧ .shutdown ∈ d.log.dropLast := by
    decide +kernel
  obtain ⟨d, hd, hlast, hm⟩ := hrun
  have hquiet := h _ _ _ d (Runs.run_of_guarded hd)
  exact hquiet _ .armedMetrics ⟨[], by rw [List.append_nil, hlast]⟩ trivial hm

end Example

end Loadshear.Dispatcher
