import Loadshear.DispatchSound
import Loadshear.FeedSound
import Loadshear.IsolationSound
import Mathlib.Algebra.BigOperators.Group.List.Basic

/-!
# The orchestrator's thread leaves

The shards are gone, and nobody waits for the orchestrator's thread but its own
timers and handlers. These keep each other going: a wait ends in a handler, a
handler waits again. A measure goes down with each of them, and while the thread
has not returned one of them can go on.
-/

namespace Loadshear.Dispatcher

open Runs (Run)

def OnTime (now : Nat) : Effect → Prop
  | .armedDispatch deadline => deadline ≤ now
  | _ => True

instance (now : Nat) : ∀ x, Decidable (OnTime now x)
  | .armedDispatch _ => inferInstanceAs (Decidable (_ ≤ _))
  | .distributed .. | .armedMetrics | .shutdown | .stopped _ | .submitted .. | .handled .. | .requested | .reported _ =>
    inferInstanceAs (Decidable True)

/-- The clock is steady and a wait is not over before its time. -/
def Timely (d : Dispatcher) : Event → Prop
  | .run .dispatchPendingActions now => ∀ x ∈ d.log, OnTime now x
  | _ => True

instance (d : Dispatcher) : ∀ e, Decidable (Timely d e)
  | .run .dispatchPendingActions _ => inferInstanceAs (Decidable (∀ x ∈ _, _))
  | .run .doRequestMetrics _ | .run .onMetricsRoundComplete _ | .run .doShutdown _ | .run .lastShardExit _ | .post
  | .dispatchTimer | .metricsTimer | .earlyStop | .finish | .task _ | .handler .. | .pull .. | .exit _ | .fail _ =>
    inferInstanceAs (Decidable True)

def Punctual (d : Dispatcher) (e : Event) : Prop := d.returned = false ∧ Timely d e

instance (d : Dispatcher) (e : Event) : Decidable (Punctual d e) := inferInstanceAs (Decidable (_ ∧ _))

/-! ## The measure -/

def unawaited (env : OrchestratorEnv) (d : Dispatcher) : Nat :=
  match env.actions[d.orchestrator.currentActionIndx]? with
  | some action => if .armedDispatch action.offset ∈ d.log then 0 else 1
  | none => 0

def backlog (env : OrchestratorEnv) (d : Dispatcher) : Nat :=
  (env.actions.length - d.orchestrator.currentActionIndx) + unawaited env d

def weight (n : Nat) : Handler → Nat
  | .doRequestMetrics => n + 1
  | .onMetricsRoundComplete => n + 3
  | .dispatchPendingActions | .doShutdown | .lastShardExit => 1

/-- What the thread's own waits and handlers still lead to. -/
def upkeep (d : Dispatcher) : Nat :=
  (d.dispatchTimer.elim 0 fun _ => 2) + (bif d.metricsTimer then d.threads.length + 2 else 0) + d.requesting.length +
    (d.ready.map (weight d.threads.length)).sum + bif d.returned then 0 else 1

def work (env : OrchestratorEnv) (d : Dispatcher) : Nat := 2 * backlog env d + upkeep d

variable {env : OrchestratorEnv} {d d' : Dispatcher} {e : Event} {n now : Nat}

theorem unawaited_of_armed {action : ActionDescriptor} (ha : env.actions[d.orchestrator.currentActionIndx]? = some action)
    (hm : .armedDispatch action.offset ∈ d.log) : unawaited env d = 0 := by
  simp [unawaited, ha, hm]

theorem unawaited_of_not_armed {action : ActionDescriptor}
    (ha : env.actions[d.orchestrator.currentActionIndx]? = some action)
    (hm : .armedDispatch action.offset ∉ d.log) : unawaited env d = 1 := by
  simp [unawaited, ha, hm]

theorem backlog_le (hi : d.orchestrator.currentActionIndx = d'.orchestrator.currentActionIndx)
    (hl : d.log ⊆ d'.log) : backlog env d' ≤ backlog env d := by
  unfold backlog unawaited
  rw [hi]
  split
  · rename_i action ha
    by_cases hm : .armedDispatch action.offset ∈ d.log
    · rw [if_pos hm, if_pos (hl hm)]
    · rw [if_neg hm]
      split <;> omega
  · omega

theorem upkeep_take {h : Handler} (hr : h ∈ d.ready) : upkeep (d.take h) + weight d.threads.length h = upkeep d := by
  have hsum := List.sum_map_erase (weight d.threads.length) hr
  simp only [upkeep, take]
  omega

theorem upkeep_pass (r : Passed env now d d') : upkeep d' = upkeep d := by
  obtain ⟨o, chunk, rfl, -⟩ := r.frame
  rfl

theorem upkeep_doShutdown : upkeep d.doShutdown ≤ upkeep d := by
  cases hs : d.orchestrator.shutdown with
  | true => rw [doShutdown_of_shutdown hs]
  | false =>
    rw [doShutdown_of_not_shutdown hs]
    simp [upkeep]

theorem upkeep_scheduleNextAction (d : Dispatcher) (deadline : Nat) :
    upkeep (d.scheduleNextAction deadline) ≤ upkeep d + 2 := by
  simp only [upkeep, scheduleNextAction, write, Option.elim_some]
  omega

theorem upkeep_doRequestMetrics (hq : d.requesting = []) :
    upkeep d.doRequestMetrics = upkeep d + d.threads.length := by
  simp only [upkeep, doRequestMetrics, write, List.length_range, hq, List.length_nil]
  omega

theorem upkeep_onMetricsRoundComplete (d : Dispatcher) (now : Nat) :
    upkeep (d.onMetricsRoundComplete now) ≤ upkeep d + (d.threads.length + 2) := by
  simp only [upkeep, onMetricsRoundComplete, scheduleMetricsSnapshot, write, cond_true]
  omega

/-! ## What is left after a step -/

theorem Passed.index (r : Passed env now d d') :
    d' = d ∨ d.orchestrator.currentActionIndx < d'.orchestrator.currentActionIndx := by
  refine r.invariant
    (I := fun d' => d' = d ∨ d.orchestrator.currentActionIndx < d'.orchestrator.currentActionIndx)
    (fun d₁ d₂ action h _ _ hd => .inr ?_) (.inl rfl)
  obtain ⟨shards, -, rfl⟩ := distribute_spec hd
  rcases h with rfl | h
  · exact Nat.lt_succ_self _
  · exact Nat.lt_succ_of_lt h

/-- A wait for the next action: it is new, or the action is. -/
theorem backlog_armed {d₁ : Dispatcher} {action : ActionDescriptor} (ht : ∀ x ∈ d.log, OnTime now x)
    (r : Passed env now d d₁) (ha : env.actions[d₁.orchestrator.currentActionIndx]? = some action)
    (hlt : now < action.offset) : backlog env (d₁.scheduleNextAction action.offset) < backlog env d := by
  have hzero : unawaited env (d₁.scheduleNextAction action.offset) = 0 :=
    unawaited_of_armed ha (by simp [scheduleNextAction, write])
  have hidx := (List.getElem?_eq_some_iff.mp ha).1
  unfold backlog
  rw [hzero]
  rcases r.index with rfl | hi
  · have hone : unawaited env d₁ = 1 := unawaited_of_not_armed ha fun hm => absurd (ht _ hm) (Nat.not_le_of_lt hlt)
    rw [hone]
    exact Nat.lt_succ_self _
  · show env.actions.length - d₁.orchestrator.currentActionIndx + 0 < _
    omega

theorem backlog_doShutdown : backlog env d.doShutdown ≤ backlog env d := by
  cases hs : d.orchestrator.shutdown with
  | true => rw [doShutdown_of_shutdown hs]
  | false =>
    rw [doShutdown_of_not_shutdown hs]
    exact backlog_le rfl (List.subset_append_left _ _)

theorem backlog_eq_zero (hi : env.actions.length ≤ d.orchestrator.currentActionIndx) : backlog env d = 0 := by
  have hnone : unawaited env d = 0 := by simp [unawaited, List.getElem?_eq_none hi]
  rw [backlog, hnone, Nat.sub_eq_zero_of_le hi]

/-- No thread of a shard is there to do anything. -/
def Gone (d : Dispatcher) : Prop := ∀ t ∈ d.threads, t.status ≠ .running

instance : Decidable (Gone d) := inferInstanceAs (Decidable (∀ t ∈ _, _))

theorem Gone.thread (h : Gone d) {k : Nat} {t : Thread} : d.thread k ≠ some t := by
  intro ht
  obtain ⟨ht, hr⟩ := thread_spec ht
  exact h t (List.mem_of_getElem? ht) hr

theorem Gone.setPulls (h : Gone d) {k pulls : Nat} {t : Thread} (ht : d.threads[k]? = some t) :
    Gone (d.setThread k { t with pulls := pulls }) := by
  intro t' ht'
  rcases List.mem_or_eq_of_mem_set ht' with hm | rfl
  · exact h t' hm
  · exact h t (List.mem_of_getElem? ht)

theorem Gone.pass (h : Gone d) (r : Passed env now d d') : Gone d' := by
  obtain ⟨o, chunk, rfl, -⟩ := r.frame
  exact h

theorem Gone.doShutdown (h : Gone d) : Gone d.doShutdown := by
  obtain ⟨o, deadline, armed, chunk, hd⟩ := doShutdown_frame d
  rw [hd]
  exact h

theorem Gone.step (h : Gone d) (hs : step env d e = some d') : Gone d' := by
  have htake : ∀ {handler : Handler}, Gone (d.take handler) := h
  cases stepped_of_step hs with
  | armed hr hd ha hlt =>
    have hpass := htake.pass hd
    exact hpass
  | finished hr hd ha => exact (htake.pass hd).doShutdown
  | stopped hr => exact htake.doShutdown
  | posted hq ht => exact h.setPulls ht
  | tasked ht | handled ht | pulled ht | exited ht | failed ht => exact absurd ht h.thread
  | _ => exact h

theorem work_lt {k : Nat} (hb : backlog env d' ≤ backlog env d) (hu : upkeep d' < upkeep d + k) :
    work env d' < work env d + k := by
  unfold work
  omega

/-- The work goes down, an early stop apart. -/
theorem work_step (hg : Gone d) (hp : Punctual d e) (hs : step env d e = some d') :
    work env d' < work env d + if e == .earlyStop then 2 else 0 := by
  obtain ⟨hret, htime⟩ := hp
  cases stepped_of_step hs with
  | @armed now d₁ action hr hd ha hlt =>
    have hb := backlog_armed (d := d.take .dispatchPendingActions) htime hd ha hlt
    have hu := upkeep_take hr.2.2
    have hup := upkeep_pass hd
    have hus := upkeep_scheduleNextAction d₁ action.offset
    have hbt : backlog env (d.take .dispatchPendingActions) = backlog env d := rfl
    rw [weight] at hu
    unfold work
    omega
  | @finished now d₁ hr hd ha =>
    have hu := upkeep_take hr.2.2
    have hup := upkeep_pass hd
    have hus := upkeep_doShutdown (d := d₁)
    rw [weight] at hu
    refine work_lt (Nat.le_trans backlog_doShutdown ?_) (by omega)
    rw [backlog_eq_zero ha]
    exact Nat.zero_le _
  | @requested now hr =>
    have hu := upkeep_take hr.2.2
    have hus := upkeep_doRequestMetrics (d := d.take .doRequestMetrics) hr.2.1
    have hn : (d.take .doRequestMetrics).threads.length = d.threads.length := rfl
    rw [weight] at hu
    exact work_lt (backlog_le rfl (by simp [doRequestMetrics, write, take])) (by omega)
  | @reported now hr =>
    have hu := upkeep_take hr.2.2
    have hus := upkeep_onMetricsRoundComplete (d.take .onMetricsRoundComplete) now
    have hn : (d.take .onMetricsRoundComplete).threads.length = d.threads.length := rfl
    rw [weight] at hu
    refine work_lt (backlog_le rfl ?_) (by omega)
    rw [onMetricsRoundComplete_log]
    exact List.subset_append_left _ _
  | @stopped now hr =>
    have hu := upkeep_take hr.2.2
    have hus := upkeep_doShutdown (d := d.take .doShutdown)
    rw [weight] at hu
    exact work_lt backlog_doShutdown (by omega)
  | @left now hr =>
    have hu := upkeep_take hr.2.2
    rw [weight] at hu
    refine work_lt (backlog_le rfl (List.Subset.refl _)) ?_
    simp [upkeep] at hu ⊢
    omega
  | posted hq ht =>
    refine work_lt (backlog_le rfl (List.Subset.refl _)) ?_
    simp [upkeep, setThread, hq]
  | dispatchFired hr ht =>
    obtain ⟨deadline, ht⟩ := Option.ne_none_iff_exists'.mp ht
    refine work_lt (backlog_le rfl (List.Subset.refl _)) ?_
    simp [upkeep, ht, weight]
    omega
  | metricsFired hr ht =>
    refine work_lt (backlog_le rfl (List.Subset.refl _)) ?_
    simp [upkeep, ht, weight]
    omega
  | earlyStop =>
    refine work_lt (backlog_le rfl (List.Subset.refl _)) ?_
    simp [upkeep, weight]
    omega
  | finish hw =>
    refine work_lt (backlog_le rfl (List.Subset.refl _)) ?_
    simp [upkeep, hret]
  | tasked ht | handled ht | pulled ht | exited ht | failed ht => exact absurd ht hg.thread

/-! ## A step that can be taken -/

structure Leaving (d : Dispatcher) : Prop where
  requesting : ∀ k ∈ d.requesting, k < d.threads.length
  last : d.activeShards = 0 → .lastShardExit ∈ d.ready ∨ d.workGuard = false

theorem Leaving.frame (h : Leaving d) (hq : d'.requesting = d.requesting) (ht : d'.threads.length = d.threads.length)
    (ha : d'.activeShards = d.activeShards) (hw : d'.workGuard = d.workGuard)
    (hr : .lastShardExit ∈ d.ready → .lastShardExit ∈ d'.ready) : Leaving d' where
  requesting := by
    rw [hq, ht]
    exact h.requesting
  last := by
    rw [ha, hw]
    exact fun hz => (h.last hz).imp_left hr

theorem Leaving.take {handler : Handler} (h : Leaving d) (hne : handler ≠ .lastShardExit) : Leaving (d.take handler) :=
  h.frame rfl rfl rfl rfl fun hm => (List.mem_erase_of_ne hne.symm).mpr hm

theorem Leaving.pass (h : Leaving d) (r : Passed env now d d') : Leaving d' := by
  obtain ⟨o, chunk, rfl, -⟩ := r.frame
  exact h.frame rfl rfl rfl rfl id

theorem Leaving.doShutdown (h : Leaving d) : Leaving d.doShutdown := by
  obtain ⟨o, deadline, armed, chunk, hd⟩ := doShutdown_frame d
  rw [hd]
  exact h.frame rfl rfl rfl rfl id

theorem Leaving.exit {k : Nat} {t : Thread} (h : Leaving d) : Leaving (d.setThread k t).shardExitCallback where
  requesting := by simpa [shardExitCallback, setThread] using h.requesting
  last := by
    intro hz
    refine .inl ?_
    have hz : d.activeShards - 1 = 0 := hz
    simp [shardExitCallback, setThread, hz]

theorem mem_shardMetricsCallback {handler : Handler} (h : handler ∈ d.ready) :
    handler ∈ d.shardMetricsCallback.ready := by
  simp only [shardMetricsCallback]
  split
  · exact List.mem_append_left _ h
  · exact h

theorem Leaving.step (h : Leaving d) (hs : step env d e = some d') : Leaving d' := by
  cases stepped_of_step hs with
  | armed hr hd ha hlt => exact ((h.take (by simp)).pass hd).frame rfl rfl rfl rfl id
  | finished hr hd ha => exact ((h.take (by simp)).pass hd).doShutdown
  | requested hr =>
    have ht : Leaving (d.take .doRequestMetrics) := h.take (by simp)
    exact ⟨fun k hk => List.mem_range.mp hk, ht.last⟩
  | reported hr => exact (h.take (by simp)).frame rfl rfl rfl rfl id
  | stopped hr => exact (h.take (by simp)).doShutdown
  | left hr => exact ⟨h.requesting, fun _ => .inr rfl⟩
  | posted hq ht =>
    refine ⟨fun k hk => ?_, h.last⟩
    rw [setThread, List.length_set]
    exact h.requesting k (hq ▸ List.mem_cons_of_mem _ hk)
  | pulled ht hh hp =>
    exact h.frame rfl (by simp [setThread, shardMetricsCallback]) rfl rfl fun hm => mem_shardMetricsCallback hm
  | exited ht hk hc | failed ht => exact h.exit
  | finish hw => exact h.frame rfl rfl rfl rfl id
  | tasked ht hk hi hp => exact h.frame rfl rfl rfl rfl id
  | handled ht hk hp => exact h.frame rfl rfl rfl rfl id
  | dispatchFired | metricsFired | earlyStop => exact h.frame rfl rfl rfl rfl fun hm => List.mem_append_left _ hm

theorem leaving_of_run {G : Dispatcher → Event → Prop} {es : List Event} (hn : 0 < n)
    (r : Run (Dispatcher.step env) G (init n) es d) : Leaving d :=
  r.invariant (fun _ _ _ h _ hs => h.step hs) ⟨by simp [init], fun hz => absurd hz (Nat.ne_of_gt hn)⟩

def Fed (env : OrchestratorEnv) (n : Nat) (o : Orchestrator) : Prop :=
  ∃ past, Orchestrator.Feeds env (fun _ _ _ _ => True) True n past o

open Orchestrator (Opens)

theorem distribute_isSome {action : ActionDescriptor} (now : Nat) (h : Fed env n d.orchestrator) (ho : Opens env.actions n)
    (ha : env.actions[d.orchestrator.currentActionIndx]? = some action) :
    ∃ d', d.distribute action now = some d' ∧ Fed env n d'.orchestrator := by
  obtain ⟨past, h⟩ := h
  have hlen : d.orchestrator.shards.length ≤ (d.orchestrator.rangesFor action).length := by
    rw [h.rangesFor ho ha, Orchestrator.rangesOf_length ho, h.shards]
  obtain ⟨shards, hs⟩ := Option.isSome_iff_exists.mp (Orchestrator.submitAll_isSome hlen)
  have hd : (d.orchestrator.distributeActionToShards action) =
      some { d.orchestrator with shards := shards, shardRanges := d.orchestrator.rangesFor action } := by
    show (Orchestrator.submitAll action d.orchestrator.shards (d.orchestrator.rangesFor action)).map _ = _
    rw [hs]
    rfl
  exact ⟨_, by rw [distribute, hd, Option.map_some], _, h.step ho Orchestrator.handles_true (.dispatched ha hs)⟩

theorem dispatchLoop_isSome (ho : Opens env.actions n) : ∀ {rest : List ActionDescriptor} {d : Dispatcher},
    Fed env n d.orchestrator → env.actions.drop d.orchestrator.currentActionIndx = rest →
    (dispatchLoop now rest d).isSome
  | [], _, _, _ => rfl
  | action :: rest, d, h, hr => by
    have ha : env.actions[d.orchestrator.currentActionIndx]? = some action := by
      rw [← Nat.add_zero d.orchestrator.currentActionIndx, ← List.getElem?_drop, hr]
      rfl
    unfold dispatchLoop
    split
    · rfl
    · obtain ⟨d', hd, h'⟩ := distribute_isSome now h ho ha
      have hr' : env.actions.drop d'.orchestrator.currentActionIndx = rest := by
        obtain ⟨shards, -, rfl⟩ := distribute_spec hd
        rw [← List.tail_drop, hr]
        rfl
      rw [hd, Option.bind_some]
      exact dispatchLoop_isSome ho h' hr'

theorem OnTime.mono {later : Nat} {x : Effect} (hle : now ≤ later) (h : OnTime now x) : OnTime later x := by
  cases x with
  | armedDispatch deadline => exact Nat.le_trans h hle
  | _ => trivial

theorem exists_onTime : ∀ log : List Effect, ∃ now, ∀ x ∈ log, OnTime now x
  | [] => ⟨0, by simp⟩
  | x :: log => by
    obtain ⟨now, h⟩ := exists_onTime log
    obtain ⟨first, hx⟩ : ∃ first, OnTime first x := by
      cases x with
      | armedDispatch deadline => exact ⟨deadline, Nat.le_refl _⟩
      | _ => exact ⟨0, trivial⟩
    refine ⟨max first now, fun y hy => ?_⟩
    rcases List.mem_cons.mp hy with rfl | hy
    · exact hx.mono (Nat.le_max_left _ _)
    · exact (h y hy).mono (Nat.le_max_right _ _)

theorem runHandler_isSome (now : Nat) (h : Fed env n d.orchestrator) (ho : Opens env.actions n) (handler : Handler) :
    (d.runHandler env now handler).isSome := by
  cases handler with
  | dispatchPendingActions => exact dispatchLoop_isSome ho h rfl
  | _ => rfl

/-- While the thread has not returned, something of its own can go on. -/
theorem exists_step (h : Leaving d) (he : Ended n d) (hf : Fed env n d.orchestrator) (ho : Opens env.actions n)
    (hg : Gone d) (hr : d.returned = false) :
    ∃ e ≠ .earlyStop, ∃ d', Punctual d e ∧ step env d e = some d' := by
  have can : ∀ {e : Event}, e ≠ .earlyStop → Timely d e → (step env d e).isSome →
      ∃ e ≠ .earlyStop, ∃ d', Punctual d e ∧ step env d e = some d' := by
    intro e hne ht hs
    obtain ⟨d', hs⟩ := Option.isSome_iff_exists.mp hs
    exact ⟨e, hne, d', ⟨hr, ht⟩, hs⟩
  cases hq : d.requesting with
  | cons k requesting =>
    have hk := h.requesting k (by simp [hq])
    exact @can .post (by simp) trivial (by simp [step, hq, List.getElem?_eq_getElem hk])
  | nil =>
    cases hready : d.ready with
    | cons handler ready =>
      obtain ⟨now, ht⟩ := exists_onTime d.log
      have hrun := runHandler_isSome (d := d.take handler) now hf ho handler
      rw [take, hready] at hrun
      refine @can (.run handler now) (by simp) ?_ (by simpa [step, hr, hq, hready] using hrun)
      cases handler with
      | dispatchPendingActions => exact ht
      | _ => trivial
    | nil =>
      cases ht : d.dispatchTimer with
      | some deadline => exact @can .dispatchTimer (by simp) trivial (by simp [step, hr, ht])
      | none =>
        cases hm : d.metricsTimer with
        | true => exact @can .metricsTimer (by simp) trivial (by simp [step, hr, hm])
        | false =>
          have hz : d.activeShards = 0 := by
            rw [he.active, List.countP_eq_zero]
            exact fun t ht => by simpa using hg t ht
          have hw : d.workGuard = false := (h.last hz).resolve_left (by simp [hready])
          exact @can .finish (by simp) trivial (by simp [step, hw, hready, hq, ht, hm])

/-- Once the last shard of an accepted script's run is gone, in whatever way,
the orchestrator's thread has a bounded number of steps to go, two more for an
early stop, and a step to take until it has returned. -/
theorem winds_down {env : Env} {script : DSLData} {plan : ExecutionPlan} (h : Accepted env script plan)
    (hc : OpensWithCreate script.orchestrator.actions) {es : List Event} {d : Dispatcher}
    (r : Run (step (plan.orchestratorEnv script.settings)) free (init plan.shardCount) es d) (hg : Gone d)
    {es' : List Event} {d' : Dispatcher} (r' : Run (step (plan.orchestratorEnv script.settings)) Punctual d es' d') :
    es'.length + work (plan.orchestratorEnv script.settings) d' ≤
        work (plan.orchestratorEnv script.settings) d + 2 * es'.count .earlyStop ∧
      (d'.returned = false → ∃ e ≠ .earlyStop, ∃ d'', Punctual d' e ∧
        step (plan.orchestratorEnv script.settings) d' e = some d'') := by
  have ho := h.opens hc
  obtain ⟨hg', hle⟩ := r'.length_le (I := Gone) (p := (· == .earlyStop)) (c := 2)
    (fun _ _ _ hg hp hs => ⟨hg.step hs, work_step hg hp hs⟩) hg
  refine ⟨hle, fun hr => ?_⟩
  have rall := r.trans (r'.mono fun _ _ _ => trivial)
  have hf : Fed (plan.orchestratorEnv script.settings) plan.shardCount d'.orchestrator := ⟨_, feeds_of_run ho rall⟩
  exact exists_step (leaving_of_run ho.pos rall) (sound_of_run rall).ended hf ho hg' hr

def lostRun : List Event := [.run .dispatchPendingActions 250, .fail 0]

def leaveRun : List Event :=
  [.dispatchTimer, .run .lastShardExit 501, .run .dispatchPendingActions 520, .metricsTimer,
    .run .doRequestMetrics 530, .post, .dispatchTimer, .run .dispatchPendingActions 1000]

theorem winds_down_lost : ∃ (plan : ExecutionPlan) (d d' : Dispatcher),
    Run (step (plan.orchestratorEnv Orchestrator.splitScript.settings)) free (init plan.shardCount) lostRun d ∧
      Gone d ∧ Run (step (plan.orchestratorEnv Orchestrator.splitScript.settings)) Punctual d leaveRun d' ∧
      work (plan.orchestratorEnv Orchestrator.splitScript.settings) d' + 8 ≤
        work (plan.orchestratorEnv Orchestrator.splitScript.settings) d ∧
      ∃ e ≠ .earlyStop, ∃ d'', Punctual d' e ∧
        step (plan.orchestratorEnv Orchestrator.splitScript.settings) d' e = some d'' := by
  have h : planRun plainEnv Orchestrator.splitScript (init ·.shardCount)
      (step <| ·.orchestratorEnv Orchestrator.splitScript.settings) (fun _ => free) lostRun (fun plan d => Gone d ∧
        (Runs.guarded (step (plan.orchestratorEnv Orchestrator.splitScript.settings)) Punctual d leaveRun).any
          (·.returned = false) = true) = true := by
    decide +kernel
  obtain ⟨plan, d, hp, r, hg, hleave⟩ := exists_of_planRun h
  obtain ⟨d', hd, hr⟩ := (Option.any_eq_true _ _).mp hleave
  have r' := Runs.run_of_guarded hd
  obtain ⟨hle, hnext⟩ := winds_down ⟨⟨_, _, Orchestrator.split_accepted⟩, _, hp⟩ ⟨_, rfl, rfl⟩ r hg r'
  refine ⟨plan, d, d', r, hg, r', ?_, hnext (by simpa using hr)⟩
  have hlen : leaveRun.length = 8 := rfl
  have hcount : leaveRun.count .earlyStop = 0 := rfl
  omega

end Loadshear.Dispatcher
