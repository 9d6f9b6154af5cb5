import Loadshear.DispatcherSound
import Mathlib.Algebra.BigOperators.Group.List.Basic
import Mathlib.Data.List.Nodup

/-!
# Rounds of metrics

One round is under way at a time. It is over when each shard has written down
one more snapshot, so the reported aggregates are those of the rounds and the
reported changes add up.
-/

namespace Loadshear.Dispatcher

open Runs (Run)

def reports (log : List Effect) : List MetricsAggregate :=
  log.filterMap fun
    | .reported data => some data
    | _ => none

@[simp] theorem reports_append {log log' : List Effect} : reports (log ++ log') = reports log ++ reports log' :=
  List.filterMap_append

def waiting (d : Dispatcher) : List Nat := d.threads.map (·.pulls)

/-- A round is under way: pulls are pending, or its end is. -/
def inRound (d : Dispatcher) : Nat := (if d.pendingMetricPulls = 0 then 0 else 1) + d.ready.count .onMetricsRoundComplete

def upcoming (d : Dispatcher) : Nat := d.metricsTimer.toNat + d.ready.count .doRequestMetrics

/-- A report is the aggregate of its round. -/
def Reported (histories : List (List MetricsSnapshot)) (j : Nat) (data : MetricsAggregate) : Prop :=
  ∀ c, data.currentSnapshotAggregate.get c = total c (roundOf j histories) ∧
    data.changeAggregate.get c = difference (total c (roundOf j histories))
      (if j = 0 then 0 else total c (roundOf (j - 1) histories))

structure Rounds (n : Nat) (d : Dispatcher) : Prop where
  threads : d.threads.length = n
  histories : d.shardMetricHistory.length = n
  once : d.upcoming + d.inRound ≤ 1
  requests : d.log.count .requested + d.upcoming ≤ (reports d.log).length + 1
  pending : d.pendingMetricPulls = d.waiting.sum + d.requesting.length
  awaited : ∀ (k p : Nat), d.waiting[k]? = some p → p + d.requesting.count k ≤ d.inRound
  lengths : ∀ (k p : Nat) (h : List MetricsSnapshot), d.waiting[k]? = some p → d.shardMetricHistory[k]? = some h →
    h.length + p + d.requesting.count k = (reports d.log).length + d.inRound
  reported : ∀ (j : Nat) (data : MetricsAggregate), (reports d.log)[j]? = some data →
    Reported d.shardMetricHistory j data

variable {env : OrchestratorEnv} {d d' : Dispatcher} {e : Event} {n now : Nat}

/-! ## Sums and histories -/

theorem sum_set_add : ∀ {l : List Nat} {k x : Nat} (y : Nat), l[k]? = some x → (l.set k y).sum + x = l.sum + y
  | z :: l, 0, x, y, h => by
    obtain rfl : z = x := by simpa using h
    simp [Nat.add_comm, Nat.add_left_comm]
  | z :: l, k + 1, x, y, h => by
    have ih := sum_set_add (l := l) y (by simpa using h)
    simp
    omega
  | [], _, _, _, h => by simp at h

theorem waiting_setThread {k : Nat} {t : Thread} : (d.setThread k t).waiting = d.waiting.set k t.pulls := by
  simp [waiting, setThread, List.map_set]

theorem waiting_of_thread {k : Nat} {t : Thread} (h : d.threads[k]? = some t) : d.waiting[k]? = some t.pulls := by
  simp [waiting, h]

theorem roundOf_set {histories : List (List MetricsSnapshot)} {j k : Nat} {h more : List MetricsSnapshot}
    (hk : histories[k]? = some h) (hj : j < h.length) :
    roundOf j (histories.set k (h ++ more)) = roundOf j histories := by
  induction histories generalizing k with
  | nil => rfl
  | cons h' histories ih =>
    cases k with
    | zero =>
      obtain rfl : h' = h := by simpa using hk
      simp only [List.set_cons_zero, roundOf, List.filterMap_cons, List.getElem?_append_left hj]
    | succ k =>
      have ih := ih (k := k) (by simpa using hk)
      simp only [roundOf] at ih
      simp [roundOf, List.filterMap_cons, ih]

theorem Rounds.waiting_of_history (h : Rounds n d) {k : Nat} {snapshots : List MetricsSnapshot}
    (hk : d.shardMetricHistory[k]? = some snapshots) : ∃ p, d.waiting[k]? = some p := by
  refine ⟨_, List.getElem?_eq_getElem ?_⟩
  rw [waiting, List.length_map, h.threads, ← h.histories]
  exact (List.getElem?_eq_some_iff.mp hk).1

theorem Rounds.length_le (h : Rounds n d) {k : Nat} {snapshots : List MetricsSnapshot}
    (hk : d.shardMetricHistory[k]? = some snapshots) : (reports d.log).length ≤ snapshots.length := by
  obtain ⟨p, hp⟩ := h.waiting_of_history hk
  have h₁ := h.awaited k p hp
  have h₂ := h.lengths k p _ hp hk
  omega

/-! ## Steps -/

/-- Steps that the rounds do not see. A timer may be disarmed. -/
theorem Rounds.frame {chunk : List Effect} (h : Rounds n d) (hw : d'.waiting = d.waiting)
    (hh : d'.shardMetricHistory = d.shardMetricHistory) (hq : d'.requesting = d.requesting)
    (hp : d'.pendingMetricPulls = d.pendingMetricPulls)
    (hr : d'.ready.count .onMetricsRoundComplete = d.ready.count .onMetricsRoundComplete)
    (hu : d'.upcoming ≤ d.upcoming) (hl : d'.log = d.log ++ chunk) (hc : chunk.count .requested = 0)
    (hc' : reports chunk = []) : Rounds n d' := by
  have hreports : reports d'.log = reports d.log := by rw [hl, reports_append, hc', List.append_nil]
  have hin : d'.inRound = d.inRound := by rw [inRound, inRound, hp, hr]
  constructor
  · simpa [waiting] using congrArg List.length hw |>.trans (by simp [waiting, h.threads])
  · rw [hh, h.histories]
  · have := h.once
    omega
  · have := h.requests
    rw [hreports, hl, List.count_append, hc]
    omega
  · rw [hp, hw, hq, h.pending]
  · rw [hw, hq, hin]
    exact h.awaited
  · rw [hw, hq, hin, hh, hreports]
    exact h.lengths
  · rw [hreports, hh]
    exact h.reported

theorem inRound_eq_zero : d.inRound = 0 ↔ d.pendingMetricPulls = 0 ∧ .onMetricsRoundComplete ∉ d.ready := by
  unfold inRound
  by_cases hp : d.pendingMetricPulls = 0 <;> simp [hp, List.count_eq_zero]

theorem count_take {h : Handler} (hr : d.Ready h) : (d.take h).ready.count h + 1 = d.ready.count h := by
  have hpos := List.count_pos_iff.mpr hr.2.2
  rw [take, List.count_erase_self]
  omega

theorem count_take_of_ne {h h' : Handler} (hne : h' ≠ h) : (d.take h).ready.count h' = d.ready.count h' :=
  List.count_erase_of_ne hne

/-- While no pull is pending nothing is awaited, and the histories are level. -/
theorem Rounds.level (h : Rounds n d) (hp : d.pendingMetricPulls = 0) :
    (∀ (k p : Nat), d.waiting[k]? = some p → p = 0) ∧ d.waiting.sum = 0 ∧ d.requesting = [] ∧
      ∀ snapshots ∈ d.shardMetricHistory, snapshots.length = (reports d.log).length + d.inRound := by
  have hpending := h.pending
  rw [hp] at hpending
  have hzero : ∀ (k p : Nat), d.waiting[k]? = some p → p = 0 := by
    intro k p hk
    have := sum_set_add 0 hk
    omega
  have hnil : d.requesting = [] := List.length_eq_zero_iff.mp (by omega)
  refine ⟨hzero, by omega, hnil, fun s hs => ?_⟩
  obtain ⟨k, hk⟩ := List.mem_iff_getElem?.mp hs
  obtain ⟨p, hw⟩ := h.waiting_of_history hk
  have hlen := h.lengths k p s hw hk
  rwa [hzero k p hw, hnil] at hlen

theorem Rounds.request (h : Rounds n d) (hr : d.Ready .doRequestMetrics) :
    Rounds n (d.take .doRequestMetrics).doRequestMetrics := by
  have hcount := count_take hr
  have hdone : (d.take .doRequestMetrics).ready.count .onMetricsRoundComplete =
      d.ready.count .onMetricsRoundComplete := count_take_of_ne (by simp)
  have hup : upcoming (d.take .doRequestMetrics).doRequestMetrics + 1 = d.upcoming := by
    show d.metricsTimer.toNat + (d.take .doRequestMetrics).ready.count .doRequestMetrics + 1 = _
    rw [upcoming]
    omega
  have honce := h.once
  have hin : d.inRound = 0 := by omega
  have hin' : inRound (d.take .doRequestMetrics).doRequestMetrics = if n = 0 then 0 else 1 := by
    have hnone := List.count_eq_zero.mpr (inRound_eq_zero.mp hin).2
    show (if d.threads.length = 0 then 0 else 1) + (d.take .doRequestMetrics).ready.count .onMetricsRoundComplete = _
    rw [hdone, hnone, h.threads, Nat.add_zero]
  have hreports : reports (d.take .doRequestMetrics).doRequestMetrics.log = reports d.log := by
    show reports (d.log ++ [.requested]) = _
    rw [reports_append]
    exact List.append_nil _
  obtain ⟨hzero, hsum, -, hlevel⟩ := h.level (inRound_eq_zero.mp hin).1
  have hcount : ∀ (k p : Nat), d.waiting[k]? = some p → (List.range d.threads.length).count k = 1 ∧ n ≠ 0 := by
    intro k p hk
    have hlt : k < d.threads.length := by simpa [waiting] using (List.getElem?_eq_some_iff.mp hk).1
    have hne : n ≠ 0 := by
      rw [← h.threads]
      omega
    exact ⟨List.count_eq_one_of_mem List.nodup_range (List.mem_range.mpr hlt), hne⟩
  constructor
  · exact h.threads
  · exact h.histories
  · rw [hin']
    split <;> omega
  · have hreq := h.requests
    rw [hreports]
    show (d.log ++ [Effect.requested]).count Effect.requested + _ ≤ _
    rw [List.count_append, List.count_singleton_self]
    omega
  · show d.threads.length = d.waiting.sum + (List.range d.threads.length).length
    rw [hsum, List.length_range, Nat.zero_add]
  · intro k p hk
    have hk : d.waiting[k]? = some p := hk
    show p + (List.range d.threads.length).count k ≤ _
    rw [hzero k p hk, (hcount k p hk).1, hin', if_neg (hcount k p hk).2]
  · intro k p snapshots hk hs
    have hk : d.waiting[k]? = some p := hk
    rw [hreports]
    show snapshots.length + p + (List.range d.threads.length).count k = _
    rw [hzero k p hk, (hcount k p hk).1, hin', if_neg (hcount k p hk).2, hlevel _ (List.mem_of_getElem? hs), hin]
  · rw [hreports]
    exact h.reported

/-- When its end is due, the round is the only one and no pull is left. -/
theorem Rounds.complete (h : Rounds n d) (hr : .onMetricsRoundComplete ∈ d.ready) :
    d.ready.count .onMetricsRoundComplete = 1 ∧ d.pendingMetricPulls = 0 ∧ d.upcoming = 0 ∧ d.inRound = 1 := by
  have hpos := List.count_pos_iff.mpr hr
  have honce := h.once
  unfold inRound at honce ⊢
  by_cases hp : d.pendingMetricPulls = 0
  · rw [if_pos hp] at honce ⊢
    exact ⟨by omega, hp, by omega, by omega⟩
  · rw [if_neg hp] at honce
    omega

theorem Rounds.report (h : Rounds n d) (hr : d.Ready .onMetricsRoundComplete) :
    Rounds n ((d.take .onMetricsRoundComplete).onMetricsRoundComplete now) := by
  have hcount := count_take hr
  have hreq : (d.take .onMetricsRoundComplete).ready.count .doRequestMetrics = d.ready.count .doRequestMetrics :=
    count_take_of_ne (by simp)
  obtain ⟨hdone, hpz, hup, hin⟩ := h.complete hr.2.2
  obtain ⟨hzero, hsum, hnil, hlevel⟩ := h.level hpz
  rw [hin] at hlevel
  have hin' : inRound ((d.take .onMetricsRoundComplete).onMetricsRoundComplete now) = 0 :=
    inRound_eq_zero.mpr ⟨hpz, List.count_eq_zero.mp (Nat.succ.inj (hcount.trans hdone))⟩
  have hup' : upcoming ((d.take .onMetricsRoundComplete).onMetricsRoundComplete now) = 1 := by
    show true.toNat + (d.take .onMetricsRoundComplete).ready.count .doRequestMetrics = 1
    rw [hreq, Bool.toNat_true]
    unfold upcoming at hup
    omega
  have hreports : reports ((d.take .onMetricsRoundComplete).onMetricsRoundComplete now).log =
      reports d.log ++ [getAggregateDelta d.shardMetricHistory now] := by
    rw [onMetricsRoundComplete_log, reports_append]
    rfl
  have hlength : (reports ((d.take .onMetricsRoundComplete).onMetricsRoundComplete now).log).length =
      (reports d.log).length + 1 := by rw [hreports, List.length_append, List.length_singleton]
  constructor
  · exact h.threads
  · exact h.histories
  · omega
  · have hreq := h.requests
    rw [hlength, onMetricsRoundComplete_log, List.count_append]
    show d.log.count .requested + 0 + _ ≤ _
    omega
  · exact h.pending
  · intro k p hk
    rw [hzero k p hk, hin']
    show 0 + d.requesting.count k ≤ 0
    rw [hnil]
    rfl
  · intro k p snapshots hk hs
    rw [hzero k p hk, hin', hlength]
    show snapshots.length + 0 + d.requesting.count k = _
    rw [hnil, hlevel _ (List.mem_of_getElem? hs)]
    rfl
  · intro j data hj
    rw [hreports] at hj
    rcases Nat.lt_or_ge j (reports d.log).length with hlt | hge
    · rw [List.getElem?_append_left hlt] at hj
      exact h.reported j data hj
    · rw [List.getElem?_append_right hge, List.getElem?_singleton] at hj
      split at hj
      · obtain rfl := Option.some.inj hj
        obtain rfl : j = (reports d.log).length := by omega
        exact fun c => getAggregateDelta_spec c hlevel
      · cases hj

theorem Rounds.post {k : Nat} {requesting : List Nat} {t : Thread} (h : Rounds n d)
    (hq : d.requesting = k :: requesting) (ht : d.threads[k]? = some t) :
    Rounds n ({ d with requesting := requesting }.setThread k { t with pulls := t.pulls + 1 }) := by
  have hw : d.waiting[k]? = some t.pulls := waiting_of_thread ht
  have hlt : k < d.waiting.length := (List.getElem?_eq_some_iff.mp hw).1
  -- A post moves what is awaited of `k` from the loop to the thread.
  have hmove : ∀ (j p : Nat), (d.waiting.set k (t.pulls + 1))[j]? = some p →
      ∃ q, d.waiting[j]? = some q ∧ p + requesting.count j = q + d.requesting.count j := by
    intro j p hj
    rw [hq, List.count_cons]
    by_cases hjk : k = j
    · subst hjk
      rw [List.getElem?_set_self hlt] at hj
      obtain rfl := Option.some.inj hj
      exact ⟨_, hw, by simp; omega⟩
    · rw [List.getElem?_set_ne hjk] at hj
      exact ⟨p, hj, by simp [hjk]⟩
  constructor
  · simp [setThread, h.threads]
  · exact h.histories
  · exact h.once
  · exact h.requests
  · rw [waiting_setThread]
    show d.pendingMetricPulls = (d.waiting.set k (t.pulls + 1)).sum + requesting.length
    have hsum := sum_set_add (t.pulls + 1) hw
    rw [h.pending, hq, List.length_cons]
    omega
  · rw [waiting_setThread]
    intro j p hj
    obtain ⟨q, hj, he⟩ := hmove j p hj
    show p + requesting.count j ≤ d.inRound
    rw [he]
    exact h.awaited j q hj
  · rw [waiting_setThread]
    intro j p snapshots hj hs
    obtain ⟨q, hj, he⟩ := hmove j p hj
    show snapshots.length + p + requesting.count j = (reports d.log).length + d.inRound
    rw [Nat.add_assoc, he, ← Nat.add_assoc]
    exact h.lengths j q snapshots hj hs
  · exact h.reported

theorem Rounds.pull {k : Nat} {snapshot : MetricsSnapshot} {t : Thread} {snapshots : List MetricsSnapshot}
    (h : Rounds n d) (ht : d.threads[k]? = some t) (hh : d.shardMetricHistory[k]? = some snapshots)
    (hp : t.pulls ≠ 0) :
    Rounds n ({ d with shardMetricHistory := d.shardMetricHistory.set k (snapshots ++ [snapshot]) }.setThread k
      { t with pulls := t.pulls - 1 }).shardMetricsCallback := by
  have hw : d.waiting[k]? = some t.pulls := waiting_of_thread ht
  have hlt : k < d.waiting.length := (List.getElem?_eq_some_iff.mp hw).1
  have hlt' : k < d.shardMetricHistory.length := (List.getElem?_eq_some_iff.mp hh).1
  have hsum := sum_set_add (t.pulls - 1) hw
  have hpending := h.pending
  have hpz : d.pendingMetricPulls ≠ 0 := by omega
  have honce := h.once
  have hin : d.inRound = 1 ∧ d.ready.count .onMetricsRoundComplete = 0 := by
    unfold inRound at honce ⊢
    rw [if_neg hpz] at honce ⊢
    omega
  generalize hd' : ({ d with shardMetricHistory := d.shardMetricHistory.set k (snapshots ++ [snapshot]) }.setThread k
    { t with pulls := t.pulls - 1 }).shardMetricsCallback = d'
  have hthreads : d'.threads.length = n := hd' ▸ by simp [shardMetricsCallback, setThread, h.threads]
  have hwaiting : d'.waiting = d.waiting.set k (t.pulls - 1) := hd' ▸ waiting_setThread
  have hready : d'.ready = if d.pendingMetricPulls - 1 = 0 then d.ready ++ [.onMetricsRoundComplete] else d.ready :=
    hd' ▸ rfl
  have hpulls : d'.pendingMetricPulls = d.pendingMetricPulls - 1 := hd' ▸ rfl
  have hq : d'.requesting = d.requesting := hd' ▸ rfl
  have hl : d'.log = d.log := hd' ▸ rfl
  have hh' : d'.shardMetricHistory = d.shardMetricHistory.set k (snapshots ++ [snapshot]) := hd' ▸ rfl
  have hin' : d'.inRound = 1 := by
    unfold inRound
    rw [hpulls, hready]
    by_cases hlast : d.pendingMetricPulls - 1 = 0 <;> simp [hlast, hin.2]
  have hup : d'.upcoming = d.upcoming := by
    have hm : d'.metricsTimer = d.metricsTimer := hd' ▸ rfl
    unfold upcoming
    rw [hready, hm]
    split <;> simp
  have hlen : ∀ (j p : Nat) (s : List MetricsSnapshot), d'.waiting[j]? = some p →
      d'.shardMetricHistory[j]? = some s → ∃ q s', d.waiting[j]? = some q ∧ p ≤ q ∧
        d.shardMetricHistory[j]? = some s' ∧ s.length + p = s'.length + q := by
    intro j p s hj hs
    rw [hwaiting] at hj
    rw [hh'] at hs
    by_cases hjk : k = j
    · subst hjk
      rw [List.getElem?_set_self hlt] at hj
      rw [List.getElem?_set_self hlt'] at hs
      obtain rfl := Option.some.inj hj
      obtain rfl := Option.some.inj hs
      exact ⟨_, _, hw, by omega, hh, by simp; omega⟩
    · rw [List.getElem?_set_ne hjk] at hj hs
      exact ⟨p, s, hj, Nat.le_refl p, hs, rfl⟩
  constructor
  · exact hthreads
  · rw [hh', List.length_set, h.histories]
  · rw [hup, hin']
    omega
  · rw [hl, hup]
    exact h.requests
  · rw [hpulls, hwaiting, hq]
    omega
  · intro j p hj
    have hlj : j < d'.shardMetricHistory.length := by
      rw [hh', List.length_set, h.histories, ← hthreads]
      simpa [waiting] using (List.getElem?_eq_some_iff.mp hj).1
    obtain ⟨q, s', hjq, hle, -, -⟩ := hlen j p _ hj (List.getElem?_eq_getElem hlj)
    have := h.awaited j q hjq
    rw [hq, hin', ← hin.1]
    omega
  · intro j p s hj hs
    obtain ⟨q, s', hjq, hle, hjs, he⟩ := hlen j p s hj hs
    have := h.lengths j q s' hjq hjs
    rw [hq, hl, hin', ← hin.1]
    omega
  · rw [hl, hh']
    intro j data hj c
    have hlj : j < snapshots.length :=
      Nat.lt_of_lt_of_le (List.getElem?_eq_some_iff.mp hj).1 (h.length_le hh)
    rw [roundOf_set hh hlj, roundOf_set hh (by omega)]
    exact h.reported j data hj c

theorem Rounds.take {handler : Handler} (h : Rounds n d) (hne : handler ≠ .onMetricsRoundComplete) :
    Rounds n (d.take handler) := by
  refine h.frame rfl rfl rfl rfl (count_take_of_ne (Ne.symm hne)) ?_ (List.append_nil _).symm rfl rfl
  exact Nat.add_le_add_left (List.erase_sublist.count_le _) _

theorem Rounds.pass (h : Rounds n d) (r : Passed env now d d') : Rounds n d' := by
  obtain ⟨o, chunk, rfl, hc⟩ := r.frame
  refine h.frame rfl rfl rfl rfl rfl (Nat.le_refl _) rfl (List.count_eq_zero.mpr fun hm => hc _ hm) ?_
  apply List.filterMap_eq_nil_iff.mpr
  intro x hx
  have hx := hc x hx
  cases x <;> simp_all [Dispatching]

theorem Rounds.doShutdown (h : Rounds n d) : Rounds n d.doShutdown := by
  cases hs : d.orchestrator.shutdown with
  | true => rwa [doShutdown_of_shutdown hs]
  | false =>
    rw [doShutdown_of_not_shutdown hs]
    refine h.frame rfl rfl rfl rfl rfl (by simp [upcoming]) rfl ?_ ?_
    · simp [stops, List.count_eq_zero]
    · simp [stops, reports, List.filterMap_map]

theorem Rounds.exit {k : Nat} {t : Thread} {status : ThreadStatus} (h : Rounds n d) (ht : d.threads[k]? = some t) :
    Rounds n (d.setThread k { t with status := status }).shardExitCallback := by
  obtain ⟨hlt, hw⟩ := List.getElem?_eq_some_iff.mp (waiting_of_thread ht)
  have hwaiting : (d.setThread k { t with status := status }).shardExitCallback.waiting = d.waiting := by
    show (d.setThread k { t with status := status }).waiting = _
    rw [waiting_setThread]
    show d.waiting.set k t.pulls = d.waiting
    rw [← hw, List.set_getElem_self]
  have hcount : ∀ handler, handler ≠ .lastShardExit →
      (d.setThread k { t with status := status }).shardExitCallback.ready.count handler = d.ready.count handler := by
    intro handler hne
    simp only [shardExitCallback, setThread]
    by_cases hz : d.activeShards - 1 = 0 <;> simp [hz, Ne.symm hne]
  refine h.frame hwaiting rfl rfl rfl (hcount _ (by simp)) ?_ (List.append_nil _).symm rfl rfl
  exact Nat.add_le_add_left (Nat.le_of_eq (hcount _ (by simp))) _

theorem Rounds.step (h : Rounds n d) (hs : step env d e = some d') : Rounds n d' := by
  cases stepped_of_step hs with
  | armed hr hd ha hlt =>
    exact ((h.take (by simp)).pass hd).frame rfl rfl rfl rfl rfl (Nat.le_refl _) rfl rfl rfl
  | finished hr hd ha => exact ((h.take (by simp)).pass hd).doShutdown
  | requested hr => exact h.request hr
  | reported hr => exact h.report hr
  | stopped hr => exact (h.take (by simp)).doShutdown
  | left hr =>
    exact (h.take (by simp)).frame rfl rfl rfl rfl rfl (Nat.le_refl _) (List.append_nil _).symm rfl rfl
  | posted hq ht => exact h.post hq ht
  | pulled ht hh hp => exact h.pull (thread_spec ht).1 hh hp
  | tasked ht hk hi hp => exact h.frame rfl rfl rfl rfl rfl (Nat.le_refl _) rfl rfl rfl
  | handled ht hk hp =>
    exact h.frame rfl rfl rfl rfl rfl (Nat.le_refl _) (List.append_nil _).symm rfl rfl
  | finish hw => exact h.frame rfl rfl rfl rfl rfl (Nat.le_refl _) (List.append_nil _).symm rfl rfl
  | dispatchFired hr ht | earlyStop =>
    exact h.frame rfl rfl rfl rfl (by simp) (by simp [upcoming]) (List.append_nil _).symm rfl rfl
  | metricsFired hr ht =>
    refine h.frame rfl rfl rfl rfl (by simp) ?_ (List.append_nil _).symm rfl rfl
    simp only [upcoming, ht, List.count_append, List.count_singleton_self, Bool.toNat_true, Bool.toNat_false]
    omega
  | exited ht hk hc | failed ht => exact h.exit (thread_spec ht).1

theorem rounds_init : Rounds n (init n) where
  threads := by simp [init]
  histories := by simp [init]
  once := by simp [init, upcoming, inRound]
  requests := by simp [init, upcoming, reports]
  pending := by simp [init, waiting]
  awaited := by simp [init, waiting, List.getElem?_replicate]
  lengths := by simp +contextual [init, waiting, List.getElem?_replicate, reports, inRound, eq_comm]
  reported := by simp [init, reports]

theorem rounds_of_run {G : Dispatcher → Event → Prop} {es : List Event} (r : Run (step env) G (init n) es d) :
    Rounds n d :=
  r.invariant (fun _ _ _ h _ hs => h.step hs) rounds_init

/-! ## What is reported -/

def natTotal (c : Counter) (snapshots : List MetricsSnapshot) : Nat := (snapshots.map fun s => (s.get c).toNat).sum

theorem toNat_total {c : Counter} : ∀ {snapshots : List MetricsSnapshot}, natTotal c snapshots < 2 ^ 63 →
    (total c snapshots).toNat = natTotal c snapshots
  | [], _ => rfl
  | s :: snapshots, h => by
    have hsum : natTotal c (s :: snapshots) = (s.get c).toNat + natTotal c snapshots := rfl
    rw [hsum] at h ⊢
    have hlt : natTotal c snapshots < 2 ^ 63 := by omega
    have ih := toNat_total hlt
    rw [total_cons, UInt64.toNat_add, ih]
    omega

def changes (c : Counter) (data : List MetricsAggregate) : Int := (data.map fun a => (a.changeAggregate.get c).toInt).sum

theorem changes_snoc {c : Counter} {data : List MetricsAggregate} {a : MetricsAggregate} :
    changes c (data ++ [a]) = changes c data + (a.changeAggregate.get c).toInt := by
  simp [changes]

/-- The changes up to report `j` telescope. -/
theorem Rounds.changes_take (h : Rounds n d) {c : Counter} : ∀ {j : Nat}, j < (reports d.log).length →
    (∀ i ≤ j, natTotal c (roundOf i d.shardMetricHistory) < 2 ^ 63) →
    changes c ((reports d.log).take (j + 1)) = natTotal c (roundOf j d.shardMetricHistory)
  | j, hj, hb => by
    have hlast := List.getElem?_eq_getElem hj
    obtain ⟨-, hchange⟩ := h.reported j _ hlast c
    have hnow := toNat_total (hb j (Nat.le_refl j))
    have htake : (reports d.log).take (j + 1) = (reports d.log).take j ++ [(reports d.log)[j]] := by
      rw [List.take_add_one, hlast]
      rfl
    rw [htake, changes_snoc, hchange]
    cases j with
    | zero =>
      rw [if_pos rfl, difference_toInt (by rw [hnow]; exact hb 0 (Nat.le_refl 0)) (by simp), hnow]
      simp [changes]
    | succ j =>
      have ih := h.changes_take (Nat.lt_of_succ_lt hj) fun i hi => hb i (Nat.le_succ_of_le hi)
      have hprev := toNat_total (hb j (Nat.le_succ j))
      rw [if_neg (Nat.succ_ne_zero j), Nat.add_sub_cancel, ih,
        difference_toInt (by rw [hnow]; exact hb (j + 1) (Nat.le_refl _)) (by rw [hprev]; exact hb j (Nat.le_succ j)),
        hnow, hprev]
      omega

theorem rounds_add_up {es : List Event} (r : Run (step env) free (init n) es d) :
    d.log.count .requested ≤ (reports d.log).length + 1 ∧ d.shardMetricHistory.length = n ∧
      (∀ now d', step env d (.run .onMetricsRoundComplete now) = some d' →
        ∀ snapshots ∈ d.shardMetricHistory, snapshots.length = (reports d.log).length + 1) ∧
      ∀ (j : Nat) (data : MetricsAggregate), (reports d.log)[j]? = some data →
        (∀ snapshots ∈ d.shardMetricHistory, j < snapshots.length) ∧
        ∀ c, data.currentSnapshotAggregate.get c = total c (roundOf j d.shardMetricHistory) ∧
          ((∀ i ≤ j, natTotal c (roundOf i d.shardMetricHistory) < 2 ^ 63) →
            (data.currentSnapshotAggregate.get c).toNat = natTotal c (roundOf j d.shardMetricHistory) ∧
            changes c ((reports d.log).take (j + 1)) = (data.currentSnapshotAggregate.get c).toNat) := by
  have h := rounds_of_run r
  have hreq := h.requests
  refine ⟨by omega, h.histories, fun now d' hs => ?_, fun j data hj => ?_⟩
  · cases stepped_of_step hs with
    | reported hr =>
      obtain ⟨-, hp, -, hin⟩ := h.complete hr.2.2
      rw [← hin]
      exact (h.level hp).2.2.2
  · have hlt := (List.getElem?_eq_some_iff.mp hj).1
    refine ⟨fun snapshots hs => ?_, fun c => ⟨(h.reported j data hj c).1, fun hb => ?_⟩⟩
    · obtain ⟨k, hk⟩ := List.mem_iff_getElem?.mp hs
      exact Nat.lt_of_lt_of_le hlt (h.length_le hk)
    · have htotal := toNat_total (hb j (Nat.le_refl j))
      rw [(h.reported j data hj c).1, htotal]
      exact ⟨rfl, h.changes_take hlt hb⟩

section Example

def idleEnv : OrchestratorEnv := ⟨[], ⟨.UDP, ⟨0, 0, false, false, 0⟩, []⟩⟩

def twoRounds : List Event :=
  [.metricsTimer, .run .doRequestMetrics 500, .post, .post, .pull 1 { bytesSent := 5 }, .pull 0 { bytesSent := 3 },
    .run .onMetricsRoundComplete 501, .metricsTimer, .run .doRequestMetrics 1001, .post, .pull 0 { bytesSent := 4 },
    .post, .pull 1 { bytesSent := 5 }, .run .onMetricsRoundComplete 1002]

theorem rounds_add_up_two : ∃ d data, Run (step idleEnv) free (init 2) twoRounds d ∧
    (reports d.log)[1]? = some data ∧ (data.currentSnapshotAggregate.get .bytesSent).toNat = 9 ∧
      changes .bytesSent ((reports d.log).take 2) = 9 := by
  have hrun : ∃ d ∈ Runs.guarded (step idleEnv) free (init 2) twoRounds, ∃ data ∈ (reports d.log)[1]?,
      (data.currentSnapshotAggregate.get .bytesSent).toNat = 9 ∧
        ∀ i ≤ 1, natTotal .bytesSent (roundOf i d.shardMetricHistory) < 2 ^ 63 := by
    decide +kernel
  obtain ⟨d, hd, data, hdata, hnine, hbelow⟩ := hrun
  have r := Runs.run_of_guarded hd
  have hsum := (((rounds_add_up r).2.2.2 1 data hdata).2 .bytesSent).2 hbelow
  exact ⟨d, data, r, hdata, hnine, by rw [hsum.2, hnine]; rfl⟩

end Example

end Loadshear.Dispatcher
