import Loadshear.DispatcherSound

/-!
# Actions in order, one stop, tasks in order

The orchestrator distributes the actions in list order and not before their
time. It stops each shard once, and the thread of a shard runs what was posted
to it in order, with the pool's shutdown last.
-/

namespace Loadshear.Dispatcher

open Runs (Run)
open Logs (Each)

/-! ## Reading the log -/

def distributed (log : List Effect) : List ActionDescriptor :=
  log.filterMap fun
    | .distributed action _ => some action
    | _ => none

def submitted (k : Nat) (log : List Effect) : List ActionDescriptor :=
  log.filterMap fun
    | .submitted j action => if j = k then some action else none
    | _ => none

def posted (k : Nat) (log : List Effect) : List Task :=
  log.filterMap fun
    | .submitted j action => if j = k then some (.action action) else none
    | .stopped j => if j = k then some .shutdown else none
    | _ => none

def handled (k : Nat) (log : List Effect) : List Task :=
  log.filterMap fun
    | .handled j task => if j = k then some task else none
    | _ => none

section Log

variable {log log' : List Effect} {k : Nat}

@[simp] theorem distributed_append : distributed (log ++ log') = distributed log ++ distributed log' :=
  List.filterMap_append

@[simp] theorem submitted_append : submitted k (log ++ log') = submitted k log ++ submitted k log' :=
  List.filterMap_append

@[simp] theorem posted_append : posted k (log ++ log') = posted k log ++ posted k log' := List.filterMap_append

@[simp] theorem handled_append : handled k (log ++ log') = handled k log ++ handled k log' :=
  List.filterMap_append

end Log

/-! ## What submitting writes -/

section Submissions

variable {a : ActionDescriptor}

variable {i k : Nat} {shards : List Shard} {ranges : List (UInt32 × UInt32)}

theorem distributed_submissions : distributed (submissions a i shards ranges) = [] := by
  apply List.filterMap_eq_nil_iff.mpr
  intro x hx
  obtain ⟨j, -, part, rfl⟩ := mem_submissions hx
  rfl

theorem handled_submissions : handled k (submissions a i shards ranges) = [] := by
  apply List.filterMap_eq_nil_iff.mpr
  intro x hx
  obtain ⟨j, -, part, rfl⟩ := mem_submissions hx
  rfl

theorem posted_submissions :
    posted k (submissions a i shards ranges) = (submitted k (submissions a i shards ranges)).map .action := by
  rw [posted, submitted, List.map_filterMap]
  apply List.filterMap_congr
  intro x hx
  obtain ⟨j, -, part, rfl⟩ := mem_submissions hx
  by_cases hj : j = k <;> simp [hj]

theorem submitted_map (parts : List ActionDescriptor) :
    submitted k (parts.map (Effect.submitted i)) = if i = k then parts else [] := by
  by_cases hi : i = k <;> simp [submitted, hi, List.filterMap_map]

theorem submitted_submissions : ∀ {i j : Nat} {shards : List Shard} {ranges : List (UInt32 × UInt32)} {s : Shard}
    {range : UInt32 × UInt32}, shards[j]? = some s → ranges[j]? = some range →
    submitted (i + j) (submissions a i shards ranges) = taken a s range
  | i, 0, s' :: shards, range' :: ranges, s, range, hs, hr => by
    obtain rfl : s' = s := by simpa using hs
    obtain rfl : range' = range := by simpa using hr
    have hrest : submitted i (submissions a (i + 1) shards ranges) = [] := by
      apply List.filterMap_eq_nil_iff.mpr
      intro x hx
      obtain ⟨j, hj, part, rfl⟩ := mem_submissions hx
      have hne : j ≠ i := by omega
      simp [hne]
    simp [submissions, submitted_map, hrest]
  | i, j + 1, s' :: shards, range' :: ranges, s, range, hs, hr => by
    have ih : submitted (i + 1 + j) (submissions a (i + 1) shards ranges) = taken a s range :=
      submitted_submissions (by simpa using hs) (by simpa using hr)
    rw [Nat.add_right_comm] at ih
    simp [submissions, submitted_map, ← ih, Nat.add_assoc]
  | _, _, [], _, _, _, hs, _ => by simp at hs
  | _, _, _ :: _, [], _, _, _, hr => by simp at hr

theorem submitTo_inbox (s : Shard) (range : UInt32 × UInt32) :
    (Orchestrator.submitTo a range s).inbox = s.inbox ++ (taken a s range).map .action := by
  unfold Orchestrator.submitTo taken
  cases Orchestrator.shardAction a range with
  | none => simp
  | some part =>
    unfold Shard.submitWork
    by_cases hr : s.running <;> simp [hr]

end Submissions

/-! ## What stopping writes -/

section Stops

variable {k n : Nat}

theorem distributed_stops : distributed (stops n) = [] := by
  simp [distributed, stops, List.filterMap_map]

theorem submitted_stops : submitted k (stops n) = [] := by
  simp [submitted, stops, List.filterMap_map]

theorem handled_stops : handled k (stops n) = [] := by
  simp [handled, stops, List.filterMap_map]

theorem stops_succ (n : Nat) : stops (n + 1) = stops n ++ [.stopped n] := by
  simp [stops, List.range_succ]

theorem posted_stops : posted k (stops n) = if k < n then [.shutdown] else [] := by
  induction n with
  | zero => rfl
  | succ n ih =>
    rw [stops_succ, posted_append, ih]
    by_cases hk : n = k
    · subst hk
      simp [posted]
    · have hlt : k < n + 1 ↔ k < n := by omega
      simp [posted, hk, hlt]

theorem count_stops : (stops n).count (.stopped k) = if k < n then 1 else 0 := by
  induction n with
  | zero => rfl
  | succ n ih =>
    rw [stops_succ, List.count_append, ih]
    by_cases hk : n = k
    · subst hk
      simp
    · have hlt : k < n + 1 ↔ k < n := by omega
      simp [hk, hlt]

end Stops

variable {env : OrchestratorEnv} {d d' : Dispatcher} {e : Event} {n now : Nat}

/-! ## Order and time -/

structure Ordered (env : OrchestratorEnv) (d : Dispatcher) : Prop where
  index : distributed d.log = env.actions.take d.orchestrator.currentActionIndx
  times : ∀ action now, .distributed action now ∈ d.log → action.offset ≤ now

theorem Ordered.write {chunk : List Effect} (h : Ordered env d)
    (hi : d'.orchestrator.currentActionIndx = d.orchestrator.currentActionIndx) (hl : d'.log = d.log ++ chunk)
    (hc : distributed chunk = []) : Ordered env d' where
  index := by rw [hl, hi, distributed_append, hc, List.append_nil, h.index]
  times := by
    intro action now hm
    rcases List.mem_append.mp (hl ▸ hm) with hm | hm
    · exact h.times action now hm
    · exact absurd (List.filterMap_eq_nil_iff.mp hc _ hm) (by simp)

theorem Ordered.distribute {action : ActionDescriptor} (h : Ordered env d)
    (ha : env.actions[d.orchestrator.currentActionIndx]? = some action) (hle : action.offset ≤ now)
    (hd : d.distribute action now = some d') : Ordered env d' := by
  obtain ⟨shards, -, rfl⟩ := distribute_spec hd
  constructor
  · show distributed (d.log ++ ([.distributed action now] ++ submissions ..)) = _
    rw [distributed_append, distributed_append, distributed_submissions, h.index, List.take_add_one, ha]
    rfl
  · intro a t hm
    rcases List.mem_append.mp hm with hm | hm
    · exact h.times a t hm
    · rcases List.mem_cons.mp hm with hm | hm
      · obtain ⟨rfl, rfl⟩ := Effect.distributed.inj hm
        exact hle
      · obtain ⟨j, -, part, hm⟩ := mem_submissions hm
        cases hm

theorem Ordered.pass (h : Ordered env d) (r : Passed env now d d') : Ordered env d' :=
  r.invariant (fun _ _ _ h ha hle hd => h.distribute ha hle hd) h

theorem Ordered.doShutdown (h : Ordered env d) : Ordered env d.doShutdown := by
  cases hs : d.orchestrator.shutdown with
  | true => rwa [doShutdown_of_shutdown hs]
  | false =>
    rw [doShutdown_of_not_shutdown hs]
    exact h.write rfl rfl distributed_stops

theorem Ordered.take {handler : Handler} (h : Ordered env d) : Ordered env (d.take handler) := ⟨h.index, h.times⟩

theorem Ordered.step (h : Ordered env d) (hs : step env d e = some d') : Ordered env d' := by
  cases stepped_of_step hs with
  | armed hr hd ha hlt => exact (h.take.pass hd).write rfl rfl rfl
  | finished hr hd ha => exact (h.take.pass hd).doShutdown
  | requested hr => exact h.write rfl rfl rfl
  | reported hr => exact h.take.write rfl (onMetricsRoundComplete_log _) rfl
  | stopped hr => exact h.take.doShutdown
  | tasked ht hk hi hp => exact h.write rfl rfl rfl
  | _ => exact ⟨h.index, h.times⟩

/-! ## One stop for each shard -/

structure Stopped (n : Nat) (d : Dispatcher) : Prop where
  length : d.orchestrator.shards.length = n
  running : ∀ s ∈ d.orchestrator.shards, s.running = !d.orchestrator.shutdown
  count : ∀ k, d.log.count (.stopped k) = if d.orchestrator.shutdown ∧ k < n then 1 else 0

theorem submitTo_running {a : ActionDescriptor} {range : UInt32 × UInt32} {s : Shard} :
    (Orchestrator.submitTo a range s).running = s.running := by
  unfold Orchestrator.submitTo
  split
  · rfl
  · unfold Shard.submitWork
    split <;> rfl

theorem Stopped.write {chunk : List Effect} (h : Stopped n d)
    (hl' : d'.orchestrator.shards.length = d.orchestrator.shards.length)
    (hr : ∀ s ∈ d'.orchestrator.shards, ∃ t ∈ d.orchestrator.shards, s.running = t.running)
    (hs : d'.orchestrator.shutdown = d.orchestrator.shutdown) (hl : d'.log = d.log ++ chunk)
    (hc : ∀ k, .stopped k ∉ chunk) : Stopped n d' where
  length := hl'.trans h.length
  running := by
    intro s hm
    obtain ⟨t, ht, he⟩ := hr s hm
    rw [he, hs, h.running t ht]
  count := by
    intro k
    rw [hl, hs, List.count_append, h.count, List.count_eq_zero_of_not_mem (hc k), Nat.add_zero]

theorem Stopped.distribute {action : ActionDescriptor} (h : Stopped n d) (hd : d.distribute action now = some d') :
    Stopped n d' := by
  obtain ⟨shards, hs, rfl⟩ := distribute_spec hd
  obtain ⟨hl, hs⟩ := Orchestrator.submitAll_spec hs
  refine h.write hl (fun s hm => ?_) rfl rfl fun k hm => ?_
  · obtain ⟨k, hk⟩ := List.mem_iff_getElem?.mp hm
    obtain ⟨t, range, ht, -, rfl⟩ := hs k s hk
    exact ⟨t, List.mem_of_getElem? ht, submitTo_running⟩
  · rcases List.mem_cons.mp hm with hm | hm
    · cases hm
    · obtain ⟨j, -, part, hm⟩ := mem_submissions hm
      cases hm

theorem Stopped.doShutdown (h : Stopped n d) : Stopped n d.doShutdown := by
  cases hs : d.orchestrator.shutdown with
  | true => rwa [doShutdown_of_shutdown hs]
  | false =>
    rw [doShutdown_of_not_shutdown hs]
    refine ⟨by simp [h.length], fun s hm => ?_, fun k => ?_⟩
    · obtain ⟨t, ht, rfl⟩ := List.mem_map.mp hm
      have hr : t.running = true := by rw [h.running t ht, hs]; rfl
      simp [Shard.stop, hr]
    · rw [List.count_append, h.count, hs, count_stops, h.length]
      simp

theorem Stopped.setShard {k : Nat} {s : Shard} {inbox : List Task} {pool : Pool} (chunk : List Effect)
    (h : Stopped n d) (hk : d.orchestrator.shards[k]? = some s) (hc : ∀ k, .stopped k ∉ chunk) :
    Stopped n ({ d with orchestrator := d.orchestrator.setShard k { s with inbox := inbox, pool := pool } }.write
      chunk) := by
  refine h.write (by simp [Orchestrator.setShard, Dispatcher.write]) (fun t hm => ?_) rfl rfl hc
  rcases List.mem_or_eq_of_mem_set hm with hm | rfl
  · exact ⟨t, hm, rfl⟩
  · exact ⟨s, List.mem_of_getElem? hk, rfl⟩

theorem Stopped.pass (h : Stopped n d) (r : Passed env now d d') : Stopped n d' :=
  r.invariant (fun _ _ _ h _ _ hd => h.distribute hd) h

theorem Stopped.take {handler : Handler} (h : Stopped n d) : Stopped n (d.take handler) :=
  ⟨h.length, h.running, h.count⟩

theorem Stopped.log {chunk : List Effect} (h : Stopped n d) (ho : d'.orchestrator = d.orchestrator)
    (hl : d'.log = d.log ++ chunk) (hc : ∀ k, .stopped k ∉ chunk) : Stopped n d' :=
  h.write (by rw [ho]) (fun s hm => ⟨s, ho ▸ hm, rfl⟩) (by rw [ho]) hl hc

theorem Stopped.step (h : Stopped n d) (hs : step env d e = some d') : Stopped n d' := by
  cases stepped_of_step hs with
  | armed hr hd ha hlt => exact (h.take.pass hd).log rfl rfl (by simp)
  | finished hr hd ha => exact (h.take.pass hd).doShutdown
  | requested hr => exact h.log rfl rfl (by simp)
  | reported hr => exact h.take.log rfl (onMetricsRoundComplete_log _) (by simp)
  | stopped hr => exact h.take.doShutdown
  | tasked ht hk hi hp => exact h.setShard _ hk (by simp)
  | handled ht hk hp => simpa [Dispatcher.write] using h.setShard [] hk (by simp)
  | _ => exact ⟨h.length, h.running, h.count⟩

/-! ## Tasks in order -/

/-- What was posted to a shard was handled or waits, in this order. -/
structure Served (n : Nat) (d : Dispatcher) : Prop where
  tasks : ∀ k s, d.orchestrator.shards[k]? = some s → posted k d.log = handled k d.log ++ s.inbox
  posted : ∀ k < n, posted k d.log =
    (submitted k d.log).map .action ++ if d.orchestrator.shutdown then [.shutdown] else []
  closed : ∀ k s, d.orchestrator.shards[k]? = some s → s.pool.closed → .shutdown ∈ handled k d.log

/-- What does not concern the shards. -/
theorem Served.log {chunk : List Effect} (h : Served n d) (ho : d'.orchestrator = d.orchestrator)
    (hl : d'.log = d.log ++ chunk) (hp : ∀ k, Dispatcher.posted k chunk = []) (hs : ∀ k, submitted k chunk = [])
    (hh : ∀ k, handled k chunk = []) : Served n d' where
  tasks := by
    intro k s hk
    rw [hl, posted_append, handled_append, hp, hh, List.append_nil, List.append_nil, h.tasks k s (ho ▸ hk)]
  posted := by
    intro k hk
    rw [hl, posted_append, submitted_append, hp, hs, List.append_nil, List.append_nil, ho, h.posted k hk]
  closed := by
    intro k s hk hc
    rw [hl, handled_append]
    exact List.mem_append_left _ (h.closed k s (ho ▸ hk) hc)

theorem Served.distribute {action : ActionDescriptor} (h : Served n d) (hst : Stopped n d)
    (hd : d.distribute action now = some d') : Served n d' := by
  obtain ⟨shards, hs, rfl⟩ := distribute_spec hd
  obtain ⟨hl, hs⟩ := Orchestrator.submitAll_spec hs
  have hlog : ∀ k s range, d.orchestrator.shards[k]? = some s →
      (d.orchestrator.rangesFor action)[k]? = some range → submitted k (.distributed action now ::
        submissions action 0 d.orchestrator.shards (d.orchestrator.rangesFor action)) = taken action s range := by
    intro k s range hk hr
    have hsub := @submitted_submissions action 0 k _ _ _ _ hk hr
    rw [Nat.zero_add] at hsub
    exact hsub
  have hpost : ∀ k, Dispatcher.posted k (.distributed action now ::
      submissions action 0 d.orchestrator.shards (d.orchestrator.rangesFor action)) =
        (submitted k (.distributed action now ::
          submissions action 0 d.orchestrator.shards (d.orchestrator.rangesFor action))).map .action :=
    fun k => posted_submissions
  have hhand : ∀ k, handled k (.distributed action now ::
      submissions action 0 d.orchestrator.shards (d.orchestrator.rangesFor action)) = [] :=
    fun k => handled_submissions
  constructor
  · intro k s' hk
    obtain ⟨s, range, hsk, hr, rfl⟩ := hs k s' hk
    simp only [posted_append, handled_append, hpost, hhand, hlog k s range hsk hr, submitTo_inbox,
      h.tasks k s hsk, List.append_nil, List.append_assoc]
  · intro k hk
    obtain ⟨s, hsk⟩ : ∃ s, d.orchestrator.shards[k]? = some s :=
      ⟨_, List.getElem?_eq_getElem (hst.length.symm ▸ hk)⟩
    obtain ⟨s', hsk'⟩ : ∃ s', shards[k]? = some s' := ⟨_, List.getElem?_eq_getElem (by rw [hl, hst.length]; exact hk)⟩
    obtain ⟨_, range, -, hr, -⟩ := hs k s' hsk'
    have hrun := hst.running s (List.mem_of_getElem? hsk)
    simp only [posted_append, submitted_append, hpost, hlog k s range hsk hr, h.posted k hk, List.map_append]
    cases hsd : d.orchestrator.shutdown with
    | true => simp [taken, hrun, hsd]
    | false => simp
  · intro k s' hk hc
    obtain ⟨s, range, hsk, hr, rfl⟩ := hs k s' hk
    rw [Orchestrator.submitTo_pool] at hc
    rw [handled_append]
    exact List.mem_append_left _ (h.closed k s hsk hc)

theorem Served.doShutdown (h : Served n d) (hst : Stopped n d) : Served n d.doShutdown := by
  cases hs : d.orchestrator.shutdown with
  | true => rwa [doShutdown_of_shutdown hs]
  | false =>
    rw [doShutdown_of_not_shutdown hs, hst.length]
    have hstop : ∀ {k s'}, (d.orchestrator.shards.map Shard.stop)[k]? = some s' → ∃ s,
        d.orchestrator.shards[k]? = some s ∧ s'.inbox = s.inbox ++ [.shutdown] ∧ s'.pool = s.pool ∧ k < n := by
      intro k s' hk
      rw [List.getElem?_map] at hk
      obtain ⟨s, hsk, rfl⟩ := Option.map_eq_some_iff.mp hk
      have hr : s.running = true := by rw [hst.running s (List.mem_of_getElem? hsk), hs]; rfl
      have hlt := (List.getElem?_eq_some_iff.mp hsk).1
      rw [hst.length] at hlt
      exact ⟨s, hsk, by simp [Shard.stop, hr], by simp [Shard.stop, hr], hlt⟩
    constructor
    · intro k s' hk
      obtain ⟨s, hsk, hi, -, hlt⟩ := hstop hk
      simp only [posted_append, handled_append, posted_stops, handled_stops, if_pos hlt, hi, h.tasks k s hsk,
        List.append_nil, List.append_assoc]
    · intro k hk
      simp [posted_stops, submitted_stops, hk, h.posted k hk, hs]
    · intro k s' hk hc
      obtain ⟨s, hsk, -, hp, -⟩ := hstop hk
      rw [hp] at hc
      rw [handled_append]
      exact List.mem_append_left _ (h.closed k s hsk hc)

theorem Served.setShard {k : Nat} {s : Shard} {inbox : List Task} {pool : Pool} (chunk : List Task)
    (h : Served n d) (hk : d.orchestrator.shards[k]? = some s) (hi : s.inbox = chunk ++ inbox)
    (hc : pool.closed → s.pool.closed ∨ .shutdown ∈ chunk) :
    Served n ({ d with orchestrator := d.orchestrator.setShard k { s with inbox := inbox, pool := pool } }.write
      (chunk.map (.handled k))) := by
  have hhand : ∀ j, handled j (chunk.map (.handled k)) = if k = j then chunk else [] := by
    intro j
    by_cases hj : k = j <;> simp [handled, hj, List.filterMap_map]
  have hpost : ∀ j, Dispatcher.posted j (chunk.map (.handled k)) = [] := by simp [Dispatcher.posted, List.filterMap_map]
  have hsub : ∀ j, submitted j (chunk.map (.handled k)) = [] := by simp [submitted, List.filterMap_map]
  constructor
  · intro j s' hj
    simp only [Dispatcher.write, posted_append, handled_append, hpost, hhand, List.append_nil]
    rcases Orchestrator.setShard_shard hk hj with ⟨rfl, rfl⟩ | ⟨hne, hj⟩
    · rw [if_pos rfl, h.tasks j s hk, hi, List.append_assoc]
    · rw [if_neg (Ne.symm hne), List.append_nil, h.tasks j s' hj]
  · intro j hj
    simp only [Dispatcher.write, posted_append, submitted_append, hpost, hsub, List.append_nil, h.posted j hj]
    rfl
  · intro j s' hj hc'
    simp only [Dispatcher.write, handled_append, hhand]
    rcases Orchestrator.setShard_shard hk hj with ⟨rfl, rfl⟩ | ⟨hne, hj⟩
    · rw [if_pos rfl]
      rcases hc hc' with hc | hc
      · exact List.mem_append_left _ (h.closed j s hk hc)
      · exact List.mem_append_right _ hc
    · exact List.mem_append_left _ (h.closed j s' hj hc')

theorem Served.pass (h : Served n d) (hst : Stopped n d) (r : Passed env now d d') : Served n d' :=
  (r.invariant (I := fun d => Served n d ∧ Stopped n d)
    (fun _ _ _ h _ _ hd => ⟨h.1.distribute h.2 hd, h.2.distribute hd⟩) ⟨h, hst⟩).1

theorem Served.take {handler : Handler} (h : Served n d) : Served n (d.take handler) :=
  ⟨h.tasks, h.posted, h.closed⟩

theorem Served.step (h : Served n d) (hst : Stopped n d) (hs : step env d e = some d') : Served n d' := by
  cases stepped_of_step hs with
  | armed hr hd ha hlt =>
    exact (h.take.pass hst.take hd).log rfl rfl (fun _ => rfl) (fun _ => rfl) fun _ => rfl
  | finished hr hd ha => exact (h.take.pass hst.take hd).doShutdown (hst.take.pass hd)
  | requested hr => exact h.log rfl rfl (fun _ => rfl) (fun _ => rfl) fun _ => rfl
  | reported hr =>
    exact h.take.log rfl (onMetricsRoundComplete_log _) (fun _ => rfl) (fun _ => rfl) fun _ => rfl
  | stopped hr => exact h.take.doShutdown hst.take
  | @tasked k t s task inbox pool ht hk hi hp =>
    exact h.setShard [task] hk hi fun hc => (Pool.closed_of_handleTask hp hc).imp id fun he => by simp [he]
  | @handled k e t s pool ht hk hp =>
    have hserved := h.setShard [] hk rfl fun hc => .inl (by rwa [Pool.closed_of_handle hp] at hc)
    simpa [Dispatcher.write] using hserved
  | _ => exact ⟨h.tasks, h.posted, h.closed⟩

/-! ## The ends of the threads -/

structure Ended (n : Nat) (d : Dispatcher) : Prop where
  threads : d.threads.length = n
  closed : ∀ k t, d.threads[k]? = some t → t.status = .closed → .shutdown ∈ handled k d.log
  active : d.activeShards = d.threads.countP (·.status = .running)
  last : .lastShardExit ∈ d.ready ∨ d.workGuard = false → d.activeShards = 0
  returned : d.returned = true → d.workGuard = false

theorem Ended.frame {chunk : List Effect} (h : Ended n d) (ht : d'.threads = d.threads)
    (ha : d'.activeShards = d.activeShards) (hw : d'.workGuard = d.workGuard) (hr : d'.returned = d.returned)
    (hl : d'.log = d.log ++ chunk) (hq : .lastShardExit ∈ d'.ready → .lastShardExit ∈ d.ready) : Ended n d' where
  threads := ht ▸ h.threads
  closed := by
    intro k t hk hc
    rw [hl, handled_append]
    exact List.mem_append_left _ (h.closed k t (ht ▸ hk) hc)
  active := by rw [ha, ht, h.active]
  last := by
    intro hlast
    rw [ha]
    exact h.last (hlast.imp hq fun hg => hw ▸ hg)
  returned := by
    rw [hr, hw]
    exact h.returned

theorem Ended.take {handler : Handler} (h : Ended n d) : Ended n (d.take handler) :=
  h.frame rfl rfl rfl rfl (List.append_nil _).symm List.mem_of_mem_erase

theorem Ended.pass (h : Ended n d) (r : Passed env now d d') : Ended n d' := by
  obtain ⟨o, chunk, rfl, -⟩ := r.frame
  exact h.frame rfl rfl rfl rfl rfl id

theorem Ended.doShutdown (h : Ended n d) : Ended n d.doShutdown := by
  obtain ⟨o, deadline, armed, chunk, hd⟩ := doShutdown_frame d
  rw [hd]
  exact h.frame rfl rfl rfl rfl rfl id

theorem Ended.setPulls {k pulls : Nat} {t : Thread} (h : Ended n d) (ht : d.threads[k]? = some t) :
    Ended n (d.setThread k { t with pulls := pulls }) where
  threads := by simp [setThread, h.threads]
  closed := by
    intro j t' hj hc
    by_cases hjk : k = j
    · subst hjk
      have hlt := (List.getElem?_eq_some_iff.mp ht).1
      rw [setThread, List.getElem?_set_self hlt] at hj
      obtain rfl := Option.some.inj hj
      exact h.closed k t ht hc
    · rw [setThread, List.getElem?_set_ne hjk] at hj
      exact h.closed j t' hj hc
  active := by
    obtain ⟨hlt, rfl⟩ := List.getElem?_eq_some_iff.mp ht
    have hle : (d.threads.set k { d.threads[k] with pulls := pulls }).countP (·.status = .running) =
        d.threads.countP (·.status = .running) := by
      rw [List.countP_set hlt]
      have hpos : d.threads[k].status = .running → 0 < d.threads.countP (·.status = .running) :=
        fun hr => List.countP_pos_iff.mpr ⟨_, List.getElem_mem hlt, by simpa using hr⟩
      by_cases hr : d.threads[k].status = .running
      · have := hpos hr
        simp [hr]
        omega
      · simp [hr]
    exact h.active.trans hle.symm
  last := h.last
  returned := h.returned

theorem Ended.exit {k : Nat} {t : Thread} {status : ThreadStatus} (h : Ended n d) (ht : d.thread k = some t)
    (hne : status ≠ .running) (hc : status = .closed → .shutdown ∈ handled k d.log) :
    Ended n (d.setThread k { t with status := status }).shardExitCallback := by
  obtain ⟨ht, hr⟩ := thread_spec ht
  obtain ⟨hlt, hkt⟩ := List.getElem?_eq_some_iff.mp ht
  have hactive : d.activeShards - 1 = (d.threads.set k { t with status := status }).countP (·.status = .running) := by
    rw [List.countP_set hlt, hkt, h.active]
    simp [hr, hne]
  constructor
  · simp [shardExitCallback, setThread, h.threads]
  · intro j t' hj hc'
    by_cases hjk : k = j
    · subst hjk
      rw [shardExitCallback, setThread, List.getElem?_set_self hlt] at hj
      obtain rfl := Option.some.inj hj
      exact hc hc'
    · rw [shardExitCallback, setThread, List.getElem?_set_ne hjk] at hj
      exact h.closed j t' hj hc'
  · exact hactive
  · intro hlast
    show d.activeShards - 1 = 0
    by_cases hz : d.activeShards - 1 = 0
    · exact hz
    · have hlast' : .lastShardExit ∈ d.ready ∨ d.workGuard = false := by
        simpa [shardExitCallback, setThread, hz] using hlast
      rw [h.last hlast']
  · exact h.returned

theorem Ended.step (h : Ended n d) (hsv : Served n d) (hs : step env d e = some d') : Ended n d' := by
  cases stepped_of_step hs with
  | armed hr hd ha hlt => exact (h.take.pass hd).frame rfl rfl rfl rfl rfl id
  | finished hr hd ha => exact (h.take.pass hd).doShutdown
  | requested hr => exact h.take.frame rfl rfl rfl rfl rfl id
  | reported hr => exact h.take.frame rfl rfl rfl rfl (onMetricsRoundComplete_log _) id
  | stopped hr => exact h.take.doShutdown
  | left hr => exact ⟨h.threads, h.closed, h.active, fun _ => h.last (.inl hr.2.2), fun _ => rfl⟩
  | @posted k requesting t hq ht =>
    have hrest : Ended n { d with requesting := requesting } := h.frame rfl rfl rfl rfl (List.append_nil _).symm id
    exact hrest.setPulls ht
  | finish hw => exact ⟨h.threads, h.closed, h.active, h.last, fun _ => hw⟩
  | tasked ht hk hi hp => exact h.frame rfl rfl rfl rfl rfl id
  | @pulled k counters snapshot t snapshots ht hh hp =>
    have hrest : Ended n { d with shardMetricHistory := d.shardMetricHistory.set k (snapshots ++ [snapshot]) } :=
      h.frame rfl rfl rfl rfl (List.append_nil _).symm id
    refine (hrest.setPulls (thread_spec ht).1).frame rfl rfl rfl rfl (List.append_nil _).symm fun hm => ?_
    exact (ready_of_shardMetricsCallback hm).resolve_right (by simp)
  | exited ht hk hc => exact h.exit ht (by simp) fun _ => hsv.closed _ _ hk hc
  | failed ht => exact h.exit ht (by simp) (by simp)
  | _ => exact h.frame rfl rfl rfl rfl (List.append_nil _).symm (by simp)

/-! ## Whole runs -/

structure Sound (env : OrchestratorEnv) (n : Nat) (d : Dispatcher) : Prop where
  ordered : Ordered env d
  stopped : Stopped n d
  served : Served n d
  ended : Ended n d

theorem sound_init : Sound env n (init n) where
  ordered := ⟨rfl, by simp [init]⟩
  stopped := ⟨by simp [init, Orchestrator.init], by simp [init, Orchestrator.init, Shard.start],
    by simp [init, Orchestrator.init]⟩
  served := by
    have hstart : ∀ k s, (init n).orchestrator.shards[k]? = some s → s = Shard.start :=
      fun k s hk => List.eq_of_mem_replicate (List.mem_of_getElem? hk)
    refine ⟨fun k s hk => ?_, fun k _ => rfl, fun k s hk hc => ?_⟩
    · obtain rfl := hstart k s hk
      rfl
    · obtain rfl := hstart k s hk
      cases hc
  ended := ⟨by simp [init], by simp [init, List.getElem?_replicate], by simp [init, List.countP_replicate],
    by simp [init], by simp [init]⟩

theorem sound_of_run {G : Dispatcher → Event → Prop} {es : List Event} (r : Run (step env) G (init n) es d) :
    Sound env n d :=
  r.invariant (fun _ _ _ h _ hs => ⟨h.ordered.step hs, h.stopped.step hs, h.served.step h.stopped hs,
    h.ended.step h.served hs⟩) sound_init

structure Unhurried (env : OrchestratorEnv) (d : Dispatcher) : Prop where
  ready : .doShutdown ∉ d.ready
  stops : Each (fun before x => ∀ k, x = .stopped k → distributed before = env.actions) d.log

theorem Unhurried.write {chunk : List Effect} (h : Unhurried env d)
    (hq : .doShutdown ∈ d'.ready → .doShutdown ∈ d.ready) (hl : d'.log = d.log ++ chunk)
    (hc : ∀ k, .stopped k ∉ chunk) : Unhurried env d' where
  ready hm := h.ready (hq hm)
  stops := by
    rw [hl]
    apply h.stops.skip
    intro x hx before k he
    subst he
    exact absurd hx (hc k)

theorem Unhurried.doShutdown (h : Unhurried env d) (ho : Ordered env d)
    (ha : env.actions.length ≤ d.orchestrator.currentActionIndx) : Unhurried env d.doShutdown := by
  cases hs : d.orchestrator.shutdown with
  | true => rwa [doShutdown_of_shutdown hs]
  | false =>
    rw [doShutdown_of_not_shutdown hs]
    refine ⟨h.ready, h.stops.append fun before x hx k _ => ?_⟩
    have hnone : distributed before = [] := by
      have hpre := (List.prefix_append before [x]).trans hx
      have hmap := hpre.filterMap fun
        | .distributed action _ => some action
        | _ => none
      exact List.prefix_nil.mp (distributed_stops ▸ hmap)
    rw [distributed_append, hnone, List.append_nil, ho.index, List.take_of_length_le ha]

theorem Unhurried.take {handler : Handler} (h : Unhurried env d) : Unhurried env (d.take handler) :=
  h.write List.mem_of_mem_erase (List.append_nil _).symm (by simp)

theorem Unhurried.pass (h : Unhurried env d) (r : Passed env now d d') : Unhurried env d' := by
  obtain ⟨o, chunk, rfl, hc⟩ := r.frame
  exact h.write id rfl fun k hm => hc _ hm

theorem Unhurried.step (h : Unhurried env d) (ho : Ordered env d) (he : e ≠ .earlyStop)
    (hs : step env d e = some d') : Unhurried env d' := by
  cases stepped_of_step hs with
  | armed hr hd ha hlt => exact (h.take.pass hd).write id rfl (by simp)
  | finished hr hd ha => exact (h.take.pass hd).doShutdown (ho.take.pass hd) ha
  | requested hr => exact h.take.write id rfl (by simp)
  | reported hr => exact h.take.write id (onMetricsRoundComplete_log _) (by simp)
  | stopped hr => exact absurd hr.2.2 h.ready
  | left hr => exact h.take.write id (List.append_nil _).symm (by simp)
  | earlyStop => exact absurd rfl he
  | tasked ht hk hi hp => exact h.write id rfl (by simp)
  | pulled ht hh hp =>
    exact h.write (fun hm => (ready_of_shardMetricsCallback hm).resolve_right (by simp)) (List.append_nil _).symm
      (by simp)
  | exited ht hk hc | failed ht =>
    exact h.write (fun hm => (ready_of_shardExitCallback hm).resolve_right (by simp)) (List.append_nil _).symm
      (by simp)
  | _ => exact h.write (by simp [setThread]) (List.append_nil _).symm (by simp)

/-- Orders, times, stops and tasks in a run of `n` shards that took the events `es`. -/
structure Dispatches (env : OrchestratorEnv) (n : Nat) (es : List Event) (d : Dispatcher) : Prop where
  order : distributed d.log <+: env.actions
  times : ∀ action now, .distributed action now ∈ d.log → action.offset ≤ now
  unhurried : .earlyStop ∉ es → Each (fun before x => ∀ k, x = .stopped k → distributed before = env.actions) d.log
  stops : ∀ k < n, d.log.count (.stopped k) ≤ 1
  stopped : d.returned = true → (∀ k < n, d.log.count (.stopped k) = 1) ∨
    (∀ k < n, d.log.count (.stopped k) = 0) ∧ ∀ t ∈ d.threads, t.status = .failed
  tasks : ∀ k < n, handled k d.log <+: (submitted k d.log).map .action ++ [.shutdown]
  ended : d.returned = true → ∀ (k : Nat) (t : Thread), d.threads[k]? = some t → t.status ≠ .failed →
    handled k d.log = (submitted k d.log).map .action ++ [.shutdown]

theorem Sound.not_running (h : Sound env n d) (hr : d.returned = true) : ∀ t ∈ d.threads, t.status ≠ .running := by
  have hz := h.ended.active.symm.trans (h.ended.last (.inr (h.ended.returned hr)))
  simpa using List.countP_eq_zero.mp hz

theorem eq_of_append_eq_snoc {α : Type} {l l₁ l₂ : List α} {x : α} (h : l₁ ++ l₂ = l ++ [x]) (hm : x ∈ l₁)
    (hn : x ∉ l) : l₁ = l ++ [x] := by
  rcases List.eq_nil_or_concat' l₂ with rfl | ⟨l₂, y, rfl⟩
  · rwa [List.append_nil] at h
  · rw [← List.append_assoc] at h
    have hl : l₁ ++ l₂ = l := (List.append_inj' h rfl).1
    exact absurd (hl ▸ List.mem_append_left _ hm) hn

/-- A shard that ended in peace handled all that was posted to it. -/
theorem Sound.handled_of_closed {k : Nat} {t : Thread} (h : Sound env n d) (ht : d.threads[k]? = some t)
    (hc : t.status = .closed) : d.orchestrator.shutdown = true ∧
      handled k d.log = (submitted k d.log).map .action ++ [.shutdown] := by
  have hk : k < n := h.ended.threads ▸ (List.getElem?_eq_some_iff.mp ht).1
  obtain ⟨s, hs⟩ : ∃ s, d.orchestrator.shards[k]? = some s :=
    ⟨_, List.getElem?_eq_getElem (h.stopped.length.symm ▸ hk)⟩
  have hmem := h.ended.closed k t ht hc
  have hposted := (h.served.tasks k s hs).symm.trans (h.served.posted k hk)
  have hnone : .shutdown ∉ (submitted k d.log).map Task.action := by simp
  cases hd : d.orchestrator.shutdown with
  | false =>
    have hposted : handled k d.log ++ s.inbox = (submitted k d.log).map Task.action := by simpa [hd] using hposted
    exact absurd (hposted ▸ List.mem_append_left _ hmem) hnone
  | true =>
    have hposted : handled k d.log ++ s.inbox = (submitted k d.log).map Task.action ++ [.shutdown] := by
      simpa [hd] using hposted
    exact ⟨rfl, eq_of_append_eq_snoc hposted hmem hnone⟩

theorem Sound.stopped_of_returned (h : Sound env n d) (hr : d.returned = true) :
    (∀ k < n, d.log.count (.stopped k) = 1) ∨
      (∀ k < n, d.log.count (.stopped k) = 0) ∧ ∀ t ∈ d.threads, t.status = .failed := by
  cases hd : d.orchestrator.shutdown with
  | true => exact .inl fun k hk => by simp [h.stopped.count, hd, hk]
  | false =>
    refine .inr ⟨fun k _ => by simp [h.stopped.count, hd], fun t ht => ?_⟩
    obtain ⟨k, hk⟩ := List.mem_iff_getElem?.mp ht
    cases hs : t.status with
    | running => exact absurd hs (h.not_running hr t ht)
    | closed =>
      have hsd := (h.handled_of_closed hk hs).1
      rw [hd] at hsd
      cases hsd
    | failed => rfl

theorem dispatches_in_order {es : List Event} (r : Run (step env) free (init n) es d) : Dispatches env n es d := by
  have h := sound_of_run r
  refine ⟨?_, h.ordered.times, fun he => ?_, fun k _ => ?_, h.stopped_of_returned, fun k hk => ?_, ?_⟩
  · exact h.ordered.index ▸ List.take_prefix ..
  · have hq : ∀ e ∈ es, e ≠ .earlyStop := fun e hm hn => he (hn ▸ hm)
    exact ((r.restrict hq).invariant (I := fun d => Ordered env d ∧ Unhurried env d)
      (fun _ _ _ h hg hs => ⟨h.1.step hs, h.2.step h.1 hg.2 hs⟩)
      ⟨sound_init.ordered, by simp [init], Logs.each_nil⟩).2.stops
  · rw [h.stopped.count]
    split <;> simp
  · have hs := List.getElem?_eq_getElem (h.stopped.length.symm ▸ hk)
    have hpre : handled k d.log <+: posted k d.log := ⟨_, (h.served.tasks k _ hs).symm⟩
    apply hpre.trans
    rw [h.served.posted k hk]
    cases d.orchestrator.shutdown with
    | true => exact List.prefix_refl _
    | false => simp
  · intro hr k t ht hf
    have hclosed : t.status = .closed := by
      have hne := h.not_running hr t (List.mem_of_getElem? ht)
      cases hs : t.status <;> simp_all
    exact (h.handled_of_closed ht hclosed).2

section Example

def shortEnv : OrchestratorEnv where
  actions := [⟨.CREATE, 0, 1, 1, 0⟩, ⟨.DISCONNECT, 0, 1, 0, 10⟩]
  session := ⟨.TCP, ⟨0, 0, false, false, 0⟩, []⟩

def shortRun : List Event :=
  [.run .dispatchPendingActions 0, .task 0, .dispatchTimer, .run .dispatchPendingActions 12, .task 0, .task 0,
    .exit 0, .run .lastShardExit 13, .finish]

theorem dispatches_in_order_short : ∃ d, Run (step shortEnv) free (init 1) shortRun d ∧ d.returned = true ∧
    Dispatches shortEnv 1 shortRun d := by
  have r : Run (step shortEnv) free (init 1) shortRun _ := Runs.run_of_isSome (by decide)
  exact ⟨_, r, by decide, dispatches_in_order r⟩

def failedRun : List Event :=
  [.run .dispatchPendingActions 0, .fail 0, .run .lastShardExit 1, .metricsTimer, .run .doRequestMetrics 500, .post,
    .finish]

/-- The only shard fails before the last action is due, and no one stops it. -/
theorem never_stopped : ¬ ∀ (env : OrchestratorEnv) (n : Nat) (es : List Event) (d : Dispatcher),
    env.actions ≠ [] → env.actions.Pairwise (·.offset ≤ ·.offset) → Run (step env) free (init n) es d →
    d.returned = true → ∀ k < n, d.log.count (.stopped k) = 1 := by
  intro h
  have r : Run (step shortEnv) free (init 1) failedRun _ := Runs.run_of_isSome (by decide)
  exact absurd (h shortEnv 1 _ _ (by decide) (by decide) r (by decide) 0 (by decide)) (by decide)

end Example

end Loadshear.Dispatcher
