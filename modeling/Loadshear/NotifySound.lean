import Loadshear.RangeSound

/-!
# When the shard is told

`notify_closed_` comes once, and only when nothing of the pool is left to run
(`notified_once`): `active_sessions_` counts every `start` that is posted and every
session that is live (`Covers`). It does not wrap, since it never counts more than
all the starts of the script.
-/

namespace Loadshear

def Slot.load (slot : Slot) : Nat := slot.calls.count .start + slot.session.live.toNat

theorem Slot.not_busy_of_load {slot : Slot} (h : slot.load = 0) : ¬ slot.busy := by
  unfold Slot.load at h
  have hlive : slot.session.live = false := Bool.toNat_eq_zero.mp (by omega)
  have hcalls : slot.calls.count .start = 0 := by omega
  simpa [Slot.busy, hlive] using List.count_eq_zero.mp hcalls

namespace Pool

variable {env : SessionEnv} {p q : Pool}

def load (slots : List Slot) : Nat := (slots.map Slot.load).sum

theorem load_set {slots : List Slot} {i : Nat} {a b : Slot} (h : slots[i]? = some b) :
    load (slots.set i a) + b.load = load slots + a.load := by
  induction slots generalizing i with
  | nil => simp at h
  | cons c slots ih =>
    cases i with
    | zero =>
      obtain rfl : c = b := by simpa using h
      simp only [load, List.set_cons_zero, List.map_cons, List.sum_cons]
      omega
    | succ i =>
      have := ih (by simpa using h)
      simp only [load, List.set_cons_succ, List.map_cons, List.sum_cons] at this ⊢
      omega

theorem load_le {slots : List Slot} {slot : Slot} (h : slot ∈ slots) : slot.load ≤ load slots := by
  obtain ⟨before, after, rfl⟩ := List.append_of_mem h
  simp only [load, List.map_append, List.map_cons, List.sum_append, List.sum_cons]
  omega

theorem load_init (env : SessionEnv) (n : Nat) : load (List.replicate n (.init env)) = 0 := by
  simp [load, Slot.load, Slot.init, Session.init]

theorem load_postAll {c : Call} : ∀ {js : List Nat} {slots slots' : List Slot}, postAll c js slots = some slots' →
    load slots' = load slots + if c = .start then js.length else 0
  | [], slots, slots', h => by
    obtain rfl := Option.some.inj h
    simp
  | j :: js, slots, slots', h => by
    obtain ⟨slot, hj, h⟩ := Option.bind_eq_some_iff.mp h
    have ih := load_postAll h
    have hset := load_set (a := slot.post c) hj
    have hpost : (slot.post c).load = slot.load + if c = .start then 1 else 0 := by
      unfold Slot.load Slot.post
      by_cases hc : c = .start
      · simp [hc, List.count_append]
        omega
      · simp [hc, List.count_append]
    by_cases hc : c = .start
    · simp only [hc, if_true, List.length_cons] at ih hpost ⊢
      rw [hc] at hset
      omega
    · simp only [hc, if_false] at ih hpost ⊢
      omega

/-! ## Callbacks -/

theorem disconnectCallbacks_notified : ∀ (n : Nat) (p : Pool), n ≤ p.activeSessions.toNat →
    (p.disconnectCallbacks n).notified =
      p.notified + if p.closed ∧ 0 < n ∧ n = p.activeSessions.toNat then 1 else 0
  | 0, p, _ => by simp [disconnectCallbacks]
  | n + 1, p, h => by
    have hone : (p.activeSessions - 1).toNat = p.activeSessions.toNat - 1 :=
      UInt64.toNat_sub_of_le _ _ (UInt64.le_iff_toNat_le.mpr (by change 1 ≤ _; omega))
    have hzero : p.activeSessions - 1 = 0 ↔ p.activeSessions.toNat = 1 := by
      rw [← UInt64.toNat_inj, hone]
      change _ = 0 ↔ _
      omega
    have hp : p.disconnectCallback.activeSessions = p.activeSessions - 1 ∧ p.disconnectCallback.closed = p.closed ∧
        p.disconnectCallback.notified = p.notified + if p.closed ∧ p.activeSessions.toNat = 1 then 1 else 0 := by
      unfold disconnectCallback
      simp only [hzero]
      by_cases hc : p.activeSessions.toNat = 1 ∧ p.closed
      · rw [if_pos hc, if_pos hc.symm]
        exact ⟨rfl, rfl, rfl⟩
      · rw [if_neg hc, if_neg fun h => hc h.symm]
        exact ⟨rfl, rfl, rfl⟩
    rw [disconnectCallbacks, disconnectCallbacks_notified n p.disconnectCallback (by rw [hp.1, hone]; omega), hp.1, hp.2.1,
      hp.2.2, hone]
    by_cases hc : p.closed
    · simp only [hc, true_and]
      split <;> split <;> split <;> omega
    · simp [hc]

/-! ## One turn -/

/-- The counter holds at least what is left to run; once the shard is told there
is nothing left. -/
structure Covers (p : Pool) : Prop where
  counted : load p.slots ≤ p.activeSessions.toNat
  once : p.notified ≤ 1
  told : 0 < p.notified → p.closed ∧ p.activeSessions = 0

theorem Covers.init : Pool.init.Covers := ⟨Nat.zero_le _, Nat.zero_le _, fun h => absurd h (Nat.lt_irrefl _)⟩

theorem Covers.notified (h : p.Covers) : p.notified ≤ 1 ∧
    (0 < p.notified → p.closed ∧ ∀ slot ∈ p.slots, ¬ slot.session.live ∧ .start ∉ slot.calls) := by
  refine ⟨h.once, fun hpos => ?_⟩
  obtain ⟨hc, hzero⟩ := h.told hpos
  refine ⟨hc, fun slot hm => ?_⟩
  have hload : slot.load = 0 := by
    have hle := load_le hm
    have hcounted := h.counted
    rw [hzero] at hcounted
    exact Nat.eq_zero_of_le_zero (Nat.le_trans hle hcounted)
  have hbusy := Slot.not_busy_of_load hload
  simpa [Slot.busy, not_or] using hbusy

def starts (a : ActionDescriptor) : Nat := if a.type = .CONNECT then (rangeOf a).length else 0

def taskStarts : Task → Nat
  | .action a => starts a
  | .shutdown => 0

theorem Covers.acted {a : ActionDescriptor} (h : p.Covers) (hle : a.sessionsStart ≤ a.sessionsEnd)
    (hf : p.activeSessions.toNat + starts a < 2 ^ 64) (ha : Acted env p a q) :
    q.Covers ∧ q.activeSessions.toNat ≤ p.activeSessions.toNat + starts a := by
  cases ha with
  | created hc hs =>
    refine ⟨⟨?_, h.once, h.told⟩, Nat.le_add_right _ _⟩
    rw [load_init]
    exact Nat.zero_le _
  | kept => exact ⟨h, Nat.le_add_right _ _⟩
  | closed => exact ⟨h, Nat.le_add_right _ _⟩
  | @called c slots hc ho hp =>
    have hn : p.notified = 0 := by
      by_contra hn
      exact ho (h.told (Nat.pos_of_ne_zero hn)).1
    have hload := load_postAll hp
    have hbase := h.counted
    have hactive : (p.activeAfter a).toNat = p.activeSessions.toNat + starts a := by
      unfold activeAfter starts at *
      split
      · rename_i ht
        have hle' := UInt32.le_iff_toNat_le.mp hle
        have h1 := a.sessionsStart.toNat_lt
        have h2 := a.sessionsEnd.toNat_lt
        rw [if_pos ht, rangeOf, List.length_range'] at hf
        rw [rangeOf, List.length_range', UInt64.toNat_add, UInt64.toNat_sub, UInt64.toNat_ofNat', UInt64.toNat_ofNat']
        omega
      · rfl
    have hposted : (if c = .start then (rangeOf a).length else 0) = starts a := by
      have hcs : c = .start ↔ a.type = .CONNECT := by rw [← callOf_start, hc, Option.some.injEq]
      simp only [starts, hcs]
    refine ⟨⟨?_, h.once, fun hpos => absurd hn (Nat.ne_of_gt hpos)⟩, Nat.le_of_eq hactive⟩
    rw [hload, hposted, hactive]
    exact Nat.add_le_add_right hbase _

theorem Covers.shutdown (h : p.Covers) (hs : p.shutdown = some q) :
    q.Covers ∧ q.activeSessions = p.activeSessions := by
  obtain rfl := Option.some.inj ((shutdown_eq p).symm.trans hs)
  by_cases hc : p.closed
  · rw [if_pos hc]
    exact ⟨h, rfl⟩
  · rw [if_neg hc]
    have hn : p.notified = 0 := by
      by_contra hn
      exact hc (h.told (Nat.pos_of_ne_zero hn)).1
    by_cases ha : p.activeSessions = 0
    · exact ⟨⟨h.counted, by simp [hn, ha], fun _ => ⟨rfl, ha⟩⟩, rfl⟩
    · exact ⟨⟨h.counted, by simp [hn, ha], fun hpos => by simp [hn, ha] at hpos⟩, rfl⟩

theorem Covers.task {task : Task} (h : p.Covers) (hle : ∀ a, task = .action a → a.sessionsStart ≤ a.sessionsEnd)
    (hf : p.activeSessions.toNat + taskStarts task < 2 ^ 64) (hs : p.handleTask env task = some q) :
    q.Covers ∧ q.activeSessions.toNat ≤ p.activeSessions.toNat + taskStarts task := by
  cases task with
  | action a => exact h.acted (hle a rfl) hf (acted_of_handleAction hs)
  | shutdown =>
    obtain ⟨hq, hactive⟩ := h.shutdown hs
    exact ⟨hq, Nat.le_of_eq (congrArg UInt64.toNat hactive)⟩

/-- A handler gives back what it closes. -/
theorem Covers.closes {e : Event} (h : p.Covers) (hs : p.handle env e = some q) :
    ∃ n ≤ p.activeSessions.toNat, load q.slots + n ≤ load p.slots ∧
      q.activeSessions.toNat = p.activeSessions.toNat - n ∧ q.closed = p.closed ∧
      q.notified = p.notified + if p.closed ∧ 0 < n ∧ n = p.activeSessions.toNat then 1 else 0 := by
  obtain ⟨t, session, ht, hstep, rfl⟩ := handle_spec hs
  obtain ⟨hslot, -⟩ := turn_spec ht
  have hcount := turn_count ht
  obtain ⟨hle, heq⟩ := (Session.handled_of_step hstep).balanced
  have hset := load_set (a := ⟨t.calls, session⟩) hslot
  have hcover := h.counted
  have hload : load (p.slots.set t.i ⟨t.calls, session⟩) + (session.disconnects - t.slot.session.disconnects) ≤
      load p.slots := by
    unfold Slot.load at hset
    simp only at hset
    have hor : (t.slot.session.live || t.event.isStart).toNat ≤ t.slot.session.live.toNat + t.event.isStart.toNat := by
      cases t.slot.session.live <;> cases t.event.isStart <;> decide
    omega
  generalize session.disconnects - t.slot.session.disconnects = n at *
  obtain ⟨hslots, hclosed, hactive⟩ :=
    disconnectCallbacks_spec n { p with slots := p.slots.set t.i ⟨t.calls, session⟩ }
  have hn : n ≤ p.activeSessions.toNat := by omega
  have hsmall : (UInt64.ofNat n).toNat = n :=
    UInt64.toNat_ofNat_of_lt' (Nat.lt_of_le_of_lt hn p.activeSessions.toNat_lt)
  refine ⟨n, hn, ?_, ?_, hclosed, disconnectCallbacks_notified n _ hn⟩
  · rw [update, hslots]
    exact hload
  · rw [update, hactive, UInt64.toNat_sub_of_le, hsmall]
    rwa [UInt64.le_iff_toNat_le, hsmall]

theorem Covers.handled {e : Event} (h : p.Covers) (hs : p.handle env e = some q) :
    q.Covers ∧ q.activeSessions.toNat ≤ p.activeSessions.toNat := by
  obtain ⟨n, hn, hload, hactive, hclosed, hnotified⟩ := h.closes hs
  have hcover := h.counted
  have honce := h.once
  refine ⟨⟨by omega, ?_, fun hpos => ?_⟩, by omega⟩
  · rw [hnotified]
    by_cases hz : p.notified = 0
    · rw [hz]
      split <;> omega
    · have hzero : p.activeSessions.toNat = 0 := by rw [(h.told (Nat.pos_of_ne_zero hz)).2]; rfl
      rw [if_neg fun hc => by omega]
      exact honce
  · have hdone : q.closed ∧ q.activeSessions.toNat = 0 := by
      rw [hclosed, hactive]
      rw [hnotified] at hpos
      by_cases hz : p.notified = 0
      · split at hpos
        · rename_i hc
          exact ⟨hc.1, by omega⟩
        · omega
      · obtain ⟨hc, hzero⟩ := h.told (Nat.pos_of_ne_zero hz)
        refine ⟨hc, ?_⟩
        rw [hzero]
        exact Nat.zero_sub n
    exact ⟨hdone.1, UInt64.toNat_inj.mp hdone.2⟩

end Pool

/-! ## Runs of a script -/

/-- The starts of a script: the sizes of its CONNECT ranges, taken together. -/
def scriptStarts (actions : List Action) : Nat :=
  ((actions.filter (·.type = .CONNECT)).map fun a => a.range.second.toNat - a.range.start.toNat).sum

theorem starts_eq {ds : List ActionDescriptor} {actions : List Action} (h : List.Forall₂ Describes ds actions) :
    (ds.map Pool.starts).sum = scriptStarts actions := by
  induction h with
  | nil => rfl
  | @cons d a ds actions hd _ ih =>
    rw [List.map_cons, List.sum_cons, ih, Pool.starts, hd.type, scriptStarts, scriptStarts, List.filter_cons]
    by_cases ht : a.type = .CONNECT
    · have hs : d.sessionsStart = a.range.start := by rw [hd.start, if_neg (by simp [ht])]
      simp [ht, Pool.rangeOf, hs, hd.stop]
    · simp [ht]

namespace Orchestrator

open Pool (rangeOf starts taskStarts Covers)

variable {env : OrchestratorEnv} {o o' : Orchestrator} {e : Event} {total : Nat} {s t : Shard}

theorem starts_part {a part : ActionDescriptor} {range : UInt32 × UInt32} (h : shardAction a range = some part) :
    starts part ≤ starts a := by
  obtain ⟨ht, -, hlt, -, hm⟩ := shardAction_spec h
  have hlt := UInt32.lt_iff_toNat_lt.mp hlt
  unfold starts
  rw [ht]
  split
  · have hfirst := (hm part.sessionsStart.toNat).mp (mem_rangeOf.mpr ⟨Nat.le_refl _, hlt⟩)
    have hlast := (hm (part.sessionsEnd.toNat - 1)).mp (mem_rangeOf.mpr ⟨by omega, by omega⟩)
    rw [mem_rangeOf] at hfirst hlast
    rw [rangeOf, rangeOf, List.length_range', List.length_range']
    omega
  · exact Nat.le_refl _

/-- What the shard has started and is yet to start, with `rest` for the actions
that were not distributed. -/
structure Within (total rest : Nat) (s : Shard) : Prop where
  covers : s.pool.Covers
  ordered : ∀ a, Task.action a ∈ s.inbox → a.sessionsStart ≤ a.sessionsEnd
  bounded : s.pool.activeSessions.toNat + (s.inbox.map taskStarts).sum + rest ≤ total

theorem Within.submitTo {a : ActionDescriptor} {range : UInt32 × UInt32} {rest : Nat}
    (h : Within total (starts a + rest) s) : Within total rest (submitTo a range s) := by
  have hless : Within total rest s := ⟨h.covers, h.ordered, by have := h.bounded; omega⟩
  unfold Orchestrator.submitTo
  split
  · exact hless
  · rename_i part hp
    unfold Shard.submitWork
    split
    · refine ⟨h.covers, fun b hb => ?_, ?_⟩
      · rcases List.mem_append.mp hb with hb | hb
        · exact h.ordered b hb
        · obtain rfl := Task.action.inj (List.mem_singleton.mp hb)
          exact UInt32.le_of_lt (shardAction_spec hp).2.2.1
      · have hpart := starts_part hp
        have hle := h.bounded
        simp only [List.map_append, List.sum_append, List.map_cons, List.map_nil, List.sum_cons, List.sum_nil, taskStarts]
        omega
    · exact hless

theorem Within.stop {rest : Nat} (h : Within total rest s) : Within total rest s.stop := by
  unfold Shard.stop
  split
  · refine ⟨h.covers, fun a ha => ?_, ?_⟩
    · rcases List.mem_append.mp ha with ha | ha
      · exact h.ordered a ha
      · cases List.mem_singleton.mp ha
    · simpa [taskStarts] using h.bounded
  · exact h

theorem Within.task {rest : Nat} {task : Task} {inbox : List Task} {pool : Pool} (h : Within total rest s)
    (ht : total < 2 ^ 64) (hi : s.inbox = task :: inbox) (hp : s.pool.handleTask env.session task = some pool) :
    Within total rest { s with inbox := inbox, pool := pool } := by
  have hle := h.bounded
  rw [hi, List.map_cons, List.sum_cons] at hle
  obtain ⟨hcovers, hactive⟩ := h.covers.task (fun a ha => h.ordered a (by simp [hi, ha])) (by omega) hp
  exact ⟨hcovers, fun a ha => h.ordered a (by simp [hi, ha]), by simp only; omega⟩

theorem Within.handled {rest : Nat} {event : Pool.Event} {pool : Pool} (h : Within total rest s)
    (hp : s.pool.handle env.session event = some pool) : Within total rest { s with pool := pool } := by
  obtain ⟨hcovers, hactive⟩ := h.covers.handled hp
  have hle := h.bounded
  exact ⟨hcovers, h.ordered, by simp only; omega⟩

def AllWithin (env : OrchestratorEnv) (total : Nat) (o : Orchestrator) : Prop :=
  ∀ s ∈ o.shards, Within total ((env.actions.drop o.currentActionIndx).map starts).sum s

theorem AllWithin.doShutdown (h : AllWithin env total o) : AllWithin env total o.doShutdown := by
  have hindex : o.doShutdown.currentActionIndx = o.currentActionIndx := by
    unfold Orchestrator.doShutdown
    split <;> rfl
  intro s hs
  rw [hindex]
  obtain ⟨s', hs', rfl | rfl⟩ := mem_doShutdown hs
  · exact h _ hs'
  · exact (h _ hs').stop

theorem AllWithin.setShard {k : Nat} (h : AllWithin env total o)
    (ht : Within total ((env.actions.drop o.currentActionIndx).map starts).sum t) :
    AllWithin env total (o.setShard k t) := by
  intro s hs
  rcases List.mem_or_eq_of_mem_set hs with hs | rfl
  · exact h s hs
  · exact ht

theorem AllWithin.step (h : AllWithin env total o) (ht : total < 2 ^ 64) (hs : Stepped env o e o') :
    AllWithin env total o' := by
  cases hs with
  | @dispatched a shards ha hs =>
    intro s hm
    obtain ⟨s, hs', range, rfl⟩ := mem_submitAll hs hm
    have hw := h s hs'
    obtain ⟨hlt, rfl⟩ := List.getElem?_eq_some_iff.mp ha
    rw [List.drop_eq_getElem_cons hlt, List.map_cons, List.sum_cons] at hw
    exact hw.submitTo
  | finished | stopped => exact h.doShutdown
  | tasked hk hi hp => exact h.setShard ((h _ (List.mem_of_getElem? hk)).task ht hi hp)
  | handled hk hp => exact h.setShard ((h _ (List.mem_of_getElem? hk)).handled hp)

/-- In every state of a run of an accepted script, which starts fewer than 2^64
sessions, the shard was told once at most, and then the pool is closed and
nothing is left to run. -/
theorem notified_once {netEnv : Env} {script : DSLData} {plan : ExecutionPlan} (h : Accepted netEnv script plan)
    (hn : scriptStarts script.orchestrator.actions < 2 ^ 64) {es : List Event}
    (r : Runs.Run (step (plan.orchestratorEnv script.settings)) (fun _ _ => True) (init plan.shardCount) es o)
    (hs : s ∈ o.shards) : s.pool.notified ≤ 1 ∧
      (0 < s.pool.notified → s.pool.closed ∧ ∀ slot ∈ s.pool.slots, ¬ slot.session.live ∧ .start ∉ slot.calls) := by
  obtain ⟨memory, hp⟩ := h.planned
  obtain ⟨table, _, _, hd, _⟩ := generatePlan_spec hp
  have hinit : AllWithin (plan.orchestratorEnv script.settings) (scriptStarts script.orchestrator.actions)
      (init plan.shardCount) := by
    intro s hs
    obtain rfl := List.eq_of_mem_replicate hs
    refine ⟨.init, by simp [Shard.start], ?_⟩
    rw [← starts_eq hd]
    simp [Shard.start, Pool.init, init, ExecutionPlan.orchestratorEnv]
  exact (r.invariant (fun _ _ _ h _ he => h.step hn (stepped_of_step he)) hinit s hs).covers.notified

def closingRun : List Event :=
  [.dispatch, .dispatch, .dispatch, .task 0, .task 0, .handler 0 (.call 0 0 true true), .task 0,
    .handler 0 (.done 0 1 (.connected 0 false))]

theorem notified_once_closing : ∃ (plan : ExecutionPlan) (o : Orchestrator) (s : Shard),
    Runs.Run (step (plan.orchestratorEnv connectScript.settings)) (fun _ _ => True) (init plan.shardCount) closingRun o ∧
      s ∈ o.shards ∧ s.pool.notified = 1 ∧ s.pool.closed ∧
      ∀ slot ∈ s.pool.slots, ¬ slot.session.live ∧ .start ∉ slot.calls := by
  have h : planRun connectScript (fun _ _ _ => True) closingRun
      (fun _ o => ∃ s ∈ o.shards, s.pool.notified = 1) = true := by
    decide +kernel
  obtain ⟨plan, o, hp, r, s, hs, hone⟩ := exists_of_planRun h
  obtain ⟨-, htold⟩ := notified_once ⟨⟨_, _, connect_accepted⟩, _, hp⟩ (by decide) r hs
  obtain ⟨hc, hrest⟩ := htold (by rw [hone]; decide)
  exact ⟨plan, o, s, r, hs, hone, hc, hrest⟩

end Orchestrator

end Loadshear
