import Loadshear.Metered
import Loadshear.PoolSound
import Loadshear.RecordSound
import Loadshear.RoundSound

/-!
# What the reports say

The counters of a shard are the tallies of what its sessions recorded, at every
point of a run (`Metering`). A report adds up the tallies that its pulls found.
-/

namespace Loadshear

/-! ## Pools -/

namespace Pool

variable {env : SessionEnv} {p q : Pool}

theorem postAll_sessions {c : Call} : ∀ {js : List Nat} {slots slots' : List Slot}, postAll c js slots = some slots' →
    slots'.map (·.session) = slots.map (·.session)
  | [], slots, slots', h => by
    obtain rfl := Option.some.inj h
    rfl
  | j :: js, slots, slots', h => by
    obtain ⟨slot, hj, h⟩ := Option.bind_eq_some_iff.mp h
    have hself : (slot.post c).session = slot.session := rfl
    rw [postAll_sessions h, List.map_set, hself]
    apply List.ext_getElem (by simp)
    intro i h₁ h₂
    rw [List.getElem_set]
    split
    · subst i
      obtain ⟨hlt, rfl⟩ := List.getElem?_eq_some_iff.mp hj
      simp
    · rfl

def sessions (p : Pool) : List Session := p.slots.map (·.session)

theorem recordedSoFar_eq (p : Pool) : p.recordedSoFar = p.sessions.flatMap (·.metrics) := by
  rw [recordedSoFar, sessions, List.flatMap_map]

/-- A task changes no session; at most it creates them. -/
theorem sessions_of_handleTask {task : Task} (h : p.handleTask env task = some q) :
    q.sessions = p.sessions ∨ p.sessions = [] ∧ ∃ n, q.sessions = List.replicate n (.init env) := by
  cases task with
  | action a =>
    cases acted_of_handleAction h with
    | created ht hs => exact .inr ⟨by simp [sessions, hs], _, List.map_replicate⟩
    | kept => exact .inl rfl
    | closed => exact .inl rfl
    | called hc ho hp => exact .inl (postAll_sessions hp)
  | shutdown =>
    obtain rfl := Option.some.inj ((shutdown_eq p).symm.trans h)
    left
    split <;> rfl

/-- A handler takes one session further, and its shard counts what it records. -/
theorem sessions_of_handle {e : Event} (h : p.handle env e = some q) : ∃ i now event s t,
    p.sessions[i]? = some s ∧ s.step env (now, event) = some t ∧ q.sessions = p.sessions.set i t ∧
      t.metrics = s.metrics ++ p.recorded env e := by
  obtain ⟨t, session, ht, hs, rfl⟩ := handle_spec h
  have hslot := (turn_spec ht).1
  refine ⟨t.i, t.now, t.event, t.slot.session, session, ?_, hs, ?_, ?_⟩
  · rw [sessions, List.getElem?_map, hslot]
    rfl
  · rw [update, sessions, (disconnectCallbacks_spec _ _).1, List.map_set, ← sessions]
  · rw [recorded, ht, Option.elim_some, hs, Option.elim_some, Session.metrics_of_step hs]
    simp

def dialing (p : Pool) : Nat := (p.sessions.map (·.connects.length)).sum

def Attempting (env : SessionEnv) (p : Pool) : Prop := ∀ s ∈ p.sessions, Session.Attempts env s

theorem tally_flatMap_set (c : Counter) (more : List Metric) : ∀ {sessions : List Session} {i : Nat} {s t : Session},
    sessions[i]? = some s → t.metrics = s.metrics ++ more →
    tally c ((sessions.set i t).flatMap (·.metrics)) = tally c (sessions.flatMap (·.metrics)) + tally c more
  | u :: sessions, 0, s, t, hs, ht => by
    obtain rfl : u = s := by simpa using hs
    simp only [List.set_cons_zero, List.flatMap_cons, ht, tally_append]
    omega
  | u :: sessions, i + 1, s, t, hs, ht => by
    have ih : tally c ((sessions.set i t).flatMap (·.metrics)) =
        tally c (sessions.flatMap (·.metrics)) + tally c more :=
      tally_flatMap_set c more (by simpa using hs) ht
    simp only [List.set_cons_succ, List.flatMap_cons, tally_append, ih]
    omega
  | [], _, _, _, hs, _ => by simp at hs

theorem tally_handle (c : Counter) {e : Event} (h : p.handle env e = some q) :
    tally c q.recordedSoFar = tally c p.recordedSoFar + tally c (p.recorded env e) := by
  obtain ⟨i, _, _, s, t, hs, -, hq, ht⟩ := sessions_of_handle h
  rw [recordedSoFar_eq, recordedSoFar_eq, hq]
  exact tally_flatMap_set c _ hs ht

theorem recordedSoFar_handleTask {task : Task} (h : p.handleTask env task = some q) :
    q.recordedSoFar = p.recordedSoFar := by
  rw [recordedSoFar_eq, recordedSoFar_eq]
  rcases sessions_of_handleTask h with hq | ⟨hp, n, hq⟩
  · rw [hq]
  · rw [hp, hq, List.flatMap_replicate]
    simp [Session.init]

theorem Attempting.handleTask {task : Task} (hp : p.Attempting env) (h : p.handleTask env task = some q) :
    q.Attempting env := by
  intro s hs
  rcases sessions_of_handleTask h with hq | ⟨_, n, hq⟩
  · rw [hq] at hs
    exact hp s hs
  · rw [hq] at hs
    obtain rfl := List.eq_of_mem_replicate hs
    exact .init env

theorem Attempting.handle {e : Event} (hp : p.Attempting env) (h : p.handle env e = some q) : q.Attempting env := by
  obtain ⟨i, now, event, s, t, hs, hstep, hq, -⟩ := sessions_of_handle h
  intro u hu
  rw [hq] at hu
  rcases List.mem_or_eq_of_mem_set hu with hu | rfl
  · exact hp u hu
  · exact (hp s (List.mem_of_getElem? hs)).step hstep

theorem attempts_flatMap : ∀ {sessions : List Session}, (∀ s ∈ sessions, Session.Attempts env s) →
    tally .connectionAttempts (sessions.flatMap (·.metrics)) =
      tally .finishedConnections (sessions.flatMap (·.metrics)) + tally .failedConnections (sessions.flatMap (·.metrics)) +
        (sessions.map (·.connects.length)).sum ∧
      (latencies .connection (sessions.flatMap (·.metrics))).length =
        (if env.transport = .TCP then tally .finishedConnections (sessions.flatMap (·.metrics)) else 0) ∧
      (env.transport = .UDP → (sessions.map (·.connects.length)).sum = 0)
  | [], _ => by simp [latencies]
  | s :: sessions, h => by
    obtain ⟨hs, hrest⟩ := List.forall_mem_cons.mp h
    obtain ⟨h₁, h₂, h₃⟩ := attempts_flatMap hrest
    have ha := hs.attempts
    have ht := hs.timed
    simp only [List.flatMap_cons, tally_append, List.map_cons, List.sum_cons, Session.latencies_append,
      List.length_append]
    refine ⟨by omega, ?_, fun hu => ?_⟩
    · rw [ht, h₂]
      split <;> rfl
    · rw [hs.udp hu, h₃ hu]
      rfl

end Pool

/-! ## Steps -/

namespace Dispatcher

variable {env : OrchestratorEnv} {d d' : Dispatcher} {now : Nat}

def pools (d : Dispatcher) : List Pool := d.orchestrator.shards.map (·.pool)

theorem distribute_pools {action : ActionDescriptor} (h : d.distribute action now = some d') : d'.pools = d.pools := by
  obtain ⟨shards, hs, rfl⟩ := distribute_spec h
  obtain ⟨hl, hk⟩ := Orchestrator.submitAll_spec hs
  apply List.ext_getElem?
  intro k
  simp only [pools, List.getElem?_map]
  cases hs' : shards[k]? with
  | none =>
    rw [List.getElem?_eq_none (hl ▸ List.getElem?_eq_none_iff.mp hs')]
  | some s' =>
    obtain ⟨s, range, hget, -, rfl⟩ := hk k s' hs'
    rw [hget, Option.map_some, Option.map_some, Orchestrator.submitTo_pool]

theorem doShutdown_pools (d : Dispatcher) : d.doShutdown.pools = d.pools := by
  cases h : d.orchestrator.shutdown with
  | true => rw [doShutdown_of_shutdown h]
  | false =>
    rw [doShutdown_of_not_shutdown h, pools, pools, List.map_map]
    exact List.map_congr_left fun s _ => Orchestrator.stop_pool s

theorem Passed.kept (r : Passed env now d d') :
    d'.pools = d.pools ∧ d'.shardMetricHistory = d.shardMetricHistory :=
  r.invariant (I := fun d' => d'.pools = d.pools ∧ d'.shardMetricHistory = d.shardMetricHistory)
    (fun _ _ _ h _ _ hd => ⟨(distribute_pools hd).trans h.1, by
      obtain ⟨_, _, rfl⟩ := distribute_spec hd
      exact h.2⟩) ⟨rfl, rfl⟩

inductive Changes (env : SessionEnv) (ps : List Pool) : Event → List Pool → Prop
  | none {e : Event} (he : ∀ k event, e ≠ .handler k event) : Changes env ps e ps
  | task {k : Nat} {task : Task} {p q : Pool} {qs : List Pool} (hk : ps[k]? = some p)
      (hp : p.handleTask env task = some q) (hq : qs = ps.set k q) : Changes env ps (.task k) qs
  | handler {k : Nat} {event : Pool.Event} {p q : Pool} {qs : List Pool} (hk : ps[k]? = some p)
      (hp : p.handle env event = some q) (hq : qs = ps.set k q) : Changes env ps (.handler k event) qs

theorem doShutdown_history (d : Dispatcher) : d.doShutdown.shardMetricHistory = d.shardMetricHistory := by
  obtain ⟨_, _, _, _, h⟩ := doShutdown_frame d
  rw [h]

theorem setShard_pools {k : Nat} {s : Shard} (h : d'.orchestrator = d.orchestrator.setShard k s) :
    d'.pools = d.pools.set k s.pool := by
  rw [pools, h, Orchestrator.setShard, List.map_set, ← pools]

theorem pools_getElem? {k : Nat} {s : Shard} (hk : d.orchestrator.shards[k]? = some s) : d.pools[k]? = some s.pool := by
  rw [pools, List.getElem?_map, hk]
  rfl

theorem changes_of_step {e : Event} (h : step env d e = some d') : Changes env.session d.pools e d'.pools := by
  cases stepped_of_step h with
  | @armed now d₁ action hr hd ha hlt =>
    have hp : (d₁.scheduleNextAction action.offset).pools = d.pools := hd.kept.1
    rw [hp]
    exact .none nofun
  | finished hr hd ha =>
    rw [doShutdown_pools, hd.kept.1]
    exact .none nofun
  | stopped hr =>
    rw [doShutdown_pools]
    exact .none nofun
  | @tasked k t s task inbox pool ht hk hi hp =>
    exact .task (pools_getElem? hk) hp (@setShard_pools d _ k { s with inbox := inbox, pool := pool } rfl)
  | @handled k event t s pool ht hk hp =>
    exact .handler (pools_getElem? hk) hp (@setShard_pools d _ k { s with pool := pool } rfl)
  | _ => exact .none nofun

theorem Changes.length {ps qs : List Pool} {e : Event} {env : SessionEnv} (h : Changes env ps e qs) :
    qs.length = ps.length := by
  cases h with
  | none => rfl
  | task _ _ hq | handler _ _ hq => rw [hq, List.length_set]

/-- Only a pull adds to the histories. -/
theorem history_of_step {e : Event} (h : step env d e = some d') (he : ∀ k counters, e ≠ .pull k counters) :
    d'.shardMetricHistory = d.shardMetricHistory := by
  cases stepped_of_step h with
  | armed hr hd ha hlt => exact hd.kept.2
  | finished hr hd ha =>
    rw [doShutdown_history]
    exact hd.kept.2
  | stopped hr => exact doShutdown_history _
  | pulled => exact absurd rfl (he _ _)
  | _ => rfl

theorem history_of_pull {k : Nat} {counters : MetricsSnapshot} (h : step env d (.pull k counters) = some d') :
    ∃ p snapshots, d.pools[k]? = some p ∧ d.shardMetricHistory[k]? = some snapshots ∧
      d'.shardMetricHistory = d.shardMetricHistory.set k
        (snapshots ++ [{ counters with connectedSessions := p.activeSessions }]) := by
  obtain ⟨t, ht, h⟩ := Option.bind_eq_some_iff.mp h
  obtain ⟨s, hk, h⟩ := Option.bind_eq_some_iff.mp h
  obtain ⟨snapshots, hh, h⟩ := Option.bind_eq_some_iff.mp h
  split at h
  · cases h
  · obtain rfl := Option.some.inj h
    exact ⟨s.pool, snapshots, pools_getElem? hk, hh, rfl⟩

end Dispatcher

/-! ## Runs -/

/-- A snapshot of a pool shows its tallies, and how many sessions it counts. -/
def Stores (p : Pool) (snapshot : MetricsSnapshot) : Prop := ∀ c, snapshot.get c =
  if c = .connectedSessions then p.activeSessions else UInt64.ofNat (tally c p.recordedSoFar)

theorem get_connected (s : MetricsSnapshot) (sessions : UInt64) (c : Counter) :
    MetricsSnapshot.get { s with connectedSessions := sessions } c =
      if c = .connectedSessions then sessions else s.get c := by
  cases c <;> simp [MetricsSnapshot.get]

def Pool.Records (p q : Pool) : Prop := ∀ c, tally c p.recordedSoFar ≤ tally c q.recordedSoFar

namespace Metered

open Runs (Run)
open Dispatcher (free Reported reports)

variable {env : OrchestratorEnv} {m m' : Metered} {n : Nat}

structure Metering (env : SessionEnv) (p : Pool) (meter : ShardMetrics) (pools : List Pool)
    (snapshots : List MetricsSnapshot) : Prop where
  counts : ∀ c, meter.fetchSnapshot.get c = UInt64.ofNat (tally c p.recordedSoFar)
  attempting : p.Attempting env
  stored : List.Forall₂ Stores pools snapshots
  found : ∀ q ∈ pools, q.Attempting env
  records : (pools ++ [p]).Pairwise Pool.Records

def Meters (env : OrchestratorEnv) (m : Metered) : Prop :=
  ∀ (k : Nat) p, m.dispatcher.pools[k]? = some p → ∃ meter pools snapshots, m.meters[k]? = some meter ∧
    m.pulled[k]? = some pools ∧ m.dispatcher.shardMetricHistory[k]? = some snapshots ∧
    Metering env.session p meter pools snapshots

theorem Metering.moved {p q : Pool} {meter meter' : ShardMetrics} {pools : List Pool} {snapshots : List MetricsSnapshot}
    (h : Metering env.session p meter pools snapshots) (hq : q.Attempting env.session) (hr : p.Records q)
    (hc : ∀ c, meter'.fetchSnapshot.get c = UInt64.ofNat (tally c q.recordedSoFar)) :
    Metering env.session q meter' pools snapshots where
  counts := hc
  attempting := hq
  stored := h.stored
  found := h.found
  records := by
    obtain ⟨h₁, -, h₂⟩ := List.pairwise_append.mp h.records
    refine List.pairwise_append.mpr ⟨h₁, List.pairwise_singleton .., fun a ha b hb => ?_⟩
    obtain rfl := List.mem_singleton.mp hb
    exact fun c => Nat.le_trans (h₂ a ha p (List.mem_singleton_self p) c) (hr c)

theorem Metering.pulled {p : Pool} {meter : ShardMetrics} {pools : List Pool} {snapshots : List MetricsSnapshot}
    (h : Metering env.session p meter pools snapshots) : Metering env.session p meter (pools ++ [p])
      (snapshots ++ [{ meter.fetchSnapshot with connectedSessions := p.activeSessions }]) where
  counts := h.counts
  attempting := h.attempting
  stored := by
    refine List.rel_append h.stored (.cons (fun c => ?_) .nil)
    rw [get_connected, h.counts]
  found q hq := by
    rcases List.mem_append.mp hq with hq | hq
    · exact h.found q hq
    · obtain rfl := List.mem_singleton.mp hq
      exact h.attempting
  records := by
    refine List.pairwise_append.mpr ⟨h.records, List.pairwise_singleton .., fun a ha b hb => ?_⟩
    obtain rfl := List.mem_singleton.mp hb
    rcases List.mem_append.mp ha with ha | ha
    · exact (List.pairwise_append.mp h.records).2.2 a ha b (List.mem_singleton_self b)
    · obtain rfl := List.mem_singleton.mp ha
      exact fun c => Nat.le_refl _

theorem meters_init : Meters env (init n) := by
  intro k p hk
  have hk' : k < n := by simpa [init, Dispatcher.init, Dispatcher.pools, Orchestrator.init] using
    (List.getElem?_eq_some_iff.mp hk).1
  obtain rfl : p = .init := by
    simp [init, Dispatcher.init, Dispatcher.pools, Orchestrator.init, hk'] at hk
    exact hk.symm
  refine ⟨{}, [], [], by simp [init, hk'], by simp [init, hk'], by simp [init, Dispatcher.init, hk'], ?_⟩
  refine ⟨fun c => ?_, ?_, .nil, ?_, ?_⟩
  · simp [Pool.recordedSoFar, Pool.init]
  · simp [Pool.Attempting, Pool.sessions, Pool.init]
  · simp
  · simp

/-- A step that moves no counter and stores no snapshot. -/
theorem Meters.frame {ds : Dispatcher} {e : Dispatcher.Event} (h : Meters env m)
    (hc : Dispatcher.Changes env.session m.dispatcher.pools e ds.pools) (he : ∀ k event, e ≠ .handler k event)
    (hh : ds.shardMetricHistory = m.dispatcher.shardMetricHistory) : Meters env { m with dispatcher := ds } := by
  intro k p hk
  simp only at hk ⊢
  rw [hh]
  generalize ds.pools = qs at hc hk
  cases hc with
  | none => exact h k p hk
  | handler => exact absurd rfl (he _ _)
  | @task j task q q' _ hj hq hqs =>
    subst hqs
    by_cases hjk : j = k
    · subst hjk
      rw [List.getElem?_set_self (List.getElem?_eq_some_iff.mp hj).1] at hk
      obtain rfl := Option.some.inj hk
      obtain ⟨meter, pools, snapshots, h₁, h₂, h₃, hm⟩ := h j q hj
      have hrec := Pool.recordedSoFar_handleTask hq
      refine ⟨meter, pools, snapshots, h₁, h₂, h₃, hm.moved (hm.attempting.handleTask hq) (fun c => ?_) fun c => ?_⟩
      · rw [hrec]
      · rw [hrec]
        exact hm.counts c
    · rw [List.getElem?_set_ne hjk] at hk
      exact h k p hk

theorem Meters.handler {k : Nat} {event : Pool.Event} {d : Dispatcher} {s : Shard} {meter : ShardMetrics}
    (h : Meters env m) (hs : m.dispatcher.orchestrator.shards[k]? = some s) (hm : m.meters[k]? = some meter)
    (hd : m.dispatcher.step env (.handler k event) = some d) : Meters env { m with
      dispatcher := d, meters := m.meters.set k (meter.recordAll (s.pool.recorded env.session event)) } := by
  have hh := Dispatcher.history_of_step hd nofun
  have hc := Dispatcher.changes_of_step hd
  have hlt := (List.getElem?_eq_some_iff.mp hm).1
  intro j p hj
  simp only at hj ⊢
  rw [hh]
  generalize d.pools = qs at hc hj
  cases hc with
  | none he => exact absurd rfl (he _ _)
  | @handler _ _ q q' _ hk hq hqs =>
    subst hqs
    obtain rfl := Option.some.inj (hk.symm.trans (Dispatcher.pools_getElem? hs))
    by_cases hjk : k = j
    · subst hjk
      rw [List.getElem?_set_self (List.getElem?_eq_some_iff.mp hk).1] at hj
      obtain rfl := Option.some.inj hj
      obtain ⟨meter', pools, snapshots, h₁, h₂, h₃, hmet⟩ := h k s.pool hk
      obtain rfl := Option.some.inj (hm.symm.trans h₁)
      refine ⟨_, pools, snapshots, List.getElem?_set_self hlt, h₂, h₃,
        hmet.moved (hmet.attempting.handle hq) (fun c => ?_) fun c => ?_⟩
      · rw [Pool.tally_handle c hq]
        exact Nat.le_add_right ..
      · rw [ShardMetrics.get_recordAll, hmet.counts c, Pool.tally_handle c hq, UInt64.ofNat_add]
    · rw [List.getElem?_set_ne hjk] at hj ⊢
      exact h j p hj

theorem Meters.pull {k : Nat} {d : Dispatcher} {s : Shard} {meter : ShardMetrics} {pools : List Pool}
    (h : Meters env m) (hs : m.dispatcher.orchestrator.shards[k]? = some s) (hm : m.meters[k]? = some meter)
    (hp : m.pulled[k]? = some pools) (hd : m.dispatcher.step env (.pull k meter.fetchSnapshot) = some d) :
    Meters env { m with dispatcher := d, pulled := m.pulled.set k (pools ++ [s.pool]) } := by
  obtain ⟨p, snapshots, hk, hh, hd'⟩ := Dispatcher.history_of_pull hd
  have hc := Dispatcher.changes_of_step hd
  obtain rfl := Option.some.inj (hk.symm.trans (Dispatcher.pools_getElem? hs))
  intro j q hj
  simp only at hj ⊢
  rw [hd']
  generalize d.pools = qs at hc hj
  cases hc with
  | none =>
    obtain ⟨meter', pools', snapshots', h₁, h₂, h₃, hmet⟩ := h j q hj
    by_cases hjk : k = j
    · subst hjk
      obtain rfl := Option.some.inj (hm.symm.trans h₁)
      obtain rfl := Option.some.inj (hp.symm.trans h₂)
      obtain rfl := Option.some.inj (hh.symm.trans h₃)
      obtain rfl := Option.some.inj (hk.symm.trans hj)
      exact ⟨meter, _, _, h₁, List.getElem?_set_self (List.getElem?_eq_some_iff.mp hp).1,
        List.getElem?_set_self (List.getElem?_eq_some_iff.mp hh).1, hmet.pulled⟩
    · rw [List.getElem?_set_ne hjk, List.getElem?_set_ne hjk]
      exact ⟨meter', pools', snapshots', h₁, h₂, h₃, hmet⟩

theorem Meters.step {e : Dispatcher.Event} (h : Meters env m) (hs : step env m e = some m') : Meters env m' := by
  have hframe : ∀ {d : Dispatcher}, (∀ k event, e ≠ .handler k event) → (∀ k counters, e ≠ .pull k counters) →
      m.dispatcher.step env e = some d → Meters env { m with dispatcher := d } := fun h₁ h₂ hd =>
    h.frame (Dispatcher.changes_of_step hd) h₁ (Dispatcher.history_of_step hd h₂)
  unfold Metered.step at hs
  split at hs
  · obtain ⟨s, hs₁, hs⟩ := Option.bind_eq_some_iff.mp hs
    obtain ⟨meter, hm, hs⟩ := Option.bind_eq_some_iff.mp hs
    obtain ⟨d, hd, hs⟩ := Option.bind_eq_some_iff.mp hs
    obtain rfl := Option.some.inj hs
    exact h.handler hs₁ hm hd
  · obtain ⟨s, hs₁, hs⟩ := Option.bind_eq_some_iff.mp hs
    obtain ⟨meter, hm, hs⟩ := Option.bind_eq_some_iff.mp hs
    obtain ⟨pools, hp, hs⟩ := Option.bind_eq_some_iff.mp hs
    split at hs
    · rename_i hcounters
      subst hcounters
      obtain ⟨d, hd, hs⟩ := Option.bind_eq_some_iff.mp hs
      obtain rfl := Option.some.inj hs
      exact h.pull hs₁ hm hp hd
    · cases hs
  · rename_i h₁ h₂
    obtain ⟨d, hd, hs⟩ := Option.bind_eq_some_iff.mp hs
    obtain rfl := Option.some.inj hs
    exact hframe (fun k event he => h₁ k event he) (fun k counters he => h₂ k counters he) hd

theorem dispatcher_step {e : Dispatcher.Event} (hs : step env m e = some m') :
    m.dispatcher.step env e = some m'.dispatcher := by
  unfold step at hs
  split at hs
  · obtain ⟨s, -, hs⟩ := Option.bind_eq_some_iff.mp hs
    obtain ⟨meter, -, hs⟩ := Option.bind_eq_some_iff.mp hs
    obtain ⟨d, hd, hs⟩ := Option.bind_eq_some_iff.mp hs
    obtain rfl := Option.some.inj hs
    exact hd
  · obtain ⟨s, -, hs⟩ := Option.bind_eq_some_iff.mp hs
    obtain ⟨meter, -, hs⟩ := Option.bind_eq_some_iff.mp hs
    obtain ⟨pools, -, hs⟩ := Option.bind_eq_some_iff.mp hs
    split at hs
    · obtain ⟨d, hd, hs⟩ := Option.bind_eq_some_iff.mp hs
      obtain rfl := Option.some.inj hs
      exact hd
    · cases hs
  · obtain ⟨d, hd, hs⟩ := Option.bind_eq_some_iff.mp hs
    obtain rfl := Option.some.inj hs
    exact hd

/-- With its counters the system does nothing that it does not do without. -/
theorem dispatcher_run {es : List Dispatcher.Event} (r : Run (step env) free (init n) es m) :
    Run (Dispatcher.step env) free (.init n) es m.dispatcher := by
  induction r with
  | nil => exact .nil
  | snoc r hg he ih => exact ih.snoc hg (dispatcher_step he)

theorem meters_of_run {es : List Dispatcher.Event} (r : Run (step env) free (init n) es m) : Meters env m :=
  r.invariant (fun _ _ _ h _ hs => h.step hs) meters_init

theorem pulled_of_step {e : Dispatcher.Event} (hs : step env m e = some m') : m'.pulled.length = m.pulled.length := by
  unfold step at hs
  split at hs
  · obtain ⟨s, -, hs⟩ := Option.bind_eq_some_iff.mp hs
    obtain ⟨meter, -, hs⟩ := Option.bind_eq_some_iff.mp hs
    obtain ⟨d, -, hs⟩ := Option.bind_eq_some_iff.mp hs
    obtain rfl := Option.some.inj hs
    rfl
  · obtain ⟨s, -, hs⟩ := Option.bind_eq_some_iff.mp hs
    obtain ⟨meter, -, hs⟩ := Option.bind_eq_some_iff.mp hs
    obtain ⟨pools, -, hs⟩ := Option.bind_eq_some_iff.mp hs
    split at hs
    · obtain ⟨d, -, hs⟩ := Option.bind_eq_some_iff.mp hs
      obtain rfl := Option.some.inj hs
      exact List.length_set
    · cases hs
  · obtain ⟨d, -, hs⟩ := Option.bind_eq_some_iff.mp hs
    obtain rfl := Option.some.inj hs
    rfl

theorem lengths_of_run {es : List Dispatcher.Event} (r : Run (step env) free (init n) es m) :
    m.dispatcher.pools.length = n ∧ m.pulled.length = n :=
  r.invariant (I := fun m => m.dispatcher.pools.length = n ∧ m.pulled.length = n)
    (fun _ _ _ h _ hs => ⟨(Dispatcher.changes_of_step (dispatcher_step hs)).length.trans h.1,
      (pulled_of_step hs).trans h.2⟩) (by simp [init, Dispatcher.init, Dispatcher.pools, Orchestrator.init])

/-- The histories hold, one for one, what the pulls found. -/
theorem stored_of_run {es : List Dispatcher.Event} (r : Run (step env) free (init n) es m) :
    List.Forall₂ (List.Forall₂ Stores) m.pulled m.dispatcher.shardMetricHistory := by
  obtain ⟨hp, hl⟩ := lengths_of_run r
  have hh := (Dispatcher.rounds_of_run (dispatcher_run r)).histories
  apply List.forall₂_iff_get.mpr
  refine ⟨hl.trans hh.symm, fun k h₁ h₂ => ?_⟩
  obtain ⟨meter, pools, snapshots, -, hpools, hsnapshots, hm⟩ :=
    meters_of_run r k _ (List.getElem?_eq_getElem (by omega))
  obtain ⟨_, rfl⟩ := List.getElem?_eq_some_iff.mp hpools
  obtain ⟨_, rfl⟩ := List.getElem?_eq_some_iff.mp hsnapshots
  exact hm.stored

theorem stored_getElem? : ∀ {pools : List Pool} {snapshots : List MetricsSnapshot}, List.Forall₂ Stores pools snapshots →
    ∀ j : Nat, Option.Rel Stores pools[j]? snapshots[j]?
  | _, _, .nil, _ => .none
  | _, _, .cons h _, 0 => .some h
  | _, _, .cons _ h, j + 1 => stored_getElem? h j

theorem stored_round {es : List Dispatcher.Event} (r : Run (step env) free (init n) es m) (j : Nat) :
    List.Forall₂ Stores (m.round j) (roundOf j m.dispatcher.shardMetricHistory) := by
  have hget : Relator.LiftFun (List.Forall₂ Stores) (Option.Rel Stores) (·[j]?) (·[j]?) := fun _ _ h =>
    stored_getElem? h j
  exact List.rel_filterMap hget (stored_of_run r)

/-! ## Reports -/

theorem sum_ofNat {α : Type} (f : α → Nat) (l : List α) :
    (l.map fun a => UInt64.ofNat (f a)).sum = UInt64.ofNat (l.map f).sum := by
  induction l with
  | nil => rfl
  | cons a l ih => rw [List.map_cons, List.sum_cons, ih, List.map_cons, List.sum_cons, UInt64.ofNat_add]

/-- What the sessions of some pools have recorded of a counter. -/
def tallies (c : Counter) (pools : List Pool) : Nat := (pools.map fun p => tally c p.recordedSoFar).sum

theorem tallies_cons (c : Counter) (p : Pool) (pools : List Pool) :
    tallies c (p :: pools) = tally c p.recordedSoFar + tallies c pools := rfl

theorem total_stored (c : Counter) : ∀ {pools : List Pool} {snapshots : List MetricsSnapshot},
    List.Forall₂ Stores pools snapshots → total c snapshots =
      if c = .connectedSessions then (pools.map (·.activeSessions)).sum
      else UInt64.ofNat (tallies c pools)
  | _, _, .nil => by
    split <;> rfl
  | p :: pools, s :: snapshots, .cons hs h => by
    have ih := total_stored c h
    rw [total_cons, hs c, ih]
    split
    · rfl
    · rw [tallies_cons, UInt64.ofNat_add]

theorem long_of_report {es : List Dispatcher.Event} (r : Run (step env) free (init n) es m) {j : Nat}
    (hj : j < (reports m.dispatcher.log).length) : ∀ pools ∈ m.pulled, j < pools.length := by
  have hs := stored_of_run r
  intro pools hp
  obtain ⟨k, hk, rfl⟩ := List.mem_iff_getElem.mp hp
  have hlen := hs.length_eq
  have hget := (List.forall₂_iff_get.mp hs).2 k hk (by omega)
  have hle := (Dispatcher.rounds_of_run (dispatcher_run r)).length_le
    (List.getElem?_eq_getElem (show k < m.dispatcher.shardMetricHistory.length by omega))
  have heq := hget.length_eq
  simp only [List.get_eq_getElem] at heq
  omega

def meteredEnv : OrchestratorEnv where
  actions := [⟨.CREATE, 0, 1, 1, 0⟩, ⟨.CONNECT, 0, 1, 0, 0⟩, ⟨.DISCONNECT, 0, 1, 0, 5000⟩]
  session := Session.onePayload .TCP

def meteredRun : List Dispatcher.Event :=
  [.run .dispatchPendingActions 0, .task 0, .task 0, .handler 0 (.call 0 1000000 true true), .metricsTimer,
    .run .doRequestMetrics 500, .post, .pull 0 { connectionAttempts := 1 }, .run .onMetricsRoundComplete 501,
    .handler 0 (.done 0 1300000 (.connected 0 true)), .metricsTimer, .run .doRequestMetrics 1001, .post,
    .pull 0 { connectionAttempts := 1, finishedConnections := 1
              connectionLatencyBuckets := #v[0, 0, 0, 1, 0, 0, 0, 0, 0, 0, 0, 0, 0, 0, 0, 0] },
    .run .onMetricsRoundComplete 1002]

theorem metered_runs : ∃ m, Run (step meteredEnv) free (init 1) meteredRun m ∧
    (∃ data, (reports m.dispatcher.log)[1]? = some data ∧ data.currentSnapshotAggregate.finishedConnections = 1 ∧
      data.currentSnapshotAggregate.connectedSessions = 1) ∧
    ((m.round 0).map (·.dialing)).sum = 1 ∧ tallies .finishedConnections (m.round 1) = 1 := by
  have hrun : ∃ m ∈ Runs.guarded (step meteredEnv) free (init 1) meteredRun,
      (∃ data ∈ (reports m.dispatcher.log)[1]?, data.currentSnapshotAggregate.finishedConnections = 1 ∧
        data.currentSnapshotAggregate.connectedSessions = 1) ∧
      ((m.round 0).map (·.dialing)).sum = 1 ∧ tallies .finishedConnections (m.round 1) = 1 := by
    decide +kernel
  obtain ⟨m, hm, hrest⟩ := hrun
  exact ⟨m, Runs.run_of_guarded hm, hrest⟩

/-- In every report each counter is the number of what the sessions of all
shards had recorded when the pulls of that round came to them. -/
theorem reports_tally {es : List Dispatcher.Event} (r : Run (step env) free (init n) es m) {j : Nat}
    {data : MetricsAggregate} (hj : (reports m.dispatcher.log)[j]? = some data) :
    (m.round j).length = n ∧
      data.currentSnapshotAggregate.connectedSessions = ((m.round j).map (·.activeSessions)).sum ∧
      ∀ c, c ≠ .connectedSessions →
        data.currentSnapshotAggregate.get c = UInt64.ofNat (tallies c (m.round j)) := by
  have hr := Dispatcher.rounds_of_run (dispatcher_run r)
  have hc : ∀ c, data.currentSnapshotAggregate.get c = if c = .connectedSessions
      then ((m.round j).map (·.activeSessions)).sum else UInt64.ofNat (tallies c (m.round j)) := fun c =>
    (hr.reported j data hj c).1.trans (total_stored c (stored_round r j))
  refine ⟨?_, hc .connectedSessions, fun c hne => (hc c).trans (if_neg hne)⟩
  have hlong := long_of_report r (List.getElem?_eq_some_iff.mp hj).1
  rw [round, List.filterMap_length_eq_length.mpr, (lengths_of_run r).2]
  intro pools hp
  simpa using hlong pools hp

theorem reports_tally_second : ∃ m data, Run (step meteredEnv) free (init 1) meteredRun m ∧
    (reports m.dispatcher.log)[1]? = some data ∧ (m.round 1).length = 1 ∧
      data.currentSnapshotAggregate.get .finishedConnections = UInt64.ofNat (tallies .finishedConnections (m.round 1)) := by
  obtain ⟨m, r, ⟨data, hj, -⟩, -⟩ := metered_runs
  obtain ⟨hl, -, hc⟩ := reports_tally r hj
  exact ⟨m, data, r, hj, hl, hc _ nofun⟩

/-! ## Connections -/

theorem attempting_round {es : List Dispatcher.Event} (r : Run (step env) free (init n) es m) (j : Nat) :
    ∀ p ∈ m.round j, p.Attempting env.session := by
  intro p hp
  obtain ⟨pools, hpools, hget⟩ := List.mem_filterMap.mp hp
  obtain ⟨k, hk, rfl⟩ := List.mem_iff_getElem.mp hpools
  obtain ⟨hl, hl'⟩ := lengths_of_run r
  obtain ⟨meter, pools', snapshots, -, hpools', -, hm⟩ :=
    meters_of_run r k _ (List.getElem?_eq_getElem (by omega))
  obtain ⟨_, rfl⟩ := List.getElem?_eq_some_iff.mp hpools'
  exact hm.found p (List.mem_of_getElem? hget)

theorem tallies_attempts : ∀ {pools : List Pool}, (∀ p ∈ pools, p.Attempting env.session) →
    tallies .connectionAttempts pools = tallies .finishedConnections pools + tallies .failedConnections pools +
        (pools.map (·.dialing)).sum ∧
      ((bucketsBelow .connection numBuckets).map (tallies · pools)).sum =
        (if env.session.transport = .TCP then tallies .finishedConnections pools else 0) ∧
      (env.session.transport = .UDP → (pools.map (·.dialing)).sum = 0)
  | [], _ => by
    refine ⟨rfl, ?_, fun _ => rfl⟩
    simp [tallies]
  | p :: pools, h => by
    obtain ⟨hp, hrest⟩ := List.forall_mem_cons.mp h
    obtain ⟨h₁, h₂, h₃⟩ := tallies_attempts hrest
    obtain ⟨hp₁, hp₂, hp₃⟩ := Pool.attempts_flatMap hp
    rw [← Pool.recordedSoFar_eq, ← sum_tally_all] at hp₂
    rw [← Pool.recordedSoFar_eq] at hp₁
    simp only [tallies_cons, List.map_cons, List.sum_cons, List.sum_map_add, hp₁, hp₂, h₁, h₂]
    refine ⟨?_, ?_, fun hu => ?_⟩
    · unfold Pool.dialing
      omega
    · split <;> rfl
    · rw [h₃ hu]
      exact hp₃ hu

/-- The first buckets of a report, together. -/
theorem buckets_of_report {es : List Dispatcher.Event} (r : Run (step env) free (init n) es m) {j : Nat}
    {data : MetricsAggregate} (hj : (reports m.dispatcher.log)[j]? = some data) (kind : LatencyKind) (k : Nat) :
    ((kind.buckets data.currentSnapshotAggregate).toList.take k).sum =
      UInt64.ofNat ((bucketsBelow kind k).map (tallies · (m.round j))).sum := by
  have hc := (reports_tally r hj).2.2
  rw [buckets_take, ← sum_ofNat]
  congr 1
  apply List.map_congr_left
  intro c hm
  apply hc
  obtain ⟨i, -, rfl⟩ := List.mem_map.mp hm
  cases kind <;> simp [LatencyKind.bucket]

/-- In every report the attempts to connect are those that were made, those that
failed and those in flight; each one made over TCP is in the histogram, over UDP
none is. -/
theorem reports_balance {es : List Dispatcher.Event} (r : Run (step env) free (init n) es m) {j : Nat}
    {data : MetricsAggregate} (hj : (reports m.dispatcher.log)[j]? = some data) :
    data.currentSnapshotAggregate.connectionAttempts = data.currentSnapshotAggregate.finishedConnections +
        data.currentSnapshotAggregate.failedConnections + UInt64.ofNat ((m.round j).map (·.dialing)).sum ∧
      (env.session.transport = .UDP → ((m.round j).map (·.dialing)).sum = 0) ∧
      data.currentSnapshotAggregate.connectionLatencyBuckets.toList.sum =
        if env.session.transport = .TCP then data.currentSnapshotAggregate.finishedConnections else 0 := by
  have hc := (reports_tally r hj).2.2
  obtain ⟨h₁, h₂, h₃⟩ := tallies_attempts (attempting_round r j)
  have ha : data.currentSnapshotAggregate.connectionAttempts = _ := hc .connectionAttempts nofun
  have hf : data.currentSnapshotAggregate.finishedConnections = _ := hc .finishedConnections nofun
  have hx : data.currentSnapshotAggregate.failedConnections = _ := hc .failedConnections nofun
  refine ⟨?_, h₃, ?_⟩
  · rw [ha, hf, hx, h₁, UInt64.ofNat_add, UInt64.ofNat_add]
  · have hb := buckets_of_report r hj .connection numBuckets
    rw [h₂, List.take_of_length_le (by simp)] at hb
    rw [hf]
    refine hb.trans ?_
    split <;> rfl

theorem reports_balance_second : ∃ m data, Run (step meteredEnv) free (init 1) meteredRun m ∧
    (reports m.dispatcher.log)[1]? = some data ∧ data.currentSnapshotAggregate.connectionLatencyBuckets.toList.sum = 1 := by
  obtain ⟨m, r, ⟨data, hj, hone, -⟩, -⟩ := metered_runs
  exact ⟨m, data, r, hj, (reports_balance r hj).2.2.trans hone⟩

/-! ## Latencies -/

def samples (kind : LatencyKind) (pools : List Pool) : List Nat :=
  pools.flatMap fun p => latencies kind p.recordedSoFar

theorem sum_tallies {kind : LatencyKind} {k : Nat} {q : Nat → Bool}
    (hq : ∀ ms, ((bucketsBelow kind k).map (tally · ms)).sum = (latencies kind ms).countP q) (pools : List Pool) :
    ((bucketsBelow kind k).map (tallies · pools)).sum = (samples kind pools).countP q := by
  induction pools with
  | nil => simp [tallies, samples]
  | cons p pools ih =>
    have hsamples : samples kind (p :: pools) = latencies kind p.recordedSoFar ++ samples kind pools := rfl
    simp only [tallies_cons, List.sum_map_add, hq, ih, hsamples, List.countP_append]

/-- The histograms of a report are cumulative counts: the first `i + 1` buckets
hold the samples below `64 * 2 ^ i` microseconds, all of them every sample. -/
theorem reports_histogram {es : List Dispatcher.Event} (r : Run (step env) free (init n) es m) {j : Nat}
    {data : MetricsAggregate} (hj : (reports m.dispatcher.log)[j]? = some data) (kind : LatencyKind) :
    (∀ i < 15, ((kind.buckets data.currentSnapshotAggregate).toList.take (i + 1)).sum =
        UInt64.ofNat ((samples kind (m.round j)).countP fun us => (UInt64.ofNat us).toNat < 64 * 2 ^ i)) ∧
      (kind.buckets data.currentSnapshotAggregate).toList.sum = UInt64.ofNat (samples kind (m.round j)).length := by
  refine ⟨fun i hi => ?_, ?_⟩
  · rw [buckets_of_report r hj, sum_tallies fun ms => sum_tally_below kind ms hi]
  · have hb := buckets_of_report r hj kind numBuckets
    have hall : ∀ ms, ((bucketsBelow kind numBuckets).map (tally · ms)).sum =
        (latencies kind ms).countP fun _ => true := fun ms => by rw [sum_tally_all, List.countP_true]
    rw [List.take_of_length_le (by simp), sum_tallies hall, List.countP_true] at hb
    exact hb

theorem reports_histogram_second : ∃ m data, Run (step meteredEnv) free (init 1) meteredRun m ∧
    (reports m.dispatcher.log)[1]? = some data ∧ data.currentSnapshotAggregate.connectionLatencyBuckets.toList.sum =
      UInt64.ofNat (samples .connection (m.round 1)).length := by
  obtain ⟨m, r, ⟨data, hj, -⟩, -⟩ := metered_runs
  exact ⟨m, data, r, hj, (reports_histogram r hj .connection).2⟩

/-! ## Changes -/

theorem tallies_mono {i j : Nat} (hij : i < j) (c : Counter) : ∀ {pulled : List (List Pool)},
    (∀ pools ∈ pulled, j < pools.length ∧ pools.Pairwise Pool.Records) →
    tallies c (pulled.filterMap (·[i]?)) ≤ tallies c (pulled.filterMap (·[j]?))
  | [], _ => Nat.le_refl _
  | pools :: pulled, h => by
    obtain ⟨⟨hlt, hp⟩, hrest⟩ := List.forall_mem_cons.mp h
    have ih := tallies_mono hij c hrest
    have hi := List.getElem?_eq_getElem (Nat.lt_trans hij hlt)
    have hj := List.getElem?_eq_getElem hlt
    have hle := List.pairwise_iff_getElem.mp hp i j (Nat.lt_trans hij hlt) hlt hij c
    rw [List.filterMap_cons, List.filterMap_cons, hi, hj]
    simp only [tallies_cons]
    omega

theorem records_of_run {es : List Dispatcher.Event} (r : Run (step env) free (init n) es m) :
    ∀ pools ∈ m.pulled, pools.Pairwise Pool.Records := by
  intro pools hp
  obtain ⟨k, hk, rfl⟩ := List.mem_iff_getElem.mp hp
  obtain ⟨hl, hl'⟩ := lengths_of_run r
  obtain ⟨meter, pools', snapshots, -, hpools', -, hm⟩ :=
    meters_of_run r k _ (List.getElem?_eq_getElem (by omega))
  obtain ⟨_, rfl⟩ := List.getElem?_eq_some_iff.mp hpools'
  exact (List.pairwise_append.mp hm.records).1

/-- The change that a report shows of a counter is what was recorded between the
pulls of two rounds. It is never negative, but for the sessions that are connected. -/
theorem changes_nonneg {es : List Dispatcher.Event} (r : Run (step env) free (init n) es m) {j : Nat}
    {data : MetricsAggregate} (hj : (reports m.dispatcher.log)[j]? = some data) {c : Counter}
    (hc : c ≠ .connectedSessions) (hb : tallies c (m.round j) < 2 ^ 63) :
    (data.changeAggregate.get c).toInt =
        tallies c (m.round j) - (if j = 0 then 0 else tallies c (m.round (j - 1)) : Nat) ∧
      0 ≤ (data.changeAggregate.get c).toInt := by
  have hchange := ((Dispatcher.rounds_of_run (dispatcher_run r)).reported j data hj c).2
  rw [total_stored c (stored_round r j), total_stored c (stored_round r (j - 1)), if_neg hc, if_neg hc] at hchange
  have hlt := (List.getElem?_eq_some_iff.mp hj).1
  have hnow : (UInt64.ofNat (tallies c (m.round j))).toNat = tallies c (m.round j) :=
    UInt64.toNat_ofNat_of_lt' (by unfold UInt64.size; omega)
  have hle : (if j = 0 then 0 else tallies c (m.round (j - 1))) ≤ tallies c (m.round j) := by
    split
    · exact Nat.zero_le _
    · refine tallies_mono (by omega) c fun pools hp => ⟨long_of_report r hlt pools hp, records_of_run r pools hp⟩
  have hprev : (if j = 0 then 0 else UInt64.ofNat (tallies c (m.round (j - 1)))).toNat =
      if j = 0 then 0 else tallies c (m.round (j - 1)) := by
    split
    · rfl
    · rename_i h0
      rw [if_neg h0] at hle
      exact UInt64.toNat_ofNat_of_lt' (by unfold UInt64.size; omega)
  have hint : (data.changeAggregate.get c).toInt =
      tallies c (m.round j) - (if j = 0 then 0 else tallies c (m.round (j - 1)) : Nat) := by
    rw [hchange, difference_toInt (by rw [hnow]; exact hb) (by rw [hprev]; omega), hnow, hprev]
  rw [hint]
  exact ⟨rfl, by omega⟩

theorem changes_nonneg_second : ∃ m data, Run (step meteredEnv) free (init 1) meteredRun m ∧
    (reports m.dispatcher.log)[1]? = some data ∧ 0 ≤ (data.changeAggregate.get .finishedConnections).toInt := by
  obtain ⟨m, r, ⟨data, hj, -⟩, -, hone⟩ := metered_runs
  exact ⟨m, data, r, hj, (changes_nonneg (c := .finishedConnections) r hj nofun (by rw [hone]; decide)).2⟩

end Metered

end Loadshear
