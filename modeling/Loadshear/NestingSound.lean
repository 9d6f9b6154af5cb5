import Loadshear.DeliverySound
import Loadshear.StepSound

/-!
# Nested writes

`do_write` calls itself when the payload list is through and REPEAT starts it
again. With a payload in the list the second call finds one; with none it nests
without end as soon as a session floods (`returns_iff`). So the handlers of a
plan without payloads return as long as no session floods that was not drained
(`always_returns_iff`).
-/

namespace Loadshear.Session

variable {env : SessionEnv} {now : Nat} {s p u t : Session} {e : Event}

/-! ## One call -/

/-- There is a payload to restart with, or nothing that asks for one. -/
def Calm (env : SessionEnv) (s : Session) : Prop :=
  env.payloads = [] → env.config.loopPayloads → ¬ s.draining → ¬ s.flood ∧ s.writesQueued = 0

theorem Calm.congr (h : Calm env s) (hf : t.flood = s.flood) (hd : t.draining = s.draining)
    (hq : t.writesQueued = s.writesQueued) : Calm env t := by
  unfold Calm
  rw [hf, hd, hq]
  exact h

theorem Calm.write (h : Calm env s) : (s.write env now).isSome := by
  by_cases hr : s.responses = []
  · by_cases hq : s.flood ∨ 0 < s.writesQueued
    · by_cases hi : s.nextPayloadIndex < env.payloads.length
      · simp [Session.write, doWrite, fillPayload, hr, hq, hi]
      · by_cases hl : env.config.loopPayloads ∧ ¬ s.draining
        · have hp : 0 < env.payloads.length := by
            apply List.length_pos_iff.mpr
            intro hp
            obtain ⟨hf, hn⟩ := h hp hl.1 hl.2
            simp [hf, hn] at hq
          simp [Session.write, doWrite, fillPayload, hr, hq, hi, hl, hp]
        · simp only [Session.write, doWrite, fillPayload, hr, hq, hi, hl, if_true, if_false, Option.isSome_some]
    · simp [Session.write, doWrite, hr, hq]
  · obtain ⟨packet, rest, hr⟩ := List.exists_cons_of_ne_nil hr
    simp [Session.write, doWrite, hr]

def Returns (env : SessionEnv) (s : Session) : Prop :=
  ∀ now responses, ({ s with responses := responses }.doWrite env now 2).isSome

theorem returns_iff : Returns env s ↔ Calm env s := by
  constructor
  · intro h hp hl hd
    by_contra hq
    have hq : s.flood ∨ 0 < s.writesQueued := by
      by_cases hf : s.flood
      · exact .inl hf
      · exact .inr (Nat.pos_of_ne_zero fun h0 => hq ⟨hf, h0⟩)
    have hnone := @doWrite_endless env 0 { s with responses := [] } rfl hq hp ⟨hl, hd⟩ 2
    simpa [hnone] using h 0 []
  · intro h now responses
    have hcalm : Calm env { s with responses := responses } := h.congr rfl rfl rfl
    exact hcalm.write

/-! ## One handler -/

def Due (s : Session) : Event → Prop
  | .call .. => True
  | .done (.connected i _) => i < s.connects.length
  | .done (.wrote i _) => i < s.writes.length
  | .done (.read i outcome) => ∃ op, s.reads[i]? = some op ∧ op.Fits outcome
  | .done (.responded i) => i < s.posts.length

/-- A FLOOD that finds no payload, before any DRAIN. -/
def FloodsEmpty (env : SessionEnv) (s : Session) (e : Event) : Prop :=
  env.payloads = [] ∧ env.config.loopPayloads ∧ ¬ s.draining ∧ e.call? = some .flood

theorem Calm.tryStartWrite (h : Calm env s) : (s.tryStartWrite env now).isSome := by
  rw [tryStartWrite_eq]
  by_cases hw : s.writing
  · simp [hw]
  · simpa [hw] using h.write

theorem Calm.onConnect (h : Calm env s) : (s.onConnect env now).isSome := by
  have hr : Calm env (s.startReading env now) := by rw [startReading_eq]; exact h.congr rfl rfl rfl
  unfold Session.onConnect
  simp only
  split
  · rfl
  · split
    · exact hr.write
    · rfl

theorem Calm.called {c : Call} {o b : Bool} (h : Calm env s) (hf : ¬ FloodsEmpty env s (.call c o b))
    (hs : ∀ n, c = .send n → Calm env { s with writesQueued := s.writesQueued + n }) :
    (s.runCall env now o b c).isSome := by
  cases c with
  | start =>
    simp only [runCall, runStart]
    split
    · rfl
    · split
      · rfl
      · split
        · rfl
        · exact Calm.onConnect (h.congr rfl rfl rfl)
  | flood =>
    simp only [runCall, runFlood]
    split
    · rfl
    · rename_i hn
      have hd : ¬ s.draining := fun hd => hn (.inr hd)
      have hcalm : Calm env { s with flood := true } := fun hp hl _ => absurd ⟨hp, hl, hd, rfl⟩ hf
      split
      · exact hcalm.tryStartWrite
      · rfl
  | send n =>
    simp only [runCall, runSend]
    split
    · exact (hs n rfl).tryStartWrite
    · rfl
  | drain | stop => rfl

theorem Calm.completed {c : Completion} (h : Calm env s) (hd : Due s (.done c)) : (s.complete env now c).isSome := by
  cases c with
  | connected i ok =>
    have hi : s.connects[i]? = some s.connects[i] := List.getElem?_eq_getElem hd
    simp only [complete, hi, Option.bind_eq_bind, Option.bind_some, connectDone]
    split
    · rfl
    · exact Calm.onConnect (h.congr rfl rfl rfl)
  | wrote i sent =>
    have hi : s.writes[i]? = some s.writes[i] := List.getElem?_eq_getElem hd
    simp only [complete, hi, Option.bind_eq_bind, Option.bind_some]
    cases sent with
    | none => rfl
    | some count =>
      simp only [Session.wrote]
      refine Calm.write (h.congr ?_ ?_ ?_) <;> split <;> rfl
  | read i outcome =>
    obtain ⟨op, hi, hfit⟩ := hd
    simp [complete, hi, hfit]
  | responded i =>
    have hi : s.posts[i]? = some s.posts[i] := List.getElem?_eq_getElem hd
    simp only [complete, hi, Option.bind_eq_bind, Option.bind_some, Session.responded, Option.isSome_map]
    split
    · exact Calm.tryStartWrite (h.congr rfl rfl rfl)
    · rfl

theorem Calm.step (h : Calm env s) (hd : Due s e) (hf : ¬ FloodsEmpty env s e)
    (hs : ∀ n, e.call? = some (.send n) → Calm env { s with writesQueued := s.writesQueued + n }) :
    (step env s (now, e)).isSome := by
  cases e with
  | call c o b => exact h.called hf fun n hc => hs n (by rw [hc]; rfl)
  | done c => exact h.completed hd

theorem Connected.flood (h : Connected env now s t) : t.flood = s.flood := by
  cases h with
  | quiet => rw [startReading_eq]
  | write _ _ h => rw [h.frame.flood, startReading_eq]

theorem Handled.flood_iff (h : Handled env now s e t) :
    t.flood ↔ s.flood ∨ e.call? = some .flood ∧ ¬ s.draining := by
  cases h with
  | floodIgnored hf =>
    simp only [Event.call?, true_and]
    exact ⟨.inl, fun h => h.elim id fun hd => hf.resolve_right hd⟩
  | floodKept hf hd _ => simp [Event.call?, hd]
  | flooded hf hd _ h => simp [Event.call?, h.frame.flood, hd]
  | opened _ _ h => simp [Event.call?, h.flood]
  | connected _ h => simp [Event.call?, h.flood]
  | sent _ h => simp [Event.call?, h.frame.flood]
  | wrote _ h => simp [Event.call?, h.frame.flood]
  | responded _ _ h => simp [Event.call?, doRead, h.frame.flood]
  | refused | drainClosed | stopped | connectFailed | writeFailed | readFailed => simp [Event.call?, closeSession_eq]
  | dialed | sendKept | drainKept | reread | handed | respondedEmpty => simp [Event.call?, doRead]

theorem Handled.unqueued (h : Handled env now s e t) (hq : s.writesQueued = 0) (hs : ∀ n, e.call? ≠ some (.send n)) :
    t.writesQueued = 0 := by
  obtain ⟨p, u, hp, ht, hu⟩ := h.passes
  have hsent : Session.sent e = 0 := by
    cases e with
    | call c o b =>
      cases c with
      | send n => exact absurd rfl (hs n)
      | _ => rfl
    | done c => rfl
  have hpq : p.writesQueued = 0 := by rw [hp.queued, hq, hsent]
  have hout : t.writesQueued = u.writesQueued := congrArg Output.writesQueued ht
  rw [hout]
  rcases hu with rfl | ⟨hw, -⟩
  · exact hpq
  · cases hw with
    | response => exact hpq
    | payload =>
      simp only [beginWrite, hpq, Nat.zero_sub, ite_self]
    | stop =>
      rw [stopWriting_eq]
      exact hpq

/-- A calm session stays calm unless it floods with nothing to send. -/
theorem Handled.calm_iff (h : Handled env now s e t) (hc : Calm env s)
    (hq : env.payloads = [] → s.writesQueued = 0 ∧ ∀ n, e.call? ≠ some (.send n)) :
    Calm env t ↔ ¬ FloodsEmpty env s e := by
  constructor
  · intro ht ⟨hp, hl, hd, he⟩
    have hdrain : ¬ t.draining := by
      rw [h.draining, he]
      simp [hd]
    exact (ht hp hl hdrain).1 (h.flood_iff.mpr (.inr ⟨he, hd⟩))
  · intro hf hp hl hd
    have hsd : ¬ s.draining := fun hsd => hd (h.draining.mpr (.inl hsd))
    obtain ⟨hzero, hsend⟩ := hq hp
    refine ⟨fun ht => ?_, h.unqueued hzero hsend⟩
    rcases h.flood_iff.mp ht with hsf | ⟨he, -⟩
    · exact (hc hp hl hsd).1 hsf
    · exact hf ⟨hp, hl, hsd, he⟩

theorem Calm.init (env : SessionEnv) : Calm env (init env) := fun _ _ _ => ⟨by simp [Session.init], rfl⟩

end Loadshear.Session

namespace Loadshear.Pool

variable {env : SessionEnv} {p q : Pool}

/-- Every handler of the pool returns, and so would any `do_write` after it. -/
structure Returns (env : SessionEnv) (p : Pool) : Prop where
  writes : ∀ slot ∈ p.slots, slot.session.Returns env
  handlers : ∀ e t, p.turn e = some t → t.slot.session.Due t.event →
    ¬ Session.FloodsEmpty env t.slot.session t.event → (p.handle env e).isSome

structure Unsent (p : Pool) : Prop where
  calls : ∀ slot ∈ p.slots, ∀ n, .send n ∉ slot.calls
  queued : ∀ slot ∈ p.slots, slot.session.writesQueued = 0

def Calm (env : SessionEnv) (p : Pool) : Prop := ∀ slot ∈ p.slots, slot.session.Calm env

theorem acted_slots {a : ActionDescriptor} (h : Acted env p a q) : ∀ slot ∈ q.slots, slot = .init env ∨
    ∃ slot' ∈ p.slots, slot = slot' ∨ ∃ c, callOf a = some c ∧ slot = slot'.post c := by
  cases h with
  | created => exact fun slot hm => .inl (List.eq_of_mem_replicate hm)
  | kept | closed => exact fun slot hm => .inr ⟨slot, hm, .inl rfl⟩
  | @called c slots hc _ hp =>
    intro slot hm
    obtain ⟨i, hi⟩ := List.getElem?_of_mem hm
    rw [postAll_getElem? (rangeOf_nodup a) hp] at hi
    split at hi
    · obtain ⟨slot', hi', rfl⟩ := Option.map_eq_some_iff.mp hi
      exact .inr ⟨slot', List.mem_of_getElem? hi', .inr ⟨c, hc, rfl⟩⟩
    · exact .inr ⟨slot, List.mem_of_getElem? hi, .inl rfl⟩

theorem Unsent.acted {a : ActionDescriptor} (h : p.Unsent) (hs : a.type ≠ .SEND) (ha : Acted env p a q) : q.Unsent := by
  refine ⟨fun slot hm n => ?_, fun slot hm => ?_⟩
  all_goals rcases acted_slots ha slot hm with rfl | ⟨slot', hm', rfl | ⟨c, hc, rfl⟩⟩
  · simp [Slot.init]
  · exact h.calls slot hm' n
  · intro hn
    rcases List.mem_append.mp hn with hn | hn
    · exact h.calls slot' hm' n hn
    · obtain rfl := List.mem_singleton.mp hn
      unfold callOf at hc
      split at hc <;> simp_all
  · rfl
  · exact h.queued slot hm'
  · exact h.queued slot' hm'

theorem Calm.acted {a : ActionDescriptor} (h : p.Calm env) (ha : Acted env p a q) : q.Calm env := by
  intro slot hm
  rcases acted_slots ha slot hm with rfl | ⟨slot', hm', rfl | ⟨c, hc, rfl⟩⟩
  · exact .init env
  · exact h slot hm'
  · exact h slot' hm'

theorem Unsent.event {e : Event} {t : Turn} (h : p.Unsent) (ht : p.turn e = some t) (n : Nat) :
    t.event.call? ≠ some (.send n) := by
  intro hn
  obtain ⟨hslot, ⟨c, o, b, he, hcalls⟩ | ⟨c, he, -⟩⟩ := turn_spec ht
  · rw [he] at hn
    obtain rfl := Option.some.inj hn
    exact h.calls t.slot (List.mem_of_getElem? hslot) n (hcalls ▸ List.mem_cons_self ..)
  · rw [he] at hn
    cases hn

theorem returns_of_calm (h : p.Calm env) (hu : env.payloads = [] → p.Unsent) : p.Returns env := by
  refine ⟨fun slot hm => Session.returns_iff.mpr (h slot hm), fun e t ht hd hf => ?_⟩
  have hm := List.mem_of_getElem? (turn_spec ht).1
  have hstep : (t.slot.session.step env (t.now, t.event)).isSome :=
    (h t.slot hm).step hd hf fun n hn hp => absurd hn ((hu hp).event ht n)
  obtain ⟨session, hs⟩ := Option.isSome_iff_exists.mp hstep
  simp [handle, ht, hs]

def FloodsEmpty (env : SessionEnv) (p : Pool) (e : Event) : Prop :=
  ∃ t ∈ p.turn e, Session.FloodsEmpty env t.slot.session t.event

theorem Unsent.handled {e : Event} (h : p.Unsent) (hs : p.handle env e = some q) : q.Unsent := by
  obtain ⟨t, session, ht, hstep, rfl⟩ := handle_spec hs
  obtain ⟨hslot, hev⟩ := turn_spec ht
  have hm := List.mem_of_getElem? hslot
  have hsub : ∀ c ∈ t.calls, c ∈ t.slot.calls := by
    intro c hc
    rcases hev with ⟨c', o, b, -, hcalls⟩ | ⟨c', -, hcalls⟩
    · rw [hcalls]
      exact List.mem_cons_of_mem _ hc
    · rwa [← hcalls]
  have hqueued := (Session.handled_of_step hstep).unqueued (h.queued t.slot hm) (h.event ht)
  have hslots := (disconnectCallbacks_spec (session.disconnects - t.slot.session.disconnects)
    { p with slots := p.slots.set t.i ⟨t.calls, session⟩ }).1
  unfold update
  refine ⟨fun slot hm' n hn => ?_, fun slot hm' => ?_⟩
  all_goals
    rw [hslots] at hm'
    rcases List.mem_or_eq_of_mem_set hm' with hm' | rfl
  · exact h.calls slot hm' n hn
  · exact h.calls t.slot hm n (hsub _ hn)
  · exact h.queued slot hm'
  · exact hqueued

theorem Calm.handled_iff {e : Event} (h : p.Calm env) (hu : env.payloads = [] → p.Unsent)
    (hs : p.handle env e = some q) : q.Calm env ↔ ¬ p.FloodsEmpty env e := by
  obtain ⟨t, session, ht, hstep, rfl⟩ := handle_spec hs
  have hslot := (turn_spec ht).1
  have hm := List.mem_of_getElem? hslot
  have hlt := (List.getElem?_eq_some_iff.mp hslot).1
  have hslots := (disconnectCallbacks_spec (session.disconnects - t.slot.session.disconnects)
    { p with slots := p.slots.set t.i ⟨t.calls, session⟩ }).1
  have hiff := (Session.handled_of_step hstep).calm_iff (h t.slot hm)
    fun hp => ⟨(hu hp).queued t.slot hm, (hu hp).event ht⟩
  have hfloods : p.FloodsEmpty env e ↔ Session.FloodsEmpty env t.slot.session t.event := by
    simp [FloodsEmpty, ht]
  rw [hfloods, ← hiff]
  unfold Calm update
  rw [hslots]
  constructor
  · exact fun hall => hall ⟨t.calls, session⟩ (List.mem_set hlt _)
  · intro hcalm slot hm'
    rcases List.mem_or_eq_of_mem_set hm' with hm' | rfl
    · exact h slot hm'
    · exact hcalm

theorem calm_of_returns (h : p.Returns env) : p.Calm env := fun slot hm => Session.returns_iff.mp (h.writes slot hm)

end Loadshear.Pool

namespace Loadshear.Orchestrator

variable {env : OrchestratorEnv} {o o' : Orchestrator} {e : Event}

def Returning (env : OrchestratorEnv) (o : Orchestrator) : Prop := ∀ s ∈ o.shards, s.pool.Returns env.session

def FloodsEmpty (env : OrchestratorEnv) (o : Orchestrator) : Event → Prop
  | .handler k e => ∃ s ∈ o.shards[k]?, s.pool.FloodsEmpty env.session e
  | _ => False

structure Unsent (s : Shard) : Prop where
  inbox : ∀ a, .action a ∈ s.inbox → a.type ≠ .SEND
  pool : s.pool.Unsent

theorem unsent_start : Unsent .start :=
  ⟨by simp [Shard.start], ⟨by simp [Shard.start, Pool.init], by simp [Shard.start, Pool.init]⟩⟩

theorem Unsent.submitTo {s : Shard} {a : ActionDescriptor} {range : UInt32 × UInt32} (h : Unsent s)
    (ha : a.type ≠ .SEND) : Unsent (submitTo a range s) where
  inbox := by
    intro b hb
    rcases mem_inbox_submitTo hb with hb | ⟨part, hp, hb⟩
    · exact h.inbox b hb
    · cases hb
      rwa [(shardAction_spec hp).1]
  pool := by
    rw [submitTo_pool]
    exact h.pool

theorem Unsent.stop {s : Shard} (h : Unsent s) : Unsent s.stop where
  inbox := by
    intro b hb
    exact h.inbox b ((mem_inbox_stop hb).resolve_right nofun)
  pool := by
    rw [stop_pool]
    exact h.pool

theorem Unsent.tasked {s : Shard} {task : Task} {inbox : List Task} {pool : Pool} {session : SessionEnv}
    (h : Unsent s) (hi : s.inbox = task :: inbox) (hp : s.pool.handleTask session task = some pool) :
    Unsent { s with inbox := inbox, pool := pool } := by
  refine ⟨fun a ha => h.inbox a (by rw [hi]; exact List.mem_cons_of_mem _ ha), ?_⟩
  cases task with
  | action a =>
    have hs : a.type ≠ .SEND := h.inbox a (by rw [hi]; exact List.mem_cons_self ..)
    exact h.pool.acted hs (Pool.acted_of_handleAction hp)
  | shutdown =>
    obtain rfl := Option.some.inj ((Pool.shutdown_eq _).symm.trans hp)
    split
    · exact h.pool
    · exact ⟨h.pool.calls, h.pool.queued⟩

theorem calm_tasked {s : Shard} {task : Task} {pool : Pool} {session : SessionEnv} (h : s.pool.Calm session)
    (hp : s.pool.handleTask session task = some pool) : pool.Calm session := by
  cases task with
  | action a => exact h.acted (Pool.acted_of_handleAction hp)
  | shutdown =>
    obtain rfl := Option.some.inj ((Pool.shutdown_eq _).symm.trans hp)
    split <;> exact h

theorem returning_iff (hu : env.session.payloads = [] → ∀ s ∈ o.shards, Unsent s) :
    Returning env o ↔ ∀ s ∈ o.shards, s.pool.Calm env.session :=
  ⟨fun h s hs => Pool.calm_of_returns (h s hs), fun h s hs => Pool.returns_of_calm (h s hs) fun hp => (hu hp s hs).pool⟩

/-- Only a FLOOD with nothing to send takes the calm away. -/
theorem calm_step (ha : env.session.payloads = [] → ∀ a ∈ env.actions, a.type ≠ .SEND)
    (hu : env.session.payloads = [] → ∀ s ∈ o.shards, Unsent s) (hc : ∀ s ∈ o.shards, s.pool.Calm env.session)
    (h : Stepped env o e o') : (env.session.payloads = [] → ∀ s ∈ o'.shards, Unsent s) ∧
      ((∀ s ∈ o'.shards, s.pool.Calm env.session) ↔ ¬ FloodsEmpty env o e) := by
  have hstop : (env.session.payloads = [] → ∀ s ∈ o.doShutdown.shards, Unsent s) ∧
      ∀ s ∈ o.doShutdown.shards, s.pool.Calm env.session := by
    refine ⟨fun hp s' hs' => ?_, fun s' hs' => ?_⟩
    all_goals obtain ⟨s, hs, rfl | rfl⟩ := mem_doShutdown hs'
    · exact hu hp _ hs
    · exact (hu hp s hs).stop
    · exact hc _ hs
    · rw [stop_pool]
      exact hc s hs
  cases h with
  | @dispatched a shards hn hs =>
    refine ⟨fun hp s' hs' => ?_, iff_of_true (fun s' hs' => ?_) id⟩
    all_goals obtain ⟨s, hm, range, rfl⟩ := mem_submitAll hs hs'
    · exact (hu hp s hm).submitTo (ha hp a (List.mem_of_getElem? hn))
    · rw [submitTo_pool]
      exact hc s hm
  | finished => exact ⟨hstop.1, iff_of_true hstop.2 id⟩
  | stopped => exact ⟨hstop.1, iff_of_true hstop.2 id⟩
  | @tasked k s task inbox pool hk hi hp =>
    have hm := List.mem_of_getElem? hk
    refine ⟨fun hpay s' hs' => ?_, iff_of_true (fun s' hs' => ?_) id⟩
    all_goals rcases List.mem_or_eq_of_mem_set hs' with hm' | rfl
    · exact hu hpay s' hm'
    · exact (hu hpay s hm).tasked hi hp
    · exact hc s' hm'
    · exact calm_tasked (hc s hm) hp
  | @handled k e s pool hk hp =>
    have hm := List.mem_of_getElem? hk
    have hlt := (List.getElem?_eq_some_iff.mp hk).1
    have hiff := (hc s hm).handled_iff (fun hpay => (hu hpay s hm).pool) hp
    have hfloods : FloodsEmpty env o (.handler k e) ↔ s.pool.FloodsEmpty env.session e := by simp [FloodsEmpty, hk]
    rw [hfloods, ← hiff]
    refine ⟨fun hpay s' hs' => ?_, fun hall => hall { s with pool := pool } (List.mem_set hlt _), fun hcalm s' hs' => ?_⟩
    all_goals rcases List.mem_or_eq_of_mem_set hs' with hm' | rfl
    · exact hu hpay s' hm'
    · exact ⟨(hu hpay s hm).inbox, (hu hpay s hm).pool.handled hp⟩
    · exact hc s' hm'
    · exact hcalm

end Loadshear.Orchestrator

namespace Loadshear

variable {env : Env} {script : DSLData} {plan : ExecutionPlan}

theorem Accepted.noSend (h : Accepted env script plan) (hp : plan.payloads = []) :
    ∀ d ∈ plan.actions, d.type ≠ .SEND := by
  obtain ⟨memory, hplan⟩ := h.planned
  obtain ⟨_, _, _, hd, _⟩ := generatePlan_spec hplan
  intro d hm ht
  have htypes : d.type ∈ script.orchestrator.actions.map (·.type) := by
    rw [← describes_types hd]
    exact List.mem_map_of_mem hm
  obtain ⟨a, ha, hat⟩ := List.mem_map.mp htypes
  have hs : a.type = .SEND := hat.trans ht
  have hcount : 0 < a.count.toNat := Nat.pos_of_ne_zero fun h0 => (h.send ha hs).1 (UInt32.toNat_inj.mp h0)
  obtain ⟨i, hi⟩ := List.getElem?_of_mem ha
  have hcopy : 0 < a.copies := by rwa [Action.copies, if_pos hs]
  obtain ⟨payload, hpayload, -⟩ := generatePlan_copy hplan hi hcopy
  simp [hp] at hpayload

open Orchestrator in
/-- In every run of every accepted script the handlers return, with `do_write`
nested once at most, exactly as long as no session floods that was not drained
while there is no payload and REPEAT is on. -/
theorem always_returning_iff (h : Accepted env script plan) {es : List Orchestrator.Event} {o : Orchestrator}
    (r : Runs.Run (step (plan.orchestratorEnv script.settings)) (fun _ _ => True) (init plan.shardCount) es o) :
    Runs.Always (step (plan.orchestratorEnv script.settings)) (fun _ _ => True)
        (Returning (plan.orchestratorEnv script.settings)) (init plan.shardCount) es ↔
      Runs.Run (step (plan.orchestratorEnv script.settings))
        (fun o e => ¬ FloodsEmpty (plan.orchestratorEnv script.settings) o e) (init plan.shardCount) es o := by
  have hmono : ∀ {penv : OrchestratorEnv}, Runs.Run (step penv)
      (fun o e => True ∧ ¬ FloodsEmpty penv o e) (init plan.shardCount) es o ↔
      Runs.Run (step penv) (fun o e => ¬ FloodsEmpty penv o e) (init plan.shardCount) es o :=
    ⟨.mono fun _ _ h => h.2, .mono fun _ _ h => ⟨trivial, h⟩⟩
  have hinit : ∀ s ∈ (init plan.shardCount).shards, s = .start := fun s hs => List.eq_of_mem_replicate hs
  rw [← hmono]
  refine r.always_iff (I := fun o => plan.payloads = [] → ∀ s ∈ o.shards, Unsent s) (fun o e o' hu hr _ hs => ?_) ?_ ?_
  · obtain ⟨hu', hiff⟩ := calm_step h.noSend hu ((returning_iff hu).mp hr) (stepped_of_step hs)
    exact ⟨hu', (returning_iff hu').trans hiff⟩
  · intro _ s hs
    rw [hinit s hs]
    exact unsent_start
  · intro s hs
    rw [hinit s hs]
    exact Pool.returns_of_calm (by simp [Pool.Calm, Shard.start, Pool.init]) fun _ => unsent_start.pool

/-! ## A flood without payloads -/

def emptyText : List Char :=
  ("SETTINGS s \x7b SESSION = \"TCP\" PORT = 80 HEADERSIZE = 4 BODYMAX = 8 REPEAT = \"true\" SHARDS = 1 "
    ++ "ENDPOINTS \x7b \"host\" \x7d PACKETS \x7b p : \"p.bin\" \x7d \x7d "
    ++ "ORCHESTRATOR s \x7b CREATE 1 CONNECT 0:1 FLOOD 0:1 \x7d").toList

def emptyScript : DSLData :=
  let script := plainScript [createAction 1, rangedAction .CONNECT 0 1, rangedAction .FLOOD 0 1]
  { script with settings := { script.settings with repeat' := true } }

theorem empty_accepted : interpretText plainEnv .zero emptyText = .ok emptyScript := by
  unfold emptyText
  rw [String.toList_append, String.toList_append]
  decide +kernel

namespace Orchestrator

def emptyRun : List Event :=
  [.dispatch, .dispatch, .dispatch, .task 0, .task 0, .task 0, .handler 0 (.call 0 0 true true),
    .handler 0 (.done 0 1 (.connected 0 true))]

instance (env : OrchestratorEnv) (o : Orchestrator) : DecidablePred (FloodsEmpty env o)
  | .handler k e => inferInstanceAs (Decidable (∃ s ∈ o.shards[k]?, ∃ t ∈ s.pool.turn e,
      env.session.payloads = [] ∧ env.session.config.loopPayloads ∧ ¬ t.slot.session.draining ∧
        t.event.call? = some .flood))
  | .dispatch | .earlyStop | .task _ => inferInstanceAs (Decidable False)

end Orchestrator

open Orchestrator in
theorem always_returning_empty : ∃ plan, generatePlanCommon plainEnv .zero emptyScript = .ok plan ∧
    Runs.Always (step (plan.orchestratorEnv emptyScript.settings)) (fun _ _ => True)
      (Returning (plan.orchestratorEnv emptyScript.settings)) (init plan.shardCount) emptyRun := by
  have h : Orchestrator.planRun emptyScript (fun plan o e => ¬ FloodsEmpty (plan.orchestratorEnv emptyScript.settings) o e) emptyRun
      (fun _ _ => True) = true := by
    decide +kernel
  obtain ⟨plan, o, hp, r, -⟩ := exists_of_planRun h
  exact ⟨plan, hp, (always_returning_iff ⟨⟨_, _, empty_accepted⟩, _, hp⟩ (r.mono fun _ _ _ => trivial)).mpr r⟩

open Orchestrator in
/-- The next handler of the session floods, and nests as deep as the stack allows. -/
theorem flood_endless :
    interpretText plainEnv .zero emptyText = .ok emptyScript ∧
    ∃ plan o, generatePlanCommon plainEnv .zero emptyScript = .ok plan ∧
      Runs.Run (step (plan.orchestratorEnv emptyScript.settings)) (fun _ _ => True) (init plan.shardCount) emptyRun o ∧
      ∃ s slot, o.shards[0]? = some s ∧ s.pool.slots[0]? = some slot ∧ slot.calls = [.flood] ∧ slot.session.ready ∧
        ∀ now fuel, { slot.session with flood := true }.doWrite (plan.orchestratorEnv emptyScript.settings).session now
          fuel = none := by
  have h : Orchestrator.planRun emptyScript (fun _ _ _ => True) emptyRun (fun plan o => plan.payloads = [] ∧
      plan.config.loopPayloads ∧ ∃ s ∈ o.shards[0]?, ∃ slot ∈ s.pool.slots[0]?, slot.calls = [.flood] ∧
        slot.session.ready ∧ ¬ slot.session.draining ∧ slot.session.responses = []) = true := by
    decide +kernel
  obtain ⟨plan, o, hp, r, hpay, hloop, s, hs, slot, hslot, hcalls, hready, hdrain, hresp⟩ := exists_of_planRun h
  exact ⟨empty_accepted, plan, o, hp, r, s, slot, hs, hslot, hcalls, hready, fun now fuel =>
    @Session.doWrite_endless _ now { slot.session with flood := true } hresp (.inl rfl) hpay ⟨hloop, hdrain⟩ fuel⟩

end Loadshear
