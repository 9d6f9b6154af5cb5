import Loadshear.OrchestratorSound
import Loadshear.PlanSound

/-!
# Counting over whole runs

In every run of every action list, `active_sessions_` of each shard holds its
busy sessions until a CONNECT reaches a session that is busy.
-/

namespace Loadshear.Orchestrator

variable {env : OrchestratorEnv} {o o' : Orchestrator} {e : Event}

def Accurate (o : Orchestrator) : Prop := ∀ s ∈ o.shards, s.pool.Accurate

instance : Decidable (Accurate o) := inferInstanceAs (Decidable (∀ s ∈ o.shards, _))

/-- A shard takes a CONNECT of a busy session from its inbox. -/
def Doubles (o : Orchestrator) : Event → Prop
  | .task k =>
    match o.shards[k]? with
    | some s =>
      match s.inbox with
      | task :: _ => s.pool.Doubles task
      | [] => False
    | none => False
  | _ => False

instance : DecidablePred (Doubles o) := by
  intro e
  unfold Doubles
  split
  · split
    · split <;> infer_instance
    · infer_instance
  · infer_instance

structure Kept (s : Shard) : Prop where
  parts : ∀ a, .action a ∈ s.inbox → a.sessionsStart ≤ a.sessionsEnd
  tidy : s.pool.Counted → s.pool.Tidy

theorem Kept.submitTo {s : Shard} {a : ActionDescriptor} {range : UInt32 × UInt32} (h : Kept s) :
    Kept (submitTo a range s) where
  parts := by
    intro b hb
    rcases mem_inbox_submitTo hb with hb | ⟨part, hp, hb⟩
    · exact h.parts b hb
    · cases hb
      exact UInt32.le_of_lt (shardAction_spec hp).2.2.1
  tidy := by
    rw [submitTo_pool]
    exact h.tidy

theorem Kept.stop {s : Shard} (h : Kept s) : Kept s.stop where
  parts := by
    intro b hb
    exact h.parts b ((mem_inbox_stop hb).resolve_right nofun)
  tidy := by
    rw [stop_pool]
    exact h.tidy

theorem task_counted {session : SessionEnv} {p q : Pool} {task : Task} (hp : p.Counted) (ht : p.Tidy)
    (hle : ∀ a, task = .action a → a.sessionsStart ≤ a.sessionsEnd) (h : p.handleTask session task = some q) :
    (q.Counted → q.Tidy) ∧ (q.Counted ↔ ¬ p.Doubles task) := by
  cases task with
  | action a =>
    obtain ⟨htidy, hiff⟩ := hp.acted ht (hle a rfl) (Pool.acted_of_handleAction h)
    exact ⟨fun hc => htidy (hiff.mp hc), hiff⟩
  | shutdown =>
    obtain rfl := Option.some.inj ((Pool.shutdown_eq p).symm.trans h)
    refine ⟨fun _ => ?_, iff_of_true ?_ id⟩
    · split
      · exact ht
      · exact ⟨ht.single, ht.small⟩
    · split
      · exact hp
      · exact hp

theorem setShard_counted {k : Nat} {s t : Shard} (hk : o.shards[k]? = some s) (ho : ∀ s ∈ o.shards, Kept s)
    (hc : ∀ s ∈ o.shards, s.pool.Counted) (ht : Kept t) :
    (∀ s ∈ (o.setShard k t).shards, Kept s) ∧
      ((∀ s ∈ (o.setShard k t).shards, s.pool.Counted) ↔ t.pool.Counted) := by
  refine ⟨fun s' hs' => ?_, fun h => h t (List.mem_set (List.getElem?_eq_some_iff.mp hk).1 t), fun h s' hs' => ?_⟩
  all_goals rcases List.mem_or_eq_of_mem_set hs' with hm | rfl
  · exact ho s' hm
  · exact ht
  · exact hc s' hm
  · exact h

theorem kept_step (ho : ∀ s ∈ o.shards, Kept s) (hc : ∀ s ∈ o.shards, s.pool.Counted)
    (h : Stepped env o e o') :
    (∀ s ∈ o'.shards, Kept s) ∧ ((∀ s ∈ o'.shards, s.pool.Counted) ↔ ¬ Doubles o e) := by
  have hsame : (∀ s' ∈ o'.shards, ∃ s ∈ o.shards, Kept s' ∧ s'.pool = s.pool) → ¬ Doubles o e →
      (∀ s ∈ o'.shards, Kept s) ∧ ((∀ s ∈ o'.shards, s.pool.Counted) ↔ ¬ Doubles o e) := by
    intro hs hd
    refine ⟨fun s' hs' => ?_, iff_of_true (fun s' hs' => ?_) hd⟩
    · obtain ⟨_, _, hk, _⟩ := hs s' hs'
      exact hk
    · obtain ⟨s, hm, _, hp⟩ := hs s' hs'
      exact hp ▸ hc s hm
  have hstop : ∀ s' ∈ o.doShutdown.shards, ∃ s ∈ o.shards, Kept s' ∧ s'.pool = s.pool := by
    intro s' hs'
    obtain ⟨s, hs, rfl | rfl⟩ := mem_doShutdown hs'
    · exact ⟨s', hs, ho s' hs, rfl⟩
    · exact ⟨s, hs, (ho s hs).stop, stop_pool s⟩
  cases h with
  | dispatched ha hs =>
    refine hsame (fun s' hs' => ?_) id
    obtain ⟨s, hm, range, rfl⟩ := mem_submitAll hs hs'
    exact ⟨s, hm, (ho s hm).submitTo, submitTo_pool _ _ s⟩
  | finished => exact hsame hstop id
  | stopped => exact hsame hstop id
  | @tasked k s task inbox pool hk hi hp =>
    have hm := List.mem_of_getElem? hk
    have hle : ∀ a, task = .action a → a.sessionsStart ≤ a.sessionsEnd := by
      rintro a rfl
      exact (ho s hm).parts a (hi ▸ List.mem_cons_self ..)
    obtain ⟨htidy, hiff⟩ := task_counted (hc s hm) ((ho s hm).tidy (hc s hm)) hle hp
    have hd : Doubles o (.task k) ↔ s.pool.Doubles task := by simp [Doubles, hk, hi]
    rw [hd, ← hiff]
    refine setShard_counted hk ho hc ⟨fun a ha => (ho s hm).parts a ?_, htidy⟩
    rw [hi]
    exact List.mem_cons_of_mem _ ha
  | @handled k e s pool hk hp =>
    have hm := List.mem_of_getElem? hk
    obtain ⟨htidy, hcount⟩ := (hc s hm).handled ((ho s hm).tidy (hc s hm)) hp
    obtain ⟨h1, h2⟩ := setShard_counted hk ho hc (t := { s with pool := pool }) ⟨(ho s hm).parts, fun _ => htidy⟩
    exact ⟨h1, h2.trans (iff_of_true hcount id)⟩

/-- The counters of a run stay right exactly as long as no CONNECT reaches a
session that is live or about to be. -/
theorem always_accurate_iff {shardCount : Nat} {es : List Event}
    (r : Runs.Run (step env) (fun _ _ => True) (init shardCount) es o) :
    Runs.Always (step env) (fun _ _ => True) Accurate (init shardCount) es ↔
      Runs.Run (step env) (fun o e => ¬ Doubles o e) (init shardCount) es o := by
  have hacc : ∀ o : Orchestrator, Accurate o ↔ ∀ s ∈ o.shards, s.pool.Counted := fun o =>
    forall_congr' fun _ => forall_congr' fun _ => Pool.accurate_iff
  have hinit : ∀ s ∈ (init shardCount).shards, s = .start := fun s hs => List.eq_of_mem_replicate hs
  have hmono : Runs.Run (step env) (fun o e => True ∧ ¬ Doubles o e) (init shardCount) es o ↔
      Runs.Run (step env) (fun o e => ¬ Doubles o e) (init shardCount) es o :=
    ⟨.mono fun _ _ h => h.2, .mono fun _ _ h => ⟨trivial, h⟩⟩
  rw [← hmono]
  refine r.always_iff (I := fun o => ∀ s ∈ o.shards, Kept s) (fun o e o' hk hc _ h => ?_) ?_ ?_
  · rw [hacc] at hc ⊢
    exact kept_step hk hc (stepped_of_step h)
  · intro s hs
    rw [hinit s hs]
    exact ⟨by simp [Shard.start], fun _ => ⟨by simp [Shard.start, Pool.init], by simp [Shard.start, Pool.init]⟩⟩
  · rw [hacc]
    intro s hs
    rw [hinit s hs]
    rfl

/-! ## A session connected again -/

def reconnectScript : DSLData :=
  plainScript [createAction 1, rangedAction .CONNECT 0 1, sendAction 0 1 1 .empty, rangedAction .DRAIN 0 1,
    rangedAction .CONNECT 0 1]

def reconnectRun : List Event :=
  List.replicate 5 .dispatch ++ [.task 0, .task 0, .handler 0 (.call 0 0 true true),
    .handler 0 (.done 0 1 (.connected 0 true)), .task 0, .handler 0 (.call 0 2 true true), .task 0,
    .handler 0 (.call 0 3 true true)]

def overlapRun : List Event :=
  reconnectRun ++ [.task 0, .handler 0 (.call 0 4 true true), .handler 0 (.done 0 5 (.wrote 0 (some 24))),
    .handler 0 (.done 0 6 (.connected 0 true))]

def reopenRun : List Event :=
  reconnectRun ++ [.handler 0 (.done 0 4 (.wrote 0 (some 24))), .task 0, .handler 0 (.call 0 5 true true),
    .handler 0 (.done 0 6 (.connected 0 true))]

theorem reconnect_accepted : interpretText plainEnv .zero (plainText
    "CREATE 1 CONNECT 0:1 SEND 0:1 p COPIES 1 DRAIN 0:1 CONNECT 0:1") = .ok reconnectScript := by
  rw [plainText_words]
  decide +kernel

/-- The session is closed for good and still counted. -/
theorem closed_but_counted :
    interpretText plainEnv .zero (plainText
      "CREATE 1 CONNECT 0:1 SEND 0:1 p COPIES 1 DRAIN 0:1 CONNECT 0:1") = .ok reconnectScript ∧
    ∃ plan o, generatePlanCommon plainEnv .zero reconnectScript = .ok plan ∧
      Runs.Run (step (plan.orchestratorEnv reconnectScript.settings)) (fun _ _ => True) (init plan.shardCount)
        overlapRun o ∧
      (∀ s ∈ o.shards, ∀ slot ∈ s.pool.slots, ¬ slot.busy) ∧ ¬ Accurate o := by
  refine ⟨reconnect_accepted, exists_of_planRun (G := fun _ _ _ => True)
    (P := fun _ o => (∀ s ∈ o.shards, ∀ slot ∈ s.pool.slots, ¬ slot.busy) ∧ ¬ Accurate o) (by decide +kernel)⟩

theorem always_accurate_reopened : ∃ plan, generatePlanCommon plainEnv .zero reconnectScript = .ok plan ∧
    Runs.Always (step (plan.orchestratorEnv reconnectScript.settings)) (fun _ _ => True) Accurate
      (init plan.shardCount) reopenRun := by
  have h : planRun reconnectScript (fun _ o e => ¬ Doubles o e) reopenRun (fun _ _ => True) = true := by
    decide +kernel
  obtain ⟨plan, o, hp, r, -⟩ := exists_of_planRun h
  exact ⟨plan, hp, (always_accurate_iff (r.mono fun _ _ _ => trivial)).mpr r⟩

end Loadshear.Orchestrator
