import Loadshear.FeedSound

/-!
# Indices

The plan of an accepted script that opens with its CREATE never has a shard
read outside its sessions, nor the orchestrator outside `shard_ranges_`.
-/

namespace Loadshear

/-! ## What the validator says of CREATE -/

section
variable {env : Env} {settings : SettingsBlock} {i : Nat} {a : Action} {st st' : ValidatorState}

theorem verifyAction_pool (h : verifyAction env settings i a st = .ok st') :
    (a.type = .CREATE → st.poolSize = 0 ∧ settings.shards ≤ a.count ∧ st'.poolSize = a.count) ∧
      (a.type ≠ .CREATE → st'.poolSize = st.poolSize) := by
  unfold verifyAction at h
  cases ht : a.type with
  | CREATE =>
    simp only [ht, verifyCreate] at h
    split at h
    · cases h
    rename_i hp
    split at h
    · cases h
    rename_i hc
    obtain rfl := Except.ok.inj h
    exact ⟨fun _ => ⟨not_not.mp hp, UInt32.not_lt.mp hc, rfl⟩, by simp⟩
  | CONNECT =>
    simp only [ht, verifyConnect] at h
    split at h
    · cases h
    obtain ⟨_, _, h⟩ := bind_eq_ok h
    obtain ⟨_, _, h⟩ := bind_eq_ok h
    obtain rfl := Except.ok.inj h
    simp
  | SEND =>
    simp only [ht] at h
    obtain ⟨rfl, -⟩ := verifySend_connected h
    simp
  | FLOOD =>
    simp only [ht, verifyFlood] at h
    obtain ⟨_, _, h⟩ := bind_eq_ok h
    obtain ⟨_, _, h⟩ := bind_eq_ok h
    obtain rfl := Except.ok.inj h
    simp
  | DRAIN =>
    simp only [ht, verifyDrain] at h
    obtain ⟨_, _, h⟩ := bind_eq_ok h
    obtain ⟨_, _, h⟩ := bind_eq_ok h
    obtain rfl := Except.ok.inj h
    simp
  | DISCONNECT =>
    simp only [ht, verifyDisconnect] at h
    obtain ⟨_, _, h⟩ := bind_eq_ok h
    obtain ⟨_, _, h⟩ := bind_eq_ok h
    obtain rfl := Except.ok.inj h
    simp

/-- A pool is made once. -/
theorem verifyActions_noCreate : ∀ {actions : List Action} {i : Nat} {st st' : ValidatorState},
    st.poolSize ≠ 0 → verifyActions env settings i st actions = .ok st' → ∀ a ∈ actions, a.type ≠ .CREATE
  | [], _, _, _, _, _ => by simp
  | a :: actions, i, st, st', hp, h => by
    rw [verifyActions] at h
    obtain ⟨st₁, h₁, h⟩ := bind_eq_ok h
    obtain ⟨hcreate, hother⟩ := verifyAction_pool h₁
    have ht : a.type ≠ .CREATE := fun ht => hp (hcreate ht).1
    exact List.forall_mem_cons.mpr ⟨ht, verifyActions_noCreate (by rwa [hother ht]) h⟩

end

/-! ## Accepted scripts -/

structure Accepted (env : Env) (script : DSLData) (plan : ExecutionPlan) : Prop where
  accepted : ∃ memory text, interpretText env memory text = .ok script
  planned : ∃ memory, generatePlanCommon env memory script = .ok plan

variable {env : Env} {script : DSLData} {plan : ExecutionPlan}

theorem Accepted.verified (h : Accepted env script plan) : verifyScript env script = .ok () := by
  obtain ⟨memory, text, h⟩ := h.accepted
  obtain ⟨_, _, _, _, _, _, hv⟩ := interpretText_ok.mp h
  exact hv

theorem Accepted.created (h : Accepted env script plan) {a : Action} (ha : a ∈ script.orchestrator.actions)
    (ht : a.type = .CREATE) : a.range = ⟨0, a.count⟩ := by
  obtain ⟨memory, text, h⟩ := h.accepted
  obtain ⟨toks, d, _, _, hd, rfl, _⟩ := interpretText_ok.mp h
  exact (List.forall₂_same.mp (same_of_parse hd hd).orchestrator.actions a ha).create ht

theorem describes_types {ds : List ActionDescriptor} {actions : List Action}
    (h : List.Forall₂ Describes ds actions) : ds.map (·.type) = actions.map (·.type) := by
  rw [← List.forall₂_eq_eq_eq, List.forall₂_map_left_iff, List.forall₂_map_right_iff]
  exact h.imp fun _ _ hd => hd.type

def OpensWithCreate (actions : List Action) : Prop := ∃ a ∈ actions.head?, a.type = .CREATE

theorem Accepted.opens (h : Accepted env script plan) (ho : OpensWithCreate script.orchestrator.actions) :
    Orchestrator.Opens plan.actions plan.shardCount := by
  obtain ⟨hshards, st, hst⟩ := verifyScript_actions h.verified
  obtain ⟨memory, hp⟩ := h.planned
  obtain ⟨table, _, _, hd, _, _, hcount⟩ := generatePlan_spec hp
  obtain ⟨a, ha, ht⟩ := ho
  have hrange := h.created (List.mem_of_mem_head? ha) ht
  obtain ⟨rest, hactions⟩ := List.head?_eq_some_iff.mp ha
  rw [hactions] at hd hst
  rw [verifyActions] at hst
  obtain ⟨st₁, h₁, hst⟩ := bind_eq_ok hst
  obtain ⟨_, hle, hpool⟩ := (verifyAction_pool h₁).1 ht
  have hle := UInt32.le_iff_toNat_le.mp hle
  have hpos : 0 < script.settings.shards.toNat :=
    Nat.pos_of_ne_zero fun hz => hshards (UInt32.toNat_inj.mp hz)
  have hrest : ∀ b ∈ rest, b.type ≠ .CREATE := by
    refine verifyActions_noCreate (fun hz => ?_) hst
    rw [← hpool, hz] at hle
    exact absurd hle (Nat.not_le.mpr hpos)
  cases hplan : plan.actions with
  | nil => rw [hplan] at hd; cases hd
  | cons create ds =>
    rw [hplan] at hd
    obtain ⟨hda, hds⟩ := List.forall₂_cons.mp hd
    rw [hcount]
    refine ⟨⟨create, ds, rfl, hda.type.trans ht, ?_, ?_, ?_, fun d hd hc => ?_⟩, hpos, UInt32.toNat_lt _⟩
    · rw [hda.start, if_pos ht]
    · rw [hda.stop, hda.created ht]
    · rw [hda.created ht, hrange]
      exact hle
    · have hm : d.type ∈ ds.map (·.type) := List.mem_map_of_mem hd
      rw [describes_types hds] at hm
      obtain ⟨b, hb, hbt⟩ := List.mem_map.mp hm
      exact hrest b hb (hbt.trans hc)

/-! ## In range -/

namespace Orchestrator

open Pool (rangeOf)

/-- What the next step of the orchestrator and of each shard reads is there. -/
structure InRange (actions : List ActionDescriptor) (o : Orchestrator) : Prop where
  ranges : ∀ a ∈ actions[o.currentActionIndx]?, a.type ≠ .CREATE → o.shardRanges.length = o.shards.length
  sessions : ∀ s ∈ o.shards, ∀ d inbox, s.inbox = .action d :: inbox → d.type ≠ .CREATE →
    ∀ i ∈ rangeOf d, i < s.pool.slots.length

variable {shardCount : Nat} {o : Orchestrator} {es : List Event}

theorem Fed.inRange {env : OrchestratorEnv} {G : Nat → Session → Nat × Loadshear.Event → Prop} {early : Prop}
    {past : Nat → List (Nat × Loadshear.Event)} {range : UInt32 × UInt32} {s : Shard} {n : Nat}
    {done pending : List ActionDescriptor} (h : Fed env G early past range s n done pending)
    (ho : Opens env.actions shardCount)
    (hr : range ∈ rangesOf env.actions shardCount) {d : ActionDescriptor} {inbox : List Task}
    (hi : s.inbox = .action d :: inbox) (ht : d.type ≠ .CREATE) : ∀ i ∈ rangeOf d, i < s.pool.slots.length := by
  intro i hid
  have hinbox := h.inbox
  rw [hi] at hinbox
  cases pending with
  | nil => split at hinbox <;> simp at hinbox
  | cons a pending =>
    obtain ⟨had, _⟩ := List.cons.inj hinbox
    obtain rfl := Task.action.inj had
    have hd : done ≠ [] := fun hd => ht ((h.next ho hr).1 hd).1
    obtain ⟨a, _, ha⟩ : ∃ a ∈ env.actions.take n, shardAction a range = some d := by
      refine List.mem_filterMap.mp (?_ : d ∈ parts range (env.actions.take n))
      rw [h.sent]
      simp
    have hle := UInt32.le_iff_toNat_le.mp (shardAction_spec ha).2.2.2.1
    rw [h.after.size, if_neg hd]
    exact Nat.lt_of_lt_of_le (mem_rangeOf.mp hid).2 hle

theorem Feeds.inRange {env : OrchestratorEnv} {G : Nat → Nat → Session → Nat × Loadshear.Event → Prop}
    {early : Prop} {past : Nat → Nat → List (Nat × Loadshear.Event)} (h : Feeds env G early shardCount past o)
    (ho : Opens env.actions shardCount) : InRange env.actions o := by
  constructor
  · intro a ha ht
    have hr := h.rangesFor ho ha
    rw [Orchestrator.rangesFor, if_neg ht] at hr
    rw [hr, rangesOf_length ho, h.shards]
  · intro s hs d inbox hinbox ht
    obtain ⟨k, hk⟩ := List.mem_iff_getElem?.mp hs
    obtain ⟨range, hr⟩ := h.exists_range ho hk
    obtain ⟨n, done, pending, _, _, hf⟩ := h.fed k s range hk hr
    exact hf.inRange ho (List.mem_of_getElem? hr) hinbox ht

/-- The runs of an accepted script stay in range exactly when it starts with
CREATE: any other first action is distributed over no ranges. -/
theorem inRange_iff (h : Accepted env script plan) :
    (∀ es o, Runs.Run (step (plan.orchestratorEnv script.settings)) (fun _ _ => True) (init plan.shardCount) es o →
      InRange plan.actions o) ↔ OpensWithCreate script.orchestrator.actions := by
  constructor
  · intro hin
    obtain ⟨hshards, _⟩ := verifyScript_actions h.verified
    obtain ⟨memory, hp⟩ := h.planned
    obtain ⟨table, _, _, hd, _, _, hcount⟩ := generatePlan_spec hp
    have hne := (verifyScript_ok.mp h.verified).1.hasActions
    cases hactions : script.orchestrator.actions with
    | nil => simp [verifyHasActions, hactions] at hne
    | cons a rest =>
      rw [hactions] at hd
      obtain ⟨d, ds, hda, _, hplan⟩ := List.forall₂_cons_right_iff.mp hd
      refine ⟨a, rfl, ?_⟩
      by_contra ht
      have hr := (hin [] _ .nil).ranges d (by simp [hplan, init]) (by rwa [hda.type])
      simp only [init, List.length_nil, List.length_replicate, hcount] at hr
      exact hshards (UInt32.toNat_inj.mp hr.symm)
  · intro ho es o r
    have hopens : Opens (plan.orchestratorEnv script.settings).actions plan.shardCount := h.opens ho
    exact (feeds_of_any_run hopens r).inRange hopens

/-! ## Before and behind CREATE -/

def earlyScript : DSLData := plainScript [rangedAction .FLOOD 0 0, createAction 1]

/-- A FLOOD of no session is accepted before CREATE and then distributed. -/
theorem early_out_of_range :
    interpretText plainEnv .zero (plainText "FLOOD 0:0 CREATE 1") = .ok earlyScript ∧
    ∃ plan, generatePlanCommon plainEnv .zero earlyScript = .ok plan ∧
      ¬ InRange plan.actions (init plan.shardCount) ∧
      step (plan.orchestratorEnv earlyScript.settings) (init plan.shardCount) .dispatch = none := by
  have h : planRun earlyScript (fun _ _ _ => True) [] (fun plan o =>
      (∃ a ∈ plan.actions[o.currentActionIndx]?, a.type ≠ .CREATE ∧ o.shardRanges.length ≠ o.shards.length) ∧
        step (plan.orchestratorEnv earlyScript.settings) o .dispatch = none) = true := by
    decide +kernel
  obtain ⟨plan, o, hp, r, ⟨a, ha, ht, hr⟩, hs⟩ := exists_of_planRun h
  obtain rfl := (Runs.Run.nil (G := fun _ _ => True)).unique r
  refine ⟨?_, plan, hp, fun hin => hr (hin.ranges a ha ht), hs⟩
  rw [plainText_words]
  decide +kernel

def connectScript : DSLData := plainScript [createAction 1, rangedAction .CONNECT 0 1]

theorem connect_accepted : interpretText plainEnv .zero (plainText "CREATE 1 CONNECT 0:1") = .ok connectScript := by
  rw [plainText_words]
  decide +kernel

theorem in_range_connected : ∃ plan, generatePlanCommon plainEnv .zero connectScript = .ok plan ∧
    ∀ es o, Runs.Run (step (plan.orchestratorEnv connectScript.settings)) (fun _ _ => True)
      (init plan.shardCount) es o → InRange plan.actions o := by
  have h : planRun connectScript (fun _ _ _ => True) [] (fun _ _ => True) = true := by decide +kernel
  obtain ⟨plan, o, hp, -⟩ := exists_of_planRun h
  exact ⟨plan, hp, (inRange_iff ⟨⟨_, _, connect_accepted⟩, _, hp⟩).mpr ⟨_, rfl, rfl⟩⟩

end Orchestrator

end Loadshear
