import Loadshear.DryRun
import Loadshear.StepSound

/-!
# Payloads and counters side by side

A plan holds for each copy of a SEND one payload and one list of steps, at the
same place of two vectors. Those who walk the vectors with an index of their own
stay within them: `fill_payload` through the operations of a payload, and the
dry run through the payloads of the actions.
-/

namespace Loadshear

open Preparation

/-! ## The blocks -/

section
variable {env : Env} {memory : Memory} {script : DSLData} {plan : ExecutionPlan}

theorem generatePlan_lengths (h : generatePlanCommon env memory script = .ok plan) :
    plan.payloads.length = (script.orchestrator.actions.map Action.copies).sum ∧
      plan.counterSteps.length = (script.orchestrator.actions.map Action.copies).sum := by
  have hlength := generatePlan_length h
  obtain ⟨_, _, hpayloads, hsteps⟩ := generatePlan_copies h
  refine ⟨hlength, ?_⟩
  rw [← hlength, hpayloads, hsteps, List.length_map, List.length_map]

def HoldsCopy (plan : ExecutionPlan) (table : PacketTable) (a : Action) (p : Nat) : Prop :=
  ∃ payload steps, planSend table a = .ok (payload, steps) ∧ plan.payloads[p]? = some payload ∧
    plan.counterSteps[p]? = some steps

theorem generatePlan_blocks (h : generatePlanCommon env memory script = .ok plan) :
    ∃ table, loadPackets env script.settings.packetIdentifiers {} = .ok table ∧
      ∀ i a, script.orchestrator.actions[i]? = some a → ∀ c < a.copies,
        HoldsCopy plan table a (copiesBefore script.orchestrator.actions i + c) := by
  obtain ⟨table, hload, hpayloads, hsteps⟩ := generatePlan_copies h
  obtain ⟨table', hload', _, _, hsends, _⟩ := generatePlan_spec h
  obtain rfl := Except.ok.inj (hload.symm.trans hload')
  refine ⟨table, hload, fun i a ha c hc => ?_⟩
  obtain ⟨hs, hcount⟩ := Action.copies_send hc
  obtain ⟨⟨payload, steps⟩, hr⟩ := hsends a (List.mem_of_getElem? ha) hs
  have hblock : (script.orchestrator.actions.flatMap (copyBlock table))[copiesBefore script.orchestrator.actions i +
      c]? = some (payload, steps) := by
    rw [flatMap_getElem? (fun b hb => copyBlock_length (hsends b hb)) ha hc, copyBlock, if_pos hs, hr]
    simp [hcount]
  refine ⟨payload, steps, hr, ?_, ?_⟩
  · rw [hpayloads, List.getElem?_map, hblock]
    rfl
  · rw [hsteps, List.getElem?_map, hblock]
    rfl

theorem HoldsCopy.counters {table : PacketTable} {a : Action} {p : Nat} (h : HoldsCopy plan table a p) :
    ∃ payload steps, plan.payloads[p]? = some payload ∧ plan.counterSteps[p]? = some steps ∧
      counterOps payload.ops = steps.length := by
  obtain ⟨payload, steps, hr, hp, hs⟩ := h
  obtain ⟨hops, hlist⟩ := sendOperations_counters (planSend_spec hr).1
  refine ⟨payload, steps, hp, hs, ?_⟩
  rw [counterOps_length hops, hlist, List.length_map]

theorem generatePlan_counters (h : generatePlanCommon env memory script = .ok plan) {p : Nat}
    {payload : PayloadDescriptor} (hp : plan.payloads[p]? = some payload) :
    ∃ steps, plan.counterSteps[p]? = some steps ∧ counterOps payload.ops = steps.length := by
  have hlt := (List.getElem?_eq_some_iff.mp hp).1
  rw [generatePlan_length h] at hlt
  obtain ⟨i, a, c, ha, hc, rfl⟩ := exists_copy hlt
  obtain ⟨table, _, hblocks⟩ := generatePlan_blocks h
  obtain ⟨payload', steps, hp', hs, hcount⟩ := (hblocks i a ha c hc).counters
  obtain rfl := Option.some.inj (hp'.symm.trans hp)
  exact ⟨steps, hs, hcount⟩

end

/-! ## The counters of a call -/

namespace Preparation

variable {payloads : List PayloadDescriptor} {steps : List (List UInt16)} {p : Preparation}

def CountersInRange (p : Preparation) : Prop :=
  ∀ (t : Nat) (call : Filling) (op : PacketOperation) (ops : List PacketOperation), p.calls[t]? = some call →
    call.ops = op :: ops → op.type = .COUNTER →
      ∃ counters, p.manager.counters[call.index]? = some counters ∧ call.state.currentCounterIdx < counters.length

theorem Sound.countersInRange (h : Sound payloads steps p) (hf : Fits payloads steps) : CountersInRange p := by
  intro t call op ops hcall hops ht
  obtain ⟨d, done, hfill⟩ := h.filled t call hcall
  have hlt := (List.getElem?_eq_some_iff.mp hfill.payload).1
  refine ⟨(List.range (steps.getD call.index []).length).map (counterAt steps p.history call.index), ?_, ?_⟩
  · rw [h.counters, countersAt, List.getElem?_map, List.getElem?_range hlt]
    rfl
  · -- the COUNTER at hand is one more than those that the call has run
    have hall : counterOps d.ops ≤ (steps.getD call.index []).length := hf.steps call.index d hfill.payload
    rw [hfill.ops, hops, counterOps, List.countP_append, List.countP_cons_of_pos (by simpa using ht)] at hall
    rw [hfill.counter, counterOps, List.length_map, List.length_range]
    omega

end Preparation

/-! ## The index of the dry run -/

section
variable {plan : ExecutionPlan} {script : DSLData} {i : Nat} {st : DryRunState} {d : ActionDescriptor} {a : Action}

theorem logged_quiet {text : String} (h : ∀ e ∈ st.log, e.level = .INFO) :
    ∀ e ∈ (st.logged .INFO text).log, e.level = .INFO := by
  intro e he
  rcases List.mem_append.mp he with he | he
  · exact h e he
  · rw [List.mem_singleton.mp he]

theorem dryRunAction_spec (ha : script.orchestrator.actions[i]? = some a) (hd : Describes d a)
    (hlt : a.type = .SEND → st.currentPayloadId < plan.payloads.length) (hq : ∀ e ∈ st.log, e.level = .INFO) :
    ∃ st', dryRunAction plan script i st d = some st' ∧ st'.currentPayloadId = st.currentPayloadId + a.copies ∧
      ∀ e ∈ st'.log, e.level = .INFO := by
  unfold dryRunAction Action.copies
  rw [ha, ← hd.type]
  cases ht : d.type with
  | SEND =>
    have hsend : a.type = .SEND := hd.type.symm.trans ht
    have hin := hlt hsend
    rw [Option.bind_eq_bind, Option.bind_some]
    simp only
    rw [if_neg (Nat.not_lt.mpr (Nat.le_of_lt hin)), List.getElem?_eq_getElem hin]
    refine ⟨_, rfl, ?_, logged_quiet hq⟩
    simp [DryRunState.logged, hd.count hsend]
  | _ => exact ⟨_, rfl, by simp [DryRunState.logged], logged_quiet hq⟩

theorem dryRunActions_snoc (d : ActionDescriptor) : ∀ (ds : List ActionDescriptor) (i : Nat) (st : DryRunState),
    dryRunActions plan script i st (ds ++ [d]) =
      (dryRunActions plan script i st ds).bind fun st => dryRunAction plan script (i + ds.length) st d
  | [], i, st => by
    simp only [List.nil_append, dryRunActions, Option.bind_eq_bind, Option.bind_some, List.length_nil, Nat.add_zero]
    exact Option.bind_fun_some _
  | d' :: ds, i, st => by
    simp only [List.cons_append, dryRunActions, Option.bind_eq_bind, Option.bind_assoc]
    congr 1
    funext st'
    rw [dryRunActions_snoc d ds (i + 1) st', List.length_cons, Nat.add_right_comm, Nat.add_assoc]

/-- Before every action the index is where the next block starts. -/
theorem dryRunActions_take (hd : List.Forall₂ Describes plan.actions script.orchestrator.actions)
    (hin : ∀ i a, script.orchestrator.actions[i]? = some a → a.type = .SEND →
      copiesBefore script.orchestrator.actions i < plan.payloads.length) (endpointList : String) :
    ∀ n ≤ plan.actions.length, ∃ st,
      dryRunActions plan script 0 (dryRunStart endpointList) (plan.actions.take n) = some st ∧
        st.currentPayloadId = copiesBefore script.orchestrator.actions n ∧ ∀ e ∈ st.log, e.level = .INFO := by
  intro n
  induction n with
  | zero =>
    intro _
    exact ⟨_, rfl, by simp [copiesBefore, dryRunStart], by simp [dryRunStart]⟩
  | succ n ih =>
    intro hn
    obtain ⟨st, hst, hid, hq⟩ := ih (Nat.le_of_lt hn)
    obtain ⟨a, ha, hda⟩ : ∃ a, script.orchestrator.actions[n]? = some a ∧ Describes plan.actions[n] a := by
      have hn' : n < script.orchestrator.actions.length := by rw [← hd.length_eq]; exact hn
      exact ⟨_, List.getElem?_eq_getElem hn', hd.get hn hn'⟩
    obtain ⟨st', hst', hid', hq'⟩ := dryRunAction_spec ha hda
      (fun hs => hid ▸ hin n a ha hs) hq
    refine ⟨st', ?_, ?_, hq'⟩
    · rw [List.take_succ_eq_append_getElem hn, dryRunActions_snoc, hst, Option.bind_some, Nat.zero_add,
        List.length_take_of_le (Nat.le_of_lt hn)]
      exact hst'
    · rw [hid', hid, copiesBefore_succ ha]

end

/-! ## Accepted scripts -/

/-- What the plan holds, and that neither walk leaves it. -/
structure Aligned (env : Env) (script : DSLData) (plan : ExecutionPlan) : Prop where
  payloads : plan.payloads.length = (script.orchestrator.actions.map Action.copies).sum
  counterSteps : plan.counterSteps.length = (script.orchestrator.actions.map Action.copies).sum
  blocks : ∃ table, loadPackets env script.settings.packetIdentifiers {} = .ok table ∧
    ∀ i a, script.orchestrator.actions[i]? = some a → a.type = .SEND → ∀ c < a.count.toNat,
      HoldsCopy plan table a (copiesBefore script.orchestrator.actions i + c)
  counters : ∀ (p : Nat) (payload : PayloadDescriptor) (steps : List UInt16), plan.payloads[p]? = some payload →
    plan.counterSteps[p]? = some steps → counterOps payload.ops = steps.length
  filled : ∀ es p, Runs.Run Preparation.step (fun _ _ => True) (start plan.payloads plan.counterSteps) es p →
    CountersInRange p
  indexed : ∀ endpointList i d, plan.actions[i]? = some d → d.type = .SEND → ∃ st,
    dryRunActions plan script 0 (dryRunStart endpointList) (plan.actions.take i) = some st ∧
      st.currentPayloadId < plan.payloads.length
  logged : ∀ endpointList, ∃ log, dryRun endpointList plan script = some log ∧ ∀ e ∈ log, e.level = .INFO

theorem plan_aligned {env : Env} {script : DSLData} {plan : ExecutionPlan} (h : Accepted env script plan) :
    Aligned env script plan := by
  obtain ⟨memory, hp⟩ := h.planned
  obtain ⟨table, hload, hblocks⟩ := generatePlan_blocks hp
  obtain ⟨_, _, _, hd, _⟩ := generatePlan_spec hp
  have hin : ∀ i a, script.orchestrator.actions[i]? = some a → a.type = .SEND →
      copiesBefore script.orchestrator.actions i < plan.payloads.length := by
    intro i a ha hs
    have hcount : 0 < a.count.toNat := Nat.pos_of_ne_zero fun h0 =>
      (h.send (List.mem_of_getElem? ha) hs).1 (UInt32.toNat_inj.mp h0)
    obtain ⟨payload, _, _, hget, _⟩ := hblocks i a ha 0 (by rwa [Action.copies, if_pos hs])
    exact (List.getElem?_eq_some_iff.mp hget).1
  have htake := dryRunActions_take hd hin
  exact {
    payloads := (generatePlan_lengths hp).1
    counterSteps := (generatePlan_lengths hp).2
    blocks := ⟨table, hload, fun i a ha hs c hc => hblocks i a ha c (by rwa [Action.copies, if_pos hs])⟩
    counters := by
      intro p payload steps hpayload hsteps
      obtain ⟨steps', hsteps', hcount⟩ := generatePlan_counters hp hpayload
      rwa [Option.some.inj (hsteps.symm.trans hsteps')]
    filled := fun es p r => (sound_of_run h.fits r).countersInRange h.fits
    indexed := by
      intro endpointList i d hi hs
      obtain ⟨hlt, rfl⟩ := List.getElem?_eq_some_iff.mp hi
      obtain ⟨st, hst, hid, _⟩ := htake endpointList i (Nat.le_of_lt hlt)
      have hlt' : i < script.orchestrator.actions.length := by rwa [← hd.length_eq]
      have hda := hd.get hlt hlt'
      exact ⟨st, hst, hid ▸ hin i _ (List.getElem?_eq_getElem hlt') (hda.type.symm.trans hs)⟩
    logged := by
      intro endpointList
      obtain ⟨st, hst, _, hq⟩ := htake endpointList _ (Nat.le_refl _)
      rw [List.take_length] at hst
      exact ⟨st.log, by rw [dryRun, hst]; rfl, hq⟩ }

/-- Two copies of a SEND with a counter. -/
theorem count_aligned : ∃ plan, generatePlanCommon plainEnv .zero countScript = .ok plan ∧
    plan.payloads = [countPayload, countPayload] ∧ Aligned plainEnv countScript plan := by
  obtain ⟨plan, p, hp, hpayloads, _⟩ := count_runs
  exact ⟨plan, hp, hpayloads, plan_aligned ⟨⟨_, _, count_accepted⟩, _, hp⟩⟩

end Loadshear
