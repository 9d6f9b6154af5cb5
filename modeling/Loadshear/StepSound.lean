import Loadshear.IncrementSound

/-!
# The steps of the counters

Each payload of the plan is a copy of one SEND (`exists_copy`), and its list of
steps names the increments of that SEND's COUNTERs, sixteen bits of each
(`generatePlan_copy`). Whether they are the increments of the script is thus a
matter of their size (`steps_kept_iff`).
-/

namespace Loadshear

open Preparation

/-! ## The copy at a place -/

theorem copiesBefore_succ {actions : List Action} {i : Nat} {a : Action} (h : actions[i]? = some a) :
    copiesBefore actions (i + 1) = copiesBefore actions i + a.copies := by
  simp [copiesBefore, List.take_add_one, h]

theorem copiesBefore_mono {actions : List Action} {i j : Nat} (h : i ≤ j) :
    copiesBefore actions i ≤ copiesBefore actions j := by
  have htake : actions.take j = actions.take i ++ (actions.drop i).take (j - i) := by
    rw [← List.take_add]
    congr 1
    omega
  simp only [copiesBefore, htake, List.map_append, List.sum_append]
  omega

/-- The blocks of the actions lie one behind the other. -/
theorem copy_unique {actions : List Action} {i j : Nat} {a b : Action} {k l : Nat} (ha : actions[i]? = some a)
    (hb : actions[j]? = some b) (hk : k < a.copies) (hl : l < b.copies)
    (h : copiesBefore actions i + k = copiesBefore actions j + l) : i = j := by
  have hi := copiesBefore_succ ha
  have hj := copiesBefore_succ hb
  by_contra hne
  rcases Nat.lt_or_gt_of_ne hne with hlt | hlt
  · have := @copiesBefore_mono actions (i + 1) j hlt
    omega
  · have := @copiesBefore_mono actions (j + 1) i hlt
    omega

theorem exists_copy : ∀ {actions : List Action} {p : Nat}, p < (actions.map Action.copies).sum →
    ∃ i a copy, actions[i]? = some a ∧ copy < a.copies ∧ p = copiesBefore actions i + copy
  | [], p, h => by simp at h
  | a :: actions, p, h => by
    by_cases hp : p < a.copies
    · exact ⟨0, a, p, rfl, hp, by simp [copiesBefore]⟩
    · obtain ⟨i, b, copy, hb, hcopy, hsum⟩ := @exists_copy actions (p - a.copies) (by simp at h; omega)
      refine ⟨i + 1, b, copy, by simpa using hb, hcopy, ?_⟩
      simp only [copiesBefore, List.take_succ_cons, List.map_cons, List.sum_cons] at hsum ⊢
      omega

section
variable {env : Env} {memory : Memory} {script : DSLData} {plan : ExecutionPlan}

theorem generatePlan_length (h : generatePlanCommon env memory script = .ok plan) :
    plan.payloads.length = (script.orchestrator.actions.map Action.copies).sum := by
  obtain ⟨table, _, hp, _, hsends, _⟩ := generatePlan_spec h
  rw [hp, flatMap_length fun a ha => payloadBlock_length (hsends a ha)]

theorem Accepted.send (h : Accepted env script plan) {a : Action} (ha : a ∈ script.orchestrator.actions)
    (hs : a.type = .SEND) : a.count ≠ 0 ∧ ∀ m ∈ a.mods.counterMods, m.counterStep ≠ 0 := by
  obtain ⟨_, st, hst⟩ := verifyScript_actions h.verified
  obtain ⟨i, st₁, st₂, hv⟩ := verifyActions_each hst a ha
  simp only [verifyAction, hs] at hv
  obtain ⟨_, hsend⟩ := verifySend_spec hv
  exact ⟨hsend.count, fun m hm => (hsend.counters m hm).1⟩

/-- Each COUNTER operation of a payload has for its step the increment that the
script writes, and never 0. -/
def StepsKept (plan : ExecutionPlan) (script : DSLData) : Prop :=
  ∀ p payload, plan.payloads[p]? = some payload → ∃ i a copy,
    script.orchestrator.actions[i]? = some a ∧ a.type = .SEND ∧ copy < a.count.toNat ∧
      p = copiesBefore script.orchestrator.actions i + copy ∧
      ∀ c < counterOps payload.ops, ∃ m steps step, a.mods.counterMods[c]? = some m ∧
        plan.counterSteps[p]? = some steps ∧ steps[c]? = some step ∧
        step.toNat = m.counterStep.toNat ∧ step ≠ 0

theorem toUInt16_eq_iff {step : UInt32} : step.toUInt16.toNat = step.toNat ↔ step.toNat < 2 ^ 16 := by
  rw [UInt32.toNat_toUInt16]
  omega

theorem stepsKept_of_small (h : Accepted env script plan)
    (hsmall : ∀ a ∈ script.orchestrator.actions, a.type = .SEND →
      ∀ m ∈ a.mods.counterMods, m.counterStep.toNat < 2 ^ 16) : StepsKept plan script := by
  obtain ⟨memory, hp⟩ := h.planned
  intro p payload hpayload
  have hlt := (List.getElem?_eq_some_iff.mp hpayload).1
  rw [generatePlan_length hp] at hlt
  obtain ⟨i, a, copy, ha, hcopy, rfl⟩ := exists_copy hlt
  obtain ⟨hs, hcount⟩ := Action.copies_send hcopy
  obtain ⟨payload', hget, hsteps, hops⟩ := generatePlan_copy hp ha hcopy
  obtain rfl := Option.some.inj (hget.symm.trans hpayload)
  have ham := List.mem_of_getElem? ha
  refine ⟨i, a, copy, ha, hs, hcount, rfl, fun c hc => ?_⟩
  rw [counterOps_length hops] at hc
  have hm := List.getElem?_eq_getElem hc
  have hmem := List.getElem_mem hc
  have hstep := toUInt16_eq_iff.mpr (hsmall a ham hs _ hmem)
  refine ⟨_, _, _, hm, hsteps, by rw [List.getElem?_map, hm]; rfl, hstep, fun hzero => ?_⟩
  rw [hzero] at hstep
  exact (h.send ham hs).2 _ hmem (UInt32.toNat_inj.mp hstep.symm)

theorem small_of_stepsKept (h : Accepted env script plan) (hk : StepsKept plan script) :
    ∀ a ∈ script.orchestrator.actions, a.type = .SEND → ∀ m ∈ a.mods.counterMods, m.counterStep.toNat < 2 ^ 16 := by
  obtain ⟨memory, hp⟩ := h.planned
  intro a ham hs m hm
  obtain ⟨i, ha⟩ := List.getElem?_of_mem ham
  obtain ⟨c, hc⟩ := List.getElem?_of_mem hm
  have hcount : 0 < a.count.toNat := Nat.pos_of_ne_zero fun h0 => (h.send ham hs).1 (UInt32.toNat_inj.mp h0)
  have hcopy : 0 < a.copies := by rwa [Action.copies, if_pos hs]
  obtain ⟨payload, hget, hsteps, hops⟩ := generatePlan_copy hp ha hcopy
  obtain ⟨j, b, copy, hb, hbs, hbc, hpos, hall⟩ := hk _ payload hget
  have hbcopy : copy < b.copies := by rwa [Action.copies, if_pos hbs]
  obtain rfl := copy_unique ha hb hcopy hbcopy hpos
  obtain rfl := Option.some.inj (ha.symm.trans hb)
  have hlt := (List.getElem?_eq_some_iff.mp hc).1
  obtain ⟨m', steps, step, hm', hsteps', hstep, heq, -⟩ := hall c (by rwa [counterOps_length hops])
  obtain rfl := Option.some.inj (hc.symm.trans hm')
  obtain rfl := Option.some.inj (hsteps.symm.trans hsteps')
  rw [List.getElem?_map, hc] at hstep
  obtain rfl := Option.some.inj hstep
  exact toUInt16_eq_iff.mp heq

theorem steps_kept_iff (h : Accepted env script plan) : StepsKept plan script ↔
    ∀ a ∈ script.orchestrator.actions, a.type = .SEND → ∀ m ∈ a.mods.counterMods, m.counterStep.toNat < 2 ^ 16 :=
  ⟨small_of_stepsKept h, stepsKept_of_small h⟩

end

/-! ## A step of 2^16 -/

def bigStepMods : ModList := ModList.empty.pushCounter ⟨⟨0, 8⟩, 65536, true⟩

theorem steps_kept_iff_count : ∃ plan, Accepted plainEnv countScript plan ∧ (StepsKept plan countScript ↔
    ∀ a ∈ countScript.orchestrator.actions, a.type = .SEND → ∀ m ∈ a.mods.counterMods, m.counterStep.toNat < 2 ^ 16) := by
  obtain ⟨plan, _, hp, _⟩ := count_runs
  have h : Accepted plainEnv countScript plan := ⟨⟨_, _, count_accepted⟩, _, hp⟩
  exact ⟨plan, h, steps_kept_iff h⟩

/-- The validator lets the step through; in the plan it is 0. -/
theorem step_vanishes :
    interpretText plainEnv .zero (plainText
      "CREATE 1 CONNECT 0:1 SEND 0:1 p COPIES 1 COUNTER 0:8 \"little\":65536") = .ok (sendMods bigStepMods) ∧
    ∃ plan, generatePlanCommon plainEnv .zero (sendMods bigStepMods) = .ok plan ∧
      plan.counterSteps[0]? = some [0] ∧ ¬ StepsKept plan (sendMods bigStepMods) := by
  have htext : interpretText plainEnv .zero (plainText
      "CREATE 1 CONNECT 0:1 SEND 0:1 p COPIES 1 COUNTER 0:8 \"little\":65536") = .ok (sendMods bigStepMods) := by
    rw [plainText_words]
    decide +kernel
  have hpayloads : planPayloads (sendMods bigStepMods) =
      some [⟨List.replicate 24 0, [makeCounter 8 true, makeIdentity 16]⟩] := by
    decide +kernel
  obtain ⟨plan, hplan, -⟩ := planPayloads_some hpayloads
  have hsend : (sendMods bigStepMods).orchestrator.actions[2]? = some (sendAction 0 1 1 bigStepMods) := rfl
  obtain ⟨_, -, hsteps, -⟩ := @generatePlan_copy _ _ _ _ hplan 2 _ hsend 0 (by decide)
  have h : Accepted plainEnv (sendMods bigStepMods) plan := ⟨⟨_, _, htext⟩, _, hplan⟩
  refine ⟨htext, plan, hplan, hsteps, fun hk => ?_⟩
  have hlt := small_of_stepsKept h hk _ (List.mem_of_getElem? hsend) rfl ⟨⟨0, 8⟩, 65536, true⟩ (by decide)
  exact absurd hlt (by decide)

end Loadshear
