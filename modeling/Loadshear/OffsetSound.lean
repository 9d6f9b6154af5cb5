import Mathlib.Data.List.Forall2
import Loadshear.PlanSound

/-!
# The offsets of the plan

The offset of an action in the plan is the sum of the OFFSETs so far modulo 2^32
(`generatePlan_offsets`): the sum is kept in 64 bits, and every `make_*` takes 32
of them. So the offsets are exact as long as the whole sum has 32 bits
(`generatePlan_exact_iff`).
-/

namespace Loadshear

/-- The sum of the OFFSETs of actions `0` to `i`, in milliseconds. -/
def offsetAt (actions : List Action) (i : Nat) : Nat := ((actions.take (i + 1)).map (·.offsetMs.toNat)).sum

def totalOffset (actions : List Action) : Nat := (actions.map (·.offsetMs.toNat)).sum

section
variable {actions : List Action} {i j : Nat}

theorem offsetAt_zero (a : Action) : offsetAt (a :: actions) 0 = a.offsetMs.toNat := by simp [offsetAt]

theorem offsetAt_succ (a : Action) (i : Nat) :
    offsetAt (a :: actions) (i + 1) = a.offsetMs.toNat + offsetAt actions i := by
  simp [offsetAt]

theorem offsetAt_mono (h : i ≤ j) : offsetAt actions i ≤ offsetAt actions j := by
  have htake : actions.take (j + 1) = actions.take (i + 1) ++ (actions.drop (i + 1)).take (j - i) := by
    rw [← List.take_add]
    congr 1
    omega
  simp only [offsetAt, htake, List.map_append, List.sum_append]
  omega

theorem offsetAt_le_total : offsetAt actions i ≤ totalOffset actions := by
  have hsplit := List.take_append_drop (i + 1) actions
  have htotal : totalOffset actions = totalOffset (actions.take (i + 1) ++ actions.drop (i + 1)) := by rw [hsplit]
  simp only [totalOffset, List.map_append, List.sum_append] at htotal
  simp only [offsetAt, totalOffset]
  omega

theorem offsetAt_last (h : actions.length ≤ i + 1) : offsetAt actions i = totalOffset actions := by
  rw [offsetAt, List.take_of_length_le h, totalOffset]

end

/-! ## The running sum -/

section
variable {table : PacketTable} {desc : ActionDescriptor} {st st' : PlanState} {a : Action}

theorem planAction_offset (h : planAction table desc st a = .ok st') :
    st'.currOffset = st.currOffset + a.offsetMs.toUInt64 ∧
      ∃ d, st'.actions = st.actions ++ [d] ∧ d.offset = st'.currOffset.toUInt32.toNat := by
  unfold planAction at h
  cases ht : a.type with
  | SEND =>
    simp only [ht] at h
    obtain ⟨r, -, h⟩ := bind_eq_ok h
    simp only [pure, Except.pure, Except.ok.injEq] at h
    subst h
    exact ⟨rfl, _, rfl, rfl⟩
  | _ =>
    simp only [ht, Except.ok.injEq] at h
    subst h
    exact ⟨rfl, _, rfl, rfl⟩

theorem planActions_offsets (memory : Memory) : ∀ {actions : List Action} {n : Nat} {st st' : PlanState},
    planActions memory table n st actions = .ok st' → ∃ ds, st'.actions = st.actions ++ ds ∧
      ∀ i d, ds[i]? = some d → d.offset = (st.currOffset.toNat + offsetAt actions i) % 2 ^ 32
  | [], n, st, st', h => by
    simp only [planActions, Except.ok.injEq] at h
    subst h
    exact ⟨[], by simp, by simp⟩
  | a :: actions, n, st, st', h => by
    rw [planActions] at h
    obtain ⟨st₁, h₁, h⟩ := bind_eq_ok h
    obtain ⟨hcurr, d, hd, hoffset⟩ := planAction_offset h₁
    obtain ⟨ds, hds, ih⟩ := planActions_offsets memory h
    have hnat : st₁.currOffset.toNat = (st.currOffset.toNat + a.offsetMs.toNat) % 2 ^ 64 := by
      rw [hcurr, UInt64.toNat_add, UInt32.toNat_toUInt64]
    refine ⟨d :: ds, by rw [hds, hd, List.append_assoc]; rfl, fun i e he => ?_⟩
    cases i with
    | zero =>
      obtain rfl : d = e := by simpa using he
      rw [hoffset, offsetAt_zero, UInt64.toNat_toUInt32, hnat]
      omega
    | succ i =>
      have hi := ih i e (by simpa using he)
      rw [hi, offsetAt_succ, hnat]
      omega

end

section
variable {env : Env} {memory : Memory} {script : DSLData} {plan : ExecutionPlan}

theorem generatePlan_offsets (h : generatePlanCommon env memory script = .ok plan) :
    ∀ i d, plan.actions[i]? = some d → d.offset = offsetAt script.orchestrator.actions i % 2 ^ 32 := by
  unfold generatePlanCommon at h
  obtain ⟨table, ht, h⟩ := bind_eq_ok h
  obtain ⟨st, hst, h⟩ := bind_eq_ok h
  simp only [pure, Except.pure, Except.ok.injEq] at h
  subst h
  obtain ⟨ds, hds, hoffsets⟩ := planActions_offsets memory hst
  simp only [List.nil_append] at hds
  intro i d hd
  simpa using hoffsets i d (hds ▸ hd)

/-- Every offset is the sum so far, no action comes before the one in front of
it, and none after the last. -/
structure ExactOffsets (plan : ExecutionPlan) (script : DSLData) : Prop where
  exact : ∀ (i : Nat) (d : ActionDescriptor), plan.actions[i]? = some d →
    d.offset = offsetAt script.orchestrator.actions i
  sorted : ∀ (i j : Nat) (d e : ActionDescriptor), i ≤ j → plan.actions[i]? = some d → plan.actions[j]? = some e →
    d.offset ≤ e.offset
  last : ∀ d ∈ plan.actions, ∀ e, plan.actions.getLast? = some e → d.offset ≤ e.offset

theorem exactOffsets_of_exact
    (h : ∀ (i : Nat) (d : ActionDescriptor), plan.actions[i]? = some d →
      d.offset = offsetAt script.orchestrator.actions i) :
    ExactOffsets plan script := by
  have hsorted : ∀ (i j : Nat) (d e : ActionDescriptor), i ≤ j → plan.actions[i]? = some d →
      plan.actions[j]? = some e → d.offset ≤ e.offset := by
    intro i j d e hij hd he
    rw [h i d hd, h j e he]
    exact offsetAt_mono hij
  refine ⟨h, hsorted, fun d hd e he => ?_⟩
  obtain ⟨i, hi⟩ := List.getElem?_of_mem hd
  rw [List.getLast?_eq_getElem?] at he
  have hlt := (List.getElem?_eq_some_iff.mp hi).1
  exact hsorted i _ d e (by omega) hi he

theorem total_lt_of_exact (h : generatePlanCommon env memory script = .ok plan) (he : ExactOffsets plan script) :
    totalOffset script.orchestrator.actions < 2 ^ 32 := by
  have hoffsets := generatePlan_offsets h
  obtain ⟨_, _, _, hd, _⟩ := generatePlan_spec h
  cases hn : plan.actions.getLast? with
  | none =>
    have hnil := List.getLast?_eq_none_iff.mp hn
    rw [hnil, List.forall₂_nil_left_iff] at hd
    simp [totalOffset, hd]
  | some d =>
    rw [List.getLast?_eq_getElem?] at hn
    have hlast : offsetAt script.orchestrator.actions (plan.actions.length - 1) =
        totalOffset script.orchestrator.actions := offsetAt_last (by rw [hd.length_eq]; omega)
    rw [← hlast, ← he.exact _ d hn, hoffsets _ d hn]
    exact Nat.mod_lt _ (by decide)

theorem generatePlan_exact_iff (h : generatePlanCommon env memory script = .ok plan) :
    ExactOffsets plan script ↔ totalOffset script.orchestrator.actions < 2 ^ 32 := by
  refine ⟨total_lt_of_exact h, fun hlt => exactOffsets_of_exact fun i d hi => ?_⟩
  rw [generatePlan_offsets h i d hi]
  exact Nat.mod_eq_of_lt (Nat.lt_of_le_of_lt offsetAt_le_total hlt)

end

/-! ## Long waits -/

def pausedAction (type : ActionType) (offsetMs : UInt32) : Action := ⟨type, 0, ⟨0, 1⟩, offsetMs, "", .empty⟩

def wrapScript : DSLData :=
  plainScript [{ createAction 1 with offsetMs := 2147483647 }, pausedAction .CONNECT 2147483647, pausedAction .DRAIN 2]

theorem generatePlan_exact_iff_plain : ∃ plan,
    generatePlanCommon plainEnv .zero (plainScript [createAction 1]) = .ok plan ∧
    (ExactOffsets plan (plainScript [createAction 1]) ↔
      totalOffset (plainScript [createAction 1]).orchestrator.actions < 2 ^ 32) := by
  have hpayloads : planPayloads (plainScript [createAction 1]) = some [] := by decide +kernel
  obtain ⟨plan, hplan, -⟩ := planPayloads_some hpayloads
  exact ⟨plan, hplan, generatePlan_exact_iff hplan⟩

theorem offsets_wrap :
    interpretText plainEnv .zero (plainText
      "CREATE 1 OFFSET 2147483647ms CONNECT 0:1 OFFSET 2147483647ms DRAIN 0:1 OFFSET 2ms") = .ok wrapScript ∧
    ∃ plan, generatePlanCommon plainEnv .zero wrapScript = .ok plan ∧ ¬ ExactOffsets plan wrapScript := by
  constructor
  · rw [plainText_words]
    decide +kernel
  · have hpayloads : planPayloads wrapScript = some [] := by decide +kernel
    obtain ⟨plan, hplan, -⟩ := planPayloads_some hpayloads
    exact ⟨plan, hplan, fun he => absurd (total_lt_of_exact hplan he) (by decide)⟩

end Loadshear
