import Loadshear.FillingSound
import Loadshear.RangeSound

/-!
# Counters of a SEND

What the counters of a plan come to in the bytes that are sent. Each copy of a
SEND has counters of its own, which all sessions advance.
-/

namespace Loadshear

/-! ## Counters of a payload -/

def Modification.counter? : Modification → Option CounterModification
  | .counter m => some m
  | .timestamp _ => none

def CounterModification.op (m : CounterModification) : PacketOperation := makeCounter m.counterBytes.second m.littleEndian

def counterOpsOf (ops : List PacketOperation) : List PacketOperation := ops.filter (·.type = .COUNTER)

theorem writtenFrom_counters : ∀ (order : List ModificationType) (ts : List TimestampModification)
    (cs : List CounterModification), order.count .Timestamp = ts.length → order.count .Counter = cs.length →
    (writtenFrom order ts cs).filterMap Modification.counter? = cs
  | [], _, cs, _, hc => by
    obtain rfl : cs = [] := List.eq_nil_of_length_eq_zero hc.symm
    simp [writtenFrom]
  | .Timestamp :: order, [], _, ht, _ => by simp at ht
  | .Timestamp :: order, t :: ts, cs, ht, hc => by
    rw [writtenFrom, List.filterMap_cons]
    exact writtenFrom_counters order ts cs (by simpa using ht) (by simpa using hc)
  | .Counter :: order, _, [], _, hc => by simp at hc
  | .Counter :: order, ts, c :: cs, ht, hc => by
    rw [writtenFrom_counter, List.filterMap_cons]
    exact congrArg (c :: ·) (writtenFrom_counters order ts cs (by simpa using ht) (by simpa using hc))

theorem written_counters (mods : ModList) : mods.written.filterMap Modification.counter? = mods.counterMods :=
  writtenFrom_counters _ _ _ mods.timestamps_counted mods.counters_counted

theorem pushPrevious_counters (st : SendState) (start : UInt32) :
    counterOpsOf (st.pushPrevious start).ops = counterOpsOf st.ops ∧
      (st.pushPrevious start).counterList = st.counterList := by
  unfold SendState.pushPrevious
  simp only
  split
  · simp [counterOpsOf, makeIdentity]
  · exact ⟨rfl, rfl⟩

theorem addMod_counters {st st' : SendState} {m : Modification} (h : addMod st m = .ok st') :
    counterOpsOf st'.ops = counterOpsOf st.ops ++ m.counter?.toList.map CounterModification.op ∧
      st'.counterList = st.counterList ++ m.counter?.toList.map (·.counterStep.toUInt16) := by
  obtain ⟨hops, hlist⟩ := pushPrevious_counters st m.bytes.start
  unfold counterOpsOf at hops ⊢
  cases m with
  | counter m =>
    simp only [addMod, addCounterOp, Except.ok.injEq] at h
    subst h
    simp only [List.filter_append]
    refine ⟨congrArg₂ _ hops ?_, congrArg₂ _ hlist rfl⟩
    simp [makeCounter, Modification.counter?, CounterModification.op]
  | timestamp m =>
    simp only [addMod, addTimestampOp] at h
    split at h
    · cases h
    · simp only [Except.ok.injEq] at h
      subst h
      simp only [List.filter_append]
      refine ⟨congrArg₂ _ hops ?_, ?_⟩
      · simp [makeTimestamp, Modification.counter?]
      · simpa [Modification.counter?, Modification.bytes] using hlist

theorem addMods_counters : ∀ {written : List Modification} {st st' : SendState}, written.foldlM addMod st = .ok st' →
    counterOpsOf st'.ops = counterOpsOf st.ops ++ (written.filterMap Modification.counter?).map CounterModification.op ∧
      st'.counterList =
        st.counterList ++ (written.filterMap Modification.counter?).map (·.counterStep.toUInt16)
  | [], st, st', h => by
    simp only [List.foldlM_nil, pure, Except.pure, Except.ok.injEq] at h
    subst h
    simp
  | m :: written, st, st', h => by
    rw [List.foldlM_cons] at h
    obtain ⟨st₁, h₁, h⟩ := bind_eq_ok h
    obtain ⟨ho₁, hl₁⟩ := addMod_counters h₁
    obtain ⟨ho, hl⟩ := addMods_counters h
    rw [ho, hl, ho₁, hl₁, List.filterMap_cons]
    cases m.counter? <;> simp

theorem sendOperations_counters {mods : ModList} {buf : List UInt8} {ops : List PacketOperation}
    {counterList : List UInt16} (h : sendOperations mods buf = .ok (ops, counterList)) :
    counterOpsOf ops = mods.counterMods.map CounterModification.op ∧
      counterList = mods.counterMods.map (·.counterStep.toUInt16) := by
  unfold sendOperations at h
  simp only at h
  split at h
  · rename_i hnil
    have hcounters : mods.counterMods = [] := by
      have := mods.counters_counted
      rw [hnil] at this
      exact List.eq_nil_of_length_eq_zero this.symm
    simp only [Except.ok.injEq, Prod.mk.injEq] at h
    obtain ⟨rfl, rfl⟩ := h
    simp [hcounters, counterOpsOf, makeIdentity]
  · rw [addModifications_written] at h
    obtain ⟨st, hst, h⟩ := bind_eq_ok h
    simp only [pure, Except.pure, Except.ok.injEq, Prod.mk.injEq] at h
    obtain ⟨rfl, rfl⟩ := h
    obtain ⟨ho, hl⟩ := addMods_counters hst
    rw [written_counters] at ho hl
    refine ⟨?_, hl⟩
    unfold SendState.pushRemaining
    split
    · unfold counterOpsOf at ho ⊢
      rw [List.filter_append, ho]
      simp [makeIdentity]
    · exact ho

/-! ## Lengths -/

theorem addMods_short : ∀ {written : List Modification} {st st' : SendState}, written.foldlM addMod st = .ok st' →
    (∀ m ∈ written, m.bytes.second.toNat ≤ 8) →
    (∀ op ∈ st.ops, op.type ≠ .IDENTITY → op.length.toNat ≤ 8) →
    ∀ op ∈ st'.ops, op.type ≠ .IDENTITY → op.length.toNat ≤ 8
  | [], st, st', h, _, hs => by
    simp only [List.foldlM_nil, pure, Except.pure, Except.ok.injEq] at h
    exact h ▸ hs
  | m :: written, st, st', h, hm, hs => by
    rw [List.foldlM_cons] at h
    obtain ⟨st₁, h₁, h⟩ := bind_eq_ok h
    obtain ⟨hm₁, hm⟩ := List.forall_mem_cons.mp hm
    apply addMods_short h hm
    intro op hop ht
    obtain ⟨op', _, hlen, hops, _⟩ := addMod_ops h₁
    rw [hops] at hop
    rcases List.mem_append.mp hop with hop | hop
    · unfold SendState.pushPrevious at hop
      simp only at hop
      split at hop
      · rcases List.mem_append.mp hop with hop | hop
        · exact hs op hop ht
        · obtain rfl := List.mem_singleton.mp hop
          exact absurd rfl ht
      · exact hs op hop ht
    · obtain rfl := List.mem_singleton.mp hop
      rw [hlen]
      exact hm₁

theorem SendValid.short {settings : SettingsBlock} {a : Action} {size : UInt64} (h : SendValid settings a size) :
    ∀ m ∈ a.mods.written, m.bytes.second.toNat ≤ 8 := by
  intro m hm
  obtain ⟨t, ht, rfl⟩ | ⟨c, hc, rfl⟩ := mem_writtenFrom hm
  · exact (h.timestamps t ht).2.1
  · exact (h.counters c hc).2.1

theorem sendOperations_short {mods : ModList} {buf : List UInt8} {ops : List PacketOperation}
    {counterList : List UInt16} (h : sendOperations mods buf = .ok (ops, counterList))
    (hm : ∀ m ∈ mods.written, m.bytes.second.toNat ≤ 8) : ∀ op ∈ ops, op.type ≠ .IDENTITY → op.length.toNat ≤ 8 := by
  unfold sendOperations at h
  simp only at h
  split at h
  · simp only [Except.ok.injEq, Prod.mk.injEq] at h
    obtain ⟨rfl, rfl⟩ := h
    simp [makeIdentity]
  · rw [addModifications_written] at h
    obtain ⟨st, hst, h⟩ := bind_eq_ok h
    simp only [pure, Except.pure, Except.ok.injEq, Prod.mk.injEq] at h
    obtain ⟨rfl, rfl⟩ := h
    have hs := addMods_short hst hm (by simp)
    unfold SendState.pushRemaining
    split
    · refine List.forall_mem_append.mpr ⟨hs, ?_⟩
      simp [makeIdentity]
    · exact hs

/-! ## The manager of a plan -/

open Preparation

variable {env : Env} {script : DSLData} {plan : ExecutionPlan}

theorem counterOps_length {ops : List PacketOperation} {ms : List CounterModification}
    (h : counterOpsOf ops = ms.map CounterModification.op) : counterOps ops = ms.length := by
  have hlength := congrArg List.length h
  rwa [List.length_map, counterOpsOf, ← List.countP_eq_length_filter] at hlength

theorem Action.copies_send {a : Action} {copy : Nat} (h : copy < a.copies) : a.type = .SEND ∧ copy < a.count.toNat := by
  unfold Action.copies at h
  by_cases hs : a.type = .SEND
  · exact ⟨hs, by rwa [if_pos hs] at h⟩
  · simp [hs] at h

theorem exists_send {table : PacketTable} {actions : List Action} {copy : PayloadDescriptor × List UInt16}
    (h : copy ∈ actions.flatMap (copyBlock table)) :
    ∃ a ∈ actions, a.type = .SEND ∧ planSend table a = .ok copy := by
  obtain ⟨a, ha, hc⟩ := List.mem_flatMap.mp h
  unfold copyBlock at hc
  split at hc
  · rename_i ht
    split at hc
    · rename_i r hr
      obtain rfl := (List.mem_replicate.mp hc).2
      exact ⟨a, ha, ht, hr⟩
    · simp at hc
  · simp at hc

theorem Accepted.fits (h : Accepted env script plan) : Fits plan.payloads plan.counterSteps := by
  obtain ⟨_, st, hst⟩ := verifyScript_actions h.verified
  obtain ⟨memory, hp⟩ := h.planned
  obtain ⟨table, _, hpayloads, hsteps⟩ := generatePlan_copies hp
  constructor
  · intro d hd
    rw [hpayloads] at hd
    obtain ⟨⟨_, counterList⟩, hm, rfl⟩ := List.mem_map.mp hd
    obtain ⟨a, ha, ht, hr⟩ := exists_send hm
    obtain ⟨i, st₁, st₂, hv⟩ := verifyActions_each hst a ha
    simp only [verifyAction, ht] at hv
    obtain ⟨_, hsend⟩ := verifySend_spec hv
    exact sendOperations_short (planSend_spec hr).1 hsend.short
  · intro index d hd
    rw [hpayloads, List.getElem?_map] at hd
    obtain ⟨⟨d', counterList⟩, hget, rfl⟩ := Option.map_eq_some_iff.mp hd
    obtain ⟨a, ha, ht, hr⟩ := exists_send (List.mem_of_getElem? hget)
    obtain ⟨ho, hl⟩ := sendOperations_counters (planSend_spec hr).1
    have hlist : plan.counterSteps.getD index [] = counterList := by
      rw [hsteps, List.getD_eq_getElem?_getD, List.getElem?_map, hget]
      rfl
    rw [hlist, hl, List.length_map]
    exact Nat.le_of_eq (counterOps_length ho)

theorem generatePlan_copy {memory : Memory} (h : generatePlanCommon env memory script = .ok plan) {i : Nat} {a : Action}
    (ha : script.orchestrator.actions[i]? = some a) {copy : Nat} (hc : copy < a.copies) :
    ∃ payload, plan.payloads[copiesBefore script.orchestrator.actions i + copy]? = some payload ∧
      plan.counterSteps[copiesBefore script.orchestrator.actions i + copy]? =
        some (a.mods.counterMods.map (·.counterStep.toUInt16)) ∧
      counterOpsOf payload.ops = a.mods.counterMods.map CounterModification.op := by
  obtain ⟨table, hload, hpayloads, hsteps⟩ := generatePlan_copies h
  obtain ⟨table', hload', _, _, hsends, _⟩ := generatePlan_spec h
  obtain rfl := Except.ok.inj (hload.symm.trans hload')
  obtain ⟨hs, hcount⟩ := Action.copies_send hc
  obtain ⟨⟨payload, counterList⟩, hr⟩ := hsends a (List.mem_of_getElem? ha) hs
  have hlength : ∀ b ∈ script.orchestrator.actions, (copyBlock table b).length = b.copies :=
    fun b hb => copyBlock_length (hsends b hb)
  have hblock : (script.orchestrator.actions.flatMap (copyBlock table))[copiesBefore script.orchestrator.actions i +
      copy]? = some (payload, counterList) := by
    rw [flatMap_getElem? hlength ha hc, copyBlock, if_pos hs, hr]
    simp [hcount]
  obtain ⟨hops, hlist⟩ := sendOperations_counters (planSend_spec hr).1
  refine ⟨payload, ?_, ?_, hops⟩
  · rw [hpayloads, List.getElem?_map, hblock]
    rfl
  · rw [hsteps, List.getElem?_map, hblock, ← hlist]
    rfl

/-! ## Where a counter lies -/

theorem getElem?_filter {α : Type*} {p : α → Bool} : ∀ {l : List α} {c : Nat} {a : α}, (l.filter p)[c]? = some a →
    ∃ n : Nat, l[n]? = some a ∧ (l.take n).countP p = c
  | [], c, a, h => by simp at h
  | b :: l, c, a, h => by
    rw [List.filter_cons] at h
    by_cases hb : p b
    · rw [if_pos hb] at h
      cases c with
      | zero => exact ⟨0, h, rfl⟩
      | succ c =>
        obtain ⟨n, hn, hc⟩ := getElem?_filter h
        exact ⟨n + 1, hn, by rw [List.take_succ_cons, List.countP_cons_of_pos hb, hc]⟩
    · rw [if_neg hb] at h
      obtain ⟨n, hn, hc⟩ := getElem?_filter h
      exact ⟨n + 1, hn, by rw [List.take_succ_cons, List.countP_cons_of_neg hb, hc]⟩

theorem filter_counter (written : List Modification) :
    (written.filter (·.opType = .COUNTER)).map (·.span.1) =
      (written.filterMap Modification.counter?).map (·.counterBytes.start.toNat) := by
  induction written with
  | nil => rfl
  | cons m written ih =>
    cases m with
    | counter m => simpa [Modification.opType, Modification.counter?, Modification.span, Modification.bytes] using ih
    | timestamp m =>
      rw [List.filter_cons_of_neg (by simp [Modification.opType]), List.filterMap_cons]
      exact ih

theorem Tiles.counters {mods : ModList} {payload : PayloadDescriptor} (h : Tiles mods payload) :
    ((Spans.layout opLength 0 payload.ops).filter (·.1.type = .COUNTER)).map Prod.snd =
      mods.counterMods.map (·.counterBytes.start.toNat) := by
  have hplaced := congrArg (fun l => (l.filter (·.1 = .COUNTER)).map fun q => q.2.1) h.placed
  simp only [List.filter_map, List.map_map] at hplaced
  rw [← written_counters, ← filter_counter]
  refine Eq.trans ?_ hplaced
  rw [dynamicOps, Spans.placed, List.filter_filter]
  refine congrArg (List.map Prod.snd) (List.filter_congr fun q _ => ?_)
  by_cases hq : q.1.type = .COUNTER <;> simp [hq, isIdentity]

theorem Tiles.exists_counter {mods : ModList} {payload : PayloadDescriptor} (h : Tiles mods payload)
    (ho : counterOpsOf payload.ops = mods.counterMods.map CounterModification.op) {c : Nat} {m : CounterModification}
    (hm : mods.counterMods[c]? = some m) :
    ∃ n : Nat, payload.ops[n]? = some m.op ∧ counterOps (payload.ops.take n) = c ∧
      Spans.total opLength (payload.ops.take n) = m.counterBytes.start.toNat := by
  have hfst : ((Spans.layout opLength 0 payload.ops).filter (·.1.type = .COUNTER)).map Prod.fst =
      mods.counterMods.map CounterModification.op := by
    rw [← ho, counterOpsOf]
    conv_rhs => rw [← Spans.layout_fst opLength payload.ops 0, List.filter_map]
    rfl
  have h₁ := congrArg (·[c]?) hfst
  have h₂ := congrArg (·[c]?) h.counters
  simp only [List.getElem?_map, hm, Option.map_some] at h₁ h₂
  obtain ⟨q, hq, hop⟩ := Option.map_eq_some_iff.mp h₁
  rw [hq] at h₂
  obtain ⟨n, hn, hcount⟩ := getElem?_filter hq
  have hlayout := Spans.layout_getElem? opLength payload.ops 0 n
  rw [hn] at hlayout
  obtain ⟨op, hget, rfl⟩ := Option.map_eq_some_iff.mp hlayout.symm
  refine ⟨n, by rw [hget]; exact congrArg some hop, ?_, ?_⟩
  · rw [← hcount, counterOps]
    conv_lhs => rw [← Spans.layout_fst opLength payload.ops 0, ← List.map_take, List.countP_map]
    rfl
  · rw [← Option.some.inj h₂]
    exact (Nat.zero_add _).symm

/-! ## What is counted -/

/-- In every run on the manager of an accepted script, a copy whose modifications
are written in the order of their bytes carries in each counter's bytes, modulo
their number, the step times the preparations of this copy before it. -/
theorem counts_each_copy (h : Accepted env script plan) {i : Nat} {action : Action}
    (ha : script.orchestrator.actions[i]? = some action) (hs : action.type = .SEND) {copy : Nat}
    (hcopy : copy < action.count.toNat) {c : Nat} {m : CounterModification} (hm : action.mods.counterMods[c]? = some m)
    (hstep : m.counterStep.toNat < 2 ^ 16) :
    ∃ payload, plan.payloads[copiesBefore script.orchestrator.actions i + copy]? = some payload ∧
      (WrittenInOrder payload.packetData.length action.mods.written → ∀ es p,
        Runs.Run Preparation.step (fun _ _ => True) (start plan.payloads plan.counterSteps) es p →
        ∀ t call, p.calls[t]? = some call → call.index = copiesBefore script.orchestrator.actions i + copy →
          call.ops = [] → ∃ k, p.history[k]? = some ⟨t, call.index, c⟩ ∧
            readNumeric m.littleEndian (((call.bytes payload.packetData).drop m.counterBytes.start.toNat).take
                m.counterBytes.second.toNat) =
              advancesOf (p.history.take k) call.index c * m.counterStep.toNat %
                2 ^ (8 * m.counterBytes.second.toNat)) := by
  obtain ⟨memory, hp⟩ := h.planned
  obtain ⟨payload, hget, hiff⟩ := generatePlan_tiles_iff hp ha hs hcopy
  refine ⟨payload, hget, fun hordered es p r t call hcall hindex hret => ?_⟩
  have htiles := hiff.mpr hordered
  -- the copy's payload and steps are those of its SEND
  have hcopies : copy < action.copies := by rwa [Action.copies, if_pos hs]
  obtain ⟨payload', hget', hsteps, hops⟩ := generatePlan_copy hp ha hcopies
  obtain rfl := Option.some.inj (hget'.symm.trans hget)
  obtain ⟨n, hn, hcount, hoffset⟩ := htiles.exists_counter hops hm
  have hsteps' : plan.counterSteps.getD call.index [] = action.mods.counterMods.map (·.counterStep.toUInt16) := by
    rw [hindex, List.getD_eq_getElem?_getD, hsteps]
    rfl
  have hstepOf : (stepOf plan.counterSteps call.index c).toNat = m.counterStep.toNat := by
    rw [stepOf, hsteps', List.getD_eq_getElem?_getD, List.getElem?_map, hm]
    simp only [Option.map_some, Option.getD_some, UInt32.toNat_toUInt16]
    exact Nat.mod_eq_of_lt hstep
  obtain ⟨d', done, hfill⟩ := (sound_of_run h.fits r).filled t call hcall
  obtain rfl := Option.some.inj (hfill.payload.symm.trans (hindex ▸ hget))
  have hshown := (hfill.returned h.fits htiles.total hret).shown n m.op hn
  simp only [Prepared, CounterModification.op, makeCounter, hcount, hoffset, hstepOf] at hshown
  exact hshown

/-! ## Two copies -/

def countScript : DSLData :=
  plainScript [createAction 1, rangedAction .CONNECT 0 1,
    sendAction 0 1 2 (ModList.empty.pushCounter ⟨⟨0, 8⟩, 3, true⟩)]

def countRun : List Preparation.Event :=
  [.fill 0 ⟨[], 0, []⟩, .op 0 0, .op 0 0, .fill 0 ⟨[], 0, []⟩, .op 1 0, .op 1 0, .fill 1 ⟨[], 0, []⟩, .op 2 0, .op 2 0]

theorem count_accepted : interpretText plainEnv .zero (plainText
    "CREATE 1 CONNECT 0:1 SEND 0:1 p COPIES 2 COUNTER 0:8 \"little\":3") = .ok countScript := by
  rw [plainText_words]
  decide +kernel

def countPayload : PayloadDescriptor := ⟨List.replicate 24 0, [makeCounter 8 true, makeIdentity 16]⟩

theorem count_runs : ∃ plan p, generatePlanCommon plainEnv .zero countScript = .ok plan ∧
    plan.payloads = [countPayload, countPayload] ∧
    Runs.Run Preparation.step (fun _ _ => True) (start plan.payloads plan.counterSteps) countRun p ∧
      p.history = [⟨0, 0, 0⟩, ⟨1, 0, 0⟩, ⟨2, 1, 0⟩] ∧ (∀ call ∈ p.calls, call.ops = []) ∧
        p.calls.map (·.index) = [0, 0, 1] ∧
        p.calls.map (fun call => readNumeric true ((call.bytes countPayload.packetData).take 8)) = [0, 3, 0] := by
  have h : Orchestrator.planRun countScript (fun _ _ _ => True) [] (fun plan _ =>
      plan.payloads = [countPayload, countPayload] ∧ plan.counterSteps = [[3], [3]]) = true := by
    decide +kernel
  obtain ⟨plan, _, hp, -, hpayloads, hsteps⟩ := exists_of_planRun h
  obtain ⟨p, hrun⟩ : ∃ p,
      Runs.Run Preparation.step (fun _ _ => True) (start [countPayload, countPayload] [[3], [3]]) countRun p ∧
        p.history = [⟨0, 0, 0⟩, ⟨1, 0, 0⟩, ⟨2, 1, 0⟩] ∧ (∀ call ∈ p.calls, call.ops = []) ∧
          p.calls.map (·.index) = [0, 0, 1] ∧
          p.calls.map (fun call => readNumeric true ((call.bytes countPayload.packetData).take 8)) = [0, 3, 0] :=
    ⟨_, Runs.run_of_isSome (by decide +kernel), by decide +kernel⟩
  rw [← hpayloads, ← hsteps] at hrun
  exact ⟨plan, p, hp, hpayloads, hrun⟩

/-- The third preparation of the SEND writes 0 where one shared counter would be
at 6. -/
theorem counts_apart : ∃ plan p call, generatePlanCommon plainEnv .zero countScript = .ok plan ∧
    Runs.Run Preparation.step (fun _ _ => True) (start plan.payloads plan.counterSteps) countRun p ∧
      p.history = [⟨0, 0, 0⟩, ⟨1, 0, 0⟩, ⟨2, 1, 0⟩] ∧ p.calls[2]? = some call ∧ call.ops = [] ∧
        readNumeric true ((call.bytes countPayload.packetData).take 8) ≠ 2 * 3 % 2 ^ (8 * 8) := by
  obtain ⟨plan, p, hp, _, r, hhistory, hops, _, hread⟩ := count_runs
  have hthird := congrArg (·[2]?) hread
  rw [List.getElem?_map] at hthird
  obtain ⟨call, hcall, hvalue⟩ := Option.map_eq_some_iff.mp hthird
  exact ⟨plan, p, call, hp, r, hhistory, hcall, hops call (List.mem_of_getElem? hcall), by rw [hvalue]; decide⟩

theorem counts_each_copy_second : ∃ plan p call k, generatePlanCommon plainEnv .zero countScript = .ok plan ∧
    Runs.Run Preparation.step (fun _ _ => True) (start plan.payloads plan.counterSteps) countRun p ∧
      p.calls[1]? = some call ∧ p.history[k]? = some ⟨1, 0, 0⟩ ∧
        readNumeric true (((call.bytes countPayload.packetData).drop 0).take 8) =
          advancesOf (p.history.take k) 0 0 * 3 % 2 ^ (8 * 8) := by
  obtain ⟨plan, p, hp, hpayloads, r, _, hops, hindex, _⟩ := count_runs
  have hsecond := congrArg (·[1]?) hindex
  rw [List.getElem?_map] at hsecond
  obtain ⟨call, hcall, hzero⟩ := Option.map_eq_some_iff.mp hsecond
  have ha : countScript.orchestrator.actions[2]? =
      some (sendAction 0 1 2 (ModList.empty.pushCounter ⟨⟨0, 8⟩, 3, true⟩)) := rfl
  have hm : (ModList.empty.pushCounter ⟨⟨0, 8⟩, 3, true⟩).counterMods[0]? = some ⟨⟨0, 8⟩, 3, true⟩ := rfl
  obtain ⟨payload, hget, hcounts⟩ :=
    counts_each_copy ⟨⟨_, _, count_accepted⟩, _, hp⟩ ha rfl (show 0 < 2 by decide) hm (by decide)
  obtain rfl : countPayload = payload := by
    rw [hpayloads] at hget
    exact Option.some.inj hget
  obtain ⟨k, hk, hread⟩ := hcounts (by decide) _ p r 1 call hcall hzero (hops call (List.mem_of_getElem? hcall))
  rw [hzero] at hk hread
  exact ⟨plan, p, call, k, hp, r, hcall, hk, hread⟩

end Loadshear
