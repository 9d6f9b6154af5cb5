import Loadshear.LifecycleSound
import Loadshear.OverlapSound
import Loadshear.TilingSound

/-!
# From script to plan

`generatePlan_spec`: a plan holds one descriptor for each action and, for each
SEND, one block of equal payloads, all in script order.
-/

namespace Loadshear

/-! ## Blocks of payloads -/

def Action.copies (a : Action) : Nat := if a.type = .SEND then a.count.toNat else 0

def payloadBlock (table : PacketTable) (a : Action) : List PayloadDescriptor :=
  if a.type = .SEND then
    match planSend table a with
    | .ok (payload, _) => List.replicate a.count.toNat payload
    | .error _ => []
  else []

def copiesBefore (actions : List Action) (i : Nat) : Nat := ((actions.take i).map Action.copies).sum

/-- The descriptor says of an action what the orchestrator acts on. -/
structure Describes (d : ActionDescriptor) (a : Action) : Prop where
  type : d.type = a.type
  start : d.sessionsStart = if a.type = .CREATE then 0 else a.range.start
  stop : d.sessionsEnd = a.range.second
  count : a.type = .SEND → d.count = a.count
  created : a.type = .CREATE → d.count = a.range.second

theorem planAction_spec {table : PacketTable} {desc : ActionDescriptor} {st st' : PlanState} {a : Action}
    (h : planAction table desc st a = .ok st') :
    st'.payloads = st.payloads ++ payloadBlock table a ∧ (∃ d, st'.actions = st.actions ++ [d] ∧ Describes d a) ∧
      (a.type = .SEND → ∃ r, planSend table a = .ok r) := by
  unfold planAction at h
  unfold payloadBlock
  cases ht : a.type with
  | SEND =>
    simp only [ht] at h
    obtain ⟨r, hp, h⟩ := bind_eq_ok h
    simp only [pure, Except.pure, Except.ok.injEq] at h
    subst h
    exact ⟨by simp [hp], ⟨_, rfl, by simp [ActionDescriptor.makeSend, ht], by simp [ActionDescriptor.makeSend, ht],
      rfl, fun _ => rfl, by simp [ht]⟩, fun _ => ⟨r, hp⟩⟩
  | CREATE =>
    simp only [ht, Except.ok.injEq] at h
    subst h
    exact ⟨by simp, ⟨_, rfl, ht.symm, by simp [ActionDescriptor.makeCreate, ht], rfl, by simp [ht],
      by simp [ActionDescriptor.makeCreate]⟩, by simp⟩
  | _ =>
    simp only [ht, Except.ok.injEq] at h
    subst h
    refine ⟨by simp, ⟨_, rfl, ht.symm, ?_, rfl, by simp [ht], by simp [ht]⟩, by simp⟩
    simp [ht]
    rfl

theorem planActions_spec (memory : Memory) {table : PacketTable} : ∀ {actions : List Action} {i : Nat}
    {st st' : PlanState}, planActions memory table i st actions = .ok st' →
    st'.payloads = st.payloads ++ actions.flatMap (payloadBlock table) ∧
      (∃ ds, st'.actions = st.actions ++ ds ∧ List.Forall₂ Describes ds actions) ∧
      ∀ a ∈ actions, a.type = .SEND → ∃ r, planSend table a = .ok r
  | [], i, st, st', h => by
    simp only [planActions, Except.ok.injEq] at h
    subst h
    exact ⟨by simp, ⟨[], by simp, .nil⟩, by simp⟩
  | a :: actions, i, st, st', h => by
    rw [planActions] at h
    obtain ⟨st₁, h₁, h⟩ := bind_eq_ok h
    obtain ⟨hp, ⟨d, hd, hda⟩, hs⟩ := planAction_spec h₁
    obtain ⟨hp', ⟨ds, hds, hdas⟩, hs'⟩ := planActions_spec memory h
    refine ⟨by rw [hp', hp, List.flatMap_cons, List.append_assoc],
      ⟨d :: ds, by rw [hds, hd, List.append_assoc]; rfl, .cons hda hdas⟩, ?_⟩
    intro b hb
    rcases List.mem_cons.mp hb with rfl | hb
    · exact hs
    · exact hs' b hb

/-! ## Packets -/

theorem loadPacket_small {env : Env} {identifier path : String} {t t' : PacketTable}
    (h : loadPacket env identifier path t = .ok t') (ht : ∀ buf ∈ t.packetData, buf.length < 2 ^ 64) :
    ∀ buf ∈ t'.packetData, buf.length < 2 ^ 64 := by
  unfold loadPacket at h
  simp only at h
  split at h
  · cases h
  split at h
  · cases h
  split at h
  · cases h
  · rename_i buf hbuf
    simp only [Except.ok.injEq] at h
    subst h
    intro b hb
    rcases List.mem_append.mp hb with hb | hb
    · exact ht b hb
    · rw [List.mem_singleton.mp hb, env.readBytes_length _ _ _ hbuf]
      exact UInt64.toNat_lt _

theorem loadPackets_small {env : Env} : ∀ {ids : List (String × String)} {t t' : PacketTable},
    loadPackets env ids t = .ok t' → (∀ buf ∈ t.packetData, buf.length < 2 ^ 64) →
    ∀ buf ∈ t'.packetData, buf.length < 2 ^ 64
  | [], t, t', h, ht => by
    simp only [loadPackets, Except.ok.injEq] at h
    subst h
    exact ht
  | (identifier, filename) :: rest, t, t', h, ht => by
    rw [loadPackets] at h
    split at h
    · cases h
    · rename_i path _
      split at h
      · split at h
        · cases h
        · exact loadPackets_small h ht
      · obtain ⟨t₁, h₁, h⟩ := bind_eq_ok h
        exact loadPackets_small h (loadPacket_small h₁ ht)

theorem generatePlan_spec {env : Env} {memory : Memory} {script : DSLData} {plan : ExecutionPlan}
    (h : generatePlanCommon env memory script = .ok plan) :
    ∃ table, loadPackets env script.settings.packetIdentifiers {} = .ok table ∧
      plan.payloads = script.orchestrator.actions.flatMap (payloadBlock table) ∧
      List.Forall₂ Describes plan.actions script.orchestrator.actions ∧
      (∀ a ∈ script.orchestrator.actions, a.type = .SEND → ∃ r, planSend table a = .ok r) ∧
      plan.config = script.settings.sessionConfig ∧ plan.shardCount = script.settings.shards.toNat := by
  unfold generatePlanCommon at h
  obtain ⟨table, ht, h⟩ := bind_eq_ok h
  obtain ⟨st, hst, h⟩ := bind_eq_ok h
  simp only [pure, Except.pure, Except.ok.injEq] at h
  subst h
  obtain ⟨hp, ⟨ds, hds, hd⟩, hs⟩ := planActions_spec memory hst
  refine ⟨table, ht, by simpa using hp, ?_, hs, rfl, rfl⟩
  simp only [List.nil_append] at hds
  rw [hds]; exact hd

theorem generatePlan_config {env : Env} {memory : Memory} {script : DSLData} {plan : ExecutionPlan}
    (h : generatePlanCommon env memory script = .ok plan) : plan.config = script.settings.sessionConfig := by
  obtain ⟨_, _, _, _, _, hconfig, _⟩ := generatePlan_spec h
  exact hconfig

/-! ## Every copy of every SEND -/

theorem payloadBlock_send {table : PacketTable} {a : Action} {payload : PayloadDescriptor}
    {counterList : List UInt16} (ht : a.type = .SEND) (h : planSend table a = .ok (payload, counterList)) :
    payloadBlock table a = List.replicate a.count.toNat payload := by
  simp [payloadBlock, ht, h]

theorem payloadBlock_length {table : PacketTable} {a : Action}
    (h : a.type = .SEND → ∃ r, planSend table a = .ok r) : (payloadBlock table a).length = a.copies := by
  unfold Action.copies
  by_cases ht : a.type = .SEND
  · obtain ⟨⟨payload, counterList⟩, hr⟩ := h ht
    rw [payloadBlock_send ht hr, List.length_replicate, if_pos ht]
  · rw [if_neg ht, payloadBlock, if_neg ht]; rfl

/-- Blocks that have an entry for each copy of their action come to lie one SEND
behind the other. -/
theorem flatMap_length {β : Type} {block : Action → List β} {actions : List Action}
    (h : ∀ a ∈ actions, (block a).length = a.copies) :
    (actions.flatMap block).length = (actions.map Action.copies).sum := by
  rw [List.length_flatMap]
  exact congrArg List.sum (List.map_congr_left h)

theorem flatMap_getElem? {β : Type} {block : Action → List β} {actions : List Action}
    (h : ∀ a ∈ actions, (block a).length = a.copies) {i : Nat} {a : Action} (ha : actions[i]? = some a) {c : Nat}
    (hc : c < a.copies) : (actions.flatMap block)[copiesBefore actions i + c]? = (block a)[c]? := by
  obtain ⟨hi, rfl⟩ := List.getElem?_eq_some_iff.mp ha
  have hlen := flatMap_length fun a (ha : a ∈ actions.take i) => h a (List.mem_of_mem_take ha)
  have hsplit : actions = actions.take i ++ actions[i] :: actions.drop (i + 1) := by
    rw [List.getElem_cons_drop, List.take_append_drop]
  conv_lhs => rw [hsplit, List.flatMap_append, List.flatMap_cons]
  rw [← hsplit, List.getElem?_append_right (by rw [hlen]; exact Nat.le_add_right _ _), hlen, copiesBefore,
    Nat.add_sub_cancel_left, List.getElem?_append_left]
  rwa [h _ (List.getElem_mem hi)]

theorem planSend_spec {table : PacketTable} {a : Action} {payload : PayloadDescriptor}
    {counterList : List UInt16} (h : planSend table a = .ok (payload, counterList)) :
    sendOperations a.mods payload.packetData = .ok (payload.ops, counterList) ∧
      (payload.packetData ∈ table.packetData ∨ payload.packetData = []) := by
  unfold planSend at h
  split at h
  · cases h
  · rename_i index _
    simp only at h
    obtain ⟨⟨ops, counters⟩, hs, h⟩ := bind_eq_ok h
    simp only [pure, Except.pure, Except.ok.injEq, Prod.mk.injEq] at h
    obtain ⟨rfl, rfl⟩ := h
    refine ⟨hs, ?_⟩
    rw [List.getD_eq_getElem?_getD]
    cases hg : table.packetData[index]? with
    | none => exact Or.inr rfl
    | some buf => exact Or.inl (List.mem_of_getElem? hg)

/-! ## Copies -/

/-- What the plan holds for each copy of an action: its payload and its steps. -/
def copyBlock (table : PacketTable) (a : Action) : List (PayloadDescriptor × List UInt16) :=
  if a.type = .SEND then
    match planSend table a with
    | .ok copy => List.replicate a.count.toNat copy
    | .error _ => []
  else []

theorem copyBlock_length {table : PacketTable} {a : Action} (h : a.type = .SEND → ∃ r, planSend table a = .ok r) :
    (copyBlock table a).length = a.copies := by
  unfold copyBlock Action.copies
  by_cases ht : a.type = .SEND
  · obtain ⟨r, hr⟩ := h ht
    simp [ht, hr]
  · simp [ht]

theorem planAction_copies {table : PacketTable} {desc : ActionDescriptor} {st st' : PlanState} {a : Action}
    (h : planAction table desc st a = .ok st') :
    st'.payloads = st.payloads ++ (copyBlock table a).map Prod.fst ∧
      st'.counterSteps = st.counterSteps ++ (copyBlock table a).map Prod.snd := by
  unfold planAction at h
  unfold copyBlock
  cases ht : a.type with
  | SEND =>
    simp only [ht] at h
    obtain ⟨r, hp, h⟩ := bind_eq_ok h
    simp only [pure, Except.pure, Except.ok.injEq] at h
    subst h
    simp [hp]
  | _ =>
    simp only [ht, Except.ok.injEq] at h
    subst h
    simp

theorem planActions_copies (memory : Memory) {table : PacketTable} : ∀ {actions : List Action} {i : Nat}
    {st st' : PlanState}, planActions memory table i st actions = .ok st' →
    st'.payloads = st.payloads ++ (actions.flatMap (copyBlock table)).map Prod.fst ∧
      st'.counterSteps = st.counterSteps ++ (actions.flatMap (copyBlock table)).map Prod.snd
  | [], i, st, st', h => by
    simp only [planActions, Except.ok.injEq] at h
    subst h
    simp
  | a :: actions, i, st, st', h => by
    rw [planActions] at h
    obtain ⟨st₁, h₁, h⟩ := bind_eq_ok h
    obtain ⟨hp₁, hc₁⟩ := planAction_copies h₁
    obtain ⟨hp, hc⟩ := planActions_copies memory h
    simp [hp, hc, hp₁, hc₁]

theorem generatePlan_copies {env : Env} {memory : Memory} {script : DSLData} {plan : ExecutionPlan}
    (h : generatePlanCommon env memory script = .ok plan) : ∃ table,
    loadPackets env script.settings.packetIdentifiers {} = .ok table ∧
      plan.payloads = (script.orchestrator.actions.flatMap (copyBlock table)).map Prod.fst ∧
      plan.counterSteps = (script.orchestrator.actions.flatMap (copyBlock table)).map Prod.snd := by
  unfold generatePlanCommon at h
  obtain ⟨table, ht, h⟩ := bind_eq_ok h
  obtain ⟨st, hst, h⟩ := bind_eq_ok h
  simp only [pure, Except.pure, Except.ok.injEq] at h
  subst h
  obtain ⟨hp, hc⟩ := planActions_copies memory hst
  exact ⟨table, ht, by simpa using hp, by simpa using hc⟩

/-- A copy of a SEND cuts its packet as the script asks exactly when the script
writes the modifications in the order of their bytes. -/
theorem generatePlan_tiles_iff {env : Env} {memory : Memory} {script : DSLData} {plan : ExecutionPlan}
    (h : generatePlanCommon env memory script = .ok plan) {i : Nat} {action : Action}
    (ha : script.orchestrator.actions[i]? = some action) (hs : action.type = .SEND) {c : Nat}
    (hc : c < action.count.toNat) :
    ∃ payload, plan.payloads[copiesBefore script.orchestrator.actions i + c]? = some payload ∧
      (Tiles action.mods payload ↔ WrittenInOrder payload.packetData.length action.mods.written) := by
  obtain ⟨table, ht, hp, _, hsends, _⟩ := generatePlan_spec h
  obtain ⟨⟨payload, counterList⟩, hr⟩ := hsends action (List.mem_of_getElem? ha) hs
  have hcop : c < action.copies := by rwa [Action.copies, if_pos hs]
  refine ⟨payload, ?_, ?_⟩
  · rw [hp, flatMap_getElem? (fun a ha => payloadBlock_length (hsends a ha)) ha hcop, payloadBlock_send hs hr,
      List.getElem?_replicate, if_pos hc]
  · obtain ⟨hops, hbuf⟩ := planSend_spec hr
    refine tiles_iff ?_ hops
    rcases hbuf with hbuf | hbuf
    · exact loadPackets_small ht (by simp) _ hbuf
    · rw [hbuf]; decide

/-! ## Accepted scripts have a plan -/

theorem lookup_mapAssign {α : Type} (key key' : String) (value : α) : ∀ l : List (String × α),
    (mapAssign key value l).lookup key' = if key' = key then some value else l.lookup key'
  | [] => by
    by_cases h : key' = key
    · simp [mapAssign, h]
    · simp [mapAssign, h, List.lookup_cons, beq_eq_false_iff_ne.mpr h]
  | (k, v) :: l => by
    unfold mapAssign
    by_cases he : k = key
    · rw [if_pos he]
      by_cases h : key' = key
      · simp [h]
      · simp [h, List.lookup_cons, beq_eq_false_iff_ne.mpr h, he]
    · rw [if_neg he]
      by_cases h' : key' = k
      · have h : key' ≠ key := h' ▸ he
        simp [h', he]
      · simp only [List.lookup_cons, beq_eq_false_iff_ne.mpr h', lookup_mapAssign key key' value l]

theorem verifyTimestampMods_each {action : Action} {size : UInt64} {i : Nat} :
    ∀ {ms : List TimestampModification} {map map' : ModRanges}, verifyTimestampMods action size i map ms = .ok map' →
      ∀ m ∈ ms, m.formatName ∈ validTimeFormats ∧ m.timestampBytes.Short size
  | [], _, _, _ => by simp
  | m :: ms, map, map', h => by
    rw [verifyTimestampMods] at h
    obtain ⟨map₁, _, h⟩ := bind_eq_ok h
    split at h
    · cases h
    · rename_i hf
      obtain ⟨⟨⟩, hb, h⟩ := bind_eq_ok h
      have hm : m.formatName ∈ validTimeFormats := by simpa using hf
      exact List.forall_mem_cons.mpr ⟨⟨hm, verifyModBytes_ok.mp hb⟩, verifyTimestampMods_each h⟩

theorem verifyCounterMods_each {action : Action} {size : UInt64} {i : Nat} :
    ∀ {ms : List CounterModification} {map map' : ModRanges}, verifyCounterMods action size i map ms = .ok map' →
      ∀ m ∈ ms, m.counterStep ≠ 0 ∧ m.counterBytes.Short size
  | [], _, _, _ => by simp
  | m :: ms, map, map', h => by
    rw [verifyCounterMods] at h
    obtain ⟨map₁, _, h⟩ := bind_eq_ok h
    split at h
    · cases h
    · rename_i hstep
      obtain ⟨⟨⟩, hb, h⟩ := bind_eq_ok h
      exact List.forall_mem_cons.mpr ⟨⟨hstep, verifyModBytes_ok.mp hb⟩, verifyCounterMods_each h⟩

structure SendValid (settings : SettingsBlock) (a : Action) (size : UInt64) : Prop where
  count : a.count ≠ 0
  packet : (settings.packetIdentifiers.lookup a.packetIdentifier).isSome
  timestamps : ∀ m ∈ a.mods.timestampMods, m.formatName ∈ validTimeFormats ∧ m.timestampBytes.Short size
  counters : ∀ m ∈ a.mods.counterMods, m.counterStep ≠ 0 ∧ m.counterBytes.Short size

theorem verifySend_spec {env : Env} {settings : SettingsBlock} {i : Nat} {a : Action} {st st' : ValidatorState}
    (h : verifySend env settings i a st = .ok st') : ∃ size, SendValid settings a size := by
  unfold verifySend at h
  split at h
  · cases h
  rename_i hcount
  obtain ⟨_, _, h⟩ := bind_eq_ok h
  obtain ⟨size, hp, h⟩ := bind_eq_ok h
  obtain ⟨_, ht, h⟩ := bind_eq_ok h
  obtain ⟨_, hc, _⟩ := bind_eq_ok h
  refine ⟨size, hcount, ?_, verifyTimestampMods_each ht, verifyCounterMods_each hc⟩
  unfold verifyPacket at hp
  split at hp
  · cases hp
  · rename_i file hfile
    rw [hfile]
    rfl

theorem verifyActions_each {env : Env} {settings : SettingsBlock} : ∀ {actions : List Action} {i : Nat}
    {st st' : ValidatorState}, verifyActions env settings i st actions = .ok st' →
    ∀ a ∈ actions, ∃ i st st', verifyAction env settings i a st = .ok st'
  | [], _, _, _, _ => by simp
  | a :: actions, i, st, st', h => by
    rw [verifyActions] at h
    obtain ⟨st₁, h₁, h⟩ := bind_eq_ok h
    exact List.forall_mem_cons.mpr ⟨⟨i, st, st₁, h₁⟩, verifyActions_each h⟩

theorem mem_writtenFrom : ∀ {order : List ModificationType} {ts : List TimestampModification}
    {cs : List CounterModification} {m : Modification}, m ∈ writtenFrom order ts cs →
      (∃ t ∈ ts, m = .timestamp t) ∨ ∃ c ∈ cs, m = .counter c
  | [], _, _, _, h => by simp [writtenFrom] at h
  | .Timestamp :: order, [], _, _, h => by simp [writtenFrom] at h
  | .Timestamp :: order, t :: ts, cs, m, h => by
    rw [writtenFrom] at h
    rcases List.mem_cons.mp h with h | h
    · exact .inl ⟨t, List.mem_cons_self .., h⟩
    · rcases mem_writtenFrom h with ⟨t', ht, hm⟩ | hc
      · exact .inl ⟨t', List.mem_cons_of_mem _ ht, hm⟩
      · exact .inr hc
  | .Counter :: order, ts, [], _, h => by simp [writtenFrom] at h
  | .Counter :: order, ts, c :: cs, m, h => by
    rw [writtenFrom_counter] at h
    rcases List.mem_cons.mp h with h | h
    · exact .inr ⟨c, List.mem_cons_self .., h⟩
    · rcases mem_writtenFrom h with ht | ⟨c', hc, hm⟩
      · exact .inl ht
      · exact .inr ⟨c', List.mem_cons_of_mem _ hc, hm⟩

def crossedMods : ModList :=
  (ModList.empty.pushTimestamp ⟨⟨12, 8⟩, true, "seconds"⟩).pushCounter ⟨⟨0, 8⟩, 1, true⟩

def sortedMods : ModList :=
  (ModList.empty.pushCounter ⟨⟨0, 8⟩, 1, true⟩).pushTimestamp ⟨⟨12, 8⟩, true, "seconds"⟩

def sendMods (mods : ModList) : DSLData :=
  plainScript [createAction 1, rangedAction .CONNECT 0 1, sendAction 0 1 1 mods]

def planPayloads (script : DSLData) : Option (List PayloadDescriptor) :=
  (generatePlanCommon plainEnv .zero script).toOption.map (·.payloads)

theorem planPayloads_some {script : DSLData} {payloads : List PayloadDescriptor}
    (h : planPayloads script = some payloads) :
    ∃ plan, generatePlanCommon plainEnv .zero script = .ok plan ∧ plan.payloads = payloads := by
  unfold planPayloads at h
  cases hp : generatePlanCommon plainEnv .zero script with
  | error e => rw [hp] at h; cases h
  | ok plan => rw [hp] at h; exact ⟨plan, rfl, Option.some.inj h⟩

theorem generatePlan_tiles_iff_sorted : ∃ plan payload,
    generatePlanCommon plainEnv .zero (sendMods sortedMods) = .ok plan ∧ plan.payloads[0]? = some payload ∧
      Tiles sortedMods payload := by
  have hpayloads : planPayloads (sendMods sortedMods) = some [⟨List.replicate 24 0, [makeCounter 8 true,
      makeIdentity 4, makeTimestamp 8 true .Seconds, makeIdentity 4]⟩] := by
    decide +kernel
  obtain ⟨plan, hplan, hp⟩ := planPayloads_some hpayloads
  have hsend : (sendMods sortedMods).orchestrator.actions[2]? = some (sendAction 0 1 1 sortedMods) := rfl
  obtain ⟨payload, hc, hiff⟩ := generatePlan_tiles_iff hplan hsend rfl (c := 0) (by decide)
  refine ⟨plan, payload, hplan, hc, hiff.mpr ?_⟩
  rw [hp] at hc
  cases hc
  decide

/-- The running index is at 20 when the counter wants to start at 0. -/
theorem crossed_not_tiled :
    interpretText plainEnv .zero (plainText ("CREATE 1 CONNECT 0:1 SEND 0:1 p COPIES 1 "
      ++ "TIMESTAMP 12:8 \"little\":\"seconds\" COUNTER 0:8 \"little\":1")) = .ok (sendMods crossedMods) ∧
    ∃ plan payload, generatePlanCommon plainEnv .zero (sendMods crossedMods) = .ok plan ∧
      plan.payloads = [payload] ∧ ¬ Tiles crossedMods payload := by
  constructor
  · rw [plainText_words, String.toList_append]
    decide +kernel
  · have hpayloads : planPayloads (sendMods crossedMods) = some [⟨List.replicate 24 0, [makeIdentity 12,
        makeTimestamp 8 true .Seconds, makeIdentity (0 - 20), makeCounter 8 true, makeIdentity 16]⟩] := by
      decide +kernel
    obtain ⟨plan, hplan, hp⟩ := planPayloads_some hpayloads
    exact ⟨plan, _, hplan, hp, fun ht => absurd ht.total (by decide)⟩

end Loadshear
