import Loadshear.IncrementSound
import Loadshear.Logs

/-!
# The bytes of a copy

What a call of `fill_payload` hands to its write, from the SEND in the script
to the bytes: the packet, with the counters and the timestamps of the SEND on
the bytes that they name (`Patched`), however the calls of all threads
interleave.
-/

namespace Loadshear

/-! ## Operations of modifications -/

def Modification.op? : Modification → Option PacketOperation
  | .counter m => some m.op
  | .timestamp m =>
    (tsFormatLookup.lookup m.formatName).map (makeTimestamp m.timestampBytes.second m.littleEndian)

def modifying (ops : List PacketOperation) : List PacketOperation := ops.filter fun op => !isIdentity op

theorem pushPrevious_modifying (st : SendState) (start : UInt32) :
    modifying (st.pushPrevious start).ops = modifying st.ops := by
  unfold SendState.pushPrevious modifying
  simp only
  split
  · simp [makeIdentity, isIdentity]
  · rfl

theorem addMod_op? {st st' : SendState} {m : Modification} (h : addMod st m = .ok st') :
    ∃ op, m.op? = some op ∧ modifying st'.ops = modifying st.ops ++ [op] := by
  rw [← pushPrevious_modifying st m.bytes.start]
  cases m with
  | counter m =>
    simp only [addMod, addCounterOp, Except.ok.injEq] at h
    subst h
    refine ⟨m.op, rfl, ?_⟩
    rw [modifying, List.filter_append]
    rfl
  | timestamp m =>
    simp only [addMod, addTimestampOp] at h
    split at h
    · cases h
    · rename_i format hf
      simp only [Except.ok.injEq] at h
      subst h
      refine ⟨makeTimestamp m.timestampBytes.second m.littleEndian format, by rw [Modification.op?, hf]; rfl, ?_⟩
      rw [modifying, List.filter_append]
      rfl

theorem addMods_op? : ∀ {written : List Modification} {st st' : SendState}, written.foldlM addMod st = .ok st' →
    (modifying st'.ops).map some = (modifying st.ops).map some ++ written.map Modification.op?
  | [], st, st', h => by
    simp only [List.foldlM_nil, pure, Except.pure, Except.ok.injEq] at h
    subst h
    simp
  | m :: written, st, st', h => by
    rw [List.foldlM_cons] at h
    obtain ⟨st₁, h₁, h⟩ := bind_eq_ok h
    obtain ⟨op, hop, hops⟩ := addMod_op? h₁
    rw [addMods_op? h, hops, List.map_append, List.map_singleton, List.map_cons, hop, List.append_assoc]
    rfl

theorem sendOperations_op? {mods : ModList} {buf : List UInt8} {ops : List PacketOperation}
    {counterList : List UInt16} (hbuf : buf.length < 2 ^ 64) (h : sendOperations mods buf = .ok (ops, counterList)) :
    (modifying ops).map some = mods.written.map Modification.op? := by
  obtain ⟨st, hst, htail⟩ := sendOperations_shape hbuf h
  have hops := addMods_op? hst
  rcases htail with ⟨rfl, _⟩ | ⟨_, rfl⟩
  · exact hops
  · rw [modifying, List.filter_append]
    simpa [makeIdentity, isIdentity, modifying] using hops

/-- Each modification has its operation, which comes to lie on its bytes. -/
theorem Tiles.exists_op {mods : ModList} {payload : PayloadDescriptor} (h : Tiles mods payload)
    (ho : (modifying payload.ops).map some = mods.written.map Modification.op?) {m : Modification}
    (hm : m ∈ mods.written) :
    ∃ (n : Nat) (op : PacketOperation), payload.ops[n]? = some op ∧ m.op? = some op ∧
      Spans.total opLength (payload.ops.take n) = m.span.1 := by
  obtain ⟨w, hw⟩ := List.mem_iff_getElem?.mp hm
  have hfst : (dynamicOps payload.ops).map Prod.fst = modifying payload.ops := by
    conv_rhs => rw [modifying, ← Spans.layout_fst opLength payload.ops 0, List.filter_map]
    rfl
  have h₁ := congrArg (·[w]?) h.placed
  have h₂ := congrArg (·[w]?) ho
  simp only [← hfst, List.getElem?_map, hw, Option.map_some, Option.map_map] at h₁ h₂
  obtain ⟨q, hq, hspan⟩ := Option.map_eq_some_iff.mp h₁
  rw [hq] at h₂
  obtain ⟨n, hn⟩ := List.mem_iff_getElem?.mp (List.mem_of_mem_filter (List.mem_of_getElem? hq))
  rw [Spans.layout_getElem?] at hn
  obtain ⟨op, hget, rfl⟩ := Option.map_eq_some_iff.mp hn
  refine ⟨n, op, hget, (Option.some.inj h₂).symm, ?_⟩
  simp only [Prod.mk.injEq] at hspan
  rw [← hspan.2]
  exact (Nat.zero_add _).symm

namespace Preparation

/-! ## The clock -/

def Event.reading (t : Nat) : Event → Option Nat
  | .op t' now => if t' = t then some now else none
  | .fill .. => none

def clocks (t : Nat) (es : List Event) : List Nat := es.filterMap (Event.reading t)

theorem clocks_snoc (t : Nat) (es : List Event) (e : Event) :
    clocks t (es ++ [e]) = clocks t es ++ (e.reading t).toList := by
  rw [clocks, List.filterMap_append, List.filterMap_cons]
  cases e.reading t <;> rfl

variable {payloads : List PayloadDescriptor} {steps : List (List UInt16)} {history : List Advance} {t : Nat}
  {call : Filling} {d : PayloadDescriptor} {done : List PacketOperation} {es : List Event} {p q : Preparation}

def Timed (d : PayloadDescriptor) (readings : List Nat) (call : Filling) : Prop :=
  call.state.packetSlices.length = readings.length ∧ ∀ (n : Nat) (op : PacketOperation) (now : Nat),
    d.ops[n]? = some op → op.type = .TIMESTAMP → readings[n]? = some now →
      ∃ slice ∈ call.state.packetSlices[n]?, slice.Inside (Spans.total opLength d.ops) call.state.temps ∧
        slice.bytes d.packetData call.state.temps =
          writeNumeric (op.timeFormat.ofNanoseconds now) op.length op.littleEndian

/-- An operation appends one slice; a timestamp's shows the time it reads. -/
theorem fillOp_appends (packet : List UInt8) (size now : Nat) (s : FillState) {op : PacketOperation}
    (hshort : op.type ≠ .IDENTITY → op.length.toNat ≤ 8) :
    ∃ more slice, (fillOp (fun _ => now) s op).temps = s.temps ++ more ∧
      (fillOp (fun _ => now) s op).packetSlices = s.packetSlices ++ [slice] ∧
      (op.type = .TIMESTAMP → slice.Inside size (s.temps ++ more) ∧ slice.bytes packet (s.temps ++ more) =
        writeNumeric (op.timeFormat.ofNanoseconds now) op.length op.littleEndian) := by
  unfold fillOp
  cases ht : op.type with
  | IDENTITY => exact ⟨[], _, (List.append_nil _).symm, rfl, nofun⟩
  | COUNTER => exact ⟨_, _, rfl, rfl, nofun⟩
  | TIMESTAMP =>
    have hlen := writeNumeric_length (op.timeFormat.ofNanoseconds now) (hshort (by simp [ht])) op.littleEndian
    refine ⟨_, _, rfl, rfl, fun _ => ⟨?_, ?_⟩⟩
    · simp only [Slice.Inside, List.length_append, hlen]
      exact Nat.le_refl _
    · rw [Slice.bytes, List.drop_left, List.take_of_length_le (Nat.le_of_eq hlen)]

theorem Timed.next {readings : List Nat} {op : PacketOperation} {ops : List PacketOperation} {s : FillState} {now : Nat}
    {counters : List PayloadCounter} (h : Timed d readings call)
    (hfill : Filled payloads steps history t call d done) (hshort : op.type ≠ .IDENTITY → op.length.toNat ≤ 8)
    (hops : call.ops = op :: ops)
    (hs : fillOp (fun _ => now) { call.state with payloadCounter := counters } op = s) :
    Timed d (readings ++ [now]) { call with ops := ops, state := s } := by
  obtain ⟨more, slice, htemps, hslices, hshown⟩ := fillOp_appends d.packetData (Spans.total opLength d.ops) now
    { call.state with payloadCounter := counters } hshort
  rw [hs] at htemps hslices
  obtain ⟨hlen, hold⟩ := h
  refine ⟨by rw [hslices, List.length_append, List.length_append, hlen]; rfl, fun n op' now' hn ht hnow => ?_⟩
  rcases Nat.lt_or_ge n readings.length with hlt | hge
  · rw [List.getElem?_append_left hlt] at hnow
    obtain ⟨old, hget, hin, hb⟩ := hold n op' now' hn ht hnow
    obtain ⟨hin', hbytes⟩ := hin.append d.packetData more
    refine ⟨old, ?_, htemps ▸ hin', htemps ▸ hbytes.trans hb⟩
    rw [hslices, List.getElem?_append_left (hlen ▸ hlt)]
    exact hget
  · obtain rfl : n = readings.length := by
      have := (List.getElem?_eq_some_iff.mp hnow).1
      rw [List.length_append, List.length_singleton] at this
      omega
    rw [List.getElem?_concat_length] at hnow
    obtain rfl := Option.some.inj hnow
    obtain rfl : op = op' := by
      rw [hfill.ops, hops, ← hlen, hfill.slices, List.getElem?_append_right (Nat.le_refl _), Nat.sub_self] at hn
      exact Option.some.inj hn
    obtain ⟨hin, hb⟩ := hshown ht
    refine ⟨slice, ?_, htemps ▸ hin, htemps ▸ hb⟩
    rw [hslices, ← hlen, List.getElem?_concat_length]
    rfl

theorem clocks_none (r : Runs.Run step (fun _ _ => True) (start payloads steps) es p) {t : Nat}
    (ht : p.calls.length ≤ t) : clocks t es = [] := by
  induction r with
  | nil => rfl
  | @snoc es p q e r _ he ih =>
    rw [clocks_snoc]
    cases stepped_of_step he with
    | refused => simp [ih ht, Event.reading]
    | called =>
      rw [List.length_append] at ht
      simp [ih (Nat.le_of_add_right_le ht), Event.reading]
    | @ran t' now call op ops s hcall hops hs =>
      rw [List.length_set] at ht
      have hne : t' ≠ t := by
        have := (List.getElem?_eq_some_iff.mp hcall).1
        omega
      simp [ih ht, Event.reading, hne]

theorem timed_of_run (hf : Fits payloads steps) (r : Runs.Run step (fun _ _ => True) (start payloads steps) es p) :
    ∀ (t : Nat) (call : Filling), p.calls[t]? = some call → ∃ d, payloads[call.index]? = some d ∧
      Timed d (clocks t es) call := by
  induction r with
  | nil =>
    intro t call h
    simp [start] at h
  | @snoc es p q e r _ he ih =>
    intro t call hcall
    have hsound := sound_of_run hf r
    rw [clocks_snoc]
    cases stepped_of_step he with
    | refused => simpa [Event.reading] using ih t call hcall
    | @called index payload d hd =>
      simp only [Event.reading, Option.toList_none, List.append_nil]
      rcases Nat.lt_or_ge t p.calls.length with hlt | hge
      · rw [List.getElem?_append_left hlt] at hcall
        exact ih t call hcall
      · rw [List.getElem?_append_right hge] at hcall
        obtain rfl := List.mem_singleton.mp (List.mem_of_getElem? hcall)
        rw [clocks_none r hge]
        exact ⟨d, hsound.kept ▸ hd, rfl, fun n op now _ _ h => by simp at h⟩
    | @ran t' now call' op ops s hcall' hops hs =>
      by_cases ht : t' = t
      · subst ht
        rw [List.getElem?_set_self (List.getElem?_eq_some_iff.mp hcall').1] at hcall
        obtain rfl := Option.some.inj hcall
        obtain ⟨d, hd, htimed⟩ := ih t' call' hcall'
        obtain ⟨d', done, hfill⟩ := hsound.filled t' call' hcall'
        obtain rfl := Option.some.inj (hfill.payload.symm.trans hd)
        have hop : op ∈ d'.ops := by rw [hfill.ops, hops]; simp
        refine ⟨d', hd, ?_⟩
        simp only [Event.reading, if_true, Option.toList_some]
        exact htimed.next hfill (hf.short d' (List.mem_of_getElem? hd) op hop) hops hs
      · rw [List.getElem?_set_ne ht] at hcall
        simpa [Event.reading, ht] using ih t call hcall

/-! ## Who advances a counter -/

structure Advanced (p : Preparation) : Prop where
  nodup : p.history.Nodup
  by_call : ∀ a ∈ p.history, ∃ call ∈ p.calls[a.call]?, call.index = a.index ∧ a.counter < call.state.currentCounterIdx

theorem fillOp_counterIdx (clock : Nat → Nat) (s : FillState) (op : PacketOperation) :
    (fillOp clock s op).currentCounterIdx = s.currentCounterIdx + if op.type = .COUNTER then 1 else 0 := by
  unfold fillOp
  cases ht : op.type <;> rfl

theorem Advanced.step {e : Event} (h : Advanced p) (hs : Stepped p e q) : Advanced q := by
  cases hs with
  | refused => exact h
  | called =>
    refine ⟨h.nodup, fun a ha => ?_⟩
    obtain ⟨call, hcall, hi⟩ := h.by_call a ha
    exact ⟨call, (List.getElem?_append_left (List.getElem?_eq_some_iff.mp hcall).1).trans hcall, hi⟩
  | @ran t now call op ops s hcall hops hs =>
    have hlt := (List.getElem?_eq_some_iff.mp hcall).1
    have hidx := fillOp_counterIdx (fun _ => now) { call.state with
      payloadCounter := p.manager.counters.getD call.index [] } op
    rw [hs] at hidx
    -- the advances so far are still those of their calls
    have hold : ∀ a ∈ p.history, ∃ call' ∈ (p.calls.set t { call with ops := ops, state := s })[a.call]?,
        call'.index = a.index ∧ a.counter < call'.state.currentCounterIdx := by
      intro a ha
      obtain ⟨call', hcall', hi, hc⟩ := h.by_call a ha
      by_cases ht : t = a.call
      · subst ht
        obtain rfl := Option.some.inj (hcall.symm.trans hcall')
        exact ⟨_, List.getElem?_set_self hlt, hi, by simp only [hidx]; omega⟩
      · exact ⟨call', (List.getElem?_set_ne ht).trans hcall', hi, hc⟩
    unfold advanced
    split
    · rename_i ht
      refine ⟨?_, List.forall_mem_append.mpr ⟨hold, ?_⟩⟩
      · refine List.nodup_append.mpr ⟨h.nodup, List.nodup_singleton _, fun a ha b hb => ?_⟩
        obtain rfl := List.mem_singleton.mp hb
        rintro rfl
        obtain ⟨call', hcall', _, hc⟩ := h.by_call _ ha
        obtain rfl := Option.some.inj (hcall.symm.trans hcall')
        exact Nat.lt_irrefl _ hc
      · intro a ha
        obtain rfl := List.mem_singleton.mp ha
        exact ⟨_, List.getElem?_set_self hlt, rfl, by simp [hidx, ht]⟩
    · exact ⟨h.nodup, hold⟩

theorem advanced_of_run {G : Preparation → Event → Prop}
    (r : Runs.Run Preparation.step G (start payloads steps) es p) : Advanced p :=
  r.invariant (fun _ _ _ h _ he => h.step (stepped_of_step he))
    ⟨List.nodup_nil, fun _ h => absurd h List.not_mem_nil⟩

/-- How often a counter had been advanced when call `t` advanced it. -/
def ticket (history : List Advance) (t index counter : Nat) : Nat :=
  Logs.rank (fun a : Advance => a.index = index ∧ a.counter = counter) history ⟨t, index, counter⟩

theorem ticket_eq (hn : history.Nodup) {k index counter : Nat} (h : history[k]? = some ⟨t, index, counter⟩) :
    ticket history t index counter = advancesOf (history.take k) index counter := Logs.rank_getElem hn h

end Preparation

/-! ## The packet with its numbers -/

open Preparation

def Range.of (r : Range) (bytes : List UInt8) : List UInt8 := (bytes.drop r.start.toNat).take r.second.toNat

/-- The packet with the numbers of the modifications on their bytes, where a
counter goes by the 16-bit step of the plan. `count` is what each counter had been
advanced, `readings` what the clock gave. -/
structure Patched (mods : ModList) (packet : List UInt8) (count : Nat → Nat) (readings : List Nat)
    (bytes : List UInt8) : Prop where
  length : bytes.length = packet.length
  kept : ∀ b, (∀ m ∈ mods.written, ¬ m.Covers b) → bytes[b]? = packet[b]?
  counters : ∀ (c : Nat) (m : CounterModification), mods.counterMods[c]? = some m →
    readNumeric m.littleEndian (m.counterBytes.of bytes) =
      count c * m.counterStep.toUInt16.toNat % 2 ^ (8 * m.counterBytes.second.toNat)
  timestamps : ∀ m ∈ mods.timestampMods, ∃ format now, tsFormatLookup.lookup m.formatName = some format ∧
    now ∈ readings ∧ readNumeric m.littleEndian (m.timestampBytes.of bytes) =
      (format.ofNanoseconds now).toNat % 2 ^ (8 * m.timestampBytes.second.toNat)

/-! ## Copies of a SEND -/

def Modification.timestamp? : Modification → Option TimestampModification
  | .counter _ => none
  | .timestamp m => some m

theorem writtenFrom_timestamps : ∀ (order : List ModificationType) (ts : List TimestampModification)
    (cs : List CounterModification), order.count .Timestamp = ts.length → order.count .Counter = cs.length →
    (writtenFrom order ts cs).filterMap Modification.timestamp? = ts
  | [], ts, _, ht, _ => by
    obtain rfl : ts = [] := List.eq_nil_of_length_eq_zero ht.symm
    simp [writtenFrom]
  | .Timestamp :: order, [], _, ht, _ => by simp at ht
  | .Timestamp :: order, t :: ts, cs, ht, hc => by
    rw [writtenFrom, List.filterMap_cons]
    exact congrArg (t :: ·) (writtenFrom_timestamps order ts cs (by simpa using ht) (by simpa using hc))
  | .Counter :: order, _, [], _, hc => by simp at hc
  | .Counter :: order, ts, c :: cs, ht, hc => by
    rw [writtenFrom_counter, List.filterMap_cons]
    exact writtenFrom_timestamps order ts cs (by simpa using ht) (by simpa using hc)

theorem mem_written_timestamp {mods : ModList} {m : TimestampModification} (h : m ∈ mods.timestampMods) :
    .timestamp m ∈ mods.written := by
  rw [← writtenFrom_timestamps _ _ _ mods.timestamps_counted mods.counters_counted] at h
  obtain ⟨m', hm', heq⟩ := List.mem_filterMap.mp h
  cases m' with
  | counter => cases heq
  | timestamp m' => exact Option.some.inj heq ▸ hm'

variable {env : Env} {script : DSLData} {plan : ExecutionPlan}

structure PlannedCopy (plan : ExecutionPlan) (action : Action) (index : Nat) (payload : PayloadDescriptor) : Prop where
  get : plan.payloads[index]? = some payload
  steps : plan.counterSteps.getD index [] = action.mods.counterMods.map (·.counterStep.toUInt16)
  operations : (modifying payload.ops).map some = action.mods.written.map Modification.op?
  counters : counterOpsOf payload.ops = action.mods.counterMods.map CounterModification.op
  tiles : WrittenInOrder payload.packetData.length action.mods.written → Tiles action.mods payload

theorem exists_plannedCopy {memory : Memory} (h : generatePlanCommon env memory script = .ok plan) {i : Nat}
    {a : Action} (ha : script.orchestrator.actions[i]? = some a) (hs : a.type = .SEND) {copy : Nat}
    (hc : copy < a.count.toNat) :
    ∃ payload, PlannedCopy plan a (copiesBefore script.orchestrator.actions i + copy) payload := by
  obtain ⟨table, hload, hpayloads, hsteps⟩ := generatePlan_copies h
  obtain ⟨table', hload', _, _, hsends, _⟩ := generatePlan_spec h
  obtain rfl := Except.ok.inj (hload.symm.trans hload')
  obtain ⟨⟨payload, counterList⟩, hr⟩ := hsends a (List.mem_of_getElem? ha) hs
  have hlength : ∀ b ∈ script.orchestrator.actions, (copyBlock table b).length = b.copies :=
    fun b hb => copyBlock_length (hsends b hb)
  have hblock : (script.orchestrator.actions.flatMap (copyBlock table))[copiesBefore script.orchestrator.actions i +
      copy]? = some (payload, counterList) := by
    rw [flatMap_getElem? hlength ha (by rwa [Action.copies, if_pos hs]), copyBlock, if_pos hs, hr]
    simp [hc]
  obtain ⟨hops, hbuf⟩ := planSend_spec hr
  have hsize : payload.packetData.length < 2 ^ 64 := by
    rcases hbuf with hbuf | hbuf
    · exact loadPackets_small hload (by simp) _ hbuf
    · rw [hbuf]
      decide
  obtain ⟨hcounters, rfl⟩ := sendOperations_counters hops
  refine ⟨payload, ?_, ?_, sendOperations_op? hsize hops, hcounters, (tiles_iff hsize hops).mpr⟩
  · rw [hpayloads, List.getElem?_map, hblock]
    rfl
  · rw [hsteps, List.getD_eq_getElem?_getD, List.getElem?_map, hblock]
    rfl

/-! ## Bytes of a returned call -/

section
variable {payloads : List PayloadDescriptor} {steps : List (List UInt16)} {history : List Advance} {t : Nat}
  {call : Filling} {d : PayloadDescriptor} {done : List PacketOperation} {index : Nat}

theorem Preparation.Filled.piece (h : Filled payloads steps history t call d done) (hf : Fits payloads steps)
    (htotal : Spans.total opLength d.ops = d.packetData.length) (hret : call.ops = []) {n : Nat} {op : PacketOperation}
    {slice : Slice} (hn : d.ops[n]? = some op) (hs : call.state.packetSlices[n]? = some slice) :
    ((call.bytes d.packetData).drop (Spans.total opLength (d.ops.take n))).take op.length.toNat =
      slice.bytes d.packetData call.state.temps := by
  have hops := h.ops
  rw [hret, List.append_nil] at hops
  subst hops
  have hlengths := h.lengths hf htotal
  have hlen : (slice.bytes d.packetData call.state.temps).length = op.length.toNat := by
    have := congrArg (·[n]?) hlengths
    simpa [hs, hn] using this
  have hpiece := drop_flatMap (fun slice : Slice => slice.bytes d.packetData call.state.temps) hs
  rwa [List.map_take, hlengths, ← List.map_take, hlen] at hpiece

theorem getElem?_of_piece {bytes packet : List UInt8} {o n b : Nat} (h : (bytes.drop o).take n = (packet.drop o).take n)
    (hle : o ≤ b) (hlt : b < o + n) : bytes[b]? = packet[b]? := by
  have hb := congrArg (·[b - o]?) h
  simp only [List.getElem?_take, List.getElem?_drop, Nat.add_sub_cancel' hle] at hb
  rwa [if_pos (by omega), if_pos (by omega)] at hb

/-- Bytes that no modification names are the packet's. -/
theorem Preparation.Returned.kept {mods : ModList} (h : Returned payloads steps history t call d) (ht : Tiles mods d)
    {b : Nat} (hb : ∀ m ∈ mods.written, ¬ m.Covers b) : (call.bytes d.packetData)[b]? = d.packetData[b]? := by
  rcases Nat.lt_or_ge b d.packetData.length with hlt | hge
  · obtain ⟨q, hq, hid, hholds⟩ := (ht.identity b).mpr ⟨hlt, hb⟩
    obtain ⟨n, hn⟩ := List.mem_iff_getElem?.mp hq
    rw [Spans.layout_getElem?] at hn
    obtain ⟨op, hop, rfl⟩ := Option.map_eq_some_iff.mp hn
    replace hid : op.type = .IDENTITY := hid
    have hshown := h.shown n op hop
    simp only [Prepared, hid] at hshown
    obtain ⟨hle, hlt'⟩ := hholds
    exact getElem?_of_piece hshown (by simpa using hle) (by simpa using hlt')
  · rw [List.getElem?_eq_none hge, List.getElem?_eq_none (by rw [h.length]; exact hge)]

section
variable {plan : ExecutionPlan} {action : Action} {p : Preparation} {es : List Preparation.Event}

theorem PlannedCopy.stepOf (h : PlannedCopy plan action index d) {c : Nat} {m : CounterModification}
    (hm : action.mods.counterMods[c]? = some m) : stepOf plan.counterSteps index c = m.counterStep.toUInt16 := by
  rw [Preparation.stepOf, h.steps, List.getD_eq_getElem?_getD, List.getElem?_map, hm]
  rfl

theorem PlannedCopy.returned (h : PlannedCopy plan action index d) (hf : Fits plan.payloads plan.counterSteps)
    (htiles : Tiles action.mods d)
    (r : Runs.Run Preparation.step (fun _ _ => True) (start plan.payloads plan.counterSteps) es p)
    (hcall : p.calls[t]? = some call) (hi : call.index = index) (hret : call.ops = []) :
    Filled plan.payloads plan.counterSteps p.history t call d d.ops ∧
      Returned plan.payloads plan.counterSteps p.history t call d ∧ Timed d (clocks t es) call := by
  obtain ⟨d₁, hd₁, htimed⟩ := timed_of_run hf r t call hcall
  obtain ⟨d₂, done, hfill⟩ := (sound_of_run hf r).filled t call hcall
  obtain rfl := Option.some.inj (hfill.payload.symm.trans hd₁)
  obtain rfl := Option.some.inj (h.get.symm.trans (hi ▸ hd₁))
  have hreturned := hfill.returned hf htiles.total hret
  obtain rfl : d.ops = done := by
    have := hfill.ops
    rwa [hret, List.append_nil] at this
  exact ⟨hfill, hreturned, htimed⟩

/-- A returned call has advanced each counter of its SEND, and shows what it was at. -/
theorem PlannedCopy.counter (h : PlannedCopy plan action index d) (htiles : Tiles action.mods d) (hn : history.Nodup)
    (hreturned : Returned plan.payloads plan.counterSteps history t call d) (hi : call.index = index) {c : Nat}
    {m : CounterModification} (hm : action.mods.counterMods[c]? = some m) :
    ⟨t, index, c⟩ ∈ history ∧ readNumeric m.littleEndian (m.counterBytes.of (call.bytes d.packetData)) =
      ticket history t index c * m.counterStep.toUInt16.toNat % 2 ^ (8 * m.counterBytes.second.toNat) := by
  obtain ⟨n, hop, hcount, hoffset⟩ := htiles.exists_counter h.counters hm
  obtain ⟨k, hk, hread⟩ := hreturned.shown n m.op hop
  rw [hcount, hi] at hk hread
  rw [hoffset, h.stepOf hm, ← ticket_eq hn hk] at hread
  exact ⟨List.mem_of_getElem? hk, hread⟩

theorem PlannedCopy.timestamp (h : PlannedCopy plan action index d) (htiles : Tiles action.mods d)
    (hf : Fits plan.payloads plan.counterSteps)
    (hfill : Filled plan.payloads plan.counterSteps history t call d d.ops) (hret : call.ops = []) {readings : List Nat}
    (htimed : Timed d readings call) {m : TimestampModification} (hm : m ∈ action.mods.timestampMods) :
    ∃ format now, tsFormatLookup.lookup m.formatName = some format ∧ now ∈ readings ∧
      readNumeric m.littleEndian (m.timestampBytes.of (call.bytes d.packetData)) =
        (format.ofNanoseconds now).toNat % 2 ^ (8 * m.timestampBytes.second.toNat) := by
  obtain ⟨n, op, hop, hm', hoffset⟩ := htiles.exists_op h.operations (mem_written_timestamp hm)
  obtain ⟨format, hformat, rfl⟩ := Option.map_eq_some_iff.mp hm'
  have hlt : n < readings.length := by
    rw [← htimed.1, hfill.slices]
    exact (List.getElem?_eq_some_iff.mp hop).1
  obtain ⟨slice, hslice, _, hb⟩ := htimed.2 n _ _ hop rfl (List.getElem?_eq_getElem hlt)
  have hpiece := hfill.piece hf htiles.total hret hop hslice
  rw [hoffset, hb] at hpiece
  have hshort := hf.short d (List.mem_of_getElem? hfill.payload) _ (List.mem_of_getElem? hop) (by simp [makeTimestamp])
  have hread := readNumeric_writeNumeric (format.ofNanoseconds readings[n]) hshort m.littleEndian
  exact ⟨format, readings[n], hformat, List.getElem_mem hlt, (congrArg (readNumeric m.littleEndian) hpiece).trans hread⟩

theorem PlannedCopy.patched (hc : PlannedCopy plan action index d) (hf : Fits plan.payloads plan.counterSteps)
    (hordered : WrittenInOrder d.packetData.length action.mods.written)
    (r : Runs.Run Preparation.step (fun _ _ => True) (start plan.payloads plan.counterSteps) es p)
    (hcall : p.calls[t]? = some call) (hi : call.index = index) (hret : call.ops = []) :
    Patched action.mods d.packetData (ticket p.history t index) (clocks t es) (call.bytes d.packetData) := by
  have htiles := hc.tiles hordered
  have hn := (advanced_of_run r).nodup
  obtain ⟨hfill, hreturned, htimed⟩ := hc.returned hf htiles r hcall hi hret
  exact ⟨hreturned.length, fun b hb => hreturned.kept htiles hb, fun c m hm => (hc.counter htiles hn hreturned hi hm).2,
    fun m hm => hc.timestamp htiles hf hfill hret htimed hm⟩

end

end

/-- In every run on the manager of an accepted script, what a call hands to its
write for a copy whose modifications are written in the order of their bytes is
the packet with the numbers of the SEND, counted by the plan's 16-bit steps, on
their bytes, and nothing else changed. -/
theorem prepares_patched (h : Accepted env script plan) {i : Nat} {action : Action}
    (ha : script.orchestrator.actions[i]? = some action) (hs : action.type = .SEND) {copy : Nat}
    (hcopy : copy < action.count.toNat) :
    ∃ payload, plan.payloads[copiesBefore script.orchestrator.actions i + copy]? = some payload ∧
      (WrittenInOrder payload.packetData.length action.mods.written → ∀ es p,
        Runs.Run Preparation.step (fun _ _ => True) (start plan.payloads plan.counterSteps) es p →
        ∀ t call, p.calls[t]? = some call → call.index = copiesBefore script.orchestrator.actions i + copy →
          call.ops = [] → Patched action.mods payload.packetData (ticket p.history t call.index) (clocks t es)
            (call.bytes payload.packetData)) := by
  obtain ⟨memory, hp⟩ := h.planned
  obtain ⟨payload, hc⟩ := exists_plannedCopy hp ha hs hcopy
  refine ⟨payload, hc.get, fun hordered es p r t call hcall hindex hret => ?_⟩
  rw [hindex]
  exact hc.patched h.fits hordered r hcall hindex hret

/-! ## Two calls at the same time -/

def stampPayload : PayloadDescriptor :=
  ⟨List.replicate 24 0, [makeCounter 8 true, makeIdentity 4, makeTimestamp 8 true .Seconds, makeIdentity 4]⟩

def stampRun : List Preparation.Event :=
  [.fill 0 ⟨[], 0, []⟩, .fill 0 ⟨[], 0, []⟩, .op 1 0, .op 0 0, .op 0 1, .op 0 (5 * 10 ^ 9), .op 1 2, .op 0 3,
    .op 1 (7 * 10 ^ 9 + 1), .op 1 4]

theorem stamp_accepted : interpretText plainEnv .zero (plainText ("CREATE 1 CONNECT 0:1 SEND 0:1 p COPIES 1 "
    ++ "COUNTER 0:8 \"little\":1 TIMESTAMP 12:8 \"little\":\"seconds\"")) = .ok (sendMods sortedMods) := by
  rw [plainText_words, String.toList_append]
  decide +kernel

theorem stamp_runs : ∃ plan p, Accepted plainEnv (sendMods sortedMods) plan ∧ plan.payloads = [stampPayload] ∧
    Runs.Run Preparation.step (fun _ _ => True) (start plan.payloads plan.counterSteps) stampRun p ∧
      p.calls.map (·.index) = [0, 0] ∧ ∀ call ∈ p.calls, call.ops = [] := by
  have h : Orchestrator.planRun (sendMods sortedMods) (fun _ _ _ => True) [] (fun plan _ =>
      plan.payloads = [stampPayload] ∧ plan.counterSteps = [[1]]) = true := by
    decide +kernel
  obtain ⟨plan, _, hp, -, hpayloads, hsteps⟩ := exists_of_planRun h
  obtain ⟨p, hrun⟩ : ∃ p, Runs.Run Preparation.step (fun _ _ => True) (start [stampPayload] [[1]]) stampRun p ∧
      p.calls.map (·.index) = [0, 0] ∧ ∀ call ∈ p.calls, call.ops = [] :=
    ⟨_, Runs.run_of_isSome (by decide +kernel), by decide +kernel⟩
  rw [← hpayloads, ← hsteps] at hrun
  exact ⟨plan, p, ⟨⟨_, _, stamp_accepted⟩, _, hp⟩, hpayloads, hrun⟩

theorem prepares_patched_second : ∃ plan p call, Accepted plainEnv (sendMods sortedMods) plan ∧
    Runs.Run Preparation.step (fun _ _ => True) (start plan.payloads plan.counterSteps) stampRun p ∧
      p.calls[1]? = some call ∧ Patched sortedMods stampPayload.packetData (ticket p.history 1 call.index)
        (clocks 1 stampRun) (call.bytes stampPayload.packetData) := by
  obtain ⟨plan, p, h, hpayloads, r, hindex, hops⟩ := stamp_runs
  have hsecond := congrArg (·[1]?) hindex
  rw [List.getElem?_map] at hsecond
  obtain ⟨call, hcall, hzero⟩ := Option.map_eq_some_iff.mp hsecond
  have ha : (sendMods sortedMods).orchestrator.actions[2]? = some (sendAction 0 1 1 sortedMods) := rfl
  obtain ⟨payload, hget, hpatched⟩ := prepares_patched h ha rfl (show 0 < 1 by decide)
  obtain rfl : stampPayload = payload := by
    rw [hpayloads] at hget
    exact Option.some.inj hget
  exact ⟨plan, p, call, h, r, hcall,
    hpatched (by decide) _ p r 1 call hcall hzero (hops call (List.mem_of_getElem? hcall))⟩

/-! ## The counters of all calls -/

section
variable {α β : Type*}

/-- The entries that meet `q`, by their positions. -/
theorem map_filter_range (q : α → Bool) (f : α → β) (g : Nat → β) : ∀ (l : List α),
    (∀ (t : Nat) (a : α), l[t]? = some a → q a → g t = f a) →
    (l.filter q).map f = ((List.range l.length).filter fun t => l[t]?.any q).map g := by
  intro l
  induction l using List.reverseRecOn with
  | nil => intro _; rfl
  | append_singleton l a ih =>
    intro h
    have hold : ((List.range l.length).filter fun t => (l ++ [a])[t]?.any q) =
        (List.range l.length).filter fun t => l[t]?.any q :=
      List.filter_congr fun t ht => by rw [List.getElem?_append_left (List.mem_range.mp ht)]
    rw [List.filter_append, List.map_append, List.length_append, List.length_singleton, List.range_succ,
      List.filter_append, List.map_append, hold,
      ih fun t b hb => h t b ((List.getElem?_append_left (List.getElem?_eq_some_iff.mp hb).1).trans hb)]
    refine congrArg _ ?_
    have hlast := h l.length a List.getElem?_concat_length
    cases hq : q a with
    | false => simp [hq]
    | true => simp [hq, hlast hq]

theorem countP_range (q : α → Bool) (l : List α) :
    ((List.range l.length).filter fun t => l[t]?.any q).length = l.countP q := by
  have h := congrArg List.length (map_filter_range q (fun _ => ()) (fun _ => ()) l fun _ _ _ _ => rfl)
  rw [List.length_map, List.length_map] at h
  rw [List.countP_eq_length_filter, h]

end

section
variable {action : Action} {index c : Nat} {d : PayloadDescriptor} {p : Preparation}

/-- The advances of a counter are by the calls on its payload, one by each. -/
theorem advances_perm (h : Advanced p) (hcalls : ∀ (t : Nat) (call : Filling), p.calls[t]? = some call →
      call.index = index → ⟨t, index, c⟩ ∈ p.history) :
    ((p.history.filter fun a => a.index = index ∧ a.counter = c).map (·.call)).Perm
      ((List.range p.calls.length).filter fun t => p.calls[t]?.any fun call => call.index = index) := by
  refine (List.perm_ext_iff_of_nodup ?_ (List.nodup_range.filter _)).mpr fun t => ?_
  · refine (h.nodup.filter _).map_on fun a ha b hb hab => ?_
    simp only [List.mem_filter, decide_eq_true_eq] at ha hb
    cases a
    cases b
    simp_all
  · simp only [List.mem_map, List.mem_filter, decide_eq_true_eq, List.mem_range, Option.any_eq_true]
    constructor
    · rintro ⟨a, ⟨ha, rfl, _⟩, rfl⟩
      obtain ⟨call, hcall, hi, _⟩ := h.by_call a ha
      exact ⟨(List.getElem?_eq_some_iff.mp hcall).1, call, hcall, hi⟩
    · rintro ⟨_, call, hcall, hi⟩
      exact ⟨_, ⟨hcalls t call hcall hi, rfl, rfl⟩, rfl⟩

theorem tickets_perm (h : Advanced p) (hcalls : ∀ (t : Nat) (call : Filling), p.calls[t]? = some call →
      call.index = index → ⟨t, index, c⟩ ∈ p.history) :
    (((List.range p.calls.length).filter fun t => p.calls[t]?.any fun call => call.index = index).map
      (ticket p.history · index c)).Perm (List.range (advancesOf p.history index c)) := by
  refine ((advances_perm h hcalls).symm.map _).trans (List.Perm.of_eq ?_)
  rw [List.map_map, advancesOf, ← Logs.map_rank h.nodup]
  refine List.map_congr_left fun a ha => ?_
  obtain ⟨_, rfl, rfl⟩ : a ∈ p.history ∧ a.index = index ∧ a.counter = c := by simpa using ha
  rfl

end

/-- However the calls on a copy interleave, once they have all returned their
payloads carry the multiples `0, 1, 2, ...` of the plan's 16-bit step, each of them
once. -/
theorem counts_once (h : Accepted env script plan) {i : Nat} {action : Action}
    (ha : script.orchestrator.actions[i]? = some action) (hs : action.type = .SEND) {copy : Nat}
    (hcopy : copy < action.count.toNat) {c : Nat} {m : CounterModification}
    (hm : action.mods.counterMods[c]? = some m) :
    ∃ payload, plan.payloads[copiesBefore script.orchestrator.actions i + copy]? = some payload ∧
      (WrittenInOrder payload.packetData.length action.mods.written → ∀ es p,
        Runs.Run Preparation.step (fun _ _ => True) (start plan.payloads plan.counterSteps) es p →
        (∀ call ∈ p.calls, call.index = copiesBefore script.orchestrator.actions i + copy → call.ops = []) →
        ((p.calls.filter (·.index = copiesBefore script.orchestrator.actions i + copy)).map fun call =>
            readNumeric m.littleEndian (m.counterBytes.of (call.bytes payload.packetData))).Perm
          ((List.range (p.calls.countP (·.index = copiesBefore script.orchestrator.actions i + copy))).map fun k =>
            k * m.counterStep.toUInt16.toNat % 2 ^ (8 * m.counterBytes.second.toNat))) := by
  obtain ⟨memory, hp⟩ := h.planned
  obtain ⟨payload, hc⟩ := exists_plannedCopy hp ha hs hcopy
  refine ⟨payload, hc.get, fun hordered es p r hret => ?_⟩
  generalize copiesBefore script.orchestrator.actions i + copy = index at *
  have htiles := hc.tiles hordered
  have hadv := advanced_of_run r
  have hcalls : ∀ (t : Nat) (call : Filling), p.calls[t]? = some call → call.index = index →
      ⟨t, index, c⟩ ∈ p.history ∧ readNumeric m.littleEndian (m.counterBytes.of (call.bytes payload.packetData)) =
        ticket p.history t index c * m.counterStep.toUInt16.toNat % 2 ^ (8 * m.counterBytes.second.toNat) := by
    intro t call hcall hi
    have hops := hret call (List.mem_of_getElem? hcall) hi
    exact hc.counter htiles hadv.nodup (hc.returned h.fits htiles r hcall hi hops).2.1 hi hm
  have hperm := tickets_perm hadv fun t call hcall hi => (hcalls t call hcall hi).1
  have hcount : advancesOf p.history index c = p.calls.countP (·.index = index) := by
    have hlength := hperm.length_eq
    rw [List.length_map, List.length_range] at hlength
    exact hlength.symm.trans (countP_range _ _)
  rw [map_filter_range _ _ (fun t => ticket p.history t index c * m.counterStep.toUInt16.toNat %
      2 ^ (8 * m.counterBytes.second.toNat)) _
    fun t call hcall hi => ((hcalls t call hcall (of_decide_eq_true hi)).2).symm, ← hcount]
  have := hperm.map fun k => k * m.counterStep.toUInt16.toNat % 2 ^ (8 * m.counterBytes.second.toNat)
  rwa [List.map_map] at this

theorem counts_once_both : ∃ plan p, Accepted plainEnv (sendMods sortedMods) plan ∧
    Runs.Run Preparation.step (fun _ _ => True) (start plan.payloads plan.counterSteps) stampRun p ∧
      (p.calls.map fun call => readNumeric true ((Range.mk 0 8).of (call.bytes stampPayload.packetData))).Perm [0, 1] := by
  obtain ⟨plan, p, h, hpayloads, r, hindex, hops⟩ := stamp_runs
  have ha : (sendMods sortedMods).orchestrator.actions[2]? = some (sendAction 0 1 1 sortedMods) := rfl
  have hm : sortedMods.counterMods[0]? = some ⟨⟨0, 8⟩, 1, true⟩ := rfl
  obtain ⟨payload, hget, hcounts⟩ := counts_once h ha rfl (show 0 < 1 by decide) hm
  obtain rfl : stampPayload = payload := by
    rw [hpayloads] at hget
    exact Option.some.inj hget
  have hzero : ∀ call ∈ p.calls, call.index = 0 := by
    intro call hc
    have := List.mem_map_of_mem (f := (·.index)) hc
    rw [hindex] at this
    simpa using this
  have hlength : p.calls.length = 2 := by simpa using congrArg List.length hindex
  have hperm := hcounts (by decide) _ p r fun call hc _ => hops call hc
  refine ⟨plan, p, h, r, ?_⟩
  have hall : p.calls.filter (·.index = 0) = p.calls :=
    List.filter_eq_self.mpr fun call hc => decide_eq_true (hzero call hc)
  have hcount : p.calls.countP (·.index = 0) = 2 := by
    rw [List.countP_eq_length_filter, hall, hlength]
  change ((p.calls.filter (·.index = 0)).map _).Perm ((List.range (p.calls.countP (·.index = 0))).map _) at hperm
  rw [hall, hcount] at hperm
  exact hperm

end Loadshear
