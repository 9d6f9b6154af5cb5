import Loadshear.Plan
import Loadshear.Spans

/-!
# The cut of a packet

`Tiles` is what the operations of a payload owe to the modifications of its
SEND; `tiles_iff` says for which lists of modifications the generator keeps
it. The generator walks the list as written with one running index
(`foldlM_addModification`), so that the operations it makes lie end to end
(`Spans`).
-/

namespace Loadshear

/-! ## Modifications in written order -/

inductive Modification where
  | counter (m : CounterModification)
  | timestamp (m : TimestampModification)
deriving DecidableEq

def Modification.bytes : Modification → Range
  | .counter m => m.counterBytes
  | .timestamp m => m.timestampBytes

def Modification.opType : Modification → PacketOperationType
  | .counter _ => .COUNTER
  | .timestamp _ => .TIMESTAMP

def Modification.span (m : Modification) : Nat × Nat := (m.bytes.start.toNat, m.bytes.second.toNat)

def writtenFrom : List ModificationType → List TimestampModification → List CounterModification →
    List Modification
  | .Timestamp :: order, t :: ts, cs => .timestamp t :: writtenFrom order ts cs
  | .Counter :: order, ts, c :: cs => .counter c :: writtenFrom order ts cs
  | _, _, _ => []

def ModList.written (l : ModList) : List Modification :=
  writtenFrom l.modOrder l.timestampMods l.counterMods

def addMod (st : SendState) : Modification → ParseResult SendState
  | .counter m => .ok (addCounterOp st m)
  | .timestamp m => addTimestampOp st m

theorem writtenFrom_take : ∀ (order : List ModificationType) (ts : List TimestampModification)
    (cs : List CounterModification) (i : Nat), writtenFrom (order.take i) ts cs = (writtenFrom order ts cs).take i
  | [], _, _, _ => by simp [writtenFrom]
  | _ :: _, _, _, 0 => by simp [writtenFrom]
  | .Timestamp :: order, [], cs, i + 1 => by simp [writtenFrom]
  | .Timestamp :: order, t :: ts, cs, i + 1 => by
    simp [writtenFrom, writtenFrom_take order ts cs i]
  | .Counter :: order, ts, [], i + 1 => by simp [writtenFrom]
  | .Counter :: order, ts, c :: cs, i + 1 => by
    simp [writtenFrom, writtenFrom_take order ts cs i]

theorem writtenFrom_length : ∀ (order : List ModificationType) (ts : List TimestampModification)
    (cs : List CounterModification), (writtenFrom order ts cs).length ≤ order.length
  | [], _, _ => by simp [writtenFrom]
  | .Timestamp :: order, [], cs => by simp [writtenFrom]
  | .Timestamp :: order, t :: ts, cs => by simp [writtenFrom, writtenFrom_length order ts cs]
  | .Counter :: order, ts, [] => by simp [writtenFrom]
  | .Counter :: order, ts, c :: cs => by simp [writtenFrom, writtenFrom_length order ts cs]

@[simp] theorem pushPrevious_idx (st : SendState) (start : UInt32) :
    (st.pushPrevious start).tsIdx = st.tsIdx ∧ (st.pushPrevious start).cIdx = st.cIdx := by
  unfold SendState.pushPrevious; simp only; split <;> exact ⟨rfl, rfl⟩

theorem addTimestampOp_idx {st st' : SendState} {m : TimestampModification}
    (h : addTimestampOp st m = .ok st') : st'.tsIdx = st.tsIdx + 1 ∧ st'.cIdx = st.cIdx := by
  unfold addTimestampOp at h
  simp only at h
  split at h
  · cases h
  · simp only [Except.ok.injEq] at h; subst h; simp

theorem addCounterOp_idx (st : SendState) (m : CounterModification) :
    (addCounterOp st m).tsIdx = st.tsIdx ∧ (addCounterOp st m).cIdx = st.cIdx + 1 := by
  simp [addCounterOp]

theorem writtenFrom_counter (order : List ModificationType) (ts : List TimestampModification)
    (c : CounterModification) (cs : List CounterModification) :
    writtenFrom (.Counter :: order) ts (c :: cs) = .counter c :: writtenFrom order ts cs := by
  cases ts <;> rfl

/-- The two running indices walk the lists that `writtenFrom` walks. -/
theorem foldlM_addModification (mods : ModList) : ∀ (order : List ModificationType) (st : SendState),
    order.count .Timestamp ≤ (mods.timestampMods.drop st.tsIdx).length →
    order.count .Counter ≤ (mods.counterMods.drop st.cIdx).length →
    order.foldlM (addModification mods) st =
      (writtenFrom order (mods.timestampMods.drop st.tsIdx) (mods.counterMods.drop st.cIdx)).foldlM addMod st
  | [], st, _, _ => by simp [writtenFrom]
  | .Timestamp :: order, st, ht, hc => by
    have hlt : st.tsIdx < mods.timestampMods.length := by
      simp only [List.count_cons_self, List.length_drop] at ht; omega
    rw [List.drop_eq_getElem_cons hlt, writtenFrom, List.foldlM_cons, List.foldlM_cons]
    simp only [addModification, addMod, List.getD_eq_getElem?_getD, List.getElem?_eq_getElem hlt,
      Option.getD_some]
    cases h : addTimestampOp st mods.timestampMods[st.tsIdx] with
    | error e => rfl
    | ok st' =>
      obtain ⟨hi, hj⟩ := addTimestampOp_idx h
      have ih := foldlM_addModification mods order st'
        (by simp only [List.count_cons_self, List.length_drop, hi] at ht ⊢; omega)
        (by rw [hj]; simpa using hc)
      rw [hi, hj] at ih
      exact ih
  | .Counter :: order, st, ht, hc => by
    have hlt : st.cIdx < mods.counterMods.length := by
      simp only [List.count_cons_self, List.length_drop] at hc; omega
    rw [List.drop_eq_getElem_cons hlt, writtenFrom_counter, List.foldlM_cons, List.foldlM_cons]
    simp only [addModification, addMod, List.getD_eq_getElem?_getD, List.getElem?_eq_getElem hlt,
      Option.getD_some]
    obtain ⟨hi, hj⟩ := addCounterOp_idx st mods.counterMods[st.cIdx]
    have ih := foldlM_addModification mods order (addCounterOp st mods.counterMods[st.cIdx])
      (by rw [hi]; simpa using ht)
      (by simp only [List.count_cons_self, List.length_drop, hj] at hc ⊢; omega)
    rw [hi, hj] at ih
    exact ih

theorem addModifications_take (mods : ModList) (i : Nat) :
    addModifications mods (mods.modOrder.take i) = (mods.written.take i).foldlM addMod {} := by
  unfold addModifications ModList.written
  rw [foldlM_addModification mods (mods.modOrder.take i) {}, ← writtenFrom_take]
  · rfl
  · have := (List.take_sublist i mods.modOrder).count_le ModificationType.Timestamp
    rw [mods.timestamps_counted] at this; simpa using this
  · have := (List.take_sublist i mods.modOrder).count_le ModificationType.Counter
    rw [mods.counters_counted] at this; simpa using this

theorem addModifications_written (mods : ModList) :
    addModifications mods mods.modOrder = mods.written.foldlM addMod {} := by
  have h := addModifications_take mods mods.modOrder.length
  rwa [List.take_length, List.take_of_length_le (l := mods.written) (writtenFrom_length _ _ _)] at h

/-! ## What the operations of a payload owe -/

abbrev opLength (op : PacketOperation) : Nat := op.length.toNat

def isIdentity (op : PacketOperation) : Bool := op.type = .IDENTITY

def dynamicOps (ops : List PacketOperation) : List (PacketOperation × Nat) :=
  Spans.placed opLength isIdentity 0 ops

def Modification.Covers (m : Modification) (b : Nat) : Prop :=
  m.span.1 ≤ b ∧ b < m.span.1 + m.span.2

/-- A payload cuts its packet the way the script asks. -/
structure Tiles (mods : ModList) (payload : PayloadDescriptor) : Prop where
  /-- Each modification's operation has its type and comes to lie on its bytes. -/
  placed : (dynamicOps payload.ops).map (fun p => (p.1.type, p.2, opLength p.1)) =
    mods.written.map fun m => (m.opType, m.span)
  /-- Identities hold exactly the other bytes. -/
  identity : ∀ b, (∃ p ∈ Spans.layout opLength 0 payload.ops, p.1.type = .IDENTITY ∧ Spans.Holds opLength p b) ↔
    b < payload.packetData.length ∧ ∀ m ∈ mods.written, ¬ m.Covers b
  total : Spans.total opLength payload.ops = payload.packetData.length
  /-- `start - data_index` does not wrap, for any modification. -/
  no_wrap : ∀ i m st, mods.written[i]? = some m → addModifications mods (mods.modOrder.take i) = .ok st →
    st.dataIndex ≤ m.bytes.start.toUInt64
  reads_inside : ∀ clock counters o n, .packet o n ∈ (fillOps clock counters payload.ops).packetSlices →
    o + n.toNat ≤ payload.packetData.length

/-- As written, each modification starts where the ones before it have ended
or later, the last ends within the packet, and what follows it has a length of
32 bits. -/
def WrittenInOrder (size : Nat) (written : List Modification) : Prop :=
  Spans.Ordered size 0 (written.map Modification.span) ∧
    size - Spans.lastEnd 0 (written.map Modification.span) < 2 ^ 32

instance (size : Nat) (written : List Modification) : Decidable (WrittenInOrder size written) :=
  inferInstanceAs (Decidable (_ ∧ _))

/-! ## The cut that the generator makes -/

def SendState.Exact (st : SendState) : Prop := st.dataIndex.toNat = Spans.total opLength st.ops

theorem addMod_ops {st st' : SendState} {m : Modification} (h : addMod st m = .ok st') :
    ∃ op, op.type = m.opType ∧ op.length = m.bytes.second ∧
      st'.ops = (st.pushPrevious m.bytes.start).ops ++ [op] ∧
      st'.dataIndex = (st.pushPrevious m.bytes.start).dataIndex + m.bytes.second.toUInt64 := by
  cases m with
  | counter m =>
    simp only [addMod, addCounterOp, Except.ok.injEq] at h
    subst h
    exact ⟨makeCounter m.counterBytes.second m.littleEndian, rfl, rfl, rfl, rfl⟩
  | timestamp m =>
    simp only [addMod, addTimestampOp] at h
    split at h
    · cases h
    · rename_i format _
      simp only [Except.ok.injEq] at h
      subst h
      exact ⟨makeTimestamp m.timestampBytes.second m.littleEndian format, rfl, rfl, rfl, rfl⟩

theorem opType_ne (m : Modification) : m.opType ≠ .IDENTITY := by
  cases m <;> simp [Modification.opType]

theorem isIdentity_false {op : PacketOperation} {m : Modification} (h : op.type = m.opType) :
    isIdentity op = false := by
  simp [isIdentity, h, opType_ne]

/-- The gap before a modification that is not behind the running index. -/
theorem pushPrevious_exact {st : SendState} {start : UInt32} (hx : st.Exact)
    (hle : st.dataIndex.toNat ≤ start.toNat) :
    (st.pushPrevious start).dataIndex.toNat = start.toNat ∧ (st.pushPrevious start).Exact ∧
      dynamicOps (st.pushPrevious start).ops = dynamicOps st.ops := by
  have hs : start.toNat < 2 ^ 32 := start.toNat_lt
  have hsub : (start.toUInt64 - st.dataIndex).toNat = start.toNat - st.dataIndex.toNat := by
    rw [UInt64.toNat_sub_of_le _ _ (by rw [UInt64.le_iff_toNat_le]; simpa using hle)]; simp
  unfold SendState.pushPrevious SendState.Exact
  simp only
  split
  · refine ⟨?_, ?_, ?_⟩
    · simp only [UInt64.toNat_add, hsub]; omega
    · simp only [UInt64.toNat_add, hsub, Spans.total_append, Spans.total_cons, Spans.total_nil, opLength,
        makeIdentity, UInt64.toNat_toUInt32]
      rw [← hx]; omega
    · simp only [dynamicOps]
      rw [Spans.placed_append, Spans.placed_gap _ _ (by rfl), List.append_nil]
  · rename_i h
    rw [UInt64.lt_iff_toNat_lt, hsub] at h
    exact ⟨by simp at h; omega, hx, rfl⟩

theorem addMod_exact {st st' : SendState} {m : Modification} (h : addMod st m = .ok st') (hx : st.Exact)
    (hle : st.dataIndex.toNat ≤ m.span.1) :
    st'.Exact ∧ st'.dataIndex.toNat = m.span.1 + m.span.2 ∧
      (dynamicOps st'.ops).map (fun p => (p.1.type, p.2, opLength p.1)) =
        (dynamicOps st.ops).map (fun p => (p.1.type, p.2, opLength p.1)) ++ [(m.opType, m.span)] := by
  obtain ⟨op, ht, hl, hops, hidx⟩ := addMod_ops h
  obtain ⟨hi, hx', hd⟩ := pushPrevious_exact hx hle
  have h₁ : m.bytes.start.toNat < 2 ^ 32 := m.bytes.start.toNat_lt
  have h₂ : m.bytes.second.toNat < 2 ^ 32 := m.bytes.second.toNat_lt
  have hend : st'.dataIndex.toNat = m.span.1 + m.span.2 := by
    rw [hidx, UInt64.toNat_add, hi]; simp only [UInt32.toNat_toUInt64, Modification.span]; omega
  refine ⟨?_, hend, ?_⟩
  · unfold SendState.Exact at hx' ⊢
    rw [hend, hops, Spans.total_append, ← hx', hi]
    simp [opLength, hl, Modification.span]
  · unfold SendState.Exact at hx'
    rw [hops, dynamicOps, Spans.placed_append, Spans.placed_piece _ _ (isIdentity_false ht), List.map_append]
    rw [← dynamicOps, hd, Nat.zero_add, ← hx', hi]
    simp [ht, hl, opLength, Modification.span]

theorem addMods_exact : ∀ {written : List Modification} {st st' : SendState} {limit : Nat},
    written.foldlM addMod st = .ok st' → st.Exact →
    Spans.Ordered limit st.dataIndex.toNat (written.map Modification.span) →
    st'.Exact ∧ st'.dataIndex.toNat = Spans.lastEnd st.dataIndex.toNat (written.map Modification.span) ∧
      (dynamicOps st'.ops).map (fun p => (p.1.type, p.2, opLength p.1)) =
        (dynamicOps st.ops).map (fun p => (p.1.type, p.2, opLength p.1)) ++
          written.map fun m => (m.opType, m.span)
  | [], st, st', _, h, hx, _ => by
    simp only [List.foldlM_nil, pure, Except.pure, Except.ok.injEq] at h
    subst h
    exact ⟨hx, rfl, by simp⟩
  | m :: written, st, st', limit, h, hx, ho => by
    rw [List.foldlM_cons] at h
    obtain ⟨st₁, h₁, h⟩ := bind_eq_ok h
    obtain ⟨hx₁, hi, hd⟩ := addMod_exact h₁ hx ho.1
    have ho₁ := ho.2
    rw [← hi] at ho₁
    obtain ⟨hx', hi', hd'⟩ := addMods_exact h hx₁ ho₁
    refine ⟨hx', ?_, ?_⟩
    · rw [hi', hi]; rfl
    · rw [hd', hd, List.append_assoc]; rfl

/-- All that follows the cut is one identity, when bytes are left. -/
theorem sendOperations_shape {mods : ModList} {buf : List UInt8} {ops : List PacketOperation}
    {counterList : List UInt16} (hbuf : buf.length < 2 ^ 64)
    (h : sendOperations mods buf = .ok (ops, counterList)) :
    ∃ st, mods.written.foldlM addMod {} = .ok st ∧
      (ops = st.ops ∧ buf.length ≤ st.dataIndex.toNat ∨
        st.dataIndex.toNat ≤ buf.length ∧
          ops = st.ops ++ [makeIdentity (UInt32.ofNat (buf.length - st.dataIndex.toNat))]) := by
  have hsize : (UInt64.ofNat buf.length).toNat = buf.length := UInt64.toNat_ofNat_of_lt' hbuf
  unfold sendOperations at h
  simp only at h
  split at h
  · rename_i hnil
    simp only [Except.ok.injEq, Prod.mk.injEq] at h
    refine ⟨{}, by simp [ModList.written, hnil, writtenFrom, pure, Except.pure], Or.inr ⟨by simp, ?_⟩⟩
    rw [← h.1]
    simp
  · rw [addModifications_written] at h
    obtain ⟨st, hst, h⟩ := bind_eq_ok h
    simp only [pure, Except.pure, Except.ok.injEq, Prod.mk.injEq] at h
    refine ⟨st, hst, ?_⟩
    rw [← h.1]
    unfold SendState.pushRemaining
    split
    · rename_i hlt
      rw [UInt64.lt_iff_toNat_lt, hsize] at hlt
      refine Or.inr ⟨Nat.le_of_lt hlt, ?_⟩
      have hsub : (UInt64.ofNat buf.length - st.dataIndex).toNat = buf.length - st.dataIndex.toNat := by
        rw [UInt64.toNat_sub_of_le _ _ (by rw [UInt64.le_iff_toNat_le, hsize]; omega), hsize]
      have : (UInt64.ofNat buf.length - st.dataIndex).toUInt32 =
          UInt32.ofNat (buf.length - st.dataIndex.toNat) := by
        apply UInt32.toNat_inj.mp
        rw [UInt64.toNat_toUInt32, hsub, UInt32.toNat_ofNat']
      rw [this]
    · rename_i hlt
      rw [UInt64.lt_iff_toNat_lt, hsize] at hlt
      exact Or.inl ⟨rfl, by omega⟩

/-- The slices into the packet are the identities at their offsets. -/
theorem fillOps_packet (clock : Nat → Nat) : ∀ (ops : List PacketOperation) (s : FillState) (o : Nat)
    (n : UInt32), .packet o n ∈ (ops.foldl (fillOp clock) s).packetSlices →
    .packet o n ∈ s.packetSlices ∨
      ∃ p ∈ Spans.layout opLength s.currentOffset ops, p.2 = o ∧ p.1.length = n
  | [], _, _, _, h => Or.inl h
  | op :: ops, s, o, n, h => by
    rw [List.foldl_cons] at h
    have hoff : (fillOp clock s op).currentOffset = s.currentOffset + opLength op := by
      unfold fillOp; split <;> rfl
    have hsl : .packet o n ∈ (fillOp clock s op).packetSlices →
        .packet o n ∈ s.packetSlices ∨ s.currentOffset = o ∧ op.length = n := by
      unfold fillOp
      split
      · simp only [List.mem_append, List.mem_singleton, Slice.packet.injEq]
        rintro (hm | ⟨rfl, rfl⟩)
        · exact Or.inl hm
        · exact Or.inr ⟨rfl, rfl⟩
      · simp only [FillState.pushNumeric, List.mem_append, List.mem_singleton, reduceCtorEq, or_false]
        exact Or.inl
      · simp only [FillState.pushNumeric, List.mem_append, List.mem_singleton, reduceCtorEq, or_false]
        exact Or.inl
    rcases fillOps_packet clock ops _ o n h with hm | ⟨p, hp, rfl, rfl⟩
    · rcases hsl hm with hm | ⟨rfl, rfl⟩
      · exact Or.inl hm
      · exact Or.inr ⟨(op, s.currentOffset), by simp [Spans.layout], rfl, rfl⟩
    · rw [hoff] at hp
      exact Or.inr ⟨p, by simp [Spans.layout, hp], rfl, rfl⟩

theorem covers_iff {mods : ModList} {ops : List PacketOperation} {b : Nat}
    (h : (dynamicOps ops).map (fun p => (p.1.type, p.2, opLength p.1)) =
      mods.written.map fun m => (m.opType, m.span)) :
    (∀ p ∈ dynamicOps ops, ¬ Spans.Holds opLength p b) ↔ ∀ m ∈ mods.written, ¬ m.Covers b := by
  have h₁ : (∀ p ∈ dynamicOps ops, ¬ Spans.Holds opLength p b) ↔
      ∀ r ∈ (dynamicOps ops).map (fun p => (p.1.type, p.2, opLength p.1)), ¬ (r.2.1 ≤ b ∧ b < r.2.1 + r.2.2) := by
    simp only [List.forall_mem_map, Spans.Holds]
  have h₂ : (∀ m ∈ mods.written, ¬ m.Covers b) ↔
      ∀ r ∈ mods.written.map (fun m => (m.opType, m.span)), ¬ (r.2.1 ≤ b ∧ b < r.2.1 + r.2.2) := by
    simp only [List.forall_mem_map, Modification.Covers]
  rw [h₁, h₂, h]

section
variable {mods : ModList} {buf : List UInt8} {ops : List PacketOperation} {counterList : List UInt16}
  (hbuf : buf.length < 2 ^ 64) (h : sendOperations mods buf = .ok (ops, counterList))

include hbuf h in
theorem tiles_of_writtenInOrder (ho : WrittenInOrder buf.length mods.written) : Tiles mods ⟨buf, ops⟩ := by
  obtain ⟨st, hst, htail⟩ := sendOperations_shape hbuf h
  have hx₀ : SendState.Exact {} := rfl
  obtain ⟨hx, hidx, hd⟩ := addMods_exact hst hx₀ ho.1
  have hlast := Spans.lastEnd_le ho.1
  have hlt := ho.2
  change st.dataIndex.toNat = Spans.lastEnd 0 _ at hidx
  rw [← hidx] at hlast hlt
  unfold SendState.Exact at hx
  have htotal : Spans.total opLength ops = buf.length := by
    rcases htail with ⟨rfl, hge⟩ | ⟨_, rfl⟩
    · omega
    · rw [Spans.total_append, ← hx]
      simp only [Spans.total_cons, Spans.total_nil, opLength, makeIdentity]
      rw [UInt32.toNat_ofNat_of_lt' (by simpa using hlt)]
      omega
  have hplaced : (dynamicOps ops).map (fun p => (p.1.type, p.2, opLength p.1)) =
      mods.written.map fun m => (m.opType, m.span) := by
    have hst' : dynamicOps ops = dynamicOps st.ops := by
      rcases htail with ⟨rfl, _⟩ | ⟨_, rfl⟩
      · rfl
      · rw [dynamicOps, Spans.placed_append, Spans.placed_gap _ _ rfl, List.append_nil, dynamicOps]
    rw [hst', hd]; rfl
  refine ⟨hplaced, fun b => ?_, htotal, fun i m sti hm hsti => ?_, fun clock counters o n hs => ?_⟩
  · have hgap := Spans.gap_iff opLength isIdentity 0 b ops
    rw [Nat.zero_add, htotal] at hgap
    simp only [isIdentity, decide_eq_true_eq] at hgap
    rw [hgap]
    exact ⟨fun ⟨_, h₁, h₂⟩ => ⟨h₁, (covers_iff hplaced).mp h₂⟩,
      fun ⟨h₁, h₂⟩ => ⟨Nat.zero_le _, h₁, (covers_iff hplaced).mpr h₂⟩⟩
  · -- The part of the list before `m` is in order as well.
    rw [addModifications_take] at hsti
    have hsplit : mods.written = mods.written.take i ++ m :: mods.written.drop (i + 1) := by
      obtain ⟨hi, rfl⟩ := List.getElem?_eq_some_iff.mp hm
      rw [List.getElem_cons_drop, List.take_append_drop]
    have ho' := ho.1
    rw [hsplit, List.map_append, List.map_cons] at ho'
    have hm' := (Spans.ordered_append ho').1
    obtain ⟨_, hidx', _⟩ := addMods_exact hsti hx₀ (Spans.ordered_left ho')
    rw [UInt64.le_iff_toNat_le, hidx']
    simpa [Modification.span] using hm'
  · rcases fillOps_packet clock ops _ o n hs with hm | ⟨p, hp, rfl, rfl⟩
    · cases hm
    · have := (Spans.layout_bounds opLength hp).2
      rw [htotal] at this
      simpa using this

theorem ops_end_dynamic {written : List Modification} {st : SendState}
    (h : written.foldlM addMod {} = .ok st) :
    Spans.lastEnd 0 ((dynamicOps st.ops).map fun p => (p.2, opLength p.1)) = Spans.total opLength st.ops := by
  rcases List.eq_nil_or_concat written with rfl | ⟨init, m, rfl⟩
  · simp only [List.foldlM_nil, pure, Except.pure, Except.ok.injEq] at h
    subst h
    rfl
  · rw [List.concat_eq_append, List.foldlM_append] at h
    obtain ⟨st₁, _, h⟩ := bind_eq_ok h
    obtain ⟨st₂, h₂, h⟩ := bind_eq_ok h
    simp only [List.foldlM_nil, pure, Except.pure, Except.ok.injEq] at h
    subst h
    obtain ⟨op, ht, _, hops, _⟩ := addMod_ops h₂
    rw [hops, dynamicOps, Spans.lastEnd_placed opLength isIdentity (isIdentity_false ht), Nat.zero_add]

include hbuf h in
theorem writtenInOrder_of_tiles (ht : Tiles mods ⟨buf, ops⟩) : WrittenInOrder buf.length mods.written := by
  obtain ⟨st, hst, htail⟩ := sendOperations_shape hbuf h
  have hspan : (dynamicOps ops).map (fun p => (p.2, opLength p.1)) = mods.written.map Modification.span := by
    have := congrArg (List.map Prod.snd) ht.placed
    simpa [List.map_map, Function.comp_def] using this
  have htotal := ht.total
  simp only at htotal
  refine ⟨?_, ?_⟩
  · have := Spans.placed_ordered opLength isIdentity ops 0
    rw [Nat.zero_add, htotal] at this
    rwa [← dynamicOps, hspan] at this
  · rw [← hspan, ← htotal]
    have hend := ops_end_dynamic hst
    rcases htail with ⟨rfl, _⟩ | ⟨_, rfl⟩
    · rw [hend]; omega
    · have hd : dynamicOps (st.ops ++ [makeIdentity (UInt32.ofNat (buf.length - st.dataIndex.toNat))]) =
          dynamicOps st.ops := by
        rw [dynamicOps, Spans.placed_append, Spans.placed_gap _ _ rfl, List.append_nil, dynamicOps]
      rw [hd, hend, Spans.total_append, Spans.total_cons, Spans.total_nil]
      have := (makeIdentity (UInt32.ofNat (buf.length - st.dataIndex.toNat))).length.toNat_lt
      simp only [opLength]
      omega

include hbuf h in
theorem tiles_iff : Tiles mods ⟨buf, ops⟩ ↔ WrittenInOrder buf.length mods.written :=
  ⟨writtenInOrder_of_tiles hbuf h, tiles_of_writtenInOrder hbuf h⟩

end

end Loadshear
