import Loadshear.Filling
import Loadshear.NumericSound
import Loadshear.Runs
import Loadshear.TilingSound
import Mathlib.Data.List.GetD

/-!
# What prepared payloads show

Each slice of a call shows the bytes that its operation stands for, whatever
other calls run in between. The value in a counter's bytes is what the advances
before it, of any call, have added up to.
-/

namespace Loadshear

/-! ## Slices -/

def Slice.bytes (packet temps : List UInt8) : Slice → List UInt8
  | .packet offset length => (packet.drop offset).take length.toNat
  | .temps offset length => (temps.drop offset).take length.toNat

def Slice.Inside (size : Nat) (temps : List UInt8) : Slice → Prop
  | .packet offset length => offset + length.toNat ≤ size
  | .temps offset length => offset + length.toNat ≤ temps.length

theorem Slice.Inside.append {size : Nat} {temps : List UInt8} {slice : Slice} (h : slice.Inside size temps)
    (packet more : List UInt8) :
    slice.Inside size (temps ++ more) ∧ slice.bytes packet (temps ++ more) = slice.bytes packet temps := by
  cases slice with
  | packet => exact ⟨h, rfl⟩
  | temps offset length =>
    have h : offset + length.toNat ≤ temps.length := h
    refine ⟨?_, ?_⟩
    · unfold Slice.Inside
      rw [List.length_append]
      omega
    · simp only [Slice.bytes]
      rw [List.drop_append_of_le_length (by omega), List.take_append_of_le_length (by rw [List.length_drop]; omega)]

def Filling.bytes (packet : List UInt8) (call : Filling) : List UInt8 :=
  call.state.packetSlices.flatMap (·.bytes packet call.state.temps)

namespace Preparation

/-! ## Counters and the advances of them -/

def counterOps (ops : List PacketOperation) : Nat := ops.countP (·.type = .COUNTER)

/-- How often a counter of a payload was advanced. -/
def advancesOf (history : List Advance) (index counter : Nat) : Nat :=
  history.countP fun a => a.index = index ∧ a.counter = counter

def stepOf (steps : List (List UInt16)) (index counter : Nat) : UInt16 := (steps.getD index []).getD counter 0

def counterAt (steps : List (List UInt16)) (history : List Advance) (index counter : Nat) : PayloadCounter :=
  ⟨UInt64.ofNat (advancesOf history index counter * (stepOf steps index counter).toNat), stepOf steps index counter⟩

def countersAt (payloads : List PayloadDescriptor) (steps : List (List UInt16)) (history : List Advance) :
    List (List PayloadCounter) :=
  (List.range payloads.length).map fun index =>
    (List.range (steps.getD index []).length).map (counterAt steps history index)

theorem set_map_range {α : Type*} (f g : Nat → α) {n i : Nat} (h : ∀ j, j ≠ i → g j = f j) :
    ((List.range n).map f).set i (g i) = (List.range n).map g := by
  apply List.ext_getElem (by simp)
  intro j h₁ h₂
  rw [List.getElem_set]
  split
  · subst i
    simp
  · rename_i hne
    simp [h j (Ne.symm hne)]

variable {payloads : List PayloadDescriptor} {steps : List (List UInt16)}

theorem make_counters : (PayloadManager.make payloads steps).counters = countersAt payloads steps [] := by
  apply List.map_congr_left
  intro index _
  apply List.ext_getElem (by simp)
  intro c h₁ h₂
  have hc : c < (steps.getD index []).length := by simpa using h₁
  simp only [List.getElem_map, List.getElem_range, counterAt, advancesOf, List.countP_nil, Nat.zero_mul, stepOf]
  rw [List.getD_eq_getElem _ _ hc]
  rfl

theorem countersAt_getD {history : List Advance} {index : Nat} (h : index < payloads.length) :
    (countersAt payloads steps history).getD index [] =
      (List.range (steps.getD index []).length).map (counterAt steps history index) := by
  rw [countersAt, List.getD_eq_getElem _ _ (by simpa using h)]
  simp

theorem counterAt_snoc {history : List Advance} {a : Advance} {index counter : Nat} :
    counterAt steps (history ++ [a]) index counter =
      if a.index = index ∧ a.counter = counter then
        ⟨(counterAt steps history index counter).counter + (stepOf steps index counter).toUInt64,
          stepOf steps index counter⟩
      else counterAt steps history index counter := by
  unfold counterAt advancesOf
  rw [List.countP_append]
  split
  · rename_i h
    simp only [List.countP_singleton, h, and_self, decide_true, if_true, PayloadCounter.mk.injEq, and_true]
    rw [Nat.succ_mul, UInt64.ofNat_add]
    exact congrArg _ (by simp)
  · rename_i h
    simp [h]

/-- A `fetch_add` on one counter leaves the others, of this payload and of all
others. -/
theorem countersAt_snoc {history : List Advance} {a : Advance} (hi : a.index < payloads.length) :
    (countersAt payloads steps history).set a.index
        (((countersAt payloads steps history).getD a.index []).set a.counter
          ⟨(counterAt steps history a.index a.counter).counter + (stepOf steps a.index a.counter).toUInt64,
            stepOf steps a.index a.counter⟩) =
      countersAt payloads steps (history ++ [a]) := by
  have hrow : ((countersAt payloads steps history).getD a.index []).set a.counter
      (counterAt steps (history ++ [a]) a.index a.counter) =
        (List.range (steps.getD a.index []).length).map (counterAt steps (history ++ [a]) a.index) := by
    rw [countersAt_getD hi]
    apply set_map_range _ _
    intro c hc
    rw [counterAt_snoc, if_neg fun h => hc h.2.symm]
  rw [counterAt_snoc, if_pos ⟨rfl, rfl⟩] at hrow
  rw [hrow, countersAt]
  refine set_map_range _ (fun index =>
    (List.range (steps.getD index []).length).map (counterAt steps (history ++ [a]) index)) fun index hne => ?_
  apply List.map_congr_left
  intro c _
  rw [counterAt_snoc, if_neg fun h => hne h.1.symm]

/-! ## What a slice shows -/

def Shows (packet : List UInt8) (steps : List (List UInt16)) (history : List Advance) (t index : Nat)
    (before : List PacketOperation) (op : PacketOperation) (bytes : List UInt8) : Prop :=
  match op.type with
  | .IDENTITY => bytes = (packet.drop (Spans.total opLength before)).take op.length.toNat
  | .COUNTER => ∃ k, history[k]? = some ⟨t, index, counterOps before⟩ ∧
    bytes = writeNumeric (counterAt steps (history.take k) index (counterOps before)).counter op.length op.littleEndian
  | .TIMESTAMP => ∃ ns, bytes = writeNumeric (op.timeFormat.ofNanoseconds ns) op.length op.littleEndian

variable {packet : List UInt8} {history : List Advance} {t index : Nat} {before : List PacketOperation}
  {op : PacketOperation} {bytes : List UInt8}

theorem Shows.snoc (h : Shows packet steps history t index before op bytes) (more : List Advance) :
    Shows packet steps (history ++ more) t index before op bytes := by
  unfold Shows at h ⊢
  split at h
  · exact h
  · obtain ⟨k, hk, hb⟩ := h
    have hlt := (List.getElem?_eq_some_iff.mp hk).1
    refine ⟨k, ?_, ?_⟩
    · rw [List.getElem?_append_left hlt, hk]
    · rw [List.take_append_of_le_length (Nat.le_of_lt hlt), hb]
  · exact h

structure Filled (payloads : List PayloadDescriptor) (steps : List (List UInt16)) (history : List Advance) (t : Nat)
    (call : Filling) (d : PayloadDescriptor) (done : List PacketOperation) : Prop where
  payload : payloads[call.index]? = some d
  ops : d.ops = done ++ call.ops
  offset : call.state.currentOffset = Spans.total opLength done
  counter : call.state.currentCounterIdx = counterOps done
  temps : call.state.temps.length = totalTempBytes done
  slices : call.state.packetSlices.length = done.length
  shown : ∀ n op, done[n]? = some op → ∃ slice ∈ call.state.packetSlices[n]?,
    slice.Inside (Spans.total opLength d.ops) call.state.temps ∧
      Shows d.packetData steps history t call.index (done.take n) op (slice.bytes d.packetData call.state.temps)
  reserved : totalTempBytes d.ops ≤ call.capacity

structure Fits (payloads : List PayloadDescriptor) (steps : List (List UInt16)) : Prop where
  short : ∀ d ∈ payloads, ∀ op ∈ d.ops, op.type ≠ .IDENTITY → op.length.toNat ≤ 8
  steps : ∀ index d, payloads[index]? = some d → counterOps d.ops ≤ (steps.getD index []).length

theorem Filled.snoc {call : Filling} {d : PayloadDescriptor} {done : List PacketOperation}
    (h : Filled payloads steps history t call d done) (more : List Advance) :
    Filled payloads steps (history ++ more) t call d done :=
  { h with shown := fun n op hn =>
      let ⟨slice, hs, hi, hb⟩ := h.shown n op hn
      ⟨slice, hs, hi, hb.snoc more⟩ }

theorem totalTempBytes_snoc (done : List PacketOperation) (op : PacketOperation) :
    totalTempBytes (done ++ [op]) = totalTempBytes done + if op.type = .IDENTITY then 0 else op.length.toNat := by
  unfold totalTempBytes
  by_cases h : op.type = .IDENTITY <;> simp [h]

theorem counterOps_snoc (done : List PacketOperation) (op : PacketOperation) :
    counterOps (done ++ [op]) = counterOps done + if op.type = .COUNTER then 1 else 0 := by
  unfold counterOps
  by_cases h : op.type = .COUNTER <;> simp [h]

/-- An operation that appends one slice, and bytes for it where it is a number. -/
theorem Filled.next {call : Filling} {d : PayloadDescriptor} {done ops : List PacketOperation}
    (h : Filled payloads steps history t call d done) (hops : call.ops = op :: ops) {s : FillState}
    {more : List UInt8} {slice : Slice} (hoffset : s.currentOffset = call.state.currentOffset + op.length.toNat)
    (hcounter : s.currentCounterIdx = call.state.currentCounterIdx + if op.type = .COUNTER then 1 else 0)
    (htemps : s.temps = call.state.temps ++ more) (hslices : s.packetSlices = call.state.packetSlices ++ [slice])
    (hmore : more.length = if op.type = .IDENTITY then 0 else op.length.toNat)
    (hinside : slice.Inside (Spans.total opLength d.ops) s.temps)
    (hshows : Shows d.packetData steps history t call.index done op (slice.bytes d.packetData s.temps)) :
    Filled payloads steps history t { call with ops := ops, state := s } d (done ++ [op]) where
  payload := h.payload
  ops := by rw [h.ops, hops, List.append_assoc]; rfl
  offset := by rw [hoffset, h.offset, Spans.total_append]; simp
  counter := by rw [hcounter, h.counter, counterOps_snoc]
  temps := by rw [htemps, List.length_append, h.temps, hmore, totalTempBytes_snoc]
  slices := by rw [hslices, List.length_append, h.slices, List.length_append]; rfl
  shown := fun n op' hn => by
    rw [hslices]
    rcases Nat.lt_or_ge n done.length with hlt | hge
    · rw [List.getElem?_append_left hlt] at hn
      obtain ⟨old, hold, hin, hb⟩ := h.shown n op' hn
      obtain ⟨hin', hbytes⟩ := hin.append d.packetData more
      rw [List.getElem?_append_left (h.slices ▸ hlt), List.take_append_of_le_length (Nat.le_of_lt hlt), htemps]
      exact ⟨old, hold, hin', hbytes.symm ▸ hb⟩
    · obtain rfl : n = done.length := by
        have := (List.getElem?_eq_some_iff.mp hn).1
        rw [List.length_append, List.length_singleton] at this
        omega
      rw [List.getElem?_concat_length] at hn
      obtain rfl := Option.some.inj hn
      rw [← h.slices, List.getElem?_concat_length, h.slices, List.take_left]
      exact ⟨slice, rfl, hinside, hshows⟩
  reserved := h.reserved

theorem set_getD_self {α : Type*} (l : List (List α)) (i : Nat) : l.set i (l.getD i []) = l := by
  apply List.ext_getElem (by simp)
  intro j h₁ h₂
  rw [List.getElem_set]
  split
  · subst i
    rw [List.getD_eq_getElem _ _ h₂]
  · rfl

theorem Filled.inside {call : Filling} {d : PayloadDescriptor} {done ops : List PacketOperation}
    (h : Filled payloads steps history t call d done) (hops : call.ops = op :: ops) :
    call.state.currentOffset + op.length.toNat ≤ Spans.total opLength d.ops := by
  rw [h.ops, hops, h.offset, Spans.total_append, Spans.total_cons, opLength]
  omega

def advanced (history : List Advance) (t : Nat) (call : Filling) (op : PacketOperation) : List Advance :=
  if op.type = .COUNTER then history ++ [⟨t, call.index, call.state.currentCounterIdx⟩] else history

theorem advanced_append (history : List Advance) (t : Nat) (call : Filling) (op : PacketOperation) :
    ∃ more, advanced history t call op = history ++ more := by
  unfold advanced
  split
  · exact ⟨_, rfl⟩
  · exact ⟨[], by simp⟩

theorem Filled.runOp {call : Filling} {d : PayloadDescriptor} {done ops : List PacketOperation}
    (h : Filled payloads steps history t call d done) (hf : Fits payloads steps) (hops : call.ops = op :: ops)
    {s : FillState} {now : Nat} (hs : fillOp (fun _ => now) { call.state with
      payloadCounter := (countersAt payloads steps history).getD call.index [] } op = s) :
    Filled payloads steps (advanced history t call op) t { call with ops := ops, state := s } d (done ++ [op]) ∧
      (countersAt payloads steps history).set call.index s.payloadCounter =
        countersAt payloads steps (advanced history t call op) := by
  have hd := List.mem_of_getElem? h.payload
  have hop : op ∈ d.ops := by rw [h.ops, hops]; simp
  have hlen (hne : op.type ≠ .IDENTITY) (v : UInt64) := writeNumeric_length v (hf.short d hd op hop hne) op.littleEndian
  have hkept := set_getD_self (countersAt payloads steps history) call.index
  subst hs
  unfold fillOp advanced
  cases ht : op.type with
  | IDENTITY =>
    refine ⟨h.next hops rfl (by simp [ht]) (List.append_nil _).symm rfl (by simp [ht])
      (h.inside hops) ?_, hkept⟩
    simp [Shows, ht, Slice.bytes, h.offset]
  | COUNTER =>
    have hindex : call.index < payloads.length := (List.getElem?_eq_some_iff.mp h.payload).1
    have hlt : call.state.currentCounterIdx < (steps.getD call.index []).length := by
      have := hf.steps call.index d h.payload
      rw [h.ops, hops, counterOps, List.countP_append, List.countP_cons] at this
      rw [h.counter]
      simp only [ht, decide_true, if_true] at this
      unfold counterOps
      omega
    have hcounter : ((countersAt payloads steps history).getD call.index []).getD call.state.currentCounterIdx ⟨0, 0⟩ =
        counterAt steps history call.index call.state.currentCounterIdx := by
      rw [countersAt_getD hindex, List.getD_eq_getElem _ _ (by simpa using hlt)]
      simp
    simp only [FillState.pushNumeric, hcounter, if_true]
    refine ⟨(h.snoc _).next hops rfl (by simp [ht]) rfl rfl (by simp [ht, hlen]) ?_ ?_,
      countersAt_snoc (a := ⟨t, call.index, call.state.currentCounterIdx⟩) hindex⟩
    · simp [Slice.Inside, hlen, ht]
    · simp only [Shows, ht]
      refine ⟨history.length, ?_, ?_⟩
      · rw [List.getElem?_concat_length, h.counter]
      · rw [List.take_left, Slice.bytes, List.drop_left, List.take_of_length_le (by simp [hlen, ht]), h.counter]
  | TIMESTAMP =>
    simp only [FillState.pushNumeric]
    refine ⟨h.next hops rfl (by simp [ht]) rfl rfl (by simp [ht, hlen]) ?_ ?_, hkept⟩
    · simp [Slice.Inside, hlen, ht]
    · simp only [Shows, ht]
      exact ⟨now, by rw [Slice.bytes, List.drop_left, List.take_of_length_le (by simp [hlen, ht])]⟩

/-! ## Runs -/

structure Sound (payloads : List PayloadDescriptor) (steps : List (List UInt16)) (p : Preparation) : Prop where
  kept : p.manager.payloads = payloads
  counters : p.manager.counters = countersAt payloads steps p.history
  filled : ∀ (t : Nat) (call : Filling), p.calls[t]? = some call →
    ∃ d done, Filled payloads steps p.history t call d done

theorem sound_start : Sound payloads steps (start payloads steps) :=
  ⟨rfl, make_counters, fun t call h => by simp [start] at h⟩

theorem filled_first {d : PayloadDescriptor} (h : payloads[index]? = some d) (capacity : Nat) :
    Filled payloads steps history t ⟨index, d.ops, ⟨0, 0, [], [], []⟩, max capacity (totalTempBytes d.ops)⟩ d [] where
  payload := h
  ops := rfl
  offset := rfl
  counter := rfl
  temps := rfl
  slices := rfl
  shown := fun n op hn => by simp at hn
  reserved := Nat.le_max_right _ _

variable {p q : Preparation}

inductive Stepped (p : Preparation) : Event → Preparation → Prop
  | refused {index : Nat} {payload : PreparedPayload} (h : p.manager.payloads[index]? = none) :
    Stepped p (.fill index payload) p
  | called {index : Nat} {payload : PreparedPayload} {d : PayloadDescriptor} (h : p.manager.payloads[index]? = some d) :
    Stepped p (.fill index payload) { p with calls := p.calls ++ [⟨index, d.ops, ⟨0, 0, [], [], []⟩,
      max payload.tempsCapacity (totalTempBytes d.ops)⟩] }
  | ran {t now : Nat} {call : Filling} {op : PacketOperation} {ops : List PacketOperation} {s : FillState}
      (h : p.calls[t]? = some call) (hops : call.ops = op :: ops)
      (hs : fillOp (fun _ => now) { call.state with
        payloadCounter := p.manager.counters.getD call.index [] } op = s) :
    Stepped p (.op t now) {
      manager := { p.manager with counters := p.manager.counters.set call.index s.payloadCounter }
      calls := p.calls.set t { call with ops := ops, state := s }
      history := advanced p.history t call op }

theorem stepped_of_step {e : Event} (h : p.step e = some q) : Stepped p e q := by
  cases e with
  | fill index payload =>
    obtain rfl := Option.some.inj h
    unfold fill
    split
    · rename_i hd
      exact .refused hd
    · rename_i d hd
      exact .called hd
  | op t now =>
    obtain ⟨call, hcall, h⟩ := Option.bind_eq_some_iff.mp h
    split at h
    · cases h
    · rename_i op ops hops
      obtain rfl := Option.some.inj h
      exact .ran hcall hops rfl

theorem Sound.step {e : Event} (h : Sound payloads steps p) (hf : Fits payloads steps) (hs : Stepped p e q) :
    Sound payloads steps q := by
  cases hs with
  | refused => exact h
  | @called index payload d hd =>
    refine ⟨h.kept, h.counters, fun t call hcall => ?_⟩
    rcases Nat.lt_or_ge t p.calls.length with hlt | hge
    · rw [List.getElem?_append_left hlt] at hcall
      exact h.filled t call hcall
    · rw [List.getElem?_append_right hge] at hcall
      obtain rfl := List.mem_singleton.mp (List.mem_of_getElem? hcall)
      exact ⟨d, [], filled_first (h.kept ▸ hd) _⟩
  | @ran t now call op ops s hcall hops hs =>
    obtain ⟨d, done, hfill⟩ := h.filled t call hcall
    rw [h.counters] at hs
    obtain ⟨hnew, hcounters⟩ := hfill.runOp hf hops hs
    refine ⟨h.kept, by rw [h.counters]; exact hcounters, fun t' call' hcall' => ?_⟩
    by_cases ht : t = t'
    · subst ht
      rw [List.getElem?_set_self (List.getElem?_eq_some_iff.mp hcall).1] at hcall'
      obtain rfl := Option.some.inj hcall'
      exact ⟨d, done ++ [op], hnew⟩
    · rw [List.getElem?_set_ne ht] at hcall'
      obtain ⟨d', done', hfill'⟩ := h.filled t' call' hcall'
      obtain ⟨more, hmore⟩ := advanced_append p.history t call op
      exact ⟨d', done', hmore ▸ hfill'.snoc more⟩

theorem sound_of_run (hf : Fits payloads steps) {G : Preparation → Event → Prop} {es : List Event}
    (r : Runs.Run step G (start payloads steps) es p) : Sound payloads steps p :=
  r.invariant (fun _ _ _ h _ he => h.step hf (stepped_of_step he)) sound_start

/-! ## A call that has returned -/

theorem drop_flatMap {α β : Type*} (f : α → List β) {l : List α} {n : Nat} {a : α} (h : l[n]? = some a) :
    ((l.flatMap f).drop (((l.take n).map fun a => (f a).length).sum)).take (f a).length = f a := by
  obtain ⟨hn, rfl⟩ := List.getElem?_eq_some_iff.mp h
  have hl : l.flatMap f = (l.take n).flatMap f ++ (f l[n] ++ (l.drop (n + 1)).flatMap f) := by
    rw [← List.flatMap_cons, ← List.drop_eq_getElem_cons hn, ← List.flatMap_append, List.take_append_drop]
  rw [hl, List.drop_left' (List.length_flatMap ..), List.take_left' rfl]

theorem Shows.length {d : PayloadDescriptor} (hf : Fits payloads steps) (hd : d ∈ payloads)
    (htotal : Spans.total opLength d.ops = d.packetData.length) {after : List PacketOperation}
    (hops : d.ops = before ++ op :: after) (h : Shows d.packetData steps history t index before op bytes) :
    bytes.length = op.length.toNat := by
  have hop : op ∈ d.ops := by rw [hops]; simp
  have hlen (hne : op.type ≠ .IDENTITY) (v : UInt64) := writeNumeric_length v (hf.short d hd op hop hne) op.littleEndian
  unfold Shows at h
  cases ht : op.type with
  | IDENTITY =>
    rw [hops, Spans.total_append, Spans.total_cons] at htotal
    simp only [ht] at h
    rw [h, List.length_take, List.length_drop]
    have : opLength op = op.length.toNat := rfl
    omega
  | COUNTER =>
    simp only [ht] at h
    obtain ⟨_, _, rfl⟩ := h
    exact hlen (by simp [ht]) _
  | TIMESTAMP =>
    simp only [ht] at h
    obtain ⟨_, rfl⟩ := h
    exact hlen (by simp [ht]) _

theorem Filled.lengths {call : Filling} {d : PayloadDescriptor} {done : List PacketOperation}
    (h : Filled payloads steps history t call d done) (hf : Fits payloads steps)
    (htotal : Spans.total opLength d.ops = d.packetData.length) :
    call.state.packetSlices.map (fun slice => (slice.bytes d.packetData call.state.temps).length) =
      done.map opLength := by
  apply List.ext_getElem?
  intro n
  rw [List.getElem?_map, List.getElem?_map]
  cases hn : done[n]? with
  | none =>
    rw [List.getElem?_eq_none (by rw [h.slices]; exact List.getElem?_eq_none_iff.mp hn)]
    rfl
  | some op =>
    obtain ⟨slice, hs, _, hb⟩ := h.shown n op hn
    obtain ⟨hlt, rfl⟩ := List.getElem?_eq_some_iff.mp hn
    rw [Option.mem_def.mp hs]
    have hops : d.ops = done.take n ++ done[n] :: (done.drop (n + 1) ++ call.ops) := by
      rw [h.ops, ← List.cons_append, ← List.drop_eq_getElem_cons hlt, ← List.append_assoc, List.take_append_drop]
    exact congrArg some (hb.length hf (List.mem_of_getElem? h.payload) htotal hops)

/-- What an operation's bytes say, by its kind: the packet's own, what earlier
advances of the counter add up to, or a time. -/
def Prepared (d : PayloadDescriptor) (steps : List (List UInt16)) (history : List Advance) (t index n : Nat)
    (op : PacketOperation) (bytes : List UInt8) : Prop :=
  match op.type with
  | .IDENTITY => bytes = (d.packetData.drop (Spans.total opLength (d.ops.take n))).take op.length.toNat
  | .COUNTER => ∃ k, history[k]? = some ⟨t, index, counterOps (d.ops.take n)⟩ ∧
    readNumeric op.littleEndian bytes =
      advancesOf (history.take k) index (counterOps (d.ops.take n)) *
        (stepOf steps index (counterOps (d.ops.take n))).toNat % 2 ^ (8 * op.length.toNat)
  | .TIMESTAMP => ∃ ns, readNumeric op.littleEndian bytes =
      (op.timeFormat.ofNanoseconds ns).toNat % 2 ^ (8 * op.length.toNat)

theorem Shows.prepared {d : PayloadDescriptor} (hf : Fits payloads steps) (hd : d ∈ payloads) {n : Nat}
    (hn : d.ops[n]? = some op) (h : Shows d.packetData steps history t index (d.ops.take n) op bytes) :
    Prepared d steps history t index n op bytes := by
  have hshort := hf.short d hd op (List.mem_of_getElem? hn)
  unfold Shows at h
  unfold Prepared
  cases ht : op.type with
  | IDENTITY => simpa only [ht] using h
  | COUNTER =>
    simp only [ht] at h
    obtain ⟨k, hk, rfl⟩ := h
    have hlen := hshort (by simp [ht])
    refine ⟨k, hk, ?_⟩
    rw [readNumeric_writeNumeric _ hlen, counterAt, UInt64.toNat_ofNat', Nat.mod_mod_of_dvd]
    exact Nat.pow_dvd_pow 2 (by omega)
  | TIMESTAMP =>
    simp only [ht] at h
    obtain ⟨ns, rfl⟩ := h
    exact ⟨ns, readNumeric_writeNumeric _ (hshort (by simp [ht])) _⟩

/-- What a call that has returned handed to its caller. -/
structure Returned (payloads : List PayloadDescriptor) (steps : List (List UInt16)) (history : List Advance) (t : Nat)
    (call : Filling) (d : PayloadDescriptor) : Prop where
  payload : payloads[call.index]? = some d
  length : (call.bytes d.packetData).length = d.packetData.length
  inside : ∀ slice ∈ call.state.packetSlices, slice.Inside d.packetData.length call.state.temps
  shown : ∀ n op, d.ops[n]? = some op → Prepared d steps history t call.index n op
    (((call.bytes d.packetData).drop (Spans.total opLength (d.ops.take n))).take op.length.toNat)

theorem Filled.returned {call : Filling} {d : PayloadDescriptor} {done : List PacketOperation}
    (h : Filled payloads steps history t call d done) (hf : Fits payloads steps)
    (htotal : Spans.total opLength d.ops = d.packetData.length) (hret : call.ops = []) :
    Returned payloads steps history t call d := by
  have hops := h.ops
  rw [hret, List.append_nil] at hops
  subst hops
  have hd := List.mem_of_getElem? h.payload
  have hlengths := h.lengths hf htotal
  refine ⟨h.payload, ?_, fun slice hs => ?_, fun n op hn => ?_⟩
  · rw [Filling.bytes, List.length_flatMap, hlengths, ← htotal, Spans.total]
  · obtain ⟨n, hn⟩ := List.mem_iff_getElem?.mp hs
    have hlt : n < d.ops.length := h.slices ▸ (List.getElem?_eq_some_iff.mp hn).1
    obtain ⟨slice', hs', hin, _⟩ := h.shown n _ (List.getElem?_eq_getElem hlt)
    obtain rfl := Option.some.inj (hn.symm.trans hs')
    exact htotal ▸ hin
  · obtain ⟨slice, hs, _, hb⟩ := h.shown n op hn
    have hoffset : ((call.state.packetSlices.take n).map fun slice =>
        (slice.bytes d.packetData call.state.temps).length).sum = Spans.total opLength (d.ops.take n) := by
      rw [List.map_take, hlengths, ← List.map_take, Spans.total]
    have hlen : (slice.bytes d.packetData call.state.temps).length = op.length.toNat := by
      have := congrArg (·[n]?) hlengths
      simpa [Option.mem_def.mp hs, hn] using this
    have hpiece := drop_flatMap (fun slice : Slice => slice.bytes d.packetData call.state.temps) hs
    rw [hoffset, hlen] at hpiece
    rw [Filling.bytes, hpiece]
    exact hb.prepared hf hd hn

theorem Filled.reserves {call : Filling} {d : PayloadDescriptor} {done : List PacketOperation}
    (h : Filled payloads steps history t call d done) : call.state.temps.length ≤ call.capacity := by
  refine Nat.le_trans ?_ h.reserved
  rw [h.temps, h.ops]
  unfold totalTempBytes
  rw [List.filter_append, List.map_append, List.sum_append]
  exact Nat.le_add_right ..

theorem Stepped.capacity {e : Event} (h : Stepped p e q) {t : Nat} {call : Filling} (hc : p.calls[t]? = some call) :
    ∃ call' ∈ q.calls[t]?, call'.index = call.index ∧ call'.capacity = call.capacity := by
  have hlt := (List.getElem?_eq_some_iff.mp hc).1
  cases h with
  | refused => exact ⟨call, hc, rfl, rfl⟩
  | called => exact ⟨call, (List.getElem?_append_left hlt).trans hc, rfl, rfl⟩
  | @ran t' _ call' _ _ _ hcall _ _ =>
    by_cases ht : t' = t
    · subst ht
      obtain rfl := Option.some.inj (hc.symm.trans hcall)
      exact ⟨_, List.getElem?_set_self hlt, rfl, rfl⟩
    · exact ⟨call, (List.getElem?_set_ne ht).trans hc, rfl, rfl⟩

theorem Stepped.counters {e : Event} (h : Stepped p e q) {index : Nat}
    (hi : ∀ t now call, e = .op t now → p.calls[t]? = some call → call.index ≠ index) :
    q.manager.counters[index]? = p.manager.counters[index]? := by
  cases h with
  | refused | called => rfl
  | ran hcall => exact List.getElem?_set_ne (hi _ _ _ rfl hcall)

/-- In every run of calls on one manager: a call keeps to the room it reserved,
what it returns is the packet with its numbers in place, and it leaves the
counters of other payloads alone. -/
theorem fill_payload_prepares (hf : Fits payloads steps)
    (htotal : ∀ d ∈ payloads, Spans.total opLength d.ops = d.packetData.length) {es : List Event}
    (r : Runs.Run step (fun _ _ => True) (start payloads steps) es p) :
    (∀ t call, p.calls[t]? = some call → call.state.temps.length ≤ call.capacity ∧
      (call.ops = [] → ∃ d, Returned payloads steps p.history t call d)) ∧
    ∀ e q, step p e = some q →
      (∀ (t : Nat) (call : Filling), p.calls[t]? = some call →
        ∃ call' ∈ q.calls[t]?, call'.index = call.index ∧ call'.capacity = call.capacity) ∧
      ∀ index, (∀ t now call, e = .op t now → p.calls[t]? = some call → call.index ≠ index) →
        q.manager.counters[index]? = p.manager.counters[index]? := by
  have hs := sound_of_run hf r
  refine ⟨fun t call hc => ?_, fun e q he => ?_⟩
  · obtain ⟨d, done, h⟩ := hs.filled t call hc
    exact ⟨h.reserves, fun hret => ⟨d, h.returned hf (htotal d (List.mem_of_getElem? h.payload)) hret⟩⟩
  · exact ⟨fun _ _ hc => (stepped_of_step he).capacity hc, fun _ hi => (stepped_of_step he).counters hi⟩

/-! ## One call alone -/

theorem fillOp_clock (clock : Nat → Nat) (s : FillState) (op : PacketOperation) :
    fillOp (fun _ => clock s.packetSlices.length) s op = fillOp clock s op := by
  unfold fillOp
  cases op.type <;> rfl

theorem exists_runOp {t now : Nat} {call : Filling} {op : PacketOperation} {ops : List PacketOperation}
    (h : p.calls[t]? = some call) (hops : call.ops = op :: ops) {s : FillState}
    (hs : fillOp (fun _ => now) { call.state with payloadCounter := p.manager.counters.getD call.index [] } op = s) :
    ∃ q, step p (.op t now) = some q ∧
      q.manager = { p.manager with counters := p.manager.counters.set call.index s.payloadCounter } ∧
      q.calls = p.calls.set t { call with ops := ops, state := s } := by
  subst hs
  simp only [step, runOp, h, hops, Option.bind_eq_bind, Option.bind_some]
  exact ⟨_, rfl, rfl, rfl⟩

theorem run_ops (clock : Nat → Nat) : ∀ {ops : List PacketOperation} {s : FillState} {calls : List Filling}
    {index capacity : Nat} {p : Preparation}, index < p.manager.counters.length →
    p.calls = calls ++ [⟨index, ops, s, capacity⟩] →
    ∃ es q call, Runs.Run step (fun _ _ => True) p es q ∧ (∀ e ∈ es, ∃ now, e = .op calls.length now) ∧
      q.calls = calls ++ [call] ∧ call.ops = [] ∧ call.capacity = capacity ∧
      ∃ s', ops.foldl (fillOp clock) { s with payloadCounter := p.manager.counters.getD index [] } = s' ∧
        q.manager = { p.manager with counters := p.manager.counters.set index s'.payloadCounter } ∧
        call.state.temps = s'.temps ∧ call.state.packetSlices = s'.packetSlices
  | [], s, calls, index, capacity, p, _, hc => by
    refine ⟨[], p, _, .nil, by simp, hc, rfl, rfl, _, rfl, ?_, rfl, rfl⟩
    simp only [List.foldl_nil, set_getD_self]
  | op :: ops, s, calls, index, capacity, p, hi, hc => by
    have hget : p.calls[calls.length]? = some ⟨index, op :: ops, s, capacity⟩ := by
      rw [hc, List.getElem?_concat_length]
    obtain ⟨s₁, hs₁⟩ : ∃ s₁, fillOp clock { s with payloadCounter := p.manager.counters.getD index [] } op = s₁ :=
      ⟨_, rfl⟩
    obtain ⟨p₁, hstep, hm₁, hc₁⟩ := exists_runOp hget rfl ((fillOp_clock clock _ op).trans hs₁)
    rw [hc, List.set_append_right _ _ (Nat.le_refl _), Nat.sub_self, List.set_cons_zero] at hc₁
    have hi₁ : index < p₁.manager.counters.length := by simpa [hm₁] using hi
    -- the next operation reads back the counters that this one left
    have hread : p₁.manager.counters.getD index [] = s₁.payloadCounter := by
      rw [hm₁, List.getD_eq_getElem _ _ (by simpa using hi)]
      simp
    obtain ⟨es, q, call, r, hes, hq, hops, hcap, s', hs', hm, ht, hsl⟩ := run_ops clock hi₁ hc₁
    rw [hread] at hs'
    refine ⟨_ :: es, q, call, r.cons trivial hstep, List.forall_mem_cons.mpr ⟨⟨_, rfl⟩, hes⟩, hq, hops, hcap, s', ?_, ?_,
      ht, hsl⟩
    · rw [List.foldl_cons, hs₁, ← hs']
    · rw [hm, hm₁]
      simp

/-- The function of one call is what its operations do when no other call runs. -/
theorem fillPayload_run {clock : Nat → Nat} {index : Nat} {payload : PreparedPayload} {m : PayloadManager}
    {prepared : PreparedPayload} (hi : index < p.manager.counters.length)
    (h : p.manager.fillPayload clock index payload = some (m, prepared)) :
    ∃ es q call, Runs.Run step (fun _ _ => True) p (.fill index payload :: es) q ∧
      (∀ e ∈ es, ∃ now, e = .op p.calls.length now) ∧ q.manager = m ∧ q.calls = p.calls ++ [call] ∧ call.ops = [] ∧
        call.state.temps = prepared.temps ∧ call.state.packetSlices = prepared.packetSlices ∧
        call.capacity = prepared.tempsCapacity := by
  unfold PayloadManager.fillPayload at h
  split at h
  · cases h
  · rename_i d hd
    obtain ⟨rfl, rfl⟩ := Prod.mk.inj (Option.some.inj h)
    obtain ⟨p₁, hstep, hm₁, hc₁⟩ : ∃ p₁, step p (.fill index payload) = some p₁ ∧ p₁.manager = p.manager ∧
        p₁.calls = p.calls ++ [⟨index, d.ops, ⟨0, 0, [], [], []⟩,
          max payload.tempsCapacity (totalTempBytes d.ops)⟩] := by
      simp only [step, fill, hd]
      exact ⟨_, rfl, rfl, rfl⟩
    obtain ⟨es, q, call, r, hes, hq, hops, hcap, s', rfl, hm, ht, hsl⟩ := run_ops clock (hm₁ ▸ hi) hc₁
    rw [hm₁] at hm ht hsl
    exact ⟨es, q, call, r.cons trivial hstep, hes, hm, hq, hops, ht, hsl, hcap⟩

def sharedPayloads : List PayloadDescriptor := [⟨[1, 2, 3, 4], [makeIdentity 1, makeCounter 2 false, makeIdentity 1]⟩]

def sharedRun : List Event :=
  [.fill 0 ⟨[], 0, []⟩, .fill 0 ⟨[9], 1, [.temps 0 1]⟩, .op 1 0, .op 1 0, .op 0 0, .op 0 0, .op 0 0, .op 1 0]

theorem fill_payload_prepares_shared : ∃ p,
    Runs.Run step (fun _ _ => True) (start sharedPayloads [[5]]) sharedRun p ∧
    ∃ call ∈ p.calls[0]?, call.state.temps.length ≤ call.capacity ∧ call.bytes [1, 2, 3, 4] = [1, 0, 5, 4] ∧
      ∃ d, Returned sharedPayloads [[5]] p.history 0 call d := by
  have hf : Fits sharedPayloads [[5]] := by
    refine ⟨by decide, fun index d h => ?_⟩
    obtain ⟨rfl, rfl⟩ : index = 0 ∧ d = sharedPayloads.head (by decide) := by
      rcases index with _ | index
      · exact ⟨rfl, (Option.some.inj h).symm⟩
      · simp [sharedPayloads] at h
    decide
  have r : Runs.Run step (fun _ _ => True) (start sharedPayloads [[5]]) sharedRun _ := Runs.run_of_isSome (by decide)
  have hc : ∃ call ∈ ((Runs.guarded step (fun _ _ => True) (start sharedPayloads [[5]]) sharedRun).get
      (by decide)).calls[0]?, call.ops = [] ∧ call.bytes [1, 2, 3, 4] = [1, 0, 5, 4] := by
    decide
  obtain ⟨call, hcall, hops, hbytes⟩ := hc
  obtain ⟨hle, hret⟩ := (fill_payload_prepares hf (by decide) r).1 0 call hcall
  exact ⟨_, r, call, hcall, hle, hbytes, hret hops⟩

end Preparation

end Loadshear
