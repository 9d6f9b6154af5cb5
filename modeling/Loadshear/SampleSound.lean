import Loadshear.MeterSound

/-!
# Latencies over a run

A run is observed: when the operations in flight were begun, and which latencies
were recorded as they were completed. The counters are preset to the rate, gone
up at the start of an operation and compared at its end, so that writes are
sampled with a period of one more than the rate (`Writing.step`).
-/

namespace Loadshear.Session

open Sampling (elapsed phase)
open Runs (Run)

/-! ## Observed runs -/

structure Sample where
  began : Nat
  ended : Nat
  latencies : List Nat
deriving DecidableEq

structure Observations where
  /-- When the operations in flight were begun. -/
  inFlight : List Nat
  complete : List Sample
deriving DecidableEq

namespace Observations

def writes (now : Nat) (s : Session) (e : Event) (t : Session) (w : Observations) : Observations :=
  let begun := List.replicate (t.begun.length - s.begun.length) now
  let latencies := t.sendMeter.latencies.drop s.sendMeter.latencies.length
  match e with
  | .done (.wrote i none) => ⟨w.inFlight.eraseIdx i ++ begun, w.complete⟩
  | .done (.wrote i (some _)) =>
    ⟨w.inFlight.eraseIdx i ++ begun, w.complete ++ [⟨w.inFlight.getD i 0, now, latencies⟩]⟩
  | _ => ⟨w.inFlight ++ begun, w.complete⟩

def reads (now : Nat) (s : Session) (e : Event) (t : Session) (w : Observations) : Observations :=
  let latencies := t.readMeter.latencies.drop s.readMeter.latencies.length
  match e with
  | .done (.read i _) =>
    let own := w.inFlight.getD i 0
    ⟨w.inFlight.eraseIdx i ++
        (t.reads.drop (s.reads.length - 1)).map fun op => if op.kind.isBody then own else now,
      if s.messages.length < t.messages.length then w.complete ++ [⟨own, now, latencies⟩] else w.complete⟩
  | _ => ⟨w.inFlight ++ (t.reads.drop s.reads.length).map fun _ => now, w.complete⟩

/-- The first operation is recorded and every `rate`-th one after it, with the
time that it took itself. -/
def SampledEvery (rate : Nat) (w : Observations) : Prop :=
  ∀ n sample, w.complete[n]? = some sample →
    sample.latencies = if n % rate = 0 then [elapsed sample.began sample.ended] else []

end Observations

structure Observed where
  session : Session
  writes : Observations
  reads : Observations
  /-- Reads begun since the last message that was due; before the first, that
  many more than the rate. -/
  sinceDue : Nat
deriving DecidableEq

def readsBegun (s : Session) (e : Event) (t : Session) : Nat :=
  let new := match e with
    | .done (.read ..) => t.reads.drop (s.reads.length - 1)
    | _ => t.reads.drop s.reads.length
  new.countP (!·.kind.isBody)

namespace Observed

variable {env : SessionEnv}

def start (env : SessionEnv) : Observed := ⟨init env, ⟨[], []⟩, ⟨[], []⟩, env.config.packetSampleRate.toNat⟩

def after (env : SessionEnv) (now : Nat) (e : Event) (x : Observed) (t : Session) : Observed where
  session := t
  writes := x.writes.writes now x.session e t
  reads := x.reads.reads now x.session e t
  sinceDue :=
    (if (delivers env x.session e).isSome ∧ x.reads.complete.length % env.config.packetSampleRate.toNat = 0 then 0
      else x.sinceDue) + readsBegun x.session e t

def step (env : SessionEnv) (x : Observed) (e : Nat × Event) : Option Observed :=
  (Session.step env x.session e).map (x.after env e.1 e.2)

def Periodic (env : SessionEnv) (x : Observed) : Prop :=
  x.writes.SampledEvery env.config.packetSampleRate.toNat ∧ x.reads.SampledEvery env.config.packetSampleRate.toNat

end Observed

/-! ## Writes -/

theorem sampledEvery_snoc {rate : Nat} {w : Observations} {inFlight : List Nat} {sample : Sample}
    (h : w.SampledEvery rate) : Observations.SampledEvery rate ⟨inFlight, w.complete ++ [sample]⟩ ↔
      sample.latencies = if w.complete.length % rate = 0 then [elapsed sample.began sample.ended] else [] := by
  constructor
  · intro hs
    exact hs w.complete.length sample List.getElem?_concat_length
  · intro hs n sample' hn
    rcases Nat.lt_or_ge n w.complete.length with hlt | hge
    · rw [List.getElem?_append_left hlt] at hn
      exact h n sample' hn
    · obtain rfl : n = w.complete.length := by
        have hlt := (List.getElem?_eq_some_iff.mp hn).1
        rw [List.length_append, List.length_singleton] at hlt
        omega
      rw [List.getElem?_concat_length] at hn
      rw [← Option.some.inj hn, hs]

variable {env : SessionEnv} {now : Nat} {s t : Session} {e : Event} {w : Observations} {rate : UInt32} {v : Sending}

structure Tracks (rate : UInt32) (v : Sending) (w : Observations) : Prop where
  inFlight : w.inFlight.length = v.writes.length
  timed : ∀ b ∈ w.inFlight, v.meter.Timed rate b
  counter : v.meter.counter = UInt32.ofNat (phase rate w.complete.length + v.writing.toNat)
  complete : ∀ n sample, w.complete[n]? = some sample → sample.latencies =
    if n % (rate.toNat + 1) = 0 ∧ rate.toNat + 1 < 2 ^ 32 then [elapsed sample.began sample.ended] else []

theorem Tracks.start {op : WriteOp} (h : Tracks rate v w) (hw : v.writing = false) (hn : v.writes = []) :
    Tracks rate (v.start rate now op) ⟨w.inFlight ++ [now], w.complete⟩ where
  inFlight := by simp [Sending.start, h.inFlight]
  timed := by
    have hnil : w.inFlight = [] := List.eq_nil_of_length_eq_zero (h.inFlight.trans (by rw [hn]; rfl))
    intro b hb
    rw [hnil, List.nil_append, List.mem_singleton] at hb
    rw [hb]
    exact Sampling.Meter.start_timed
  counter := by
    have hc := h.counter
    rw [hw, Bool.toNat_false, Nat.add_zero] at hc
    rw [Sending.start, Sampling.Meter.start, hc, Bool.toNat_true, UInt32.ofNat_add]
    rfl
  complete := h.complete

theorem Tracks.stop {b : Nat} (h : Tracks rate v w) (hw : v.writing = true) (hb : w.inFlight = [b]) :
    Tracks rate ⟨v.meter.stop rate now, false, [], v.begun⟩
      ⟨[], w.complete ++ [⟨b, now, v.meter.recorded rate now⟩]⟩ where
  inFlight := rfl
  timed := by simp
  counter := by
    have hc := h.counter
    rw [hw, Bool.toNat_true] at hc
    rw [List.length_append, List.length_singleton, Bool.toNat_false, Nat.add_zero]
    exact Sampling.stop_phase hc
  complete := by
    intro n sample hn
    rcases Nat.lt_or_ge n w.complete.length with hlt | hge
    · rw [List.getElem?_append_left hlt] at hn
      exact h.complete n sample hn
    · obtain rfl : n = w.complete.length := by
        have hlt := (List.getElem?_eq_some_iff.mp hn).1
        rw [List.length_append, List.length_singleton] at hlt
        omega
      rw [List.getElem?_concat_length] at hn
      obtain rfl := Option.some.inj hn
      have hc := h.counter
      rw [hw, Bool.toNat_true] at hc
      have ht : v.meter.Timed rate b := h.timed b (by rw [hb]; exact List.mem_singleton_self b)
      rw [ht.recorded, hc]
      exact if_congr Sampling.recorded_iff rfl rfl

theorem writes_idle (he : ∀ i sent, e ≠ .done (.wrote i sent)) :
    w.writes now s e t = ⟨w.inFlight ++ List.replicate (t.begun.length - s.begun.length) now, w.complete⟩ := by
  cases e with
  | call => rfl
  | done c =>
    cases c with
    | wrote i sent => exact absurd rfl (he i sent)
    | _ => rfl

theorem Tracks.single {i : Nat} {op : WriteOp} (h : Tracks rate s.sending w) (ho : OneWriter s)
    (hi : s.writes[i]? = some op) : s.writing = true ∧ s.writes.eraseIdx i = [] ∧ ∃ b, w.inFlight = [b] ∧ i = 0 := by
  have hlen : s.writes.length ≤ 1 := Nat.le_trans ho.inFlight (Bool.toNat_le _)
  have hpos := (List.getElem?_eq_some_iff.mp hi).1
  refine ⟨?_, eraseIdx_eq_nil hi hlen, ?_⟩
  · by_contra hw
    have := ho.inFlight
    rw [Bool.eq_false_iff.mpr hw, Bool.toNat_false] at this
    omega
  · obtain ⟨b, hb⟩ := List.length_eq_one_iff.mp (h.inFlight.trans (show s.writes.length = 1 by omega))
    exact ⟨b, hb, by omega⟩

theorem Tracks.step (h : Tracks env.config.packetSampleRate s.sending w) (ho : OneWriter s)
    (hs : Sends env now s e t) : Tracks env.config.packetSampleRate t.sending (w.writes now s e t) := by
  have hbegun {v : Sending} (ht : t.sending = v) : t.begun.length = v.begun := congrArg Sending.begun ht
  have hmeter {v : Sending} (ht : t.sending = v) : t.sendMeter = v.meter := congrArg Sending.meter ht
  cases hs with
  | kept he ht =>
    have hb : t.begun.length = s.begun.length := hbegun ht
    rw [writes_idle he, hb, Nat.sub_self, List.replicate_zero, List.append_nil, ht]
    exact h
  | begins he hw ht =>
    have hb : t.begun.length = s.begun.length + 1 := hbegun ht
    have hn : s.writes = [] := by
      have := ho.inFlight
      rw [Bool.eq_false_iff.mpr hw, Bool.toNat_false] at this
      exact List.eq_nil_of_length_eq_zero (Nat.le_zero.mp this)
    rw [writes_idle he, hb, Nat.add_sub_cancel_left, ht]
    exact h.start (Bool.eq_false_iff.mpr hw) hn
  | @failed i op _ hi ht =>
    obtain ⟨_, hnil, b, hb, rfl⟩ := h.single ho hi
    have hbeg : t.begun.length = s.begun.length := hbegun ht
    rw [ht, hnil]
    simp only [Observations.writes, hbeg, Nat.sub_self, List.replicate_zero, List.append_nil, hb]
    exact ⟨rfl, by simp, h.counter, h.complete⟩
  | @ended i n op _ hi ht =>
    obtain ⟨hw, hnil, b, hb, rfl⟩ := h.single ho hi
    have hbeg : t.begun.length = s.begun.length := hbegun ht
    have hlat : t.sendMeter.latencies.drop s.sendMeter.latencies.length =
        s.sendMeter.recorded env.config.packetSampleRate now := by
      rw [hmeter ht, Sampling.Meter.stop_latencies, List.drop_left]
    simp only [Observations.writes, hbeg, Nat.sub_self, List.replicate_zero, List.append_nil, hb, hlat]
    rw [ht, hnil]
    exact h.stop hw hb
  | @next i n op op' _ hi ht =>
    obtain ⟨hw, hnil, b, hb, rfl⟩ := h.single ho hi
    have hbeg : t.begun.length = s.begun.length + 1 := hbegun ht
    have hlat : t.sendMeter.latencies.drop s.sendMeter.latencies.length =
        s.sendMeter.recorded env.config.packetSampleRate now := by
      have hl : t.sendMeter.latencies = (s.sendMeter.stop env.config.packetSampleRate now).latencies := by
        rw [hmeter ht]
        rfl
      rw [hl, Sampling.Meter.stop_latencies, List.drop_left]
    simp only [Observations.writes, hbeg, Nat.add_sub_cancel_left, hb, hlat]
    rw [ht, hnil]
    exact (h.stop hw hb).start rfl rfl

/-- The code's period and the documented one agree on as many writes as the rate
says. -/
theorem Tracks.sampled_iff (h : Tracks rate v w) (hr : 0 < rate.toNat) : w.SampledEvery rate.toNat ↔
    w.complete.length = 0 ∨ w.complete.length ≤ rate.toNat ∧ rate.toNat + 1 < 2 ^ 32 := by
  constructor
  · intro hp
    by_cases hz : w.complete.length = 0
    · exact .inl hz
    · have hsmall : rate.toNat + 1 < 2 ^ 32 := by
        have h0 := List.getElem?_eq_getElem (show 0 < w.complete.length by omega)
        have ht := h.complete 0 _ h0
        by_contra hn
        rw [hp 0 _ h0, if_pos (Nat.zero_mod _), if_neg fun hc => hn hc.2] at ht
        cases ht
      refine .inr ⟨?_, hsmall⟩
      by_contra hlt
      have hget := List.getElem?_eq_getElem (show rate.toNat < w.complete.length by omega)
      have ht := h.complete rate.toNat _ hget
      rw [hp rate.toNat _ hget, if_pos (Nat.mod_self _), Nat.mod_eq_of_lt (Nat.lt_succ_self _),
        if_neg fun hc => Nat.ne_of_gt hr hc.1] at ht
      cases ht
  · intro hc n sample hn
    have hlt := (List.getElem?_eq_some_iff.mp hn).1
    have hle : w.complete.length ≤ rate.toNat ∧ rate.toNat + 1 < 2 ^ 32 := hc.resolve_left (by omega)
    rw [h.complete n sample hn, Nat.mod_eq_of_lt (show n < rate.toNat + 1 by omega),
      Nat.mod_eq_of_lt (show n < rate.toNat by omega)]
    exact if_congr (and_iff_left hle.2) rfl rfl

def completesWrite : Event → Bool
  | .done (.wrote _ (some _)) => true
  | _ => false

/-- A write that is complete comes too late for the documented period. -/
abbrev LateWrite (rate : UInt32) (w : Observations) (e : Event) : Prop :=
  completesWrite e ∧ (rate.toNat ≤ w.complete.length ∨ rate.toNat + 1 = 2 ^ 32)

theorem writes_length (now : Nat) (s : Session) (e : Event) (t : Session) (w : Observations) :
    completesWrite e ∧ (w.writes now s e t).complete.length = w.complete.length + 1 ∨
      ¬ completesWrite e ∧ (w.writes now s e t).complete = w.complete := by
  cases e with
  | call => exact .inr ⟨by simp [completesWrite], rfl⟩
  | done c =>
    cases c with
    | wrote i sent =>
      cases sent with
      | none => exact .inr ⟨by simp [completesWrite], rfl⟩
      | some n => exact .inl ⟨rfl, by simp [Observations.writes]⟩
    | _ => exact .inr ⟨by simp [completesWrite], rfl⟩

theorem Tracks.step_iff (h : Tracks env.config.packetSampleRate s.sending w) (ho : OneWriter s)
    (hs : Sends env now s e t) (hr : 0 < env.config.packetSampleRate.toNat)
    (hp : w.SampledEvery env.config.packetSampleRate.toNat) :
    (w.writes now s e t).SampledEvery env.config.packetSampleRate.toNat ↔
      ¬ LateWrite env.config.packetSampleRate w e := by
  have hbound := env.config.packetSampleRate.toNat_lt
  rw [h.sampled_iff hr] at hp
  rw [(h.step ho hs).sampled_iff hr]
  unfold LateWrite
  rcases writes_length now s e t w with ⟨he, hl⟩ | ⟨he, hl⟩
  · rw [hl, and_iff_right he]
    omega
  · rw [hl]
    exact ⟨fun _ hlate => he hlate.1, fun _ => hp⟩

/-! ## Reads -/

variable {r : Receiving} {since : Nat}

structure Keeps (rate : UInt32) (r : Receiving) (w : Observations) (since : Nat) : Prop where
  inFlight : w.inFlight.length = r.reads.length
  timed : ∀ b ∈ w.inFlight, r.meter.Timed rate b
  counter : w.SampledEvery rate.toNat → r.meter.counter = UInt32.ofNat since

theorem Keeps.start {op : ReadOp} (h : Keeps rate r w since) (hn : r.reads = []) :
    Keeps rate (r.start rate now op) ⟨[now], w.complete⟩ (since + 1) where
  inFlight := by simp [Receiving.start, Receiving.push, hn]
  timed := by
    intro b hb
    rw [List.mem_singleton.mp hb]
    exact Sampling.Meter.start_timed
  counter := by
    intro hp
    rw [Receiving.start, Sampling.Meter.start, h.counter hp, UInt32.ofNat_add]
    rfl

abbrev SampleDue (rate : UInt32) (w : Observations) : Prop := w.complete.length % rate.toNat = 0

abbrev Counted (rate : UInt32) (since : Nat) : Prop := rate.toNat < since % 2 ^ 32

theorem counted_iff : rate < UInt32.ofNat since ↔ Counted rate since := by
  rw [UInt32.lt_iff_toNat_lt, UInt32.toNat_ofNat']

variable (now s t w) in
theorem reads_other (he : ∀ i outcome, e ≠ .done (.read i outcome)) :
    w.reads now s e t = ⟨w.inFlight ++ (t.reads.drop s.reads.length).map fun _ => now, w.complete⟩ ∧
      readsBegun s e t = (t.reads.drop s.reads.length).countP (!·.kind.isBody) ∧ delivers env s e = none := by
  cases e with
  | call => exact ⟨rfl, rfl, rfl⟩
  | done c =>
    cases c with
    | read i outcome => exact absurd rfl (he i outcome)
    | _ => exact ⟨rfl, rfl, rfl⟩

theorem Keeps.single {i : Nat} {op : ReadOp} (h : Keeps rate s.receiving w since) (ho : OneReader s)
    (hi : s.reads[i]? = some op) : s.reads.length = 1 ∧ s.reads.eraseIdx i = [] ∧ ∃ b, w.inFlight = [b] ∧ i = 0 := by
  unfold OneReader at ho
  have hpos := (List.getElem?_eq_some_iff.mp hi).1
  have hlen : s.reads.length = 1 := by omega
  obtain ⟨b, hb⟩ := List.length_eq_one_iff.mp (h.inFlight.trans hlen)
  exact ⟨hlen, eraseIdx_eq_nil hi (Nat.le_of_eq hlen), b, hb, by omega⟩

def sinceAfter (env : SessionEnv) (s : Session) (e : Event) (t : Session) (w : Observations) (since : Nat) : Nat :=
  (if (delivers env s e).isSome ∧ w.complete.length % env.config.packetSampleRate.toNat = 0 then 0 else since) +
    readsBegun s e t

/-- A message is delivered that is due and would not be recorded, or the other
way round. -/
abbrev Misses (env : SessionEnv) (s : Session) (e : Event) (w : Observations) (since : Nat) : Prop :=
  ∃ sampled ∈ delivers env s e, ¬ (SampleDue env.config.packetSampleRate w ↔ sampled ∧ Counted env.config.packetSampleRate since)

theorem Keeps.delivered {i : Nat} {outcome : ReadOutcome} {op : ReadOp} {post : PostOp} {sampled : Bool}
    (h : Keeps env.config.packetSampleRate s.receiving w since) (ho : OneReader s) (hi : s.reads[i]? = some op)
    (hd : delivers env s (.done (.read i outcome)) = some sampled)
    (ht : t.receiving = Receiving.deliver post { s.receiving with
      meter := if sampled then s.readMeter.stop env.config.packetSampleRate now else s.readMeter
      reads := s.reads.eraseIdx i }) (hp : w.SampledEvery env.config.packetSampleRate.toNat) :
    (w.reads now s (.done (.read i outcome)) t).SampledEvery env.config.packetSampleRate.toNat ↔
      ¬ Misses env s (.done (.read i outcome)) w since := by
  obtain ⟨hlen, hnil, b, hb, rfl⟩ := h.single ho hi
  have hmessages : t.messages.length = s.messages.length + 1 := congrArg Receiving.messages ht
  have hmeter : t.readMeter = if sampled then s.readMeter.stop env.config.packetSampleRate now else s.readMeter :=
    congrArg Receiving.meter ht
  have htimed : s.readMeter.Timed env.config.packetSampleRate b := h.timed b (by rw [hb]; exact List.mem_singleton_self b)
  have hcount : s.readMeter.counter = UInt32.ofNat since := h.counter hp
  have hlat : t.readMeter.latencies.drop s.readMeter.latencies.length =
      if sampled ∧ Counted env.config.packetSampleRate since then [elapsed b now] else [] := by
    rw [hmeter]
    cases sampled with
    | false => simp
    | true =>
      rw [if_pos rfl, Sampling.Meter.stop_latencies, List.drop_left, htimed.recorded, hcount]
      exact if_congr (counted_iff.trans (and_iff_right rfl).symm) rfl rfl
  simp only [Observations.reads, hmessages, Nat.lt_succ_self, if_true, hlat, hb]
  rw [sampledEvery_snoc hp]
  unfold Misses SampleDue
  rw [hd]
  by_cases hdue : w.complete.length % env.config.packetSampleRate.toNat = 0 <;>
    by_cases hc : sampled ∧ Counted env.config.packetSampleRate since <;> simp [hdue, hc]

theorem Keeps.after_delivered {i : Nat} {outcome : ReadOutcome} {op : ReadOp} {post : PostOp} {sampled : Bool}
    (h : Keeps env.config.packetSampleRate s.receiving w since) (ho : OneReader s) (hi : s.reads[i]? = some op)
    (hd : delivers env s (.done (.read i outcome)) = some sampled)
    (ht : t.receiving = Receiving.deliver post { s.receiving with
      meter := if sampled then s.readMeter.stop env.config.packetSampleRate now else s.readMeter
      reads := s.reads.eraseIdx i }) :
    Keeps env.config.packetSampleRate t.receiving (w.reads now s (.done (.read i outcome)) t)
      (sinceAfter env s (.done (.read i outcome)) t w since) := by
  have hsampled := h.delivered ho hi hd ht
  obtain ⟨hlen, hnil, b, hb, rfl⟩ := h.single ho hi
  have hreads : t.reads = [] := (congrArg Receiving.reads ht).trans hnil
  have hmessages : t.messages.length = s.messages.length + 1 := congrArg Receiving.messages ht
  have hinFlight : (w.reads now s (.done (.read 0 outcome)) t).inFlight = [] := by
    simp [Observations.reads, hreads, hb]
  refine ⟨by rw [hinFlight, ht]; simp [Receiving.deliver, hnil], by rw [hinFlight]; simp, fun hp => ?_⟩
  -- the samples before this one were right as well
  have hbefore : w.SampledEvery env.config.packetSampleRate.toNat := by
    intro n sample hn
    apply hp n sample
    simp only [Observations.reads, hmessages, Nat.lt_succ_self, if_true]
    rw [List.getElem?_append_left (List.getElem?_eq_some_iff.mp hn).1, hn]
  have hright : SampleDue env.config.packetSampleRate w ↔ sampled ∧ Counted env.config.packetSampleRate since := by
    by_contra hn
    exact (hsampled hbefore).mp hp ⟨sampled, hd, hn⟩
  have hcount : s.readMeter.counter = UInt32.ofNat since := h.counter hbefore
  have hbegun : readsBegun s (.done (.read 0 outcome)) t = 0 := by simp [readsBegun, hreads]
  have hmeter : t.receiving.meter =
      if sampled then s.readMeter.stop env.config.packetSampleRate now else s.readMeter := congrArg Receiving.meter ht
  have hsince : sinceAfter env s (.done (.read 0 outcome)) t w since =
      if SampleDue env.config.packetSampleRate w then 0 else since := by
    rw [sinceAfter, hbegun, hd, Nat.add_zero]
    exact if_congr (and_iff_right rfl) rfl rfl
  rw [hmeter, hsince]
  by_cases hdue : SampleDue env.config.packetSampleRate w
  · obtain ⟨rfl, hc⟩ := hright.mp hdue
    rw [if_pos rfl, if_pos hdue, Sampling.Meter.stop_counter, hcount, if_pos (counted_iff.mpr hc)]
    rfl
  · rw [if_neg hdue]
    cases sampled with
    | false => exact hcount
    | true =>
      have hc : ¬ env.config.packetSampleRate < s.readMeter.counter := by
        rw [hcount, counted_iff]
        exact fun hc => hdue (hright.mpr ⟨rfl, hc⟩)
      rw [if_pos rfl, Sampling.Meter.stop_counter, if_neg hc, hcount]

theorem Keeps.undelivered {i : Nat} {outcome : ReadOutcome} {op : ReadOp} {new : List ReadOp}
    (h : Keeps env.config.packetSampleRate s.receiving w since) (ho : OneReader s) (hi : s.reads[i]? = some op)
    (hd : delivers env s (.done (.read i outcome)) = none) (hr : t.reads = s.reads.eraseIdx i ++ new)
    (hm : t.messages.length = s.messages.length) : ∃ b, w.inFlight = [b] ∧ s.reads.eraseIdx i = [] ∧
      w.reads now s (.done (.read i outcome)) t =
        ⟨new.map fun op => if op.kind.isBody then b else now, w.complete⟩ ∧
      sinceAfter env s (.done (.read i outcome)) t w since = since + new.countP (!·.kind.isBody) := by
  obtain ⟨hlen, hnil, b, hb, rfl⟩ := h.single ho hi
  rw [hnil, List.nil_append] at hr
  refine ⟨b, hb, hnil, ?_, ?_⟩
  · simp [Observations.reads, hr, hlen, hm, hb]
  · simp [sinceAfter, readsBegun, hd, hr, hlen]

theorem Keeps.step (h : Keeps env.config.packetSampleRate s.receiving w since) (ho : OneReader s)
    (hg : makesConnection e → s.reads = [] ∧ s.posts = []) (hs : Reads env now s e t) :
    Keeps env.config.packetSampleRate t.receiving (w.reads now s e t) (sinceAfter env s e t w since) := by
  have hread {r : Receiving} (ht : t.receiving = r) : t.reads = r.reads := congrArg Receiving.reads ht
  have hmessage {r : Receiving} (ht : t.receiving = r) : t.messages.length = r.messages := congrArg Receiving.messages ht
  have hempty (hn : s.reads = []) : w.inFlight = [] :=
    List.eq_nil_of_length_eq_zero (h.inFlight.trans (congrArg List.length hn))
  cases hs with
  | kept he ht =>
    have hr : t.reads = s.reads := hread ht
    obtain ⟨hw, hbegun, hd⟩ := reads_other now s t w he
    rw [hw, sinceAfter, hbegun, hd, hr, ht]
    simpa using h
  | connected he hk ht =>
    have hn := (hg he).1
    have hr : t.reads = s.reads ++ [_] := hread ht
    have he' : ∀ i outcome, e ≠ .done (.read i outcome) := by
      rintro i outcome rfl
      cases he
    obtain ⟨hw, hbegun, hd⟩ := reads_other now s t w he'
    rw [hw, sinceAfter, hbegun, hd, hr, ht, List.drop_left, hempty hn]
    simpa [hk] using h.start hn
  | @responded i post op _ hi hk ht =>
    have hn : s.reads = [] := by
      have hpos := (List.getElem?_eq_some_iff.mp hi).1
      unfold OneReader at ho
      exact List.eq_nil_of_length_eq_zero (by omega)
    have hr : t.reads = s.reads ++ [op] := hread ht
    obtain ⟨hw, hbegun, hd⟩ := reads_other now s t w
      (show ∀ j outcome, Event.done (.responded i) ≠ .done (.read j outcome) by simp)
    rw [hw, sinceAfter, hbegun, hd, hr, ht, List.drop_left, hempty hn]
    have hkeep : Keeps env.config.packetSampleRate { s.receiving with posts := s.posts.eraseIdx i } w since :=
      ⟨h.inFlight, h.timed, h.counter⟩
    simpa [hk] using hkeep.start hn
  | @failed i outcome op _ hi hd ht =>
    obtain ⟨b, hb, hnil, hw, hsince⟩ := h.undelivered ho hi hd
      ((hread ht).trans (List.append_nil _).symm) (hmessage ht)
    rw [hw, hsince, ht, hnil]
    exact ⟨rfl, by simp, h.counter⟩
  | @refused i outcome op new _ hi hd hk ht =>
    obtain ⟨b, hb, hnil, hw, hsince⟩ := h.undelivered ho hi hd (hread ht) (hmessage ht)
    rw [hw, hsince, ht, hnil]
    have hkeep : Keeps env.config.packetSampleRate { s.receiving with reads := [] } ⟨[], w.complete⟩ since :=
      ⟨rfl, by simp, h.counter⟩
    simpa [hk] using hkeep.start rfl
  | @body i outcome op new _ hi hd hk ht =>
    obtain ⟨b, hb, hnil, hw, hsince⟩ := h.undelivered ho hi hd (hread ht) (hmessage ht)
    rw [hw, hsince, ht, hnil]
    have htimed := h.timed
    rw [hb] at htimed
    have hown : ([new].map fun op => if op.kind.isBody then b else now) = [b] := by simp [hk]
    have hnone : [new].countP (!·.kind.isBody) = 0 := by simp [hk]
    rw [hown, hnone]
    exact ⟨rfl, htimed, h.counter⟩
  | delivered hi hd ht => exact h.after_delivered ho hi hd ht

theorem Keeps.step_iff (h : Keeps env.config.packetSampleRate s.receiving w since) (ho : OneReader s)
    (hs : Reads env now s e t) (hp : w.SampledEvery env.config.packetSampleRate.toNat) :
    (w.reads now s e t).SampledEvery env.config.packetSampleRate.toNat ↔ ¬ Misses env s e w since := by
  have hmessage {r : Receiving} (ht : t.receiving = r) : t.messages.length = r.messages := congrArg Receiving.messages ht
  have hkept (hd : delivers env s e = none) (hc : (w.reads now s e t).complete = w.complete) :
      (w.reads now s e t).SampledEvery env.config.packetSampleRate.toNat ↔ ¬ Misses env s e w since := by
    constructor
    · rintro _ ⟨sampled, hd', _⟩
      rw [hd] at hd'
      cases hd'
    · intro _
      unfold Observations.SampledEvery
      rw [hc]
      exact hp
  have hread {i : Nat} {outcome : ReadOutcome} (hm : t.messages.length = s.messages.length) :
      (w.reads now s (.done (.read i outcome)) t).complete = w.complete := by
    simp [Observations.reads, hm]
  cases hs with
  | kept he ht =>
    obtain ⟨hw, _, hd⟩ := reads_other now s t w he
    exact hkept hd (by rw [hw])
  | connected he hk ht =>
    obtain ⟨hw, _, hd⟩ := reads_other now s t w
      (show ∀ i outcome, e ≠ .done (.read i outcome) by rintro i outcome rfl; cases he)
    exact hkept hd (by rw [hw])
  | responded => exact hkept rfl rfl
  | failed hi hd ht => exact hkept hd (hread (hmessage ht))
  | refused hi hd hk ht => exact hkept hd (hread (hmessage ht))
  | body hi hd hk ht => exact hkept hd (hread (hmessage ht))
  | delivered hi hd ht => exact h.delivered ho hi hd ht hp

/-! ## Runs -/

namespace Observed

abbrev Undisturbed (x : Observed) (e : Nat × Event) : Prop :=
  makesConnection e.2 → x.session.reads = [] ∧ x.session.posts = []

/-- The step completes an operation for which the counter is off. -/
abbrev Missampled (env : SessionEnv) (x : Observed) (e : Nat × Event) : Prop :=
  LateWrite env.config.packetSampleRate x.writes e.2 ∨ Misses env x.session e.2 x.reads x.sinceDue

structure Tracked (env : SessionEnv) (x : Observed) : Prop where
  writer : OneWriter x.session
  reader : OneReader x.session
  writes : Tracks env.config.packetSampleRate x.session.sending x.writes
  reads : Keeps env.config.packetSampleRate x.session.receiving x.reads x.sinceDue

theorem tracked_start (env : SessionEnv) : Tracked env (start env) where
  writer := .init env
  reader := by simp [start, OneReader, Session.init]
  writes := by
    refine ⟨rfl, by simp [start], ?_, by simp [start]⟩
    simp [start, sending, sendMeter, Session.init, phase]
  reads := by
    refine ⟨rfl, by simp [start], fun _ => ?_⟩
    simp [start, receiving, readMeter, Session.init]

theorem periodic_start (env : SessionEnv) : Periodic env (start env) := by
  constructor <;> simp [start, Observations.SampledEvery]

theorem Tracked.step {x y : Observed} {e : Nat × Event} (h : Tracked env x) (hr : 0 < env.config.packetSampleRate.toNat)
    (hp : Periodic env x) (hg : Undisturbed x e) (hs : step env x e = some y) :
    Tracked env y ∧ (Periodic env y ↔ ¬ Missampled env x e) := by
  obtain ⟨t, ht, rfl⟩ := Option.map_eq_some_iff.mp hs
  have hh := handled_of_step ht
  have hsends := sends_of_step ht
  have hreads := reads_of_step ht
  refine ⟨⟨h.writer.handled hh, h.reader.receives hg hh.receives, h.writes.step h.writer hsends,
    h.reads.step h.reader hg hreads⟩, ?_⟩
  unfold Periodic Missampled
  rw [not_or, ← h.writes.step_iff h.writer hsends hr hp.1, ← h.reads.step_iff h.reader hreads hp.2]
  rfl

theorem exists_observed {G : Session → Nat × Event → Prop} {es : List (Nat × Event)} {s : Session}
    (r : Run (Session.step env) G (init env) es s) :
    ∃ x, x.session = s ∧ Run (step env) (fun x => G x.session) (start env) es x := by
  induction r with
  | nil => exact ⟨_, rfl, .nil⟩
  | snoc r hg he ih =>
    obtain ⟨x, rfl, rx⟩ := ih
    exact ⟨x.after env _ _ _, rfl, rx.snoc hg (Option.map_eq_some_iff.mpr ⟨_, he, rfl⟩)⟩

/-- Each completed write and each received message is sampled as documented in
every state of a run just when no step of it completes one for which the counter
is off. -/
theorem always_periodic_iff (hr : 0 < env.config.packetSampleRate.toNat) {es : List (Nat × Event)} {x : Observed}
    (r : Run (step env) Undisturbed (start env) es x) :
    Runs.Always (step env) Undisturbed (Periodic env) (start env) es ↔
      Run (step env) (fun x e => Undisturbed x e ∧ ¬ Missampled env x e) (start env) es x :=
  r.always_iff (fun _ _ _ h hp hg hs => h.step hr hp hg hs) (tracked_start env) (periodic_start env)

def sampledEnv : SessionEnv where
  transport := .TCP
  config := ⟨1, 4, true, true, 2⟩
  payloads := [⟨[0], [makeIdentity 1]⟩]

def sampledRun : List (Nat × Event) :=
  [(0, .call .start true true), (1000, .done (.connected 0 true)), (2000, .call (.send 3) true true),
    (5000, .done (.wrote 0 (some 1))), (9000, .done (.wrote 0 (some 1))),
    (10000, .done (.read 0 (.data [1] ⟨1, true⟩ []))), (12000, .done (.read 0 (.data [7] ⟨0, true⟩ [])))]

theorem always_periodic_short : ∃ x, Run (step sampledEnv) Undisturbed (start sampledEnv) sampledRun x ∧
    x.writes.complete = [⟨2000, 5000, [3]⟩, ⟨5000, 9000, []⟩] ∧ x.reads.complete = [⟨1000, 12000, [11]⟩] ∧
      Periodic sampledEnv x := by
  have r : Run (step sampledEnv) (fun x e => Undisturbed x e ∧ ¬ Missampled sampledEnv x e) (start sampledEnv)
      sampledRun _ := Runs.run_of_isSome (by decide +kernel)
  have r' : Run (step sampledEnv) Undisturbed (start sampledEnv) sampledRun _ := r.mono fun _ _ h => h.1
  have hp := (always_periodic_iff (by decide) r').mpr r sampledRun _ (List.prefix_refl _) r'
  exact ⟨_, r', by decide +kernel, by decide +kernel, hp⟩

/-- The third write is not sampled. -/
theorem third_unsampled : ∃ x, Run (step sampledEnv) Undisturbed (start sampledEnv)
    (sampledRun ++ [(13000, .done (.wrote 0 (some 1)))]) x ∧
      x.writes.complete = [⟨2000, 5000, [3]⟩, ⟨5000, 9000, []⟩, ⟨9000, 13000, []⟩] ∧ ¬ Periodic sampledEnv x := by
  have r : Run (step sampledEnv) Undisturbed (start sampledEnv) (sampledRun ++ [(13000, .done (.wrote 0 (some 1)))]) _ :=
    Runs.run_of_isSome (by decide +kernel)
  refine ⟨_, r, by decide +kernel, fun hp => ?_⟩
  exact absurd (hp.1 2 ⟨9000, 13000, []⟩ (by decide +kernel)) (by decide)

end Observed

end Loadshear.Session
