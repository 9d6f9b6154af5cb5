import Loadshear.Metrics
import Loadshear.Session
import Mathlib.Data.List.FinRange

/-!
# The counters of a shard

`shard-metrics.h` and `shard-metrics.cpp`. The sessions of a shard write to one
`ShardMetrics`; its snapshot is what a pull stores.
-/

namespace Loadshear

structure ShardMetrics where
  bytesSent : UInt64 := 0
  bytesRead : UInt64 := 0
  connectionAttempts : UInt64 := 0
  failedConnections : UInt64 := 0
  finishedConnections : UInt64 := 0
  connectionLatencyBuckets : Vector UInt64 numBuckets := .replicate numBuckets 0
  sendLatencyBuckets : Vector UInt64 numBuckets := .replicate numBuckets 0
  readLatencyBuckets : Vector UInt64 numBuckets := .replicate numBuckets 0
deriving DecidableEq

/-- `std::bit_width` -/
def bitWidth (x : UInt64) : Nat := if x = 0 then 0 else x.toNat.log2 + 1

/-- The bucket that the three `record_*_latency` choose, in the same words. -/
def latencyIndex (latencyUs : UInt64) : Fin numBuckets :=
  if latencyUs < 64 then 0
  else
    let index := bitWidth latencyUs - 6
    if h : index < 15 then ⟨index, by simp [numBuckets]; omega⟩ else 15

def countLatency (latencyUs : UInt64) (buckets : Vector UInt64 numBuckets) : Vector UInt64 numBuckets :=
  buckets.set (latencyIndex latencyUs) (buckets[latencyIndex latencyUs] + 1)

namespace ShardMetrics

variable (s : ShardMetrics)

def recordConnectionLatency (latencyUs : UInt64) : ShardMetrics :=
  { s with connectionLatencyBuckets := countLatency latencyUs s.connectionLatencyBuckets }

def recordSendLatency (latencyUs : UInt64) : ShardMetrics :=
  { s with sendLatencyBuckets := countLatency latencyUs s.sendLatencyBuckets }

def recordReadLatency (latencyUs : UInt64) : ShardMetrics :=
  { s with readLatencyBuckets := countLatency latencyUs s.readLatencyBuckets }

def recordBytesSent (count : UInt64) : ShardMetrics := { s with bytesSent := s.bytesSent + count }

def recordBytesRead (count : UInt64) : ShardMetrics := { s with bytesRead := s.bytesRead + count }

def recordConnectionAttempt : ShardMetrics := { s with connectionAttempts := s.connectionAttempts + 1 }

def recordConnectionFail : ShardMetrics := { s with failedConnections := s.failedConnections + 1 }

def recordConnectionSuccess : ShardMetrics := { s with finishedConnections := s.finishedConnections + 1 }

def fetchSnapshot : MetricsSnapshot where
  bytesSent := s.bytesSent
  bytesRead := s.bytesRead
  connectionAttempts := s.connectionAttempts
  failedConnections := s.failedConnections
  finishedConnections := s.finishedConnections
  connectionLatencyBuckets := s.connectionLatencyBuckets
  sendLatencyBuckets := s.sendLatencyBuckets
  readLatencyBuckets := s.readLatencyBuckets

/-- The call behind an entry of a session's log. -/
def record : Metric → ShardMetrics
  | .connectionAttempt => s.recordConnectionAttempt
  | .connectionFail => s.recordConnectionFail
  | .connectionSuccess => s.recordConnectionSuccess
  | .connectionLatency us => s.recordConnectionLatency (UInt64.ofNat us)
  | .sendLatency us => s.recordSendLatency (UInt64.ofNat us)
  | .readLatency us => s.recordReadLatency (UInt64.ofNat us)
  | .bytesSent count => s.recordBytesSent (UInt64.ofNat count)
  | .bytesRead count => s.recordBytesRead (UInt64.ofNat count)

def recordAll (ms : List Metric) : ShardMetrics := ms.foldl record s

end ShardMetrics

/-! ## Tallies -/

/-- What an entry adds to a counter. -/
def Metric.weight : Counter → Metric → Nat
  | .bytesSent, .bytesSent count => count
  | .bytesRead, .bytesRead count => count
  | .connectionAttempts, .connectionAttempt => 1
  | .failedConnections, .connectionFail => 1
  | .finishedConnections, .connectionSuccess => 1
  | .connectionLatency i, .connectionLatency us => if latencyIndex (UInt64.ofNat us) = i then 1 else 0
  | .sendLatency i, .sendLatency us => if latencyIndex (UInt64.ofNat us) = i then 1 else 0
  | .readLatency i, .readLatency us => if latencyIndex (UInt64.ofNat us) = i then 1 else 0
  | _, _ => 0

def tally (c : Counter) (ms : List Metric) : Nat := (ms.map (Metric.weight c)).sum

@[simp] theorem tally_nil (c : Counter) : tally c [] = 0 := rfl

@[simp] theorem tally_cons (c : Counter) (m : Metric) (ms : List Metric) :
    tally c (m :: ms) = m.weight c + tally c ms := by
  simp [tally]

@[simp] theorem tally_append (c : Counter) (ms ms' : List Metric) : tally c (ms ++ ms') = tally c ms + tally c ms' := by
  simp [tally]

theorem countLatency_get (us : UInt64) (buckets : Vector UInt64 numBuckets) (i : Fin numBuckets)
    (hi : (i : Nat) < numBuckets) :
    (countLatency us buckets)[(i : Nat)] = buckets[(i : Nat)] + if latencyIndex us = i then 1 else 0 := by
  unfold countLatency
  by_cases h : latencyIndex us = i
  · subst h
    simp
  · have hne : (latencyIndex us : Nat) ≠ i := fun he => h (Fin.ext he)
    simp [h, hne]

@[simp] theorem ShardMetrics.fetchSnapshot_empty (c : Counter) : (fetchSnapshot {}).get c = 0 := by
  cases c <;> simp [fetchSnapshot, MetricsSnapshot.get]

theorem ofNat_ite (p : Prop) [Decidable p] : UInt64.ofNat (if p then 1 else 0) = if p then 1 else 0 := by
  split <;> rfl

theorem ShardMetrics.get_record (s : ShardMetrics) (m : Metric) (c : Counter) :
    (s.record m).fetchSnapshot.get c = s.fetchSnapshot.get c + UInt64.ofNat (m.weight c) := by
  cases m with
  | connectionLatency us | sendLatency us | readLatency us =>
    cases c <;> simp only [Metric.weight, ofNat_ite]
    all_goals first | exact countLatency_get _ _ _ (Fin.isLt _) | exact (UInt64.add_zero _).symm
  | _ =>
    cases c <;> first | rfl | exact (UInt64.add_zero _).symm

/-- A counter holds its tally, as far as 64 bits do. -/
theorem ShardMetrics.get_recordAll (c : Counter) : ∀ (ms : List Metric) (s : ShardMetrics),
    (s.recordAll ms).fetchSnapshot.get c = s.fetchSnapshot.get c + UInt64.ofNat (tally c ms)
  | [], s => (UInt64.add_zero _).symm
  | m :: ms, s => by
    have ih := get_recordAll c ms (s.record m)
    rw [recordAll, List.foldl_cons, ← recordAll, ih, get_record, tally_cons, UInt64.ofNat_add, UInt64.add_assoc]

/-! ## Buckets -/

/-- A bucket takes what lies below twice the bound of the one before; the last
one takes the rest. -/
theorem latencyIndex_le_iff {us : UInt64} {i : Nat} (hi : i < 15) :
    (latencyIndex us : Nat) ≤ i ↔ us.toNat < 64 * 2 ^ i := by
  have hpow : 64 * 2 ^ i = 2 ^ (i + 6) := by
    rw [Nat.pow_add, Nat.mul_comm]
  unfold latencyIndex
  by_cases hlt : us < 64
  · have h64 : us.toNat < 64 := hlt
    have hone : 1 ≤ 2 ^ i := Nat.one_le_two_pow
    rw [if_pos hlt]
    apply iff_of_true
    · exact Nat.zero_le i
    · omega
  · have h64 : 64 ≤ us.toNat := Nat.not_lt.mp hlt
    have hne : us ≠ 0 := by
      intro h0
      simp [h0] at h64
    have hwidth : bitWidth us = us.toNat.log2 + 1 := if_neg hne
    have hlog : 6 ≤ us.toNat.log2 := (Nat.le_log2 (by omega)).mpr h64
    have hiff : us.toNat.log2 < i + 6 ↔ us.toNat < 64 * 2 ^ i := by
      rw [hpow]
      exact Nat.log2_lt (by omega)
    rw [if_neg hlt, ← hiff]
    simp only [hwidth]
    split
    · simp only
      omega
    · simp only [numBuckets]
      omega

inductive LatencyKind where
  | connection
  | send
  | read
deriving DecidableEq

def LatencyKind.bucket : LatencyKind → Fin numBuckets → Counter
  | .connection => .connectionLatency
  | .send => .sendLatency
  | .read => .readLatency

def LatencyKind.buckets : LatencyKind → MetricsSnapshot → Vector UInt64 numBuckets
  | .connection, s => s.connectionLatencyBuckets
  | .send, s => s.sendLatencyBuckets
  | .read, s => s.readLatencyBuckets

def Metric.latency? : LatencyKind → Metric → Option Nat
  | .connection, .connectionLatency us => some us
  | .send, .sendLatency us => some us
  | .read, .readLatency us => some us
  | _, _ => none

/-- The latencies of a kind, in the order they were recorded. -/
def latencies (kind : LatencyKind) (ms : List Metric) : List Nat := ms.filterMap (Metric.latency? kind)

theorem latencies_cons (kind : LatencyKind) (m : Metric) (ms : List Metric) :
    latencies kind (m :: ms) = (m.latency? kind).toList ++ latencies kind ms := by
  rw [latencies, List.filterMap_cons, ← latencies]
  cases m.latency? kind <;> rfl

/-- The first buckets of a histogram, together. -/
def bucketsBelow (kind : LatencyKind) (n : Nat) : List Counter := ((List.finRange numBuckets).take n).map kind.bucket

theorem buckets_take (kind : LatencyKind) (s : MetricsSnapshot) (n : Nat) :
    (kind.buckets s).toList.take n = (bucketsBelow kind n).map s.get := by
  have hget : ∀ j : Fin numBuckets, s.get (kind.bucket j) = (kind.buckets s)[j] := by
    intro j
    cases kind <;> rfl
  rw [bucketsBelow, List.map_map, List.map_take]
  congr 1
  apply List.ext_getElem
  · simp
  · intro i h₁ h₂
    simp [hget]

theorem sum_map_ite {α : Type} [DecidableEq α] (a : α) (l : List α) :
    (l.map fun b => if a = b then 1 else 0).sum = l.count a := by
  induction l with
  | nil => rfl
  | cons b l ih =>
    rw [List.map_cons, List.sum_cons, ih, List.count_cons]
    by_cases h : a = b
    · simp [h, Nat.add_comm]
    · simp [h, Ne.symm h]

theorem count_take_finRange {n k : Nat} (a : Fin n) : ((List.finRange n).take k).count a = if a < k then 1 else 0 := by
  have hnodup : ((List.finRange n).take k).Nodup := (List.nodup_finRange n).sublist (List.take_sublist ..)
  have hmem : a ∈ (List.finRange n).take k ↔ a < k := by
    rw [List.mem_take_iff_getElem]
    constructor
    · intro ⟨j, hj, ha⟩
      rw [List.getElem_finRange] at ha
      subst ha
      simp at hj ⊢
      omega
    · intro hk
      exact ⟨a, by simp; omega, by simp⟩
  by_cases hk : a < k
  · rw [if_pos hk, List.count_eq_one_of_mem hnodup (hmem.mpr hk)]
  · rw [if_neg hk, List.count_eq_zero.mpr fun h => hk (hmem.mp h)]

theorem weight_bucket (kind : LatencyKind) (m : Metric) (j : Fin numBuckets) : m.weight (kind.bucket j) =
    (m.latency? kind).elim 0 fun us => if latencyIndex (UInt64.ofNat us) = j then 1 else 0 := by
  cases kind <;> cases m <;> rfl

theorem sum_weight (kind : LatencyKind) (m : Metric) (n : Nat) :
    ((bucketsBelow kind n).map (m.weight ·)).sum =
      (m.latency? kind).toList.countP fun us => latencyIndex (UInt64.ofNat us) < n := by
  rw [bucketsBelow, List.map_map]
  simp only [Function.comp_def, weight_bucket]
  cases m.latency? kind with
  | none => simp
  | some us =>
    simp only [Option.elim_some, sum_map_ite, count_take_finRange, Option.toList_some, List.countP_singleton]
    simp

theorem sum_tally (kind : LatencyKind) (n : Nat) (ms : List Metric) : ((bucketsBelow kind n).map (tally · ms)).sum =
    (latencies kind ms).countP fun us => latencyIndex (UInt64.ofNat us) < n := by
  induction ms with
  | nil => simp [latencies]
  | cons m ms ih =>
    simp only [tally_cons, List.sum_map_add, sum_weight, ih, latencies_cons, List.countP_append]

/-- The sixteen buckets hold every sample, and the first ones those below a
power of two. -/
theorem sum_tally_below (kind : LatencyKind) (ms : List Metric) {i : Nat} (hi : i < 15) :
    ((bucketsBelow kind (i + 1)).map (tally · ms)).sum =
      (latencies kind ms).countP fun us => (UInt64.ofNat us).toNat < 64 * 2 ^ i := by
  rw [sum_tally]
  congr 1
  funext us
  rw [decide_eq_decide, ← latencyIndex_le_iff hi, Nat.lt_succ_iff]

theorem sum_tally_all (kind : LatencyKind) (ms : List Metric) :
    ((bucketsBelow kind numBuckets).map (tally · ms)).sum = (latencies kind ms).length := by
  rw [sum_tally, List.countP_eq_length]
  intro us _
  exact decide_eq_true (latencyIndex _).isLt

end Loadshear
