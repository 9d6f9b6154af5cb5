import Mathlib.Algebra.BigOperators.Group.List.Basic
import Mathlib.Algebra.Ring.Int.Defs
import Mathlib.Data.List.Basic
import Mathlib.Data.UInt

/-!
# Metrics

`metrics-snapshot.h` and `orchestrator-metrics.h`: what the shards have written
down, and the aggregate that is computed of it.
-/

namespace Loadshear

abbrev numBuckets : Nat := 16

structure MetricsSnapshot where
  bytesSent : UInt64 := 0
  bytesRead : UInt64 := 0
  connectionAttempts : UInt64 := 0
  failedConnections : UInt64 := 0
  finishedConnections : UInt64 := 0
  connectedSessions : UInt64 := 0
  connectionLatencyBuckets : Vector UInt64 numBuckets := .replicate numBuckets 0
  sendLatencyBuckets : Vector UInt64 numBuckets := .replicate numBuckets 0
  readLatencyBuckets : Vector UInt64 numBuckets := .replicate numBuckets 0
deriving DecidableEq

namespace MetricsSnapshot

def add (lhs rhs : MetricsSnapshot) : MetricsSnapshot where
  bytesSent := lhs.bytesSent + rhs.bytesSent
  bytesRead := lhs.bytesRead + rhs.bytesRead
  connectionAttempts := lhs.connectionAttempts + rhs.connectionAttempts
  failedConnections := lhs.failedConnections + rhs.failedConnections
  finishedConnections := lhs.finishedConnections + rhs.finishedConnections
  connectedSessions := lhs.connectedSessions + rhs.connectedSessions
  connectionLatencyBuckets := .zipWith (· + ·) lhs.connectionLatencyBuckets rhs.connectionLatencyBuckets
  sendLatencyBuckets := .zipWith (· + ·) lhs.sendLatencyBuckets rhs.sendLatencyBuckets
  readLatencyBuckets := .zipWith (· + ·) lhs.readLatencyBuckets rhs.readLatencyBuckets

end MetricsSnapshot

structure MetricsDelta where
  bytesSent : Int64
  bytesRead : Int64
  connectionAttempts : Int64
  failedConnections : Int64
  finishedConnections : Int64
  connectedSessions : Int64
  connectionLatencyBuckets : Vector Int64 numBuckets
  sendLatencyBuckets : Vector Int64 numBuckets
  readLatencyBuckets : Vector Int64 numBuckets
deriving DecidableEq

/-- The difference of two counters, each cast to a signed number. -/
def difference (current previous : UInt64) : Int64 := current.toInt64 - previous.toInt64

def MetricsDelta.computeDifference (current previous : MetricsSnapshot) : MetricsDelta where
  bytesSent := difference current.bytesSent previous.bytesSent
  bytesRead := difference current.bytesRead previous.bytesRead
  connectionAttempts := difference current.connectionAttempts previous.connectionAttempts
  failedConnections := difference current.failedConnections previous.failedConnections
  finishedConnections := difference current.finishedConnections previous.finishedConnections
  connectedSessions := difference current.connectedSessions previous.connectedSessions
  connectionLatencyBuckets :=
    .zipWith difference current.connectionLatencyBuckets previous.connectionLatencyBuckets
  sendLatencyBuckets := .zipWith difference current.sendLatencyBuckets previous.sendLatencyBuckets
  readLatencyBuckets := .zipWith difference current.readLatencyBuckets previous.readLatencyBuckets

structure MetricsAggregate where
  currentSnapshotAggregate : MetricsSnapshot
  changeAggregate : MetricsDelta
  /-- Since startup. -/
  offset : Nat
deriving DecidableEq

/-- One pass of the loop of `get_aggregate_delta`, over the list of a shard. -/
def aggregateStep (sums : MetricsSnapshot × MetricsSnapshot) (snapshots : List MetricsSnapshot) :
    MetricsSnapshot × MetricsSnapshot :=
  let n := snapshots.length
  if n = 0 then sums
  else
    let current := sums.1.add (snapshots.getD (n - 1) {})
    if n ≥ 2 then (current, sums.2.add (snapshots.getD (n - 2) {})) else (current, sums.2)

/-- Without the time, which the caller sets. -/
def getAggregateDelta (shardMetricHistory : List (List MetricsSnapshot)) (offset : Nat) : MetricsAggregate :=
  let (current, prev) := shardMetricHistory.foldl aggregateStep ({}, {})
  ⟨current, .computeDifference current prev, offset⟩

/-! ## Counters by name -/

/-- A field of a snapshot or a bucket of one of its histograms. -/
inductive Counter where
  | bytesSent
  | bytesRead
  | connectionAttempts
  | failedConnections
  | finishedConnections
  | connectedSessions
  | connectionLatency (i : Fin numBuckets)
  | sendLatency (i : Fin numBuckets)
  | readLatency (i : Fin numBuckets)
deriving DecidableEq

def MetricsSnapshot.get (s : MetricsSnapshot) : Counter → UInt64
  | .bytesSent => s.bytesSent
  | .bytesRead => s.bytesRead
  | .connectionAttempts => s.connectionAttempts
  | .failedConnections => s.failedConnections
  | .finishedConnections => s.finishedConnections
  | .connectedSessions => s.connectedSessions
  | .connectionLatency i => s.connectionLatencyBuckets[i]
  | .sendLatency i => s.sendLatencyBuckets[i]
  | .readLatency i => s.readLatencyBuckets[i]

def MetricsDelta.get (s : MetricsDelta) : Counter → Int64
  | .bytesSent => s.bytesSent
  | .bytesRead => s.bytesRead
  | .connectionAttempts => s.connectionAttempts
  | .failedConnections => s.failedConnections
  | .finishedConnections => s.finishedConnections
  | .connectedSessions => s.connectedSessions
  | .connectionLatency i => s.connectionLatencyBuckets[i]
  | .sendLatency i => s.sendLatencyBuckets[i]
  | .readLatency i => s.readLatencyBuckets[i]

@[simp] theorem MetricsSnapshot.get_empty (c : Counter) : MetricsSnapshot.get {} c = 0 := by
  cases c <;> simp [get]

@[simp] theorem MetricsSnapshot.get_add (s t : MetricsSnapshot) (c : Counter) :
    (s.add t).get c = s.get c + t.get c := by
  cases c <;> simp [get, add]

@[simp] theorem MetricsDelta.get_computeDifference (s t : MetricsSnapshot) (c : Counter) :
    (MetricsDelta.computeDifference s t).get c = difference (s.get c) (t.get c) := by
  cases c <;> simp [get, MetricsSnapshot.get, computeDifference]

/-- Below `2 ^ 63` no cast and no difference overflows. -/
theorem difference_toInt {x y : UInt64} (hx : x.toNat < 2 ^ 63) (hy : y.toNat < 2 ^ 63) :
    (difference x y).toInt = x.toNat - y.toNat := by
  have hcast : ∀ z : UInt64, z.toNat < 2 ^ 63 → z.toInt64.toInt = z.toNat := by
    intro z hz
    rw [← Int64.toInt_toBitVec, UInt64.toBitVec_toInt64, BitVec.toInt_eq_toNat_of_lt]
    · simp
    · simpa using by omega
  rw [difference, Int64.toInt_sub, hcast x hx, hcast y hy, Int.bmod_eq_of_le] <;> omega

/-! ## Aggregates -/

/-- What the shards wrote down in a round. -/
def roundOf (r : Nat) (histories : List (List MetricsSnapshot)) : List MetricsSnapshot :=
  histories.filterMap (·[r]?)

/-- The sum of a counter over shards. -/
def total (c : Counter) (snapshots : List MetricsSnapshot) : UInt64 := (snapshots.map (·.get c)).sum

theorem total_cons (c : Counter) (s : MetricsSnapshot) (l : List MetricsSnapshot) :
    total c (s :: l) = s.get c + total c l := rfl

variable {r : Nat}

theorem roundOf_cons {h : List MetricsSnapshot} {histories : List (List MetricsSnapshot)} (hr : r < h.length) :
    roundOf r (h :: histories) = h.getD r {} :: roundOf r histories :=
  List.filterMap_cons_some (by simp [hr])

theorem aggregateStep_of_length {h : List MetricsSnapshot} (sums : MetricsSnapshot × MetricsSnapshot)
    (hl : h.length = r + 1) : aggregateStep sums h =
      (sums.1.add (h.getD r {}), if r = 0 then sums.2 else sums.2.add (h.getD (r - 1) {})) := by
  unfold aggregateStep
  rw [hl]
  by_cases hz : r = 0
  · simp [hz]
  · have hle : 1 ≤ r := by omega
    simp [hz, hle]

theorem foldl_aggregateStep (c : Counter) : ∀ (histories : List (List MetricsSnapshot))
    (sums : MetricsSnapshot × MetricsSnapshot), (∀ h ∈ histories, h.length = r + 1) →
    (histories.foldl aggregateStep sums).1.get c = sums.1.get c + total c (roundOf r histories) ∧
      (histories.foldl aggregateStep sums).2.get c =
        sums.2.get c + if r = 0 then 0 else total c (roundOf (r - 1) histories)
  | [], sums, _ => by simp [total, roundOf]
  | h :: histories, sums, hl => by
    have hlen := hl h (List.mem_cons_self ..)
    have ih := foldl_aggregateStep c histories (aggregateStep sums h) fun h' hh => hl h' (List.mem_cons_of_mem _ hh)
    rw [aggregateStep_of_length sums hlen] at ih
    rw [List.foldl_cons, aggregateStep_of_length sums hlen, ih.1, ih.2, roundOf_cons (by omega), total_cons,
      roundOf_cons (by omega), total_cons, MetricsSnapshot.get_add]
    refine ⟨UInt64.add_assoc .., ?_⟩
    by_cases hz : r = 0
    · simp [hz]
    · simp [hz, UInt64.add_assoc]

theorem getAggregateDelta_spec (c : Counter) {histories : List (List MetricsSnapshot)} {offset : Nat}
    (hl : ∀ h ∈ histories, h.length = r + 1) :
    (getAggregateDelta histories offset).currentSnapshotAggregate.get c = total c (roundOf r histories) ∧
      (getAggregateDelta histories offset).changeAggregate.get c = difference (total c (roundOf r histories))
        (if r = 0 then 0 else total c (roundOf (r - 1) histories)) := by
  obtain ⟨h₁, h₂⟩ := foldl_aggregateStep c histories ({}, {}) hl
  simp [getAggregateDelta, h₁, h₂]

end Loadshear
