import Mathlib.Data.UInt

/-!
# Sampled operations

A counter that goes up when an operation starts and that a finished operation is
compared with. Preset to the rate, it lets one operation in `rate + 1` through
(`recorded_iff`).
-/

namespace Sampling

/-- Microseconds between two times in nanoseconds. -/
def elapsed (began ended : Nat) : Nat := (ended - began) / 1000

structure Meter where
  counter : UInt32
  startTime : Nat
  latencies : List Nat

namespace Meter

variable {rate : UInt32} {now : Nat} {m : Meter}

def start (rate : UInt32) (now : Nat) (m : Meter) : Meter :=
  { m with
    counter := m.counter + 1
    startTime := if rate ≤ m.counter + 1 then now else m.startTime }

def stop (rate : UInt32) (now : Nat) (m : Meter) : Meter :=
  if rate < m.counter then
    { m with counter := 0, latencies := m.latencies ++ [elapsed m.startTime now] }
  else m

/-- What the stop of an operation records. -/
def recorded (rate : UInt32) (now : Nat) (m : Meter) : List Nat :=
  if rate < m.counter then [elapsed m.startTime now] else []

theorem stop_latencies : (m.stop rate now).latencies = m.latencies ++ m.recorded rate now := by
  unfold stop recorded
  by_cases h : rate < m.counter <;> simp [h]

theorem stop_counter : (m.stop rate now).counter = if rate < m.counter then 0 else m.counter := by
  unfold stop
  by_cases h : rate < m.counter <;> simp [h]

/-- The time of an operation that is recorded is its own. -/
def Timed (rate : UInt32) (began : Nat) (m : Meter) : Prop := rate ≤ m.counter → m.startTime = began

theorem start_timed : (m.start rate now).Timed rate now := by
  intro h
  exact if_pos h

theorem Timed.recorded {began : Nat} (h : m.Timed rate began) :
    m.recorded rate now = if rate < m.counter then [elapsed began now] else [] := by
  unfold Meter.recorded
  by_cases hc : rate < m.counter
  · rw [if_pos hc, if_pos hc, h (UInt32.le_of_lt hc)]
  · rw [if_neg hc, if_neg hc]

end Meter

/-! ## The period -/

/-- Where the counter stands once `n` operations are finished. -/
def phase (rate : UInt32) : Nat → Nat
  | 0 => rate.toNat
  | n + 1 => n % (rate.toNat + 1)

variable {rate : UInt32} {n : Nat}

theorem phase_le : phase rate n ≤ rate.toNat := by
  cases n with
  | zero => exact Nat.le_refl _
  | succ n => exact Nat.lt_succ_iff.mp (Nat.mod_lt _ (Nat.succ_pos _))

theorem phase_eq_iff : phase rate n = rate.toNat ↔ n % (rate.toNat + 1) = 0 := by
  cases n with
  | zero => simp [phase]
  | succ n =>
    rw [phase]
    constructor
    · intro h
      rw [Nat.add_mod, h]
      by_cases h1 : rate.toNat = 0
      · rw [h1]
      · rw [Nat.mod_eq_of_lt (show 1 < rate.toNat + 1 by omega), Nat.mod_self]
    · intro h
      obtain ⟨k, hk⟩ := Nat.dvd_of_mod_eq_zero h
      cases k with
      | zero => omega
      | succ k =>
        have hn : n = rate.toNat + (rate.toNat + 1) * k := by rw [Nat.mul_succ] at hk; omega
        rw [hn, Nat.add_mul_mod_self_left, Nat.mod_eq_of_lt (Nat.lt_succ_self _)]

theorem phase_succ (h : phase rate n ≠ rate.toNat) : phase rate (n + 1) = phase rate n + 1 := by
  cases n with
  | zero => exact absurd rfl h
  | succ n =>
    rw [phase] at h
    have hlt : n % (rate.toNat + 1) < rate.toNat + 1 := Nat.mod_lt n (Nat.succ_pos _)
    have h1 : rate.toNat ≠ 0 := by omega
    rw [phase, phase, Nat.add_mod, Nat.mod_eq_of_lt (show 1 < rate.toNat + 1 by omega)]
    exact Nat.mod_eq_of_lt (by omega)

theorem phase_wrap (h : phase rate n = rate.toNat) : phase rate (n + 1) = 0 := phase_eq_iff.mp h

/-- Operation `n` is recorded when its number is a multiple of one more than the
rate, unless the counter wraps. -/
theorem recorded_iff : rate < UInt32.ofNat (phase rate n + 1) ↔
    n % (rate.toNat + 1) = 0 ∧ rate.toNat + 1 < 2 ^ 32 := by
  rw [UInt32.lt_iff_toNat_lt, UInt32.toNat_ofNat', ← phase_eq_iff]
  have hle : phase rate n ≤ rate.toNat := phase_le
  have hrate := rate.toNat_lt
  by_cases h : rate.toNat + 1 < 2 ^ 32
  · rw [Nat.mod_eq_of_lt (by omega)]
    omega
  · constructor
    · intro hlt
      have hmod := Nat.mod_lt (phase rate n + 1) (show 0 < 2 ^ 32 by decide)
      omega
    · intro ⟨_, hlt⟩
      exact absurd hlt h

theorem stop_phase {m : Meter} {now : Nat} (h : m.counter = UInt32.ofNat (phase rate n + 1)) :
    (m.stop rate now).counter = UInt32.ofNat (phase rate (n + 1)) := by
  rw [Meter.stop_counter, h]
  by_cases hr : rate < UInt32.ofNat (phase rate n + 1)
  · rw [if_pos hr, phase_wrap (phase_eq_iff.mpr (recorded_iff.mp hr).1)]
    rfl
  · rw [if_neg hr]
    by_cases hp : phase rate n = rate.toNat
    · have hrate := rate.toNat_lt
      have hwrap : rate.toNat + 1 = 2 ^ 32 := by
        by_contra hn
        exact hr (recorded_iff.mpr ⟨phase_eq_iff.mp hp, by omega⟩)
      rw [hp, hwrap, phase_wrap hp]
      rfl
    · rw [phase_succ hp]

end Sampling
