import Mathlib.Data.List.Induction
import Mathlib.Data.List.TakeWhile
import Loadshear.Interpreter

/-!
# The bytes that modifications write

Which lists of modifications the validator lets through (`verifySend_ok_iff`):
`insert_mod_range` compares lengths where it has to compare ends. So it lets
overlapping ranges pass and refuses some that are disjoint
(`verifySend_proper_iff`).
-/

namespace Loadshear

/-! ## A sorted map -/

section
variable {map map' : ModRanges} {key : UInt32}

theorem mem_below {e : UInt32 × UInt32} (h : e ∈ map.takeWhile (·.1 < key)) : e.1 < key := by
  simpa using List.mem_takeWhile_imp h

theorem mem_above (hs : map.Pairwise (·.1 < ·.1)) {e : UInt32 × UInt32} (h : e ∈ map.dropWhile (·.1 < key)) :
    key ≤ e.1 := by
  induction map with
  | nil => simp at h
  | cons a map ih =>
    obtain ⟨ha, hs⟩ := List.pairwise_cons.mp hs
    by_cases hlt : a.1 < key
    · rw [List.dropWhile_cons_of_pos (by simpa using hlt)] at h
      exact ih hs h
    · rw [List.dropWhile_cons_of_neg (by simpa using hlt)] at h
      have hle := UInt32.not_lt.mp hlt
      rcases List.mem_cons.mp h with rfl | h
      · exact hle
      · exact UInt32.le_trans hle (UInt32.le_of_lt (ha e h))

theorem mem_iff_below_or_above {e : UInt32 × UInt32} :
    e ∈ map ↔ e ∈ map.takeWhile (·.1 < key) ∨ e ∈ map.dropWhile (·.1 < key) := by
  rw [← List.mem_append, List.takeWhile_append_dropWhile]

/-- The lowest range from the key on stands for all of them. -/
theorem lowerBound_all (hs : map.Pairwise (·.1 < ·.1)) {n : UInt32} :
    (∀ e, lowerBound map key = some e → n < e.1) ↔ ∀ e ∈ map, key ≤ e.1 → n < e.1 := by
  constructor
  · intro h e hm hk
    have habove : e ∈ map.dropWhile (·.1 < key) := by
      rcases mem_iff_below_or_above.mp hm with hb | ha
      · exact absurd (mem_below hb) (UInt32.not_lt.mpr hk)
      · exact ha
    have hsub := hs.sublist (List.dropWhile_sublist (·.1 < key))
    unfold lowerBound at h
    generalize map.dropWhile (·.1 < key) = above at *
    cases above with
    | nil => cases habove
    | cons a above =>
      have ha := h a rfl
      rcases List.mem_cons.mp habove with rfl | he
      · exact ha
      · exact UInt32.lt_trans ha ((List.pairwise_cons.mp hsub).1 e he)
  · intro h e he
    have hm := List.mem_of_mem_head? he
    exact h e (mem_iff_below_or_above.mpr (.inr hm)) (mem_above hs hm)

/-- The last range before the key stands for all of them, when each of these
was far enough from the next. -/
theorem beforeLowerBound_all (hs : map.Pairwise (·.1 < ·.1)) (ha : map.Pairwise (·.2 < ·.1)) :
    (∀ e, beforeLowerBound map key = some e → e.2 < key) ↔ ∀ e ∈ map, e.1 < key → e.2 < key := by
  constructor
  · intro h e hm hk
    have hbelow : e ∈ map.takeWhile (·.1 < key) := by
      rcases mem_iff_below_or_above.mp hm with hb | ha
      · exact hb
      · exact absurd hk (UInt32.not_lt.mpr (mem_above hs ha))
    have hsub := ha.sublist (List.takeWhile_sublist (·.1 < key))
    unfold beforeLowerBound at h
    have hlt : ∀ f ∈ map.takeWhile (·.1 < key), f.1 < key := fun f => mem_below
    generalize map.takeWhile (·.1 < key) = below at *
    rcases List.eq_nil_or_concat below with rfl | ⟨init, p, rfl⟩
    · cases hbelow
    rw [List.concat_eq_append] at *
    have hp := h p (by simp)
    rcases List.mem_append.mp hbelow with he | he
    · have hep := (List.pairwise_append.mp hsub).2.2 e he p (List.mem_singleton_self _)
      exact UInt32.lt_trans hep (hlt p (by simp))
    · obtain rfl := List.mem_singleton.mp he
      exact hp
  · intro h e he
    have hm := List.mem_of_getLast? he
    exact h e (mem_iff_below_or_above.mpr (.inl hm)) (mem_below hm)

end

/-! ## The comparisons -/

def lastAt (earlier : List Range) (start : UInt32) : Option Range := earlier.reverse.find? (·.start = start)

theorem lastAt_append (earlier : List Range) (r : Range) (start : UInt32) :
    lastAt (earlier ++ [r]) start = if r.start = start then some r else lastAt earlier start := by
  by_cases h : r.start = start <;> simp [lastAt, h]

/-- An earlier range begins behind the start of the new one, but within its
length; or before, and its length reaches the start of the new one. -/
def Range.Clashes (r : Range) (earlier : List Range) : Prop :=
  ∃ e, lastAt earlier e.start = some e ∧
    (r.start ≤ e.start ∧ e.start ≤ r.second ∨ e.start < r.start ∧ r.start ≤ e.second)

def Spread : List Range → List Range → Prop
  | _, [] => True
  | earlier, r :: ranges => ¬ r.Clashes earlier ∧ Spread (earlier ++ [r]) ranges

structure Tracks (earlier : List Range) (map : ModRanges) : Prop where
  sorted : map.Pairwise (·.1 < ·.1)
  apart : map.Pairwise (·.2 < ·.1)
  entries : ∀ e : Range, (e.start, e.second) ∈ map ↔ lastAt earlier e.start = some e

theorem Tracks.nil : Tracks [] [] := ⟨.nil, .nil, fun e => by simp [lastAt]⟩

theorem insertModRange_ok {map map' : ModRanges} {r : Range} {i : Nat} : insertModRange map r i = .ok map' ↔
    (∀ e, lowerBound map r.start = some e → r.second < e.1) ∧
      (∀ e, beforeLowerBound map r.start = some e → e.2 < r.start) ∧
      modRangesAssign map r.start r.second = map' := by
  unfold insertModRange
  cases lowerBound map r.start with
  | none =>
    cases beforeLowerBound map r.start with
    | none => simp [pure, Except.pure]
    | some p =>
      by_cases hp : r.start ≤ p.2
      · simp [hp, UInt32.not_lt.mpr hp, throw, throwThe, MonadExceptOf.throw, Functor.map, Except.map]
      · simp [hp, pure, Except.pure, UInt32.not_le.mp hp]
  | some e =>
    by_cases he : e.1 ≤ r.second
    · simp [he, UInt32.not_lt.mpr he, throw, throwThe, MonadExceptOf.throw, bind, Except.bind]
    · cases beforeLowerBound map r.start with
      | none => simp [he, pure, Except.pure, UInt32.not_le.mp he]
      | some p =>
        by_cases hp : r.start ≤ p.2
        · simp [he, hp, UInt32.not_lt.mpr hp, throw, throwThe, MonadExceptOf.throw, Functor.map, Except.map]
        · simp [he, hp, pure, Except.pure, UInt32.not_le.mp he, UInt32.not_le.mp hp]

section
variable {earlier : List Range} {map map' : ModRanges} {r : Range} {i : Nat}

theorem Tracks.insert (h : Tracks earlier map) :
    insertModRange map r i = .ok map' ↔ ¬ r.Clashes earlier ∧ modRangesAssign map r.start r.second = map' := by
  rw [insertModRange_ok, lowerBound_all h.sorted, beforeLowerBound_all h.sorted h.apart, ← and_assoc]
  apply and_congr_left
  intro _
  constructor
  · intro ⟨habove, hbelow⟩ ⟨e, he, hc⟩
    have hm := (h.entries e).mpr he
    rcases hc with ⟨hle, hc⟩ | ⟨hlt, hc⟩
    · exact UInt32.not_lt.mpr hc (habove _ hm hle)
    · exact UInt32.not_lt.mpr hc (hbelow _ hm hlt)
  · intro hc
    refine ⟨fun e hm hle => UInt32.not_le.mp fun hc' => hc ?_, fun e hm hlt => UInt32.not_le.mp fun hc' => hc ?_⟩
    · exact ⟨⟨e.1, e.2⟩, (h.entries ⟨e.1, e.2⟩).mp hm, .inl ⟨hle, hc'⟩⟩
    · exact ⟨⟨e.1, e.2⟩, (h.entries ⟨e.1, e.2⟩).mp hm, .inr ⟨hlt, hc'⟩⟩

theorem mem_modRangesAssign {key value : UInt32} {e : UInt32 × UInt32} : e ∈ modRangesAssign map key value ↔
    e ∈ map.takeWhile (·.1 < key) ∨ e = (key, value) ∨ e ∈ map.dropWhile (·.1 < key) ∧ e.1 ≠ key := by
  simp [modRangesAssign]

theorem pairwise_modRangesAssign {R : UInt32 × UInt32 → UInt32 × UInt32 → Prop} {key value : UInt32}
    (h : map.Pairwise R) (hbelow : ∀ e ∈ map.takeWhile (·.1 < key), R e (key, value))
    (habove : ∀ e ∈ map.dropWhile (·.1 < key), e.1 ≠ key → R (key, value) e) :
    (modRangesAssign map key value).Pairwise R := by
  rw [← List.takeWhile_append_dropWhile (p := (·.1 < key)) (l := map)] at h
  obtain ⟨hb, ha, hba⟩ := List.pairwise_append.mp h
  refine List.pairwise_append.mpr ⟨hb, List.pairwise_cons.mpr ⟨fun e he => ?_, ha.sublist List.filter_sublist⟩, ?_⟩
  · obtain ⟨hm, hne⟩ := List.mem_filter.mp he
    exact habove e hm (by simpa using hne)
  · intro a ha b hb
    rcases List.mem_cons.mp hb with rfl | hb
    · exact hbelow a ha
    · exact hba a ha b (List.mem_filter.mp hb).1

theorem Tracks.assign (h : Tracks earlier map) (hc : ¬ r.Clashes earlier) :
    Tracks (earlier ++ [r]) (modRangesAssign map r.start r.second) := by
  have hclash : ∀ e ∈ map, ¬ (r.start ≤ e.1 ∧ e.1 ≤ r.second ∨ e.1 < r.start ∧ r.start ≤ e.2) :=
    fun e hm hce => hc ⟨⟨e.1, e.2⟩, (h.entries ⟨e.1, e.2⟩).mp hm, hce⟩
  refine ⟨?_, ?_, fun e => ?_⟩
  · apply pairwise_modRangesAssign h.sorted (fun e => mem_below)
    intro e hm hne
    exact UInt32.lt_of_le_of_ne (mem_above h.sorted hm) (Ne.symm hne)
  · refine pairwise_modRangesAssign h.apart (fun e hm => ?_) fun e hm _ => ?_
    · have hnc := hclash e (mem_iff_below_or_above.mpr (.inl hm))
      exact UInt32.not_le.mp fun hc => hnc (.inr ⟨mem_below hm, hc⟩)
    · have hnc := hclash e (mem_iff_below_or_above.mpr (.inr hm))
      exact UInt32.not_le.mp fun hc => hnc (.inl ⟨mem_above h.sorted hm, hc⟩)
  · rw [mem_modRangesAssign, lastAt_append]
    by_cases hs : r.start = e.start
    · have hnb : (e.start, e.second) ∉ map.takeWhile (·.1 < e.start) := fun hb => UInt32.lt_irrefl _ (mem_below hb)
      obtain ⟨start, second⟩ := r
      obtain rfl : start = e.start := hs
      cases e
      simp [hnb, eq_comm]
    · rw [if_neg hs, ← h.entries, @mem_iff_below_or_above map r.start]
      simp [Ne.symm hs]

end

/-! ## All modifications -/

def Range.Short (size : UInt64) (r : Range) : Prop := r.second.toNat ≤ 8 ∧ r.endFromLength.toNat < size.toNat

def verifyRanges (name : String) (action : Action) (size : UInt64) (i : Nat) :
    ModRanges → List Range → ParseResult ModRanges
  | map, [] => .ok map
  | map, r :: ranges => do
    let map ← insertModRange map r i
    verifyModBytes name action size i r
    verifyRanges name action size i map ranges

section
variable {name : String} {action : Action} {size : UInt64} {i : Nat} {map map' : ModRanges} {earlier : List Range}

theorem verifyModBytes_ok {r : Range} : verifyModBytes name action size i r = .ok () ↔ r.Short size := by
  have hlen : r.second.toNat ≤ 8 ↔ ¬ 8 < r.second := by rw [UInt32.not_lt, UInt32.le_iff_toNat_le]; rfl
  unfold verifyModBytes Range.Short
  rw [hlen]
  by_cases h : 8 < r.second
  · simp [h]
  · by_cases h' : size.toNat ≤ r.endFromLength.toNat
    · simp [h, h', Nat.not_lt.mpr h']
    · simp [h, h', Nat.not_le.mp h']

theorem verifyTimestampMods_eq : ∀ {ms : List TimestampModification} {map : ModRanges},
    (∀ m ∈ ms, m.formatName ∈ validTimeFormats) → verifyTimestampMods action size i map ms =
      verifyRanges "TIMESTAMP" action size i map (ms.map (·.timestampBytes))
  | [], _, _ => rfl
  | m :: ms, map, h => by
    obtain ⟨hm, h⟩ := List.forall_mem_cons.mp h
    rw [verifyTimestampMods, List.map_cons, verifyRanges]
    cases insertModRange map m.timestampBytes i with
    | error e => rfl
    | ok map₁ =>
      simp only [bind, Except.bind, hm, not_true_eq_false, if_false]
      cases verifyModBytes "TIMESTAMP" action size i m.timestampBytes with
      | error e => rfl
      | ok u => exact verifyTimestampMods_eq h

theorem verifyCounterMods_eq : ∀ {ms : List CounterModification} {map : ModRanges},
    (∀ m ∈ ms, m.counterStep ≠ 0) → verifyCounterMods action size i map ms =
      verifyRanges "COUNTER" action size i map (ms.map (·.counterBytes))
  | [], _, _ => rfl
  | m :: ms, map, h => by
    obtain ⟨hm, h⟩ := List.forall_mem_cons.mp h
    rw [verifyCounterMods, List.map_cons, verifyRanges]
    cases insertModRange map m.counterBytes i with
    | error e => rfl
    | ok map₁ =>
      simp only [bind, Except.bind, hm, if_false]
      cases verifyModBytes "COUNTER" action size i m.counterBytes with
      | error e => rfl
      | ok u => exact verifyCounterMods_eq h

theorem verifyRanges_sound : ∀ {ranges earlier : List Range} {map : ModRanges}, Tracks earlier map →
    verifyRanges name action size i map ranges = .ok map' →
    Spread earlier ranges ∧ (∀ r ∈ ranges, r.Short size) ∧ Tracks (earlier ++ ranges) map'
  | [], earlier, map, ht, h => by
    obtain rfl := Except.ok.inj h
    rw [List.append_nil]
    exact ⟨trivial, by simp, ht⟩
  | r :: ranges, earlier, map, ht, h => by
    obtain ⟨map₁, hi, h⟩ := bind_eq_ok h
    obtain ⟨⟨⟩, hb, h⟩ := bind_eq_ok h
    obtain ⟨hc, rfl⟩ := ht.insert.mp hi
    obtain ⟨hspread, hshort, htracks⟩ := verifyRanges_sound (ht.assign hc) h
    rw [List.append_assoc] at htracks
    exact ⟨⟨hc, hspread⟩, List.forall_mem_cons.mpr ⟨verifyModBytes_ok.mp hb, hshort⟩, htracks⟩

theorem verifyRanges_complete : ∀ {ranges earlier : List Range} {map : ModRanges}, Tracks earlier map →
    Spread earlier ranges → (∀ r ∈ ranges, r.Short size) →
    ∃ map', verifyRanges name action size i map ranges = .ok map'
  | [], _, map, _, _, _ => ⟨map, rfl⟩
  | r :: ranges, earlier, map, ht, hc, hs => by
    obtain ⟨hr, hs⟩ := List.forall_mem_cons.mp hs
    obtain ⟨map', h⟩ := verifyRanges_complete (ht.assign hc.1) hc.2 hs
    refine ⟨map', ?_⟩
    rw [verifyRanges, ht.insert.mpr ⟨hc.1, rfl⟩]
    simp only [bind, Except.bind, verifyModBytes_ok.mpr hr]
    exact h

theorem spread_append {ranges' : List Range} : ∀ {ranges earlier : List Range},
    Spread earlier (ranges ++ ranges') ↔ Spread earlier ranges ∧ Spread (earlier ++ ranges) ranges'
  | [], earlier => by simp [Spread]
  | r :: ranges, earlier => by
    rw [List.cons_append, Spread, Spread, spread_append, List.append_assoc, and_assoc]
    rfl

end

def ModList.ranges (mods : ModList) : List Range :=
  mods.timestampMods.map (·.timestampBytes) ++ mods.counterMods.map (·.counterBytes)

/-- A SEND that only the ranges of its modifications can fail. -/
structure OtherwiseValid (env : Env) (settings : SettingsBlock) (i : Nat) (action : Action) (st : ValidatorState)
    (size : UInt64) : Prop where
  count : action.count ≠ 0
  pool : verifyInPool "SEND" "" ")" i action.range st.poolSize = .ok ()
  packet : verifyPacket env settings i action = .ok size
  formats : ∀ m ∈ action.mods.timestampMods, m.formatName ∈ validTimeFormats
  steps : ∀ m ∈ action.mods.counterMods, m.counterStep ≠ 0
  connected : (sweep (· != 1) none (notConnected "SEND" i) action.range.indices st.sessionActive).isOk

section
variable {env : Env} {settings : SettingsBlock} {i : Nat} {action : Action} {st st' : ValidatorState} {size : UInt64}

theorem verifySend_ok_iff (h : OtherwiseValid env settings i action st size) :
    (verifySend env settings i action st).isOk ↔
      Spread [] action.mods.ranges ∧ ∀ r ∈ action.mods.ranges, r.Short size := by
  obtain ⟨hcount, hpool, hpacket, hformats, hsteps, hconnected⟩ := h
  have hsend : (verifySend env settings i action st).isOk ↔ ∃ map map',
      verifyRanges "TIMESTAMP" action size i [] (action.mods.timestampMods.map (·.timestampBytes)) = .ok map ∧
      verifyRanges "COUNTER" action size i map (action.mods.counterMods.map (·.counterBytes)) = .ok map' := by
    unfold verifySend
    rw [if_neg hcount, hpool, hpacket]
    simp only [bind, Except.bind, pure, Except.pure, verifyTimestampMods_eq hformats]
    cases verifyRanges "TIMESTAMP" action size i [] (action.mods.timestampMods.map (·.timestampBytes)) with
    | error e => simp [Except.isOk, Except.toBool]
    | ok map =>
      simp only [verifyCounterMods_eq hsteps]
      cases hc : verifyRanges "COUNTER" action size i map (action.mods.counterMods.map (·.counterBytes)) with
      | error e => simp [Except.isOk, Except.toBool, hc]
      | ok map' =>
        cases hs : sweep (· != 1) none (notConnected "SEND" i) action.range.indices st.sessionActive with
        | error e => simp [hs, Except.isOk, Except.toBool] at hconnected
        | ok v => simp [Except.isOk, Except.toBool, hc]
  rw [hsend, ModList.ranges, spread_append, List.forall_mem_append]
  constructor
  · intro ⟨map, map', ht, hc⟩
    obtain ⟨hspread, hshort, htracks⟩ := verifyRanges_sound .nil ht
    obtain ⟨hspread', hshort', -⟩ := verifyRanges_sound htracks hc
    exact ⟨⟨hspread, hspread'⟩, hshort, hshort'⟩
  · intro ⟨⟨hspread, hspread'⟩, hshort, hshort'⟩
    obtain ⟨map, ht⟩ := @verifyRanges_complete "TIMESTAMP" action size i _ _ _ .nil hspread hshort
    obtain ⟨-, -, htracks⟩ := verifyRanges_sound .nil ht
    obtain ⟨map', hc⟩ := verifyRanges_complete htracks hspread' hshort'
    exact ⟨map, map', ht, hc⟩

end

/-! ## Disjoint ranges -/

def Range.Covers (r : Range) (k : Nat) : Prop := r.start.toNat ≤ k ∧ k < r.start.toNat + r.second.toNat

def Range.Apart (a b : Range) : Prop := ∀ k, a.Covers k → ¬ b.Covers k

/-- Every modification stays inside the packet, and no byte is written by two. -/
def Proper (size : UInt64) (ranges : List Range) : Prop :=
  (∀ r ∈ ranges, r.start.toNat + r.second.toNat ≤ size.toNat) ∧ ranges.Pairwise Range.Apart

def Range.AtFront (a b : Range) : Prop := a.start = 0 ∧ b.start = a.second

section
variable {a b e r : Range} {earlier ranges : List Range}

theorem apart_iff (ha : 1 ≤ a.second.toNat) (hb : 1 ≤ b.second.toNat) : a.Apart b ↔
    a.start.toNat + a.second.toNat ≤ b.start.toNat ∨ b.start.toNat + b.second.toNat ≤ a.start.toNat := by
  constructor
  · intro h
    by_contra hc
    rw [not_or, Nat.not_le, Nat.not_le] at hc
    refine h (max a.start.toNat b.start.toNat) ?_ ?_
    · exact ⟨by omega, by omega⟩
    · exact ⟨by omega, by omega⟩
  · intro h k ⟨h₁, h₂⟩ ⟨h₃, h₄⟩
    omega

theorem lastAt_of_mem (h : earlier.Pairwise fun a b => a.start ≠ b.start) (he : e ∈ earlier) :
    lastAt earlier e.start = some e := by
  induction earlier using List.reverseRecOn with
  | nil => cases he
  | append_singleton earlier r ih =>
    obtain ⟨h, -, hne⟩ := List.pairwise_append.mp h
    rw [lastAt_append]
    rcases List.mem_append.mp he with he | he
    · rw [if_neg (Ne.symm (hne e he r (List.mem_singleton_self _)))]
      exact ih h he
    · obtain rfl := List.mem_singleton.mp he
      exact if_pos rfl

theorem mem_of_lastAt {start : UInt32} (h : lastAt earlier start = some e) : e ∈ earlier := by
  simpa using List.mem_of_find?_eq_some h

/-- Of the ranges that are apart, only those at the front are refused. -/
theorem near_iff (ha : 1 ≤ e.second.toNat) (hr : 1 ≤ r.second.toNat) (h : e.Apart r) :
    (r.start ≤ e.start ∧ e.start ≤ r.second ∨ e.start < r.start ∧ r.start ≤ e.second) ↔
      (e.AtFront r ∨ r.AtFront e) := by
  have hz : ∀ x : UInt32, x = 0 ↔ x.toNat = 0 := fun x => by rw [← UInt32.toNat_inj]; rfl
  rw [apart_iff ha hr] at h
  unfold Range.AtFront
  simp only [UInt32.le_iff_toNat_le, UInt32.lt_iff_toNat_lt, hz, ← UInt32.toNat_inj]
  omega

theorem clashes_iff (h : (earlier ++ [r]).Pairwise Range.Apart) (hlen : ∀ a ∈ earlier ++ [r], 1 ≤ a.second.toNat) :
    r.Clashes earlier ↔ ∃ e ∈ earlier, e.AtFront r ∨ r.AtFront e := by
  have hr := hlen r (by simp)
  have happ := List.pairwise_append.mp h
  have hstarts : earlier.Pairwise fun a b => a.start ≠ b.start := by
    refine happ.1.imp_of_mem fun ha hb hapart heq => ?_
    have hab := (apart_iff (hlen _ (List.mem_append_left _ ha)) (hlen _ (List.mem_append_left _ hb))).mp hapart
    have hla := hlen _ (List.mem_append_left [r] ha)
    have hlb := hlen _ (List.mem_append_left [r] hb)
    rw [heq] at hab
    omega
  constructor
  · intro ⟨e, hl, hc⟩
    have he := mem_of_lastAt hl
    have hle := hlen e (List.mem_append_left _ he)
    exact ⟨e, he, (near_iff hle hr (happ.2.2 e he r (List.mem_singleton_self _))).mp hc⟩
  · intro ⟨e, he, hc⟩
    have hle := hlen e (List.mem_append_left _ he)
    exact ⟨e, lastAt_of_mem hstarts he, (near_iff hle hr (happ.2.2 e he r (List.mem_singleton_self _))).mpr hc⟩

theorem spread_iff : ∀ {ranges earlier : List Range}, (earlier ++ ranges).Pairwise Range.Apart →
    (∀ a ∈ earlier ++ ranges, 1 ≤ a.second.toNat) → (Spread earlier ranges ↔
      (∀ e ∈ earlier, ∀ r ∈ ranges, ¬ (e.AtFront r ∨ r.AtFront e)) ∧
        ranges.Pairwise fun e r => ¬ (e.AtFront r ∨ r.AtFront e))
  | [], earlier, _, _ => by simp [Spread]
  | r :: ranges, earlier, h, hlen => by
    have hassoc : earlier ++ r :: ranges = earlier ++ [r] ++ ranges := by simp
    rw [hassoc] at h hlen
    have hfirst := clashes_iff (h.sublist (List.sublist_append_left _ _)) fun a ha => hlen a (List.mem_append_left _ ha)
    rw [Spread, hfirst, spread_iff h hlen, List.pairwise_cons]
    simp only [List.mem_append, List.mem_cons, List.not_mem_nil, or_false]
    constructor
    · intro ⟨hr, hall, hp⟩
      refine ⟨fun e he x hx => ?_, fun x hx => hall r (.inr rfl) x hx, hp⟩
      rcases hx with rfl | hx
      · exact fun hc => hr ⟨e, he, hc⟩
      · exact hall e (.inl he) x hx
    · intro ⟨hall, hr, hp⟩
      refine ⟨fun ⟨e, he, hc⟩ => hall e he r (.inl rfl) hc, fun e he x hx => ?_, hp⟩
      rcases he with he | rfl
      · exact hall e he x (.inr hx)
      · exact hr x hx

/-- Disjoint ranges are let through unless one follows the front. -/
theorem spread_nil_iff (h : ranges.Pairwise Range.Apart) (hlen : ∀ a ∈ ranges, 1 ≤ a.second.toNat) :
    Spread [] ranges ↔ ∀ a ∈ ranges, ∀ b ∈ ranges, ¬ a.AtFront b := by
  rw [spread_iff (by simpa using h) (by simpa using hlen)]
  constructor
  · rintro ⟨-, hp⟩ a ha b hb hf
    have hself : ∀ x ∈ ranges, ¬ (x.AtFront x ∨ x.AtFront x) := by
      intro x hx hc
      have hlx := hlen x hx
      obtain ⟨hzero, hsecond⟩ := hc.elim id id
      rw [← hsecond, hzero] at hlx
      cases hlx
    have hflip := hp.imp fun {x y} h hc => h (Or.symm hc)
    exact List.Pairwise.forall_of_forall_of_flip hself hp hflip ha hb (.inl hf)
  · intro hall
    exact ⟨by simp, List.pairwise_of_forall_mem_list fun a ha b hb hc => hc.elim (hall a ha b hb) (hall b hb a ha)⟩

theorem short_iff {size : UInt64} (hs : r.start.toNat + r.second.toNat ≤ size.toNat) (hlen : r.second.toNat ≤ 8) :
    r.Short size ↔ (r.start.toNat + r.second.toNat = size.toNat → 2 ^ 32 ≤ size.toNat) := by
  have h1 := r.start.toNat_lt
  have h2 := r.second.toNat_lt
  unfold Range.Short Range.endFromLength
  rw [UInt32.toNat_add]
  omega

end

/-- Which lists are judged as they have to be: of the disjoint ones inside the
packet those with no range on the packet's last byte and none that follows
another at the front; of the rest those with a range that clashes with an
earlier one or whose 32-bit end is not inside the packet. -/
def Judged (size : UInt64) (ranges : List Range) : Prop :=
  (Proper size ranges →
    (∀ r ∈ ranges, r.start.toNat + r.second.toNat = size.toNat → 2 ^ 32 ≤ size.toNat) ∧
      ∀ a ∈ ranges, ∀ b ∈ ranges, ¬ a.AtFront b) ∧
  (¬ Proper size ranges → Spread [] ranges → ∃ r ∈ ranges, size.toNat ≤ r.endFromLength.toNat)

theorem verifySend_proper_iff {env : Env} {settings : SettingsBlock} {i : Nat} {action : Action} {st : ValidatorState}
    {size : UInt64} (h : OtherwiseValid env settings i action st size)
    (hlen : ∀ r ∈ action.mods.ranges, 1 ≤ r.second.toNat ∧ r.second.toNat ≤ 8) :
    ((verifySend env settings i action st).isOk ↔ Proper size action.mods.ranges) ↔
      Judged size action.mods.ranges := by
  rw [verifySend_ok_iff h]
  unfold Judged
  by_cases hp : Proper size action.mods.ranges
  · have hshort : (∀ r ∈ action.mods.ranges, r.Short size) ↔
        ∀ r ∈ action.mods.ranges, r.start.toNat + r.second.toNat = size.toNat → 2 ^ 32 ≤ size.toNat :=
      forall₂_congr fun r hr => short_iff (hp.1 r hr) (hlen r hr).2
    rw [spread_nil_iff hp.2 fun a ha => (hlen a ha).1, hshort]
    simp only [hp, iff_true, forall_const, not_true_eq_false, false_imp_iff, and_true]
    exact and_comm
  · have hshort : (∀ r ∈ action.mods.ranges, r.Short size) ↔
        ¬ ∃ r ∈ action.mods.ranges, size.toNat ≤ r.endFromLength.toNat := by
      simp only [not_exists, not_and, Nat.not_le]
      exact forall₂_congr fun r hr => ⟨fun h => h.2, fun h => ⟨(hlen r hr).2, h⟩⟩
    rw [hshort]
    simp only [hp, iff_false, false_imp_iff, true_and, not_false_eq_true, forall_const, not_and, not_not]

/-! ## On the plain script -/

def sendingState : ValidatorState := ⟨1, [1], [0]⟩

def timestampMod (start length : UInt32) : TimestampModification := ⟨⟨start, length⟩, true, "seconds"⟩

def counterMod (start length : UInt32) : CounterModification := ⟨⟨start, length⟩, 1, true⟩

def apartMods : ModList := (ModList.empty.pushTimestamp (timestampMod 12 4)).pushCounter (counterMod 2 8)

theorem apart_otherwiseValid :
    OtherwiseValid plainEnv (plainScript []).settings 2 (sendAction 0 1 1 apartMods) sendingState 24 :=
  ⟨by decide, by decide +kernel, by decide +kernel, by decide, by decide, by decide +kernel⟩

theorem verifySend_proper_iff_plain :
    ((verifySend plainEnv (plainScript []).settings 2 (sendAction 0 1 1 apartMods) sendingState).isOk ↔
      Proper 24 apartMods.ranges) ↔ Judged 24 apartMods.ranges :=
  verifySend_proper_iff apart_otherwiseValid (by decide)

/-- The comparison with a length lets the counter pass that is inside the
timestamp; and the last byte of the packet cannot be written. -/
theorem overlap_accepted :
    interpretText plainEnv .zero (plainText ("CREATE 1 CONNECT 0:1 SEND 0:1 p COPIES 1 "
      ++ "TIMESTAMP 10:8 \"little\":\"seconds\" COUNTER 12:4 \"little\":1")) =
        .ok (plainScript [createAction 1, rangedAction .CONNECT 0 1, sendAction 0 1 1
          ((ModList.empty.pushTimestamp (timestampMod 10 8)).pushCounter (counterMod 12 4))]) ∧
    ¬ Proper 24 [⟨10, 8⟩, ⟨12, 4⟩] ∧
    ¬ (interpretText plainEnv .zero (plainText ("CREATE 1 CONNECT 0:1 SEND 0:1 p COPIES 1 "
      ++ "TIMESTAMP 16:8 \"little\":\"seconds\""))).isOk ∧
    Proper 24 [⟨16, 8⟩] := by
  simp only [plainText_words, String.toList_append]
  refine ⟨by decide +kernel, ?_, by decide +kernel, by simp, List.pairwise_singleton _ _⟩
  intro h
  have hapart := (List.pairwise_cons.mp h.2).1 ⟨12, 4⟩ (by simp)
  exact hapart 12 ⟨by decide, by decide⟩ ⟨by decide, by decide⟩

end Loadshear
