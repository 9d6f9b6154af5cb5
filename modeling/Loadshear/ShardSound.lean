import Loadshear.OrchestratorSound
import Mathlib.Data.List.Intervals
import Mathlib.Data.List.Nodup
import Mathlib.Data.List.Sort
import Mathlib.Data.Set.Function

/-!
# Sessions by shard

CREATE cuts the session indices into one range a shard. A later action is sent to
the shards in their own indices, and reaches each session of its range once.
-/

namespace Loadshear.Orchestrator

open Pool (rangeOf)

/-! ## Pairs of shard and index -/

def size (range : UInt32 × UInt32) : Nat := range.2.toNat - range.1.toNat

/-- Session `i` of shard `k`, by its number in the script. -/
def number (ranges : List (UInt32 × UInt32)) (p : Nat × Nat) : Nat := (ranges[p.1]?).elim 0 (·.1.toNat) + p.2

def Held (ranges : List (UInt32 × UInt32)) (p : Nat × Nat) : Prop := ∃ range ∈ ranges[p.1]?, p.2 < size range

def indexed (f : UInt32 × UInt32 → List Nat) (ranges : List (UInt32 × UInt32)) : List (Nat × Nat) :=
  ranges.zipIdx.flatMap fun q => (f q.1).map (q.2, ·)

section Indexed

variable {f : UInt32 × UInt32 → List Nat} {ranges : List (UInt32 × UInt32)}

theorem mem_indexed {p : Nat × Nat} : p ∈ indexed f ranges ↔ ∃ range ∈ ranges[p.1]?, p.2 ∈ f range := by
  obtain ⟨k, i⟩ := p
  unfold indexed
  rw [List.mem_flatMap]
  constructor
  · intro ⟨q, hq, hp⟩
    obtain ⟨j, hj, he⟩ := List.mem_map.mp hp
    obtain ⟨rfl, rfl⟩ := Prod.mk.inj he
    exact ⟨q.1, List.mem_zipIdx_iff_getElem?.mp hq, hj⟩
  · intro ⟨range, hr, hi⟩
    exact ⟨(range, k), List.mem_zipIdx_iff_getElem?.mpr hr, List.mem_map.mpr ⟨i, hi, rfl⟩⟩

theorem indexed_number :
    (indexed f ranges).map (number ranges) = ranges.flatMap fun range => (f range).map (range.1.toNat + ·) := by
  have hmap : ∀ q ∈ ranges.zipIdx, ((f q.1).map (q.2, ·)).map (number ranges) = (f q.1).map (q.1.1.toNat + ·) := by
    intro q hq
    have hq := List.mem_zipIdx_iff_getElem?.mp hq
    rw [List.map_map]
    apply List.map_congr_left
    intro i _
    simp [number, hq]
  rw [indexed, List.map_flatMap, List.flatMap_congr hmap]
  conv_rhs => rw [← List.zipIdx_map_fst 0 ranges, List.flatMap_map]

/-- Where the numbers of the pairs form a list without repetition, they are a
bijection. -/
theorem bijOn_number {numbers : List Nat} (h : (indexed f ranges).map (number ranges) = numbers)
    (hn : numbers.Nodup) :
    (indexed f ranges).Nodup ∧ Set.BijOn (number ranges) {p | p ∈ indexed f ranges} {j | j ∈ numbers} := by
  subst h
  refine ⟨hn.of_map _, fun p hp => List.mem_map_of_mem hp, fun p hp q hq he => ?_, fun j hj => ?_⟩
  · exact List.inj_on_of_nodup_map hn hp hq he
  · exact List.mem_map.mp hj

end Indexed

/-! ## The sessions of a shard -/

def locals (a : ActionDescriptor) (range : UInt32 × UInt32) : List Nat := (shardAction a range).elim [] rangeOf

theorem Cuts.flatMap {base b : Nat} : ∀ {ranges : List (UInt32 × UInt32)} {a : Nat}, Cuts base a ranges b →
    (ranges.flatMap fun range => List.Ico range.1.toNat range.2.toNat) = List.Ico a b
  | [], a, h => by
    obtain rfl : a = b := h
    simp
  | range :: ranges, a, ⟨hs, hsize, h⟩ => by
    rw [List.flatMap_cons, h.flatMap, hs]
    exact List.Ico.append_consecutive (by omega) h.le

theorem mem_locals {a : ActionDescriptor} {range : UInt32 × UInt32} {i : Nat} :
    i ∈ locals a range ↔ range.1.toNat + i < range.2.toNat ∧ range.1.toNat + i ∈ rangeOf a := by
  unfold locals
  cases h : shardAction a range with
  | none => exact ⟨fun hi => absurd hi (List.not_mem_nil), fun hi => absurd hi.2 (shardAction_none h hi.1)⟩
  | some part => exact (shardAction_spec h).2.2.2.2 i

theorem locals_sorted (a : ActionDescriptor) (range : UInt32 × UInt32) : (locals a range).Pairwise (· < ·) := by
  unfold locals
  cases shardAction a range with
  | none => exact .nil
  | some part => exact List.pairwise_lt_range'

/-- By their numbers these are the sessions of the shard that lie in the action's
range. -/
theorem locals_number (a : ActionDescriptor) (range : UInt32 × UInt32) :
    (locals a range).map (range.1.toNat + ·) =
      (List.Ico range.1.toNat range.2.toNat).filter (· ∈ rangeOf a) := by
  refine List.Pairwise.eq_of_mem_iff ?_ ((List.Ico.pairwise_lt ..).filter _) fun j => ?_
  · exact List.Pairwise.map _ (fun _ _ h => Nat.add_lt_add_left h _) (locals_sorted a range)
  · rw [List.mem_filter, List.Ico.mem, List.mem_map, decide_eq_true_iff]
    constructor
    · intro ⟨i, hi, he⟩
      obtain ⟨hlt, hm⟩ := mem_locals.mp hi
      exact ⟨by omega, he ▸ hm⟩
    · intro ⟨hj, hm⟩
      have he : range.1.toNat + (j - range.1.toNat) = j := by omega
      exact ⟨j - range.1.toNat, mem_locals.mpr ⟨by omega, he.symm ▸ hm⟩, he⟩

def addressed (a : ActionDescriptor) (ranges : List (UInt32 × UInt32)) : List (Nat × Nat) := indexed (locals a) ranges

theorem addressed_number {base n : Nat} {ranges : List (UInt32 × UInt32)} {a : ActionDescriptor}
    (hc : Cuts base 0 ranges n) (ha : a.sessionsEnd.toNat ≤ n) :
    (addressed a ranges).map (number ranges) = rangeOf a := by
  calc (addressed a ranges).map (number ranges)
      = ranges.flatMap fun range => (List.Ico range.1.toNat range.2.toNat).filter (· ∈ rangeOf a) := by
        rw [addressed, indexed_number, List.flatMap_congr fun range _ => locals_number a range]
    _ = (List.Ico 0 n).filter (· ∈ rangeOf a) := by rw [← hc.flatMap, List.filter_flatMap]
    _ = rangeOf a := by
        apply List.Pairwise.eq_of_mem_iff ((List.Ico.pairwise_lt ..).filter _) List.pairwise_lt_range'
        intro j
        rw [List.mem_filter, List.Ico.mem, decide_eq_true_iff]
        refine ⟨fun h => h.2, fun h => ⟨?_, h⟩⟩
        have := (mem_rangeOf.mp h).2
        omega

theorem held_number {base n : Nat} {ranges : List (UInt32 × UInt32)} (hc : Cuts base 0 ranges n) :
    (indexed (fun range => List.range (size range)) ranges).map (number ranges) = List.range n := by
  have hsize : ∀ range ∈ ranges, (List.range (size range)).map (range.1.toNat + ·) =
      List.Ico range.1.toNat range.2.toNat := fun range _ => by
    rw [← List.Ico.zero_bot, List.Ico.map_add, size, List.Ico, List.Ico]
    simp
  rw [indexed_number, List.flatMap_congr hsize, hc.flatMap, List.Ico.zero_bot]

/-! ## Distributing -/

def sentTo (a : ActionDescriptor) (ranges : List (UInt32 × UInt32)) (k : Nat) : Option ActionDescriptor :=
  ranges[k]?.bind (shardAction a)

theorem mem_addressed {a : ActionDescriptor} {ranges : List (UInt32 × UInt32)} {p : Nat × Nat} :
    p ∈ addressed a ranges ↔ ∃ part ∈ sentTo a ranges p.1, p.2 ∈ rangeOf part := by
  rw [addressed, mem_indexed, sentTo]
  cases ranges[p.1]? with
  | none => simp
  | some range =>
    simp only [Option.mem_def, Option.some.injEq, exists_eq_left', Option.bind_some, locals]
    cases shardAction a range <;> simp

theorem Held.of_addressed {a : ActionDescriptor} {ranges : List (UInt32 × UInt32)} {p : Nat × Nat}
    (h : p ∈ addressed a ranges) : Held ranges p := by
  obtain ⟨range, hr, hp⟩ := mem_indexed.mp h
  have hlt := (mem_locals.mp hp).1
  refine ⟨range, hr, ?_⟩
  unfold size
  omega

theorem submitAll_sent {a : ActionDescriptor} {shards shards' : List Shard} {ranges : List (UInt32 × UInt32)}
    (h : submitAll a shards ranges = some shards') {k : Nat} {s : Shard} (hs : shards[k]? = some s) :
    shards'[k]? = some ((sentTo a ranges k).elim s s.submitWork) := by
  obtain ⟨hl, hall⟩ := submitAll_spec h
  have hk : k < shards'.length := hl ▸ (List.getElem?_eq_some_iff.mp hs).1
  obtain ⟨s₁, range, hs₁, hr, h'⟩ := hall k _ (List.getElem?_eq_getElem hk)
  obtain rfl := Option.some.inj (hs.symm.trans hs₁)
  rw [List.getElem?_eq_getElem hk, h', sentTo, hr, submitTo, Option.bind_some]
  cases shardAction a range <;> rfl

structure Numbers (ranges : List (UInt32 × UInt32)) (n : Nat) : Prop where
  numbered : Set.BijOn (number ranges) {p | Held ranges p} {j | j < n}
  even : ∀ r ∈ ranges, ∀ r' ∈ ranges, size r ≤ size r' + 1

/-- An action is sent to each of its sessions once, and to no other. -/
structure Distributes (a : ActionDescriptor) (o o' : Orchestrator) : Prop where
  kept : o'.shardRanges = o.shardRanges
  sent : ∀ (k : Nat) (s : Shard), o.shards[k]? = some s →
    o'.shards[k]? = some ((sentTo a o.shardRanges k).elim s s.submitWork)
  addressed : ∀ p, p ∈ addressed a o.shardRanges ↔ ∃ part ∈ sentTo a o.shardRanges p.1, p.2 ∈ rangeOf part
  once : (Orchestrator.addressed a o.shardRanges).Nodup
  bijective : Set.BijOn (number o.shardRanges) {p | p ∈ Orchestrator.addressed a o.shardRanges} {j | j ∈ rangeOf a}
  held : ∀ p ∈ Orchestrator.addressed a o.shardRanges, Held o.shardRanges p

theorem Cuts.numbers {base n : Nat} {ranges : List (UInt32 × UInt32)} (hc : Cuts base 0 ranges n) :
    Numbers ranges n := by
  constructor
  · have h := (bijOn_number (held_number hc) List.nodup_range).2
    have hheld : {p | p ∈ indexed (fun range => List.range (size range)) ranges} = {p | Held ranges p} := by
      ext p
      simp only [Set.mem_ofPred_eq, mem_indexed, List.mem_range, Held]
    simp only [List.mem_range] at h
    rwa [hheld] at h
  · intro r hr r' hr'
    have h := (hc.bounds r hr).1
    have h' := (hc.bounds r' hr').1
    unfold size
    omega

theorem Cuts.distributes {base n : Nat} {a : ActionDescriptor} {o : Orchestrator} (hc : Cuts base 0 o.shardRanges n)
    (hl : o.shards.length ≤ o.shardRanges.length) (ht : a.type ≠ .CREATE) (ha : a.sessionsEnd.toNat ≤ n) :
    ∃ o', o.distributeActionToShards a = some o' ∧ Distributes a o o' := by
  obtain ⟨shards, hs⟩ := Option.isSome_iff_exists.mp (submitAll_isSome (a := a) hl)
  obtain ⟨hnodup, hbij⟩ := bijOn_number (addressed_number hc ha) List.nodup_range'
  refine ⟨{ o with shards := shards }, ?_, rfl, fun k s hk => submitAll_sent hs hk, fun p => mem_addressed, hnodup,
    hbij, fun p hp => .of_addressed hp⟩
  simp [distributeActionToShards, ht, hs]

/-- CREATE numbers the sessions of the shards from 0 on, each shard makes its own,
and every later action reaches by this numbering what its range says. -/
theorem distribute_bijective {o : Orchestrator} {create : ActionDescriptor} (hk : 0 < o.shards.length)
    (ht : create.type = .CREATE) (hn : o.shards.length ≤ create.count.toNat) :
    ∃ o₁, o.distributeActionToShards create = some o₁ ∧ o₁.shards.length = o.shards.length ∧
      o₁.shardRanges.length = o.shards.length ∧ Numbers o₁.shardRanges create.count.toNat ∧
      (create.sessionsStart = 0 → create.sessionsEnd = create.count → ∀ range ∈ o₁.shardRanges,
        ∃ part, shardAction create range = some part ∧ ∀ env,
          ((Pool.init.handleAction env part).map (·.slots.length)) = some (size range)) ∧
      ∀ (o₂ : Orchestrator) (a : ActionDescriptor), o₂.shardRanges = o₁.shardRanges →
        o₂.shards.length = o.shards.length → a.type ≠ .CREATE → a.sessionsEnd ≤ create.count →
          ∃ o₃, o₂.distributeActionToShards a = some o₃ ∧ Distributes a o₂ o₃ := by
  have hsmall := create.count.toNat_lt
  have hK : (UInt32.ofNat o.shards.length).toNat = o.shards.length :=
    UInt32.toNat_ofNat_of_lt' (Nat.lt_of_le_of_lt hn hsmall)
  have hpos : 0 < UInt32.ofNat o.shards.length := by
    rw [UInt32.lt_iff_toNat_lt, hK]
    exact hk
  have hle : UInt32.ofNat o.shards.length ≤ create.count := by
    rw [UInt32.le_iff_toNat_le, hK]
    exact hn
  have hcuts : Cuts _ 0 (computeShardRanges create.count _) create.count.toNat := computeShardRanges_cuts hpos
  have hbounds := computeShardRanges_bounds hpos hle
  have hlen : (computeShardRanges create.count (UInt32.ofNat o.shards.length)).length = o.shards.length := by
    rw [computeShardRanges_length, hK]
  obtain ⟨shards, hs⟩ := Option.isSome_iff_exists.mp (submitAll_isSome (a := create) (Nat.le_of_eq hlen.symm))
  refine ⟨{ o with
    shards := shards, shardRanges := computeShardRanges create.count (UInt32.ofNat o.shards.length) },
    ?_, (submitAll_spec hs).1, hlen, hcuts.numbers, ?_, ?_⟩
  · simp only [distributeActionToShards, ht, if_true, hs, Option.map_some]
  · intro hstart hstop range hr
    obtain ⟨hlt, hend⟩ := hbounds range hr
    obtain ⟨part, hp, hsize⟩ := shardAction_whole hlt hstart (hstop ▸ hend)
    refine ⟨part, hp, fun env => ?_⟩
    simp only [Pool.handleAction, (shardAction_spec hp).1, ht, hsize, Pool.createSessions, Pool.init, ne_eq,
      not_true_eq_false, if_false, Option.map_some, List.length_replicate]
    rw [UInt32.toNat_sub_of_le _ _ (UInt32.le_of_lt hlt), size]
  · intro o₂ a hranges hcount hta ha
    have hranges : o₂.shardRanges = computeShardRanges create.count (UInt32.ofNat o.shards.length) := hranges
    rw [← hranges] at hcuts hlen
    exact hcuts.distributes (by rw [hcount, hlen]) hta (UInt32.le_iff_toNat_le.mp ha)

/-- Five sessions over two shards; then an action on sessions 2 and 3. -/
theorem distribute_bijective_two :
    ∃ o₁ o₃, (init 2).distributeActionToShards ⟨.CREATE, 0, 5, 5, 0⟩ = some o₁ ∧
      o₁.distributeActionToShards ⟨.CONNECT, 2, 4, 0, 0⟩ = some o₃ ∧ o₁.shardRanges = [(0, 3), (3, 5)] ∧
      addressed ⟨.CONNECT, 2, 4, 0, 0⟩ o₁.shardRanges = [(0, 2), (1, 0)] ∧
      Distributes ⟨.CONNECT, 2, 4, 0, 0⟩ o₁ o₃ := by
  obtain ⟨o₁, h₁, hl, _, _, _, hlater⟩ :=
    @distribute_bijective (init 2) ⟨.CREATE, 0, 5, 5, 0⟩ (by decide) rfl (by decide)
  obtain ⟨o₃, h₃, hd⟩ := hlater o₁ ⟨.CONNECT, 2, 4, 0, 0⟩ rfl hl (by decide) (by decide)
  have hr : ((init 2).distributeActionToShards ⟨.CREATE, 0, 5, 5, 0⟩).map (·.shardRanges) = some [(0, 3), (3, 5)] := by
    decide +kernel
  rw [h₁] at hr
  have hr := Option.some.inj hr
  exact ⟨o₁, o₃, h₁, h₃, hr, by rw [show o₁.shardRanges = _ from hr]; decide +kernel, hd⟩

end Loadshear.Orchestrator
