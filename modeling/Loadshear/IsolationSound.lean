import Loadshear.DeliverySound
import Loadshear.DispatcherSound
import Loadshear.ShardSound
import Loadshear.WriteSound

/-!
# The sessions of a run

The whole program against one session alone: in every run of the orchestrator's
thread with its shards, what a session runs of it (`historyOf`) is a run of a
session by itself that is called as the script says, and each number of the
script is one session at most.
-/

namespace Loadshear

/-- The calls that a script has for session `j`, in order. -/
def scriptCalls (j : Nat) (actions : List Action) : List Call := (actions.filter (·.Reaches j)).filterMap Action.call

namespace Orchestrator

/-- Session `i` of shard `k`, once it was created. -/
def slotAt (o : Orchestrator) (p : Nat × Nat) : Option Slot := o.shards[p.1]?.bind (·.pool.slots[p.2]?)

variable {env : OrchestratorEnv} {G : Nat → Nat → Session → Nat × Loadshear.Event → Prop} {early : Prop}
  {shardCount : Nat} {past : Nat → Nat → List (Nat × Loadshear.Event)} {o : Orchestrator} {slot : Slot} {p : Nat × Nat}

theorem slotAt_eq_some : o.slotAt p = some slot ↔
    ∃ s, o.shards[p.1]? = some s ∧ s.pool.slots[p.2]? = some slot := Option.bind_eq_some_iff

/-- The session is numbered, and has run or holds the first of the calls that
the actions have for its number. -/
theorem Feeds.slotAt (h : Feeds env G early shardCount past o) (ho : Opens env.actions shardCount)
    (hp : o.slotAt p = some slot) : o.shardRanges = rangesOf env.actions shardCount ∧ Held o.shardRanges p ∧
      Runs.Run (Session.step env.session) (G p.1 p.2) (Session.init env.session) (past p.1 p.2) slot.session ∧
      Session.callsOf (past p.1 p.2) ++ slot.calls <+: callsOn (number o.shardRanges p) env.actions := by
  obtain ⟨s, hs, hi⟩ := slotAt_eq_some.mp hp
  obtain ⟨range, hr⟩ := h.exists_range ho hs
  obtain ⟨n, done, pending, hle, hn, hf⟩ := h.fed p.1 s range hs hr
  have hl : p.2 < s.pool.slots.length := (List.getElem?_eq_some_iff.mp hi).1
  rw [hf.after.size] at hl
  split at hl
  · exact absurd hl (Nat.not_lt_zero _)
  · rename_i hd
    -- something was distributed, so the ranges are there
    have hpos : 0 < n := by
      rcases Nat.eq_zero_or_pos n with rfl | hn
      · have := hf.sent
        simp [parts, hd] at this
      · exact hn
    have hranges := h.ranges (Nat.lt_of_lt_of_le hpos hle)
    rw [← hranges] at hr
    have hlt := UInt32.le_of_lt (ho.range_lt range (List.mem_of_getElem? (hranges ▸ hr))).1
    rw [UInt32.toNat_sub_of_le _ _ hlt] at hl
    obtain ⟨r, hcalls⟩ := hf.after.slots p.2 slot hi
    have hsent : callsOn (range.1.toNat + p.2) (env.actions.take n) = callsOn p.2 done ++ callsOn p.2 pending := by
      rw [← callsOn_parts (by omega), hf.sent, callsOn_append]
    have hnumber : number o.shardRanges p = range.1.toNat + p.2 := by rw [number, hr]; rfl
    refine ⟨hranges, ⟨range, hr, hl⟩, r, ?_⟩
    rw [hcalls, hnumber, ← List.take_append_drop n env.actions, callsOn_append, hsent, List.append_assoc]
    exact List.prefix_append _ _

theorem Opens.numbers {actions : List ActionDescriptor} (ho : Opens actions shardCount) :
    ∃ create ∈ actions.head?, Numbers (rangesOf actions shardCount) create.count.toNat := by
  obtain ⟨⟨create, rest, rfl, _⟩, hpos, hsmall⟩ := ho
  refine ⟨create, rfl, (computeShardRanges_cuts (UInt32.lt_iff_toNat_lt.mpr ?_)).numbers⟩
  rwa [UInt32.toNat_ofNat_of_lt' hsmall]

end Orchestrator

theorem Accepted.create_count {env : Env} {script : DSLData} {plan : ExecutionPlan} (h : Accepted env script plan)
    (hc : OpensWithCreate script.orchestrator.actions) {d : ActionDescriptor} (hd : d ∈ plan.actions.head?) {a : Action}
    (ha : a ∈ script.orchestrator.actions.head?) : d.count = a.count := by
  obtain ⟨memory, hp⟩ := h.planned
  obtain ⟨table, _, _, hall, _⟩ := generatePlan_spec hp
  obtain ⟨a', ha', ht⟩ := hc
  obtain rfl := Option.some.inj (ha.symm.trans ha')
  obtain ⟨rest, hactions⟩ := List.head?_eq_some_iff.mp ha
  obtain ⟨ds, hds⟩ := List.head?_eq_some_iff.mp hd
  rw [hactions, hds] at hall
  rw [(List.forall₂_cons.mp hall).1.created ht, h.created (List.mem_of_mem_head? ha) ht]

namespace Dispatcher

open Orchestrator (slotAt number)

theorem feeds_of_run {env : OrchestratorEnv} {n : Nat} (ho : Orchestrator.Opens env.actions n)
    {G : Dispatcher → Event → Prop} {es : List Event} {d : Dispatcher} (r : Runs.Run (step env) G (init n) es d) :
    Orchestrator.Feeds env (fun _ _ _ _ => True) True n (fun k i => historyOf env (k, i) (init n) es) d.orchestrator := by
  obtain ⟨es', r', hsame⟩ := orchestrator_run r
  simp only [← hsame]
  exact Orchestrator.feeds_of_any_run ho r'

/-- In every run on the plan of an accepted script that starts with CREATE, what
the run has for a session is a run of the session alone, called as the script
says, so far; the sessions of the shards bear different numbers, below the count
of the CREATE. -/
theorem sessions_isolated {env : Env} {script : DSLData} {plan : ExecutionPlan} (h : Accepted env script plan)
    (hc : OpensWithCreate script.orchestrator.actions) {es : List Event} {d : Dispatcher}
    (r : Runs.Run (step (plan.orchestratorEnv script.settings)) free (init plan.shardCount) es d) :
    (∀ p slot, d.orchestrator.slotAt p = some slot →
      Runs.Run (Session.step (plan.orchestratorEnv script.settings).session) free
        (Session.init (plan.orchestratorEnv script.settings).session)
        (historyOf (plan.orchestratorEnv script.settings) p (init plan.shardCount) es) slot.session ∧
      Session.callsOf (historyOf (plan.orchestratorEnv script.settings) p (init plan.shardCount) es) ++ slot.calls <+:
        scriptCalls (number d.orchestrator.shardRanges p) script.orchestrator.actions) ∧
    (∀ create ∈ script.orchestrator.actions.head?, Set.MapsTo (number d.orchestrator.shardRanges)
      {p | (d.orchestrator.slotAt p).isSome} {j | j < create.count.toNat}) ∧
    Set.InjOn (number d.orchestrator.shardRanges) {p | (d.orchestrator.slotAt p).isSome} := by
  have ho := h.opens hc
  obtain ⟨memory, hp⟩ := h.planned
  obtain ⟨table, _, _, hd, _⟩ := generatePlan_spec hp
  have hall : ∀ p slot, d.orchestrator.slotAt p = some slot → _ := fun p slot hp => (feeds_of_run ho r).slotAt ho hp
  obtain ⟨create, hcreate, hn⟩ := ho.numbers
  have hheld : ∀ p ∈ {p | (d.orchestrator.slotAt p).isSome}, d.orchestrator.shardRanges =
      Orchestrator.rangesOf plan.actions plan.shardCount ∧ Orchestrator.Held d.orchestrator.shardRanges p := by
    intro p hp
    obtain ⟨slot, hp⟩ := Option.isSome_iff_exists.mp hp
    exact ⟨(hall p slot hp).1, (hall p slot hp).2.1⟩
  refine ⟨fun p slot hp => ?_, fun a ha p hp => ?_, fun p hp q hq he => ?_⟩
  · obtain ⟨-, -, r, hcalls⟩ := hall p slot hp
    refine ⟨r, ?_⟩
    rw [scriptCalls, ← callsOn_eq hd]
    exact hcalls
  · obtain ⟨hr, hp⟩ := hheld p hp
    have hlt := hn.numbered.mapsTo (show p ∈ {p | Orchestrator.Held _ p} from hr ▸ hp)
    have hcount := h.create_count hc hcreate ha
    rw [← hr, hcount] at hlt
    exact hlt
  · obtain ⟨hr, hp⟩ := hheld p hp
    obtain ⟨-, hq⟩ := hheld q hq
    rw [hr] at hp hq he
    exact hn.numbered.injOn hp hq he

def pairRun : List Event :=
  [.run .dispatchPendingActions 1000] ++ List.replicate 4 (.task 0) ++ [.handler 0 (.call 0 0 true true),
    .handler 0 (.call 1 1 true true), .handler 0 (.done 0 2 (.connected 0 true)), .task 0, .handler 0 (.call 0 4 true true)]

/-- The second of the sessions hears of the SEND later. -/
theorem sessions_isolated_pair : ∃ (plan : ExecutionPlan) (d : Dispatcher) (slot : Slot),
    Runs.Run (step (plan.orchestratorEnv Orchestrator.splitScript.settings)) free (init plan.shardCount) pairRun d ∧
      d.orchestrator.slotAt (0, 1) = some slot ∧
      Runs.Run (Session.step (plan.orchestratorEnv Orchestrator.splitScript.settings).session) free
        (Session.init (plan.orchestratorEnv Orchestrator.splitScript.settings).session)
        [(1, .call .start true true)] slot.session ∧
      [.start] ++ [.send 1] <+: scriptCalls 1 Orchestrator.splitScript.orchestrator.actions := by
  have h : planRun plainEnv Orchestrator.splitScript (init ·.shardCount)
      (step <| ·.orchestratorEnv Orchestrator.splitScript.settings) (fun _ => free) pairRun (fun plan d =>
        (∃ slot ∈ d.orchestrator.slotAt (0, 1), slot.calls = [.send 1]) ∧
          number d.orchestrator.shardRanges (0, 1) = 1 ∧
          historyOf (plan.orchestratorEnv Orchestrator.splitScript.settings) (0, 1) (init plan.shardCount) pairRun =
            [(1, .call .start true true)]) = true := by
    decide +kernel
  obtain ⟨plan, d, hp, r, ⟨slot, hslot, hcalls⟩, hnumber, hhistory⟩ := exists_of_planRun h
  obtain ⟨r', hprefix⟩ :=
    (sessions_isolated ⟨⟨_, _, Orchestrator.split_accepted⟩, _, hp⟩ ⟨_, rfl, rfl⟩ r).1 (0, 1) slot hslot
  rw [hcalls, hnumber, hhistory] at hprefix
  exact ⟨plan, d, slot, r, hslot, hhistory ▸ r', hprefix⟩

end Dispatcher

end Loadshear
