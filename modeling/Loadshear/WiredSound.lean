import Loadshear.IsolationSound
import Loadshear.PatchSound
import Loadshear.MeteredSound
import Loadshear.Wired

/-!
# What is on the wires

Each payload that a session writes is prepared by a call of `fill_payload` of its
own (`Carried`). So the wires of all sessions hold the packets of the script with
numbers that no other packet has.
-/

namespace Loadshear

namespace Session

variable {env : SessionEnv} {now : Nat} {s t u : Session} {e : Event}

/-! ## Fetching payloads -/

def Fetched (env : SessionEnv) (s t : Session) : Prop :=
  ∃ fills, t.fills = s.fills ++ fills ∧ t.walk = s.walk ++ (fills.map (·.index)).filter (· < env.payloads.length)

theorem Fetched.same (hf : t.fills = s.fills) (hb : t.begun = s.begun) : Fetched env s t :=
  ⟨[], by simp [hf], by simp [walk, hb]⟩

theorem Fetched.trans (h : Fetched env s t) (h' : Fetched env t u) : Fetched env s u := by
  obtain ⟨fills, hf, hw⟩ := h
  obtain ⟨fills', hf', hw'⟩ := h'
  exact ⟨fills ++ fills', by simp [hf', hf], by simp [hw', hw]⟩

theorem Fetched.after (h : Fetched env u t) (hf : u.fills = s.fills) (hb : u.begun = s.begun) : Fetched env s t :=
  (Fetched.same hf hb).trans h

theorem fetched_closeSession (s : Session) : Fetched env s s.closeSession := by
  rw [closeSession_eq]
  exact .same rfl rfl

theorem fetched_stopWriting (s : Session) : Fetched env s s.stopWriting := by
  rw [stopWriting_eq]
  exact .same rfl rfl

theorem fetched_startReading (now : Nat) (s : Session) : Fetched env s (s.startReading env now) := by
  rw [startReading_eq]
  exact .same rfl rfl

theorem fetched_of_doWrite : ∀ {fuel : Nat} {s : Session}, s.doWrite env now fuel = some t → Fetched env s t
  | 0, s, h => by cases h
  | fuel + 1, s, h => by
    unfold doWrite at h
    split at h
    · obtain rfl := Option.some.inj h
      exact ⟨[], by simp [beginWrite], by simp [beginWrite, walk, Begun.index?]⟩
    · split at h
      · dsimp only at h
        split at h
        · rename_i hi
          obtain rfl := Option.some.inj h
          replace hi : s.nextPayloadIndex < env.payloads.length := hi
          refine ⟨[⟨s.nextPayloadIndex, s.writes.length⟩], rfl, ?_⟩
          simp [beginWrite, walk, Begun.index?, fillPayload, hi]
        · rename_i hi
          -- behind the last payload the call returns false
          have hfill : Fetched env s s.fillPayload := by
            replace hi : ¬ s.nextPayloadIndex < env.payloads.length := hi
            exact ⟨[⟨s.nextPayloadIndex, s.writes.length⟩], rfl, by simp [walk, fillPayload, hi]⟩
          split at h
          · exact hfill.trans ((fetched_of_doWrite h).after rfl rfl)
          · obtain rfl := Option.some.inj h
            exact hfill.trans (fetched_stopWriting _)
      · obtain rfl := Option.some.inj h
        exact fetched_stopWriting _

theorem fetched_of_tryStartWrite (h : s.tryStartWrite env now = some t) : Fetched env s t := by
  unfold tryStartWrite at h
  split_ifs at h
  · obtain rfl := Option.some.inj h
    exact .same rfl rfl
  · exact fetched_of_doWrite h
  · obtain rfl := Option.some.inj h
    exact fetched_closeSession _
  · obtain rfl := Option.some.inj h
    exact .same rfl rfl

theorem fetched_of_wrote {sent : Option Nat} (h : s.wrote env now sent = some t) : Fetched env s t := by
  cases sent with
  | none =>
    obtain rfl := Option.some.inj h
    exact fetched_closeSession _
  | some count =>
    simp only [wrote] at h
    split at h
    · exact (fetched_of_doWrite h).after rfl rfl
    · exact (fetched_of_doWrite h).after rfl rfl

theorem fetched_readDone (s : Session) (kind : ReadKind) (outcome : ReadOutcome) :
    Fetched env s (s.readDone env now kind outcome) := by
  cases outcome with
  | error => exact fetched_closeSession _
  | data bytes header response =>
    cases kind with
    | header =>
      simp only [readDone]
      split_ifs
      · exact .same rfl rfl
      · exact (fetched_closeSession _).after rfl rfl
      · unfold doReadBody
        split_ifs <;> exact .same rfl rfl
    | body buffer =>
      simp only [readDone, sampleRead]
      cases buffer <;> split_ifs <;> exact .same rfl rfl
    | datagram =>
      simp only [readDone, sampleRead]
      split_ifs
      · exact (fetched_closeSession _).after rfl rfl
      · exact .same rfl rfl
      · exact .same rfl rfl

theorem fetched_of_responded {response : List UInt8} (h : s.responded env now response = some t) : Fetched env s t := by
  unfold responded at h
  obtain ⟨u, hu, rfl⟩ := Option.map_eq_some_iff.mp h
  refine Fetched.trans ?_ (.same rfl rfl)
  split at hu
  · exact (fetched_of_tryStartWrite hu).after rfl rfl
  · obtain rfl := Option.some.inj hu
    exact .same rfl rfl

theorem fetched_of_onConnect (h : s.onConnect env now = some t) : Fetched env s t := by
  refine (fetched_startReading now s).trans ?_
  unfold onConnect at h
  dsimp only at h
  split_ifs at h
  · obtain rfl := Option.some.inj h
    exact .same rfl rfl
  · exact fetched_of_doWrite h
  · obtain rfl := Option.some.inj h
    exact .same rfl rfl

theorem fetched_of_runCall {c : Call} {opened connected : Bool} (h : s.runCall env now opened connected c = some t) :
    Fetched env s t := by
  cases c with
  | start =>
    simp only [runCall, runStart] at h
    split at h
    · obtain rfl := Option.some.inj h
      exact .same rfl rfl
    · split_ifs at h
      · obtain rfl := Option.some.inj h
        exact (fetched_closeSession _).after rfl rfl
      · obtain rfl := Option.some.inj h
        exact (fetched_closeSession _).after rfl rfl
      · exact (fetched_of_onConnect h).after rfl rfl
  | flood =>
    simp only [runCall, runFlood] at h
    split_ifs at h
    · obtain rfl := Option.some.inj h
      exact .same rfl rfl
    · exact (fetched_of_tryStartWrite h).after rfl rfl
    · obtain rfl := Option.some.inj h
      exact .same rfl rfl
  | send n =>
    simp only [runCall, runSend] at h
    split_ifs at h
    · exact (fetched_of_tryStartWrite h).after rfl rfl
    · obtain rfl := Option.some.inj h
      exact .same rfl rfl
  | drain =>
    obtain rfl := Option.some.inj h
    unfold runDrain
    dsimp only
    split_ifs
    · exact (fetched_closeSession _).after rfl rfl
    · exact .same rfl rfl
  | stop =>
    obtain rfl := Option.some.inj h
    exact fetched_closeSession _

theorem fetched_of_step {e : Nat × Event} (h : step env s e = some t) : Fetched env s t := by
  obtain ⟨now, c | c⟩ := e
  · exact fetched_of_runCall h
  · cases c with
    | connected i ok =>
      obtain ⟨op, -, h⟩ := Option.bind_eq_some_iff.mp h
      simp only [connectDone] at h
      split_ifs at h
      · obtain rfl := Option.some.inj h
        exact (fetched_closeSession _).after rfl rfl
      · exact (fetched_of_onConnect h).after rfl rfl
    | wrote i sent =>
      obtain ⟨op, -, h⟩ := Option.bind_eq_some_iff.mp h
      exact (fetched_of_wrote h).after rfl rfl
    | read i outcome =>
      obtain ⟨op, -, h⟩ := Option.bind_eq_some_iff.mp h
      split at h
      · obtain rfl := Option.some.inj h
        exact (fetched_readDone _ _ _).after rfl rfl
      · cases h
    | responded i =>
      obtain ⟨op, -, h⟩ := Option.bind_eq_some_iff.mp h
      exact (fetched_of_responded h).after rfl rfl

/-! ## In order, over and over -/

theorem follows_mod {n i k : Nat} (hi : i < n) (h : i = k % n + 1 ∨ i = 0 ∧ n ≤ k % n + 1) : i = (k + 1) % n := by
  have hn : 0 < n := Nat.zero_lt_of_lt hi
  have hlt := Nat.mod_lt k hn
  have hk : k + 1 = n * (k / n) + (k % n + 1) := by
    have := Nat.div_add_mod k n
    omega
  rw [hk, Nat.mul_add_mod]
  rcases h with rfl | ⟨rfl, hle⟩
  · exact (Nat.mod_eq_of_lt hi).symm
  · obtain hfull : k % n + 1 = n := by omega
    rw [hfull, Nat.mod_self]

/-- A session walks through the payloads from the first one on, and again behind the last. -/
theorem walk_cycles {G : Session → Nat × Event → Prop} {es : List (Nat × Event)}
    (r : Runs.Run (step env) G (init env) es s) :
    s.walk = (List.range s.walk.length).map (· % env.payloads.length) := by
  induction r with
  | nil => rfl
  | @snoc es t u e r hg he ih =>
    rcases ((handled_of_step he).begins (index_of_run r)).walk with h | ⟨i, h, hlt, hf⟩
    · rw [h]
      exact ih
    · have hi : i = t.walk.length % env.payloads.length := by
        rw [nextOf, ih] at hf
        cases hk : t.walk.length with
        | zero =>
          rw [hk] at hf
          simpa using hf.imp_right And.left
        | succ k =>
          rw [hk] at hf
          simp [List.range_succ] at hf
          exact follows_mod hlt (hf.imp_right fun h => ⟨h.1, h.2.1⟩)
      rw [h, List.length_append, List.length_singleton, List.range_succ, List.map_append, ← ih, hi]
      rfl

end Session

/-! ## Sessions of the shards -/

namespace Pool

variable {env : SessionEnv} {p q : Pool}

/-- A handler's session writes the payloads that it is given. -/
theorem fillCalls_spec {e : Event} (h : p.handle env e = some q) : ∃ i fills s t,
    p.fillCalls env e = some (i, fills) ∧ p.sessions[i]? = some s ∧ q.sessions = p.sessions.set i t ∧
      t.walk = s.walk ++ (fills.map (·.index)).filter (· < env.payloads.length) := by
  obtain ⟨t, session, ht, hs, rfl⟩ := handle_spec h
  obtain ⟨fills, hf, hw⟩ := Session.fetched_of_step hs
  refine ⟨t.i, fills, t.slot.session, session, ?_, ?_, ?_, hw⟩
  · simp [fillCalls, ht, hs, hf]
  · rw [sessions, List.getElem?_map, (turn_spec ht).1]
    rfl
  · rw [update, sessions, (disconnectCallbacks_spec _ _).1, List.map_set, ← sessions]

end Pool

def walkAt (pools : List Pool) (p : Nat × Nat) : List Nat :=
  ((pools[p.1]?.bind (·.sessions[p.2]?)).map Session.walk).getD []

variable {env : SessionEnv} {pools : List Pool} {k : Nat} {p q : Pool}

theorem walkAt_set (hk : pools[k]? = some p) (place : Nat × Nat) : walkAt (pools.set k q) place =
    if place.1 = k then (q.sessions[place.2]?.map Session.walk).getD [] else walkAt pools place := by
  by_cases h : place.1 = k
  · have hlt := (List.getElem?_eq_some_iff.mp hk).1
    rw [if_pos h, walkAt, h, List.getElem?_set_self hlt]
    rfl
  · rw [if_neg h, walkAt, List.getElem?_set_ne (Ne.symm h), ← walkAt]

theorem walkAt_of_pool (hk : pools[k]? = some p) {place : Nat × Nat} (h : place.1 = k) :
    walkAt pools place = (p.sessions[place.2]?.map Session.walk).getD [] := by
  rw [walkAt, h, hk]
  rfl

theorem walkAt_task {task : Task} (hk : pools[k]? = some p) (h : p.handleTask env task = some q) (place : Nat × Nat) :
    walkAt (pools.set k q) place = walkAt pools place := by
  rw [walkAt_set hk]
  split
  · rename_i hplace
    rw [walkAt_of_pool hk hplace]
    rcases Pool.sessions_of_handleTask h with hq | ⟨hp, n, hq⟩
    · rw [hq]
    · rw [hp, hq, List.getElem?_replicate]
      split <;> rfl
  · rfl

theorem walkAt_handler {event : Pool.Event} (hk : pools[k]? = some p) (h : p.handle env event = some q) :
    ∃ i fills, p.fillCalls env event = some (i, fills) ∧ ∀ place, walkAt (pools.set k q) place = walkAt pools place ++
      if place = (k, i) then (fills.map (·.index)).filter (· < env.payloads.length) else [] := by
  obtain ⟨i, fills, s, t, hf, hs, hq, hw⟩ := Pool.fillCalls_spec h
  refine ⟨i, fills, hf, fun place => ?_⟩
  rw [walkAt_set hk]
  by_cases hplace : place.1 = k
  · rw [if_pos hplace, walkAt_of_pool hk hplace, hq]
    by_cases hi : place.2 = i
    · have hlt := (List.getElem?_eq_some_iff.mp hs).1
      rw [if_pos (Prod.ext hplace hi), hi, hs, List.getElem?_set_self hlt]
      exact hw
    · rw [if_neg fun he => hi (congrArg Prod.snd he), List.getElem?_set_ne (Ne.symm hi), List.append_nil]
  · rw [if_neg hplace, if_neg fun he => hplace (congrArg Prod.fst he), List.append_nil]

namespace Wired

open Runs (Run)
open Dispatcher (free)
open Preparation (ticket clocks advanced_of_run)

variable {env : OrchestratorEnv} {x y : Wired} {place : Nat × Nat}

/-! ## The parts of a run -/

def fillEvents (caller : Nat × Nat) : Wired → List FillCall → List Preparation.Event
  | _, [] => []
  | x, f :: fills => .fill f.index (x.currentPayload caller) :: fillEvents caller (x.fill caller f) fills

def preparationOf (env : OrchestratorEnv) (x : Wired) : Event → List Preparation.Event
  | .turn (.handler k event) =>
    match x.dispatcher.orchestrator.shards[k]?.bind (·.pool.fillCalls env.session event) with
    | some (i, fills) => fillEvents (k, i) x fills
    | none => []
  | .turn _ => []
  | .op t now => [.op t now]

def dispatcherOf (_ : Wired) : Event → List Dispatcher.Event
  | .turn e => [e]
  | .op .. => []

def preparationEvents (env : OrchestratorEnv) : Wired → List Event → List Preparation.Event :=
  Runs.shown (step env) (preparationOf env)

/-- What the operations of call `t` read from the clock, in their order. -/
def clocksOf (t : Nat) (es : List Event) : List Nat :=
  es.filterMap fun
    | .op call now => if call = t then some now else none
    | .turn _ => none

theorem clocks_fillEvents (t : Nat) (caller : Nat × Nat) :
    ∀ (fills : List FillCall) (x : Wired), clocks t (fillEvents caller x fills) = []
  | [], _ => rfl
  | _ :: fills, _ => clocks_fillEvents t caller fills _

theorem clocks_preparationEvents {G : Wired → Event → Prop} {es : List Event} (r : Run (step env) G x es y) (t : Nat) :
    clocks t (preparationEvents env x es) = clocksOf t es := by
  induction r with
  | nil => rfl
  | @snoc es u v e r _ _ ih =>
    have hlast : clocks t (preparationOf env u e) = clocksOf t [e] := by
      unfold preparationOf
      split
      · split
        · exact clocks_fillEvents t _ _ _
        · rfl
      · rfl
      · rfl
    rw [preparationEvents, r.shown_snoc, clocks, List.filterMap_append, clocksOf, List.filterMap_append]
    exact congrArg₂ (· ++ ·) ih hlast

/-! ## The calls of a session -/

def indices (x : Wired) (place : Nat × Nat) : List Nat :=
  ((x.callers.zip (x.preparation.calls.map (·.index))).filter (·.1 = place)).map Prod.snd

structure Matched (env : OrchestratorEnv) (x : Wired) : Prop where
  payloads : x.preparation.manager.payloads = env.session.payloads
  calls : x.callers.length = x.preparation.calls.length

theorem fill_spec (h : Matched env x) (caller : Nat × Nat) (f : FillCall) : Matched env (x.fill caller f) ∧
    ∀ place, (x.fill caller f).indices place =
      x.indices place ++ if place = caller then [f.index].filter (· < env.session.payloads.length) else [] := by
  unfold fill Preparation.fill
  rw [h.payloads]
  cases hd : env.session.payloads[f.index]? with
  | none =>
    have hge : ¬ f.index < env.session.payloads.length := Nat.not_lt.mpr (List.getElem?_eq_none_iff.mp hd)
    dsimp only
    refine ⟨⟨h.payloads, by simp [h.calls]⟩, fun place => ?_⟩
    simp [indices, hge]
  | some d =>
    have hlt : f.index < env.session.payloads.length := (List.getElem?_eq_some_iff.mp hd).1
    dsimp only
    refine ⟨⟨h.payloads, by simp [h.calls]⟩, fun place => ?_⟩
    have hlen : x.callers.length = (x.preparation.calls.map (·.index)).length := by rw [List.length_map, h.calls]
    have hone : x.preparation.calls.length + 1 - x.preparation.calls.length = 1 := Nat.add_sub_cancel_left _ _
    simp only [indices, List.length_append, List.length_singleton, hone]
    rw [List.map_append, List.zip_append hlen, List.filter_append, List.map_append]
    congr 1
    by_cases hp : place = caller
    · simp [hp, hlt]
    · simp [hp, Ne.symm hp]

theorem foldl_fill_spec (caller : Nat × Nat) : ∀ (fills : List FillCall) {x : Wired}, Matched env x →
    Matched env (fills.foldl (fill caller) x) ∧
      Run Preparation.step (fun _ _ => True) x.preparation (fillEvents caller x fills)
        (fills.foldl (fill caller) x).preparation ∧
      ∀ place, (fills.foldl (fill caller) x).indices place = x.indices place ++
        if place = caller then (fills.map (·.index)).filter (· < env.session.payloads.length) else []
  | [], x, h => ⟨h, .nil, fun place => by simp⟩
  | f :: fills, x, h => by
    obtain ⟨hm, hi⟩ := fill_spec h caller f
    obtain ⟨hm', r, hi'⟩ := foldl_fill_spec caller fills hm
    refine ⟨hm', .cons trivial rfl r, fun place => ?_⟩
    rw [List.foldl_cons, hi', hi, List.append_assoc]
    split
    · rw [← List.filter_append]
      rfl
    · rfl

theorem op_spec (h : Matched env x) {t now : Nat} {preparation : Preparation}
    (hp : x.preparation.runOp t now = some preparation) : Matched env { x with preparation := preparation } ∧
      ∀ place, { x with preparation := preparation }.indices place = x.indices place := by
  have hstep : x.preparation.step (.op t now) = some preparation := hp
  cases Preparation.stepped_of_step hstep with
  | @ran _ _ call op ops s hcall hops hs =>
    refine ⟨⟨h.payloads, by simp [h.calls]⟩, fun place => ?_⟩
    have hsame : (x.preparation.calls.set t { call with ops := ops, state := s }).map (·.index) =
        x.preparation.calls.map (·.index) := by
      apply List.ext_getElem (by simp)
      intro i h₁ h₂
      obtain ⟨hlt, rfl⟩ := List.getElem?_eq_some_iff.mp hcall
      rw [List.getElem_map, List.getElem_map, List.getElem_set]
      split
      · subst i
        rfl
      · rfl
    rw [indices, indices, hsame]

/-- Each session has a call for each payload that it writes, in their order. -/
structure Carried (env : OrchestratorEnv) (x : Wired) : Prop extends Matched env x where
  walks : ∀ place, x.indices place = walkAt x.dispatcher.pools place

theorem carried_init (plan : ExecutionPlan) (settings : SettingsBlock) :
    Carried (plan.orchestratorEnv settings) (init plan) where
  payloads := rfl
  calls := rfl
  walks place := by
    have hno : ∀ pool ∈ (init plan).dispatcher.pools, pool.sessions = [] := by
      intro pool hp
      obtain ⟨shard, hs, rfl⟩ := List.mem_map.mp hp
      rw [List.eq_of_mem_replicate hs]
      rfl
    have hwalk : walkAt (init plan).dispatcher.pools place = [] := by
      cases hp : (init plan).dispatcher.pools[place.1]? with
      | none => simp [walkAt, hp]
      | some pool => simp [walkAt, hp, hno pool (List.mem_of_getElem? hp)]
    rw [hwalk]
    rfl

theorem fillAll_other {e : Dispatcher.Event} (he : ∀ k event, e ≠ .handler k event) : x.fillAll env e = some x := by
  cases e with
  | handler k event => exact absurd rfl (he k event)
  | _ => rfl

structure Moves (env : OrchestratorEnv) (x : Wired) (e : Event) (y : Wired) : Prop where
  carried : Carried env y
  prepares : Run Preparation.step (fun _ _ => True) x.preparation (preparationOf env x e) y.preparation
  dispatches : Run (Dispatcher.step env) free x.dispatcher (dispatcherOf x e) y.dispatcher

theorem Carried.turn (h : Carried env x) {e : Dispatcher.Event} {d : Dispatcher} (hd : x.dispatcher.step env e = some d)
    (hy : x.fillAll env e = some y) : Moves env x (.turn e) { y with dispatcher := d } := by
  have hdisp : Run (Dispatcher.step env) free x.dispatcher [e] d := .cons trivial hd .nil
  have hother : (∀ k event, e ≠ .handler k event) → (∀ place, walkAt d.pools place = walkAt x.dispatcher.pools place) →
      Moves env x (.turn e) { y with dispatcher := d } := by
    intro he hw
    obtain rfl := Option.some.inj ((fillAll_other he).symm.trans hy)
    have hprep : preparationOf env x (.turn e) = [] := by
      cases e with
      | handler k event => exact absurd rfl (he k event)
      | _ => rfl
    refine ⟨⟨⟨h.payloads, h.calls⟩, fun place => (h.walks place).trans (hw place).symm⟩, ?_, hdisp⟩
    rw [hprep]
    exact .nil
  have hchanges := Dispatcher.changes_of_step hd
  generalize hqs : d.pools = qs at hchanges
  cases hchanges with
  | none he => exact hother he fun place => by rw [hqs]
  | task hk hp hq => exact hother nofun fun place => by rw [hqs, hq, walkAt_task hk hp]
  | @handler k event p q _ hk hp hq =>
    obtain ⟨i, fills, hf, hw⟩ := walkAt_handler hk hp
    obtain ⟨s, hs, hy⟩ := Option.bind_eq_some_iff.mp hy
    obtain rfl : p = s.pool := Option.some.inj (hk.symm.trans (Dispatcher.pools_getElem? hs))
    rw [hf] at hy
    obtain rfl := Option.some.inj hy
    obtain ⟨hm, hprep, hi⟩ := foldl_fill_spec (k, i) fills h.toMatched
    have hevents : preparationOf env x (.turn (.handler k event)) = fillEvents (k, i) x fills := by
      simp only [preparationOf, hs, Option.bind_some, hf]
    refine ⟨⟨⟨hm.payloads, hm.calls⟩, fun place => ?_⟩, hevents ▸ hprep, hdisp⟩
    have hwalk := hw place
    rw [← hq, ← hqs, ← h.walks place] at hwalk
    exact (hi place).trans hwalk.symm

theorem Carried.step (h : Carried env x) {e : Event} (hs : x.step env e = some y) : Moves env x e y := by
  cases e with
  | turn e =>
    simp only [Wired.step] at hs
    split at hs
    · obtain ⟨d, hd, hs⟩ := Option.bind_eq_some_iff.mp hs
      obtain ⟨z, hz, hs⟩ := Option.bind_eq_some_iff.mp hs
      obtain rfl := Option.some.inj hs
      exact h.turn hd hz
    · cases hs
  | op t now =>
    obtain ⟨p, -, hs⟩ := Option.bind_eq_some_iff.mp hs
    obtain ⟨thread, -, hs⟩ := Option.bind_eq_some_iff.mp hs
    obtain ⟨preparation, hp, hs⟩ := Option.bind_eq_some_iff.mp hs
    obtain rfl := Option.some.inj hs
    obtain ⟨hm, hi⟩ := op_spec h.toMatched hp
    exact ⟨⟨hm, fun place => (hi place).trans (h.walks place)⟩, .cons trivial hp .nil, .nil⟩

theorem carried_of_run {plan : ExecutionPlan} {settings : SettingsBlock} {es : List Event}
    (r : Run (step (plan.orchestratorEnv settings)) free (init plan) es x) :
    Carried (plan.orchestratorEnv settings) x ∧
      Run Preparation.step (fun _ _ => True) (.start plan.payloads plan.counterSteps)
        (preparationEvents (plan.orchestratorEnv settings) (init plan) es) x.preparation ∧
      ∃ es', Run (Dispatcher.step (plan.orchestratorEnv settings)) free (.init plan.shardCount) es' x.dispatcher := by
  obtain ⟨hc, hp⟩ := r.project (g := preparation) (I := Carried (plan.orchestratorEnv settings))
    (fun _ _ _ h _ he => ⟨(h.step he).carried, (h.step he).prepares⟩) (carried_init plan settings)
  obtain ⟨-, hd⟩ := r.project (g := dispatcher) (I := Carried (plan.orchestratorEnv settings))
    (fun _ _ _ h _ he => ⟨(h.step he).carried, (h.step he).dispatches⟩) (carried_init plan settings)
  exact ⟨hc, hp, _, hd⟩

/-! ## Numbers of calls -/

theorem callsOf_indices (h : x.callers.length = x.preparation.calls.length) (place : Nat × Nat) :
    (x.callsOf place).map (fun t => x.preparation.calls[t]?.map (·.index)) = (x.indices place).map some := by
  have hlen : (x.callers.zip (x.preparation.calls.map (·.index))).length = x.callers.length := by
    simp [h]
  have hzip := map_filter_range (fun a : (Nat × Nat) × Nat => a.1 = place) (fun a => some a.2)
    (fun t => x.preparation.calls[t]?.map (·.index)) (x.callers.zip (x.preparation.calls.map (·.index)))
    fun t a ha _ => by
      have hsnd := (List.getElem?_zip_eq_some.mp ha).2
      rwa [List.getElem?_map] at hsnd
  rw [indices, List.map_map, callsOf]
  refine Eq.trans ?_ hzip.symm
  rw [hlen]
  congr 1
  apply List.filter_congr
  intro t ht
  have ht := List.mem_range.mp ht
  have hcall : t < x.preparation.calls.length := h ▸ ht
  simp [ht, hcall]

theorem returned_calls {k t : Nat} (h : x.returned k) (ht : t ∈ x.callsOf place) (hk : place.1 = k) {call : Filling}
    (hcall : x.preparation.calls[t]? = some call) : call.ops = [] := by
  have hcaller : x.callers[t]? = some place := by simpa [callsOf] using (List.mem_filter.mp ht).2
  have hall := List.all_eq_true.mp h (place, call)
    (List.mem_of_getElem? (List.getElem?_zip_eq_some.mpr ⟨hcaller, hcall⟩))
  simpa [hk] using hall

/-! ## The wires -/

variable {netEnv : Env} {script : DSLData} {plan : ExecutionPlan}

/-- The payloads of a session on its wire: they come in the order of the list,
over and over, each from a call of its own and with the bytes that this call
left, since nothing is filled while a write is in flight. -/
structure OnWire (script : DSLData) (plan : ExecutionPlan) (es : List Event) (x : Wired) (place : Nat × Nat)
    (s : Session) : Prop where
  in_order : s.walk = (List.range s.walk.length).map (· % plan.payloads.length)
  own_calls : s.walk.map some = (x.callsOf place).map fun t => x.preparation.calls[t]?.map (·.index)
  undisturbed : ∀ fill ∈ s.fills, fill.inFlight = 0
  returned : ∀ t ∈ x.callsOf place, ∀ call ∈ x.preparation.calls[t]?, call.ops = []
  patched : ∀ t ∈ x.callsOf place, ∀ call ∈ x.preparation.calls[t]?, ∀ (i : Nat) (action : Action),
    script.orchestrator.actions[i]? = some action → action.type = .SEND → ∀ copy < action.count.toNat,
    call.index = copiesBefore script.orchestrator.actions i + copy → ∃ payload ∈ plan.payloads[call.index]?,
      WrittenInOrder payload.packetData.length action.mods.written →
        Patched action.mods payload.packetData (ticket x.preparation.history t call.index) (clocksOf t es)
          (call.bytes payload.packetData)

def copiesOf (x : Wired) (index : Nat) : Set Nat :=
  {t | ∃ call ∈ x.preparation.calls[t]?, call.index = index ∧ call.ops = []}

theorem walkAt_slot {d : Dispatcher} {slot : Slot} (h : d.orchestrator.slotAt place = some slot) :
    walkAt d.pools place = slot.session.walk := by
  obtain ⟨s, hs, hslot⟩ := Orchestrator.slotAt_eq_some.mp h
  rw [walkAt, Dispatcher.pools_getElem? hs, Option.bind_some, Pool.sessions, List.getElem?_map, hslot]
  rfl

/-- In every run of the program on an accepted script's plan what the run has for
the payload manager is a run of it, and the wires hold what the script says,
wherever a shard is in no call of `fill_payload`; no count is on two wires, nor
twice on one. -/
theorem wires_exact (h : Accepted netEnv script plan) (hc : OpensWithCreate script.orchestrator.actions)
    {es : List Event} (r : Run (step (plan.orchestratorEnv script.settings)) free (init plan) es x) :
    Run Preparation.step (fun _ _ => True) (.start plan.payloads plan.counterSteps)
      (preparationEvents (plan.orchestratorEnv script.settings) (init plan) es) x.preparation ∧
    (∀ place slot, x.dispatcher.orchestrator.slotAt place = some slot → x.returned place.1 →
      OnWire script plan es x place slot.session) ∧
    ∀ (i : Nat) (action : Action), script.orchestrator.actions[i]? = some action → action.type = .SEND →
      ∀ copy < action.count.toNat, ∀ payload ∈ plan.payloads[copiesBefore script.orchestrator.actions i + copy]?,
      WrittenInOrder payload.packetData.length action.mods.written → ∀ c < action.mods.counterMods.length,
        Set.InjOn (ticket x.preparation.history · (copiesBefore script.orchestrator.actions i + copy) c)
          (x.copiesOf (copiesBefore script.orchestrator.actions i + copy)) := by
  obtain ⟨memory, hp⟩ := h.planned
  obtain ⟨hcarried, rp, es', rd⟩ := carried_of_run r
  refine ⟨rp, fun place slot hslot hret => ?_, ?_⟩
  · obtain ⟨-, -, rs, -⟩ := (Dispatcher.feeds_of_run (h.opens hc) rd).slotAt (h.opens hc) hslot
    have hwalk : x.indices place = slot.session.walk := (hcarried.walks place).trans (walkAt_slot hslot)
    refine ⟨Session.walk_cycles rs, ?_, ?_, fun t ht call hcall => returned_calls hret ht rfl hcall, ?_⟩
    · rw [← hwalk]
      exact (callsOf_indices hcarried.calls place).symm
    · exact (rs.invariant (fun _ _ _ h _ he => h.handled (Session.handled_of_step he)) (Session.OneWriter.init _)).fills
    · intro t ht call hcall i action ha hs copy hcopy hindex
      obtain ⟨payload, hplanned⟩ := exists_plannedCopy hp ha hs hcopy
      rw [hindex, ← clocks_preparationEvents r]
      exact ⟨payload, hplanned.get, fun hordered =>
        hplanned.patched h.fits hordered rp hcall hindex (returned_calls hret ht rfl hcall)⟩
  · intro i action ha hs copy hcopy payload hpayload hordered c hcm
    obtain ⟨payload', hplanned⟩ := exists_plannedCopy hp ha hs hcopy
    obtain rfl := Option.some.inj (hplanned.get.symm.trans hpayload)
    have hadv := advanced_of_run rp
    have htiles := hplanned.tiles hordered
    have hmem : ∀ t ∈ x.copiesOf (copiesBefore script.orchestrator.actions i + copy),
        ⟨t, copiesBefore script.orchestrator.actions i + copy, c⟩ ∈ x.preparation.history := by
      rintro t ⟨call, hcall, hi, hops⟩
      exact (hplanned.counter htiles hadv.nodup (hplanned.returned h.fits htiles rp hcall hi hops).2.1 hi
        (List.getElem?_eq_getElem hcm)).1
    intro t ht t' ht' he
    have hinj := Logs.rank_injOn hadv.nodup ⟨hmem t ht, by simp⟩ ⟨hmem t' ht', by simp⟩ he
    exact congrArg Advance.call hinj

def twinScript : DSLData where
  settings := { (plainScript []).settings with shards := 2 }
  orchestrator :=
    { settingsIdentifier := "s"
      actions := [createAction 2, rangedAction .CONNECT 0 2, sendAction 0 2 1 sortedMods] }

def twinText : List Char :=
  ["SETTINGS", "s", "\x7b", "SESSION", "=", "\"TCP\"", "PORT", "=", "80", "HEADERSIZE", "=", "4", "BODYMAX", "=", "8",
    "SHARDS", "=", "2", "ENDPOINTS", "\x7b", "\"host\"", "\x7d", "PACKETS", "\x7b", "p", ":", "\"p.bin\"", "\x7d",
    "\x7d", "ORCHESTRATOR", "s", "\x7b", "CREATE", "2", "CONNECT", "0:2", "SEND", "0:2", "p", "COPIES", "1", "COUNTER",
    "0:8", "\"little\"", ":", "1", "TIMESTAMP", "12:8", "\"little\"", ":", "\"seconds\"", "\x7d"].flatMap fun word =>
      word.toList ++ [' ']

theorem twin_accepted : interpretText plainEnv .zero twinText = .ok twinScript := by decide +kernel

def twinRun : List Event :=
  [.turn (.run .dispatchPendingActions 1000), .turn (.task 0), .turn (.task 0), .turn (.task 0), .turn (.task 1),
    .turn (.task 1), .turn (.task 1), .turn (.handler 0 (.call 0 0 true true)),
    .turn (.handler 1 (.call 0 1 true true)), .turn (.handler 0 (.done 0 2 (.connected 0 true))),
    .turn (.handler 1 (.done 0 3 (.connected 0 true))), .turn (.handler 0 (.call 0 4 true true)),
    .turn (.handler 1 (.call 0 5 true true)), .op 1 6, .op 0 7, .op 0 8, .op 1 9, .op 0 10, .op 0 11, .op 1 12, .op 1 13]

theorem wires_exact_twins : ∃ (plan : ExecutionPlan) (x : Wired) (slot : Slot),
    Run (step (plan.orchestratorEnv twinScript.settings)) free (init plan) twinRun x ∧
      x.dispatcher.orchestrator.slotAt (1, 0) = some slot ∧ slot.session.begun = [.payload 0] ∧
      OnWire twinScript plan twinRun x (1, 0) slot.session := by
  have h : planRun plainEnv twinScript init (step <| ·.orchestratorEnv twinScript.settings) (fun _ => free) twinRun
      (fun _ x => x.returned 1 = true ∧
        ∃ slot ∈ x.dispatcher.orchestrator.slotAt (1, 0), slot.session.begun = [.payload 0]) = true := by
    decide +kernel
  obtain ⟨plan, x, hp, r, hret, slot, hslot, hbegun⟩ := exists_of_planRun h
  obtain ⟨-, hwire, -⟩ := wires_exact ⟨⟨_, _, twin_accepted⟩, _, hp⟩ ⟨_, rfl, rfl⟩ r
  exact ⟨plan, x, slot, r, hslot, hbegun, hwire _ _ hslot hret⟩

end Wired

end Loadshear
