import Loadshear.Pool
import Loadshear.SessionSound

/-!
# What the pool counts

`active_sessions_` against the sessions that are live or have a `start`
posted (`Slot.busy`), and what `shutdown` does to the sessions.
-/

namespace Loadshear

/-- Live, or about to be. -/
def Slot.busy (slot : Slot) : Bool := slot.session.live || decide (.start ∈ slot.calls)

def Slot.Single (slot : Slot) : Prop := .start ∈ slot.calls → ¬ slot.session.live ∧ slot.calls.count .start = 1

theorem countP_set {α : Type*} {p : α → Bool} {l : List α} {i : Nat} {a b : α} (h : l[i]? = some b) :
    (l.set i a).countP p + (p b).toNat = l.countP p + (p a).toNat := by
  obtain ⟨hi, rfl⟩ := List.getElem?_eq_some_iff.mp h
  rw [List.countP_set hi]
  cases hb : p l[i]
  · cases p a <;> simp
  · have hp : 0 < l.countP p := List.countP_pos_iff.mpr ⟨_, List.getElem_mem hi, hb⟩
    cases p a <;> simp <;> omega

theorem Slot.init_busy (env : SessionEnv) : (Slot.init env).busy = false := by
  simp [Slot.busy, Slot.init, Session.init]

theorem Slot.post_busy (c : Call) (slot : Slot) : (slot.post c).busy = (slot.busy || decide (c = .start)) := by
  simp only [Slot.busy, Slot.post, List.mem_append, List.mem_singleton, Bool.decide_or, Bool.or_assoc, eq_comm]

theorem Slot.post_single {c : Call} {slot : Slot} (hs : slot.Single) (hc : c = .start → ¬ slot.busy) :
    (slot.post c).Single := by
  intro hm
  by_cases h : c = .start
  · obtain ⟨hl, hn⟩ : ¬ slot.session.live ∧ .start ∉ slot.calls := by simpa [Slot.busy, not_or] using hc h
    subst h
    exact ⟨hl, by simp [Slot.post, List.count_append, List.count_eq_zero.mpr hn]⟩
  · have hm' : .start ∈ slot.calls := by
      simpa [Slot.post, Ne.symm h] using hm
    obtain ⟨hl, hn⟩ := hs hm'
    refine ⟨hl, ?_⟩
    simp [Slot.post, List.count_append, hn, h]

theorem Slot.turned {slot slot' : Slot} {start : Bool} (hs : slot.Single)
    (hc : slot.calls.count .start = start.toNat + slot'.calls.count .start)
    (hb : slot.session.Balanced slot'.session (slot.session.live || start)) :
    slot'.Single ∧
      slot'.session.disconnects - slot.session.disconnects + slot'.busy.toNat = slot.busy.toNat := by
  unfold Slot.Single at hs ⊢
  unfold Slot.busy
  simp only [← List.count_pos_iff] at hs ⊢
  obtain ⟨hd, hb⟩ := hb
  have hle := slot.session.live.toNat_le
  have hle' := slot'.session.live.toNat_le
  cases start with
  | true =>
    obtain ⟨hl, hn⟩ := hs (by rw [hc, Bool.toNat_true]; omega)
    obtain hn' : slot'.calls.count .start = 0 := by rw [hn, Bool.toNat_true] at hc; omega
    simp only [hn, hn', Nat.lt_irrefl, Nat.zero_lt_one, decide_true, decide_false, Bool.or_true, Bool.or_false,
      Bool.toNat_true, false_implies, true_and] at hb ⊢
    omega
  | false =>
    rw [Bool.toNat_false, Nat.zero_add] at hc
    rw [Bool.or_false] at hb
    rw [← hc]
    by_cases hn : 0 < slot.calls.count .start
    · obtain ⟨hl, h1⟩ := hs hn
      have hl : slot.session.live = false := by simpa using hl
      have hl' : slot'.session.live = false := by
        rw [hl, Bool.toNat_false] at hb
        exact Bool.toNat_eq_zero.mp (by omega)
      simp only [hl, hl', h1, Bool.toNat_false] at hb ⊢
      simp
      omega
    · simp only [hn, decide_false, Bool.or_false, false_implies, true_and]
      omega

namespace Pool

variable {env : SessionEnv} {p q : Pool} {slots slots' : List Slot}

/-! ## Calls on ranges -/

def busyAt (slots : List Slot) (i : Nat) : Bool := slots[i]?.any Slot.busy

theorem postAll_length {c : Call} : ∀ {js : List Nat} {slots slots' : List Slot},
    postAll c js slots = some slots' → slots'.length = slots.length
  | [], slots, slots', h => by
    obtain rfl := Option.some.inj h
    rfl
  | j :: js, slots, slots', h => by
    obtain ⟨slot, hj, h⟩ := Option.bind_eq_some_iff.mp h
    rw [postAll_length h, List.length_set]

theorem postAll_getElem? {c : Call} : ∀ {js : List Nat} {slots slots' : List Slot}, js.Nodup →
    postAll c js slots = some slots' → ∀ i : Nat,
    slots'[i]? = if i ∈ js then slots[i]?.map (Slot.post c) else slots[i]?
  | [], slots, slots', _, h, i => by
    obtain rfl := Option.some.inj h
    simp
  | j :: js, slots, slots', hn, h, i => by
    obtain ⟨slot, hj, h⟩ := Option.bind_eq_some_iff.mp h
    rw [List.nodup_cons] at hn
    rw [postAll_getElem? hn.2 h i]
    by_cases hij : j = i
    · subst hij
      have hl : j < slots.length := (List.getElem?_eq_some_iff.mp hj).1
      rw [if_neg hn.1, if_pos (List.mem_cons_self ..), List.getElem?_set_self hl, hj, Option.map_some]
    · have hm : i ∈ j :: js ↔ i ∈ js := by simp [Ne.symm hij]
      simp only [hm, List.getElem?_set_ne hij]

theorem postAll_single {c : Call} : ∀ {js : List Nat} {slots slots' : List Slot}, js.Nodup →
    postAll c js slots = some slots' → (c = .start → ∀ j ∈ js, ¬ busyAt slots j) →
    (∀ slot ∈ slots, slot.Single) → ∀ slot ∈ slots', slot.Single
  | [], slots, slots', _, h, _, hs => by
    obtain rfl := Option.some.inj h
    exact hs
  | j :: js, slots, slots', hn, h, hb, hs => by
    obtain ⟨slot, hj, h⟩ := Option.bind_eq_some_iff.mp h
    rw [List.nodup_cons] at hn
    refine postAll_single hn.2 h (fun hc i hi => ?_) fun s hm => ?_
    · have hij : j ≠ i := fun he => hn.1 (he ▸ hi)
      simpa [busyAt, List.getElem?_set_ne hij] using hb hc i (List.mem_cons_of_mem _ hi)
    · rcases List.mem_or_eq_of_mem_set hm with hm | rfl
      · exact hs s hm
      · apply Slot.post_single (hs _ (List.mem_of_getElem? hj))
        intro hc
        simpa [busyAt, hj] using hb hc j (List.mem_cons_self ..)

theorem postAll_countP {c : Call} : ∀ {js : List Nat} {slots slots' : List Slot}, js.Nodup →
    postAll c js slots = some slots' →
    slots'.countP Slot.busy + (if c = .start then js.countP (busyAt slots) else 0) =
      slots.countP Slot.busy + (if c = .start then js.length else 0)
  | [], slots, slots', _, h => by
    obtain rfl := Option.some.inj h
    simp
  | j :: js, slots, slots', hn, h => by
    obtain ⟨slot, hj, h⟩ := Option.bind_eq_some_iff.mp h
    rw [List.nodup_cons] at hn
    have ih := postAll_countP hn.2 h
    have hset := countP_set (p := Slot.busy) (a := slot.post c) hj
    rw [Slot.post_busy] at hset
    by_cases hc : c = .start
    · subst hc
      have hrest : js.countP (busyAt (slots.set j (slot.post .start))) = js.countP (busyAt slots) := by
        apply List.countP_congr
        intro i hi
        have hij : j ≠ i := fun he => hn.1 (he ▸ hi)
        simp [busyAt, List.getElem?_set_ne hij]
      have hb : (if busyAt slots j then 1 else 0) = slot.busy.toNat := by
        simp only [busyAt, hj, Option.any_some]
        cases slot.busy <;> rfl
      simp only [if_true, List.countP_cons, List.length_cons, hb, hrest, decide_true, Bool.or_true,
        Bool.toNat_true] at ih hset ⊢
      omega
    · simp only [hc, if_false, decide_false, Bool.or_false] at ih hset ⊢
      omega

def callOf (a : ActionDescriptor) : Option Call :=
  match a.type with
  | .CREATE => none
  | .CONNECT => some .start
  | .SEND => some (.send a.count.toNat)
  | .FLOOD => some .flood
  | .DRAIN => some .drain
  | .DISCONNECT => some .stop

def rangeOf (a : ActionDescriptor) : List Nat :=
  List.range' a.sessionsStart.toNat (a.sessionsEnd.toNat - a.sessionsStart.toNat)

def activeAfter (p : Pool) (a : ActionDescriptor) : UInt64 :=
  if a.type = .CONNECT then
    p.activeSessions + (UInt64.ofNat a.sessionsEnd.toNat - UInt64.ofNat a.sessionsStart.toNat)
  else p.activeSessions

inductive Acted (env : SessionEnv) (p : Pool) (a : ActionDescriptor) : Pool → Prop
  | created (ht : callOf a = none) (hs : p.slots = []) : Acted env p a
      { p with slots := List.replicate (a.sessionsEnd - a.sessionsStart).toNat (.init env) }
  | kept (ht : callOf a = none) (hs : p.slots ≠ []) : Acted env p a p
  | closed {c : Call} (hc : callOf a = some c) (h : p.closed) : Acted env p a p
  | called {c : Call} {slots : List Slot} (hc : callOf a = some c) (ho : ¬ p.closed)
      (h : postAll c (rangeOf a) p.slots = some slots) :
    Acted env p a { p with slots := slots, activeSessions := p.activeAfter a }

theorem acted_of_callRange {c : Call} {a : ActionDescriptor} (ha : callOf a = some c) (ht : a.type ≠ .CONNECT)
    (h : p.callRange c a.sessionsStart.toNat a.sessionsEnd.toNat = some q) : Acted env p a q := by
  unfold callRange at h
  split at h
  · rename_i hc
    obtain rfl := Option.some.inj h
    exact .closed ha hc
  · rename_i ho
    obtain ⟨slots, hs, rfl⟩ := Option.map_eq_some_iff.mp h
    have hq : Acted env p a _ := .called ha ho hs
    simpa [activeAfter, ht] using hq

theorem acted_of_handleAction {a : ActionDescriptor} (h : p.handleAction env a = some q) : Acted env p a q := by
  cases ht : a.type with
  | CREATE =>
    simp only [handleAction, ht, createSessions] at h
    split at h
    · rename_i hs
      obtain rfl := Option.some.inj h
      exact .kept (by simp [callOf, ht]) hs
    · rename_i hs
      obtain rfl := Option.some.inj h
      exact .created (by simp [callOf, ht]) (by simpa using hs)
  | CONNECT =>
    simp only [handleAction, ht, startSessionsRange] at h
    split at h
    · rename_i hc
      obtain rfl := Option.some.inj h
      exact .closed (c := .start) (by simp only [callOf, ht]) hc
    · rename_i ho
      rw [callRange, if_neg ho] at h
      obtain ⟨slots, hs, rfl⟩ := Option.map_eq_some_iff.mp h
      have hq : Acted env p a _ := .called (by simp only [callOf, ht]) ho hs
      simpa [activeAfter, ht] using hq
  | SEND =>
    simp only [handleAction, ht] at h
    exact acted_of_callRange (by simp only [callOf, ht]) (by simp [ht]) h
  | FLOOD | DRAIN | DISCONNECT =>
    simp only [handleAction, ht] at h
    exact acted_of_callRange (by simp only [callOf, ht]) (by simp [ht]) h

/-! ## Handlers -/

theorem turn_spec {e : Event} {t : Turn} (h : p.turn e = some t) : p.slots[t.i]? = some t.slot ∧
    ((∃ c opened connected, t.event = .call c opened connected ∧ t.slot.calls = c :: t.calls) ∨
      (∃ c, t.event = .done c ∧ t.calls = t.slot.calls)) := by
  cases e with
  | call i now opened connected =>
    obtain ⟨slot, hi, h⟩ := Option.bind_eq_some_iff.mp h
    split at h
    · cases h
    · rename_i c calls hc
      obtain rfl := Option.some.inj h
      exact ⟨hi, .inl ⟨c, opened, connected, rfl, hc⟩⟩
  | done i now c =>
    obtain ⟨slot, hi, h⟩ := Option.bind_eq_some_iff.mp h
    obtain rfl := Option.some.inj h
    exact ⟨hi, .inr ⟨c, rfl, rfl⟩⟩

theorem handle_spec {e : Event} (h : p.handle env e = some q) : ∃ t session, p.turn e = some t ∧
    t.slot.session.step env (t.now, t.event) = some session ∧
    q = p.update t.i ⟨t.calls, session⟩ (session.disconnects - t.slot.session.disconnects) := by
  obtain ⟨t, ht, h⟩ := Option.bind_eq_some_iff.mp h
  obtain ⟨session, hs, h⟩ := Option.bind_eq_some_iff.mp h
  exact ⟨t, session, ht, hs, (Option.some.inj h).symm⟩

theorem disconnectCallbacks_spec : ∀ (n : Nat) (p : Pool), (p.disconnectCallbacks n).slots = p.slots ∧
    (p.disconnectCallbacks n).closed = p.closed ∧
    (p.disconnectCallbacks n).activeSessions = p.activeSessions - UInt64.ofNat n
  | 0, p => ⟨rfl, rfl, by simp [disconnectCallbacks]⟩
  | n + 1, p => by
    obtain ⟨hs, hc, ha⟩ := disconnectCallbacks_spec n p.disconnectCallback
    have hp : p.disconnectCallback.slots = p.slots ∧ p.disconnectCallback.closed = p.closed ∧
        p.disconnectCallback.activeSessions = p.activeSessions - 1 := by
      unfold disconnectCallback
      simp only
      split <;> exact ⟨rfl, rfl, rfl⟩
    rw [disconnectCallbacks, hs, hc, ha, hp.1, hp.2.1, hp.2.2]
    refine ⟨rfl, rfl, ?_⟩
    rw [UInt64.ofNat_add]
    grind

/-! ## Shutting down -/

/-- `closed_` is set before `stop_all_sessions` looks at it. -/
theorem shutdown_eq (p : Pool) : p.shutdown = some (if p.closed then p else
    { p with closed := true, notified := if p.activeSessions = 0 then p.notified + 1 else p.notified }) := by
  unfold shutdown
  split
  · rfl
  · simp only [stopAllSessions, stopSessionsRange, callRange]
    by_cases h : p.activeSessions = 0 <;> simp_all

theorem closed_of_handleTask {task : Task} (h : p.handleTask env task = some q) (hc : q.closed) :
    p.closed ∨ task = .shutdown := by
  cases task with
  | action a =>
    left
    cases acted_of_handleAction h with
    | created | kept | closed | called => exact hc
  | shutdown => exact .inr rfl

theorem closed_of_handle {e : Event} (h : p.handle env e = some q) : q.closed = p.closed := by
  obtain ⟨t, session, -, -, rfl⟩ := handle_spec h
  exact (disconnectCallbacks_spec _ _).2.1

def Told (p : Pool) : Prop := p.closed → p.activeSessions = 0 → 0 < p.notified

theorem Told.callbacks : ∀ {n : Nat} {p : Pool}, p.Told → (p.disconnectCallbacks n).Told
  | 0, _, h => h
  | n + 1, p, h => by
    rw [disconnectCallbacks]
    apply Told.callbacks
    intro hc h0
    unfold disconnectCallback at hc h0 ⊢
    simp only at hc h0 ⊢
    split at hc
    · rename_i hz
      simp [hz]
    · rename_i hz
      rw [if_neg hz] at h0
      exact absurd ⟨h0, hc⟩ hz

theorem Told.acted {a : ActionDescriptor} (h : p.Told) (ha : Acted env p a q) : q.Told := by
  cases ha with
  | created => exact h
  | kept => exact h
  | closed => exact h
  | called _ ho => exact fun hc => absurd hc ho

theorem Told.step {e : Task ⊕ Event} (h : p.Told) (hs : p.step env e = some q) : q.Told := by
  cases e with
  | inl task =>
    cases task with
    | action a => exact h.acted (acted_of_handleAction hs)
    | shutdown =>
      obtain rfl := Option.some.inj ((shutdown_eq p).symm.trans hs)
      split
      · exact h
      · intro _ h0
        simp only at h0
        simp [h0]
  | inr e =>
    obtain ⟨t, session, _, _, rfl⟩ := handle_spec hs
    exact Told.callbacks (p := { p with slots := p.slots.set t.i ⟨t.calls, session⟩ }) h

def Stopped (p : Pool) : Prop :=
  (∀ slot ∈ p.slots, ¬ slot.session.live) ∧ p.activeSessions = 0 ∧ 0 < p.notified

instance : Decidable (Stopped p) := inferInstanceAs (Decidable (_ ∧ _))

/-- `shutdown` posts nothing, so it stops the pools that had stopped before. -/
theorem shutdown_stopped_iff {es : List (Task ⊕ Event)} (r : Runs.Run (step env) (fun _ _ => True) init es p)
    (h : p.shutdown = some q) : q.slots = p.slots ∧
      (Stopped q ↔ (∀ slot ∈ p.slots, ¬ slot.session.live) ∧ p.activeSessions = 0) := by
  have ht : p.Told := r.invariant (fun _ _ _ h _ hs => h.step hs) (fun hc => absurd hc (by simp [init]))
  rw [shutdown_eq] at h
  obtain rfl := Option.some.inj h
  split
  · rename_i hc
    exact ⟨rfl, fun hs => ⟨hs.1, hs.2.1⟩, fun hs => ⟨hs.1, hs.2, ht hc hs.2⟩⟩
  · refine ⟨rfl, fun hs => ⟨hs.1, hs.2.1⟩, fun hs => ⟨hs.1, hs.2, ?_⟩⟩
    simp [hs.2]

def connectRun : List (Task ⊕ Event) :=
  [.inl (.action ⟨.CREATE, 0, 1, 1, 0⟩), .inl (.action ⟨.CONNECT, 0, 1, 0, 0⟩), .inr (.call 0 0 true true),
    .inr (.done 0 1 (.connected 0 true))]

theorem shutdown_leaves_live :
    ∃ p q, Runs.Run (step (Session.onePayload .TCP)) (fun _ _ => True) init connectRun p ∧
      p.shutdown = some q ∧ q.slots = p.slots ∧ ¬ Stopped q ∧ (∀ slot ∈ q.slots, slot.session.live) :=
  ⟨_, _, Runs.run_of_isSome (by decide), rfl, by decide⟩

theorem shutdown_stopped_drained :
    ∃ p q, Runs.Run (step (Session.onePayload .TCP)) (fun _ _ => True) init
        (connectRun ++ [.inl (.action ⟨.DRAIN, 0, 1, 0, 0⟩), .inr (.call 0 2 true true)]) p ∧
      p.shutdown = some q ∧ Stopped q := by
  have r : Runs.Run (step (Session.onePayload .TCP)) (fun _ _ => True) init
      (connectRun ++ [.inl (.action ⟨.DRAIN, 0, 1, 0, 0⟩), .inr (.call 0 2 true true)]) _ :=
    Runs.run_of_isSome (by decide)
  exact ⟨_, _, r, rfl, (shutdown_stopped_iff r rfl).2.mpr (by decide)⟩

/-! ## Counting -/

structure Tidy (p : Pool) : Prop where
  single : ∀ slot ∈ p.slots, slot.Single
  small : p.slots.length < 2 ^ 32

def Counted (p : Pool) : Prop := p.activeSessions.toNat = p.slots.countP Slot.busy

/-- What the counter is for: it holds the busy sessions, and is zero when all
are closed. -/
def Accurate (p : Pool) : Prop :=
  p.Counted ∧ (p.activeSessions = 0 ↔ ∀ slot ∈ p.slots, ¬ slot.busy)

theorem accurate_iff : p.Accurate ↔ p.Counted := by
  refine ⟨And.left, fun h => ⟨h, ?_⟩⟩
  rw [← List.countP_eq_zero, ← show _ = _ from h, ← UInt64.toNat_inj]
  rfl

instance : Decidable (Counted p) := inferInstanceAs (Decidable (_ = _))

instance : Decidable (Accurate p) := inferInstanceAs (Decidable (_ ∧ _))

/-- A CONNECT of a session that is live or about to be. -/
def Doubles (p : Pool) : Task → Prop
  | .action a => a.type = .CONNECT ∧ ¬ p.closed ∧ ∃ i ∈ rangeOf a, busyAt p.slots i
  | .shutdown => False

instance : DecidablePred (Doubles p) := by
  intro task
  unfold Doubles
  split <;> infer_instance

theorem callOf_start {a : ActionDescriptor} : callOf a = some .start ↔ a.type = .CONNECT := by
  unfold callOf
  cases a.type <;> simp

theorem callOf_none {a : ActionDescriptor} : callOf a = none ↔ a.type = .CREATE := by
  unfold callOf
  cases a.type <;> simp

theorem rangeOf_nodup (a : ActionDescriptor) : (rangeOf a).Nodup := List.nodup_range'

theorem activeAfter_toNat {a : ActionDescriptor} (hp : p.Counted) (ht : p.Tidy)
    (hle : a.sessionsStart ≤ a.sessionsEnd) : (p.activeAfter a).toNat =
      p.slots.countP Slot.busy + if callOf a = some .start then (rangeOf a).length else 0 := by
  have hn := List.countP_le_length (p := Slot.busy) (l := p.slots)
  have hs := ht.small
  have h1 := a.sessionsStart.toNat_lt
  have h2 := a.sessionsEnd.toNat_lt
  have h3 := UInt32.le_iff_toNat_le.mp hle
  unfold activeAfter
  by_cases hc : a.type = .CONNECT
  · rw [if_pos hc, if_pos (callOf_start.mpr hc), ← hp, rangeOf, List.length_range', UInt64.toNat_add,
      UInt64.toNat_sub, UInt64.toNat_ofNat', UInt64.toNat_ofNat']
    rw [← hp] at hn
    omega
  · rw [if_neg hc, if_neg (fun h => hc (callOf_start.mp h))]
    exact hp

theorem Counted.called {a : ActionDescriptor} {c : Call} (hp : p.Counted) (ht : p.Tidy)
    (hle : a.sessionsStart ≤ a.sessionsEnd) (hc : callOf a = some c) (ho : ¬ p.closed)
    (h : postAll c (rangeOf a) p.slots = some slots) :
    let q : Pool := { p with slots := slots, activeSessions := p.activeAfter a }
    (¬ Doubles p (.action a) → q.Tidy) ∧ (q.Counted ↔ ¬ Doubles p (.action a)) := by
  have hn := postAll_countP (rangeOf_nodup a) h
  have ha := activeAfter_toNat hp ht hle
  have hd : Doubles p (.action a) ↔ c = .start ∧ ∃ i ∈ rangeOf a, busyAt p.slots i := by
    simp [Doubles, ho, ← callOf_start, hc]
  constructor
  · intro hnd
    refine ⟨postAll_single (rangeOf_nodup a) h ?_ ht.single, by simpa [postAll_length h] using ht.small⟩
    intro hcs i hi hb
    exact hnd (hd.mpr ⟨hcs, i, hi, hb⟩)
  · simp only [Counted, ha, hc, Option.some.injEq]
    rw [hd]
    by_cases hcs : c = .start
    · simp only [hcs, if_true, true_and] at hn ⊢
      have hz : (rangeOf a).countP (busyAt p.slots) = 0 ↔ ¬ ∃ i ∈ rangeOf a, busyAt p.slots i := by
        rw [List.countP_eq_zero]
        simp
      rw [← hz]
      omega
    · simp only [hcs, if_false, false_and, not_false_iff, iff_true] at hn ⊢
      omega

theorem Counted.acted {a : ActionDescriptor} (hp : p.Counted) (ht : p.Tidy)
    (hle : a.sessionsStart ≤ a.sessionsEnd) (h : Acted env p a q) :
    (¬ Doubles p (.action a) → q.Tidy) ∧ (q.Counted ↔ ¬ Doubles p (.action a)) := by
  cases h with
  | created hc hs =>
    have hd : ¬ Doubles p (.action a) := fun h => absurd h.1 (by simp [callOf_none.mp hc])
    refine ⟨fun _ => ⟨?_, by simpa using (a.sessionsEnd - a.sessionsStart).toNat_lt⟩, iff_of_true ?_ hd⟩
    · intro slot hm
      obtain rfl := List.eq_of_mem_replicate hm
      exact fun h => absurd h (by simp [Slot.init])
    · simpa [Counted, hs, List.countP_replicate, Slot.init_busy] using hp
  | kept hc hs =>
    have hd : ¬ Doubles p (.action a) := fun h => absurd h.1 (by simp [callOf_none.mp hc])
    exact ⟨fun _ => ht, iff_of_true hp hd⟩
  | closed hc h => exact ⟨fun _ => ht, iff_of_true hp fun hd => hd.2.1 h⟩
  | called hc ho h => exact hp.called ht hle hc ho h

theorem turn_count {e : Event} {t : Turn} (h : p.turn e = some t) :
    t.slot.calls.count .start = t.event.isStart.toNat + t.calls.count .start := by
  obtain ⟨-, ⟨c, o, cn, he, hc⟩ | ⟨c, he, hc⟩⟩ := turn_spec h
  · rw [hc, he]
    cases c <;> simp [Event.isStart, Nat.add_comm]
  · rw [hc, he]
    simp [Event.isStart]

theorem Counted.handled {e : Event} (hp : p.Counted) (ht : p.Tidy) (h : p.handle env e = some q) :
    q.Tidy ∧ q.Counted := by
  obtain ⟨t, session, hturn, hs, rfl⟩ := handle_spec h
  obtain ⟨hi, -⟩ := turn_spec hturn
  obtain ⟨hsingle, hbusy⟩ : Slot.Single ⟨t.calls, session⟩ ∧ _ := Slot.turned (ht.single _ (List.mem_of_getElem? hi))
    (turn_count hturn) (Session.handled_of_step hs).balanced
  have hset := countP_set (p := Slot.busy) (a := ⟨t.calls, session⟩) hi
  obtain ⟨hslots, _, hactive⟩ := disconnectCallbacks_spec (session.disconnects - t.slot.session.disconnects)
    { p with slots := p.slots.set t.i ⟨t.calls, session⟩ }
  refine ⟨⟨?_, ?_⟩, ?_⟩
  · intro slot hm
    rw [update, hslots] at hm
    rcases List.mem_or_eq_of_mem_set hm with hm | rfl
    · exact ht.single slot hm
    · exact hsingle
  · rw [update, hslots]
    simpa using ht.small
  · have hn := List.countP_le_length (p := Slot.busy) (l := p.slots)
    have hlt := ht.small
    rw [Counted] at hp ⊢
    have hle := t.slot.busy.toNat_le
    rw [update, hslots, hactive, UInt64.toNat_sub, UInt64.toNat_ofNat']
    simp only at hset hbusy ⊢
    omega

end Pool

end Loadshear
