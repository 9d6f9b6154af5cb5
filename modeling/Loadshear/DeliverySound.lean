import Loadshear.RangeSound
import Loadshear.WriteSound

/-!
# What a session delivers

From the script to the wire, without FLOOD and REPEAT: a session walks the
payload list from its start, as many steps as its SENDs have copies. That gives it
the copies of its own SENDs when these come before all others.
-/

namespace Loadshear.Session

variable {env : SessionEnv} {now : Nat} {s p t : Session} {e : Event} {G : Session → Nat × Event → Prop}
  {es : List (Nat × Event)}

/-! ## What the calls leave -/

theorem Handled.draining (h : Handled env now s e t) : t.draining ↔ s.draining ∨ e.call? = some .drain := by
  obtain ⟨p, u, hp, ht, hu⟩ := h.passes
  simp only [output, Output.mk.injEq] at ht
  rw [ht.2.2.1, ← hp.draining]
  rcases hu with rfl | ⟨hw, _⟩
  · rfl
  · rw [hw.frame.draining]

theorem draining_of_run (r : Runs.Run (step env) G (init env) es s) : s.draining ↔ .drain ∈ callsOf es := by
  induction r with
  | nil => simp [Session.init, callsOf]
  | snoc r _ he ih =>
    rw [(handled_of_step he).draining, callsOf_snoc, List.mem_append, ih]
    simp

theorem Connected.gen (h : Connected env now s t) : t.gen = s.gen := by
  cases h with
  | quiet => rw [startReading_eq]
  | write _ _ h =>
    rw [h.frame.gen, startReading_eq]

theorem Handled.gen (h : Handled env now s e t) : t.gen = s.gen + e.isStart.toNat := by
  cases h with
  | dialed | floodIgnored | floodKept | sendKept | drainKept | reread | handed | respondedEmpty => rfl
  | refused | drainClosed | stopped | connectFailed | writeFailed | readFailed =>
    rw [closeSession_eq]
    rfl
  | opened _ _ h => exact h.gen
  | connected _ h => exact h.gen
  | flooded _ _ _ h => exact h.frame.gen
  | sent _ h => exact h.frame.gen
  | wrote _ h => exact h.frame.gen
  | responded _ _ h => exact h.frame.gen

theorem gen_of_run (r : Runs.Run (step env) G (init env) es s) : s.gen = (callsOf es).count .start := by
  induction r with
  | nil => rfl
  | @snoc es t u e r _ he ih =>
    rw [(handled_of_step he).gen, callsOf_snoc, List.count_append, ih]
    obtain ⟨now, c | c⟩ := e
    · cases c <;> rfl
    · rfl

theorem once_of_run (r : Runs.Run (step env) G (init env) es s) (hG : ∀ s e, G s e → Once s e) :
    (callsOf es).count .start ≤ 1 := by
  induction r with
  | nil => simp [callsOf]
  | @snoc es t u e r hg he ih =>
    rw [callsOf_snoc, List.count_append]
    by_cases hs : e.2.isStart
    · rw [← gen_of_run r, hG _ _ hg hs]
      obtain ⟨now, c | c⟩ := e <;> cases c <;> simp [Event.call?]
    · obtain ⟨now, c | c⟩ := e <;> cases c <;> simp_all [Event.call?, Event.isStart]

theorem Begins.walk (h : Begins env s t) :
    t.walk = s.walk ∨ ∃ i, t.walk = s.walk ++ [i] ∧ Follows env s i := by
  cases h with
  | nothing h => exact .inl (by rw [Session.walk, h, Session.walk])
  | response h =>
    refine .inl ?_
    rw [Session.walk, h, List.filterMap_append, Session.walk]
    simp [Begun.index?]
  | @payload i h hf =>
    refine .inr ⟨i, ?_, hf⟩
    rw [Session.walk, h, List.filterMap_append, Session.walk]
    simp [Begun.index?]

/-- Without REPEAT the payloads are begun in the order of the list. -/
theorem walk_of_run (hl : env.config.loopPayloads = false) (r : Runs.Run (step env) G (init env) es s) :
    s.walk = List.range s.nextPayloadIndex ∧ s.nextPayloadIndex ≤ env.payloads.length := by
  induction r with
  | nil => exact ⟨rfl, Nat.zero_le _⟩
  | @snoc es t u e r hg he ih =>
    obtain ⟨hw, hle⟩ := ih
    have hi := index_of_run r
    have hi' := index_of_run (r.snoc hg he)
    rcases ((handled_of_step he).begins hi).walk with h | ⟨i, h, hlt, hf⟩
    · have hn : u.nextPayloadIndex = t.nextPayloadIndex := by rw [hi', hi, nextOf, h, nextOf]
      rw [h, hn]
      exact ⟨hw, hle⟩
    · obtain rfl : i = t.nextPayloadIndex := by
        rcases hf with hf | ⟨_, _, hloop, _⟩
        · rw [hi, hf]
        · simp [hl] at hloop
      have hn : u.nextPayloadIndex = t.nextPayloadIndex + 1 := by
        rw [hi', nextOf, h]
        simp
      rw [h, hn, hw, List.range_succ]
      exact ⟨rfl, hlt⟩

/-! ## Closing with nothing left -/

def Spent (env : SessionEnv) (s : Session) : Prop := 0 < s.writesQueued → env.payloads.length ≤ s.nextPayloadIndex

def Fails (env : SessionEnv) (s : Session) : Event → Prop
  | .call .start opened connected => env.transport = .UDP ∧ ¬ (opened ∧ connected ∧ ¬ s.socketOpen)
  | .call .stop _ _ => True
  | .call .. => False
  | .done c => Breaks env s (.done c)

instance : DecidablePred (Fails env s)
  | .call .start opened connected =>
    inferInstanceAs (Decidable (env.transport = .UDP ∧ ¬ (opened ∧ connected ∧ ¬ s.socketOpen)))
  | .call .stop .. => inferInstanceAs (Decidable True)
  | .call .flood .. | .call (.send _) .. | .call .drain .. => inferInstanceAs (Decidable False)
  | .done c => inferInstanceAs (Decidable (Breaks env s (.done c)))

def Unbroken (env : SessionEnv) (s : Session) (e : Nat × Event) : Prop := Once s e ∧ ¬ Fails env s e.2

instance : ∀ e, Decidable (Unbroken env s e) := fun _ => inferInstanceAs (Decidable (_ ∧ _))

theorem Writes.closing (h : Writes env now p t) (hl : p.live) (hn : ¬ t.live) : t.draining ∧ Spent env t := by
  cases h with
  | response => exact absurd hl hn
  | payload => exact absurd hl hn
  | stop _ he =>
    rw [stopWriting_eq] at hn ⊢
    exact ⟨by simpa [hl] using hn, fun hq => he (.inr hq)⟩

theorem Starts.closing (h : Starts env now p t) (hl : p.live) (hn : ¬ t.live) : t.draining ∧ Spent env t := by
  rcases h with ⟨_, rfl⟩ | ⟨_, h⟩
  · exact absurd hl hn
  · exact h.closing hl hn

theorem Connected.closing (h : Connected env now p t) (hl : p.live) (hn : ¬ t.live) : t.draining ∧ Spent env t := by
  cases h with
  | quiet =>
    rw [startReading_eq] at hn
    exact absurd hl hn
  | write _ _ h => exact h.closing (by rw [startReading_eq]; exact hl) hn

theorem Handled.closing (h : Handled env now s e t) (hf : ¬ Fails env s e) (hl : s.live ∨ e.isStart)
    (hn : ¬ t.live) : t.draining ∧ Spent env t := by
  cases h with
  | dialed => exact absurd rfl hn
  | refused ht hr => exact absurd ⟨ht, hr⟩ hf
  | opened _ _ h => exact h.closing rfl hn
  | floodIgnored | floodKept | sendKept | drainKept | reread | handed | respondedEmpty =>
    exact absurd (hl.resolve_right (by simp [Event.isStart])) hn
  | flooded _ _ hr h => exact h.closing (ready_iff.mp hr).1 hn
  | sent hr h => exact h.closing (ready_iff.mp hr).1 hn
  | drainClosed _ hq =>
    rw [closeSession_eq]
    exact ⟨rfl, fun hq' => absurd hq (Nat.ne_of_gt hq')⟩
  | stopped => exact absurd trivial hf
  | connectFailed => exact absurd rfl hf
  | connected _ h => exact h.closing (hl.resolve_right (by simp [Event.isStart])) hn
  | writeFailed => exact absurd rfl hf
  | wrote _ h => exact h.closing (hl.resolve_right (by simp [Event.isStart])) hn
  | readFailed hi ho => exact absurd (by simpa [Fails, Breaks, hi] using ho) hf
  | @responded i op u hi _ h =>
    have hc : u.draining ∧ Spent env u := h.closing (hl.resolve_right (by simp [Event.isStart])) hn
    exact hc

theorem Handled.kept_spent (h : Handled env now s e t) (hs : Spent env s) (hl : env.config.loopPayloads = false)
    (hf : ¬ s.flood) (he : e.call? ≠ some .flood) (hq : Session.sent e = 0) : Spent env t := by
  obtain ⟨p, u, hp, ht, hu⟩ := h.passes
  simp only [output, Output.mk.injEq] at ht
  obtain ⟨_, _, _, _, hti, htq, _⟩ := ht
  have hp' : Spent env p := by
    unfold Spent
    rw [hp.queued, hp.index, hq]
    exact hs
  unfold Spent
  rw [hti, htq]
  rcases hu with rfl | ⟨hw, _⟩
  · exact hp'
  · cases hw with
    | response => exact hp'
    | @payload i _ _ hq' hi hn =>
      have hpf : ¬ p.flood := fun hpf => (hp.flood hpf).elim hf he
      have := hp' (hq'.resolve_left hpf)
      rcases hn with rfl | ⟨_, _, hloop, _⟩
      · omega
      · simp [hl] at hloop
    | stop =>
      rw [stopWriting_eq]
      exact hp'

/-- Every send comes after a start and before any drain. -/
def Timely (calls : List Call) : Prop :=
  ∀ before n rest, calls = before ++ .send n :: rest → .start ∈ before ∧ .drain ∉ before

theorem Timely.left {calls rest : List Call} (h : Timely (calls ++ rest)) : Timely calls := by
  rintro before n rest' rfl
  exact h before n (rest' ++ rest) (by simp)

/-- A session that has been started and is closed was drained, and has nothing
left to write. -/
theorem closed_spent (hl : env.config.loopPayloads = false)
    (r : Runs.Run (step env) (Unbroken env) (init env) es s) (hf : .flood ∉ callsOf es)
    (ht : Timely (callsOf es)) : s.gen ≠ 0 → ¬ s.live → s.draining ∧ Spent env s := by
  induction r with
  | nil => exact fun hg => absurd rfl hg
  | @snoc es t u e r hg he ih =>
    intro hgen hn
    rw [callsOf_snoc] at hf ht
    have hh := handled_of_step he
    have hf' : .flood ∉ callsOf es := fun h => hf (List.mem_append_left _ h)
    by_cases hl' : t.live ∨ e.2.isStart
    · exact hh.closing hg.2 hl' hn
    · obtain ⟨hlive, hstart⟩ := not_or.mp hl'
      have hgen' : t.gen ≠ 0 := by
        rwa [hh.gen, Bool.eq_false_iff.mpr hstart, Bool.toNat_false, Nat.add_zero] at hgen
      obtain ⟨hd, hs⟩ := ih hf' ht.left hgen' hlive
      refine ⟨hh.draining.mpr (.inl hd), hh.kept_spent hs hl (counted_of_run r hf').2 (fun h => hf (by simp [h])) ?_⟩
      -- a send would come too late
      rw [sent_eq]
      cases hc : e.2.call? with
      | none => rfl
      | some c =>
        cases c with
        | send n =>
          rw [hc] at ht
          exact absurd ((draining_of_run r).mp hd) (ht _ n [] (by simp)).2
        | _ => rfl

theorem rest_spent (hl : env.config.loopPayloads = false)
    (r : Runs.Run (step env) (Unbroken env) (init env) es s) (hf : .flood ∉ callsOf es)
    (ht : Timely (callsOf es)) (hc : s.connects = []) (hw : s.writes = []) : Spent env s := by
  obtain ⟨ho, ha⟩ := orderly_of_run (r.mono fun _ _ h => h.1)
  by_cases hg : s.gen = 0
  · have hstart : .start ∉ callsOf es := List.count_eq_zero.mp ((gen_of_run r).symm.trans hg)
    have hz : ((callsOf es).map Call.sent).sum = 0 := by
      apply List.sum_eq_zero_iff_forall_eq_nat.mpr
      intro n hn
      obtain ⟨c, hm, rfl⟩ := List.mem_map.mp hn
      cases c with
      | send n =>
        obtain ⟨before, rest, h⟩ := List.append_of_mem hm
        exact absurd (h ▸ List.mem_append_left _ (ht before n rest h).1) hstart
      | _ => rfl
    have := (counted_of_run r hf).1
    intro hq
    omega
  · by_cases hlive : s.live
    · have hconn : ¬ s.connecting := fun h => by simpa [hc, h] using ho.dialing
      have hn : ¬ s.writing := fun h => by simpa [h, hw] using ha.inFlight hlive
      exact fun hq => (ha.idle hlive hconn hn).2 (.inr hq)
    · exact (closed_spent hl r hf ht hg hlive).2

end Loadshear.Session

namespace Loadshear

open Orchestrator
open Pool (rangeOf)

/-! ## The SENDs of a session -/

/-- Where the payloads of session `j` are in the plan: the copies of each SEND
that reaches it, in script order. -/
def ownIndices (j : Nat) : Nat → List Action → List Nat
  | _, [] => []
  | next, a :: rest =>
    (if a.Reaches j then List.range' next a.copies else []) ++ ownIndices j (next + a.copies) rest

def ownCopies (j : Nat) (actions : List Action) : Nat :=
  ((actions.filter (·.Reaches j)).map Action.copies).sum

/-- No SEND that leaves session `j` out comes before one that reaches it. -/
def SendsFirst (j : Nat) (actions : List Action) : Prop :=
  actions.Pairwise fun a b => a.type = .SEND → b.type = .SEND → b.Reaches j → a.Reaches j

instance (j : Nat) (actions : List Action) : Decidable (SendsFirst j actions) :=
  inferInstanceAs (Decidable (List.Pairwise _ _))

theorem copies_eq_zero {a : Action} (h : a.type ≠ .SEND) : a.copies = 0 := if_neg h

theorem ownIndices_nil {j : Nat} : ∀ {actions : List Action} {next : Nat},
    (∀ a ∈ actions, a.type = .SEND → ¬ a.Reaches j) → ownIndices j next actions = []
  | [], _, _ => rfl
  | a :: actions, next, h => by
    obtain ⟨ha, hrest⟩ := List.forall_mem_cons.mp h
    rw [ownIndices, ownIndices_nil hrest, List.append_nil]
    split
    · rename_i hr
      rw [copies_eq_zero fun ht => ha ht hr]
      rfl
    · rfl

theorem ownIndices_length {j : Nat} : ∀ (actions : List Action) (next : Nat),
    (ownIndices j next actions).length = ownCopies j actions
  | [], _ => rfl
  | a :: actions, next => by
    have ih := ownIndices_length (j := j) actions (next + a.copies)
    rw [ownIndices, List.length_append, ih, ownCopies, ownCopies, List.filter_cons]
    by_cases hr : a.Reaches j
    · simp [hr]
    · simp [hr]

/-- The session's own copies are what the payload list starts with. -/
theorem ownIndices_eq {j : Nat} : ∀ {actions : List Action} (next : Nat), SendsFirst j actions →
    ownIndices j next actions = List.range' next (ownCopies j actions)
  | [], _, _ => rfl
  | a :: actions, next, h => by
    obtain ⟨hfirst, hrest⟩ := List.pairwise_cons.mp h
    have ih := ownIndices_eq (next + a.copies) hrest
    by_cases hr : a.Reaches j
    · rw [ownIndices, if_pos hr, ih, List.range'_append_1, ownCopies, ownCopies, List.filter_cons_of_pos (by simpa)]
      rfl
    · have hc : ownCopies j (a :: actions) = ownCopies j actions := by
        rw [ownCopies, List.filter_cons_of_neg (by simpa), ownCopies]
      by_cases ht : a.type = .SEND
      · have hnone : ∀ b ∈ actions, b.type = .SEND → ¬ b.Reaches j := fun b hb hbt hbr =>
          hr (hfirst b hb ht hbt hbr)
        have hlen := ownIndices_length (j := j) actions (next + a.copies)
        rw [ownIndices_nil hnone] at hlen
        rw [ownIndices, if_neg hr, ownIndices_nil hnone, hc, ← hlen]
        rfl
      · rw [ownIndices, if_neg hr, ih, copies_eq_zero ht, hc]
        rfl

theorem ownCopies_le (j : Nat) (actions : List Action) : ownCopies j actions ≤ (actions.map Action.copies).sum := by
  induction actions with
  | nil => exact Nat.le_refl _
  | cons a actions ih =>
    rw [ownCopies, List.filter_cons]
    split
    · rw [List.map_cons, List.sum_cons, List.map_cons, List.sum_cons]
      exact Nat.add_le_add_left ih _
    · rw [List.map_cons, List.sum_cons]
      exact Nat.le_trans ih (Nat.le_add_left _ _)

theorem map_range'_getElem? {α : Type*} (before block rest : List α) :
    (List.range' before.length block.length).map ((before ++ block ++ rest)[·]?) = block.map some := by
  induction block generalizing before with
  | nil => rfl
  | cons a block ih =>
    have ih := ih (before ++ [a])
    rw [List.length_append, List.length_singleton, List.append_assoc before] at ih
    rw [List.length_cons, List.range'_succ, List.map_cons, List.map_cons, ← ih]
    simp

theorem ownIndices_copies {table : PacketTable} {j : Nat} : ∀ (actions : List Action)
    (before : List (PayloadDescriptor × List UInt16)),
    (∀ a ∈ actions, (copyBlock table a).length = a.copies) →
    (ownIndices j before.length actions).map ((before ++ actions.flatMap (copyBlock table))[·]?) =
      ((actions.filter (·.Reaches j)).flatMap (copyBlock table)).map some
  | [], before, _ => rfl
  | a :: actions, before, h => by
    obtain ⟨ha, hrest⟩ := List.forall_mem_cons.mp h
    have ih := ownIndices_copies (j := j) actions (before ++ copyBlock table a) hrest
    rw [List.length_append, ha, List.append_assoc] at ih
    rw [ownIndices, List.map_append, List.flatMap_cons, ih, List.filter_cons]
    by_cases hr : a.Reaches j
    · have hown := map_range'_getElem? before (copyBlock table a) (actions.flatMap (copyBlock table))
      rw [ha, List.append_assoc] at hown
      simp only [hr, if_true, decide_true, List.flatMap_cons, List.map_append, hown]
    · simp [hr]

/-! ## The calls of a session -/

def Action.call (a : Action) : Option Call :=
  match a.type with
  | .CREATE => none
  | .CONNECT => some .start
  | .SEND => some (.send a.count.toNat)
  | .FLOOD => some .flood
  | .DRAIN => some .drain
  | .DISCONNECT => some .stop

theorem Describes.callOf {d : ActionDescriptor} {a : Action} (h : Describes d a) : Pool.callOf d = a.call := by
  unfold Pool.callOf Action.call
  rw [h.type]
  cases ht : a.type with
  | SEND => simp only [h.count ht]
  | _ => rfl

theorem Describes.reaches {d : ActionDescriptor} {a : Action} (h : Describes d a) (ht : a.type ≠ .CREATE) (j : Nat) :
    j ∈ rangeOf d ↔ a.Reaches j := by
  rw [mem_rangeOf, h.start, if_neg ht, h.stop]
  simp [Action.Reaches, Range.Contains, ht]

theorem callsOn_eq {j : Nat} {ds : List ActionDescriptor} {actions : List Action}
    (h : List.Forall₂ Describes ds actions) :
    callsOn j ds = (actions.filter (·.Reaches j)).filterMap Action.call := by
  induction h with
  | nil => rfl
  | @cons d a ds actions hda _ ih =>
    unfold callsOn at ih ⊢
    rw [List.flatMap_cons, ih, hda.callOf, List.filter_cons]
    by_cases ht : a.type = .CREATE
    · have hc : a.call = none := by simp [Action.call, ht]
      have hr : ¬ a.Reaches j := fun hr => hr.1 ht
      simp [hc, hr]
    · simp only [hda.reaches ht]
      by_cases hr : a.Reaches j
      · simp only [hr, if_true, decide_true, List.filterMap_cons]
        cases a.call <;> rfl
      · simp [hr]

def Call.type : Call → ActionType
  | .start => .CONNECT
  | .flood => .FLOOD
  | .send _ => .SEND
  | .drain => .DRAIN
  | .stop => .DISCONNECT

theorem Action.call_type {a : Action} (h : a.type ≠ .CREATE) : ∃ c, a.call = some c ∧ c.type = a.type := by
  unfold Action.call
  cases ht : a.type with
  | CREATE => exact absurd ht h
  | _ => exact ⟨_, rfl, rfl⟩

theorem calls_types (j : Nat) (actions : List Action) :
    ((actions.filter (·.Reaches j)).filterMap Action.call).map Call.type = onSession j actions := by
  unfold onSession
  induction actions with
  | nil => rfl
  | cons a actions ih =>
    rw [List.filter_cons]
    by_cases hr : a.Reaches j
    · obtain ⟨c, hc, hct⟩ := Action.call_type hr.1
      simp [hr, hc, hct, ih]
    · simp [hr, ih]

theorem calls_sent (j : Nat) (actions : List Action) :
    (((actions.filter (·.Reaches j)).filterMap Action.call).map Session.Call.sent).sum = ownCopies j actions := by
  unfold ownCopies
  induction actions.filter (·.Reaches j) with
  | nil => rfl
  | cons a actions ih =>
    rw [List.map_cons, List.sum_cons, ← ih, List.filterMap_cons]
    unfold Action.call Action.copies
    cases a.type <;> simp [Session.Call.sent]

/-! ## In time -/

theorem watch_count : ∀ {history : List ActionType} {w w' : Watch}, watch w history = some w' →
    w.active.toNat + history.count .CONNECT = history.count .DRAIN + w'.active.toNat
  | [], w, w', h => by
    obtain rfl := Option.some.inj h
    simp
  | t :: history, w, w', h => by
    obtain ⟨w₁, h₁, h⟩ := Option.bind_eq_some_iff.mp h
    have ih := watch_count h
    obtain ⟨active, called⟩ := w
    cases t <;> cases active <;> cases called <;> simp [watchAction] at h₁ <;> subst h₁ <;>
      simp at ih ⊢ <;> omega

theorem count_type (calls : List Call) :
    (calls.map Call.type).count .CONNECT = calls.count .start ∧
      (calls.map Call.type).count .DRAIN = calls.count .drain := by
  induction calls with
  | nil => exact ⟨rfl, rfl⟩
  | cons c calls ih =>
    cases c <;> simp [Call.type, ih]

/-- In an accepted script a session that is connected once is sent to after
that and before it is drained. -/
theorem timely_of_watch {calls : List Call} {w : Watch} (h : watch .start (calls.map Call.type) = some w)
    (h1 : calls.count .start ≤ 1) : Session.Timely calls := by
  rintro before n rest rfl
  rw [List.map_append, List.map_cons, watch_append] at h
  obtain ⟨w', hw', h⟩ := Option.bind_eq_some_iff.mp h
  obtain ⟨_, hsend, _⟩ := Option.bind_eq_some_iff.mp h
  have hactive : w'.active := by
    by_contra hn
    simp [watchAction, Call.type, hn] at hsend
  have hcount := watch_count hw'
  obtain ⟨hstart, hdrain⟩ := count_type before
  rw [hstart, hdrain, hactive] at hcount
  rw [List.count_append] at h1
  simp only [Watch.start, Bool.toNat_false, Bool.toNat_true] at hcount
  exact ⟨List.count_pos_iff.mp (by omega), List.count_eq_zero.mp (by omega)⟩

/-! ## Runs of a script -/

namespace Orchestrator

/-- All actions were handed out, shard and strand have run theirs, and nothing
of the session is under way. -/
structure AtRest (actions : List ActionDescriptor) (o : Orchestrator) (s : Shard) (slot : Slot) : Prop where
  dispatched : actions.length ≤ o.currentActionIndx
  handled : ∀ task ∈ s.inbox, task = .shutdown
  called : slot.calls = []
  connected : slot.session.connects = []
  written : slot.session.writes = []

instance (actions : List ActionDescriptor) (o : Orchestrator) (s : Shard) (slot : Slot) :
    Decidable (AtRest actions o s slot) :=
  decidable_of_iff (_ ∧ _ ∧ _ ∧ _ ∧ _) ⟨fun ⟨a, b, c, d, e⟩ => ⟨a, b, c, d, e⟩, fun ⟨a, b, c, d, e⟩ => ⟨a, b, c, d, e⟩⟩

variable {env : OrchestratorEnv} {G : Nat → Nat → Session → Nat × Loadshear.Event → Prop} {early : Prop}
  {shardCount : Nat} {past : Nat → Nat → List (Nat × Loadshear.Event)} {o : Orchestrator} {k i : Nat} {s : Shard}
  {slot : Slot} {range : UInt32 × UInt32}

theorem Feeds.session (h : Feeds env G early shardCount past o) (ho : Opens env.actions shardCount)
    (hs : o.shards[k]? = some s) (hr : o.shardRanges[k]? = some range) (hi : s.pool.slots[i]? = some slot) :
    Runs.Run (Session.step env.session) (G k i) (Session.init env.session) (past k i) slot.session ∧
    ∃ rest, callsOn (range.1.toNat + i) env.actions = Session.callsOf (past k i) ++ rest ∧
      (¬ early → AtRest env.actions o s slot → rest = []) := by
  obtain ⟨range', hr'⟩ := h.exists_range ho hs
  obtain ⟨n, done, pending, hle, hn, hf⟩ := h.fed k s range' hs hr'
  have hl : i < s.pool.slots.length := (List.getElem?_eq_some_iff.mp hi).1
  rw [hf.after.size] at hl
  split at hl
  · exact absurd hl (Nat.not_lt_zero _)
  · rename_i hd
    have hpos : 0 < n := by
      rcases Nat.eq_zero_or_pos n with rfl | hn
      · have := hf.sent
        simp [parts, hd] at this
      · exact hn
    rw [h.ranges (Nat.lt_of_lt_of_le hpos hle)] at hr
    obtain rfl := Option.some.inj (hr'.symm.trans hr)
    obtain ⟨r, hcalls⟩ := hf.after.slots i slot hi
    have hlt := UInt32.le_of_lt (ho.range_lt range' (List.mem_of_getElem? hr')).1
    rw [UInt32.toNat_sub_of_le _ _ hlt] at hl
    have hsent : callsOn (range'.1.toNat + i) (env.actions.take n) = callsOn i done ++ callsOn i pending := by
      rw [← callsOn_parts (by omega), hf.sent, callsOn_append]
    refine ⟨r, slot.calls ++ callsOn i pending ++ callsOn (range'.1.toNat + i) (env.actions.drop n), ?_, ?_⟩
    · rw [← List.append_assoc, ← List.append_assoc, hcalls, ← hsent, ← callsOn_append, List.take_append_drop]
    · intro he hrest
      have hall : env.actions.length ≤ n := by
        by_cases hrun : s.running
        · exact hn hrun ▸ hrest.dispatched
        · exact (hf.stopped hrun).resolve_left he
      have hpending : pending = [] := by
        cases pending with
        | nil => rfl
        | cons a pending =>
          have := hrest.handled (.action a) (by rw [hf.inbox]; simp)
          cases this
      rw [hrest.called, hpending, List.drop_eq_nil_of_le hall]
      rfl

/-- What a session of an accepted script was told, and how it walked the list. -/
theorem Feeds.delivered {env : Env} {script : DSLData} {plan : ExecutionPlan} (h : Accepted env script plan)
    (hrep : script.settings.repeat' = false) (hfl : ∀ a ∈ script.orchestrator.actions, a.type ≠ .FLOOD)
    (hf : Feeds (plan.orchestratorEnv script.settings) G early shardCount past o)
    (ho : Opens plan.actions shardCount) (hs : o.shards[k]? = some s) (hr : o.shardRanges[k]? = some range)
    (hi : s.pool.slots[i]? = some slot) :
    Runs.Run (Session.step (plan.orchestratorEnv script.settings).session) (G k i)
      (Session.init (plan.orchestratorEnv script.settings).session) (past k i) slot.session ∧
    .flood ∉ Session.callsOf (past k i) ∧ ∃ rest,
      ((Session.callsOf (past k i) ++ rest).map Call.type) = onSession (range.1.toNat + i) script.orchestrator.actions ∧
      slot.session.walk.length + slot.session.writesQueued + (rest.map Session.Call.sent).sum =
        ownCopies (range.1.toNat + i) script.orchestrator.actions ∧
      slot.session.walk = List.range slot.session.walk.length ∧
      slot.session.walk.length = slot.session.nextPayloadIndex ∧
      (¬ early → AtRest plan.actions o s slot → rest = []) := by
  obtain ⟨memory, hp⟩ := h.planned
  obtain ⟨table, _, _, hd, _⟩ := generatePlan_spec hp
  obtain ⟨r, rest, hcalls, hrest⟩ := hf.session ho hs hr hi
  have hcalls : callsOn (range.1.toNat + i) plan.actions = Session.callsOf (past k i) ++ rest := hcalls
  rw [callsOn_eq hd] at hcalls
  have htypes := calls_types (range.1.toNat + i) script.orchestrator.actions
  have hsent := calls_sent (range.1.toNat + i) script.orchestrator.actions
  rw [hcalls] at htypes hsent
  have hflood : .flood ∉ Session.callsOf (past k i) := by
    intro hm
    have hm : ActionType.FLOOD ∈ (Session.callsOf (past k i) ++ rest).map Call.type :=
      List.mem_map.mpr ⟨.flood, List.mem_append_left _ hm, rfl⟩
    rw [htypes, onSession] at hm
    obtain ⟨a, ha, hat⟩ := List.mem_map.mp hm
    exact hfl a (List.mem_filter.mp ha).1 hat
  have hloop : (plan.orchestratorEnv script.settings).session.config.loopPayloads = false := by
    rw [← hrep]
    exact congrArg SessionConfig.loopPayloads (generatePlan_config hp)
  have hw := (Session.walk_of_run hloop r).1
  have hlen := congrArg List.length hw
  rw [List.length_range] at hlen
  refine ⟨r, hflood, rest, htypes, ?_, by rw [hlen]; exact hw, hlen, hrest⟩
  rw [(Session.counted_of_run r hflood).1, ← hsent, List.map_append, List.sum_append]

/-- Of the payload list a session begins its own copies, in script order, if
these come first; all of them, when it is connected once and nothing fails. -/
theorem delivers_own {env : Env} {script : DSLData} {plan : ExecutionPlan} (h : Accepted env script plan)
    (hc : OpensWithCreate script.orchestrator.actions) (hrep : script.settings.repeat' = false)
    (hfl : ∀ a ∈ script.orchestrator.actions, a.type ≠ .FLOOD) {es : List Event}
    (r : Runs.Run (step (plan.orchestratorEnv script.settings)) (fun _ _ => True) (init plan.shardCount) es o)
    (hs : o.shards[k]? = some s) (hr : o.shardRanges[k]? = some range) (hi : s.pool.slots[i]? = some slot)
    (hj : SendsFirst (range.1.toNat + i) script.orchestrator.actions) :
    (∃ table, loadPackets env script.settings.packetIdentifiers {} = .ok table ∧
      (ownIndices (range.1.toNat + i) 0 script.orchestrator.actions).map
          ((plan.payloads.zip plan.counterSteps)[·]?) =
        ((script.orchestrator.actions.filter (·.Reaches (range.1.toNat + i))).flatMap (copyBlock table)).map some) ∧
      slot.session.walk <+: ownIndices (range.1.toNat + i) 0 script.orchestrator.actions ∧
      (Runs.Run (step (plan.orchestratorEnv script.settings)) (Handles False fun k' i' s e => k' = k → i' = i →
          Session.Unbroken (plan.orchestratorEnv script.settings).session s e) (init plan.shardCount) es o →
        AtRest plan.actions o s slot →
        slot.session.walk = ownIndices (range.1.toNat + i) 0 script.orchestrator.actions) := by
  have hopens : Opens (plan.orchestratorEnv script.settings).actions plan.shardCount := h.opens hc
  obtain ⟨memory, hp⟩ := h.planned
  obtain ⟨table, hload, hpayloads, _, hsends, hconfig, _⟩ := generatePlan_spec hp
  have hown := ownIndices_eq 0 hj
  refine ⟨⟨table, hload, ?_⟩, ?_, fun r' hrest => ?_⟩
  · obtain ⟨table', hload', hfst, hsnd⟩ := generatePlan_copies hp
    obtain rfl := Except.ok.inj (hload'.symm.trans hload)
    rw [← List.zip_of_prod hfst.symm hsnd.symm]
    exact ownIndices_copies script.orchestrator.actions [] fun a ha => copyBlock_length (hsends a ha)
  · obtain ⟨_, _, rest, _, hcount, hwalk, _⟩ :=
      (feeds_of_any_run hopens r).delivered h hrep hfl hopens hs hr hi
    rw [hown, ← hcount, Nat.add_assoc, ← List.range'_append_1, ← List.range_eq_range', ← hwalk]
    exact List.prefix_append ..
  · obtain ⟨r', hflood, rest, htypes, hcount, hwalk, hlen, hnil⟩ :=
      (feeds_of_run hopens r').delivered h hrep hfl hopens hs hr hi
    obtain rfl := hnil id hrest
    have r' := r'.mono fun _ _ hg => hg rfl rfl
    have hloop : (plan.orchestratorEnv script.settings).session.config.loopPayloads = false := by
      rw [← hrep]
      exact congrArg SessionConfig.loopPayloads hconfig
    obtain ⟨w, hw⟩ := verifyScript_watch h.verified (range.1.toNat + i)
    rw [← htypes, List.append_nil] at hw
    have hspent := Session.rest_spent hloop r' hflood
      (timely_of_watch hw (Session.once_of_run r' fun _ _ hg => hg.1)) hrest.connected hrest.written
    -- the payload list has all copies of the script, so nothing is left queued
    have hle := ownCopies_le (range.1.toNat + i) script.orchestrator.actions
    have hall : (plan.orchestratorEnv script.settings).session.payloads.length =
        (script.orchestrator.actions.map Action.copies).sum :=
      (congrArg List.length hpayloads).trans (flatMap_length fun a ha => payloadBlock_length (hsends a ha))
    have hqueued : slot.session.writesQueued = 0 := by
      by_contra hq
      have := hspent (Nat.pos_of_ne_zero hq)
      simp only [List.map_nil, List.sum_nil] at hcount
      omega
    rw [hqueued, List.map_nil, List.sum_nil] at hcount
    rw [hown, ← hcount, hwalk, ← List.range_eq_range']
    simp

/-! ## Copies of two SENDs -/

def splitScript : DSLData :=
  plainScript [createAction 2, rangedAction .CONNECT 0 2, sendAction 0 1 2 sortedMods, sendAction 1 2 1 .empty]

def splitRun : List Event :=
  List.replicate 4 .dispatch ++ List.replicate 4 (.task 0) ++ [.handler 0 (.call 0 0 true true),
    .handler 0 (.call 1 1 true true), .handler 0 (.done 0 2 (.connected 0 true)),
    .handler 0 (.done 1 3 (.connected 0 true)), .handler 0 (.call 0 4 true true),
    .handler 0 (.call 1 5 true true), .handler 0 (.done 0 6 (.wrote 0 (some 24))),
    .handler 0 (.done 1 7 (.wrote 0 (some 24))), .handler 0 (.done 0 8 (.wrote 0 (some 24)))]

def splitText : List Char :=
  plainText ("CREATE 2 CONNECT 0:2 SEND 0:1 p COPIES 2 COUNTER 0:8 \"little\":1 "
    ++ "TIMESTAMP 12:8 \"little\":\"seconds\" SEND 1:2 p COPIES 1")

theorem split_accepted : interpretText plainEnv .zero splitText = .ok splitScript := by
  rw [splitText, plainText_words, String.toList_append]
  decide +kernel

theorem split_runs : ∃ plan o, generatePlanCommon plainEnv .zero splitScript = .ok plan ∧
    Runs.Run (step (plan.orchestratorEnv splitScript.settings)) (Handles False fun _ _ =>
      Session.Unbroken (plan.orchestratorEnv splitScript.settings).session) (init plan.shardCount) splitRun o ∧
    o.shardRanges[0]? = some (0, 2) ∧
    ∃ s ∈ o.shards[0]?, (∃ slot ∈ s.pool.slots[0]?, AtRest plan.actions o s slot) ∧
      ∃ slot ∈ s.pool.slots[1]?, slot.session.walk.map (plan.payloads[·]?) ≠
        (ownIndices 1 0 splitScript.orchestrator.actions).map (plan.payloads[·]?) :=
  exists_of_planRun (G := fun plan => Handles False fun _ _ =>
    Session.Unbroken (plan.orchestratorEnv splitScript.settings).session)
    (P := fun plan o => o.shardRanges[0]? = some (0, 2) ∧
      ∃ s ∈ o.shards[0]?, (∃ slot ∈ s.pool.slots[0]?, AtRest plan.actions o s slot) ∧
        ∃ slot ∈ s.pool.slots[1]?, slot.session.walk.map (plan.payloads[·]?) ≠
          (ownIndices 1 0 splitScript.orchestrator.actions).map (plan.payloads[·]?)) (by decide +kernel)

theorem delivers_own_first : ∃ plan o s slot, generatePlanCommon plainEnv .zero splitScript = .ok plan ∧
    Runs.Run (step (plan.orchestratorEnv splitScript.settings)) (fun _ _ => True) (init plan.shardCount) splitRun o ∧
    o.shards[0]? = some s ∧ s.pool.slots[0]? = some slot ∧ slot.session.walk = [0, 1] := by
  obtain ⟨plan, o, hp, r, hrange, s, hs, ⟨slot, hslot, hrest⟩, _⟩ := split_runs
  have r' : Runs.Run (step (plan.orchestratorEnv splitScript.settings)) (fun _ _ => True) (init plan.shardCount)
      splitRun o := r.mono fun _ _ _ => trivial
  obtain ⟨_, _, hall⟩ := delivers_own ⟨⟨_, _, split_accepted⟩, _, hp⟩ ⟨_, rfl, rfl⟩ rfl (by decide) r' hs hrange
    hslot (by decide)
  exact ⟨plan, o, s, slot, hp, r', hs, hslot, hall (r.mono fun _ _ hg => hg.mono fun _ _ _ _ hu _ _ => hu) hrest⟩

/-- The second session writes the first payload of the list, which is not its own. -/
theorem delivers_other : interpretText plainEnv .zero splitText = .ok splitScript ∧
    ∃ plan o s slot, generatePlanCommon plainEnv .zero splitScript = .ok plan ∧
      Runs.Run (step (plan.orchestratorEnv splitScript.settings)) (Handles False fun _ _ =>
        Session.Unbroken (plan.orchestratorEnv splitScript.settings).session) (init plan.shardCount) splitRun o ∧
      o.shardRanges[0]? = some (0, 2) ∧ o.shards[0]? = some s ∧ s.pool.slots[1]? = some slot ∧
      slot.session.walk.map (plan.payloads[·]?) ≠
        (ownIndices 1 0 splitScript.orchestrator.actions).map (plan.payloads[·]?) := by
  obtain ⟨plan, o, hp, r, hrange, s, hs, _, slot, hslot, hne⟩ := split_runs
  exact ⟨split_accepted, plan, o, s, slot, hp, r, hrange, hs, hslot, hne⟩

end Orchestrator

end Loadshear
