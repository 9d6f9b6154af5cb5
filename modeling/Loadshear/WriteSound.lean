import Loadshear.ReadSound

/-!
# Writing

A handler changes the side of a session that writes (`Output`) in two stages:
what it prepares, and at most one `do_write` (`handled_output`). From that: there
is one write at a time, and what is written is what was asked for, in order.
-/

namespace Loadshear.Session

variable {env : SessionEnv} {now : Nat} {s p t u : Session} {e : Event}

/-! ## The side that writes -/

structure Output where
  writing : Bool
  flood : Bool
  draining : Bool
  responses : List (List UInt8)
  nextPayloadIndex : Nat
  writesQueued : Nat
  writes : List WriteOp
  begun : List Begun
  fills : List FillCall

def output (s : Session) : Output where
  writing := s.writing
  flood := s.flood
  draining := s.draining
  responses := s.responses
  nextPayloadIndex := s.nextPayloadIndex
  writesQueued := s.writesQueued
  writes := s.writes
  begun := s.begun
  fills := s.fills

theorem closeSession_output (s : Session) : s.closeSession.output = s.output := by
  rw [closeSession_eq]
  rfl

theorem startReading_output (s : Session) : (s.startReading env now).output = s.output := by
  rw [startReading_eq]
  rfl

def Call.sent : Call → Nat
  | .send n => n
  | _ => 0

def sent : Event → Nat
  | .call c .. => Call.sent c
  | .done _ => 0

def Erased (s p : Session) : Prop :=
  ∃ (i : Nat) (op : WriteOp), s.writes[i]? = some op ∧ p.writes = s.writes.eraseIdx i

structure Prepared (s : Session) (e : Event) (p : Session) : Prop where
  writing : p.writing = s.writing
  flood : p.flood → s.flood ∨ e.call? = some .flood
  draining : p.draining ↔ s.draining ∨ e.call? = some .drain
  responses : p.responses = s.responses ++ s.answer e
  index : p.nextPayloadIndex = s.nextPayloadIndex
  queued : p.writesQueued = s.writesQueued + sent e
  writes : p.writes = s.writes ∨ Erased s p
  begun : p.begun = s.begun
  fills : p.fills = s.fills

theorem Prepared.same (h : p.output = s.output) (hs : sent e = 0) (ha : s.answer e = [])
    (hd : e.call? ≠ some .drain) : Prepared s e p := by
  simp only [output, Output.mk.injEq] at h
  obtain ⟨hw, hf, hdr, hr, hi, hq, hws, hb, hfl⟩ := h
  exact ⟨hw, fun h => .inl (hf ▸ h), by simp [hdr, hd], by simp [hr, ha], hi, by simp [hq, hs], .inl hws, hb, hfl⟩

/-- Prepared, and then at most one `do_write`, which no write in flight has
come in the way of. -/
def Passes (env : SessionEnv) (now : Nat) (s : Session) (e : Event) (t : Session) : Prop :=
  ∃ p u, Prepared s e p ∧ t.output = u.output ∧
    (u = p ∨ Writes env now p u ∧ (¬ s.writing ∧ p.writes = s.writes ∨ Erased s p))

theorem Passes.kept (h : Prepared s e t) : Passes env now s e t := ⟨t, t, h, rfl, .inl rfl⟩

theorem Passes.starts (h : Starts env now p u) (ht : t.output = u.output) (hp : Prepared s e p)
    (hw : p.writes = s.writes) : Passes env now s e t := by
  rcases h with ⟨_, rfl⟩ | ⟨hn, h⟩
  · exact ⟨u, u, hp, ht, .inl rfl⟩
  · exact ⟨p, u, hp, ht, .inr ⟨h, .inl ⟨hp.writing ▸ hn, hw⟩⟩⟩

theorem Passes.connected (h : Connected env now p t) (hp : p.output = s.output) (hs : sent e = 0)
    (ha : s.answer e = []) (hd : e.call? ≠ some .drain) : Passes env now s e t := by
  have hr : (p.startReading env now).output = s.output := (startReading_output p).trans hp
  cases h with
  | quiet => exact .kept (.same hr hs ha hd)
  | write hn _ h =>
    have hw : p.writing = s.writing := congrArg Output.writing hp
    exact ⟨_, t, .same hr hs ha hd, rfl, .inr ⟨h, .inl ⟨hw ▸ hn, congrArg Output.writes hr⟩⟩⟩

theorem Handled.passes (h : Handled env now s e t) : Passes env now s e t := by
  cases h with
  | dialed | floodIgnored | reread => exact .kept (.same rfl rfl rfl (by simp [Event.call?]))
  | handed => exact .kept (.same rfl rfl rfl (by simp [Event.call?]))
  | refused | stopped | connectFailed | readFailed =>
    exact .kept (.same (closeSession_output _) rfl rfl (by simp [Event.call?]))
  | opened _ _ h => exact .connected h rfl rfl rfl (by simp [Event.call?])
  | connected _ h => exact .connected h rfl rfl rfl (by simp [Event.call?])
  | floodKept hf hd hr =>
    refine .kept ⟨rfl, fun _ => .inr rfl, ?_, ?_, rfl, rfl, .inl rfl, rfl, rfl⟩ <;> simp [Event.call?, answer]
  | flooded hf hd hr h =>
    refine .starts h rfl ⟨rfl, fun _ => .inr rfl, ?_, ?_, rfl, rfl, .inl rfl, rfl, rfl⟩ rfl <;>
      simp [Event.call?, answer]
  | sendKept hr =>
    refine .kept ⟨rfl, .inl, ?_, ?_, rfl, rfl, .inl rfl, rfl, rfl⟩ <;> simp [Event.call?, answer]
  | sent hr h =>
    refine .starts h rfl ⟨rfl, .inl, ?_, ?_, rfl, rfl, .inl rfl, rfl, rfl⟩ rfl <;> simp [Event.call?, answer]
  | drainClosed | drainKept =>
    refine .kept ⟨?_, fun hf => .inl ?_, ?_, ?_, ?_, ?_, .inl ?_, ?_, ?_⟩ <;>
      simp_all [closeSession_eq, Event.call?, answer, Session.sent, Call.sent]
  | @writeFailed i op hi =>
    refine .kept ⟨?_, fun hf => .inl ?_, ?_, ?_, ?_, ?_, .inr ⟨i, op, hi, ?_⟩, ?_, ?_⟩ <;>
      simp_all [closeSession_eq, Event.call?, answer, Session.sent]
  | @wrote i n op m w _ hi h =>
    refine ⟨{ s with writes := s.writes.eraseIdx i, metrics := m, writeSampleCounter := w }, t,
      ⟨rfl, .inl, ?_, ?_, rfl, rfl, .inr ⟨i, op, hi, rfl⟩, rfl, rfl⟩, rfl, .inr ⟨h, .inr ⟨i, op, hi, rfl⟩⟩⟩
    all_goals simp [Event.call?, answer]
  | @respondedEmpty i op hi hr =>
    exact .kept (.same rfl rfl (by simp [answer, hi, hr]) (by simp [Event.call?]))
  | @responded i op _ hi hr h =>
    refine .starts h rfl ⟨rfl, .inl, ?_, ?_, rfl, rfl, .inl rfl, rfl, rfl⟩ rfl
    all_goals simp [Event.call?, answer, hi, hr]

/-! ## One write at a time -/

structure OneWriter (s : Session) : Prop where
  inFlight : s.writes.length ≤ s.writing.toNat
  fills : ∀ fill ∈ s.fills, fill.inFlight = 0

theorem Writes.oneWriter (h : Writes env now p t) (hw : p.writes = []) (hf : ∀ fill ∈ p.fills, fill.inFlight = 0) :
    OneWriter t := by
  cases h with
  | response => exact ⟨by simp [beginWrite, hw], hf⟩
  | payload _ _ _ _ hf' =>
    refine ⟨by simp [beginWrite, hw], fun fill hm => ?_⟩
    rcases hf' fill hm with hm | hm
    · exact hf fill hm
    · simpa [hw] using hm
  | stop _ _ _ hf' =>
    rw [stopWriting_eq]
    refine ⟨by simp [hw], fun fill hm => ?_⟩
    rcases hf' fill hm with hm | hm
    · exact hf fill hm
    · simpa [hw] using hm

theorem OneWriter.erased (hs : OneWriter s) (h : Erased s p) : p.writes = [] := by
  obtain ⟨i, op, hi, hp⟩ := h
  rw [hp]
  exact eraseIdx_eq_nil hi (Nat.le_trans hs.inFlight (Bool.toNat_le _))

theorem OneWriter.congr (hs : OneWriter s) (h : t.output = s.output) : OneWriter t := by
  simp only [output, Output.mk.injEq] at h
  obtain ⟨hw, _, _, _, _, _, hws, _, hf⟩ := h
  exact ⟨hws ▸ hw ▸ hs.inFlight, hf ▸ hs.fills⟩

theorem OneWriter.handled (hs : OneWriter s) (h : Handled env now s e t) : OneWriter t := by
  obtain ⟨p, u, hp, ht, rfl | ⟨hw, hfree⟩⟩ := h.passes
  · refine .congr ⟨?_, hp.fills ▸ hs.fills⟩ ht
    rcases hp.writes with hws | hws
    · rw [hws, hp.writing]
      exact hs.inFlight
    · rw [hs.erased hws]
      exact Nat.zero_le _
  · refine (hw.oneWriter ?_ (hp.fills ▸ hs.fills)).congr ht
    rcases hfree with ⟨hn, hws⟩ | hws
    · rw [hws]
      exact List.eq_nil_of_length_eq_zero (Nat.le_zero.mp (by simpa [hn] using hs.inFlight))
    · exact hs.erased hws

theorem OneWriter.init (env : SessionEnv) : OneWriter (init env) := by
  constructor <;> simp [Session.init]

/-- However often it is started and however its operations end, a session has
at most one write in flight, `writing_` is set while it has one, and it fills no
payload meanwhile. -/
theorem one_write {es : List (Nat × Event)} (r : Runs.Run (step env) (fun _ _ => True) (init env) es t) :
    t.writes.length ≤ 1 ∧ (t.writes ≠ [] → t.writing) ∧ ∀ fill ∈ t.fills, fill.inFlight = 0 := by
  have ht : OneWriter t := r.invariant (fun _ _ _ h _ hs => h.handled (handled_of_step hs)) (.init env)
  refine ⟨Nat.le_trans ht.inFlight (Bool.toNat_le _), fun hn => ?_, ht.fills⟩
  by_contra hw
  exact hn (List.eq_nil_of_length_eq_zero (Nat.le_zero.mp (by simpa [hw] using ht.inFlight)))

/-- Started again while the write of the first connection is in flight. -/
theorem one_write_restarted :
    ∃ t, Runs.Run (step (onePayload .TCP)) (fun _ _ => True) (init (onePayload .TCP))
        [(0, .call .start true true), (1, .done (.connected 0 true)), (2, .call (.send 2) true true),
          (3, .call .stop true true), (4, .call .start true true), (5, .done (.connected 0 true))] t ∧
      t.writes ≠ [] ∧ t.writes.length ≤ 1 ∧ t.writing := by
  have r : Runs.Run (step (onePayload .TCP)) (fun _ _ => True) (init (onePayload .TCP))
      [(0, .call .start true true), (1, .done (.connected 0 true)), (2, .call (.send 2) true true),
        (3, .call .stop true true), (4, .call .start true true), (5, .done (.connected 0 true))] _ :=
    Runs.run_of_isSome (by decide)
  obtain ⟨hlen, hw, -⟩ := one_write r
  exact ⟨_, r, by decide, hlen, hw (by decide)⟩

/-! ## In order -/

def Begun.index? : Begun → Option Nat
  | .payload i => some i
  | .response _ => none

def Begun.packet? : Begun → Option (List UInt8)
  | .payload _ => none
  | .response packet => some packet

def walk (s : Session) : List Nat := s.begun.filterMap Begun.index?

def nextOf (s : Session) : Nat := (s.walk.getLast?.map (· + 1)).getD 0

/-- The responses begun, and behind them those that wait. -/
def answered (s : Session) : List (List UInt8) := s.begun.filterMap Begun.packet? ++ s.responses

def posted (s : Session) : List (List UInt8) := (s.posts.map (·.response)).filter (· ≠ [])

def produced (s : Session) : List (List UInt8) := (s.messages.map (·.response)).filter (· ≠ [])

/-- The next payload in the list, or the first one again once the list is
through: with REPEAT, and not when draining. -/
def Follows (env : SessionEnv) (s : Session) (i : Nat) : Prop :=
  i < env.payloads.length ∧
    (i = s.nextOf ∨ i = 0 ∧ env.payloads.length ≤ s.nextOf ∧ env.config.loopPayloads ∧ ¬ s.draining)

inductive Begins (env : SessionEnv) (s t : Session) : Prop
  | nothing (h : t.begun = s.begun)
  | response {packet : List UInt8} (h : t.begun = s.begun ++ [.response packet])
  | payload {i : Nat} (h : t.begun = s.begun ++ [.payload i]) (hi : Follows env s i) (hr : t.responses = [])

theorem Writes.index (h : Writes env now p t) (hp : p.nextPayloadIndex = p.nextOf) :
    t.nextPayloadIndex = t.nextOf := by
  cases h with
  | response => simpa [beginWrite, nextOf, walk, Begun.index?] using hp
  | payload => simp [beginWrite, nextOf, walk, Begun.index?]
  | stop =>
    rw [stopWriting_eq]
    exact hp

theorem nextOf_congr (h : t.begun = s.begun) : t.nextOf = s.nextOf := by
  rw [nextOf, nextOf, walk, walk, h]

theorem Handled.index (h : Handled env now s e t) (hs : s.nextPayloadIndex = s.nextOf) :
    t.nextPayloadIndex = t.nextOf := by
  obtain ⟨p, u, hp, ht, hu⟩ := h.passes
  simp only [output, Output.mk.injEq] at ht
  obtain ⟨_, _, _, _, hti, _, _, htb, _⟩ := ht
  have hpi : p.nextPayloadIndex = p.nextOf := by rw [hp.index, nextOf_congr hp.begun, hs]
  rw [hti, nextOf_congr htb]
  rcases hu with rfl | ⟨hw, _⟩
  · exact hpi
  · exact hw.index hpi

theorem Handled.begins (h : Handled env now s e t) (hs : s.nextPayloadIndex = s.nextOf) : Begins env s t := by
  obtain ⟨p, u, hp, ht, hu⟩ := h.passes
  simp only [output, Output.mk.injEq] at ht
  obtain ⟨_, _, _, htr, _, _, _, htb, _⟩ := ht
  rcases hu with rfl | ⟨hw, _⟩
  · exact .nothing (htb.trans hp.begun)
  · cases hw with
    | @response packet =>
      have hb : t.begun = s.begun ++ [.response packet] := by
        rw [htb, ← hp.begun]
        rfl
      exact .response hb
    | @payload i f hr _ hi hn _ =>
      have hb : t.begun = s.begun ++ [.payload i] := by
        rw [htb, ← hp.begun]
        rfl
      refine .payload hb ⟨hi, ?_⟩ (htr.trans hr)
      rw [hp.index, hs] at hn
      exact hn.imp_right fun ⟨h0, hl, hloop, hd⟩ => ⟨h0, hl, hloop, fun hsd => hd (hp.draining.mpr (.inl hsd))⟩
    | stop => exact .nothing (htb.trans (by rw [stopWriting_eq]; exact hp.begun))

/-! ## Nothing lost -/

theorem Writes.counted (h : Writes env now p t) (hf : ¬ p.flood) :
    t.walk.length + t.writesQueued = p.walk.length + p.writesQueued ∧ ¬ t.flood := by
  cases h with
  | response => exact ⟨by simp [beginWrite, walk, Begun.index?], hf⟩
  | payload _ hq =>
    have hq := hq.resolve_left hf
    refine ⟨?_, hf⟩
    simp [beginWrite, walk, Begun.index?, hf]
    omega
  | stop =>
    rw [stopWriting_eq]
    exact ⟨rfl, hf⟩

theorem Handled.counted (h : Handled env now s e t) (hs : ¬ s.flood) (he : e.call? ≠ some .flood) :
    t.walk.length + t.writesQueued = s.walk.length + s.writesQueued + Session.sent e ∧ ¬ t.flood := by
  obtain ⟨p, u, hp, ht, hu⟩ := h.passes
  simp only [output, Output.mk.injEq] at ht
  obtain ⟨_, htf, _, _, _, htq, _, htb, _⟩ := ht
  have hpf : ¬ p.flood := fun hf => (hp.flood hf).elim hs he
  have hpw : p.walk.length + p.writesQueued = s.walk.length + s.writesQueued + Session.sent e := by
    rw [hp.queued, walk, hp.begun, walk]
    omega
  rw [htq, htf, walk, htb]
  rcases hu with rfl | ⟨hw, _⟩
  · exact ⟨hpw, hpf⟩
  · obtain ⟨hc, hf⟩ := hw.counted hpf
    exact ⟨hc.trans hpw, hf⟩

theorem Writes.answered (h : Writes env now p t) : t.answered = p.answered := by
  cases h with
  | response hr => simp [Session.answered, beginWrite, Begun.packet?, hr]
  | payload hr => simp [Session.answered, beginWrite, Begun.packet?, hr]
  | stop =>
    rw [stopWriting_eq]
    rfl

theorem Handled.answered (h : Handled env now s e t) : t.answered = s.answered ++ s.answer e := by
  obtain ⟨p, u, hp, ht, hu⟩ := h.passes
  simp only [output, Output.mk.injEq] at ht
  obtain ⟨_, _, _, htr, _, _, _, htb, _⟩ := ht
  have hpa : p.answered = s.answered ++ s.answer e := by
    simp only [Session.answered, hp.begun, hp.responses, List.append_assoc]
  have htu : t.answered = u.answered := by rw [Session.answered, Session.answered, htb, htr]
  rcases hu with rfl | ⟨hw, _⟩
  · exact htu.trans hpa
  · exact htu.trans (hw.answered.trans hpa)

theorem eq_singleton_of_getElem? {α : Type*} {l : List α} {i : Nat} {a : α} (h : l[i]? = some a)
    (hl : l.length ≤ 1) : l = [a] := by
  match l, i, h with
  | [b], 0, h => simpa using h

theorem Handled.conserved (h : Handled env now s e t) (h1 : OneReader s)
    (hs : s.answered ++ s.posted = s.produced) : t.answered ++ t.posted = t.produced := by
  rw [h.answered]
  cases h.receives with
  | kept ha _ hp hm | connected _ ha _ hp hm | failed _ ha _ hp hm | reread _ ha _ hp hm =>
    rw [ha, List.append_nil, Session.posted, Session.produced, hp, hm]
    exact hs
  | handed _ ha _ hp hm =>
    simp only [Session.posted, Session.produced] at hs ⊢
    rw [ha, hp, hm, List.append_nil, List.map_append, List.filter_append, ← List.append_assoc, hs]
    simp only [List.map_append, List.filter_append, List.map_cons, List.map_nil]
  | responded hi ha _ hp hm =>
    simp only [Session.posted, Session.produced] at hs ⊢
    -- with one post there is nothing before it and nothing behind
    have hone : s.posts.length ≤ 1 := by
      unfold OneReader at h1
      omega
    rw [hm, ← hs, ha, hp, eraseIdx_eq_nil hi hone, eq_singleton_of_getElem? hi hone]
    simp

theorem sent_eq (e : Event) : sent e = (e.call?.toList.map Call.sent).sum := by
  cases e <;> simp [sent, Event.call?]

theorem index_of_run {G : Session → Nat × Event → Prop} {es : List (Nat × Event)}
    (r : Runs.Run (step env) G (init env) es s) : s.nextPayloadIndex = s.nextOf :=
  r.invariant (fun _ _ _ hs _ he => (handled_of_step he).index hs) rfl

theorem counted_of_run {G : Session → Nat × Event → Prop} {es : List (Nat × Event)}
    (r : Runs.Run (step env) G (init env) es s) (hf : .flood ∉ callsOf es) :
    s.walk.length + s.writesQueued = ((callsOf es).map Call.sent).sum ∧ ¬ s.flood := by
  induction r with
  | nil => exact ⟨rfl, by simp [Session.init]⟩
  | @snoc es t u e r hg he ih =>
    rw [callsOf_snoc, List.mem_append, not_or] at hf
    obtain ⟨hc, hs⟩ := ih hf.1
    obtain ⟨hc', hs'⟩ := (handled_of_step he).counted hs fun h => hf.2 (by simp [h])
    refine ⟨?_, hs'⟩
    rw [callsOf_snoc, List.map_append, List.sum_append, hc', hc, sent_eq]

theorem conserved_of_run {es : List (Nat × Event)} (r : Runs.Run (step env) Once (init env) es s) :
    s.answered ++ s.posted = s.produced := by
  induction r with
  | nil => rfl
  | snoc r _ he ih => exact (handled_of_step he).conserved (oneReader_of_run r) ih

/-- What a session that was started at most once has written, and what it
writes next. -/
theorem written_in_order {es : List (Nat × Event)} (r : Runs.Run (step env) Once (init env) es s) :
    (∀ e t, Once s e → step env s e = some t → Begins env s t) ∧
      (.flood ∉ callsOf es → s.walk.length + s.writesQueued = ((callsOf es).map Call.sent).sum) ∧
      s.answered ++ s.posted = s.produced ∧
      (s.live → ¬ s.connecting → s.writes = [] → s.responses = []) := by
  refine ⟨fun e t _ he => (handled_of_step he).begins (index_of_run r), fun hf => (counted_of_run r hf).1,
    conserved_of_run r, fun hl hc hw => ?_⟩
  obtain ⟨_, ha⟩ := orderly_of_run r
  have hn : ¬ s.writing := fun hn => by simpa [hn, hw] using ha.inFlight hl
  exact (ha.idle hl hc hn).1

def answeredRun : List (Nat × Event) :=
  [(0, .call .start true true), (1, .done (.connected 0 true)), (2, .call (.send 2) true true),
    (3, .done (.read 0 (.data [0] ⟨0, true⟩ [7]))), (4, .done (.responded 0)), (5, .done (.wrote 0 (some 1)))]

theorem written_in_order_answered :
    ∃ s, Runs.Run (step readingEnv) Once (init readingEnv) answeredRun s ∧ s.begun = [.payload 0, .response [7]] ∧
      (∀ e t, Once s e → step readingEnv s e = some t → Begins readingEnv s t) ∧
      s.walk.length + s.writesQueued = 2 ∧ s.answered ++ s.posted = s.produced := by
  have r : Runs.Run (step readingEnv) Once (init readingEnv) answeredRun _ := Runs.run_of_isSome (by decide)
  obtain ⟨hb, hq, hr, -⟩ := written_in_order r
  exact ⟨_, r, by decide, hb, hq (by decide), hr⟩

end Loadshear.Session
