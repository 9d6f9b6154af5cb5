import Loadshear.SessionSound

/-!
# Draining

A session that was started at most once has one writer, and its flags agree
with what is in flight (`Orderly`, `Attended`). From that: which steps leave a
draining session with nothing in flight, and what a session that closes by
draining has written.
-/

namespace Loadshear.Session

variable {env : SessionEnv} {now : Nat} {s p t : Session} {e : Event}

structure Orderly (env : SessionEnv) (s : Session) : Prop where
  index_le : s.nextPayloadIndex ≤ env.payloads.length
  unstarted : s.gen = 0 → ¬ s.live ∧ ¬ s.connecting
  dialing : s.connects.length = s.connecting.toNat
  untouched : s.gen = 0 ∨ s.connecting →
    s.reads = [] ∧ s.posts = [] ∧ s.writes = [] ∧ ¬ s.writing ∧ s.responses = [] ∧ s.nextPayloadIndex = 0

structure Attended (env : SessionEnv) (s : Session) : Prop where
  inFlight : s.live → s.writes.length = s.writing.toNat
  idle : s.live → ¬ s.connecting → ¬ s.writing → s.responses = [] ∧ Exhausted env s

/-- Draining, with nothing in flight whose end would close the session. -/
def Stuck (s : Session) : Prop := s.live ∧ s.draining ∧ ¬ s.connecting ∧ s.writes = []

instance : Decidable (Stuck s) := inferInstanceAs (Decidable (_ ∧ _))

theorem Orderly.init (env : SessionEnv) : Orderly env (init env) := by
  constructor <;> simp [Session.init]

theorem Attended.of_closed (h : ¬ s.live) : Attended env s where
  inFlight hl := absurd hl h
  idle hl := absurd hl h

theorem Orderly.closed (hs : Orderly env s) :
    Orderly env s.closeSession ∧ Attended env s.closeSession ∧ ¬ Stuck s.closeSession := by
  rw [closeSession_eq]
  refine ⟨⟨hs.index_le, fun hg => ⟨by simp, (hs.unstarted hg).2⟩, hs.dialing, hs.untouched⟩, ?_, ?_⟩
  · exact .of_closed (by simp)
  · simp [Stuck]

theorem Orderly.started (hs : Orderly env s) (hl : s.live) : s.gen ≠ 0 :=
  fun hg => (hs.unstarted hg).1 hl

theorem Orderly.touched (hs : Orderly env s) (h : s.reads ≠ [] ∨ s.posts ≠ [] ∨ s.writes ≠ []) :
    s.gen ≠ 0 ∧ ¬ s.connecting := by
  by_contra hn
  obtain ⟨hr, hp, hw, -⟩ := hs.untouched (by tauto)
  tauto

theorem Orderly.dialed {i : Nat} {op : ConnectOp} (hs : Orderly env s) (hi : s.connects[i]? = some op) :
    s.connecting ∧ s.connects.length ≤ 1 := by
  have hl : i < s.connects.length := (List.getElem?_eq_some_iff.mp hi).1
  have hd := hs.dialing
  cases hc : s.connecting <;> simp_all

/-! ## Writing -/

structure Writer (env : SessionEnv) (s : Session) : Prop where
  index_le : s.nextPayloadIndex ≤ env.payloads.length
  started : s.gen ≠ 0
  connected : ¬ s.connecting
  dialed : s.connects = []
  free : s.live → s.writes = []

theorem Writer.writes (hp : Writer env p) (h : Writes env now p t) :
    Orderly env t ∧ Attended env t ∧ ¬ Stuck t := by
  obtain ⟨hi, hg, hc, hd, hf⟩ := hp
  cases h with
  | response hr =>
    refine ⟨⟨hi, ?_, ?_, ?_⟩, ⟨?_, ?_⟩, ?_⟩ <;> simp_all [beginWrite, Stuck]
  | payload hr hq hl hn =>
    refine ⟨⟨hl, ?_, ?_, ?_⟩, ⟨?_, ?_⟩, ?_⟩ <;> simp_all [beginWrite, Stuck]
  | stop hr he hl =>
    rw [stopWriting_eq]
    refine ⟨⟨hi, ?_, ?_, ?_⟩, ⟨?_, fun _ _ _ => ⟨hr, he⟩⟩, ?_⟩ <;> simp_all [Stuck]

theorem Orderly.writer (hp : Orderly env p) (ha : p.live → p.writes.length = p.writing.toNat) (hg : p.gen ≠ 0)
    (hc : ¬ p.connecting) (hw : ¬ p.writing) : Writer env p where
  index_le := hp.index_le
  started := hg
  connected := hc
  dialed := List.eq_nil_of_length_eq_zero (by simpa [hc] using hp.dialing)
  free hl := List.eq_nil_of_length_eq_zero (by simpa [hw] using ha hl)

theorem Writer.reading (hp : Writer env p) : Writer env (p.startReading env now) := by
  rw [startReading_eq]
  exact ⟨hp.index_le, hp.started, hp.connected, hp.dialed, hp.free⟩

theorem Orderly.starts (hp : Orderly env p) (ha : p.live → p.writes.length = p.writing.toNat) (hg : p.gen ≠ 0)
    (hc : ¬ p.connecting) (h : Starts env now p t) : Orderly env t ∧ Attended env t ∧ ¬ Stuck t := by
  rcases h with ⟨hw, rfl⟩ | ⟨hw, h⟩
  · refine ⟨hp, ⟨ha, fun _ _ hn => absurd hw hn⟩, fun hs => ?_⟩
    have hl := ha hs.1
    simp [hw, hs.2.2.2] at hl
  · exact (hp.writer ha hg hc hw).writes h

theorem Orderly.connects (hp : Orderly env p) (hg : p.gen ≠ 0) (hc : ¬ p.connecting) (hf : p.writes = [])
    (hw : ¬ p.writing) (hr : p.responses = []) (h : Connected env now p t) :
    Orderly env t ∧ Attended env t ∧ (Stuck t ↔ p.live ∧ p.draining ∧ ¬ p.flood ∧ p.writesQueued = 0) := by
  cases h with
  | quiet h =>
    obtain ⟨hfl, hq⟩ := h.resolve_left hw
    rw [startReading_eq]
    refine ⟨⟨hp.index_le, hp.unstarted, hp.dialing, by simp [hg, hc]⟩, ⟨by simp [hf, hw], ?_⟩, ?_⟩
    · intro _ _ _
      exact ⟨hr, by simp [Exhausted, hfl, hq]⟩
    · simp [Stuck, hfl, hq, hc, hf]
  | write _ hq h =>
    obtain ⟨ho, hi, hs⟩ := (hp.writer (by simp [hf, hw]) hg hc hw).reading.writes h
    refine ⟨ho, hi, fun h => absurd h hs, fun ⟨_, _, hf, hz⟩ => ?_⟩
    rcases hq with hq | hq
    · exact absurd hq hf
    · omega

/-! ## Steps -/

/-- The steps that leave a draining session with nothing in flight. -/
def Strands (env : SessionEnv) (s : Session) : Event → Prop
  | .call .drain _ _ => s.live ∧ ¬ s.connecting ∧ ¬ s.writing ∧ 0 < s.writesQueued
  | .call .start opened connected =>
    (env.transport = .UDP ∧ opened ∧ connected ∧ ¬ s.socketOpen) ∧ s.draining ∧ ¬ s.flood ∧ s.writesQueued = 0
  | .done (.connected _ ok) => ok ∧ s.live ∧ s.draining ∧ ¬ s.flood ∧ s.writesQueued = 0
  | _ => False

instance : DecidablePred (Strands env s) := by
  intro e
  unfold Strands
  split <;> infer_instance

theorem unstuck_of_not (h : Orderly env t ∧ Attended env t ∧ ¬ Stuck t) (he : ¬ Strands env s e) :
    Orderly env t ∧ Attended env t ∧ (¬ Stuck s → (Stuck t ↔ Strands env s e)) :=
  ⟨h.1, h.2.1, fun _ => iff_of_false h.2.2 he⟩

theorem Orderly.called {c : Call} {opened connected : Bool} (hs : Orderly env s) (ha : Attended env s)
    (h1 : c = .start → s.gen = 0) (h : Handled env now s (.call c opened connected) t) :
    Orderly env t ∧ Attended env t ∧ (¬ Stuck s → (Stuck t ↔ Strands env s (.call c opened connected))) := by
  cases h with
  | dialed ht =>
    have hg := h1 rfl
    have hu := hs.untouched (.inl hg)
    refine ⟨⟨hs.index_le, by simp, ?_, fun _ => hu⟩, ⟨by simp [hu], by simp⟩, ?_⟩
    · simp [hs.dialing, (hs.unstarted hg).2]
    · simp [Stuck, Strands, ht]
  | @refused _ _ b m ht hf =>
    have hu := hs.untouched (.inl (h1 rfl))
    have hp : Orderly env { s with live := true, gen := s.gen + 1, socketOpen := b, metrics := m } :=
      ⟨hs.index_le, by simp, hs.dialing, fun _ => hu⟩
    refine ⟨hp.closed.1, hp.closed.2.1, fun _ => ?_⟩
    simp only [hp.closed.2.2, Strands, false_iff]
    exact fun h => hf h.1.2
  | @opened m _ ht ho h =>
    have hg := h1 rfl
    have hu := hs.untouched (.inl hg)
    have ⟨_, _, hf, hw, hr, _⟩ := hu
    have hp : Orderly env { s with live := true, gen := s.gen + 1, socketOpen := true, metrics := m } :=
      ⟨hs.index_le, by simp, hs.dialing, fun _ => hu⟩
    obtain ⟨h1, h2, h3⟩ := hp.connects (by simp) (hs.unstarted hg).2 hf hw hr h
    exact ⟨h1, h2, fun _ => h3.trans (by simp [Strands, ht, ho])⟩
  | floodIgnored h => exact ⟨hs, ha, fun hn => by simp [Strands, hn]⟩
  | floodKept hf hd hr =>
    refine ⟨⟨hs.1, hs.2, hs.3, hs.4⟩, ⟨ha.1, fun hl hc => absurd (ready_iff.mpr ⟨hl, hc⟩) hr⟩, fun hn => ?_⟩
    simp only [Strands, iff_false]
    exact hn
  | flooded hf hd hr h =>
    obtain ⟨hl, hc⟩ := ready_iff.mp hr
    have hp : Orderly env { s with flood := true } := ⟨hs.1, hs.2, hs.3, hs.4⟩
    exact unstuck_of_not (hp.starts ha.1 (hs.started hl) hc h) (by simp [Strands])
  | @sendKept _ _ n hr =>
    refine ⟨⟨hs.1, hs.2, hs.3, hs.4⟩, ⟨ha.1, fun hl hc => absurd (ready_iff.mpr ⟨hl, hc⟩) hr⟩, fun hn => ?_⟩
    simp only [Strands, iff_false]
    exact hn
  | @sent _ _ n _ hr h =>
    obtain ⟨hl, hc⟩ := ready_iff.mp hr
    have hp : Orderly env { s with writesQueued := s.writesQueued + n } := ⟨hs.1, hs.2, hs.3, hs.4⟩
    exact unstuck_of_not (hp.starts ha.1 (hs.started hl) hc h) (by simp [Strands])
  | drainClosed hw hq hr =>
    have hp : Orderly env { s with draining := true } := ⟨hs.1, hs.2, hs.3, hs.4⟩
    exact unstuck_of_not hp.closed (by simp [Strands, hq])
  | drainKept h =>
    refine ⟨⟨hs.1, hs.2, hs.3, hs.4⟩, ⟨ha.1, ha.2⟩, fun _ => ⟨fun ⟨hl, _, hc, he⟩ => ?_, fun ⟨hl, hc, hw, hq⟩ => ?_⟩⟩
    · have hw : ¬ s.writing := by
        intro hw
        have := ha.inFlight hl
        simp [hw, show s.writes = [] from he] at this
      exact ⟨hl, hc, hw, Nat.pos_of_ne_zero fun hq => h ⟨hw, hq, (ha.idle hl hc hw).1⟩⟩
    · exact ⟨hl, rfl, hc, List.eq_nil_of_length_eq_zero (by simpa [hw] using ha.inFlight hl)⟩
  | stopped => exact unstuck_of_not hs.closed (by simp [Strands])

theorem ne_nil_of_getElem? {α : Type*} {l : List α} {i : Nat} {a : α} (h : l[i]? = some a) : l ≠ [] := by
  rintro rfl
  simp at h

theorem eraseIdx_eq_nil {α : Type*} {l : List α} {i : Nat} {a : α} (h : l[i]? = some a) (hl : l.length ≤ 1) :
    l.eraseIdx i = [] := by
  have hi : i < l.length := (List.getElem?_eq_some_iff.mp h).1
  exact List.eq_nil_of_length_eq_zero (by rw [List.length_eraseIdx_of_lt hi]; omega)

theorem Orderly.connectDone {i : Nat} {op : ConnectOp} (hs : Orderly env s) (hi : s.connects[i]? = some op)
    (m : List Metric) :
    Orderly env { s with connects := s.connects.eraseIdx i, connecting := false, metrics := m } ∧
      s.gen ≠ 0 ∧ s.writes = [] ∧ ¬ s.writing ∧ s.responses = [] := by
  obtain ⟨hc, hl⟩ := hs.dialed hi
  have hu := hs.untouched (.inr hc)
  have ⟨_, _, hf, hw, hr, _⟩ := hu
  have hg : s.gen ≠ 0 := fun hg => (hs.unstarted hg).2 hc
  exact ⟨⟨hs.index_le, fun h => absurd h hg, by simp [eraseIdx_eq_nil hi hl], fun _ => hu⟩, hg, hf, hw, hr⟩

theorem Orderly.wrote {i : Nat} {op : WriteOp} (hs : Orderly env s) (ha : Attended env s)
    (hi : s.writes[i]? = some op) (m : List Metric) (w : UInt32) :
    Writer env { s with writes := s.writes.eraseIdx i, metrics := m, writeSampleCounter := w } := by
  obtain ⟨hg, hc⟩ := hs.touched (.inr (.inr (ne_nil_of_getElem? hi)))
  have hd : s.connects = [] := List.eq_nil_of_length_eq_zero (by simpa [hc] using hs.dialing)
  exact ⟨hs.index_le, hg, hc, hd, fun hl => eraseIdx_eq_nil hi (ha.inFlight hl ▸ Bool.toNat_le _)⟩

theorem Orderly.responded {i : Nat} {op : PostOp} (hs : Orderly env s) (hi : s.posts[i]? = some op) :
    Orderly env { s with posts := s.posts.eraseIdx i, responses := s.responses ++ [op.response] } ∧
      s.gen ≠ 0 ∧ ¬ s.connecting := by
  obtain ⟨hg, hc⟩ := hs.touched (.inr (.inl (ne_nil_of_getElem? hi)))
  exact ⟨⟨hs.index_le, hs.unstarted, hs.dialing, by simp [hg, hc]⟩, hg, hc⟩

theorem Orderly.completed {c : Completion} (hs : Orderly env s) (ha : Attended env s)
    (h : Handled env now s (.done c) t) :
    Orderly env t ∧ Attended env t ∧ (¬ Stuck s → (Stuck t ↔ Strands env s (.done c))) := by
  cases h with
  | @connectFailed i op m hi =>
    exact unstuck_of_not (hs.connectDone hi m).1.closed (by simp [Strands])
  | @connected i op m _ hi h =>
    obtain ⟨hp, hg, hf, hw, hr⟩ := hs.connectDone hi m
    obtain ⟨h1, h2, h3⟩ := hp.connects hg (by simp) hf hw hr h
    exact ⟨h1, h2, fun _ => h3.trans (by simp [Strands])⟩
  | @writeFailed i op hi =>
    obtain ⟨hg, hc⟩ := hs.touched (.inr (.inr (ne_nil_of_getElem? hi)))
    have hp : Orderly env { s with writes := s.writes.eraseIdx i } :=
      ⟨hs.index_le, hs.unstarted, hs.dialing, by simp [hg, hc]⟩
    exact unstuck_of_not hp.closed (by simp [Strands])
  | @wrote i n op m w _ hi h =>
    exact unstuck_of_not ((hs.wrote ha hi m w).writes h) (by simp [Strands])
  | @readFailed i n _ op m header hi hf =>
    obtain ⟨hg, hc⟩ := hs.touched (.inl (ne_nil_of_getElem? hi))
    have hp : Orderly env { s with
        reads := s.reads.eraseIdx i, metrics := m, incomingHeader := header, nextPayloadSize := n } :=
      ⟨hs.index_le, hs.unstarted, hs.dialing, by simp [hg, hc]⟩
    exact unstuck_of_not hp.closed (by simp [Strands])
  | reread hi | handed hi =>
    obtain ⟨hg, hc⟩ := hs.touched (.inl (ne_nil_of_getElem? hi))
    refine ⟨⟨hs.index_le, hs.unstarted, hs.dialing, by simp [hg, hc]⟩, ⟨ha.1, ha.2⟩, fun hn => ?_⟩
    simp only [Strands, iff_false]
    exact hn
  | respondedEmpty hi hr =>
    obtain ⟨hg, hc⟩ := hs.touched (.inr (.inl (ne_nil_of_getElem? hi)))
    refine ⟨⟨hs.index_le, hs.unstarted, hs.dialing, by simp [doRead, hg, hc]⟩, ⟨ha.1, ha.2⟩, fun hn => ?_⟩
    simp only [Strands, iff_false]
    exact hn
  | @responded i op u hi hr h =>
    obtain ⟨hp, hg, hc⟩ := hs.responded hi
    obtain ⟨ho, hi, hs'⟩ := hp.starts ha.1 hg hc h
    have hf := h.frame
    refine ⟨⟨ho.index_le, ho.unstarted, ho.dialing, ?_⟩, ⟨hi.1, hi.2⟩, fun _ => ?_⟩
    · simp [doRead, hf.gen, hf.connecting, hg, hc]
    · simp only [Strands, iff_false]
      exact hs'

def Once (s : Session) (e : Nat × Event) : Prop := e.2.isStart → s.gen = 0

instance : ∀ e, Decidable (Once s e) := fun _ => inferInstanceAs (Decidable (_ → _))

theorem Orderly.handled (hs : Orderly env s) (ha : Attended env s) (h1 : Once s (now, e))
    (h : Handled env now s e t) : Orderly env t ∧ Attended env t ∧ (¬ Stuck s → (Stuck t ↔ Strands env s e)) := by
  cases e with
  | call c opened connected => exact hs.called ha (fun hc => h1 (by simp [hc, Event.isStart])) h
  | done c => exact hs.completed ha h

/-- A draining session gets stuck by the steps of `Strands` and by no others. -/
theorem never_stuck_iff {es : List (Nat × Event)} (r : Runs.Run (step env) Once (init env) es t) :
    Runs.Always (step env) Once (¬ Stuck ·) (init env) es ↔
      Runs.Run (step env) (fun s e => Once s e ∧ ¬ Strands env s e.2) (init env) es t := by
  refine r.always_iff (I := fun s => Orderly env s ∧ Attended env s) ?_ ⟨.init env, .of_closed ?_⟩ ?_
  · intro s e u hs hn h1 he
    obtain ⟨ho, ha, hu⟩ := hs.1.handled hs.2 h1 (handled_of_step he)
    exact ⟨⟨ho, ha⟩, not_congr (hu hn)⟩
  · simp [Session.init]
  · simp [Stuck, Session.init]

def floodedRun : List (Nat × Event) :=
  [(0, .call .start true true), (1, .done (.connected 0 true)), (2, .call .flood true true),
    (3, .call (.send 1) true true), (4, .done (.wrote 0 (some 1))), (5, .call .drain true true)]

theorem stuck_after_flood :
    ∃ t, Runs.Run (step (onePayload .TCP)) Once (init (onePayload .TCP)) floodedRun t ∧ Stuck t :=
  ⟨_, Runs.run_of_isSome (by decide), by decide⟩

theorem never_stuck_while_writing :
    Runs.Always (step (onePayload .TCP)) Once (¬ Stuck ·) (init (onePayload .TCP))
      [(0, .call .start true true), (1, .done (.connected 0 true)), (2, .call (.send 2) true true),
        (3, .call .drain true true), (4, .done (.wrote 0 (some 1)))] :=
  (never_stuck_iff (Runs.run_of_isSome (by decide))).mpr (Runs.run_of_isSome (by decide))

/-! ## What draining leaves -/

/-- Nothing that was asked for is left: no response, and no payload but for
those behind the end of the list. -/
def Honoured (env : SessionEnv) (s : Session) : Prop :=
  s.responses = [] ∧ s.writes = [] ∧
    (s.flood ∧ s.nextPayloadIndex = env.payloads.length ∨
      ¬ s.flood ∧ (s.writesQueued = 0 ∨ s.nextPayloadIndex = env.payloads.length))

instance : Decidable (Honoured env s) := inferInstanceAs (Decidable (_ ∧ _))

theorem honoured_of_exhausted (hr : s.responses = []) (hw : s.writes = [])
    (hi : s.nextPayloadIndex ≤ env.payloads.length) (he : Exhausted env s) : Honoured env s := by
  refine ⟨hr, hw, ?_⟩
  by_cases hf : s.flood
  · exact .inl ⟨hf, Nat.le_antisymm hi (he (.inl hf))⟩
  · refine .inr ⟨hf, (Nat.eq_zero_or_pos s.writesQueued).imp_right fun hq => ?_⟩
    exact Nat.le_antisymm hi (he (.inr hq))

theorem Writer.honoured (hp : Writer env p) (h : Writes env now p t) (hl : p.live) (hc : ¬ t.live) :
    Honoured env t := by
  cases h with
  | response hr => exact absurd hl hc
  | payload hr hq hi hn => exact absurd hl hc
  | stop hr he _ =>
    rw [stopWriting_eq]
    exact honoured_of_exhausted hr (hp.free hl) hp.index_le he

theorem Orderly.startsHonoured (hp : Orderly env p) (ha : p.live → p.writes.length = p.writing.toNat)
    (hg : p.gen ≠ 0) (hc : ¬ p.connecting) (h : Starts env now p t) (hl : p.live) (hn : ¬ t.live) :
    Honoured env t := by
  rcases h with ⟨_, rfl⟩ | ⟨hw, h⟩
  · exact absurd hl hn
  · exact (hp.writer ha hg hc hw).honoured h hl hn

theorem Orderly.connectsHonoured (hp : Orderly env p) (hg : p.gen ≠ 0) (hc : ¬ p.connecting) (hf : p.writes = [])
    (hw : ¬ p.writing) (h : Connected env now p t) (hl : p.live) (hn : ¬ t.live) : Honoured env t := by
  cases h with
  | quiet h =>
    rw [startReading_eq] at hn
    exact absurd hl hn
  | write _ hq h =>
    exact (hp.writer (by simp [hf, hw]) hg hc hw).reading.honoured h (by rw [startReading_eq]; exact hl) hn

def Breaks (env : SessionEnv) (s : Session) : Event → Prop
  | .call .stop _ _ => True
  | .done (.connected _ ok) => ok = false
  | .done (.wrote _ sent) => sent = none
  | .done (.read i outcome) =>
    match s.reads[i]? with
    | some op => Overruns env op outcome
    | none => False
  | _ => False

instance : DecidablePred (Breaks env s) := by
  intro e
  unfold Breaks
  split <;> try infer_instance
  split <;> infer_instance

/-- `drain` asks for what is queued, and a flood that waits for the connection
is not. -/
def Forgets (env : SessionEnv) (s : Session) : Event → Prop
  | .call .drain _ _ => s.live ∧ s.connecting ∧ s.flood ∧ s.writesQueued = 0 ∧ env.payloads ≠ []
  | _ => False

theorem Orderly.drained {opened connected : Bool} (hs : Orderly env s) (ha : Attended env s)
    (h : Handled env now s (.call .drain opened connected) t) :
    (s.live → ¬ t.live → Honoured env t) ↔ ¬ Forgets env s (.call .drain opened connected) := by
  cases h with
  | drainClosed hw hq hr =>
    rw [closeSession_eq]
    constructor
    · intro h ⟨hl, hc, hf, _, hp⟩
      obtain ⟨_, _, _, _, _, hi⟩ := hs.untouched (.inr hc)
      obtain ⟨_, _, ⟨_, he⟩ | ⟨hf', _⟩⟩ := h hl (by simp)
      · exact hp (List.eq_nil_of_length_eq_zero (he.symm.trans hi))
      · exact hf' hf
    · intro hn hl _
      have hw' : s.writes = [] := List.eq_nil_of_length_eq_zero (by simpa [hw] using ha.inFlight hl)
      apply honoured_of_exhausted hr hw' hs.index_le
      intro hfq
      by_cases hc : s.connecting
      · have hf : s.flood := hfq.resolve_right (by simp [hq])
        have hp : env.payloads = [] := by
          by_contra hp
          exact hn ⟨hl, hc, hf, hq, hp⟩
        simp [hp]
      · exact (ha.idle hl hc hw).2 hfq
  | drainKept h =>
    apply iff_of_true (fun hl hc => absurd hl hc)
    intro ⟨_, hc, _, hq, _⟩
    obtain ⟨_, _, _, hw, hr, _⟩ := hs.untouched (.inr hc)
    exact h ⟨hw, hq, hr⟩

theorem Orderly.closes (hs : Orderly env s) (ha : Attended env s) (h1 : Once s (now, e)) (hb : ¬ Breaks env s e)
    (h : Handled env now s e t) : (s.live → ¬ t.live → Honoured env t) ↔ ¬ Forgets env s e := by
  by_cases hd : ∃ opened connected, e = .call .drain opened connected
  · obtain ⟨_, _, rfl⟩ := hd
    exact hs.drained ha h
  · refine iff_of_true (fun hl hn => ?_) fun hf => ?_
    · cases h with
      | dialed => simp at hn
      | refused => exact absurd (h1 rfl) (hs.started hl)
      | opened => exact absurd (h1 rfl) (hs.started hl)
      | floodIgnored => exact absurd hl hn
      | floodKept => exact absurd hl hn
      | flooded hf hd hr h =>
        have hp : Orderly env { s with flood := true } := ⟨hs.1, hs.2, hs.3, hs.4⟩
        exact hp.startsHonoured ha.1 (hs.started hl) (ready_iff.mp hr).2 h hl hn
      | sendKept => exact absurd hl hn
      | @sent _ _ n _ hr h =>
        have hp : Orderly env { s with writesQueued := s.writesQueued + n } := ⟨hs.1, hs.2, hs.3, hs.4⟩
        exact hp.startsHonoured ha.1 (hs.started hl) (ready_iff.mp hr).2 h hl hn
      | drainClosed => exact absurd ⟨_, _, rfl⟩ hd
      | drainKept => exact absurd ⟨_, _, rfl⟩ hd
      | stopped => exact absurd trivial hb
      | connectFailed => exact absurd rfl hb
      | @connected i op m _ hi h =>
        obtain ⟨hp, hg, hf, hw, hr⟩ := hs.connectDone hi m
        exact hp.connectsHonoured hg (by simp) hf hw h hl hn
      | writeFailed => exact absurd rfl hb
      | @wrote i n op m w _ hi h => exact (hs.wrote ha hi m w).honoured h hl hn
      | readFailed hi hf => exact absurd (by simpa [Breaks, hi] using hf) hb
      | reread => exact absurd hl hn
      | handed => exact absurd hl hn
      | respondedEmpty => exact absurd hl hn
      | @responded i op u hi hr h =>
        obtain ⟨hp, hg, hc⟩ := hs.responded hi
        have hh : Honoured env u := hp.startsHonoured ha.1 hg hc h hl hn
        exact hh
    · unfold Forgets at hf
      split at hf
      · exact hd ⟨_, _, rfl⟩
      · exact hf

theorem orderly_of_run {es : List (Nat × Event)} (r : Runs.Run (step env) Once (init env) es s) :
    Orderly env s ∧ Attended env s := by
  refine r.invariant (I := fun s => Orderly env s ∧ Attended env s) (fun s e u hs h1 he => ?_) ⟨.init env, .of_closed ?_⟩
  · obtain ⟨ho, ha, _⟩ := hs.1.handled hs.2 h1 (handled_of_step he)
    exact ⟨ho, ha⟩
  · simp [Session.init]

/-- A session that closes by itself has written what was asked of it, but for
a flood that a `drain` overtook. -/
theorem closed_honoured_iff {es : List (Nat × Event)} {e : Nat × Event}
    (r : Runs.Run (step env) Once (init env) es s) (h1 : Once s e) (hb : ¬ Breaks env s e.2)
    (h : step env s e = some t) : (s.live → ¬ t.live → Honoured env t) ↔ ¬ Forgets env s e.2 := by
  obtain ⟨ho, ha⟩ := orderly_of_run r
  exact ho.closes ha h1 hb (handled_of_step h)

def connectingRun : List (Nat × Event) := [(0, .call .start true true), (1, .call .flood true true)]

/-- The drain closes the session before the flood has written anything. -/
theorem flood_forgotten :
    ∃ s t, Runs.Run (step (onePayload .TCP)) (fun s e => Once s e ∧ ¬ Breaks (onePayload .TCP) s e.2)
        (init (onePayload .TCP)) connectingRun s ∧
      step (onePayload .TCP) s (2, .call .drain true true) = some t ∧ s.live ∧ ¬ t.live ∧
      t.begun = [] ∧ ¬ Honoured (onePayload .TCP) t :=
  ⟨_, _, Runs.run_of_isSome (by decide), rfl, by decide⟩

def floodAndDrainRun : List (Nat × Event) :=
  [(0, .call .start true true), (1, .call .flood true true), (2, .done (.connected 0 true)),
    (3, .call .drain true true)]

theorem closed_honoured_connected :
    ∃ s t, Runs.Run (step (onePayload .TCP)) Once (init (onePayload .TCP)) floodAndDrainRun s ∧
      step (onePayload .TCP) s (4, .done (.wrote 0 (some 1))) = some t ∧ ¬ t.live ∧ Honoured (onePayload .TCP) t := by
  have r : Runs.Run (step (onePayload .TCP)) Once (init (onePayload .TCP)) floodAndDrainRun _ :=
    Runs.run_of_isSome (by decide)
  refine ⟨_, _, r, rfl, by decide, ?_⟩
  exact (closed_honoured_iff (e := (4, .done (.wrote 0 (some 1)))) r (by decide) (by decide) rfl).mpr
    (by simp [Forgets]) (by decide) (by decide)

end Loadshear.Session
