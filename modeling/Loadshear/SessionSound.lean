import Loadshear.Session
import Loadshear.Runs

/-!
# What a handler does

Each function of a session is told by its cases, once. The invariants are
proved from these and do not unfold the functions again.
-/

namespace Loadshear.Session

variable {env : SessionEnv} {now : Nat} {s t : Session}

theorem closeSession_eq (s : Session) :
    s.closeSession = { s with
      socketOpen := s.socketOpen && !s.live
      live := false
      disconnects := s.disconnects + s.live.toNat } := by
  unfold closeSession
  obtain ⟨live⟩ := s
  cases live <;> simp

theorem closeSession_dead (s : Session) : s.closeSession.live = false := by
  rw [closeSession_eq]

theorem stopWriting_eq (s : Session) :
    s.stopWriting = { s with
      writing := false
      socketOpen := s.socketOpen && !(s.live && s.draining)
      live := s.live && !s.draining
      disconnects := s.disconnects + (s.live && s.draining).toNat } := by
  unfold stopWriting
  cases s.draining
  · simp
  · simp [closeSession_eq]

theorem ready_iff : s.ready ↔ s.live ∧ ¬ s.connecting := by
  simp [ready]

/-- The payload list has been walked to its end, as far as anyone asked. -/
def Exhausted (env : SessionEnv) (s : Session) : Prop :=
  s.flood ∨ 0 < s.writesQueued → env.payloads.length ≤ s.nextPayloadIndex

/-! ## `do_write` -/

inductive Writes (env : SessionEnv) (now : Nat) (s : Session) : Session → Prop
  | response {packet : List UInt8} {rest : List (List UInt8)} (hr : s.responses = packet :: rest) :
    Writes env now s ({ s with responses := rest }.beginWrite env now (.response packet))
  | payload {i : Nat} {f : List FillCall} (hr : s.responses = []) (hq : s.flood ∨ 0 < s.writesQueued)
      (hi : i < env.payloads.length) (hn : i = s.nextPayloadIndex ∨
        i = 0 ∧ env.payloads.length ≤ s.nextPayloadIndex ∧ env.config.loopPayloads ∧ ¬ s.draining)
      (hf : ∀ fill ∈ f, fill ∈ s.fills ∨ fill.inFlight = s.writes.length) :
    Writes env now s ({ s with
      writesQueued := if s.flood then s.writesQueued else s.writesQueued - 1
      nextPayloadIndex := i + 1
      fills := f }.beginWrite env now (.payload i))
  | stop {f : List FillCall} (hr : s.responses = []) (he : Exhausted env s)
      (hl : s.flood ∨ 0 < s.writesQueued → env.config.loopPayloads → s.draining)
      (hf : ∀ fill ∈ f, fill ∈ s.fills ∨ fill.inFlight = s.writes.length) :
    Writes env now s { s with fills := f }.stopWriting

theorem fillPayload_fills (s : Session) :
    ∀ fill ∈ s.fillPayload.fills, fill ∈ s.fills ∨ fill.inFlight = s.writes.length := by
  intro fill hf
  rcases List.mem_append.mp hf with hf | hf
  · exact .inl hf
  · exact .inr (List.mem_singleton.mp hf ▸ rfl)

theorem Writes.again (hr : s.responses = []) (hq : s.flood ∨ 0 < s.writesQueued)
    (hi : env.payloads.length ≤ s.nextPayloadIndex) (hl : env.config.loopPayloads ∧ ¬ s.draining)
    (h : Writes env now { s.fillPayload with nextPayloadIndex := 0 } t) : Writes env now s t := by
  have hfills {f : List FillCall} (hf : ∀ fill ∈ f, fill ∈ s.fillPayload.fills ∨ fill.inFlight = s.writes.length) :
      ∀ fill ∈ f, fill ∈ s.fills ∨ fill.inFlight = s.writes.length := fun fill hm =>
    (hf fill hm).elim (fillPayload_fills s fill) .inr
  cases h with
  | response hr' => exact absurd (hr.symm.trans hr') (by simp)
  | @payload i f _ _ hi' hn hf =>
    obtain rfl : i = 0 := hn.elim id And.left
    exact .payload hr hq hi' (.inr ⟨rfl, hi, hl⟩) (hfills hf)
  | stop _ _ hd _ => exact absurd (hd hq hl.1) hl.2

theorem writes_of_doWrite : ∀ {fuel : Nat} {s : Session}, s.doWrite env now fuel = some t → Writes env now s t
  | 0, s, h => by cases h
  | fuel + 1, s, h => by
    unfold doWrite at h
    split at h
    · rename_i packet rest hr
      obtain rfl := Option.some.inj h
      exact .response hr
    · rename_i hr
      split at h
      · rename_i hq
        simp only at h
        split at h
        · rename_i hi
          obtain rfl := Option.some.inj h
          exact .payload hr hq hi (.inl rfl) (fillPayload_fills s)
        · rename_i hi
          split at h
          · rename_i hl
            exact .again hr hq (Nat.not_lt.mp hi) hl (writes_of_doWrite h)
          · rename_i hl
            obtain rfl := Option.some.inj h
            refine .stop hr (fun _ => Nat.not_lt.mp hi) (fun _ hlo => ?_) (fillPayload_fills s)
            by_contra hd
            exact hl ⟨hlo, hd⟩
      · rename_i hq
        obtain rfl := Option.some.inj h
        exact .stop hr (fun hf => absurd hf hq) (fun hf => absurd hf hq) fun _ h => .inl h

theorem writes_of_write (h : s.write env now = some t) : Writes env now s t := writes_of_doWrite h

theorem doWrite_endless (hr : s.responses = []) (hq : s.flood ∨ 0 < s.writesQueued) (hp : env.payloads = [])
    (hl : env.config.loopPayloads ∧ ¬ s.draining) : ∀ fuel, s.doWrite env now fuel = none := by
  intro fuel
  induction fuel generalizing s with
  | zero => rfl
  | succ fuel ih =>
    rw [doWrite]
    split
    · simp_all
    · have hl' : env.config.loopPayloads ∧ ¬ s.fillPayload.draining := hl
      simp only [if_pos hq, hp, List.length_nil, Nat.not_lt_zero, if_false, if_pos hl']
      exact ih hr hq hl

/-- A call nests once, or for ever. -/
theorem doWrite_fuel (fuel : Nat) (s : Session) : s.doWrite env now (fuel + 2) = s.write env now := by
  by_cases hr : s.responses = []
  · by_cases hq : s.flood ∨ 0 < s.writesQueued
    · by_cases hi : s.nextPayloadIndex < env.payloads.length
      · simp [write, doWrite, fillPayload, hr, hq, hi]
      · by_cases hl : env.config.loopPayloads ∧ ¬ s.draining
        · by_cases hp : env.payloads = []
          · rw [doWrite_endless hr hq hp hl, write, doWrite_endless hr hq hp hl]
          · have hz := List.length_pos_iff.mpr hp
            simp [write, doWrite, fillPayload, hr, hq, hi, hl, hz]
        · simp only [write, doWrite, fillPayload, hr, hq, hi, hl, if_true, if_false]
    · simp [write, doWrite, hr, hq]
  · obtain ⟨packet, rest, hr⟩ := List.exists_cons_of_ne_nil hr
    simp [write, doWrite, hr]

theorem stopWriting_of_idle (hw : ¬ s.writing) :
    s.stopWriting = if s.draining then s.closeSession else s := by
  have hs : { s with writing := false } = s := by
    cases s
    simp_all
  simp only [stopWriting, hs]

/-- `try_start_write` is `do_write` behind a check. -/
theorem tryStartWrite_eq (s : Session) :
    s.tryStartWrite env now = if s.writing then some s else s.write env now := by
  unfold tryStartWrite
  by_cases hw : s.writing
  · simp [hw]
  · by_cases hq : s.flood ∨ 0 < s.writesQueued ∨ s.responses ≠ []
    · simp [hw, hq]
    · obtain ⟨hf, hn, hr⟩ : ¬ s.flood ∧ ¬ 0 < s.writesQueued ∧ s.responses = [] := by
        simpa [not_or] using hq
      have he : s.write env now = some s.stopWriting := by simp [write, doWrite, hf, hn, hr]
      rw [if_neg hw, if_neg hq, if_neg hw, he, stopWriting_of_idle hw, apply_ite some]

def Starts (env : SessionEnv) (now : Nat) (s t : Session) : Prop :=
  s.writing ∧ t = s ∨ ¬ s.writing ∧ Writes env now s t

theorem starts_of_tryStartWrite (h : s.tryStartWrite env now = some t) : Starts env now s t := by
  rw [tryStartWrite_eq] at h
  split at h
  · rename_i hw
    exact .inl ⟨hw, (Option.some.inj h).symm⟩
  · rename_i hw
    exact .inr ⟨hw, writes_of_write h⟩

structure Frame (s t : Session) : Prop where
  gen : t.gen = s.gen
  connecting : t.connecting = s.connecting
  flood : t.flood = s.flood
  draining : t.draining = s.draining
  connects : t.connects = s.connects
  reads : t.reads = s.reads
  posts : t.posts = s.posts
  messages : t.messages = s.messages

theorem Writes.frame (h : Writes env now s t) : Frame s t := by
  cases h with
  | response => constructor <;> rfl
  | payload => constructor <;> rfl
  | stop => rw [stopWriting_eq]; constructor <;> rfl

theorem Starts.frame (h : Starts env now s t) : Frame s t := by
  rcases h with ⟨_, rfl⟩ | ⟨_, h⟩
  · constructor <;> rfl
  · exact h.frame

/-! ## Connecting -/

theorem startReading_eq (s : Session) : s.startReading env now = { s with
    readSampleCounter := (s.startReading env now).readSampleCounter
    readStartTime := (s.startReading env now).readStartTime
    reads := (s.startReading env now).reads } := by
  unfold startReading
  split <;> rfl

inductive Connected (env : SessionEnv) (now : Nat) (s : Session) : Session → Prop
  | quiet (h : s.writing ∨ ¬ s.flood ∧ s.writesQueued = 0) : Connected env now s (s.startReading env now)
  | write {t : Session} (hw : ¬ s.writing) (hq : s.flood ∨ 0 < s.writesQueued)
      (h : Writes env now (s.startReading env now) t) : Connected env now s t

theorem connected_of_onConnect (h : s.onConnect env now = some t) : Connected env now s t := by
  obtain ⟨c, time, r, hs⟩ : ∃ c time r, s.startReading env now =
      { s with readSampleCounter := c, readStartTime := time, reads := r } := ⟨_, _, _, startReading_eq s⟩
  simp only [onConnect] at h
  split at h
  · rename_i hw
    obtain rfl := Option.some.inj h
    exact .quiet (.inl (by simpa [hs] using hw))
  · rename_i hw
    split at h
    · rename_i hq
      exact .write (by simpa [hs] using hw) (by simpa [hs] using hq) (writes_of_write h)
    · rename_i hq
      obtain rfl := Option.some.inj h
      exact .quiet (.inr (by simpa [hs] using hq))

/-! ## Steps -/

def Overruns (env : SessionEnv) (op : ReadOp) : ReadOutcome → Prop
  | .error => True
  | .data bytes header _ => env.config.payloadSizeLimit <
    match op.kind with
    | .header => if header.ok then header.length else 0
    | .body _ => 0
    | .datagram => bytes.length

instance (op : ReadOp) : ∀ outcome, Decidable (Overruns env op outcome)
  | .error => inferInstanceAs (Decidable True)
  | .data .. => Nat.decLt _ _

/-- One handler, by what it does. -/
inductive Handled (env : SessionEnv) (now : Nat) (s : Session) : Event → Session → Prop
  | dialed {o c : Bool} {m : List Metric} (ht : env.transport = .TCP) :
    Handled env now s (.call .start o c) { s with
      live := true, connecting := true, gen := s.gen + 1
      connects := s.connects ++ [⟨s.gen + 1, now⟩], metrics := m }
  | refused {o c b : Bool} {m : List Metric} (ht : env.transport = .UDP) (hf : ¬ (o ∧ c ∧ ¬ s.socketOpen)) :
    Handled env now s (.call .start o c)
      { s with live := true, gen := s.gen + 1, socketOpen := b, metrics := m }.closeSession
  | opened {m : List Metric} {t : Session} (ht : env.transport = .UDP) (ho : ¬ s.socketOpen)
      (h : Connected env now { s with live := true, gen := s.gen + 1, socketOpen := true, metrics := m } t) :
    Handled env now s (.call .start true true) t
  | floodIgnored {o c : Bool} (h : s.flood ∨ s.draining) : Handled env now s (.call .flood o c) s
  | floodKept {o c : Bool} (hf : ¬ s.flood) (hd : ¬ s.draining) (hr : ¬ s.ready) :
    Handled env now s (.call .flood o c) { s with flood := true }
  | flooded {o c : Bool} {t : Session} (hf : ¬ s.flood) (hd : ¬ s.draining) (hr : s.ready)
      (h : Starts env now { s with flood := true } t) : Handled env now s (.call .flood o c) t
  | sendKept {o c : Bool} {n : Nat} (hr : ¬ s.ready) :
    Handled env now s (.call (.send n) o c) { s with writesQueued := s.writesQueued + n }
  | sent {o c : Bool} {n : Nat} {t : Session} (hr : s.ready)
      (h : Starts env now { s with writesQueued := s.writesQueued + n } t) :
    Handled env now s (.call (.send n) o c) t
  | drainClosed {o c : Bool} (hw : ¬ s.writing) (hq : s.writesQueued = 0) (hr : s.responses = []) :
    Handled env now s (.call .drain o c) { s with draining := true }.closeSession
  | drainKept {o c : Bool} (h : ¬ (¬ s.writing ∧ s.writesQueued = 0 ∧ s.responses = [])) :
    Handled env now s (.call .drain o c) { s with draining := true }
  | stopped {o c : Bool} : Handled env now s (.call .stop o c) s.closeSession
  | connectFailed {i : Nat} {op : ConnectOp} {m : List Metric} (hi : s.connects[i]? = some op) :
    Handled env now s (.done (.connected i false))
      { s with connects := s.connects.eraseIdx i, connecting := false, metrics := m }.closeSession
  | connected {i : Nat} {op : ConnectOp} {m : List Metric} {t : Session} (hi : s.connects[i]? = some op)
      (h : Connected env now { s with connects := s.connects.eraseIdx i, connecting := false, metrics := m } t) :
    Handled env now s (.done (.connected i true)) t
  | writeFailed {i : Nat} {op : WriteOp} (hi : s.writes[i]? = some op) :
    Handled env now s (.done (.wrote i none)) { s with writes := s.writes.eraseIdx i }.closeSession
  | wrote {i n : Nat} {op : WriteOp} {m : List Metric} {w : UInt32} {t : Session} (hi : s.writes[i]? = some op)
      (h : Writes env now { s with writes := s.writes.eraseIdx i, metrics := m, writeSampleCounter := w } t) :
    Handled env now s (.done (.wrote i (some n))) t
  | readFailed {i n : Nat} {outcome : ReadOutcome} {op : ReadOp} {m : List Metric} {header : List UInt8}
      (hi : s.reads[i]? = some op) (hf : Overruns env op outcome) :
    Handled env now s (.done (.read i outcome)) { s with
      reads := s.reads.eraseIdx i, metrics := m, incomingHeader := header, nextPayloadSize := n }.closeSession
  | reread {i n time : Nat} {outcome : ReadOutcome} {op new : ReadOp} {m : List Metric} {header b : List UInt8}
      {w : UInt32} {ptr : Option BodyBuffer} (hi : s.reads[i]? = some op) (hf : ¬ Overruns env op outcome)
      (hg : new.gen = s.gen) :
    Handled env now s (.done (.read i outcome)) { s with
      reads := s.reads.eraseIdx i ++ [new], metrics := m, incomingHeader := header, nextPayloadSize := n
      readSampleCounter := w, readStartTime := time, largeBodyBuffer := b, bodyBufferPtr := ptr }
  | handed {i n : Nat} {outcome : ReadOutcome} {op : ReadOp} {m : List Metric} {header b b' : List UInt8}
      {w : UInt32} {head body response : List UInt8} (hi : s.reads[i]? = some op) (hf : ¬ Overruns env op outcome) :
    Handled env now s (.done (.read i outcome)) { s with
      reads := s.reads.eraseIdx i, posts := s.posts ++ [⟨s.gen, response⟩]
      messages := s.messages ++ [⟨head, body, response⟩], metrics := m, incomingHeader := header, nextPayloadSize := n
      readSampleCounter := w, bodyBuffer := b, largeBodyBuffer := b' }
  | respondedEmpty {i : Nat} {op : PostOp} (hi : s.posts[i]? = some op) (hr : op.response = []) :
    Handled env now s (.done (.responded i)) ({ s with posts := s.posts.eraseIdx i }.doRead env now)
  | responded {i : Nat} {op : PostOp} {t : Session} (hi : s.posts[i]? = some op) (hr : op.response ≠ [])
      (h : Starts env now
        { s with posts := s.posts.eraseIdx i, responses := s.responses ++ [op.response] } t) :
    Handled env now s (.done (.responded i)) (t.doRead env now)

theorem handled_of_runCall {o c : Bool} {call : Call} (h : s.runCall env now o c call = some t) :
    Handled env now s (.call call o c) t := by
  cases call with
  | start =>
    simp only [runCall, runStart] at h
    split at h
    · rename_i ht
      obtain rfl := Option.some.inj h
      exact .dialed ht
    · rename_i ht
      split at h
      · rename_i hf
        obtain rfl := Option.some.inj h
        have hf : o = false ∨ s.socketOpen = true := by simpa [record] using hf
        exact .refused ht (by rcases hf with rfl | hf <;> simp [*])
      · rename_i hf
        split at h
        · rename_i hc
          obtain rfl := Option.some.inj h
          exact .refused ht (by simp_all)
        · rename_i hc
          obtain ⟨rfl, hs⟩ : o = true ∧ ¬ s.socketOpen := by simpa [record] using hf
          obtain rfl : c = true := by simpa using hc
          exact .opened ht hs (connected_of_onConnect h)
  | flood =>
    simp only [runCall, runFlood] at h
    split at h
    · rename_i hf
      obtain rfl := Option.some.inj h
      exact .floodIgnored hf
    · rename_i hf
      rw [not_or] at hf
      split at h
      · rename_i hr
        exact .flooded hf.1 hf.2 hr (starts_of_tryStartWrite h)
      · rename_i hr
        obtain rfl := Option.some.inj h
        exact .floodKept hf.1 hf.2 hr
  | send n =>
    simp only [runCall, runSend] at h
    split at h
    · rename_i hr
      exact .sent hr (starts_of_tryStartWrite h)
    · rename_i hr
      obtain rfl := Option.some.inj h
      exact .sendKept hr
  | drain =>
    obtain rfl := Option.some.inj h
    simp only [runDrain]
    split
    · rename_i hc
      exact .drainClosed hc.1 hc.2.1 hc.2.2
    · rename_i hc
      exact .drainKept hc
  | stop =>
    obtain rfl := Option.some.inj h
    exact .stopped

theorem handled_of_connectDone {i : Nat} {op : ConnectOp} {ok : Bool} (hi : s.connects[i]? = some op)
    (h : { s with connects := s.connects.eraseIdx i }.connectDone env now op.connStart ok = some t) :
    Handled env now s (.done (.connected i ok)) t := by
  cases ok with
  | false =>
    obtain rfl := Option.some.inj h
    exact .connectFailed hi
  | true => exact .connected hi (connected_of_onConnect h)

theorem handled_of_wrote {i : Nat} {op : WriteOp} {sent : Option Nat} (hi : s.writes[i]? = some op)
    (h : { s with writes := s.writes.eraseIdx i }.wrote env now sent = some t) :
    Handled env now s (.done (.wrote i sent)) t := by
  cases sent with
  | none =>
    obtain rfl := Option.some.inj h
    exact .writeFailed hi
  | some n =>
    simp only [wrote] at h
    split at h
    · exact .wrote hi (writes_of_write h)
    · exact .wrote hi (writes_of_write h)

theorem sampleRead_spec {env : SessionEnv} {now : Nat} (s : Session) : ∃ m w, s.sampleRead env now =
    { s with metrics := m, readSampleCounter := w } := by
  unfold sampleRead
  split
  · exact ⟨_, _, rfl⟩
  · exact ⟨_, _, rfl⟩

theorem handled_of_readDone {i : Nat} {op : ReadOp} {outcome : ReadOutcome} (hi : s.reads[i]? = some op)
    (h : { s with reads := s.reads.eraseIdx i }.readDone env now op.kind outcome = t) :
    Handled env now s (.done (.read i outcome)) t := by
  subst h
  cases outcome with
  | error => exact .readFailed hi trivial
  | data bytes header response =>
    simp only [readDone]
    cases hk : op.kind with
    | header =>
      simp only
      by_cases ho : header.ok
      · simp only [ho, Bool.not_true, Bool.false_eq_true, if_false]
        by_cases hl : env.config.payloadSizeLimit < header.length
        · simp only [hl, if_true]
          exact .readFailed hi (by simpa [Overruns, hk, ho] using hl)
        · have hf : ¬ Overruns env op (.data bytes header response) := by simpa [Overruns, hk, ho] using hl
          simp only [hl, if_false, doReadBody]
          split
          · exact .handed hi hf
          · split
            · exact .reread hi hf rfl
            · exact .reread hi hf rfl
      · simp only [ho, Bool.not_false, if_true]
        refine .reread hi (by simp [Overruns, hk, ho]) ?_
        split <;> rfl
    | body buffer =>
      have hf : ¬ Overruns env op (.data bytes header response) := by simp [Overruns, hk]
      simp only
      obtain ⟨m, w, hs⟩ := @sampleRead_spec env now
        (({ s with reads := s.reads.eraseIdx i }.record (.bytesRead bytes.length)).storeBody bytes buffer)
      rw [hs]
      cases buffer
      · exact .handed hi hf
      · exact .handed hi hf
    | datagram =>
      simp only
      by_cases hl : env.config.payloadSizeLimit < bytes.length
      · simp only [hl, if_true]
        exact .readFailed hi (by simpa [Overruns, hk] using hl)
      · have hf : ¬ Overruns env op (.data bytes header response) := by simpa [Overruns, hk] using hl
        obtain ⟨m, w, hs⟩ := @sampleRead_spec env now
          ({ s with reads := s.reads.eraseIdx i }.record (.bytesRead bytes.length))
        simp only [hl, if_false]
        rw [hs]
        exact .handed hi hf

theorem handled_of_responded {i : Nat} {op : PostOp} (hi : s.posts[i]? = some op)
    (h : { s with posts := s.posts.eraseIdx i }.responded env now op.response = some t) :
    Handled env now s (.done (.responded i)) t := by
  simp only [responded, Option.map_eq_some_iff] at h
  obtain ⟨p, hp, rfl⟩ := h
  split at hp
  · rename_i hl
    exact .responded hi (List.length_pos_iff.mp hl) (starts_of_tryStartWrite hp)
  · rename_i hl
    obtain rfl := Option.some.inj hp
    exact .respondedEmpty hi (List.length_eq_zero_iff.mp (by omega))

theorem handled_of_step {e : Event} (h : step env s (now, e) = some t) : Handled env now s e t := by
  cases e with
  | call call o c => exact handled_of_runCall h
  | done c =>
    cases c with
    | connected i ok =>
      obtain ⟨op, hi, h⟩ := Option.bind_eq_some_iff.mp h
      exact handled_of_connectDone hi h
    | wrote i sent =>
      obtain ⟨op, hi, h⟩ := Option.bind_eq_some_iff.mp h
      exact handled_of_wrote hi h
    | read i outcome =>
      obtain ⟨op, hi, h⟩ := Option.bind_eq_some_iff.mp h
      split at h
      · exact handled_of_readDone hi (Option.some.inj h)
      · cases h
    | responded i =>
      obtain ⟨op, hi, h⟩ := Option.bind_eq_some_iff.mp h
      exact handled_of_responded hi h

def callsOf (es : List (Nat × Event)) : List Call := es.filterMap (·.2.call?)

theorem callsOf_snoc (es : List (Nat × Event)) (e : Nat × Event) :
    callsOf (es ++ [e]) = callsOf es ++ e.2.call?.toList := by
  rw [callsOf, List.filterMap_append, callsOf, List.filterMap_cons]
  cases e.2.call? <;> rfl

/-! ## Closing -/

structure Balanced (s t : Session) (live : Bool) : Prop where
  le : s.disconnects ≤ t.disconnects
  eq : t.disconnects + t.live.toNat = s.disconnects + live.toNat

theorem closeSession_balanced (s : Session) : Balanced s s.closeSession s.live := by
  rw [closeSession_eq]
  exact ⟨Nat.le_add_right _ _, by simp⟩

theorem Writes.balanced (h : Writes env now s t) : Balanced s t s.live := by
  cases h with
  | response => exact ⟨Nat.le_refl _, rfl⟩
  | payload => exact ⟨Nat.le_refl _, rfl⟩
  | stop =>
    rw [stopWriting_eq]
    refine ⟨Nat.le_add_right _ _, ?_⟩
    cases hl : s.live <;> cases s.draining <;> simp

theorem Starts.balanced (h : Starts env now s t) : Balanced s t s.live := by
  rcases h with ⟨_, rfl⟩ | ⟨_, h⟩
  · exact ⟨Nat.le_refl _, rfl⟩
  · exact h.balanced

theorem Connected.balanced (h : Connected env now s t) : Balanced s t s.live := by
  cases h with
  | quiet =>
    rw [startReading_eq]
    exact ⟨Nat.le_refl _, rfl⟩
  | write _ _ h =>
    have hb := h.balanced
    rw [startReading_eq] at hb
    exact ⟨hb.le, hb.eq⟩

/-- Only `start` makes a session live, and each one that was live is closed
with one callback. -/
theorem Handled.balanced {e : Event} (h : Handled env now s e t) : Balanced s t (s.live || e.isStart) := by
  cases h with
  | dialed => exact ⟨Nat.le_refl _, by simp [Event.isStart]⟩
  | @refused _ _ b m =>
    have hb := closeSession_balanced { s with live := true, gen := s.gen + 1, socketOpen := b, metrics := m }
    exact ⟨hb.le, by simpa [Event.isStart] using hb.eq⟩
  | opened _ _ h => exact ⟨h.balanced.le, by simpa [Event.isStart] using h.balanced.eq⟩
  | floodIgnored | floodKept | sendKept | drainKept | reread | handed | respondedEmpty =>
    exact ⟨Nat.le_refl _, by simp [Event.isStart, doRead]⟩
  | flooded _ _ _ h | sent _ h => exact ⟨h.balanced.le, by simpa [Event.isStart] using h.balanced.eq⟩
  | drainClosed =>
    have hb := closeSession_balanced { s with draining := true }
    exact ⟨hb.le, by simpa [Event.isStart] using hb.eq⟩
  | stopped =>
    have hb := closeSession_balanced s
    exact ⟨hb.le, by simpa [Event.isStart] using hb.eq⟩
  | @connectFailed i op m =>
    have hb := closeSession_balanced
      { s with connects := s.connects.eraseIdx i, connecting := false, metrics := m }
    exact ⟨hb.le, by simpa [Event.isStart] using hb.eq⟩
  | @writeFailed i =>
    have hb := closeSession_balanced { s with writes := s.writes.eraseIdx i }
    exact ⟨hb.le, by simpa [Event.isStart] using hb.eq⟩
  | @readFailed i n _ _ m header =>
    have hb := closeSession_balanced { s with
      reads := s.reads.eraseIdx i, metrics := m, incomingHeader := header, nextPayloadSize := n }
    exact ⟨hb.le, by simpa [Event.isStart] using hb.eq⟩
  | connected _ h | wrote _ h => exact ⟨h.balanced.le, by simpa [Event.isStart] using h.balanced.eq⟩
  | responded _ _ h => exact ⟨h.balanced.le, by simpa [Event.isStart, doRead] using h.balanced.eq⟩

theorem Handled.dead {e : Event} (h : Handled env now s e t) (he : e.isStart = false) (hl : s.live = false) :
    t.live = false := by
  obtain ⟨hle, heq⟩ := h.balanced
  rw [hl, he] at heq
  cases ht : t.live with
  | false => rfl
  | true =>
    simp [ht] at heq
    omega

end Loadshear.Session
