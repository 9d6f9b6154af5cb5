import Loadshear.Sampling
import Loadshear.WriteSound

/-!
# The meters of a session

A session samples its writes with one counter and its reads with another. What a
handler does to a meter goes with what it does to the operations in flight: it
starts the meter with an operation (`sends_of_step`, `reads_of_step`), and stops
it when a write or a message with a body is complete.
-/

namespace Loadshear

open Sampling (Meter)

def Metric.sendLatency? : Metric → Option Nat
  | .sendLatency us => some us
  | _ => none

def Metric.readLatency? : Metric → Option Nat
  | .readLatency us => some us
  | _ => none

def ReadKind.isBody : ReadKind → Bool
  | .body _ => true
  | _ => false

namespace Session

variable {env : SessionEnv} {now : Nat} {s p t : Session} {e : Event}

def sendMeter (s : Session) : Meter := ⟨s.writeSampleCounter, s.writeStartTime, s.metrics.filterMap Metric.sendLatency?⟩

def readMeter (s : Session) : Meter := ⟨s.readSampleCounter, s.readStartTime, s.metrics.filterMap Metric.readLatency?⟩

structure Sending where
  meter : Meter
  writing : Bool
  writes : List WriteOp
  begun : Nat

def sending (s : Session) : Sending := ⟨s.sendMeter, s.writing, s.writes, s.begun.length⟩

structure Receiving where
  meter : Meter
  reads : List ReadOp
  posts : List PostOp
  messages : Nat

def receiving (s : Session) : Receiving := ⟨s.readMeter, s.reads, s.posts, s.messages.length⟩

theorem record_sending {m : Metric} (h : m.sendLatency? = none) : (s.record m).sending = s.sending := by
  simp [sending, sendMeter, record, h]

theorem closeSession_sending (s : Session) : s.closeSession.sending = s.sending := by
  rw [closeSession_eq]
  rfl

theorem record_receiving {m : Metric} (h : m.readLatency? = none) : (s.record m).receiving = s.receiving := by
  simp [receiving, readMeter, record, h]

theorem closeSession_receiving (s : Session) : s.closeSession.receiving = s.receiving := by
  rw [closeSession_eq]
  rfl

/-! ## Connections -/

inductive Dials (env : SessionEnv) (now : Nat) (p : Session) : Session → Prop
  | waits : Dials env now p p
  | fails : Dials env now p p.closeSession
  | connects {t : Session} (h : p.onConnect env now = some t) : Dials env now p t

/-- The first steps of `start` touch neither meter. -/
theorem dials_of_runStart {o c : Bool} (h : s.runStart env now o c = some t) :
    ∃ p : Session, p.sending = s.sending ∧ p.receiving = s.receiving ∧ Dials env now p t := by
  have hs : (({ s with live := true, gen := s.gen + 1 } : Session).record .connectionAttempt).sending = s.sending :=
    record_sending rfl
  have hr : (({ s with live := true, gen := s.gen + 1 } : Session).record .connectionAttempt).receiving = s.receiving :=
    record_receiving rfl
  simp only [runStart] at h
  split at h
  · obtain rfl := Option.some.inj h
    refine ⟨_, ?_, ?_, .waits⟩
    · exact hs
    · exact hr
  · split at h
    · obtain rfl := Option.some.inj h
      exact ⟨_, (record_sending rfl).trans hs, (record_receiving rfl).trans hr, .fails⟩
    · split at h
      · obtain rfl := Option.some.inj h
        exact ⟨_, (record_sending rfl).trans hs, (record_receiving rfl).trans hr, .fails⟩
      · refine ⟨_, ?_, ?_, .connects h⟩
        · exact (record_sending rfl).trans hs
        · exact (record_receiving rfl).trans hr

/-! ## Writes -/

def Sending.start (rate : UInt32) (now : Nat) (op : WriteOp) (v : Sending) : Sending :=
  ⟨v.meter.start rate now, true, v.writes ++ [op], v.begun + 1⟩

theorem startReading_sending (env : SessionEnv) (now : Nat) (s : Session) :
    (s.startReading env now).sending = s.sending := by
  rw [startReading_eq]
  rfl

theorem beginWrite_sending (what : Begun) : (s.beginWrite env now what).sending =
    s.sending.start env.config.packetSampleRate now ⟨s.gen, what⟩ := by
  have hb : (s.beginWrite env now what).begun.length = s.begun.length + 1 := List.length_append
  unfold sending
  rw [hb]
  rfl

theorem Writes.sending (h : Writes env now p t) : t.sending = { p.sending with writing := false } ∨
    ∃ op, t.sending = p.sending.start env.config.packetSampleRate now op := by
  cases h with
  | response => exact .inr ⟨_, beginWrite_sending _⟩
  | payload => exact .inr ⟨_, beginWrite_sending _⟩
  | stop =>
    rw [stopWriting_eq]
    exact .inl rfl

inductive Sends (env : SessionEnv) (now : Nat) (s : Session) : Event → Session → Prop
  | kept {e : Event} {t : Session} (he : ∀ i sent, e ≠ .done (.wrote i sent)) (h : t.sending = s.sending) :
    Sends env now s e t
  | begins {e : Event} {t : Session} {op : WriteOp} (he : ∀ i sent, e ≠ .done (.wrote i sent)) (hw : ¬ s.writing)
      (h : t.sending = s.sending.start env.config.packetSampleRate now op) : Sends env now s e t
  | failed {i : Nat} {op : WriteOp} {t : Session} (hi : s.writes[i]? = some op)
      (h : t.sending = { s.sending with writes := s.writes.eraseIdx i }) : Sends env now s (.done (.wrote i none)) t
  | ended {i n : Nat} {op : WriteOp} {t : Session} (hi : s.writes[i]? = some op)
      (h : t.sending = ⟨s.sendMeter.stop env.config.packetSampleRate now, false, s.writes.eraseIdx i, s.begun.length⟩) :
    Sends env now s (.done (.wrote i (some n))) t
  | next {i n : Nat} {op op' : WriteOp} {t : Session} (hi : s.writes[i]? = some op)
      (h : t.sending = Sending.start env.config.packetSampleRate now op'
        ⟨s.sendMeter.stop env.config.packetSampleRate now, s.writing, s.writes.eraseIdx i, s.begun.length⟩) :
    Sends env now s (.done (.wrote i (some n))) t

theorem Sends.congr (h : Sends env now s e p) (ht : t.sending = p.sending) : Sends env now s e t := by
  cases h with
  | kept he h => exact .kept he (ht.trans h)
  | begins he hw h => exact .begins he hw (ht.trans h)
  | failed hi h => exact .failed hi (ht.trans h)
  | ended hi h => exact .ended hi (ht.trans h)
  | next hi h => exact .next hi (ht.trans h)

theorem Sends.starts (h : Starts env now p t) (hp : p.sending = s.sending)
    (he : ∀ i sent, e ≠ .done (.wrote i sent)) : Sends env now s e t := by
  rcases h with ⟨_, rfl⟩ | ⟨hw, h⟩
  · exact .kept he hp
  · have hs : p.writing = s.writing := congrArg Sending.writing hp
    rw [hs] at hw
    rcases h.sending with ht | ⟨op, ht⟩
    · refine .kept he (ht.trans ?_)
      rw [hp, ← Bool.eq_false_iff.mpr hw]
      rfl
    · exact .begins he hw (hp ▸ ht)

theorem Sends.onConnect (h : p.onConnect env now = some t) (hp : p.sending = s.sending)
    (he : ∀ i sent, e ≠ .done (.wrote i sent)) : Sends env now s e t := by
  have hr := (startReading_sending env now p).trans hp
  cases connected_of_onConnect h with
  | quiet => exact .kept he hr
  | write hw _ h =>
    have hw' : ¬ (p.startReading env now).writing := by rwa [startReading_eq]
    exact .starts (.inr ⟨hw', h⟩) hr he

theorem Sends.dials (h : Dials env now p t) (hp : p.sending = s.sending)
    (he : ∀ i sent, e ≠ .done (.wrote i sent)) : Sends env now s e t := by
  cases h with
  | waits => exact .kept he hp
  | fails => exact .kept he ((closeSession_sending p).trans hp)
  | connects h => exact .onConnect h hp he

theorem stopMeter_sending (n : Nat) (w : List WriteOp) :
    (let u := ({ s with writes := w } : Session).record (.bytesSent n)
     if env.config.packetSampleRate < u.writeSampleCounter then
       { u.record (.sendLatency ((now - u.writeStartTime) / 1000)) with writeSampleCounter := 0 }
     else u).sending =
      ⟨s.sendMeter.stop env.config.packetSampleRate now, s.writing, w, s.begun.length⟩ := by
  by_cases h : env.config.packetSampleRate < s.writeSampleCounter <;>
    simp [h, sending, sendMeter, Meter.stop, record, List.filterMap_cons, Metric.sendLatency?, Sampling.elapsed]

theorem sampleRead_sending (env : SessionEnv) (now : Nat) (s : Session) :
    (s.sampleRead env now).sending = s.sending := by
  unfold sampleRead
  by_cases h : env.config.packetSampleRate < s.readSampleCounter
  · rw [if_pos h]
    exact record_sending (s := s) (m := .readLatency ((now - s.readStartTime) / 1000)) rfl
  · rw [if_neg h]

theorem doReadBody_sending (s : Session) (response : List UInt8) : (s.doReadBody response).sending = s.sending := by
  unfold doReadBody
  by_cases h : s.nextPayloadSize = 0
  · rw [if_pos h]
    rfl
  · rw [if_neg h]
    split <;> rfl

theorem readDone_sending (env : SessionEnv) (now : Nat) (s : Session) (kind : ReadKind) (outcome : ReadOutcome) :
    (s.readDone env now kind outcome).sending = s.sending := by
  cases outcome with
  | error => exact closeSession_sending s
  | data bytes header response =>
    have hb : (s.record (.bytesRead bytes.length)).sending = s.sending := record_sending rfl
    rw [← hb]
    unfold readDone
    cases kind with
    | header =>
      simp only
      split
      · rfl
      · split
        · exact closeSession_sending _
        · exact doReadBody_sending _ _
    | body buffer =>
      simp only [handleMessage]
      cases buffer <;> exact sampleRead_sending env now _
    | datagram =>
      simp only
      split
      · exact closeSession_sending _
      · exact sampleRead_sending env now _

theorem sends_of_step (h : step env s (now, e) = some t) : Sends env now s e t := by
  cases e with
  | call c o k =>
    have he : ∀ i sent, Event.call c o k ≠ .done (.wrote i sent) := by simp
    cases c with
    | start =>
      obtain ⟨p, hp, -, hd⟩ := dials_of_runStart h
      exact .dials hd hp he
    | flood =>
      cases handled_of_step h with
      | floodIgnored | floodKept => exact .kept he rfl
      | flooded _ _ _ h => exact .starts h rfl he
    | send n =>
      cases handled_of_step h with
      | sendKept => exact .kept he rfl
      | sent _ h => exact .starts h rfl he
    | drain =>
      cases handled_of_step h with
      | drainClosed => exact .kept he (closeSession_sending _)
      | drainKept => exact .kept he rfl
    | stop =>
      obtain rfl := Option.some.inj h
      exact .kept he (closeSession_sending s)
  | done c =>
    cases c with
    | connected i ok =>
      obtain ⟨op, hi, h⟩ := Option.bind_eq_some_iff.mp h
      have he : ∀ j sent, Event.done (.connected i ok) ≠ .done (.wrote j sent) := by simp
      cases ok with
      | false =>
        obtain rfl := Option.some.inj h
        exact .kept he ((closeSession_sending _).trans (record_sending rfl))
      | true => exact .onConnect h ((record_sending rfl).trans (record_sending rfl)) he
    | wrote i sent =>
      obtain ⟨op, hi, h⟩ := Option.bind_eq_some_iff.mp h
      cases sent with
      | none =>
        obtain rfl := Option.some.inj h
        exact .failed hi (closeSession_sending _)
      | some n =>
        rcases (writes_of_write h).sending with ht | ⟨op', ht⟩
        · exact .ended hi (ht.trans (by rw [stopMeter_sending]))
        · exact .next hi (ht.trans (by rw [stopMeter_sending]))
    | read i outcome =>
      obtain ⟨op, hi, h⟩ := Option.bind_eq_some_iff.mp h
      split at h
      · obtain rfl := Option.some.inj h
        exact .kept (by simp) (readDone_sending env now _ _ _)
      · cases h
    | responded i =>
      obtain ⟨op, hi, h⟩ := Option.bind_eq_some_iff.mp h
      simp only [responded, Option.map_eq_some_iff] at h
      obtain ⟨p, hp, rfl⟩ := h
      split at hp
      · exact .congr (.starts (starts_of_tryStartWrite hp) rfl (by simp)) rfl
      · obtain rfl := Option.some.inj hp
        exact .kept (by simp) rfl

/-! ## Reads -/

def Receiving.push (op : ReadOp) (v : Receiving) : Receiving := { v with reads := v.reads ++ [op] }

def Receiving.start (rate : UInt32) (now : Nat) (op : ReadOp) (v : Receiving) : Receiving :=
  { v.push op with meter := v.meter.start rate now }

def Receiving.deliver (post : PostOp) (v : Receiving) : Receiving :=
  { v with posts := v.posts ++ [post], messages := v.messages + 1 }

theorem handleMessage_receiving (s : Session) (header body response : List UInt8) :
    (s.handleMessage header body response).receiving = s.receiving.deliver ⟨s.gen, response⟩ := by
  have hm : (s.handleMessage header body response).messages.length = s.messages.length + 1 := List.length_append
  unfold receiving
  rw [hm]
  rfl

theorem Writes.receiving (h : Writes env now p t) : t.receiving = p.receiving := by
  cases h with
  | response => rfl
  | payload => rfl
  | stop =>
    rw [stopWriting_eq]
    rfl

theorem Starts.receiving (h : Starts env now p t) : t.receiving = p.receiving := by
  rcases h with ⟨_, rfl⟩ | ⟨_, h⟩
  · rfl
  · exact h.receiving

theorem doRead_receiving (env : SessionEnv) (now : Nat) (s : Session) : ∃ op : ReadOp, op.kind.isBody = false ∧
    (s.doRead env now).receiving = s.receiving.start env.config.packetSampleRate now op := by
  unfold doRead
  cases ht : env.transport with
  | TCP => exact ⟨_, rfl, rfl⟩
  | UDP => exact ⟨_, rfl, rfl⟩

/-- Whether a handler delivers a message, and whether a message that it delivers
had a body to wait for. -/
def delivers (env : SessionEnv) (s : Session) : Event → Option Bool
  | .done (.read i (.data bytes header _)) =>
    match s.reads[i]? with
    | none => none
    | some op =>
      match op.kind with
      | .header => if header.ok ∧ header.length = 0 then some false else none
      | .body _ => some true
      | .datagram => if env.config.payloadSizeLimit < bytes.length then none else some true
  | _ => none

inductive Reads (env : SessionEnv) (now : Nat) (s : Session) : Event → Session → Prop
  | kept {e : Event} {t : Session} (he : ∀ i outcome, e ≠ .done (.read i outcome)) (h : t.receiving = s.receiving) :
    Reads env now s e t
  | connected {e : Event} {op : ReadOp} {t : Session} (he : makesConnection e) (hk : op.kind.isBody = false)
      (h : t.receiving = s.receiving.start env.config.packetSampleRate now op) : Reads env now s e t
  | responded {i : Nat} {post : PostOp} {op : ReadOp} {t : Session} (hi : s.posts[i]? = some post)
      (hk : op.kind.isBody = false)
      (h : t.receiving = Receiving.start env.config.packetSampleRate now op
        { s.receiving with posts := s.posts.eraseIdx i }) : Reads env now s (.done (.responded i)) t
  | failed {i : Nat} {outcome : ReadOutcome} {op : ReadOp} {t : Session} (hi : s.reads[i]? = some op)
      (hd : delivers env s (.done (.read i outcome)) = none)
      (h : t.receiving = { s.receiving with reads := s.reads.eraseIdx i }) :
    Reads env now s (.done (.read i outcome)) t
  | refused {i : Nat} {outcome : ReadOutcome} {op new : ReadOp} {t : Session} (hi : s.reads[i]? = some op)
      (hd : delivers env s (.done (.read i outcome)) = none) (hk : new.kind.isBody = false)
      (h : t.receiving = Receiving.start env.config.packetSampleRate now new
        { s.receiving with reads := s.reads.eraseIdx i }) : Reads env now s (.done (.read i outcome)) t
  | body {i : Nat} {outcome : ReadOutcome} {op new : ReadOp} {t : Session} (hi : s.reads[i]? = some op)
      (hd : delivers env s (.done (.read i outcome)) = none) (hk : new.kind.isBody = true)
      (h : t.receiving = Receiving.push new { s.receiving with reads := s.reads.eraseIdx i }) :
    Reads env now s (.done (.read i outcome)) t
  | delivered {i : Nat} {outcome : ReadOutcome} {op : ReadOp} {post : PostOp} {sampled : Bool} {t : Session}
      (hi : s.reads[i]? = some op) (hd : delivers env s (.done (.read i outcome)) = some sampled)
      (h : t.receiving = Receiving.deliver post { s.receiving with
        meter := if sampled then s.readMeter.stop env.config.packetSampleRate now else s.readMeter
        reads := s.reads.eraseIdx i }) : Reads env now s (.done (.read i outcome)) t

theorem Reads.onConnect (h : p.onConnect env now = some t) (hp : p.receiving = s.receiving) (he : makesConnection e) :
    Reads env now s e t := by
  have ht : t.receiving = (p.startReading env now).receiving := by
    cases connected_of_onConnect h with
    | quiet => rfl
    | write _ _ h => exact h.receiving
  have hr : ∀ i outcome, e ≠ .done (.read i outcome) := by
    rintro i outcome rfl
    cases he
  unfold startReading at ht
  by_cases hread : env.config.readMessages
  · rw [if_pos hread] at ht
    obtain ⟨op, hk, hop⟩ := doRead_receiving env now p
    exact .connected he hk (ht.trans (hop.trans (by rw [hp])))
  · rw [if_neg hread] at ht
    exact .kept hr (ht.trans hp)

theorem Reads.dials (h : Dials env now p t) (hp : p.receiving = s.receiving)
    (he : ∀ i outcome, e ≠ .done (.read i outcome)) (hc : makesConnection e) : Reads env now s e t := by
  cases h with
  | waits => exact .kept he hp
  | fails => exact .kept he ((closeSession_receiving p).trans hp)
  | connects h => exact .onConnect h hp hc

theorem sampleRead_receiving (env : SessionEnv) (now : Nat) (s : Session) : (s.sampleRead env now).receiving =
    { s.receiving with meter := s.readMeter.stop env.config.packetSampleRate now } := by
  unfold sampleRead
  by_cases h : env.config.packetSampleRate < s.readSampleCounter <;>
    simp [h, receiving, readMeter, Meter.stop, record, Metric.readLatency?, Sampling.elapsed]

theorem sampled_receiving {reads : List ReadOp} (h : p.receiving = { s.receiving with reads := reads }) :
    (p.sampleRead env now).receiving =
      { s.receiving with meter := s.readMeter.stop env.config.packetSampleRate now, reads := reads } := by
  have hm : p.readMeter = s.readMeter := congrArg Receiving.meter h
  rw [sampleRead_receiving, h, hm]

theorem doReadBody_receiving (response : List UInt8) (hz : s.nextPayloadSize ≠ 0) :
    ∃ new : ReadOp, new.kind.isBody = true ∧ (s.doReadBody response).receiving = s.receiving.push new := by
  unfold doReadBody
  rw [if_neg hz]
  by_cases hl : messageBufferSize < s.nextPayloadSize
  · rw [if_pos hl]
    exact ⟨_, rfl, rfl⟩
  · rw [if_neg hl]
    exact ⟨_, rfl, rfl⟩

theorem reads_of_readDone {i : Nat} {op : ReadOp} {outcome : ReadOutcome} (hi : s.reads[i]? = some op)
    (h : { s with reads := s.reads.eraseIdx i }.readDone env now op.kind outcome = t) :
    Reads env now s (.done (.read i outcome)) t := by
  subst h
  cases outcome with
  | error => exact .failed hi rfl (closeSession_receiving _)
  | data bytes header response =>
    have hb : (({ s with reads := s.reads.eraseIdx i } : Session).record (.bytesRead bytes.length)).receiving =
        { s.receiving with reads := s.reads.eraseIdx i } := record_receiving rfl
    simp only [readDone]
    cases hk : op.kind with
    | header =>
      simp only
      by_cases ho : header.ok
      · simp only [ho, Bool.not_true, Bool.false_eq_true, if_false]
        by_cases hl : env.config.payloadSizeLimit < header.length
        · have hd : delivers env s (.done (.read i (.data bytes header response))) = none := by
            simp [delivers, hi, hk, Nat.ne_of_gt (Nat.lt_of_le_of_lt (Nat.zero_le _) hl)]
          simp only [hl, if_true]
          exact .failed hi hd ((closeSession_receiving _).trans hb)
        · simp only [hl, if_false]
          by_cases hz : header.length = 0
          · simp only [doReadBody, hz, if_true]
            exact .delivered hi (show _ = some false by simp [delivers, hi, hk, ho, hz])
              ((handleMessage_receiving _ _ _ _).trans (congrArg (Receiving.deliver _) hb))
          · have hd : delivers env s (.done (.read i (.data bytes header response))) = none := by
              simp [delivers, hi, hk, hz]
            obtain ⟨new, hkind, hnew⟩ := doReadBody_receiving (s := { s with
              reads := s.reads.eraseIdx i, metrics := s.metrics ++ [.bytesRead bytes.length], incomingHeader := bytes,
              nextPayloadSize := header.length }) response hz
            exact .body hi hd hkind (hnew.trans (congrArg (Receiving.push new) hb))
      · simp only [ho, Bool.not_false, if_true]
        obtain ⟨new, hkind, hnew⟩ := doRead_receiving env now { s with
          reads := s.reads.eraseIdx i, metrics := s.metrics ++ [.bytesRead bytes.length], incomingHeader := bytes,
          nextPayloadSize := 0 }
        exact .refused hi (by simp [delivers, hi, hk, ho]) hkind (hnew.trans (congrArg (Receiving.start _ now new) hb))
    | body buffer =>
      have hd : delivers env s (.done (.read i (.data bytes header response))) = some true := by
        simp [delivers, hi, hk]
      simp only
      refine .delivered hi hd ((handleMessage_receiving _ _ _ _).trans (congrArg (Receiving.deliver _) ?_))
      cases buffer <;> exact sampled_receiving hb
    | datagram =>
      simp only
      by_cases hl : env.config.payloadSizeLimit < bytes.length
      · simp only [hl, if_true]
        exact .failed hi (by simp [delivers, hi, hk, hl]) ((closeSession_receiving _).trans hb)
      · have hd : delivers env s (.done (.read i (.data bytes header response))) = some true := by
          simp [delivers, hi, hk, hl]
        simp only [hl, if_false]
        refine .delivered hi hd ((handleMessage_receiving _ _ _ _).trans (congrArg (Receiving.deliver _) ?_))
        exact sampled_receiving hb

theorem reads_of_responded {i : Nat} {op : PostOp} (hi : s.posts[i]? = some op)
    (h : { s with posts := s.posts.eraseIdx i }.responded env now op.response = some t) :
    Reads env now s (.done (.responded i)) t := by
  simp only [responded, Option.map_eq_some_iff] at h
  obtain ⟨p, hp, rfl⟩ := h
  have hr : p.receiving = { s.receiving with posts := s.posts.eraseIdx i } := by
    split at hp
    · exact (starts_of_tryStartWrite hp).receiving
    · obtain rfl := Option.some.inj hp
      rfl
  obtain ⟨new, hkind, hnew⟩ := doRead_receiving env now p
  exact .responded hi hkind (hnew.trans (congrArg (Receiving.start _ now new) hr))

theorem reads_of_step (h : step env s (now, e) = some t) : Reads env now s e t := by
  cases e with
  | call c o k =>
    have he : ∀ i outcome, Event.call c o k ≠ .done (.read i outcome) := by simp
    cases c with
    | start =>
      obtain ⟨p, -, hp, hd⟩ := dials_of_runStart h
      exact .dials hd hp he rfl
    | flood =>
      cases handled_of_step h with
      | floodIgnored | floodKept => exact .kept he rfl
      | flooded _ _ _ h => exact .kept he h.receiving
    | send n =>
      cases handled_of_step h with
      | sendKept => exact .kept he rfl
      | sent _ h => exact .kept he h.receiving
    | drain =>
      cases handled_of_step h with
      | drainClosed => exact .kept he (closeSession_receiving _)
      | drainKept => exact .kept he rfl
    | stop =>
      obtain rfl := Option.some.inj h
      exact .kept he (closeSession_receiving s)
  | done c =>
    cases c with
    | connected i ok =>
      obtain ⟨op, hi, h⟩ := Option.bind_eq_some_iff.mp h
      cases ok with
      | false =>
        obtain rfl := Option.some.inj h
        exact .kept (by simp) ((closeSession_receiving _).trans (record_receiving rfl))
      | true => exact .onConnect h ((record_receiving rfl).trans (record_receiving rfl)) rfl
    | wrote i sent =>
      obtain ⟨op, hi, h⟩ := Option.bind_eq_some_iff.mp h
      cases sent with
      | none =>
        obtain rfl := Option.some.inj h
        exact .kept (by simp) (closeSession_receiving _)
      | some n =>
        refine .kept (by simp) ((writes_of_write h).receiving.trans ?_)
        have hs : ({ s with writes := s.writes.eraseIdx i } : Session).receiving = s.receiving := rfl
        rw [← hs]
        split <;> simp [receiving, readMeter, record, Metric.readLatency?]
    | read i outcome =>
      obtain ⟨op, hi, h⟩ := Option.bind_eq_some_iff.mp h
      split at h
      · exact reads_of_readDone hi (Option.some.inj h)
      · cases h
    | responded i =>
      obtain ⟨op, hi, h⟩ := Option.bind_eq_some_iff.mp h
      exact reads_of_responded hi h

end Session

end Loadshear
