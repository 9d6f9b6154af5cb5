import Loadshear.DrainSound

/-!
# Reading

What a handler does to the side of a session that reads (`Receives`). A session
that was started at most once has one read in flight, or one response on its way
from the message handler.
-/

namespace Loadshear.Session

variable {env : SessionEnv} {now : Nat} {s p t : Session} {e : Event}

theorem closeSession_reads (s : Session) :
    s.closeSession.reads = s.reads ∧ s.closeSession.posts = s.posts ∧ s.closeSession.messages = s.messages := by
  rw [closeSession_eq]
  exact ⟨rfl, rfl, rfl⟩

theorem doRead_reads (env : SessionEnv) (now : Nat) (s : Session) :
    ∃ op : ReadOp, (s.doRead env now).reads = s.reads ++ [op] :=
  ⟨_, rfl⟩

theorem startReading_reads (env : SessionEnv) (now : Nat) (s : Session) :
    (s.startReading env now).reads = s.reads ∨ ∃ op : ReadOp, (s.startReading env now).reads = s.reads ++ [op] := by
  unfold startReading
  split
  · exact .inr (doRead_reads env now s)
  · exact .inl rfl

def makesConnection : Event → Bool
  | .call .start .. => true
  | .done (.connected _ true) => true
  | _ => false

/-- The response that a handler queues. -/
def answer (s : Session) : Event → List (List UInt8)
  | .done (.responded i) => ((s.posts[i]?.map (·.response)).toList).filter (· ≠ [])
  | _ => []

inductive Receives (s : Session) (e : Event) (t : Session) : Prop
  | kept (ha : s.answer e = []) (hr : t.reads = s.reads) (hp : t.posts = s.posts) (hm : t.messages = s.messages)
  | connected {op : ReadOp} (he : makesConnection e) (ha : s.answer e = []) (hr : t.reads = s.reads ++ [op])
      (hp : t.posts = s.posts) (hm : t.messages = s.messages)
  | failed {i : Nat} {op : ReadOp} (hi : s.reads[i]? = some op) (ha : s.answer e = [])
      (hr : t.reads = s.reads.eraseIdx i) (hp : t.posts = s.posts) (hm : t.messages = s.messages)
  | reread {i : Nat} {op new : ReadOp} (hi : s.reads[i]? = some op) (ha : s.answer e = [])
      (hr : t.reads = s.reads.eraseIdx i ++ [new]) (hp : t.posts = s.posts) (hm : t.messages = s.messages)
  | handed {i : Nat} {op : ReadOp} {message : Message} (hi : s.reads[i]? = some op) (ha : s.answer e = [])
      (hr : t.reads = s.reads.eraseIdx i) (hp : t.posts = s.posts ++ [⟨s.gen, message.response⟩])
      (hm : t.messages = s.messages ++ [message])
  | responded {i : Nat} {op : PostOp} {new : ReadOp} (hi : s.posts[i]? = some op)
      (ha : s.answer e = [op.response].filter (· ≠ [])) (hr : t.reads = s.reads ++ [new])
      (hp : t.posts = s.posts.eraseIdx i) (hm : t.messages = s.messages)

theorem Receives.frame {u : Session} (hf : Frame u t) (h : Receives s e u) : Receives s e t := by
  obtain ⟨hr', hp', hm'⟩ := And.intro hf.reads (And.intro hf.posts hf.messages)
  cases h with
  | kept ha hr hp hm => exact .kept ha (hr'.trans hr) (hp'.trans hp) (hm'.trans hm)
  | connected he ha hr hp hm => exact .connected he ha (hr'.trans hr) (hp'.trans hp) (hm'.trans hm)
  | failed hi ha hr hp hm => exact .failed hi ha (hr'.trans hr) (hp'.trans hp) (hm'.trans hm)
  | reread hi ha hr hp hm => exact .reread hi ha (hr'.trans hr) (hp'.trans hp) (hm'.trans hm)
  | handed hi ha hr hp hm => exact .handed hi ha (hr'.trans hr) (hp'.trans hp) (hm'.trans hm)
  | responded hi ha hr hp hm => exact .responded hi ha (hr'.trans hr) (hp'.trans hp) (hm'.trans hm)

theorem Receives.onConnect (h : Connected env now p t) (he : makesConnection e) (ha : s.answer e = [])
    (hp : p.reads = s.reads ∧ p.posts = s.posts ∧ p.messages = s.messages) : Receives s e t := by
  have hs : Receives s e (p.startReading env now) := by
    have hpm : (p.startReading env now).posts = p.posts ∧ (p.startReading env now).messages = p.messages := by
      rw [startReading_eq]
      exact ⟨rfl, rfl⟩
    rcases startReading_reads env now p with hr | ⟨op, hr⟩
    · exact .kept ha (hr.trans hp.1) (hpm.1.trans hp.2.1) (hpm.2.trans hp.2.2)
    · exact .connected he ha (hp.1 ▸ hr) (hpm.1.trans hp.2.1) (hpm.2.trans hp.2.2)
  cases h with
  | quiet => exact hs
  | write _ _ h => exact .frame h.frame hs

theorem Handled.receives (h : Handled env now s e t) : Receives s e t := by
  cases h with
  | dialed | floodIgnored | floodKept | sendKept | drainKept => exact .kept rfl rfl rfl rfl
  | refused | drainClosed | stopped | connectFailed | writeFailed =>
    obtain ⟨hr, hp, hm⟩ := closeSession_reads _
    exact .kept rfl hr hp hm
  | opened _ _ h => exact .onConnect h rfl rfl ⟨rfl, rfl, rfl⟩
  | connected _ h => exact .onConnect h rfl rfl ⟨rfl, rfl, rfl⟩
  | flooded _ _ _ h => exact .frame h.frame (.kept rfl rfl rfl rfl)
  | sent _ h => exact .frame h.frame (.kept rfl rfl rfl rfl)
  | wrote _ h => exact .frame h.frame (.kept rfl rfl rfl rfl)
  | readFailed hi =>
    obtain ⟨hr, hp, hm⟩ := closeSession_reads _
    exact .failed hi rfl hr hp hm
  | reread hi => exact .reread hi rfl rfl rfl rfl
  | handed hi => exact .handed hi rfl rfl rfl rfl
  | respondedEmpty hi => exact .responded hi (by simp [answer, hi]) rfl rfl rfl
  | responded hi _ h =>
    obtain ⟨op, hr⟩ := doRead_reads env now _
    exact .responded hi (by simp [answer, hi]) (h.frame.reads ▸ hr) h.frame.posts h.frame.messages

/-! ## One reader -/

def OneReader (s : Session) : Prop := s.reads.length + s.posts.length ≤ 1

theorem length_eraseIdx_of_some {α : Type*} {l : List α} {i : Nat} {a : α} (h : l[i]? = some a) :
    (l.eraseIdx i).length + 1 = l.length := by
  have hi : i < l.length := (List.getElem?_eq_some_iff.mp h).1
  rw [List.length_eraseIdx_of_lt hi]
  omega

theorem OneReader.receives (hs : OneReader s) (hc : makesConnection e → s.reads = [] ∧ s.posts = [])
    (h : Receives s e t) : OneReader t := by
  unfold OneReader at hs ⊢
  cases h with
  | kept _ hr hp => rwa [hr, hp]
  | connected he _ hr hp =>
    obtain ⟨hr', hp'⟩ := hc he
    simp [hr, hp, hr', hp']
  | failed hi _ hr hp =>
    have := length_eraseIdx_of_some hi
    rw [hr, hp]
    omega
  | reread hi _ hr hp =>
    have := length_eraseIdx_of_some hi
    rw [hr, hp, List.length_append, List.length_singleton]
    omega
  | handed hi _ hr hp =>
    have := length_eraseIdx_of_some hi
    rw [hr, hp, List.length_append, List.length_singleton]
    omega
  | responded hi _ hr hp =>
    have := length_eraseIdx_of_some hi
    rw [hr, hp, List.length_append, List.length_singleton]
    omega

theorem Orderly.unread (hs : Orderly env s) (h1 : Once s (now, e)) (h : Handled env now s e t) (he : makesConnection e) :
    s.reads = [] ∧ s.posts = [] := by
  have hu : s.gen = 0 ∨ s.connecting := by
    cases h with
    | dialed | refused | opened => exact .inl (h1 rfl)
    | connected hi => exact .inr (hs.dialed hi).1
    | _ => cases he
  obtain ⟨hr, hp, _⟩ := hs.untouched hu
  exact ⟨hr, hp⟩

theorem oneReader_of_run {es : List (Nat × Event)} (r : Runs.Run (step env) Once (init env) es t) : OneReader t := by
  have h : (Orderly env t ∧ Attended env t) ∧ OneReader t := by
    refine r.invariant (I := fun t => (Orderly env t ∧ Attended env t) ∧ OneReader t) (fun s e u hs h1 he => ?_) ?_
    · have hh := handled_of_step he
      obtain ⟨ho, ha, _⟩ := hs.1.1.handled hs.1.2 h1 hh
      exact ⟨⟨ho, ha⟩, hs.2.receives (hs.1.1.unread h1 hh) hh.receives⟩
    · refine ⟨⟨.init env, .of_closed ?_⟩, ?_⟩
      · simp [Session.init]
      · simp [OneReader, Session.init]
  exact h.2

def readingEnv : SessionEnv where
  transport := .TCP
  config := ⟨1, 4, true, false, 1000⟩
  payloads := [⟨[0], [makeIdentity 1]⟩]

end Loadshear.Session
