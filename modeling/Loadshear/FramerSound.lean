import Loadshear.Framing
import Loadshear.ReadSound

/-!
# Messages are frames

`do_read_header`, `do_read_body` and `handle_message` share a header, a size,
two buffers and a pointer. What they hand to the message handler are the frames
of the stream that the server sends.
-/

namespace Loadshear.Session

open Framing (Verdict Cut frames givenUp)
open Runs (Run)

/-! ## The side that reads -/

structure Input where
  gen : Nat
  incomingHeader : List UInt8
  nextPayloadSize : Nat
  bodyBuffer : List UInt8
  largeBodyBuffer : List UInt8
  bodyBufferPtr : Option BodyBuffer
  reads : List ReadOp
  posts : List PostOp
  messages : List Message

def input (s : Session) : Input where
  gen := s.gen
  incomingHeader := s.incomingHeader
  nextPayloadSize := s.nextPayloadSize
  bodyBuffer := s.bodyBuffer
  largeBodyBuffer := s.largeBodyBuffer
  bodyBufferPtr := s.bodyBufferPtr
  reads := s.reads
  posts := s.posts
  messages := s.messages

variable {env : SessionEnv} {now : Nat} {s p t : Session} {e : Event}

theorem closeSession_input (s : Session) : s.closeSession.input = s.input := by
  rw [closeSession_eq]
  rfl

theorem Writes.input (h : Writes env now s t) : t.input = s.input := by
  cases h with
  | response => rfl
  | payload => rfl
  | stop =>
    rw [stopWriting_eq]
    rfl

theorem Starts.input (h : Starts env now s t) : t.input = s.input := by
  rcases h with ⟨_, rfl⟩ | ⟨_, h⟩
  · rfl
  · exact h.input

theorem Connected.input (h : Connected env now s t) : t.input = (s.startReading env now).input := by
  cases h with
  | quiet => rfl
  | write _ _ h => exact h.input

def minds : Event → Bool
  | .done (.read ..) | .done (.responded _) => false
  | e => !makesConnection e

theorem Handled.input (h : Handled env now s e t) (he : minds e) : t.input = s.input := by
  cases h with
  | floodIgnored | floodKept | sendKept | drainKept => rfl
  | flooded _ _ _ h | sent _ h => exact h.input
  | drainClosed | stopped | connectFailed | writeFailed => exact closeSession_input _
  | wrote _ h => exact h.input
  | _ => cases he

/-! ## The stream -/

/-- What the header means to the session. -/
def verdict (env : SessionEnv) (parse : List UInt8 → HeaderResult) (header : List UInt8) : Verdict :=
  let result := parse header
  if !result.ok then .skip
  else if env.config.payloadSizeLimit < result.length then .close
  else .body result.length

def bytesOf : Event → List UInt8
  | .done (.read _ (.data bytes _ _)) => bytes
  | _ => []

def received (es : List (Nat × Event)) : List UInt8 := es.flatMap fun e => bytesOf e.2

def Parsed (parse : List UInt8 → HeaderResult) (s : Session) : Nat × Event → Prop
  | (_, .done (.read i (.data bytes header _))) =>
    ∀ op ∈ s.reads[i]?, op.kind = .header → header = parse bytes
  | _ => True

instance (parse : List UInt8 → HeaderResult) (s : Session) : ∀ e, Decidable (Parsed parse s e)
  | (_, .done (.read i (.data bytes header _))) =>
    inferInstanceAs (Decidable (∀ op ∈ s.reads[i]?, op.kind = .header → header = parse bytes))
  | (_, .done (.read _ .error)) | (_, .done (.connected ..)) | (_, .done (.wrote ..)) | (_, .done (.responded _))
  | (_, .call ..) => inferInstanceAs (Decidable True)

def failsRead : Event → Bool
  | .done (.read _ .error) => true
  | _ => false

def handedOver (s : Session) : List (List UInt8 × List UInt8) := s.messages.map fun m => (m.header, m.body)

theorem received_snoc (es : List (Nat × Event)) (e : Nat × Event) : received (es ++ [e]) = received es ++ bytesOf e.2 := by
  simp [received]

/-! ## Phases of a reader -/

structure Online (s : Session) : Prop where
  started : s.gen ≠ 0
  connected : s.connecting = false

inductive Framed (env : SessionEnv) (parse : List UInt8 → HeaderResult) (es : List (Nat × Event)) (s : Session) : Prop
  | unread (hb : received es = []) (hr : s.reads = []) (hp : s.posts = []) (hm : s.messages = [])
  | header {fs : List (List UInt8 × List UInt8)} (ho : Online s)
      (hc : Cut env.config.headerSize (verdict env parse) (received es) fs)
      (hr : s.reads = [⟨s.gen, .header, env.config.headerSize⟩]) (hp : s.posts = []) (hm : s.handedOver = fs)
  | body {fs : List (List UInt8 × List UInt8)} {done header : List UInt8} {n : Nat} {buffer : BodyBuffer}
      (ho : Online s) (hc : Cut env.config.headerSize (verdict env parse) done fs)
      (hb : received es = done ++ header) (hl : header.length = env.config.headerSize)
      (hv : verdict env parse header = .body n) (hn : 0 < n) (hh : s.incomingHeader = header)
      (hs : s.nextPayloadSize = n) (ht : s.bodyBufferPtr = some buffer) (hr : s.reads = [⟨s.gen, .body buffer, n⟩])
      (hp : s.posts = []) (hm : s.handedOver = fs)
  | responding {fs : List (List UInt8 × List UInt8)} {op : PostOp} (ho : Online s)
      (hc : Cut env.config.headerSize (verdict env parse) (received es) fs) (hr : s.reads = [])
      (hp : s.posts = [op]) (hm : s.handedOver = fs)
  | closed {fs : List (List UInt8 × List UInt8)} {done header : List UInt8} (ho : Online s) (hd : s.live = false)
      (hc : Cut env.config.headerSize (verdict env parse) done fs) (hb : received es = done ++ header)
      (hl : header.length = env.config.headerSize) (hv : verdict env parse header = .close) (hr : s.reads = [])
      (hp : s.posts = []) (hm : s.handedOver = fs)
  | failed (ho : Online s) (hd : s.live = false) (hf : ∃ e ∈ es, failsRead e.2)
      (hg : givenUp env.config.headerSize (verdict env parse) (received es) = false)
      (hm : s.handedOver = frames env.config.headerSize (verdict env parse) (received es))
      (hx : ∀ x, s.handedOver <+: frames env.config.headerSize (verdict env parse) (received es ++ x))
      (hr : s.reads = []) (hp : s.posts = [])

section Framed

variable {parse : List UInt8 → HeaderResult} {es : List (Nat × Event)} (hs : 0 < env.config.headerSize)

include hs

theorem Framed.handedOver_eq (h : Framed env parse es s) :
    s.handedOver = frames env.config.headerSize (verdict env parse) (received es) := by
  cases h with
  | unread hb hr hp hm => rw [hb, Framing.frames_short (by simpa using hs), handedOver, hm, List.map_nil]
  | header ho hc hr hp hm | responding ho hc hr hp hm => rw [hm, hc.frames_eq hs]
  | @body fs done header n buffer ho hc hb hl hv hn hh hsz ht hr hp hm =>
    have hcut : frames env.config.headerSize (verdict env parse) (header ++ []) = [] :=
      Framing.frames_cut hs hl hv (by simpa using hn)
    rw [List.append_nil] at hcut
    rw [hm, hb, hc.frames_append hs, hcut, List.append_nil]
  | @closed fs done header ho hd hc hb hl hv hr hp hm =>
    have hclose : frames env.config.headerSize (verdict env parse) (header ++ []) = [] :=
      Framing.frames_close hs hl hv
    rw [List.append_nil] at hclose
    rw [hm, hb, hc.frames_append hs, hclose, List.append_nil]
  | failed ho hd hf hg hm => exact hm

theorem Framed.handedOver_prefix (h : Framed env parse es s) (x : List UInt8) :
    s.handedOver <+: frames env.config.headerSize (verdict env parse) (received es ++ x) := by
  cases h with
  | unread hb hr hp hm => simp [handedOver, hm]
  | header ho hc hr hp hm | responding ho hc hr hp hm =>
    rw [hm, hc.frames_append hs]
    exact List.prefix_append ..
  | body ho hc hb hl hv hn hh hsz ht hr hp hm =>
    rw [hm, hb, List.append_assoc, hc.frames_append hs]
    exact List.prefix_append ..
  | closed ho hd hc hb hl hv hr hp hm =>
    rw [hm, hb, List.append_assoc, hc.frames_append hs]
    exact List.prefix_append ..
  | failed ho hd hf hg hm hx => exact hx x

/-- A read that the rest of the stream cannot satisfy is behind the last frame. -/
theorem Framed.waits (h : Framed env parse es s) {op : ReadOp} (hop : op ∈ s.reads) {x : List UInt8}
    (hx : x.length < op.size) :
    s.handedOver = frames env.config.headerSize (verdict env parse) (received es ++ x) := by
  cases h with
  | unread hb hr hp hm => simp [hr] at hop
  | header ho hc hr hp hm =>
    obtain rfl : op = _ := by simpa [hr] using hop
    rw [hm, hc.frames_append hs, Framing.frames_short hx, List.append_nil]
  | body ho hc hb hl hv hn hh hsz ht hr hp hm =>
    obtain rfl : op = _ := by simpa [hr] using hop
    rw [hm, hb, List.append_assoc, hc.frames_append hs, Framing.frames_cut hs hl hv hx, List.append_nil]
  | responding ho hc hr hp hm | closed ho hd hc hb hl hv hr hp hm | failed ho hd hf hg hm hx hr hp => simp [hr] at hop

/-- A read or a response is outstanding as long as no read fails and the stream is not given up. -/
theorem Framed.ends (h : Framed env parse es s) (hb : received es ≠ []) (hf : ∀ e ∈ es, failsRead e.2 = false)
    (hr : s.reads = []) (hp : s.posts = []) : givenUp env.config.headerSize (verdict env parse) (received es) := by
  cases h with
  | unread hb' => exact absurd hb' hb
  | header ho hc hr' | body ho hc hb hl hv hn hh hsz ht hr' => simp [hr'] at hr
  | responding ho hc hr hp' => simp [hp'] at hp
  | @closed fs done header ho hd hc hb hl hv =>
    have hclose : givenUp env.config.headerSize (verdict env parse) (header ++ []) = true :=
      Framing.givenUp_close hs hl hv
    rwa [hb, hc.givenUp_append hs, ← List.append_nil header]
  | failed ho hd hf' =>
    obtain ⟨e, he, hfe⟩ := hf'
    rw [hf e he] at hfe
    cases hfe

theorem Framed.reading_not_givenUp (h : Framed env parse es s) (hr : s.reads ≠ []) :
    givenUp env.config.headerSize (verdict env parse) (received es) = false := by
  cases h with
  | header ho hc => exact hc.givenUp_eq hs
  | @body fs done header n buffer ho hc hb hl hv hn =>
    have hcut : givenUp env.config.headerSize (verdict env parse) (header ++ []) = false :=
      Framing.givenUp_cut hs hl hv hn
    rwa [hb, hc.givenUp_append hs, ← List.append_nil header]
  | unread hb hr' | responding ho hc hr' | closed ho hd hc hb hl hv hr' | failed ho hd hf hg hm hx hr' =>
    exact absurd hr' hr

theorem Framed.closes (h : Framed env parse es s)
    (hg : givenUp env.config.headerSize (verdict env parse) (received es)) (x : List UInt8) :
    s.live = false ∧ s.reads = [] ∧ s.posts = [] ∧
      s.handedOver = frames env.config.headerSize (verdict env parse) (received es ++ x) := by
  have hreading := h.reading_not_givenUp hs
  cases h with
  | unread hb hr =>
    rw [hb, Framing.givenUp_short (by simpa using hs)] at hg
    cases hg
  | header ho hc | responding ho hc =>
    rw [hc.givenUp_eq hs] at hg
    cases hg
  | body ho hc hb hl hv hn hh hsz ht hr =>
    rw [hreading (by simp [hr])] at hg
    cases hg
  | closed ho hd hc hb hl hv hr hp hm =>
    refine ⟨hd, hr, hp, ?_⟩
    rw [hm, hb, List.append_assoc, hc.frames_append hs, Framing.frames_close hs hl hv, List.append_nil]
  | failed ho hd hf hg' =>
    rw [hg'] at hg
    cases hg

end Framed

theorem Framed.oneReader {parse : List UInt8 → HeaderResult} {es : List (Nat × Event)} (h : Framed env parse es s) :
    OneReader s := by
  unfold OneReader
  cases h <;> simp_all

theorem bodyBytes_empty (h : s.nextPayloadSize = 0) : s.bodyBytes = [] := by
  unfold bodyBytes
  split <;> simp [h]

theorem handleMessage_handedOver (s : Session) (header body response : List UInt8) :
    (s.handleMessage header body response).handedOver = s.handedOver ++ [(header, body)] := by
  simp [handedOver, handleMessage]

theorem readDone_body {buffer : BodyBuffer} {bytes response : List UInt8} {result : HeaderResult}
    (hp : s.bodyBufferPtr = some buffer) (hs : s.nextPayloadSize = bytes.length)
    (h : s.readDone env now (.body buffer) (.data bytes result response) = t) :
    t.gen = s.gen ∧ t.connecting = s.connecting ∧ t.reads = s.reads ∧ t.posts = s.posts ++ [⟨s.gen, response⟩] ∧
      t.handedOver = s.handedOver ++ [(s.incomingHeader, bytes)] := by
  subst h
  simp only [readDone, sampleRead]
  cases buffer
  all_goals split
  -- `rfl` on the first four would unfold the session anew for each of them
  all_goals simp [handleMessage, handedOver, bodyBytes, storeBody, record, hp, hs]

/-! ## Steps -/

theorem Online.frame (ho : Online s) (hg : t.gen = s.gen) (hc : t.connecting = s.connecting ∨ t.connecting = false) :
    Online t where
  started := hg ▸ ho.started
  connected := hc.elim (fun h => h.trans ho.connected) id

theorem Online.close (ho : Online s) : Online s.closeSession := by
  rw [closeSession_eq]
  exact ⟨ho.started, ho.connected⟩

theorem Connected.online (h : Connected env now p t) (ho : Online p) : Online t := by
  cases h with
  | quiet =>
    rw [startReading_eq]
    exact ⟨ho.started, ho.connected⟩
  | write _ _ h =>
    have hf := h.frame
    rw [startReading_eq] at hf
    exact ho.frame hf.gen (.inl hf.connecting)

theorem Handled.online (h : Handled env now s e t) (he : e.isStart = false) (ho : Online s) : Online t := by
  cases h with
  | dialed | refused | opened => cases he
  | flooded _ _ _ h | sent _ h => exact ho.frame h.frame.gen (.inl h.frame.connecting)
  | drainClosed | stopped | writeFailed | readFailed => exact Online.close ⟨ho.started, ho.connected⟩
  | connectFailed => exact Online.close ⟨ho.started, rfl⟩
  | connected _ h => exact h.online ⟨ho.started, rfl⟩
  | wrote _ h => exact ho.frame h.frame.gen (.inl h.frame.connecting)
  | responded _ _ h => exact ⟨h.frame.gen ▸ ho.started, h.frame.connecting.trans ho.connected⟩
  | _ => exact ⟨ho.started, ho.connected⟩

section Steps

variable {parse : List UInt8 → HeaderResult} {es : List (Nat × Event)}

theorem Framed.kept (h : Framed env parse es s) (hi : t.input = s.input) (ho : Online s → Online t)
    (hl : s.live = false → t.live = false) (hb : bytesOf e = []) : Framed env parse (es ++ [(now, e)]) t := by
  have hrec : received (es ++ [(now, e)]) = received es := by rw [received_snoc, hb, List.append_nil]
  simp only [input, Input.mk.injEq] at hi
  obtain ⟨hgen, hheader, hsize, -, -, hptr, hreads, hposts, hmsg⟩ := hi
  have hover : t.handedOver = s.handedOver := by rw [handedOver, handedOver, hmsg]
  cases h with
  | unread hb hr hp hm => exact .unread (hrec.trans hb) (hreads.trans hr) (hposts.trans hp) (hmsg.trans hm)
  | header hon hc hr hp hm =>
    exact .header (ho hon) (hrec ▸ hc) (by rw [hreads, hr, hgen]) (hposts.trans hp) (hover.trans hm)
  | body hon hc hb hlen hv hn hh hsz ht hr hp hm =>
    exact .body (ho hon) hc (hrec.trans hb) hlen hv hn (hheader.trans hh) (hsize.trans hsz) (hptr.trans ht)
      (by rw [hreads, hr, hgen]) (hposts.trans hp) (hover.trans hm)
  | responding hon hc hr hp hm =>
    exact .responding (ho hon) (hrec ▸ hc) (hreads.trans hr) (hposts.trans hp) (hover.trans hm)
  | closed hon hd hc hb hlen hv hr hp hm =>
    exact .closed (ho hon) (hl hd) hc (hrec.trans hb) hlen hv (hreads.trans hr) (hposts.trans hp) (hover.trans hm)
  | failed hon hd hf hg hm hx hr hp =>
    obtain ⟨e', he', hfe⟩ := hf
    exact .failed (ho hon) (hl hd) ⟨e', List.mem_append_left _ he', hfe⟩ (hrec ▸ hg) (by rw [hover, hrec, hm])
      (fun x => by rw [hover, hrec]; exact hx x) (hreads.trans hr) (hposts.trans hp)

theorem Framed.offline (h : Framed env parse es s) (ho : ¬ Online s) :
    received es = [] ∧ s.reads = [] ∧ s.posts = [] ∧ s.messages = [] := by
  cases h with
  | unread hb hr hp hm => exact ⟨hb, hr, hp, hm⟩
  | header hon | body hon | responding hon | closed hon | failed hon => exact absurd hon ho

theorem Framed.started {o c : Bool} (h : Framed env parse es s) (ht : env.transport = .TCP) (hg : s.gen = 0)
    (hh : Handled env now s (.call .start o c) t) : Framed env parse (es ++ [(now, .call .start o c)]) t := by
  obtain ⟨hb, hr, hp, hm⟩ := h.offline fun ho => ho.started hg
  have hrec : received (es ++ [(now, .call .start o c)]) = [] := by rw [received_snoc, hb]; rfl
  cases hh with
  | dialed => exact .unread hrec hr hp hm
  | refused ht' | opened ht' =>
    rw [ht] at ht'
    cases ht'

theorem Framed.connected {i : Nat} (h : Framed env parse es s) (ho : Orderly env s) (ht : env.transport = .TCP)
    (hh : Handled env now s (.done (.connected i true)) t) :
    Framed env parse (es ++ [(now, .done (.connected i true))]) t := by
  cases hh with
  | @connected _ op m _ hi hcon =>
    have hconnecting := (ho.dialed hi).1
    obtain ⟨hb, hr, hp, hm⟩ := h.offline fun hon => by simp [hon.connected] at hconnecting
    have hrec : received (es ++ [(now, .done (.connected i true))]) = [] := by rw [received_snoc, hb]; rfl
    have hon : Online t := hcon.online ⟨fun hg => (ho.unstarted hg).2 hconnecting, rfl⟩
    have hin := hcon.input
    unfold startReading at hin
    split at hin
    · simp only [input, doRead, ht, Input.mk.injEq] at hin
      obtain ⟨hgen, -, -, -, -, -, hreads, hposts, hmsg⟩ := hin
      have hcut : Cut env.config.headerSize (verdict env parse) (received (es ++ [(now, .done (.connected i true))]))
          [] := by
        rw [hrec]
        exact .nil
      exact .header hon hcut (by rw [hreads, hr, hgen, List.nil_append]) (hposts.trans hp)
        (by rw [handedOver, hmsg, hm, List.map_nil])
    · simp only [input, Input.mk.injEq] at hin
      obtain ⟨-, -, -, -, -, -, hreads, hposts, hmsg⟩ := hin
      exact .unread hrec (hreads.trans hr) (hposts.trans hp) (hmsg.trans hm)

theorem Framed.reading {i : Nat} {op : ReadOp} (h : Framed env parse es s) (hi : s.reads[i]? = some op) :
    s.reads = [op] ∧ s.reads.eraseIdx i = [] ∧ s.posts = [] ∧ Online s := by
  cases h with
  | unread hb hr hp hm => simp [hr] at hi
  | header ho hc hr hp hm | body ho hc hb hl hv hn hh hsz ht hr hp hm =>
    rw [hr, List.getElem?_singleton] at hi
    split at hi
    · rename_i hz
      obtain rfl := Option.some.inj hi
      subst hz
      exact ⟨hr, by rw [hr]; rfl, hp, ho⟩
    · cases hi
  | responding ho hc hr hp hm | closed ho hd hc hb hl hv hr hp hm | failed ho hd hf hg hm hx hr hp => simp [hr] at hi

theorem Framed.read_step {i : Nat} {outcome : ReadOutcome} (h : Framed env parse es s)
    (hh : step env s (now, .done (.read i outcome)) = some t) :
    ∃ op : ReadOp, s.reads = [op] ∧ s.reads[i]? = some op ∧ s.posts = [] ∧ Online s ∧ op.Fits outcome ∧
      t = { s with reads := [] }.readDone env now op.kind outcome := by
  obtain ⟨op, hi, hh⟩ := Option.bind_eq_some_iff.mp hh
  obtain ⟨hr, hnil, hp, ho⟩ := h.reading hi
  split at hh
  · rename_i hfits
    rw [hnil] at hh
    exact ⟨op, hr, hi, hp, ho, hfits, (Option.some.inj hh).symm⟩
  · cases hh

theorem Framed.read_failed {i : Nat} (hs : 0 < env.config.headerSize) (h : Framed env parse es s)
    (hh : step env s (now, .done (.read i .error)) = some t) :
    Framed env parse (es ++ [(now, .done (.read i .error))]) t := by
  have heq := h.handedOver_eq hs
  have hpre := h.handedOver_prefix hs
  have hrec : received (es ++ [(now, .done (.read i .error))]) = received es := by
    rw [received_snoc]
    exact List.append_nil _
  have hreading := h.reading_not_givenUp hs
  obtain ⟨op, hr, -, hp, ho, -, rfl⟩ := h.read_step hh
  have hover : handedOver ({ s with reads := [] }.closeSession) = s.handedOver := by
    rw [closeSession_eq]
    rfl
  refine .failed (Online.close ⟨ho.started, ho.connected⟩) (closeSession_dead _) ⟨(now, .done (.read i .error)),
    List.mem_append_right _ (List.mem_singleton.mpr rfl), rfl⟩ ?_ ?_ ?_ ?_ ?_
  · rw [hrec]
    exact hreading (by simp [hr])
  · rw [hrec, ← heq]
    exact hover
  · intro x
    rw [hrec]
    exact hover ▸ hpre x
  · exact (closeSession_reads _).1
  · exact (closeSession_reads _).2.1.trans hp

theorem Framed.read_header {i : Nat} {bytes response : List UInt8} {result : HeaderResult}
    {fs : List (List UInt8 × List UInt8)} (ht : env.transport = .TCP) (ho : Online s)
    (hc : Cut env.config.headerSize (verdict env parse) (received es) fs) (hp : s.posts = []) (hm : s.handedOver = fs)
    (hl : bytes.length = env.config.headerSize) (hparse : result = parse bytes) :
    Framed env parse (es ++ [(now, .done (.read i (.data bytes result response)))])
      ({ s with reads := [] }.readDone env now .header (.data bytes result response)) := by
  have hrec : received (es ++ [(now, .done (.read i (.data bytes result response)))]) = received es ++ bytes :=
    received_snoc ..
  have hon : ∀ {t : Session}, t.gen = s.gen → t.connecting = s.connecting → Online t :=
    fun hg hcon => ho.frame hg (.inl hcon)
  subst hparse
  by_cases hok : (parse bytes).ok
  · by_cases hlim : env.config.payloadSizeLimit < (parse bytes).length
    · have hv : verdict env parse bytes = .close := by simp [verdict, hok, hlim]
      simp only [readDone, hok, hlim, Bool.not_true, Bool.false_eq_true, if_true, if_false, closeSession_eq]
      exact .closed (hon rfl rfl) rfl hc hrec hl hv rfl hp hm
    · have hv : verdict env parse bytes = .body (parse bytes).length := by simp [verdict, hok, hlim]
      simp only [readDone, hok, hlim, Bool.not_true, Bool.false_eq_true, if_false, doReadBody]
      by_cases hz : (parse bytes).length = 0
      · have hcut : Cut env.config.headerSize (verdict env parse) (received es ++ (bytes ++ [])) (fs ++ [(bytes, [])]) :=
          hc.body hl (by rw [hv, hz]; rfl)
        rw [List.append_nil, ← hrec] at hcut
        rw [if_pos hz]
        refine @Framed.responding _ _ _ _ _ ⟨s.gen, response⟩ (hon rfl rfl) hcut rfl ?_ ?_
        · simp only [handleMessage, record, hp, List.nil_append]
        · rw [handleMessage_handedOver, bodyBytes_empty hz, ← hm]
          rfl
      · have hpos : 0 < (parse bytes).length := Nat.pos_of_ne_zero hz
        rw [if_neg hz]
        split
        · exact .body (hon rfl rfl) hc hrec hl hv hpos rfl rfl rfl rfl hp hm
        · exact .body (hon rfl rfl) hc hrec hl hv hpos rfl rfl rfl rfl hp hm
  · have hv : verdict env parse bytes = .skip := by simp [verdict, hok]
    simp only [readDone, hok, Bool.not_false, if_true]
    exact .header (hon rfl rfl) (hrec ▸ hc.skip hl hv) (by simp [doRead, record, ht]) hp hm

theorem Framed.read_body {i n : Nat} {bytes response done header : List UInt8} {result : HeaderResult}
    {buffer : BodyBuffer} {fs : List (List UInt8 × List UInt8)} (ho : Online s)
    (hc : Cut env.config.headerSize (verdict env parse) done fs) (hb : received es = done ++ header)
    (hl : header.length = env.config.headerSize) (hv : verdict env parse header = .body n)
    (hh : s.incomingHeader = header) (hsz : s.nextPayloadSize = n) (hptr : s.bodyBufferPtr = some buffer)
    (hp : s.posts = []) (hm : s.handedOver = fs) (hn : bytes.length = n) :
    Framed env parse (es ++ [(now, .done (.read i (.data bytes result response)))])
      ({ s with reads := [] }.readDone env now (.body buffer) (.data bytes result response)) := by
  have hcut : Cut env.config.headerSize (verdict env parse)
      (received (es ++ [(now, .done (.read i (.data bytes result response)))])) (fs ++ [(header, bytes)]) := by
    rw [received_snoc, hb, List.append_assoc]
    exact hc.body hl (hn.symm ▸ hv)
  have hbody := @readDone_body env now { s with reads := [] } _ buffer bytes response result hptr (hsz.trans hn.symm) rfl
  obtain ⟨hgen, hcon, hreads, hposts, hover⟩ := hbody
  refine @Framed.responding _ _ _ _ _ ⟨s.gen, response⟩ (ho.frame hgen (.inl hcon)) hcut hreads ?_ ?_
  · rw [hposts, hp, List.nil_append]
  · rw [hover, ← hm, ← hh]
    rfl

theorem Framed.answered {i : Nat} {op : PostOp} (h : Framed env parse es s) (ht : env.transport = .TCP)
    (hi : s.posts[i]? = some op) (hin : p.input = { s with posts := s.posts.eraseIdx i }.input)
    (hcon : p.connecting = s.connecting) :
    Framed env parse (es ++ [(now, .done (.responded i))]) (p.doRead env now) := by
  have hrec : received (es ++ [(now, .done (.responded i))]) = received es := by
    rw [received_snoc]
    exact List.append_nil _
  simp only [input, Input.mk.injEq] at hin
  obtain ⟨hgen, -, -, -, -, -, hreads, hposts, hmsg⟩ := hin
  cases h with
  | @responding fs op' ho hc hr hp hm =>
    rw [hp, List.getElem?_singleton] at hi
    split at hi
    · rename_i hz
      subst hz
      refine .header (ho.frame hgen (.inl hcon)) (hrec ▸ hc) ?_ ?_ ?_
      · simp only [doRead, ht, hreads, hr, hgen, List.nil_append]
      · simp only [doRead, hposts, hp]
        rfl
      · simp only [handedOver, doRead, hmsg, ← hm]
    · cases hi
  | unread hb hr hp | header ho hc hr hp | body ho hc hb hl hv hn hh hsz ht hr hp | closed ho hd hc hb hl hv hr hp
  | failed ho hd hf hg hm hx hr hp => simp [hp] at hi

theorem Framed.responded {i : Nat} (h : Framed env parse es s) (ht : env.transport = .TCP)
    (hh : Handled env now s (.done (.responded i)) t) : Framed env parse (es ++ [(now, .done (.responded i))]) t := by
  cases hh with
  | respondedEmpty hi => exact h.answered ht hi rfl rfl
  | responded hi _ hst => exact h.answered ht hi hst.input hst.frame.connecting

theorem Framed.read {i : Nat} {bytes response : List UInt8} {result : HeaderResult} (ht : env.transport = .TCP)
    (h : Framed env parse es s) (hp : Parsed parse s (now, .done (.read i (.data bytes result response))))
    (hh : step env s (now, .done (.read i (.data bytes result response))) = some t) :
    Framed env parse (es ++ [(now, .done (.read i (.data bytes result response)))]) t := by
  obtain ⟨op, hreads, hi, -, -, hfits, rfl⟩ := h.read_step hh
  cases h with
  | header ho hc hr hposts hm =>
    obtain rfl : op = _ := by simpa [hreads] using hr
    exact Framed.read_header ht ho hc hposts hm (by simpa [ReadOp.Fits] using hfits) (hp _ hi rfl)
  | body ho hc hb hl hv hn hheader hsz hptr hr hposts hm =>
    obtain rfl : op = _ := by simpa [hreads] using hr
    exact Framed.read_body ho hc hb hl hv hheader hsz hptr hposts hm (by simpa [ReadOp.Fits] using hfits)
  | unread hb hr | responding ho hc hr | closed ho hd hc hb hl hv hr | failed ho hd hf hg hm hx hr => simp [hreads] at hr

theorem Framed.step (hs : 0 < env.config.headerSize) (ht : env.transport = .TCP) (h : Framed env parse es s)
    (ho : Orderly env s) (h1 : Once s (now, e)) (hp : Parsed parse s (now, e))
    (hh : Session.step env s (now, e) = some t) : Framed env parse (es ++ [(now, e)]) t := by
  have hd := handled_of_step hh
  by_cases hm : minds e
  · have hst : e.isStart = false := by
      cases e with
      | call c => cases c <;> first | rfl | cases hm
      | done c => rfl
    apply h.kept (hd.input hm) (hd.online hst) (hd.dead hst)
    cases e with
    | call c => rfl
    | done c => cases c <;> first | rfl | cases hm
  · cases e with
    | call c =>
      cases c with
      | start => exact h.started ht (h1 rfl) hd
      | flood | send | drain | stop => exact absurd rfl hm
    | done c =>
      cases c with
      | connected i ok =>
        cases ok with
        | true => exact h.connected ho ht hd
        | false => exact absurd rfl hm
      | wrote i sent => exact absurd rfl hm
      | read i outcome =>
        cases outcome with
        | error => exact h.read_failed hs hh
        | data bytes result response => exact h.read ht hp hh
      | responded i => exact h.responded ht hd

end Steps

/-! ## Runs -/

theorem framed_of_run {parse : List UInt8 → HeaderResult} {es : List (Nat × Event)} (hs : 0 < env.config.headerSize)
    (ht : env.transport = .TCP)
    (r : Run (step env) (fun s e => Once s e ∧ Parsed parse s e) (init env) es t) : Framed env parse es t := by
  induction r with
  | nil => exact .unread rfl rfl rfl rfl
  | @snoc es s t e r hg he ih =>
    obtain ⟨now, e⟩ := e
    obtain ⟨ho, -⟩ := orderly_of_run (r.mono fun _ _ h => h.1)
    exact ih.step hs ht ho hg.1 hg.2 he

/-- What a session does with a stream of which it has read the front. -/
structure Reassembles (env : SessionEnv) (parse : List UInt8 → HeaderResult) (stream : List UInt8)
    (es : List (Nat × Event)) (s : Session) : Prop where
  frames : s.handedOver = frames env.config.headerSize (verdict env parse) (received es)
  inOrder : s.handedOver <+: Framing.frames env.config.headerSize (verdict env parse) stream
  /-- What is left of the stream cannot complete the read that is outstanding. -/
  complete : ∀ op ∈ s.reads, stream.length < (received es).length + op.size →
    s.handedOver = Framing.frames env.config.headerSize (verdict env parse) stream
  closes : givenUp env.config.headerSize (verdict env parse) (received es) → s.live = false ∧ s.reads = [] ∧
    s.posts = [] ∧ s.handedOver = Framing.frames env.config.headerSize (verdict env parse) stream
  continues : received es ≠ [] → (∀ e ∈ es, failsRead e.2 = false) → s.reads = [] → s.posts = [] →
    givenUp env.config.headerSize (verdict env parse) (received es)
  oneRead : s.reads.length ≤ 1

/-- The message handler is given the frames of the stream. -/
theorem messages_are_frames {parse : List UInt8 → HeaderResult} {stream : List UInt8} {es : List (Nat × Event)}
    (hs : 0 < env.config.headerSize) (ht : env.transport = .TCP)
    (r : Run (step env) (fun s e => Once s e ∧ Parsed parse s e) (init env) es t) (hr : received es <+: stream) :
    Reassembles env parse stream es t := by
  have h := framed_of_run hs ht r
  obtain ⟨rest, rfl⟩ := hr
  refine ⟨h.handedOver_eq hs, h.handedOver_prefix hs rest, fun op hop hlen => ?_, fun hg => ?_, h.ends hs, ?_⟩
  · rw [List.length_append] at hlen
    exact h.waits hs hop (by omega)
  · exact h.closes hs hg rest
  · have hone : t.reads.length + t.posts.length ≤ 1 := h.oneReader
    omega

def parseByte (header : List UInt8) : HeaderResult := ⟨(header.headD 0).toNat, header ≠ [255]⟩

def overlongRun : List (Nat × Event) :=
  [(0, .call .start true true), (1, .done (.connected 0 true)), (2, .done (.read 0 (.data [2] ⟨2, true⟩ []))),
    (3, .done (.read 0 (.data [10, 11] ⟨0, true⟩ [5]))), (4, .done (.responded 0)), (5, .call .flood true true),
    (6, .done (.read 0 (.data [0] ⟨0, true⟩ []))), (7, .done (.wrote 0 (some 1))), (8, .done (.responded 0)),
    (9, .done (.read 0 (.data [255] ⟨255, false⟩ []))), (10, .done (.read 0 (.data [9] ⟨9, true⟩ [])))]

/-- Two messages, a header that is skipped and one that closes the session. -/
theorem messages_are_frames_overlong : ∃ t, Reassembles readingEnv parseByte [2, 10, 11, 0, 255, 9, 7] overlongRun t ∧
    t.handedOver = [([2], [10, 11]), ([0], [])] ∧ t.live = false :=
  ⟨_, messages_are_frames (by decide) rfl (Runs.run_of_isSome (by decide)) (by decide), by decide⟩

end Loadshear.Session
