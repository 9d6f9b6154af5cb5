import Loadshear.FramerSound
import Loadshear.IsolationSound
import Loadshear.MessageHandlers
import Loadshear.SDKModulesSound

/-!
# Sessions that are served

A message handler is shared by the sessions of a shard, and keeps a state from
one call to the next. Where it acts like two functions all the same (`ActsLike`),
each session that is connected once answers the frames of what it received, one
by one, as if it had the handler to itself.
-/

namespace Loadshear

open Runs (Run)
open Framing (frames)

variable {σ : Type}

namespace Session

variable {env : SessionEnv} {parse : List UInt8 → HeaderResult} {answer : List UInt8 → List UInt8 → List UInt8}
  {s t : Session} {e : Nat × Event} {es : List (Nat × Event)}

/-! ## Answers -/

/-- The header is parsed by `parse`, and what is handed over is answered by `answer`. -/
structure Answers (env : SessionEnv) (parse : List UInt8 → HeaderResult)
    (answer : List UInt8 → List UInt8 → List UInt8) (s : Session) (e : Nat × Event) : Prop where
  parsed : Parsed parse s e
  replied : ∀ t, step env s e = some t → ∀ m ∈ t.messages.drop s.messages.length, m.response = answer m.header m.body

theorem messages_of_step (h : step env s e = some t) :
    t.messages = s.messages ++ t.messages.drop s.messages.length := by
  have hpre : s.messages <+: t.messages := by
    cases (handled_of_step h).receives with
    | kept ha hr hp hm => rw [hm]
    | connected he ha hr hp hm => rw [hm]
    | failed hi ha hr hp hm => rw [hm]
    | reread hi ha hr hp hm => rw [hm]
    | handed hi ha hr hp hm => exact hm ▸ List.prefix_append ..
    | responded hi ha hr hp hm => rw [hm]
  obtain ⟨new, hnew⟩ := hpre
  rw [← hnew, List.drop_left]

theorem replied_of_run {G : Session → Nat × Event → Prop} (hG : ∀ s e, G s e → Answers env parse answer s e)
    (r : Run (step env) G (init env) es t) : ∀ m ∈ t.messages, m.response = answer m.header m.body := by
  refine r.invariant (I := fun t => ∀ m ∈ t.messages, m.response = answer m.header m.body)
    (fun s e t hs hg he m hm => ?_) (by simp [Session.init])
  rw [messages_of_step he] at hm
  exact (List.mem_append.mp hm).elim (hs m) ((hG s e hg).replied t he m)

/-- The answers to the frames, empty ones apart, are on the wire, in the queue
or on their way to it. -/
theorem answers_frames (hs : 0 < env.config.headerSize) (ht : env.transport = .TCP)
    (r : Run (step env) (fun s e => Once s e ∧ Answers env parse answer s e) (init env) es t) :
    t.answered ++ t.posted = ((frames env.config.headerSize (verdict env parse) (received es)).map fun f =>
      answer f.1 f.2).filter (· ≠ []) := by
  have hframed := framed_of_run hs ht (r.mono fun _ _ h => ⟨h.1, h.2.parsed⟩)
  rw [conserved_of_run (r.mono fun _ _ h => h.1), ← hframed.handedOver_eq hs, produced, handedOver, List.map_map]
  congr 1
  exact List.map_congr_left (replied_of_run (fun _ _ h => h.2) r)

theorem Framed.header_size (h : Framed env parse es s) {op : ReadOp} (hop : op ∈ s.reads) (hk : op.kind = .header) :
    op.size = env.config.headerSize := by
  cases h with
  | header ho hc hr =>
    obtain rfl : op = _ := by simpa [hr] using hop
    rfl
  | body ho hc hb hl hv hn hh hsz ht hr =>
    obtain rfl : op = _ := by simpa [hr] using hop
    cases hk
  | unread hb hr | responding ho hc hr | closed ho hd hc hb hl hv hr | failed ho hd hf hg hm hx hr => simp [hr] at hop

/-! ## Sessions that are started once -/

def Single (s : Session) (e : Nat × Event) : Prop := s.gen + e.2.isStart.toNat ≤ 1

theorem Single.once (h : Single s e) : Once s e := by
  intro he
  unfold Single at h
  rw [he] at h
  exact Nat.le_zero.mp (Nat.le_of_succ_le_succ h)

theorem single_run {G : Session → Nat × Event → Prop}
    (r : Run (step env) (fun s e => Single s e → G s e) (init env) es t) (h : t.gen ≤ 1) :
    Run (step env) (fun s e => Once s e ∧ G s e) (init env) es t := by
  induction r with
  | nil => exact .nil
  | @snoc es s u e r hg he ih =>
    have hsingle : Single s e := by
      rwa [(handled_of_step he).gen] at h
    exact (ih (Nat.le_trans (Nat.le_add_right _ _) hsingle)).snoc ⟨hsingle.once, hg hsingle⟩ he

end Session

open Session (Answers Single Parsed verdict)

/-! ## Handlers that act like functions -/

/-- In the states `I`, which it does not leave, the handler parses the headers
of a session as `parse` does, and answers its messages as `answer` does. -/
structure ActsLike (env : SessionEnv) (m : MessageHandler σ) (I : σ → Prop) (parse : List UInt8 → HeaderResult)
    (answer : List UInt8 → List UInt8 → List UInt8) : Prop where
  parseHeader : ∀ h bytes, I h → I (m.parseHeader bytes h).2 ∧
    (bytes.length = env.config.headerSize → (m.parseHeader bytes h).1 = parse bytes)
  parseMessage : ∀ h header body, I h → I (m.parseMessage header body h).2 ∧
    (header.length = env.config.headerSize → verdict env parse header = .body body.length →
      (m.parseMessage header body h).1 = [answer header body])

section Serving

variable {env : SessionEnv} {m : MessageHandler σ} {I : σ → Prop} {parse : List UInt8 → HeaderResult}
  {answer : List UInt8 → List UInt8 → List UInt8} {s t : Session} {h h' : σ}

theorem ActsLike.hear (hv : ActsLike env m I parse answer) (hi : I h) {op : ReadOp} {bytes : List UInt8}
    {header : HeaderResult} (hh : m.hear op bytes header h = some h') :
    I h' ∧ (op.kind = .header → bytes.length = env.config.headerSize → header = parse bytes) := by
  unfold MessageHandler.hear at hh
  obtain ⟨hkeep, hparse⟩ := hv.parseHeader h bytes hi
  by_cases hk : op.kind = .header
  · rw [if_pos hk] at hh
    dsimp only at hh
    split at hh
    · rename_i heq
      obtain rfl := Option.some.inj hh
      exact ⟨hkeep, fun _ hl => heq.symm.trans (hparse hl)⟩
    · cases hh
  · rw [if_neg hk] at hh
    obtain rfl := Option.some.inj hh
    exact ⟨hi, fun hk' => absurd hk' hk⟩

theorem ActsLike.reply (hv : ActsLike env m I parse answer) : ∀ {messages : List Message} {h : σ}, I h →
    m.reply messages h = some h' → I h' ∧ ∀ message ∈ messages, message.header.length = env.config.headerSize →
      verdict env parse message.header = .body message.body.length →
      message.response = answer message.header message.body
  | [], h, hi, hh => by
    obtain rfl := Option.some.inj hh
    exact ⟨hi, by simp⟩
  | message :: rest, h, hi, hh => by
    obtain ⟨hkeep, hanswer⟩ := hv.parseMessage h message.header message.body hi
    unfold MessageHandler.reply at hh
    dsimp only at hh
    split at hh
    · rename_i heq
      obtain ⟨hi', hrest⟩ := hv.reply hkeep hh
      refine ⟨hi', List.forall_mem_cons.mpr ⟨fun hl hb => ?_, hrest⟩⟩
      exact (List.singleton_inj.mp (heq.symm.trans (hanswer hl hb)))
    · cases hh

theorem ActsLike.keeps (hv : ActsLike env m I parse answer) (hi : I h) {e : Loadshear.Event}
    (hh : m.serve s t e h = some h') : I h' := by
  unfold MessageHandler.serve at hh
  split at hh
  · obtain ⟨op, hop, hh⟩ := Option.bind_eq_some_iff.mp hh
    obtain ⟨h₁, hhear, hh⟩ := Option.bind_eq_some_iff.mp hh
    exact (hv.reply (hv.hear hi hhear).1 hh).1
  · obtain rfl := Option.some.inj hh
    exact hi

/-- A handler's word is that of the two functions, where the session reads
headers of the right size and hands frames over. -/
theorem ActsLike.answers (hv : ActsLike env m I parse answer) (hi : I h) (hs : 0 < env.config.headerSize)
    (ht : env.transport = .TCP) {es : List (Nat × Loadshear.Event)}
    (r : Run (Session.step env) (fun s e => Session.Once s e ∧ Answers env parse answer s e) (Session.init env) es s)
    {now : Nat} {e : Loadshear.Event} (h1 : Session.Once s (now, e)) (he : Session.step env s (now, e) = some t)
    (hh : m.serve s t e h = some h') : Answers env parse answer s (now, e) := by
  have hframed := Session.framed_of_run hs ht (r.mono fun _ _ h => ⟨h.1, h.2.parsed⟩)
  obtain ⟨ho, -⟩ := Session.orderly_of_run (r.mono fun _ _ h => h.1)
  -- frames have headers of the right size, and a frame is all that a session hands over
  have hshape : Parsed parse s (now, e) → ∀ message ∈ t.messages, message.header.length = env.config.headerSize ∧
      verdict env parse message.header = .body message.body.length := by
    intro hp message hm
    have hmem : (message.header, message.body) ∈ t.handedOver :=
      List.mem_map_of_mem (f := fun m : Message => (m.header, m.body)) hm
    rw [(hframed.step hs ht ho h1 hp he).handedOver_eq hs] at hmem
    exact Framing.mem_frames hmem
  have hquiet : Parsed parse s (now, e) → Session.bytesOf e = [] → t.messages.drop s.messages.length = [] := by
    intro hp hb
    have hsame : t.handedOver = s.handedOver := by
      rw [(hframed.step hs ht ho h1 hp he).handedOver_eq hs, hframed.handedOver_eq hs, Session.received_snoc]
      rw [hb, List.append_nil]
    have hlen := congrArg List.length hsame
    rw [Session.handedOver, Session.handedOver, List.length_map, List.length_map] at hlen
    exact List.drop_eq_nil_of_le (Nat.le_of_eq hlen)
  have hother : Parsed parse s (now, e) → Session.bytesOf e = [] → Answers env parse answer s (now, e) := by
    refine fun hp hb => ⟨hp, fun t' ht' message hm => ?_⟩
    obtain rfl := Option.some.inj (he.symm.trans ht')
    rw [hquiet hp hb] at hm
    cases hm
  unfold MessageHandler.serve at hh
  split at hh
  · rename_i i bytes header response
    obtain ⟨op, hop, hh⟩ := Option.bind_eq_some_iff.mp hh
    obtain ⟨h₁, hhear, hh⟩ := Option.bind_eq_some_iff.mp hh
    obtain ⟨hi₁, hheader⟩ := hv.hear hi hhear
    obtain ⟨op', hreads, hop', -, -, hfits, -⟩ := hframed.read_step he
    obtain rfl := Option.some.inj (hop.symm.trans hop')
    have hp : Parsed parse s (now, .done (.read i (.data bytes header response))) := by
      intro op' hop' hk
      obtain rfl := Option.some.inj (hop.symm.trans hop')
      have hfits : bytes.length = op.size := by simpa [ReadOp.Fits, hk] using hfits
      exact hheader hk (hfits.trans (hframed.header_size (List.mem_of_getElem? hop) hk))
    refine ⟨hp, fun t' ht' message hm => ?_⟩
    obtain rfl := Option.some.inj (he.symm.trans ht')
    obtain ⟨hl, hb⟩ := hshape hp message (List.mem_of_mem_drop hm)
    exact (hv.reply hi₁ hh).2 message hm hl hb
  · rename_i hne
    have hdata : ∀ i bytes header response, e ≠ .done (.read i (.data bytes header response)) := hne
    obtain ⟨hp, hb⟩ : Parsed parse s (now, e) ∧ Session.bytesOf e = [] := by
      rcases e with c | (_ | _ | ⟨i, _ | _⟩ | _)
      all_goals first | exact ⟨trivial, rfl⟩ | exact absurd rfl (hdata _ _ _ _)
    exact hother hp hb

end Serving

/-! ## The handlers there are -/

theorem nop_actsLike (env : SessionEnv) :
    ActsLike env NOPMessageHandler (fun _ => True) (fun _ => ⟨0, true⟩) fun _ _ => [] where
  parseHeader _ _ _ := ⟨trivial, fun _ => rfl⟩
  parseMessage _ _ _ _ := ⟨trivial, fun _ _ => rfl⟩

namespace WASM

variable {guest : Guest UInt32} {heapBase : UInt32} {size : Nat} {header : List UInt8 → UInt32}
  {body : List UInt8 → List UInt8}

def sizeOf (header : List UInt8 → UInt32) (bytes : List UInt8) : HeaderResult :=
  if (header bytes).toInt32 < 0 then ⟨0, false⟩ else ⟨(header bytes).toNat, true⟩

theorem InPlace.actsLike (env : SessionEnv) (hg : InPlace guest heapBase header body) (hsize : size ≤ 2 ^ 32)
    (hhead : heapBase.toNat + env.config.headerSize ≤ size)
    (hroom : ∀ front bytes : List UInt8, front.length = env.config.headerSize →
      verdict env (sizeOf header) front = .body bytes.length → heapBase.toNat + (front ++ bytes).length ≤ size) :
    ActsLike env (WASMMessageHandler guest) (Idle heapBase size) (sizeOf header) fun front bytes =>
      body (front ++ bytes) where
  parseHeader g bytes hi := by
    obtain ⟨hidle, a, ha, hparsed⟩ := parseHeaderFunc_ends (s := .start g) hg hi bytes
    have hrun : (WASMMessageHandler guest).parseHeader bytes g =
        (a, ((parseHeaderFunc guest bytes).run.run (.start g)).2.guest) := by
      simp only [WASMMessageHandler, ha]
    refine ⟨hrun ▸ hidle, fun hlen => ?_⟩
    have hpos := Nat.pos_of_ne_zero fun hz => hg.base (UInt32.toNat_inj.mp hz)
    rw [hrun, hparsed (by omega), parsed, sizeOf]
    have hfits : ¬ size < heapBase.toNat + bytes.length := by omega
    simp only [hfits, false_or]
  parseMessage g front bytes hi := by
    obtain ⟨hidle, packet, hpacket, hanswered⟩ := parseMessage_ends (s := .start g) hg hi rfl front bytes
    refine ⟨hidle, fun hlen hbody => ?_⟩
    have hfits := hroom front bytes hlen hbody
    have hpos := Nat.pos_of_ne_zero fun hz => hg.base (UInt32.toNat_inj.mp hz)
    have hans : packet = body (front ++ bytes) := by
      rw [hanswered (by omega), answered, if_neg (Nat.not_lt_of_le hfits)]
    rw [← hans]
    exact hpacket

theorem Heartbeat.answer_frame {front bytes : List UInt8} (h : front.length = 5) :
    answer (front ++ bytes) = if isPing front then pong else [] := by
  obtain ⟨b, rest, rfl⟩ := List.exists_cons_of_length_eq_add_one h
  have hlen : 5 ≤ (b :: rest ++ bytes).length := by
    rw [List.length_append, h]
    exact Nat.le_add_right _ _
  simp only [answer, hlen, true_and]
  rfl

/-- A ping for a pong. -/
theorem Heartbeat.pongs : ∀ {fs : List (List UInt8 × List UInt8)}, (∀ f ∈ fs, f.1.length = 5) →
    (fs.map fun f => answer (f.1 ++ f.2)).filter (· ≠ []) = List.replicate (fs.countP fun f => isPing f.1) pong
  | [], _ => rfl
  | f :: fs, h => by
    obtain ⟨hf, hfs⟩ := List.forall_mem_cons.mp h
    rw [List.map_cons, List.filter_cons, pongs hfs, answer_frame hf, List.countP_cons]
    cases hp : isPing f.1 with
    | true => simp [pong, List.replicate_succ]
    | false => simp

end WASM

theorem length_le_of_verdict {env : SessionEnv} {parse : List UInt8 → HeaderResult} {header : List UInt8} {n : Nat}
    (h : verdict env parse header = .body n) : n ≤ env.config.payloadSizeLimit := by
  unfold verdict at h
  dsimp only at h
  split at h
  · cases h
  · split at h
    · cases h
    · rename_i hle
      obtain rfl := Framing.Verdict.body.inj h
      exact Nat.le_of_not_lt hle

/-! ## Shards with their handlers -/

namespace Served

open Orchestrator (Handles Opens slotAt number)

variable {env : OrchestratorEnv} {m : MessageHandler σ} {I : σ → Prop} {parse : List UInt8 → HeaderResult}
  {answer : List UInt8 → List UInt8 → List UInt8} {n : Nat} {g : σ} {x : Served σ} {es : List Orchestrator.Event}

def Told (env : SessionEnv) (parse : List UInt8 → HeaderResult) (answer : List UInt8 → List UInt8 → List UInt8) :
    Nat → Nat → Session → Nat × Loadshear.Event → Prop := fun _ _ s e => Single s e → Answers env parse answer s e

/-- Whatever the other sessions of the shard make of the handler, it serves each
session that was started once. -/
theorem told_of_run (hv : ActsLike env.session m I parse answer) (hs : 0 < env.session.config.headerSize)
    (ht : env.session.transport = .TCP) (ho : Opens env.actions n) (hi : I g)
    (r : Run (step env m) Dispatcher.free (init n g) es x) :
    Run (Orchestrator.step env) (Handles True (Told env.session parse answer)) (.init n) es x.orchestrator ∧
      ∀ h ∈ x.handlers, I h := by
  induction r with
  | nil => exact ⟨.nil, fun h hm => List.eq_of_mem_replicate hm ▸ hi⟩
  | @snoc es x y e r _ he ih =>
    obtain ⟨r', hall⟩ := ih
    obtain ⟨o, ho', he⟩ := Option.bind_eq_some_iff.mp he
    cases e with
    | handler k event =>
      obtain ⟨h', hserve, he⟩ := Option.bind_eq_some_iff.mp he
      obtain rfl := Option.some.inj he
      obtain ⟨h, hh, hserve⟩ := Option.bind_eq_some_iff.mp hserve
      obtain ⟨s, hk, hserve⟩ := Option.bind_eq_some_iff.mp hserve
      obtain ⟨turn, hturn, hserve⟩ := Option.bind_eq_some_iff.mp hserve
      obtain ⟨session, hstep, hserve⟩ := Option.bind_eq_some_iff.mp hserve
      have hih := hall h (List.mem_of_getElem? hh)
      refine ⟨r'.snoc ?_ ho', fun h₁ hm => ?_⟩
      · intro s' hk' turn' hturn' hsingle
        obtain rfl := Option.some.inj (hk.symm.trans hk')
        obtain rfl := Option.some.inj (hturn.symm.trans hturn')
        have hslot : x.orchestrator.slotAt (k, turn.i) = some turn.slot :=
          Orchestrator.slotAt_eq_some.mpr ⟨s, hk, (Pool.turn_spec hturn).1⟩
        obtain ⟨-, -, rs, -⟩ := (Orchestrator.feeds_of_run ho r').slotAt ho hslot
        have honce := Session.single_run rs (Nat.le_trans (Nat.le_add_right _ _) hsingle)
        exact hv.answers hih hs ht honce hsingle.once hstep hserve
      · rcases List.mem_or_eq_of_mem_set hm with hm | rfl
        · exact hall h₁ hm
        · exact hv.keeps hih hserve
    | _ =>
      obtain rfl := Option.some.inj he
      exact ⟨r'.snoc trivial ho', hall⟩

/-- The bytes that the reads in a run give to the session at a place. -/
def receivedAt (place : Nat × Nat) (es : List Orchestrator.Event) : List UInt8 :=
  es.flatMap fun
    | .handler k (.done i _ c) => if (k, i) = place then Session.bytesOf (.done c) else []
    | _ => []

theorem received_eventsOf {o o' : Orchestrator} {e : Orchestrator.Event} (he : Orchestrator.step env o e = some o')
    (place : Nat × Nat) : Session.received (o.eventsOf place e) = receivedAt place [e] := by
  cases Orchestrator.stepped_of_step he with
  | @handled k event s pool hk hp =>
    obtain ⟨t, session, ht, -, -⟩ := Pool.handle_spec hp
    have hevents : o.eventsOf place (.handler k event) =
        if (k, t.i) = place then [(t.now, t.event)] else [] := by
      obtain ⟨k', i⟩ := place
      by_cases hk' : k = k'
      · subst hk'
        rw [Orchestrator.eventsOf_handler hk, Pool.eventsOf, ht]
        by_cases hi : t.i = i <;> simp [hi]
      · simp [Orchestrator.eventsOf, hk']
    rw [hevents]
    cases event with
    | call i now opened connected =>
      have hbytes : Session.bytesOf t.event = [] := by
        obtain ⟨c, _, _, hc, -⟩ | ⟨c, hc, -⟩ := (Pool.turn_spec ht).2
        · rw [hc]
          rfl
        · obtain ⟨slot, -, ht⟩ := Option.bind_eq_some_iff.mp ht
          split at ht
          · cases ht
          · obtain rfl := Option.some.inj ht
            cases hc
      split <;> simp [Session.received, receivedAt, hbytes]
    | done i now c =>
      obtain ⟨slot, -, ht⟩ := Option.bind_eq_some_iff.mp ht
      obtain rfl := Option.some.inj ht
      split <;> simp_all [Session.received, receivedAt]
  | _ => rfl

/-- A session receives what the reads in the run give it. -/
theorem received_historyOf {G : Orchestrator → Orchestrator.Event → Prop} {o o' : Orchestrator}
    (r : Run (Orchestrator.step env) G o es o') (place : Nat × Nat) :
    Session.received (Orchestrator.historyOf env place o es) = receivedAt place es := by
  induction r with
  | nil => rfl
  | @snoc es t u e r _ he ih =>
    have hlast := received_eventsOf he place
    rw [Orchestrator.historyOf, r.shown_snoc, Session.received, List.flatMap_append, receivedAt, List.flatMap_append]
    exact congrArg₂ (· ++ ·) ih hlast

variable {netEnv : Env} {script : DSLData} {plan : ExecutionPlan}

/-- Each session that the script connects once answers the frames of what it
received, in their order. -/
theorem answers_of_run (h : Accepted netEnv script plan) (hc : OpensWithCreate script.orchestrator.actions)
    (hv : ActsLike (plan.orchestratorEnv script.settings).session m I parse answer) (hi : I g)
    (hs : 0 < script.settings.headerSize.toNat) (ht : script.settings.sessionProtocol = "TCP")
    (r : Run (step (plan.orchestratorEnv script.settings) m) Dispatcher.free (init plan.shardCount g) es x)
    {p : Nat × Nat} {slot : Slot} (hp : x.orchestrator.slotAt p = some slot)
    (h1 : (scriptCalls (number x.orchestrator.shardRanges p) script.orchestrator.actions).count .start ≤ 1) :
    slot.session.answered ++ slot.session.posted =
      ((frames script.settings.headerSize.toNat (verdict (plan.orchestratorEnv script.settings).session parse)
        (receivedAt p es)).map fun f => answer f.1 f.2).filter (· ≠ []) := by
  have ho := h.opens hc
  obtain ⟨memory, hplan⟩ := h.planned
  obtain ⟨table, _, _, hd, _⟩ := generatePlan_spec hplan
  have hsize : (plan.orchestratorEnv script.settings).session.config.headerSize = script.settings.headerSize.toNat :=
    congrArg SessionConfig.headerSize (generatePlan_config hplan)
  have htcp : (plan.orchestratorEnv script.settings).session.transport = .TCP := if_pos ht
  rw [← hsize] at hs ⊢
  obtain ⟨r', -⟩ := told_of_run hv hs htcp ho hi r
  obtain ⟨-, -, rs, hcalls⟩ := (Orchestrator.feeds_of_run ho r').slotAt ho hp
  have hgen : slot.session.gen ≤ 1 := by
    rw [Session.gen_of_run rs]
    refine Nat.le_trans (List.Sublist.count_le _ ?_) h1
    rw [scriptCalls, ← callsOn_eq hd]
    exact (List.sublist_append_left _ _).trans hcalls.sublist
  exact received_historyOf r' p ▸ Session.answers_frames hs htcp (Session.single_run rs hgen)

/-! ## A script that reads -/

def pingEnv : Env := .ofFiles [("p.bin", [0]), ("ping.wasm", [0])]

def pingScript : DSLData where
  settings :=
    { identifier := "s", sessionProtocol := "TCP", headerSize := 5, bodyMax := 8, read := true,
      repeat' := false, packetSampleRate := 100, shards := 1, port := 80, handlerValue := "ping.wasm",
      endpoints := ["host"], packetIdentifiers := [("p", "p.bin")] }
  orchestrator := { settingsIdentifier := "s", actions := [createAction 2, rangedAction .CONNECT 0 2] }

def pingText : List Char :=
  ["SETTINGS", "s", "\x7b", "SESSION", "=", "\"TCP\"", "PORT", "=", "80", "HEADERSIZE", "=", "5", "BODYMAX", "=", "8",
    "READ", "=", "\"true\"", "HANDLER", "=", "\"ping.wasm\"", "SHARDS", "=", "1", "ENDPOINTS", "\x7b", "\"host\"",
    "\x7d", "PACKETS", "\x7b", "p", ":", "\"p.bin\"", "\x7d", "\x7d", "ORCHESTRATOR", "s", "\x7b", "CREATE", "2",
    "CONNECT", "0:2", "\x7d"].flatMap fun word => word.toList ++ [' ']

theorem ping_accepted : interpretText pingEnv .zero pingText = .ok pingScript := by decide +kernel

abbrev pingRunOf (m : MessageHandler σ) (g : σ) (es : List Orchestrator.Event) (P : Served σ → Prop)
    [∀ x, Decidable (P x)] : Bool :=
  planRun pingEnv pingScript (init ·.shardCount g) (fun plan => step (plan.orchestratorEnv pingScript.settings) m)
    (fun _ => Dispatcher.free) es (fun _ => P)

def connectedRun : List Orchestrator.Event :=
  [.dispatch, .dispatch, .task 0, .task 0, .handler 0 (.call 0 0 true true), .handler 0 (.call 1 1 true true),
    .handler 0 (.done 0 2 (.connected 0 true)), .handler 0 (.done 1 3 (.connected 0 true))]

/-! ## The modules of the SDK -/

section Modules

variable {heapBase : UInt32} {memory : List UInt8}

/-- Of the bytes that the run gives to a session, the heartbeat module answers each
ping, once and in order, and nothing else. -/
theorem pings_answered (h : Accepted netEnv script plan) (hc : OpensWithCreate script.orchestrator.actions)
    (hs : script.settings.headerSize = 5) (ht : script.settings.sessionProtocol = "TCP") (h0 : heapBase ≠ 0)
    (hm : memory.length ≤ 2 ^ 32) (hroom : heapBase.toNat + 5 + script.settings.bodyMax.toNat ≤ memory.length)
    {x : Served (WASM.Instance UInt32)}
    (r : Run (step (plan.orchestratorEnv script.settings) (WASMMessageHandler (WASM.Heartbeat.guest heapBase)))
      Dispatcher.free (init plan.shardCount ⟨memory, 0⟩) es x)
    {p : Nat × Nat} {slot : Slot} (hp : x.orchestrator.slotAt p = some slot)
    (h1 : (scriptCalls (number x.orchestrator.shardRanges p) script.orchestrator.actions).count .start ≤ 1) :
    slot.session.answered ++ slot.session.posted =
      List.replicate ((frames 5 (verdict (plan.orchestratorEnv script.settings).session
        (WASM.sizeOf WASM.Heartbeat.payloadLength)) (receivedAt p es)).countP fun f =>
          WASM.Heartbeat.isPing f.1) WASM.Heartbeat.pong := by
  obtain ⟨_, hplan⟩ := h.planned
  have hconfig : (plan.orchestratorEnv script.settings).session.config = script.settings.sessionConfig :=
    generatePlan_config hplan
  have hsize : (plan.orchestratorEnv script.settings).session.config.headerSize = 5 := by
    rw [hconfig]
    exact congrArg UInt32.toNat hs
  have hlimit : (plan.orchestratorEnv script.settings).session.config.payloadSizeLimit = script.settings.bodyMax.toNat :=
    congrArg SessionConfig.payloadSizeLimit hconfig
  have hv := WASM.InPlace.actsLike (plan.orchestratorEnv script.settings).session (WASM.Heartbeat.inPlace h0) hm
    (by rw [hsize]; omega) fun front bytes hl hb => by
      have hle := length_le_of_verdict hb
      rw [hlimit] at hle
      rw [List.length_append, hl, hsize]
      omega
  refine (answers_of_run h hc hv ⟨rfl, .inl rfl⟩ (by rw [hs]; decide) ht r hp h1).trans ?_
  rw [hs]
  exact WASM.Heartbeat.pongs fun f hf => (Framing.mem_frames hf).1

def pingRun : List Orchestrator.Event :=
  connectedRun ++ [.handler 0 (.done 0 4 (.read 0 (.data [2, 1, 0, 0, 0] ⟨1, true⟩ []))),
    .handler 0 (.done 1 5 (.read 0 (.data [0, 0, 0, 0, 0] ⟨0, true⟩ []))),
    .handler 0 (.done 0 6 (.read 0 (.data [9] ⟨0, true⟩ WASM.Heartbeat.pong))), .handler 0 (.done 1 7 (.responded 0)),
    .handler 0 (.done 0 8 (.responded 0))]

theorem pings_answered_pair : ∃ (plan : ExecutionPlan) (x : Served (WASM.Instance UInt32)) (slot : Slot),
    Run (step (plan.orchestratorEnv pingScript.settings) (WASMMessageHandler (WASM.Heartbeat.guest 16)))
        Dispatcher.free (init plan.shardCount ⟨List.replicate 32 0, 0⟩) pingRun x ∧
      x.orchestrator.slotAt (0, 0) = some slot ∧ slot.session.begun = [.response WASM.Heartbeat.pong] ∧
      slot.session.answered ++ slot.session.posted =
        List.replicate ((frames 5 (verdict (plan.orchestratorEnv pingScript.settings).session
          (WASM.sizeOf WASM.Heartbeat.payloadLength)) [2, 1, 0, 0, 0, 9]).countP fun f =>
            WASM.Heartbeat.isPing f.1) WASM.Heartbeat.pong := by
  have h : pingRunOf (WASMMessageHandler (WASM.Heartbeat.guest 16)) ⟨List.replicate 32 0, 0⟩ pingRun (fun x =>
      (scriptCalls (number x.orchestrator.shardRanges (0, 0)) pingScript.orchestrator.actions).count .start ≤ 1 ∧
        ∃ slot ∈ x.orchestrator.slotAt (0, 0), slot.session.begun = [.response WASM.Heartbeat.pong]) = true := by
    decide +kernel
  obtain ⟨plan, x, hp, r, h1, slot, hslot, hbegun⟩ := exists_of_planRun h
  have hans := pings_answered ⟨⟨_, _, ping_accepted⟩, _, hp⟩ ⟨_, rfl, rfl⟩ rfl rfl (by decide) (by decide) (by decide) r
    hslot h1
  exact ⟨plan, x, slot, r, hslot, hbegun, hans⟩

/-- Without a module nothing is answered. -/
theorem nop_silent (h : Accepted netEnv script plan) (hc : OpensWithCreate script.orchestrator.actions)
    (hs : 0 < script.settings.headerSize.toNat) (ht : script.settings.sessionProtocol = "TCP") {x : Served Unit}
    (r : Run (step (plan.orchestratorEnv script.settings) NOPMessageHandler) Dispatcher.free
      (init plan.shardCount ()) es x)
    {p : Nat × Nat} {slot : Slot} (hp : x.orchestrator.slotAt p = some slot)
    (h1 : (scriptCalls (number x.orchestrator.shardRanges p) script.orchestrator.actions).count .start ≤ 1) :
    slot.session.answered ++ slot.session.posted = [] := by
  rw [answers_of_run h hc (nop_actsLike _) trivial hs ht r hp h1, List.filter_eq_nil_iff]
  intro packet hpacket
  obtain ⟨f, -, rfl⟩ := List.mem_map.mp hpacket
  simp

end Modules

end Served

end Loadshear
