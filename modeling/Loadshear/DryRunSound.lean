import Loadshear.AlignSound
import Loadshear.Codes
import Loadshear.PatchSound
import Loadshear.PrinterSound

/-!
# What the dry run tells

The listing of a dry run has one entry for each action of the plan (`Shown`),
and from the texts of the entries one has the entries back: two plans with the
same listing do not differ in anything that the listing is about.
-/

namespace Loadshear

open Codes

/-! ## The entries -/

inductive Detail where
  | sessions (count : UInt32)
  | indexed (first last : UInt32)
  | packet (count : UInt32) (identifier : String) (ops : List (PacketOperationType × UInt32))
deriving DecidableEq

/-- What an entry says of an action. -/
structure Shown where
  offset : UInt32
  type : ActionType
  detail : Detail
deriving DecidableEq

def ActionType.toText (t : ActionType) : String := ActionDescriptor.typeToString ⟨t, 0, 0, 0, 0⟩

def opEntry (op : PacketOperationType × UInt32) : String :=
  "<" ++ packetOpToStr op.1 ++ ", " ++ toString op.2.toNat ++ "> "

def Detail.text : Detail → String
  | .sessions count => toString count.toNat ++ " sessions"
  | .indexed first last => "sessions indexed " ++ toString first.toNat ++ " through " ++ toString last.toNat
  | .packet count identifier ops => "(" ++ toString count.toNat ++ "x) packet identity " ++ identifier
      ++ " with payload data\n" ++ "                " ++ String.join (ops.map opEntry)

def Shown.text (s : Shown) : String := msToTimestring s.offset ++ s.type.toText ++ " " ++ s.detail.text

def shownAction (plan : ExecutionPlan) (script : DSLData) (i : Nat) (d : ActionDescriptor) : Shown where
  offset := UInt32.ofNat d.offset
  type := d.type
  detail := match d.type with
    | .CREATE => .sessions d.count
    | .SEND => .packet d.count (script.orchestrator.actions[i]?.elim "" (·.packetIdentifier))
        (plan.payloads[copiesBefore script.orchestrator.actions i]?.elim [] (·.ops.map fun op => (op.type, op.length)))
    | .CONNECT | .FLOOD | .DRAIN | .DISCONNECT => .indexed d.sessionsStart (d.sessionsEnd - 1)

def shown (plan : ExecutionPlan) (script : DSLData) : List Shown := plan.actions.mapIdx (shownAction plan script)

/-! ## The texts are a code -/

theorem digitsValue_zeros (ds : List Char) : ∀ k, digitsValue (List.replicate k '0' ++ ds) = digitsValue ds
  | 0 => rfl
  | k + 1 => digitsValue_zeros ds k

/-- Numbers that are filled up with zeros, before something else. -/
theorem front_padded {pad : String → String} {stop : Char}
    (hpad : ∀ n : Nat, ∃ k, (pad (toString n)).toList = List.replicate k '0' ++ Nat.toDigits 10 n)
    (hstop : stop.isDigit = false) : Front fun n : UInt32 => (pad (toString n.toNat)).toList ++ [stop] := by
  refine front_closed (fun a b hab => ?_) fun a hm => ?_
  · obtain ⟨k, ha⟩ := hpad a.toNat
    obtain ⟨l, hb⟩ := hpad b.toNat
    simp only [ha, hb] at hab
    have hv := congrArg digitsValue hab
    rw [digitsValue_zeros, digitsValue_zeros, digitsValue_toDigits, digitsValue_toDigits] at hv
    exact UInt32.toNat_inj.mp hv
  · obtain ⟨k, ha⟩ := hpad a.toNat
    rw [ha, List.mem_append] at hm
    rcases hm with hm | hm
    · rw [List.eq_of_mem_replicate hm] at hstop
      cases hstop
    · rw [(decimal_toDigits a.toNat).2 _ hm] at hstop
      cases hstop

theorem front_digits {stop : Char} (h : stop.isDigit = false) :
    Front fun n : UInt32 => (toString n.toNat).toList ++ [stop] :=
  @front_padded id stop (fun n => ⟨0, toString_toList n⟩) h

def padTwo (text : String) : String := if text.length < 2 then "0" ++ text else text

def padThree (text : String) : String :=
  if text.length = 1 then "00" ++ text else if text.length = 2 then "0" ++ text else text

theorem padTwo_zeros (n : Nat) : ∃ k, (padTwo (toString n)).toList = List.replicate k '0' ++ Nat.toDigits 10 n := by
  unfold padTwo
  split
  · exact ⟨1, by rw [String.toList_append, toString_toList]; rfl⟩
  · exact ⟨0, toString_toList n⟩

theorem padThree_zeros (n : Nat) : ∃ k, (padThree (toString n)).toList = List.replicate k '0' ++ Nat.toDigits 10 n := by
  unfold padThree
  split
  · exact ⟨2, by rw [String.toList_append, toString_toList]; rfl⟩
  · split
    · exact ⟨1, by rw [String.toList_append, toString_toList]; rfl⟩
    · exact ⟨0, toString_toList n⟩

theorem msToTimestring_toList (offset : UInt32) : (msToTimestring offset).toList =
    ['['] ++ ((padTwo (toString (offset / 60000).toNat)).toList ++ [':'] ++
      ((padTwo (toString (offset % 60000 / 1000).toNat)).toList ++ [':'] ++
        ((padThree (toString (offset % 1000).toNat)).toList ++ [']'] ++ [' ']))) := by
  have h : msToTimestring offset = "[" ++ padTwo (toString (offset / 60000).toNat) ++ ":" ++
      padTwo (toString (offset % 60000 / 1000).toNat) ++ ":" ++ padThree (toString (offset % 1000).toNat) ++ "] " := rfl
  rw [h]
  simp only [String.toList_append, List.append_assoc]
  rfl

theorem front_time : Front fun offset : UInt32 => (msToTimestring offset).toList := by
  have two : Front fun n : UInt32 => (padTwo (toString n.toNat)).toList ++ [':'] := front_padded padTwo_zeros rfl
  have three : Front fun n : UInt32 => (padThree (toString n.toNat)).toList ++ [']'] := front_padded padThree_zeros rfl
  have hcode := (two.append (two.append (three.append_word [' ']))).word_append ['[']
  have hparts : Function.Injective fun offset : UInt32 => (offset / 60000, offset % 60000 / 1000, offset % 1000) := by
    intro a b hab
    simp only [Prod.mk.injEq, ← UInt32.toNat_inj, UInt32.toNat_div, UInt32.toNat_mod, UInt32.reduceToNat] at hab
    rw [← UInt32.toNat_inj]
    omega
  intro a b x y h
  simp only [msToTimestring_toList] at h
  obtain ⟨hab, hxy⟩ := @hcode (a / 60000, a % 60000 / 1000, a % 1000) (b / 60000, b % 60000 / 1000, b % 1000) x y h
  exact ⟨hparts hab, hxy⟩

theorem front_type : Front fun t : ActionType => t.toText.toList ++ [' '] := by
  refine front_closed (fun a b hab => ?_) fun a => ?_
  · cases a <;> cases b <;> first | rfl | exact absurd hab (by decide)
  · cases a <;> decide

theorem front_opType : Front fun t : PacketOperationType => (packetOpToStr t).toList ++ [','] := by
  refine front_closed (fun a b hab => ?_) fun a => ?_
  · cases a <;> cases b <;> first | rfl | exact absurd hab (by decide)
  · cases a <;> decide

theorem opEntry_toList (op : PacketOperationType × UInt32) : (opEntry op).toList =
    ['<'] ++ ((packetOpToStr op.1).toList ++ [','] ++ ([' '] ++ ((toString op.2.toNat).toList ++ ['>'] ++ [' ']))) := by
  simp only [opEntry, String.toList_append, List.append_assoc]
  rfl

theorem front_op : Front fun op : PacketOperationType × UInt32 => (opEntry op).toList := by
  have number : Front fun n : UInt32 => (toString n.toNat).toList ++ ['>'] := front_digits rfl
  have hcode := (front_opType.append ((number.append_word [' ']).word_append [' '])).word_append ['<']
  intro a b x y h
  simp only [opEntry_toList] at h
  exact @hcode a b x y h

theorem entries_injective {ops ops' : List (PacketOperationType × UInt32)}
    (h : (String.join (ops.map opEntry)).toList = (String.join (ops'.map opEntry)).toList) : ops = ops' := by
  have hne : ∀ op : PacketOperationType × UInt32, (opEntry op).toList ≠ [] := by
    intro op
    rw [opEntry_toList]
    simp
  apply front_op.flatMap_injective hne
  simpa [List.flatMap_map] using h

/-! ## Details -/

theorem digits_ne {n : Nat} {x y : List Char} {c : Char} (hc : c.isDigit = false) :
    (toString n).toList ++ x ≠ c :: y := by
  rw [toString_toList]
  intro h
  cases hd : Nat.toDigits 10 n with
  | nil => exact Nat.toDigits_ne_nil hd
  | cons d ds =>
    rw [hd] at h
    have hdigit := (decimal_toDigits n).2 d (hd ▸ List.mem_cons_self)
    rw [(List.cons.inj h).1, hc] at hdigit
    cases hdigit

theorem sessions_toList (count : UInt32) :
    (Detail.sessions count).text.toList = (toString count.toNat).toList ++ ([' '] ++ "sessions".toList) := by
  have hword : " sessions".toList = [' '] ++ "sessions".toList := by decide
  unfold Detail.text
  rw [String.toList_append, hword]

theorem indexed_toList (first last : UInt32) : (Detail.indexed first last).text.toList =
    's' :: ("essions indexed ".toList ++ ((toString first.toNat).toList ++ ([' '] ++
      ("through ".toList ++ (toString last.toNat).toList)))) := by
  have hfirst : "sessions indexed ".toList = 's' :: "essions indexed ".toList := by decide
  have hlast : " through ".toList = [' '] ++ "through ".toList := by decide
  unfold Detail.text
  simp only [String.toList_append, List.append_assoc, hfirst, hlast, List.cons_append]

theorem packet_toList (count : UInt32) (identifier : String) (ops : List (PacketOperationType × UInt32)) :
    (Detail.packet count identifier ops).text.toList =
      '(' :: ((toString count.toNat).toList ++ (['x'] ++ (") packet identity ".toList ++ (identifier.toList ++
        " with payload data".toList)))) ++ '\n' ::
          ("                ".toList ++ (String.join (ops.map opEntry)).toList) := by
  have hopen : "(".toList = ['('] := by decide
  have hcount : "x) packet identity ".toList = ['x'] ++ ") packet identity ".toList := by decide
  have hline : " with payload data\n".toList = " with payload data".toList ++ ['\n'] := by decide
  unfold Detail.text
  simp only [String.toList_append, List.append_assoc, hopen, hcount, hline, List.cons_append, List.nil_append]

theorem opEntry_line (op : PacketOperationType × UInt32) : '\n' ∉ (opEntry op).toList := by
  have htype : '\n' ∉ (packetOpToStr op.1).toList := by cases op.1 <;> decide
  have hnumber : '\n' ∉ Nat.toDigits 10 op.2.toNat := by
    intro hm
    cases (decimal_toDigits op.2.toNat).2 _ hm
  rw [opEntry_toList]
  simp [htype, hnumber]

theorem entries_line (ops : List (PacketOperationType × UInt32)) :
    '\n' ∉ "                ".toList ++ (String.join (ops.map opEntry)).toList := by
  rw [List.mem_append, String.toList_join, List.mem_flatMap]
  rintro (hm | ⟨text, ht, hm⟩)
  · revert hm
    decide
  · obtain ⟨op, -, rfl⟩ := List.mem_map.mp ht
    exact opEntry_line op hm

theorem Detail.text_injective : ∀ {d e : Detail}, d.text = e.text → d = e
  | .sessions m, .sessions n, h => by
    have h := congrArg String.toList h
    rw [sessions_toList, sessions_toList, ← List.append_assoc, ← List.append_assoc] at h
    rw [((front_digits rfl) h).1]
  | .indexed m m', .indexed n n', h => by
    have h := congrArg String.toList h
    rw [indexed_toList, indexed_toList, List.cons.injEq] at h
    have htail := List.append_cancel_left h.2
    rw [← List.append_assoc, ← List.append_assoc _ [' ']] at htail
    obtain ⟨rfl, hrest⟩ := (front_digits rfl) htail
    have hlast := List.append_cancel_left hrest
    rw [toString_toList, toString_toList] at hlast
    have hv := congrArg digitsValue hlast
    rw [digitsValue_toDigits, digitsValue_toDigits, UInt32.toNat_inj] at hv
    rw [hv]
  | .packet m id ops, .packet n id' ops', h => by
    have h := congrArg String.toList h
    rw [packet_toList, packet_toList] at h
    obtain ⟨hfront, hback⟩ := eq_of_last (entries_line ops) (entries_line ops') h
    have hcount := (List.cons.inj hfront).2
    rw [← List.append_assoc, ← List.append_assoc _ ['x']] at hcount
    obtain ⟨rfl, hid⟩ := (front_digits rfl) hcount
    have hid := List.append_cancel_right (List.append_cancel_left hid)
    rw [String.toList_injective hid, entries_injective (List.append_cancel_left hback)]
  | .sessions m, .indexed n n', h => by
    have h := congrArg String.toList h
    rw [sessions_toList, indexed_toList] at h
    exact absurd h (digits_ne rfl)
  | .indexed n n', .sessions m, h => by
    have h := congrArg String.toList h
    rw [sessions_toList, indexed_toList] at h
    exact absurd h.symm (digits_ne rfl)
  | .sessions m, .packet n id ops, h => by
    have h := congrArg String.toList h
    rw [sessions_toList, packet_toList] at h
    exact absurd h (digits_ne rfl)
  | .packet n id ops, .sessions m, h => by
    have h := congrArg String.toList h
    rw [sessions_toList, packet_toList] at h
    exact absurd h.symm (digits_ne rfl)
  | .indexed n n', .packet m id ops, h => by
    have h := congrArg String.toList h
    rw [indexed_toList, packet_toList] at h
    exact absurd (List.cons.inj h).1 (by decide)
  | .packet m id ops, .indexed n n', h => by
    have h := congrArg String.toList h
    rw [indexed_toList, packet_toList] at h
    exact absurd (List.cons.inj h).1 (by decide)

theorem Shown.text_injective {s t : Shown} (h : s.text = t.text) : s = t := by
  have h := congrArg String.toList h
  simp only [Shown.text, String.toList_append, List.append_assoc] at h
  obtain ⟨hoffset, h⟩ := front_time h
  rw [← List.append_assoc, ← List.append_assoc] at h
  obtain ⟨htype, h⟩ := front_type h
  have hdetail := Detail.text_injective (String.toList_injective h)
  cases s
  cases t
  congr

/-! ## The listing of a plan -/

section
variable {plan : ExecutionPlan} {script : DSLData} {i : Nat} {st : DryRunState} {d : ActionDescriptor} {a : Action}

theorem foldl_opText (ops : List PacketOperation) : ∀ msg : String,
    ops.foldl (fun msg op => msg ++ opText op) msg =
      msg ++ String.join ((ops.map fun op => (op.type, op.length)).map opEntry) := by
  induction ops with
  | nil =>
    intro msg
    simp
  | cons op ops ih =>
    intro msg
    rw [List.foldl_cons, ih, List.map_cons, List.map_cons, String.join_cons, String.append_assoc]
    rfl

def entry (s : Shown) : LogEntry := ⟨.INFO, s.text⟩

theorem logged_entry {text : String} {s : Shown} (h : text = s.text) :
    (st.logged .INFO text).log = st.log ++ [entry s] := by
  rw [h]
  rfl

theorem shownAction_send {payload : PayloadDescriptor} (ht : d.type = .SEND)
    (ha : script.orchestrator.actions[i]? = some a)
    (hp : plan.payloads[copiesBefore script.orchestrator.actions i]? = some payload) :
    shownAction plan script i d = ⟨UInt32.ofNat d.offset, .SEND,
      .packet d.count a.packetIdentifier (payload.ops.map fun op => (op.type, op.length))⟩ := by
  simp [shownAction, ht, ha, hp]

theorem sessionsIndexed_eq : sessionsIndexed d = (Detail.indexed d.sessionsStart (d.sessionsEnd - 1)).text := rfl

theorem dryRunAction_log (ha : script.orchestrator.actions[i]? = some a)
    (hid : st.currentPayloadId = copiesBefore script.orchestrator.actions i)
    (hlt : d.type = .SEND → st.currentPayloadId < plan.payloads.length) {st' : DryRunState}
    (h : dryRunAction plan script i st d = some st') : st'.log = st.log ++ [entry (shownAction plan script i d)] := by
  have htext : d.typeToString = d.type.toText := rfl
  unfold dryRunAction at h
  rw [ha, Option.bind_eq_bind, Option.bind_some, htext] at h
  cases ht : d.type with
  | SEND =>
    have hin := hlt ht
    obtain ⟨payload, hp⟩ : ∃ payload, plan.payloads[st.currentPayloadId]? = some payload :=
      ⟨_, List.getElem?_eq_getElem hin⟩
    simp only [ht] at h
    rw [if_neg (Nat.not_lt.mpr (Nat.le_of_lt hin)), hp] at h
    obtain rfl := Option.some.inj h
    refine logged_entry ?_
    rw [hid] at hp
    rw [foldl_opText, shownAction_send ht ha hp]
    unfold Shown.text Detail.text
    simp only [String.append_assoc]
  | CREATE =>
    simp only [ht] at h
    obtain rfl := Option.some.inj h
    refine logged_entry ?_
    simp only [shownAction, ht, Shown.text]
    unfold Detail.text
    simp only [String.append_assoc]
  | _ =>
    simp only [ht] at h
    obtain rfl := Option.some.inj h
    refine logged_entry ?_
    simp only [shownAction, ht, Shown.text, sessionsIndexed_eq]

theorem dryRunActions_log (hd : List.Forall₂ Describes plan.actions script.orchestrator.actions)
    (hin : ∀ i a, script.orchestrator.actions[i]? = some a → a.type = .SEND →
      copiesBefore script.orchestrator.actions i < plan.payloads.length) (endpointList : String) :
    ∀ n ≤ plan.actions.length, ∃ st,
      dryRunActions plan script 0 (dryRunStart endpointList) (plan.actions.take n) = some st ∧
        st.log = (dryRunStart endpointList).log ++
          ((plan.actions.take n).mapIdx (shownAction plan script)).map entry := by
  intro n
  induction n with
  | zero =>
    intro _
    exact ⟨_, rfl, by simp⟩
  | succ n ih =>
    intro hn
    obtain ⟨st, hst, hlog⟩ := ih (Nat.le_of_lt hn)
    obtain ⟨st₁, hst₁, hid, -⟩ := dryRunActions_take hd hin endpointList n (Nat.le_of_lt hn)
    obtain rfl := Option.some.inj (hst.symm.trans hst₁)
    obtain ⟨st', hst', -⟩ := dryRunActions_take hd hin endpointList (n + 1) hn
    refine ⟨st', hst', ?_⟩
    rw [List.take_succ_eq_append_getElem hn] at hst' ⊢
    rw [dryRunActions_snoc, hst, Option.bind_some, Nat.zero_add, List.length_take_of_le (Nat.le_of_lt hn)] at hst'
    have hn' : n < script.orchestrator.actions.length := by rwa [← hd.length_eq]
    have ha := List.getElem?_eq_getElem hn'
    have hstep := dryRunAction_log ha hid (fun ht => hid ▸ hin n _ ha ((hd.get hn hn').type.symm.trans ht)) hst'
    rw [hstep, hlog, List.mapIdx_append, List.map_append, List.append_assoc]
    simp [List.length_take_of_le (Nat.le_of_lt hn)]

end

/-- A dry run of a plan logs its entries. -/
theorem Accepted.listed {env : Env} {script : DSLData} {plan : ExecutionPlan} (h : Accepted env script plan)
    (endpointList : String) :
    dryRun endpointList plan script = some ((dryRunStart endpointList).log ++ (shown plan script).map entry) := by
  obtain ⟨memory, hp⟩ := h.planned
  obtain ⟨table, _, hblocks⟩ := generatePlan_blocks hp
  obtain ⟨_, _, _, hd, _⟩ := generatePlan_spec hp
  have hin : ∀ i a, script.orchestrator.actions[i]? = some a → a.type = .SEND →
      copiesBefore script.orchestrator.actions i < plan.payloads.length := by
    intro i a ha hs
    have hcount : 0 < a.count.toNat := Nat.pos_of_ne_zero fun h0 =>
      (h.send (List.mem_of_getElem? ha) hs).1 (UInt32.toNat_inj.mp h0)
    obtain ⟨payload, _, _, hget, _⟩ := hblocks i a ha 0 (by rwa [Action.copies, if_pos hs])
    exact (List.getElem?_eq_some_iff.mp hget).1
  obtain ⟨st, hst, hlog⟩ := dryRunActions_log hd hin endpointList _ (Nat.le_refl _)
  rw [List.take_length] at hst hlog
  rw [dryRun, hst, Option.map_some, hlog]
  rfl

/-- A dry run of an accepted script logs one line for each action, from which its
entry can be read back; so two dry runs log the same if and only if they have the
same endpoints and show the same actions. -/
theorem dryRun_tells {env env' : Env} {script script' : DSLData} {plan plan' : ExecutionPlan}
    (h : Accepted env script plan) (h' : Accepted env' script' plan') (endpointList endpointList' : String) :
    dryRun endpointList plan script = some ((dryRunStart endpointList).log ++ (shown plan script).map entry) ∧
    Function.Injective Shown.text ∧
    (dryRun endpointList plan script = dryRun endpointList' plan' script' ↔
      endpointList = endpointList' ∧ shown plan script = shown plan' script') := by
  have hentry : Function.Injective entry := by
    intro s t he
    exact Shown.text_injective (LogEntry.mk.inj he).2
  refine ⟨h.listed endpointList, fun s t => Shown.text_injective, ?_⟩
  rw [h.listed, h'.listed, Option.some.injEq]
  simp only [dryRunStart, List.cons_append, List.nil_append, List.cons.injEq, true_and, LogEntry.mk.injEq,
    hentry.list_map.eq_iff]

/-- Two scripts that send the same packet with other modifications. -/
theorem dryRun_tells_mods : ∃ plan plan', Accepted plainEnv countScript plan ∧
    Accepted plainEnv (sendMods sortedMods) plan' ∧
    dryRun "  - 10.0.0.1:80\n" plan countScript ≠ dryRun "  - 10.0.0.1:80\n" plan' (sendMods sortedMods) := by
  have hcount : Orchestrator.planRun countScript (fun _ _ _ => True) [] (fun plan _ =>
      (shown plan countScript)[2]? = some ⟨750, .SEND, .packet 2 "p" [(.COUNTER, 8), (.IDENTITY, 16)]⟩) = true := by
    decide +kernel
  have hstamp : Orchestrator.planRun (sendMods sortedMods) (fun _ _ _ => True) [] (fun plan _ =>
      (shown plan (sendMods sortedMods))[2]? =
        some ⟨750, .SEND, .packet 1 "p" [(.COUNTER, 8), (.IDENTITY, 4), (.TIMESTAMP, 8), (.IDENTITY, 4)]⟩) = true := by
    decide +kernel
  obtain ⟨plan, _, hp, -, hsend⟩ := exists_of_planRun hcount
  obtain ⟨plan', _, hp', -, hsend'⟩ := exists_of_planRun hstamp
  have h : Accepted plainEnv countScript plan := ⟨⟨_, _, count_accepted⟩, _, hp⟩
  have h' : Accepted plainEnv (sendMods sortedMods) plan' := ⟨⟨_, _, stamp_accepted⟩, _, hp'⟩
  refine ⟨plan, plan', h, h', fun he => ?_⟩
  obtain ⟨-, -, htells⟩ := dryRun_tells h h' "  - 10.0.0.1:80\n" "  - 10.0.0.1:80\n"
  rw [(htells.mp he).2, hsend'] at hsend
  exact absurd hsend (by decide)

end Loadshear
