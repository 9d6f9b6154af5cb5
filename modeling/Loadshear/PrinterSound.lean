import Loadshear.LexerSound
import Loadshear.ParserSound
import Loadshear.LiteralSound
import Loadshear.Reading

/-!
# Reading back a script

The parser makes of the words of a script the script they were written from,
one rule for each parser function. Every text of a script is then read back
(`written_read`).
-/

namespace Loadshear

open Reading

/-! ## Token access -/

section
variable {α : Type} {ws rest : List Word} {Q : α → Prop} {w : Word}

theorem Token.Means.type {t : Token} (h : t.Means w) : t.type = w.token.1 := congrArg Prod.fst h

theorem Token.Means.text {t : Token} (h : t.Means w) : t.text = w.token.2 := congrArg Prod.snd h

theorem head_at {toks : List Token} {pos : Nat} {vs : List Word} (h : At Token.Means toks pos vs)
    (hw : vs.head? = some w) : ∃ t, toks[pos]? = some t ∧ t.Means w := by
  cases vs with
  | nil => cases hw
  | cons v vs =>
    obtain rfl : v = w := by simpa using hw
    obtain ⟨t, ht, hm, -⟩ := h.head
    exact ⟨t, ht, hm⟩

theorem reads_peek {f : Token → ParserM α} (hw : (ws ++ rest).head? = some w)
    (hf : ∀ t, t.Means w → Reads Token.Means (f t) ws rest Q) : Reads Token.Means (peek >>= f) ws rest Q := by
  refine Reads.look (P := fun t => t.Means w) ?_ hf
  intro toks pos hp
  obtain ⟨t, ht, hm⟩ := head_at hp hw
  refine ⟨t, pos, ?_, hp, hm⟩
  unfold peek
  rw [ht]
  rfl

theorem reads_isExpected {f : Bool → ParserM α} {ty : TokenType} (hw : (ws ++ rest).head? = some w)
    (hf : Reads Token.Means (f (w.token.1 == ty)) ws rest Q) : Reads Token.Means (isExpected ty >>= f) ws rest Q := by
  refine Reads.look (P := fun b => b = (w.token.1 == ty)) ?_ ?_
  · intro toks pos hp
    obtain ⟨t, ht, hm⟩ := head_at hp hw
    refine ⟨t.type == ty, pos, ?_, hp, by rw [hm.type]⟩
    unfold isExpected
    rw [ht]
  · rintro b rfl
    exact hf

theorem reads_isOperator {f : Bool → ParserM α} {op : String} (hw : (ws ++ rest).head? = some w)
    (hf : Reads Token.Means (f (w.token == (.Operator, op))) ws rest Q) :
    Reads Token.Means (isOperator op >>= f) ws rest Q := by
  refine Reads.look (P := fun b => b = (w.token == (.Operator, op))) ?_ ?_
  · unfold isOperator
    refine reads_isExpected hw ?_
    by_cases hty : w.token.1 = .Operator
    · rw [beq_iff_eq.mpr hty]
      refine reads_peek hw fun t ht => Reads.pure ?_
      rw [ht.text]
      change _ = (w.token.1 == _ && w.token.2 == _)
      rw [hty]
      rfl
    · rw [beq_eq_false_iff_ne.mpr hty]
      apply Reads.pure
      change _ = (w.token.1 == _ && w.token.2 == _)
      rw [beq_eq_false_iff_ne.mpr hty]
      rfl
  · rintro b rfl
    exact hf

theorem reads_more {f : Bool → ParserM α} (hw : (ws ++ rest).head? = some w) (hf : Reads Token.Means (f false) ws rest Q) :
    Reads Token.Means (endOfTokens >>= f) ws rest Q := by
  refine Reads.look (P := fun b => b = false) ?_ fun b hb => by rw [hb]; exact hf
  intro toks pos hp
  obtain ⟨t, ht, -⟩ := head_at hp hw
  obtain ⟨hlt, -⟩ := List.getElem?_eq_some_iff.mp ht
  refine ⟨false, pos, ?_, hp, rfl⟩
  unfold endOfTokens
  rw [decide_eq_false (Nat.not_le_of_lt hlt)]

theorem reads_end {f : Bool → ParserM α} (hf : Reads Token.Means (f true) [] [] Q) :
    Reads Token.Means (endOfTokens >>= f) [] [] Q := by
  refine Reads.look (P := fun b => b = true) ?_ fun b hb => by rw [hb]; exact hf
  intro toks pos hp
  refine ⟨true, pos, ?_, hp, rfl⟩
  unfold endOfTokens
  rw [decide_eq_true hp.end]

theorem reads_consume {f : Token → ParserM α} (hf : ∀ t, t.Means w → Reads Token.Means (f t) ws rest Q) :
    Reads Token.Means (consume >>= f) (w :: ws) rest Q := by
  rw [← List.singleton_append]
  refine Reads.bind (P := fun t => t.Means w) ?_ hf
  intro toks pos hp
  obtain ⟨t, ht, hm, hp'⟩ := hp.head
  obtain ⟨hlt, rfl⟩ := List.getElem?_eq_some_iff.mp ht
  refine ⟨toks[pos], pos + 1, ?_, hp', hm⟩
  unfold consume
  simp [hlt]

theorem reads_expect {f : Token → ParserM α} {ty : TokenType} (hty : w.token.1 = ty)
    (hf : ∀ t, t.Means w → Reads Token.Means (f t) ws rest Q) :
    Reads Token.Means (expectType ty >>= fun _ => consume >>= f) (w :: ws) rest Q := by
  refine Reads.look (P := fun _ => True) ?_ fun _ _ => reads_consume hf
  unfold expectType
  apply reads_isExpected rfl
  rw [beq_iff_eq.mpr hty]
  exact Reads.pure trivial

theorem reads_operator {f : Token → ParserM α} {op : String} {c : Char} (hop : String.ofList [c] = op)
    (hf : ∀ t, Reads Token.Means (f t) ws rest Q) :
    Reads Token.Means (expectOperator op >>= fun _ => consume >>= f) (.operator c :: ws) rest Q := by
  subst hop
  refine Reads.look (P := fun _ => True) ?_ fun _ _ => reads_consume fun t _ => hf t
  unfold expectOperator
  apply reads_isOperator rfl
  have hb : ((Word.operator c).token == (.Operator, String.ofList [c])) = true := beq_iff_eq.mpr rfl
  rw [hb]
  exact Reads.pure trivial

theorem reads_lift {β : Type} {r : ParseResult β} {b : β} {f : β → ParserM α} (hr : r = .ok b)
    (hf : Reads Token.Means (f b) ws rest Q) : Reads Token.Means (liftResult r >>= f) ws rest Q := by
  subst hr
  exact Reads.look (P := fun b' => b' = b) (fun _ pos hp => ⟨b, pos, rfl, hp, rfl⟩) fun _ h => h ▸ hf

theorem reads_result {r : ParseResult α} {a : α} (hr : r = .ok a) (ha : Q a) :
    Reads Token.Means (liftResult r) [] rest Q := by
  subst hr
  exact fun _ pos hp => ⟨a, pos, rfl, hp, ha⟩

theorem reads_withFuel {loop : Nat → ParserM α}
    (h : ∀ fuel, ws.length < fuel → Reads Token.Means (loop fuel) ws rest Q) :
    Reads Token.Means (withFuel loop) ws rest Q := Reads.fuel h

end

/-! ## Numbers -/

theorem toString_toList (n : Nat) : (toString n).toList = Nat.toDigits 10 n := by
  rw [Nat.toString_eq_ofList_toDigits, String.toList_ofList]

theorem decimal_toDigits (n : Nat) : Decimal (Nat.toDigits 10 n) :=
  ⟨Nat.toDigits_ne_nil, fun _ hc => Nat.isDigit_of_mem_toDigits (by decide) (by decide) hc⟩

theorem digitsValue_toDigits (n : Nat) : digitsValue (Nat.toDigits 10 n) = n := by
  have h : Nat.ofDigitChars 10 (Nat.toDigits 10 n) 0 = n := Nat.ofDigitChars_ten_toDigits
  rwa [Nat.ofDigitChars_eq_foldl] at h

theorem begins_toString {n : Nat} (hn : n < 2 ^ 31) : Begins (toString n).toList n := by
  rw [toString_toList]
  exact (decimal_toDigits n).begins.mpr ⟨digitsValue_toDigits n, hn⟩

theorem tryConvertInt_number {t : Token} {n : UInt32} (ht : t.Means (numberWord n)) (hn : IsSmall n) (keyword : String) :
    tryConvertInt t keyword = .ok n := by
  have htext : t.text = toString n.toNat := ht.text
  rw [tryConvertInt_iff, htext]
  exact begins_toString hn

theorem tryParseTime_milliseconds {t : Token} {n : Nat} (ht : t.text = toString n ++ "ms") (hn : n < 2 ^ 31) :
    tryParseTime t = .ok (UInt32.ofNat n) := by
  have hb := begins_toString hn
  refine tryParseTime_iff.mpr ⟨_, n, hb, .inl ⟨?_, hb.toNat⟩⟩
  rw [ht, String.toList_append]
  rfl

theorem tryParseTime_seconds {t : Token} {n : Nat} (ht : t.text = toString n ++ "s") (hn : n < 2 ^ 31) :
    tryParseTime t = .ok (UInt32.ofNat n * 1000) := by
  have hb := begins_toString hn
  have hlast : (toString n).toList.getLast? ≠ some 'm' := by
    rw [toString_toList]
    exact (decimal_toDigits n).getLast_ne
  refine tryParseTime_iff.mpr ⟨_, n, hb, .inr ⟨?_, hlast, ?_⟩⟩
  · rw [ht, String.toList_append]
    rfl
  · rw [UInt32.toNat_mul, hb.toNat]
    rfl

/-! ## ORCHESTRATOR -/

section
variable {rest : List Word}

theorem reads_range {r : Range} (hr : r.WellFormed) {t : Token} (ht : t.Means (numberWord r.start)) (keyword : String) :
    Reads Token.Means (tryParseRange t keyword) [.operator ':', numberWord r.second] rest (· = r) := by
  unfold tryParseRange
  refine reads_operator rfl fun _ => reads_expect rfl fun t' ht' => ?_
  apply reads_lift (tryConvertInt_number ht hr.start keyword)
  apply reads_lift (tryConvertInt_number ht' hr.second keyword)
  exact Reads.pure rfl

theorem parseEndian_word {t : Token} {littleEndian : Bool} (ht : t.Means (endianWord littleEndian)) :
    parseEndian t = .ok littleEndian := by
  cases littleEndian with
  | false =>
    have htext : t.text = "big" := ht.text
    unfold parseEndian
    rw [htext, if_neg (by decide), if_pos rfl]
  | true =>
    have htext : t.text = "little" := ht.text
    unfold parseEndian
    rw [htext, if_pos rfl]

theorem reads_modArguments {α : Type} {Q : α → Prop} {r : Range} (hr : r.WellFormed) {first second : Word}
    (hf : first.token.1 = .Value) (hs : second.token.1 = .Value) {f : Range → Token × Token → ParserM α}
    (h : ∀ t t', t.Means first → t'.Means second → Reads Token.Means (f r (t, t')) [] rest Q) :
    Reads Token.Means (expectType .Value >>= fun _ => consume >>= fun t => tryParseRange t "TIMESTAMP" >>=
      fun bytes => parseModArguments >>= f bytes) (rangeWords r ++ [first, .operator ':', second]) rest Q := by
  apply reads_expect rfl
  intro t ht
  apply Reads.bind (reads_range hr ht "TIMESTAMP")
  rintro _ rfl
  have hargs : Reads Token.Means parseModArguments [first, .operator ':', second] ([] ++ rest)
      fun a => a.1.Means first ∧ a.2.Means second := by
    unfold parseModArguments
    exact reads_expect hf fun t ht => reads_operator rfl fun _ => reads_expect hs fun t' ht' => Reads.pure ⟨ht, ht'⟩
  rw [← List.append_nil [first, _, _]]
  exact Reads.bind hargs fun a ha => h a.1 a.2 ha.1 ha.2

theorem reads_timestamp {m : TimestampModification} (hr : m.timestampBytes.WellFormed) (hf : m.formatName ∈ timeFormats)
    (mods : ModList) : Reads Token.Means (tryParseSendOption .Timestamp mods) (timestampWords m).tail rest
      (· = mods.pushTimestamp m) := by
  unfold tryParseSendOption
  apply reads_modArguments hr rfl rfl
  intro t t' ht ht'
  apply reads_lift (parseEndian_word ht)
  have htext : t'.text = m.formatName := ht'.text
  unfold timeFormats at hf
  simp only [htext]
  rw [if_pos hf]
  exact Reads.pure rfl

theorem reads_counter {m : CounterModification} (hr : m.counterBytes.WellFormed) (hs : IsSmall m.counterStep)
    (mods : ModList) : Reads Token.Means (tryParseSendOption .Counter mods) (counterWords m).tail rest
      (· = mods.pushCounter m) := by
  unfold tryParseSendOption
  apply reads_modArguments hr rfl rfl
  intro t t' ht ht'
  apply reads_lift (parseEndian_word ht)
  apply reads_lift (tryConvertInt_number ht' hs "COUNTER")
  exact Reads.pure rfl

/-- No word that the parser looks for stands next. -/
def Clear (texts : List String) (rest : List Word) : Prop := ∃ w, rest.head? = some w ∧ w.token.2 ∉ texts

theorem Clear.mono {texts texts' : List String} (h : Clear texts rest) (hs : texts' ⊆ texts) : Clear texts' rest := by
  obtain ⟨w, hw, ht⟩ := h
  exact ⟨w, hw, fun hm => ht (hs hm)⟩

theorem reads_noOption {fuel : Nat} {mods : ModList} (hr : Clear ["COUNTER", "TIMESTAMP"] rest) :
    Reads Token.Means (parseSendOptions (fuel + 1) mods) [] rest (· = mods) := by
  obtain ⟨w, hw, ht⟩ := hr
  have hnot : w.token.2 ≠ "COUNTER" ∧ w.token.2 ≠ "TIMESTAMP" := by simpa using ht
  unfold parseSendOptions
  refine reads_peek hw fun t ht => reads_isExpected hw ?_
  simp only [ht.text, hnot.1, hnot.2, if_false, ite_self]
  exact Reads.pure rfl

section
variable {fuel : Nat} {mods : ModList} {ws : List Word} {Q : ModList → Prop}

theorem reads_timestampOption {m : TimestampModification} (hr : m.timestampBytes.WellFormed)
    (hf : m.formatName ∈ timeFormats)
    (h : Reads Token.Means (parseSendOptions fuel (mods.pushTimestamp m)) ws rest Q) :
    Reads Token.Means (parseSendOptions (fuel + 1) mods) (timestampWords m ++ ws) rest Q := by
  have hnext : Reads Token.Means (tryParseSendOption .Timestamp mods >>= parseSendOptions fuel)
      ((timestampWords m).tail ++ ws) rest Q := by
    apply Reads.bind (reads_timestamp hr hf mods)
    rintro _ rfl
    exact h
  unfold parseSendOptions
  refine reads_peek rfl fun t ht => reads_isExpected rfl ?_
  have htext : t.text = "TIMESTAMP" := ht.text
  rw [htext, if_pos ⟨by decide, rfl⟩, if_neg (by decide), if_pos rfl]
  exact reads_consume fun _ _ => hnext

theorem reads_counterOption {m : CounterModification} (hr : m.counterBytes.WellFormed) (hs : IsSmall m.counterStep)
    (h : Reads Token.Means (parseSendOptions fuel (mods.pushCounter m)) ws rest Q) :
    Reads Token.Means (parseSendOptions (fuel + 1) mods) (counterWords m ++ ws) rest Q := by
  have hnext : Reads Token.Means (tryParseSendOption .Counter mods >>= parseSendOptions fuel)
      ((counterWords m).tail ++ ws) rest Q := by
    apply Reads.bind (reads_counter hr hs mods)
    rintro _ rfl
    exact h
  unfold parseSendOptions
  refine reads_peek rfl fun t ht => reads_isExpected rfl ?_
  have htext : t.text = "COUNTER" := ht.text
  rw [htext, if_pos ⟨by decide, rfl⟩, if_pos rfl]
  exact reads_consume fun _ _ => hnext

end

theorem reads_mods (hr : Clear ["COUNTER", "TIMESTAMP"] rest) : ∀ (order : List ModificationType)
    {ts : List TimestampModification} {cs : List CounterModification} {fuel : Nat} {mods : ModList},
    order.count .Timestamp = ts.length → order.count .Counter = cs.length →
    (∀ m ∈ ts, m.timestampBytes.WellFormed ∧ m.formatName ∈ timeFormats) →
    (∀ m ∈ cs, m.counterBytes.WellFormed ∧ IsSmall m.counterStep) → order.length < fuel →
    Reads Token.Means (parseSendOptions fuel mods) (modWords ts cs order) rest fun l =>
      l.timestampMods = mods.timestampMods ++ ts ∧ l.counterMods = mods.counterMods ++ cs ∧
        l.modOrder = mods.modOrder ++ order
  | _, _, _, 0, _, _, _, _, _, hf => absurd hf (Nat.not_lt_zero _)
  | [], ts, cs, fuel + 1, mods, hts, hcs, _, _, _ => by
    obtain rfl : ts = [] := List.length_eq_zero_iff.mp hts.symm
    obtain rfl : cs = [] := List.length_eq_zero_iff.mp hcs.symm
    apply (reads_noOption hr).mono
    rintro _ rfl
    simp
  | .Timestamp :: order, [], _, _ + 1, _, hts, _, _, _, _ => by simp at hts
  | .Timestamp :: order, m :: ts, cs, fuel + 1, mods, hts, hcs, ht, hc, hf => by
    rw [List.forall_mem_cons] at ht
    apply reads_timestampOption ht.1.1 ht.1.2
    apply (reads_mods hr order (by simpa using hts) (by simpa using hcs) ht.2 hc (Nat.lt_of_succ_lt_succ hf)).mono
    intro l ⟨ht', hc', ho'⟩
    simp [ht', hc', ho', ModList.pushTimestamp]
  | .Counter :: order, _, [], _ + 1, _, _, hcs, _, _, _ => by simp at hcs
  | .Counter :: order, ts, m :: cs, fuel + 1, mods, hts, hcs, ht, hc, hf => by
    rw [List.forall_mem_cons] at hc
    have hw : modWords ts (m :: cs) (.Counter :: order) = counterWords m ++ modWords ts cs order := by
      cases ts <;> rfl
    rw [hw]
    apply reads_counterOption hc.1.1 hc.1.2
    apply (reads_mods hr order (by simpa using hts) (by simpa using hcs) ht hc.2 (Nat.lt_of_succ_lt_succ hf)).mono
    intro l ⟨ht', hc', ho'⟩
    simp [ht', hc', ho', ModList.pushCounter]

theorem modWords_length : ∀ (order : List ModificationType) {ts : List TimestampModification}
    {cs : List CounterModification}, order.count .Timestamp = ts.length → order.count .Counter = cs.length →
    order.length ≤ (modWords ts cs order).length
  | [], _, _, _, _ => Nat.zero_le _
  | .Timestamp :: _, [], _, hts, _ => by simp at hts
  | .Timestamp :: order, m :: ts, cs, hts, hcs => by
    have ih := @modWords_length order ts cs (by simpa using hts) (by simpa using hcs)
    simp only [modWords, timestampWords, List.length_append, List.length_cons]
    omega
  | .Counter :: _, _, [], _, hcs => by simp at hcs
  | .Counter :: order, ts, m :: cs, hts, hcs => by
    have ih := @modWords_length order ts cs (by simpa using hts) (by simpa using hcs)
    have hw : modWords ts (m :: cs) (.Counter :: order) = counterWords m ++ modWords ts cs order := by
      cases ts <;> rfl
    rw [hw]
    simp only [counterWords, List.length_append, List.length_cons]
    omega

theorem reads_modList {l : ModList} (hl : l.WellFormed) (hr : Clear ["COUNTER", "TIMESTAMP"] rest) :
    Reads Token.Means (withFuel (parseSendOptions · .empty)) (modWords l.timestampMods l.counterMods l.modOrder) rest
      (· = l) := by
  apply reads_withFuel
  intro fuel hf
  have hlen := modWords_length l.modOrder l.timestamps_counted l.counters_counted
  refine (reads_mods hr l.modOrder l.timestamps_counted l.counters_counted hl.timestamps hl.counters
    (Nat.lt_of_le_of_lt hlen hf)).mono ?_
  intro ⟨ts, cs, order, _, _⟩ ⟨ht, hc, ho⟩
  obtain ⟨ts', cs', order', _, _⟩ := l
  obtain rfl : ts = ts' := ht
  obtain rfl : cs = cs' := hc
  obtain rfl : order = order' := ho
  rfl

/-! ## Actions -/

def firstWord (a : Action) : Word :=
  match a.type with
  | .CREATE => numberWord a.count
  | _ => numberWord a.range.start

def kindWords (a : Action) : List Word := (bodyWords a).drop 2

def ActionType.keyword : ActionType → String
  | .CREATE => "CREATE"
  | .CONNECT => "CONNECT"
  | .SEND => "SEND"
  | .FLOOD => "FLOOD"
  | .DRAIN => "DRAIN"
  | .DISCONNECT => "DISCONNECT"

theorem bodyWords_eq (a : Action) : bodyWords a = .keyword a.type.keyword :: firstWord a :: kindWords a := by
  unfold kindWords firstWord bodyWords
  cases a.type <;> rfl

def Action.Fresh (a : Action) : Prop := a.packetIdentifier = "" ∧ a.mods = .empty

variable {a a₀ : Action} {t tAction : Token}

theorem reads_send (ha : a.WellFormed) (hty : a.type = .SEND) (h₀ : a₀.Fresh) (ht : t.Means (numberWord a.range.start))
    (hr : Clear ["COUNTER", "TIMESTAMP"] rest) :
    Reads Token.Means (parseSend t tAction a₀) (kindWords a) rest (SameBody · a) := by
  have hw : kindWords a = [.operator ':', numberWord a.range.second] ++ (.identity a.packetIdentifier ::
      .keyword "COPIES" :: numberWord a.count ::
        (modWords a.mods.timestampMods a.mods.counterMods a.mods.modOrder ++ [])) := by
    unfold kindWords bodyWords
    rw [hty, List.append_nil]
    rfl
  rw [hw]
  unfold parseSend
  apply Reads.bind (reads_range ha.range ht tAction.text)
  rintro _ rfl
  apply reads_expect rfl
  intro t₁ ht₁
  have hcopies : Reads Token.Means expectCopies [] ((.keyword "COPIES" :: numberWord a.count ::
      (modWords a.mods.timestampMods a.mods.counterMods a.mods.modOrder ++ [])) ++ rest) fun _ => True := by
    unfold expectCopies
    refine Reads.look (P := fun _ => True) ?_ fun _ _ => ?_
    · unfold expectType
      exact reads_isExpected rfl (Reads.pure trivial)
    · apply reads_peek rfl
      intro t₂ ht₂
      have htext : t₂.text = "COPIES" := ht₂.text
      rw [if_pos htext]
      exact Reads.pure trivial
  refine Reads.look hcopies fun _ _ => reads_consume fun _ _ => ?_
  apply reads_expect rfl
  intro t₂ ht₂
  apply reads_lift (tryConvertInt_number ht₂ (ha.count (.inr hty)) "COPIES")
  rw [h₀.2]
  refine Reads.bind (reads_modList ha.mods hr) ?_
  rintro _ rfl
  exact Reads.pure ⟨hty.symm, rfl, ht₁.text, rfl, fun _ => rfl, fun h => by cases h⟩

theorem reads_ranged (ha : a.WellFormed) (hk : kindWords a = [.operator ':', numberWord a.range.second])
    (hty : a.type ≠ .CREATE ∧ a.type ≠ .SEND) (h₀ : a₀.Fresh) (ht : t.Means (numberWord a.range.start)) :
    Reads Token.Means (parseRanged a.type t tAction a₀) (kindWords a) rest (SameBody · a) := by
  have hbare := ha.bare hty.2
  rw [hk, ← List.append_nil [_, _]]
  unfold parseRanged
  apply Reads.bind (reads_range ha.range ht tAction.text)
  rintro _ rfl
  refine Reads.pure ⟨rfl, rfl, h₀.1.trans hbare.1.symm, h₀.2.trans hbare.2.symm, ?_, fun h => absurd h hty.1⟩
  exact fun h => h.elim (fun h => absurd h hty.1) fun h => absurd h hty.2

theorem reads_create (ha : a.WellFormed) (hty : a.type = .CREATE) (h₀ : a₀.Fresh) (ht : t.Means (numberWord a.count)) :
    Reads Token.Means (parseCreate t a₀) [] rest (SameBody · a) := by
  have hbare := ha.bare (by rw [hty]; decide)
  unfold parseCreate
  apply reads_lift (tryConvertInt_number ht (ha.count (.inl hty)) "CREATE")
  exact Reads.pure ⟨hty.symm, (ha.create hty).symm, h₀.1.trans hbare.1.symm, h₀.2.trans hbare.2.symm, fun _ => rfl,
    fun _ => rfl⟩

theorem reads_kind (ha : a.WellFormed) (h₀ : a₀.Fresh) (htAction : tAction.text = a.type.keyword)
    (ht : t.Means (firstWord a)) (hr : Clear ["COUNTER", "TIMESTAMP"] rest) :
    Reads Token.Means (parseActionKind tAction t a₀) (kindWords a) rest (SameBody · a) := by
  have hkind := @reads_ranged rest a a₀ t tAction ha
  unfold parseActionKind
  rw [htAction]
  cases hty : a.type with
  | CREATE =>
    have hw : kindWords a = [] := by unfold kindWords bodyWords; rw [hty]; rfl
    rw [hw]
    unfold firstWord at ht
    rw [hty] at ht
    exact reads_create ha hty h₀ ht
  | SEND =>
    unfold firstWord at ht
    rw [hty] at ht
    exact reads_send ha hty h₀ ht hr
  | CONNECT =>
    unfold firstWord at ht
    rw [hty] at ht hkind
    exact hkind (by unfold kindWords bodyWords; rw [hty]; rfl) (by decide) h₀ ht
  | FLOOD =>
    unfold firstWord at ht
    rw [hty] at ht hkind
    exact hkind (by unfold kindWords bodyWords; rw [hty]; rfl) (by decide) h₀ ht
  | DRAIN =>
    unfold firstWord at ht
    rw [hty] at ht hkind
    exact hkind (by unfold kindWords bodyWords; rw [hty]; rfl) (by decide) h₀ ht
  | DISCONNECT =>
    unfold firstWord at ht
    rw [hty] at ht hkind
    exact hkind (by unfold kindWords bodyWords; rw [hty]; rfl) (by decide) h₀ ht

theorem reads_offset {offsetMs : UInt32} {offset : List Word} (h : OffsetWords offsetMs offset) (hs : IsSmall offsetMs)
    (hr : Clear ["OFFSET"] rest) : Reads Token.Means parseOffset offset rest (· = offsetMs) := by
  unfold parseOffset
  cases h with
  | omitted h =>
    obtain ⟨w, hw, ht⟩ := hr
    refine reads_peek hw fun t hm => ?_
    have hnot : t.text ≠ "OFFSET" := by simpa [hm.text] using ht
    rw [if_neg hnot]
    exact Reads.pure h.symm
  | milliseconds =>
    refine reads_peek rfl fun t hm => ?_
    have htext : t.text = "OFFSET" := hm.text
    rw [if_pos htext]
    refine reads_consume fun _ _ => reads_expect rfl fun t' ht' => ?_
    exact reads_result (tryParseTime_milliseconds ht'.text hs) UInt32.ofNat_toNat
  | seconds n h =>
    have hn : n < 2 ^ 31 := by
      unfold IsSmall at hs
      omega
    have hval : UInt32.ofNat n * 1000 = offsetMs := by
      have hlt := offsetMs.toNat_lt
      refine UInt32.toNat_inj.mp ?_
      rw [UInt32.toNat_mul, UInt32.toNat_ofNat', h, Nat.mod_eq_of_lt (by omega : n < 2 ^ 32)]
      change n * 1000 % 2 ^ 32 = n * 1000
      exact Nat.mod_eq_of_lt (by omega)
    refine reads_peek rfl fun t hm => ?_
    have htext : t.text = "OFFSET" := hm.text
    rw [if_pos htext]
    refine reads_consume fun _ _ => reads_expect rfl fun t' ht' => ?_
    exact reads_result (tryParseTime_seconds ht'.text hn) hval

theorem reads_action (memory : Memory) (ha : a.WellFormed) {offset : List Word} (ho : OffsetWords a.offsetMs offset)
    (hr : Clear ["OFFSET", "COUNTER", "TIMESTAMP"] rest) :
    Reads Token.Means (parseAction memory) (bodyWords a ++ offset) rest (SameAction · a) := by
  have hr' : Clear ["COUNTER", "TIMESTAMP"] (offset ++ rest) := by
    cases ho with
    | omitted => exact hr.mono (by simp)
    | milliseconds => exact ⟨_, rfl, by decide⟩
    | seconds => exact ⟨_, rfl, by decide⟩
  rw [bodyWords_eq]
  unfold parseAction
  apply reads_expect rfl
  intro tAction htAction
  refine Reads.look (P := fun _ => True) (fun _ pos hp => ⟨pos, pos, rfl, hp, trivial⟩) fun n _ => ?_
  have hfirst : (firstWord a).token.1 = .Value := by
    unfold firstWord
    cases a.type <;> rfl
  apply reads_expect hfirst
  intro t ht
  apply Reads.bind (reads_kind ha ⟨rfl, rfl⟩ htAction.text ht (by simpa using hr'))
  intro b hb
  rw [← List.append_nil offset]
  apply Reads.bind (reads_offset ho ha.offsetMs (hr.mono (by simp)))
  intro offsetMs hms
  exact Reads.pure ⟨⟨hb.type, hb.range, hb.packetIdentifier, hb.mods, hb.count, hb.create⟩, hms⟩

theorem clear_closed : Clear ["OFFSET", "COUNTER", "TIMESTAMP"] (.braceClosed :: rest) := ⟨_, rfl, by decide⟩

theorem ActionsWords.clear {actions : List Action} {ws : List Word} (h : ActionsWords actions ws) :
    Clear ["OFFSET", "COUNTER", "TIMESTAMP"] (ws ++ .braceClosed :: rest) := by
  cases h with
  | nil => exact clear_closed
  | @cons a actions offset ws ho h =>
    rw [bodyWords_eq]
    refine ⟨_, rfl, ?_⟩
    cases a.type <;> decide

theorem ActionsWords.length_le {actions : List Action} {ws : List Word} (h : ActionsWords actions ws) :
    actions.length ≤ ws.length := by
  induction h with
  | nil => exact Nat.le_refl _
  | cons ho h ih =>
    rw [bodyWords_eq]
    simp only [List.length_cons, List.length_append]
    omega

theorem reads_actions (memory : Memory) : ∀ {actions : List Action} {ws : List Word} {fuel : Nat}
    {o : OrchestratorBlock}, ActionsWords actions ws → (∀ a ∈ actions, a.WellFormed) → actions.length < fuel →
    Reads Token.Means (parseActions memory fuel o) ws (.braceClosed :: rest) fun o' =>
      o'.settingsIdentifier = o.settingsIdentifier ∧
        ∃ read, o'.actions = o.actions ++ read ∧ List.Forall₂ SameAction read actions
  | _, _, 0, _, _, _, hf => absurd hf (Nat.not_lt_zero _)
  | [], _, fuel + 1, o, .nil, _, _ => by
    unfold parseActions
    exact reads_isExpected rfl (Reads.pure ⟨rfl, [], (List.append_nil _).symm, .nil⟩)
  | a :: actions, _, fuel + 1, o, @ActionsWords.cons _ _ offset ws ho h, ha, hf => by
    rw [List.forall_mem_cons] at ha
    rw [← List.append_assoc]
    unfold parseActions
    have hhead : ((bodyWords a ++ offset ++ ws) ++ .braceClosed :: rest).head? =
        some (.keyword a.type.keyword) := by
      rw [bodyWords_eq]
      rfl
    apply reads_isExpected hhead
    apply Reads.bind (reads_action memory ha.1 ho h.clear)
    intro b hb
    apply (reads_actions memory h ha.2 (Nat.lt_of_succ_lt_succ hf)).mono
    intro o' ho'
    obtain ⟨hid, read, hread, hsame⟩ := ho'
    exact ⟨hid, b :: read, by rw [hread, List.append_assoc]; rfl, .cons hb hsame⟩

theorem reads_orchestrator (memory : Memory) {o o₀ : OrchestratorBlock} (h₀ : o₀.actions = []) {ws : List Word}
    (h : OrchestratorWords o ws) (ha : ∀ a ∈ o.actions, a.WellFormed) :
    Reads Token.Means (parseOrchestrator memory o₀) ws rest (SameOrchestrator · o) := by
  obtain ⟨h⟩ := h
  unfold parseOrchestrator
  refine reads_consume fun _ _ => reads_expect rfl fun name hname => reads_expect rfl fun _ _ => ?_
  refine Reads.bind (reads_withFuel fun fuel hf =>
    reads_actions memory h ha (Nat.lt_of_le_of_lt h.length_le hf)) ?_
  intro o' ⟨hid, read, hread, hsame⟩
  refine reads_expect rfl fun _ _ => Reads.pure ⟨hid.trans hname.text, ?_⟩
  rw [hread, h₀]
  exact hsame

end

/-! ## SETTINGS -/

section
variable {rest : List Word}

/-- A loop over entries with commas between them, as the one over PACKETS and
the one over ENDPOINTS are. -/
theorem reads_entries {σ β : Type} {loop : Nat → σ → ParserM σ} {entry : σ → ParserM σ} {stuck : ParserM σ}
    {words : β → List Word} {add : σ → β → σ} (hloop : ∀ fuel s, loop (fuel + 1) s =
      isExpected .BraceClosed >>= fun b => if b = true then pure s else entry s >>= fun s' => isOperator "," >>= fun b =>
        if b = true then consume >>= fun _ => loop fuel s'
        else isExpected .BraceClosed >>= fun b => if b = true then pure s' else stuck)
    (hhead : ∀ e, ∃ w ws, words e = w :: ws ∧ w.token.1 ≠ .BraceClosed)
    (hentry : ∀ e s rest, Reads Token.Means (entry s) (words e) rest (· = add s e)) (trailing : Bool) :
    ∀ (entries : List β) {fuel : Nat} {s : σ}, entries.length < fuel →
      Reads Token.Means (loop fuel s) (entryWords trailing (entries.map words)) (.braceClosed :: rest)
        (· = entries.foldl add s)
  | _, 0, _, hf => absurd hf (Nat.not_lt_zero _)
  | [], fuel + 1, s, _ => by
    rw [hloop]
    exact reads_isExpected rfl (Reads.pure rfl)
  | e :: entries, fuel + 1, s, hf => by
    obtain ⟨w, ws, hw, hty⟩ := hhead e
    have hnext : ∀ {tail : List Word}, Reads Token.Means (isOperator "," >>= fun b =>
        if b = true then consume >>= fun _ => loop fuel (add s e)
        else isExpected .BraceClosed >>= fun b => if b = true then pure (add s e) else stuck) tail
          (.braceClosed :: rest) (· = entries.foldl add (add s e)) →
        Reads Token.Means (loop (fuel + 1) s) (words e ++ tail) (.braceClosed :: rest) (· = (e :: entries).foldl add s) := by
      intro tail htail
      rw [hloop]
      apply reads_isExpected (w := w) (by rw [hw]; rfl)
      rw [beq_eq_false_iff_ne.mpr hty]
      apply Reads.bind (hentry e s _)
      rintro _ rfl
      exact htail
    have hcomma : ∀ {tail : List Word}, Reads Token.Means (loop fuel (add s e)) tail (.braceClosed :: rest)
        (· = entries.foldl add (add s e)) → Reads Token.Means (isOperator "," >>= fun b =>
        if b = true then consume >>= fun _ => loop fuel (add s e)
        else isExpected .BraceClosed >>= fun b => if b = true then pure (add s e) else stuck) (.operator ',' :: tail)
          (.braceClosed :: rest) (· = entries.foldl add (add s e)) := fun htail =>
      reads_isOperator rfl (reads_consume fun _ _ => htail)
    have hrest := reads_entries hloop hhead hentry trailing entries (s := add s e) (Nat.lt_of_succ_lt_succ hf)
    cases entries with
    | nil =>
      cases trailing with
      | true => exact hnext (hcomma hrest)
      | false => exact hnext (reads_isOperator rfl (reads_isExpected rfl (Reads.pure rfl)))
    | cons e' entries => exact hnext (hcomma hrest)

theorem entryWords_length {β : Type} {words : β → List Word} (hhead : ∀ e, words e ≠ []) (trailing : Bool) :
    ∀ entries : List β, entries.length ≤ (entryWords trailing (entries.map words)).length
  | [] => Nat.zero_le _
  | [e] => by
    have := List.length_pos_iff.mpr (hhead e)
    simp only [List.map_cons, List.map_nil, entryWords, List.length_append, List.length_cons, List.length_nil]
    omega
  | e :: e' :: entries => by
    have ih := entryWords_length hhead trailing (e' :: entries)
    simp only [List.map_cons, entryWords, List.length_append, List.length_cons] at ih ⊢
    omega

def addEndpoint (s : SettingsBlock) (endpoint : String) : SettingsBlock :=
  { s with endpoints := s.endpoints ++ [endpoint] }

def addPacket (s : SettingsBlock) (packet : String × String) : SettingsBlock :=
  { s with packetIdentifiers := mapAssign packet.1 packet.2 s.packetIdentifiers }

theorem foldl_addEndpoint : ∀ (endpoints : List String) (s : SettingsBlock),
    endpoints.foldl addEndpoint s = { s with endpoints := s.endpoints ++ endpoints }
  | [], s => by simp
  | endpoint :: endpoints, s => by
    rw [List.foldl_cons, foldl_addEndpoint endpoints]
    simp [addEndpoint]

theorem mapAssign_new {β : Type} {key : String} {value : β} : ∀ {entries : List (String × β)},
    key ∉ entries.map (·.1) → mapAssign key value entries = entries ++ [(key, value)]
  | [], _ => rfl
  | e :: entries, h => by
    rw [List.map_cons, List.mem_cons, not_or] at h
    rw [mapAssign, if_neg (Ne.symm h.1), mapAssign_new h.2]
    rfl

theorem foldl_addPacket : ∀ (packets : List (String × String)) (s : SettingsBlock),
    ((s.packetIdentifiers ++ packets).map (·.1)).Nodup →
    packets.foldl addPacket s = { s with packetIdentifiers := s.packetIdentifiers ++ packets }
  | [], s, _ => by simp
  | packet :: packets, s, h => by
    have hnew : packet.1 ∉ s.packetIdentifiers.map (·.1) := by
      rw [List.map_append, List.map_cons] at h
      exact fun hm => (List.nodup_append.mp h).2.2 _ hm _ (List.mem_cons_self ..) rfl
    have hadd : addPacket s packet = { s with packetIdentifiers := s.packetIdentifiers ++ [packet] } := by
      unfold addPacket
      rw [mapAssign_new hnew]
    rw [List.foldl_cons, hadd, foldl_addPacket packets _ (by simpa using h)]
    simp

theorem reads_endpoints (endpoints : List String) (trailing : Bool) (s : SettingsBlock) :
    Reads Token.Means (withFuel (parseEndpoints · s)) (entryWords trailing (endpoints.map fun e => [.quoted e]))
      (.braceClosed :: rest) (· = { s with endpoints := s.endpoints ++ endpoints }) := by
  rw [← foldl_addEndpoint]
  apply reads_withFuel
  intro fuel hf
  have hlen := @entryWords_length String (fun e => [.quoted e]) (by simp) trailing endpoints
  refine @reads_entries rest _ _ parseEndpoints
    (fun s => expectType .Value >>= fun _ => consume >>= fun t => pure (addEndpoint s t.text))
    (peek >>= fun t => throw (badOperatorError t ",")) _ addEndpoint ?_ (fun e => ⟨_, _, rfl, by simp [Word.token]⟩) ?_
    trailing endpoints fuel s (Nat.lt_of_le_of_lt hlen hf)
  · intro fuel s
    simp only [bind_assoc, pure_bind]
    rfl
  · intro e s rest
    refine reads_expect rfl fun t ht => Reads.pure ?_
    rw [ht.text]
    rfl

theorem reads_packets (packets : List (String × String)) (trailing : Bool) (s : SettingsBlock)
    (hs : ((s.packetIdentifiers ++ packets).map (·.1)).Nodup) :
    Reads Token.Means (withFuel (parsePackets · s))
      (entryWords trailing (packets.map fun packet => [.identity packet.1, .operator ':', .quoted packet.2]))
      (.braceClosed :: rest) (· = { s with packetIdentifiers := s.packetIdentifiers ++ packets }) := by
  rw [← foldl_addPacket packets s hs]
  apply reads_withFuel
  intro fuel hf
  have hlen := @entryWords_length (String × String)
    (fun packet => [.identity packet.1, .operator ':', .quoted packet.2]) (by simp) trailing packets
  refine @reads_entries rest _ _ parsePackets
    (fun s => expectType .Identity >>= fun _ => consume >>= fun t => expectOperator ":" >>= fun _ => consume >>= fun _ =>
      expectType .Value >>= fun _ => consume >>= fun t' => pure (addPacket s (t.text, t'.text)))
    (peek >>= fun t => throw (badOperatorError t ",")) _ addPacket ?_ (fun e => ⟨_, _, rfl, by simp [Word.token]⟩) ?_
    trailing packets fuel s (Nat.lt_of_le_of_lt hlen hf)
  · intro fuel s
    simp only [bind_assoc, pure_bind]
    rfl
  · intro e s rest
    refine reads_expect rfl fun t ht => reads_operator rfl fun _ => reads_expect rfl fun t' ht' => Reads.pure ?_
    rw [ht.text, ht'.text]
    rfl

/-! ### Fields -/

def SettingsField.put (s acc : SettingsBlock) : SettingsField → SettingsBlock
  | SESSION => { acc with sessionProtocol := s.sessionProtocol }
  | PORT => { acc with port := s.port }
  | HEADERSIZE => { acc with headerSize := s.headerSize }
  | BODYMAX => { acc with bodyMax := s.bodyMax }
  | READ => { acc with read := s.read }
  | REPEAT => { acc with repeat' := s.repeat' }
  | SAMPLERATE => { acc with packetSampleRate := s.packetSampleRate }
  | SHARDS => { acc with shards := s.shards }
  | HANDLER => { acc with handlerValue := s.handlerValue }
  | ENDPOINTS => { acc with endpoints := s.endpoints }
  | PACKETS => { acc with packetIdentifiers := s.packetIdentifiers }

section
variable {s acc : SettingsBlock}

theorem SettingsField.put_same (f : SettingsField) : f.Same (f.put s acc) s := by
  cases f <;> rfl

theorem SettingsField.put_other {f g : SettingsField} (h : g ≠ f) {s' : SettingsBlock} (hg : g.Same acc s') :
    g.Same (f.put s acc) s' := by
  cases f <;> cases g <;> first | exact hg | exact absurd rfl h

theorem SettingsField.put_identifier (f : SettingsField) : (f.put s acc).identifier = acc.identifier := by
  cases f <;> rfl

theorem SettingsBlock.eq_of_same (hid : acc.identifier = s.identifier) (h : ∀ f : SettingsField, f.Same acc s) :
    acc = s := by
  have hsession := h .SESSION
  have hport := h .PORT
  have hheader := h .HEADERSIZE
  have hbody := h .BODYMAX
  have hread := h .READ
  have hrepeat := h .REPEAT
  have hrate := h .SAMPLERATE
  have hshards := h .SHARDS
  have hhandler := h .HANDLER
  have hendpoints := h .ENDPOINTS
  have hpackets := h .PACKETS
  cases acc
  cases s
  simp only [SettingsField.Same] at *
  simp only [*]

theorem reads_assignment {kw : String} {value : Word} {s' : SettingsBlock} (hv : value.token.1 = .Value)
    (h : ∀ t v : Token, t.text = kw → v.Means value → applySetting t v acc = .ok s') :
    Reads Token.Means (parseField acc) (SettingsField.assignment kw value) rest (· = s') := by
  unfold parseField
  refine reads_expect rfl fun t ht => reads_isExpected rfl ?_
  refine reads_operator rfl fun _ => reads_expect hv fun v hvm => reads_result (h t v ht.text hvm) rfl

theorem reads_closeNested : Reads Token.Means (closeNested acc) [.braceClosed] rest (· = acc) := by
  unfold closeNested
  exact reads_isExpected rfl (reads_consume fun _ _ => Reads.pure rfl)

theorem parseBool_word {b : Bool} {t : Token} (ht : t.Means (boolWord b)) :
    (b = true ∧ t.text = "true") ∨ (b = false ∧ t.text = "false") := by
  cases b with
  | true => exact .inl ⟨rfl, ht.text⟩
  | false => exact .inr ⟨rfl, ht.text⟩

theorem tryConvertInt_port {t : Token} {port : UInt16} (ht : t.Means (numberWord port.toUInt32)) :
    tryConvertInt t "PORT" = .ok port.toUInt32 := by
  refine tryConvertInt_number ht ?_ "PORT"
  have hlt := port.toNat_lt
  unfold IsSmall
  rw [UInt16.toNat_toUInt32]
  omega

theorem reads_field (hs : s.WellFormed) (trailing : SettingsField → Bool) (f : SettingsField)
    (hend : f = .ENDPOINTS → acc.endpoints = []) (hpack : f = .PACKETS → acc.packetIdentifiers = []) :
    Reads Token.Means (parseField acc) (f.words s trailing) rest (· = f.put s acc) := by
  cases f with
  | SESSION =>
    apply reads_assignment rfl
    intro t v ht hv
    have hval : v.text = s.sessionProtocol := hv.text
    simp [applySetting, ht, hval, SettingsField.put]
  | PORT =>
    apply reads_assignment rfl
    intro t v ht hv
    have hsmall : ¬ s.port.toUInt32 > 65535 := by
      have hlt := s.port.toNat_lt
      rw [gt_iff_lt, UInt32.lt_iff_toNat_lt, UInt16.toNat_toUInt32]
      change ¬ 65535 < _
      omega
    simp [applySetting, ht, tryConvertInt_port hv, hsmall, SettingsField.put, Except.bind, bind]
  | HEADERSIZE =>
    apply reads_assignment rfl
    intro t v ht hv
    simp [applySetting, ht, tryConvertInt_number hv hs.headerSize, SettingsField.put, Except.bind, bind, Except.pure, pure]
  | BODYMAX =>
    apply reads_assignment rfl
    intro t v ht hv
    simp [applySetting, ht, tryConvertInt_number hv hs.bodyMax, SettingsField.put, Except.bind, bind, Except.pure, pure]
  | READ =>
    apply reads_assignment rfl
    intro t v ht hv
    obtain ⟨hb, hval⟩ | ⟨hb, hval⟩ := parseBool_word hv <;>
      simp [applySetting, ht, hval, hb, SettingsField.put]
  | REPEAT =>
    apply reads_assignment rfl
    intro t v ht hv
    obtain ⟨hb, hval⟩ | ⟨hb, hval⟩ := parseBool_word hv <;>
      simp [applySetting, ht, hval, hb, SettingsField.put]
  | SAMPLERATE =>
    apply reads_assignment rfl
    intro t v ht hv
    simp [applySetting, ht, tryConvertInt_number hv hs.packetSampleRate, SettingsField.put, Except.bind, bind, Except.pure,
      pure]
  | SHARDS =>
    apply reads_assignment rfl
    intro t v ht hv
    simp [applySetting, ht, tryConvertInt_number hv hs.shards, SettingsField.put, Except.bind, bind, Except.pure, pure]
  | HANDLER =>
    apply reads_assignment rfl
    intro t v ht hv
    have hval : v.text = s.handlerValue := hv.text
    simp [applySetting, ht, hval, SettingsField.put]
  | ENDPOINTS =>
    unfold parseField
    refine reads_expect rfl fun t ht => reads_isExpected rfl (reads_consume fun _ _ => ?_)
    have htext : t.text = "ENDPOINTS" := ht.text
    rw [htext, if_neg (by decide), if_pos rfl]
    apply Reads.bind (reads_endpoints s.endpoints (trailing .ENDPOINTS) acc)
    rintro _ rfl
    rw [hend rfl, List.nil_append]
    exact reads_closeNested
  | PACKETS =>
    unfold parseField
    refine reads_expect rfl fun t ht => reads_isExpected rfl (reads_consume fun _ _ => ?_)
    have htext : t.text = "PACKETS" := ht.text
    rw [htext, if_pos rfl]
    have hkeys : ((acc.packetIdentifiers ++ s.packetIdentifiers).map (·.1)).Nodup := by
      rw [hpack rfl, List.nil_append]
      exact hs.distinct
    apply Reads.bind (reads_packets s.packetIdentifiers (trailing .PACKETS) acc hkeys)
    rintro _ rfl
    rw [hpack rfl, List.nil_append]
    exact reads_closeNested

theorem SettingsField.words_head (f : SettingsField) (trailing : SettingsField → Bool) :
    ∃ kw ws, f.words s trailing = .keyword kw :: ws := by
  cases f <;> exact ⟨_, _, rfl⟩

/-- The block as it is read: the fields still to come are as `start` has them,
the others as `s` does. -/
theorem reads_fields {start : SettingsBlock} (hs : s.WellFormed) (trailing : SettingsField → Bool)
    (hend : start.endpoints = []) (hpack : start.packetIdentifiers = []) : ∀ {fields : List SettingsField} {fuel : Nat}
    {acc : SettingsBlock}, fields.Nodup → (∀ f ∈ fields, f.Same acc start) → (∀ f ∉ fields, f.Same acc s) →
    acc.identifier = s.identifier → fields.length < fuel →
    Reads Token.Means (parseFields fuel acc) (fields.flatMap (SettingsField.words s trailing)) (.braceClosed :: rest) (· = s)
  | _, 0, _, _, _, _, _, hf => absurd hf (Nat.not_lt_zero _)
  | [], fuel + 1, acc, _, _, hdone, hid, _ => by
    unfold parseFields
    refine reads_isExpected rfl (Reads.pure ?_)
    exact SettingsBlock.eq_of_same hid fun f => hdone f (by simp)
  | f :: fields, fuel + 1, acc, hn, hleft, hdone, hid, hf => by
    rw [List.nodup_cons] at hn
    obtain ⟨kw, ws, hw⟩ := f.words_head (s := s) trailing
    rw [List.flatMap_cons]
    unfold parseFields
    apply reads_isExpected (w := .keyword kw) (by rw [hw]; rfl)
    have hsame := hleft f (List.mem_cons_self ..)
    refine Reads.bind (reads_field hs trailing f ?_ ?_) ?_
    · rintro rfl
      exact Eq.trans hsame hend
    · rintro rfl
      exact Eq.trans hsame hpack
    rintro _ rfl
    refine reads_fields hs trailing hend hpack hn.2 (fun g hg => ?_) (fun g hg => ?_) ?_ (Nat.lt_of_succ_lt_succ hf)
    · exact SettingsField.put_other (fun h : g = f => hn.1 (by rw [← h]; exact hg)) (hleft g (List.mem_cons_of_mem _ hg))
    · by_cases h : g = f
      · rw [h]
        exact f.put_same
      · exact SettingsField.put_other h (hdone g fun hm => (List.mem_cons.mp hm).elim h hg)
    · rw [f.put_identifier, hid]

theorem fields_length (trailing : SettingsField → Bool) : ∀ fields : List SettingsField,
    fields.length ≤ (fields.flatMap (SettingsField.words s trailing)).length
  | [] => Nat.zero_le _
  | f :: fields => by
    have ih := fields_length trailing fields
    obtain ⟨kw, ws, hw⟩ := f.words_head (s := s) trailing
    rw [List.flatMap_cons, hw]
    simp only [List.length_cons, List.length_append]
    omega

theorem reads_settings {start : SettingsBlock} (hs : s.WellFormed) (hend : start.endpoints = [])
    (hpack : start.packetIdentifiers = []) {ws : List Word} (h : SettingsWords start s ws) :
    Reads Token.Means (parseSettings start) ws rest (· = s) := by
  obtain ⟨fields, trailing, hn, hk⟩ := h
  unfold parseSettings
  refine reads_consume fun _ _ => Reads.look (P := fun _ => True) ?_ fun _ _ => ?_
  · unfold expectType
    exact reads_isExpected rfl (Reads.pure trivial)
  refine reads_peek rfl fun name hname => reads_consume fun _ _ => reads_expect rfl fun _ _ => ?_
  have hname' : name.text = s.identifier := hname.text
  have hsame : ∀ f : SettingsField, f.Same { start with identifier := name.text } start := by
    intro f
    cases f <;> rfl
  refine Reads.bind (reads_withFuel fun fuel hf => reads_fields hs trailing hend hpack hn (fun f _ => hsame f) ?_ hname'
    (Nat.lt_of_le_of_lt (fields_length trailing fields) hf)) ?_
  · intro f hf
    have := hk f hf
    cases f <;> exact this
  rintro _ rfl
  exact reads_expect rfl fun _ _ => Reads.pure rfl

end

end

/-! ## Scripts -/

section
variable {memory : Memory} {script : DSLData} {fuel : Nat} {ws ws' : List Word} {Q : DSLData → Prop}

theorem reads_settingsBlock {s : SettingsBlock} (hs : s.WellFormed) (hend : script.settings.endpoints = [])
    (hpack : script.settings.packetIdentifiers = []) (h : SettingsWords script.settings s ws)
    (hnext : Reads Token.Means (parseBlocks memory fuel { script with settings := s }) ws' [] Q) :
    Reads Token.Means (parseBlocks memory (fuel + 1) script) (ws ++ ws') [] Q := by
  have hsettings : Reads Token.Means (parseSettings script.settings) ws (ws' ++ []) (· = s) :=
    reads_settings hs hend hpack h
  have hhead : ((ws ++ ws') ++ []).head? = some (.keyword "SETTINGS") := by
    obtain ⟨fields, trailing⟩ := h
    rfl
  unfold parseBlocks
  refine reads_more hhead (reads_peek hhead fun t ht => ?_)
  have htext : t.text = "SETTINGS" := ht.text
  rw [if_pos htext]
  apply Reads.bind hsettings
  rintro _ rfl
  exact hnext

theorem reads_orchestratorBlock {o : OrchestratorBlock} (ha : ∀ a ∈ o.actions, a.WellFormed)
    (h₀ : script.orchestrator.actions = []) (h : OrchestratorWords o ws)
    (hnext : ∀ o', SameOrchestrator o' o →
      Reads Token.Means (parseBlocks memory fuel { script with orchestrator := o' }) ws' [] Q) :
    Reads Token.Means (parseBlocks memory (fuel + 1) script) (ws ++ ws') [] Q := by
  have horchestrator : Reads Token.Means (parseOrchestrator memory script.orchestrator) ws (ws' ++ [])
      (SameOrchestrator · o) := reads_orchestrator memory h₀ h ha
  have hhead : ((ws ++ ws') ++ []).head? = some (.keyword "ORCHESTRATOR") := by
    obtain ⟨h⟩ := h
    rfl
  unfold parseBlocks
  refine reads_more hhead (reads_peek hhead fun t ht => ?_)
  have htext : t.text = "ORCHESTRATOR" := ht.text
  rw [htext, if_neg (by decide), if_pos rfl]
  exact Reads.bind horchestrator hnext

theorem reads_noBlock (h : Q script) : Reads Token.Means (parseBlocks memory (fuel + 1) script) [] [] Q := by
  unfold parseBlocks
  exact reads_end (Reads.pure h)

end

theorem SettingsWords.ne_nil {start s : SettingsBlock} {ws : List Word} (h : SettingsWords start s ws) :
    0 < ws.length := by
  obtain ⟨fields, trailing⟩ := h
  exact Nat.succ_pos _

theorem OrchestratorWords.ne_nil {o : OrchestratorBlock} {ws : List Word} (h : OrchestratorWords o ws) :
    0 < ws.length := by
  obtain ⟨h⟩ := h
  exact Nat.succ_pos _

theorem reads_script (memory : Memory) {script : DSLData} (h : script.WellFormed) {ws : List Word}
    (hw : ScriptWords memory script ws) :
    Reads Token.Means (withFuel (parseBlocks memory · memory.toScript)) ws [] fun result =>
      result.settings = script.settings ∧ SameOrchestrator result.orchestrator script.orchestrator := by
  apply reads_withFuel
  intro fuel hf
  cases hw with
  | @settingsFirst ws ws' hs ho =>
    have hlen := hs.ne_nil
    have hlen' := ho.ne_nil
    rw [List.length_append] at hf
    obtain ⟨fuel, rfl⟩ : ∃ n, fuel = n + 3 := ⟨fuel - 3, by omega⟩
    rw [← List.append_nil ws']
    apply reads_settingsBlock h.settings rfl rfl hs
    exact reads_orchestratorBlock h.actions rfl ho fun o' ho' => reads_noBlock ⟨rfl, ho'⟩
  | @orchestratorFirst ws ws' ho hs =>
    have hlen := hs.ne_nil
    have hlen' := ho.ne_nil
    rw [List.length_append] at hf
    obtain ⟨fuel, rfl⟩ : ∃ n, fuel = n + 3 := ⟨fuel - 3, by omega⟩
    rw [← List.append_nil ws']
    apply reads_orchestratorBlock h.actions rfl ho
    intro o' ho'
    exact reads_settingsBlock h.settings rfl rfl hs (reads_noBlock ⟨rfl, ho'⟩)

/-! ## Words of a script -/

theorem keyword_valid {text : String} (h : text ∈ validKeywords) : (Word.keyword text).Valid := by
  have hall : ∀ text ∈ validKeywords, IsName text := by decide
  exact ⟨hall text h, h⟩

theorem number_valid (n : Nat) {unit : String} (h : unit.toList.all isValueChar = true) :
    (Word.number (toString n ++ unit)).Valid := by
  have hd := (decimal_toDigits n).2
  cases hn : Nat.toDigits 10 n with
  | nil => exact absurd hn Nat.toDigits_ne_nil
  | cons c cs =>
    rw [hn] at hd
    refine ⟨c, cs ++ unit.toList, ?_, hd c (List.mem_cons_self ..), ?_⟩
    · rw [String.toList_append, toString_toList, hn]
      rfl
    · intro d hm
      refine (List.mem_append.mp hm).elim (fun hm => ?_) fun hm => List.all_eq_true.mp h d hm
      simp [isValueChar, Char.isAlphanum, hd d (List.mem_cons_of_mem _ hm)]

theorem numberWord_valid (n : UInt32) : (numberWord n).Valid := by
  have h := @number_valid n.toNat "" rfl
  rwa [String.append_empty] at h

theorem operator_valid {c : Char} (h : c ∈ validTokenOperators) : (Word.operator c).Valid := h

def AllValid (ws : List Word) : Prop := ∀ w ∈ ws, w.Valid

@[simp] theorem allValid_nil : AllValid [] := fun _ h => by cases h

@[simp] theorem allValid_cons {w : Word} {ws : List Word} : AllValid (w :: ws) ↔ w.Valid ∧ AllValid ws :=
  List.forall_mem_cons

@[simp] theorem allValid_append {ws ws' : List Word} : AllValid (ws ++ ws') ↔ AllValid ws ∧ AllValid ws' :=
  List.forall_mem_append

theorem range_valid (r : Range) : AllValid (rangeWords r) := by
  simp [rangeWords, numberWord_valid, operator_valid (c := ':') (by decide)]

theorem quoted_valid {text : String} (h : text ∈ ["little", "big", "true", "false"] ++ timeFormats) :
    (Word.quoted text).Valid := by
  have hall : ∀ text ∈ ["little", "big", "true", "false"] ++ timeFormats, text.toList.getLast? ≠ some '\\' := by decide
  exact hall text h

theorem endian_valid (b : Bool) : (endianWord b).Valid := by
  cases b <;> exact quoted_valid (by decide)

theorem bool_valid (b : Bool) : (boolWord b).Valid := by
  cases b <;> exact quoted_valid (by decide)

theorem timestampWords_valid {m : TimestampModification} (hf : m.formatName ∈ timeFormats) :
    AllValid (timestampWords m) := by
  have hkw := @keyword_valid "TIMESTAMP" (by decide)
  have hq : (Word.quoted m.formatName).Valid := quoted_valid (List.mem_append_right _ hf)
  simp [timestampWords, hkw, hq, range_valid, endian_valid, operator_valid (c := ':') (by decide)]

theorem counterWords_valid (m : CounterModification) : AllValid (counterWords m) := by
  have hkw := @keyword_valid "COUNTER" (by decide)
  simp [counterWords, hkw, range_valid, endian_valid, numberWord_valid, operator_valid (c := ':') (by decide)]

theorem modWords_valid : ∀ (order : List ModificationType) {ts : List TimestampModification}
    {cs : List CounterModification}, (∀ m ∈ ts, m.formatName ∈ timeFormats) → AllValid (modWords ts cs order)
  | [], ts, cs, _ => by cases ts <;> cases cs <;> exact allValid_nil
  | .Timestamp :: order, [], cs, _ => by cases cs <;> exact allValid_nil
  | .Timestamp :: order, m :: ts, cs, h => by
    rw [List.forall_mem_cons] at h
    exact allValid_append.mpr ⟨timestampWords_valid h.1, modWords_valid order h.2⟩
  | .Counter :: order, ts, [], _ => by cases ts <;> exact allValid_nil
  | .Counter :: order, ts, m :: cs, h => by
    have hw : modWords ts (m :: cs) (.Counter :: order) = counterWords m ++ modWords ts cs order := by
      cases ts <;> rfl
    rw [hw]
    exact allValid_append.mpr ⟨counterWords_valid m, modWords_valid order h⟩

theorem bodyWords_valid {a : Action} (ha : a.WellFormed) : AllValid (bodyWords a) := by
  have hkw : (Word.keyword a.type.keyword).Valid := by
    cases a.type <;> exact keyword_valid (by decide)
  have hcopies := @keyword_valid "COPIES" (by decide)
  have hmods := @modWords_valid a.mods.modOrder a.mods.timestampMods a.mods.counterMods
    fun m hm => (ha.mods.timestamps m hm).2
  have hpacket := ha.packet
  unfold bodyWords
  cases hty : a.type with
  | SEND =>
    rw [hty] at hkw
    have hid : (Word.identity a.packetIdentifier).Valid := hpacket hty
    simpa [range_valid, numberWord_valid, hcopies, hmods, hid, ActionType.keyword] using hkw
  | _ =>
    rw [hty] at hkw
    simpa [range_valid, numberWord_valid, ActionType.keyword] using hkw

theorem OffsetWords.valid {offsetMs : UInt32} {ws : List Word} (h : OffsetWords offsetMs ws) : AllValid ws := by
  have hkw := @keyword_valid "OFFSET" (by decide)
  cases h with
  | omitted => exact allValid_nil
  | milliseconds => simpa [hkw] using number_valid offsetMs.toNat (by decide)
  | seconds n => simpa [hkw] using number_valid n (by decide)

theorem ActionsWords.valid {actions : List Action} {ws : List Word} (h : ActionsWords actions ws)
    (ha : ∀ a ∈ actions, a.WellFormed) : AllValid ws := by
  induction h with
  | nil => exact allValid_nil
  | cons ho h ih =>
    rw [List.forall_mem_cons] at ha
    simp [bodyWords_valid ha.1, ho.valid, ih ha.2]

theorem OrchestratorWords.valid {o : OrchestratorBlock} {ws : List Word} (h : OrchestratorWords o ws)
    (hid : IsIdentifier o.settingsIdentifier) (ha : ∀ a ∈ o.actions, a.WellFormed) : AllValid ws := by
  obtain ⟨h⟩ := h
  have hkw := @keyword_valid "ORCHESTRATOR" (by decide)
  have hid' : (Word.identity o.settingsIdentifier).Valid := hid
  have hopen : Word.braceOpen.Valid := trivial
  have hclosed : Word.braceClosed.Valid := trivial
  simp [hkw, hid', hopen, hclosed, h.valid ha]

theorem entryWords_valid (trailing : Bool) : ∀ {entries : List (List Word)}, (∀ e ∈ entries, AllValid e) →
    AllValid (entryWords trailing entries)
  | [], _ => allValid_nil
  | [e], h => by
    have hcomma : (Word.operator ',').Valid := operator_valid (by decide)
    cases trailing <;> simpa [entryWords, hcomma] using h
  | e :: e' :: entries, h => by
    rw [List.forall_mem_cons] at h
    have hcomma : (Word.operator ',').Valid := operator_valid (by decide)
    simp [entryWords, hcomma, h.1, entryWords_valid trailing h.2]

theorem SettingsField.words_valid {s : SettingsBlock} (hs : s.WellFormed) (trailing : SettingsField → Bool)
    (f : SettingsField) : AllValid (f.words s trailing) := by
  have hkw : ∀ kw ∈ validKeywords, (Word.keyword kw).Valid := fun _ h => keyword_valid h
  have hassign : ∀ kw ∈ validKeywords, ∀ value : Word, value.Valid → AllValid (assignment kw value) := by
    intro kw hm value hv
    simp [assignment, hkw kw hm, hv, operator_valid (c := '=') (by decide)]
  have hblock : ∀ kw ∈ validKeywords, ∀ entries : List (List Word), (∀ e ∈ entries, AllValid e) →
      AllValid (block kw (trailing f) entries) := by
    intro kw hm entries he
    have hopen : Word.braceOpen.Valid := trivial
    have hclosed : Word.braceClosed.Valid := trivial
    simp [block, hkw kw hm, hopen, hclosed, entryWords_valid (trailing f) he]
  cases f with
  | SESSION => exact hassign _ (by decide) _ hs.sessionProtocol
  | PORT => exact hassign _ (by decide) _ (numberWord_valid _)
  | HEADERSIZE => exact hassign _ (by decide) _ (numberWord_valid _)
  | BODYMAX => exact hassign _ (by decide) _ (numberWord_valid _)
  | READ => exact hassign _ (by decide) _ (bool_valid _)
  | REPEAT => exact hassign _ (by decide) _ (bool_valid _)
  | SAMPLERATE => exact hassign _ (by decide) _ (numberWord_valid _)
  | SHARDS => exact hassign _ (by decide) _ (numberWord_valid _)
  | HANDLER => exact hassign _ (by decide) _ hs.handlerValue
  | ENDPOINTS =>
    apply hblock _ (by decide) _
    intro e he
    obtain ⟨endpoint, hm, rfl⟩ := List.mem_map.mp he
    exact allValid_cons.mpr ⟨hs.endpoints endpoint hm, allValid_nil⟩
  | PACKETS =>
    apply hblock _ (by decide) _
    intro e he
    obtain ⟨packet, hm, rfl⟩ := List.mem_map.mp he
    have hp := hs.packets packet hm
    exact allValid_cons.mpr ⟨hp.1, allValid_cons.mpr ⟨operator_valid (by decide),
      allValid_cons.mpr ⟨hp.2, allValid_nil⟩⟩⟩

theorem SettingsWords.valid {start s : SettingsBlock} {ws : List Word} (h : SettingsWords start s ws)
    (hs : s.WellFormed) : AllValid ws := by
  obtain ⟨fields, trailing⟩ := h
  have hkw := @keyword_valid "SETTINGS" (by decide)
  have hid : (Word.identity s.identifier).Valid := hs.identifier
  have hopen : Word.braceOpen.Valid := trivial
  have hclosed : Word.braceClosed.Valid := trivial
  have hfields : AllValid (fields.flatMap (SettingsField.words s trailing)) := by
    intro w hw
    obtain ⟨f, -, hf⟩ := List.mem_flatMap.mp hw
    exact f.words_valid hs trailing w hf
  simp [hkw, hid, hopen, hclosed, hfields]

theorem ScriptWords.valid {memory : Memory} {script : DSLData} {ws : List Word} (h : ScriptWords memory script ws)
    (hw : script.WellFormed) : AllValid ws := by
  cases h with
  | settingsFirst hs ho =>
    exact allValid_append.mpr ⟨hs.valid hw.settings, ho.valid hw.settingsIdentifier hw.actions⟩
  | orchestratorFirst ho hs =>
    exact allValid_append.mpr ⟨ho.valid hw.settingsIdentifier hw.actions, hs.valid hw.settings⟩

/-! ## The round trip -/

theorem written_read (memory : Memory) {script : DSLData} {text : List Char} (h : script.WellFormed)
    (hw : Written memory script text) : ∃ toks result, tokenize text = .ok toks ∧ parse memory toks = .ok result ∧
      result.settings = script.settings ∧ SameOrchestrator result.orchestrator script.orchestrator := by
  obtain ⟨ws, hs, ht⟩ := hw
  obtain ⟨toks, htoks, hmeans⟩ := tokenize_text ht (hs.valid h)
  have hat : At Token.Means toks 0 (ws ++ []) := by
    rw [List.append_nil]
    exact hmeans
  obtain ⟨result, pos, hr, -, hset, horch⟩ := reads_script memory h hs toks 0 hat
  refine ⟨toks, result, htoks, ?_, hset, horch⟩
  unfold parse
  rw [hr]
  rfl

def writtenScript : DSLData where
  settings := { Memory.zero.toScript.settings with
    identifier := "S", port := 80, packetIdentifiers := [("p", "a\"$")] }
  orchestrator :=
    { settingsIdentifier := "S"
      actions :=
        [ ⟨.CREATE, 2, ⟨0, 2⟩, 250, "", .empty⟩,
          ⟨.SEND, 1, ⟨0, 2⟩, 2000, "p",
            (ModList.empty.pushTimestamp ⟨⟨0, 8⟩, true, "seconds"⟩).pushCounter ⟨⟨8, 8⟩, 3, false⟩⟩ ] }

theorem written_read_comments : ∃ toks result,
    tokenize ("// a script\nSETTINGS S \x7b PORT = 80 PACKETS \x7b p : \"a\\\"\\$\" , \x7d \x7d// next\nORCHESTRATOR S \x7b CREATE 2 " ++
      "SEND 0 : 2 p COPIES 1 TIMESTAMP 0 : 8 \"little\" : \"seconds\" COUNTER 8 : 8 \"big\" : 3 OFFSET 2s \x7d").toList =
        .ok toks ∧ parse Memory.zero toks = .ok result ∧ result.settings = writtenScript.settings ∧
      SameOrchestrator result.orchestrator writtenScript.orchestrator := by
  refine @written_read Memory.zero writtenScript _ ⟨?_, by decide, ?_⟩ ?_
  · exact ⟨by decide, by decide, by decide, by decide, by decide, by decide, by decide, by decide, by decide, by decide⟩
  · intro a ha
    have hr : Range.WellFormed ⟨0, 2⟩ := ⟨by decide, by decide⟩
    have hmods : ModList.empty.WellFormed := ⟨by simp [ModList.empty], by simp [ModList.empty]⟩
    obtain rfl | rfl := List.mem_cons.mp ha |>.imp_right List.mem_singleton.mp
    · exact ⟨hr, by decide, fun _ => rfl, fun _ => by decide, by simp, hmods, fun _ => ⟨rfl, rfl⟩⟩
    · have ht : Range.WellFormed ⟨0, 8⟩ := ⟨by decide, by decide⟩
      have hc : Range.WellFormed ⟨8, 8⟩ := ⟨by decide, by decide⟩
      refine ⟨hr, by decide, by simp, fun _ => by decide, fun _ => by decide, ⟨?_, ?_⟩, fun h => absurd rfl h⟩
      · exact List.forall_mem_singleton.mpr ⟨ht, by decide⟩
      · exact List.forall_mem_singleton.mpr ⟨hc, by decide⟩
  · have hsettings : SettingsWords Memory.zero.toScript.settings writtenScript.settings _ :=
      .mk [.PORT, .PACKETS] (fun _ => true) (by decide) fun f hf => by
        cases f <;> first | rfl | exact absurd (by decide) hf
    have hactions : ActionsWords writtenScript.orchestrator.actions _ :=
      .cons (.omitted rfl) (.cons (.seconds 2 rfl) .nil)
    let spaced (ws : List Word) : List (Word × List Gap) := ws.map fun w => (w, [.blank ' ' (by decide)])
    refine ⟨_, .settingsFirst hsettings (.mk hactions), [.comment " a script".toList (by decide)],
      spaced (.keyword "SETTINGS" :: .identity "S" :: .braceOpen ::
        [SettingsField.PORT, .PACKETS].flatMap (SettingsField.words writtenScript.settings fun _ => true)) ++
      [(.braceClosed, [.comment " next".toList (by decide)])] ++
      spaced (.keyword "ORCHESTRATOR" :: .identity "S" :: .braceOpen ::
        (bodyWords writtenScript.orchestrator.actions[0] ++ bodyWords writtenScript.orchestrator.actions[1] ++
          [.keyword "OFFSET", .number "2s"])) ++ [(.braceClosed, [])], ?_, ?_, ?_⟩
    · rfl
    · rw [String.toList_append]
      decide +kernel
    · rw [List.dropLast_concat]
      intro item hi
      simp only [List.mem_append, spaced, List.mem_map, List.mem_singleton] at hi
      obtain (⟨w, -, rfl⟩ | rfl) | ⟨w, -, rfl⟩ := hi <;> exact List.cons_ne_nil _ _

end Loadshear
