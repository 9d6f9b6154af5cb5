import Loadshear.Grammar
import Loadshear.Parsing
import Loadshear.PrinterSound

/-!
# The parser and the grammar of actions

What the functions of the parser accept, from the access to a token up to the
loop over the actions of an ORCHESTRATOR block (`parses_actions`).
-/

namespace Loadshear

open Parsing Languages

/-! ## Access -/

theorem getElem?_of_drop {toks rest : List Token} {pos : Nat} {t : Token} (h : toks.drop pos = t :: rest) :
    toks[pos]? = some t := by
  rw [← List.head?_drop, h]
  rfl

theorem peek_of_drop {toks rest : List Token} {pos : Nat} {t : Token} (h : toks.drop pos = t :: rest) :
    peek toks pos = .ok (t, pos) := by
  unfold peek
  rw [getElem?_of_drop h]
  rfl

theorem skips_consume : Skips consume := by
  intro toks pos t rest h
  have hlt : pos < toks.length := by
    have := congrArg List.length h
    rw [List.length_drop, List.length_cons] at this
    omega
  have ht := getElem?_of_drop h
  rw [List.getElem?_eq_getElem hlt] at ht
  unfold consume
  simpa [hlt] using ht

theorem tests_isExpected (ty : TokenType) : Tests (isExpected ty) (Leads fun t => t.type = ty) := by
  intro toks pos
  unfold isExpected
  rw [← List.head?_drop]
  cases toks.drop pos with
  | nil => exact ⟨false, rfl, by simp [not_leads_nil]⟩
  | cons t rest => exact ⟨_, rfl, by simp⟩

theorem tests_isOperator (op : String) : Tests (isOperator op) (Leads fun t => t.type = .Operator ∧ t.text = op) := by
  intro toks pos
  obtain ⟨b, hb, hA⟩ := tests_isExpected .Operator toks pos
  unfold isOperator
  rw [bind_run hb]
  cases hd : toks.drop pos with
  | nil =>
    rw [hd] at hA
    have hfalse : b = false := by simpa [not_leads_nil] using hA
    rw [hfalse]
    exact ⟨false, rfl, by simp [not_leads_nil]⟩
  | cons t rest =>
    rw [hd, leads_cons] at hA
    rw [bind_run (peek_of_drop hd)]
    exact ⟨_, rfl, by simp [hA]⟩

section
variable {α σ : Type} {n : Nat} {k : Token → ParserM α} {D : Token → σ → List Token → List Token → Prop} {V : σ → α → Prop}

theorem throwPeek_fails {β : Type} (e : Token → String) (k : β → ParserM α) (toks : List Token) (pos : Nat)
    (r : α × Nat) : ((peek >>= fun t => throw (e t)) >>= k) toks pos ≠ .ok r := by
  intro h
  cases h

theorem parses_take {test : ParserM Bool} {A : Token → Prop} {e : Token → String} (ht : Tests test (Leads A))
    (hk : ∀ t, A t → Parses n (k t) (D t) V) :
    Parses n ((test >>= fun b => if b = true then pure () else peek >>= fun t => throw (e t)) >>= fun _ =>
      consume >>= k) (fun s w rest => ∃ t v, w = t :: v ∧ A t ∧ D t s v rest) V := by
  have heq : ((test >>= fun b => if b = true then pure () else peek >>= fun t => throw (e t)) >>= fun _ => consume >>= k) =
      test >>= fun b => if b = true then consume >>= k
        else (peek >>= fun t => throw (e t) : ParserM Unit) >>= fun _ => consume >>= k := by
    rw [bind_assoc]
    congr 1
    funext b
    cases b with
    | true => exact pure_bind () _
    | false => rfl
  rw [heq]
  apply (Parses.ite_skip ht skips_consume (Nat.le_succ n) hk (Parses.fail (throwPeek_fails e _))).congr
  intro s w rest
  exact ⟨fun h => h.elim id fun h => h.2.elim, Or.inl⟩

theorem parses_read {ty : TokenType} (hk : ∀ t, t.type = ty → Parses n (k t) (D t) V) :
    Parses n (expectType ty >>= fun _ => consume >>= k) (fun s w rest => ∃ t v, w = t :: v ∧ t.type = ty ∧ D t s v rest) V :=
  parses_take (tests_isExpected ty) hk

theorem parses_operator {op : String} {k : ParserM α} {D : σ → List Token → List Token → Prop} (hk : Parses n k D V) :
    Parses n (expectOperator op >>= fun _ => consume >>= fun _ => k)
      (fun s w rest => ∃ t v, w = t :: v ∧ (t.type = .Operator ∧ t.text = op) ∧ D s v rest) V :=
  parses_take (tests_isOperator op) fun _ _ => hk

theorem parses_lift {β : Type} {r : ParseResult β} {k : β → ParserM α} {D : β → σ → List Token → List Token → Prop}
    (hk : ∀ b, r = .ok b → Parses n (k b) (D b) V) :
    Parses n (liftResult r >>= k) (fun s w rest => ∃ b, r = .ok b ∧ D b s w rest) V := by
  cases r with
  | error e =>
    apply (Parses.fail (p := liftResult (.error e) >>= k) (fun _ _ _ h => by cases h)).congr
    intro s w rest
    constructor
    · exact fun h => h.elim
    · rintro ⟨_, h, _⟩
      cases h
  | ok b =>
    have heq : liftResult (.ok b) >>= k = k b := rfl
    rw [heq]
    apply (hk b rfl).congr
    intro s w rest
    constructor
    · exact fun h => ⟨b, rfl, h⟩
    · rintro ⟨_, h, hd⟩
      cases h
      exact hd

end

/-! ## Ranges and modifications -/

section
variable {n : Nat}

theorem parses_result {α σ : Type} {r : ParseResult α} {V : σ → α → Prop} (make : α → σ) (h : ∀ a, V (make a) a) :
    Parses n (liftResult r) (fun s w _ => ∃ a, r = .ok a ∧ s = make a ∧ w = []) V := by
  have heq : liftResult r = liftResult r >>= fun a => pure a := (bind_pure _).symm
  rw [heq]
  exact parses_lift fun a _ => Parses.pure (h a)

theorem parses_range (first : Token) (kw : String) : Parses n (tryParseRange first kw)
    (fun (r : Range) w _ => Begins first.text.toList r.start.toNat ∧
      w ∈ Grammar.operator ":" * Grammar.integer r.second) (fun r a => a = r) := by
  unfold tryParseRange
  apply (parses_operator (parses_read fun v _ => parses_lift fun a _ => parses_lift fun b _ =>
    Parses.returns (Range.mk a b))).congr
  intro r w rest
  simp only [tryConvertInt_iff, Grammar.operator, Grammar.word, Grammar.integer, mem_one_mul, mem_one]
  constructor
  · rintro ⟨t, _, rfl, ht, v, _, rfl, hv, a, ha, b, hb, rfl, rfl⟩
    exact ⟨ha, t, [v], rfl, ht, v, rfl, hv, hb⟩
  · rintro ⟨ha, t, _, rfl, ht, v, rfl, hv, hb⟩
    exact ⟨t, [v], rfl, ht, v, [], rfl, hv, r.start, ha, r.second, hb, rfl, rfl⟩

theorem parses_modArguments : Parses n parseModArguments
    (fun (s : Token × Token) w _ => s.1.type = .Value ∧ s.2.type = .Value ∧
      ∃ t, w = [s.1, t, s.2] ∧ t.type = .Operator ∧ t.text = ":") (fun s a => a = s) := by
  unfold parseModArguments
  apply (parses_read fun x _ => parses_operator (parses_read fun y _ => Parses.returns (x, y))).congr
  intro s w rest
  constructor
  · rintro ⟨x, _, rfl, hx, t, _, rfl, ht, y, _, rfl, hy, rfl, rfl⟩
    exact ⟨hx, hy, t, rfl, ht⟩
  · rintro ⟨hx, hy, t, rfl, ht⟩
    exact ⟨s.1, _, rfl, hx, t, _, rfl, ht, s.2, [], rfl, hy, rfl, rfl⟩

def Grammar.Modification.push (mods : ModList) : Grammar.Modification → ModList
  | TIMESTAMP m => mods.pushTimestamp m
  | COUNTER m => mods.pushCounter m

def Grammar.Modification.kind : Grammar.Modification → ModificationType
  | TIMESTAMP _ => .Timestamp
  | COUNTER _ => .Counter

theorem parseEndian_iff {t : Token} {b : Bool} : parseEndian t = .ok b ↔ t.text = if b then "little" else "big" := by
  unfold parseEndian
  by_cases hl : t.text = "little"
  · rw [if_pos hl, hl]
    cases b <;> simp
  · by_cases hb : t.text = "big"
    · rw [if_neg hl, if_pos hb, hb]
      cases b <;> simp
    · rw [if_neg hl, if_neg hb]
      cases b <;> simp [hl, hb]

/-- The arguments of a modification, by what comes behind their second colon. -/
theorem mem_arguments {r : Range} {b : Bool} {L : Language Token} {w : List Token} :
    w ∈ Grammar.range r * (Grammar.endian b * (Grammar.operator ":" * L)) ↔
      ∃ v u t c x, w = v :: (u ++ t :: c :: x) ∧ (v.type = .Value ∧ Begins v.text.toList r.start.toNat) ∧
        u ∈ Grammar.operator ":" * Grammar.integer r.second ∧ (t.type = .Value ∧ t.text = if b then "little" else "big") ∧
        (c.type = .Operator ∧ c.text = ":") ∧ x ∈ L := by
  simp only [Grammar.range, Grammar.endian, Grammar.value, Grammar.integer, mem_mul_iff (L := one _ * _),
    Grammar.word, mem_one_mul, Grammar.operator]
  constructor
  · rintro ⟨_, _, rfl, ⟨v, u, rfl, hv, hu⟩, t, _, rfl, ht, c, x, rfl, hc, hx⟩
    exact ⟨v, u, t, c, x, rfl, hv, hu, ht, hc, hx⟩
  · rintro ⟨v, u, t, c, x, rfl, hv, hu, ht, hc, hx⟩
    exact ⟨v :: u, _, rfl, ⟨v, u, rfl, hv, hu⟩, t, _, rfl, ht, c, x, rfl, hc, hx⟩

theorem parses_timestampEnd (mods : ModList) (r : Range) (first second : Token) :
    Parses n (liftResult (parseEndian first) >>= fun littleEndian =>
        if second.text ∈ ["seconds", "milliseconds", "microseconds", "nanoseconds"] then
          pure (mods.pushTimestamp ⟨r, littleEndian, second.text⟩)
        else throw (badTimeFormat second))
      (fun (s : Grammar.Modification) w _ => w = [] ∧ ∃ littleEndian,
        s = .TIMESTAMP ⟨r, littleEndian, second.text⟩ ∧
          (first.text = if littleEndian then "little" else "big") ∧ second.text ∈ timeFormats)
      (fun s a => a = s.push mods) := by
  apply (parses_lift fun b _ => Parses.guard (fun _ => Parses.pure
    (V := fun s a => a = s.push mods) (s := Grammar.Modification.TIMESTAMP ⟨r, b, second.text⟩) rfl) fun _ _ _ h => by cases h).congr
  intro s w rest
  simp only [parseEndian_iff]
  constructor
  · rintro ⟨b, hb, hf, rfl, rfl⟩
    exact ⟨rfl, b, rfl, hb, hf⟩
  · rintro ⟨rfl, b, rfl, hb, hf⟩
    exact ⟨b, hb, hf, rfl, rfl⟩

theorem parses_counterEnd (mods : ModList) (r : Range) (first second : Token) :
    Parses n (liftResult (parseEndian first) >>= fun littleEndian =>
        liftResult (tryConvertInt second "COUNTER") >>= fun step => pure (mods.pushCounter ⟨r, step, littleEndian⟩))
      (fun (s : Grammar.Modification) w _ => w = [] ∧ ∃ littleEndian step,
        s = .COUNTER ⟨r, step, littleEndian⟩ ∧
          (first.text = if littleEndian then "little" else "big") ∧ Begins second.text.toList step.toNat)
      (fun s a => a = s.push mods) := by
  apply (parses_lift fun b _ => parses_lift fun step _ => Parses.pure
    (V := fun s a => a = s.push mods) (s := Grammar.Modification.COUNTER ⟨r, step, b⟩) rfl).congr
  intro s w rest
  simp only [parseEndian_iff, tryConvertInt_iff]
  constructor
  · rintro ⟨b, hb, step, hs, rfl, rfl⟩
    exact ⟨rfl, b, step, rfl, hb, hs⟩
  · rintro ⟨rfl, b, step, rfl, hb, hs⟩
    exact ⟨b, hb, step, hs, rfl, rfl⟩

theorem parses_option {α σ : Type} {k : Range → Token × Token → ParserM α}
    {D : Range → Token → Token → σ → Prop} {V : σ → α → Prop}
    (hk : ∀ r x y, Parses n (k r (x, y)) (fun s w _ => w = [] ∧ D r x y s) V) :
    Parses n (expectType .Value >>= fun _ => consume >>= fun first => tryParseRange first "TIMESTAMP" >>= fun r =>
        parseModArguments >>= k r)
      (fun s w _ => ∃ r v u t c x, w = v :: (u ++ [t, c, x]) ∧
        (v.type = .Value ∧ Begins v.text.toList r.start.toNat) ∧
        u ∈ Grammar.operator ":" * Grammar.integer r.second ∧ t.type = .Value ∧ (c.type = .Operator ∧ c.text = ":") ∧
        x.type = .Value ∧ D r t x s) V := by
  apply (parses_read fun v _ => (parses_range v "TIMESTAMP").bind_eq fun r => parses_modArguments.bind_eq
    fun p => hk r p.1 p.2).congr
  intro s w rest
  constructor
  · rintro ⟨v, _, rfl, hv, r, u, _, rfl, ⟨hb, hu⟩, ⟨t, x⟩, _, _, rfl, ⟨ht, hx, c, rfl, hc⟩, rfl, hD⟩
    exact ⟨r, v, u, t, c, x, rfl, ⟨hv, hb⟩, hu, ht, hc, hx, hD⟩
  · rintro ⟨r, v, u, t, c, x, rfl, ⟨hv, hb⟩, hu, ht, hc, hx, hD⟩
    exact ⟨v, _, rfl, hv, r, u, _, rfl, ⟨hb, hu⟩, (t, x), [t, c, x], [], rfl, ⟨ht, hx, c, rfl, hc⟩, rfl, hD⟩

theorem parses_sendOption (kind : ModificationType) (mods : ModList) : Parses n (tryParseSendOption kind mods)
    (fun (s : Grammar.Modification) w _ => s.kind = kind ∧ w ∈ s.arguments) (fun s a => a = s.push mods) := by
  cases kind with
  | Timestamp =>
    apply (parses_option (parses_timestampEnd mods)).congr
    intro s w rest
    constructor
    · rintro ⟨r, v, u, t, c, x, rfl, hv, hu, ht, hc, hx, b, rfl, hb, hf⟩
      exact ⟨rfl, mem_arguments.mpr ⟨v, u, t, c, [x], rfl, hv, hu, ⟨ht, hb⟩, hc, x, rfl, hx, rfl, hf⟩⟩
    · rintro ⟨hk, h⟩
      cases s with
      | COUNTER m => cases hk
      | TIMESTAMP m =>
        obtain ⟨v, u, t, c, _, rfl, hv, hu, ⟨ht, hb⟩, hc, x, rfl, hx, htext, hf⟩ := mem_arguments.mp h
        cases m
        subst htext
        exact ⟨_, v, u, t, c, x, rfl, hv, hu, ht, hc, hx, _, rfl, hb, hf⟩
  | Counter =>
    apply (parses_option (parses_counterEnd mods)).congr
    intro s w rest
    constructor
    · rintro ⟨r, v, u, t, c, x, rfl, hv, hu, ht, hc, hx, b, step, rfl, hb, hstep⟩
      exact ⟨rfl, mem_arguments.mpr ⟨v, u, t, c, [x], rfl, hv, hu, ⟨ht, hb⟩, hc, x, rfl, hx, hstep⟩⟩
    · rintro ⟨hk, h⟩
      cases s with
      | TIMESTAMP m => cases hk
      | COUNTER m =>
        obtain ⟨v, u, t, c, _, rfl, hv, hu, ⟨ht, hb⟩, hc, x, rfl, hx, hstep⟩ := mem_arguments.mp h
        exact ⟨_, v, u, t, c, x, rfl, hv, hu, ht, hc, hx, _, _, rfl, hb, hstep⟩

/-! ## The options of a SEND -/

def IsOption (t : Token) : Prop := t.type = .Keyword ∧ t.text ∈ ["COUNTER", "TIMESTAMP"]

def sendOption (mods : ModList) : ParserM ModList := do
  expectType .Keyword
  let t ← consume
  if t.text = "COUNTER" then tryParseSendOption .Counter mods
  else if t.text = "TIMESTAMP" then tryParseSendOption .Timestamp mods
  else throw ""

theorem throw_fails {α : Type} (e : String) (toks : List Token) (pos : Nat) (r : α × Nat) :
    (throw e : ParserM α) toks pos ≠ .ok r := by
  intro h
  cases h

theorem parses_sendOptionPass (mods : ModList) : Parses n (sendOption mods)
    (fun (s : Grammar.Modification) w _ => w ∈ s.tokens) (fun s a => a = s.push mods) := by
  unfold sendOption
  apply (parses_read fun t _ => Parses.choose (fun _ => parses_sendOption .Counter mods) fun _ =>
    Parses.guard (fun _ => parses_sendOption .Timestamp mods) (throw_fails "")).congr
  intro s w rest
  rw [Grammar.Modification.tokens, Grammar.keyword, Grammar.word, mem_one_mul]
  constructor
  · rintro ⟨t, v, rfl, hty, ⟨ht, hk, hv⟩ | ⟨-, ht, hk, hv⟩⟩
    · cases s with
      | COUNTER m => exact ⟨t, v, rfl, ⟨hty, ht⟩, hv⟩
      | TIMESTAMP m => cases hk
    · cases s with
      | COUNTER m => cases hk
      | TIMESTAMP m => exact ⟨t, v, rfl, ⟨hty, ht⟩, hv⟩
  · rintro ⟨t, v, rfl, ⟨hty, ht⟩, hv⟩
    cases s with
    | COUNTER m => exact ⟨t, v, rfl, hty, Or.inl ⟨ht, rfl, hv⟩⟩
    | TIMESTAMP m => exact ⟨t, v, rfl, hty, Or.inr ⟨by simp [ht, Grammar.Modification.keyword], ht, rfl, hv⟩⟩

theorem sendOptions_stop (fuel : Nat) (mods : ModList) (toks : List Token) (pos : Nat)
    (h : ¬ Leads IsOption (toks.drop pos)) : parseSendOptions (fuel + 1) mods toks pos = .ok (mods, pos) := by
  obtain ⟨b, hb, hA⟩ := tests_isExpected .Keyword toks pos
  unfold parseSendOptions
  by_cases hkey : b = true
  · obtain ⟨t, rest, hd, hty⟩ := hA.mp hkey
    rw [hd, leads_cons] at h
    have hc : t.text ≠ "COUNTER" := fun hc => h ⟨hty, by simp [hc]⟩
    have ht : t.text ≠ "TIMESTAMP" := fun ht => h ⟨hty, by simp [ht]⟩
    rw [bind_run (peek_of_drop hd), bind_run hb, if_neg hc, if_neg ht, ite_self]
    rfl
  · have hp : peek toks pos = .ok ((toks[pos]?).getD eofToken, pos) := rfl
    rw [bind_run hp, bind_run hb, if_neg fun hc => hkey hc.2]
    rfl

theorem sendOptions_step (fuel : Nat) (mods : ModList) (toks : List Token) (pos : Nat)
    (h : Leads IsOption (toks.drop pos)) :
    parseSendOptions (fuel + 1) mods toks pos = (sendOption mods >>= parseSendOptions fuel) toks pos := by
  obtain ⟨t, rest, hd, hty, htext⟩ := h
  obtain ⟨b, hb, hA⟩ := tests_isExpected .Keyword toks pos
  have htrue : b = true := hA.mpr (by rw [hd]; exact leads_cons.mpr hty)
  have hoffset : t.text ≠ "OFFSET" := by
    intro ht
    rw [ht] at htext
    revert htext
    decide
  have hc := skips_consume toks pos t rest hd
  subst htrue
  unfold parseSendOptions sendOption expectType
  rw [bind_run (peek_of_drop hd), bind_run hb]
  simp only [bind_assoc]
  rw [bind_run hb, if_pos ⟨hoffset, trivial⟩, if_pos rfl, pure_bind, bind_run hc]
  by_cases hcounter : t.text = "COUNTER"
  · rw [if_pos hcounter, if_pos hcounter, bind_run hc]
  · have hstamp : t.text = "TIMESTAMP" := by simpa [hcounter] using htext
    rw [if_neg hcounter, if_neg hcounter, if_pos hstamp]
    rw [if_pos hstamp, bind_run hc]

theorem parses_sendOptions (fuel : Nat) (mods : ModList) : Parses fuel (parseSendOptions fuel mods)
    (Many (fun s w _ => w ∈ Grammar.Modification.tokens s) fun rest => ¬ Leads IsOption rest)
    (fun ss a => a = ss.foldl Grammar.Modification.push mods) := by
  have hne : ∀ (s : Grammar.Modification) (w rest : List Token), w ∈ s.tokens →
      w ≠ [] ∧ ¬¬ Leads IsOption (w ++ rest) := by
    intro s w rest hs
    obtain ⟨t, v, rfl, ⟨hty, ht⟩, -⟩ := mem_one_mul.mp hs
    refine ⟨List.cons_ne_nil _ _, not_not.mpr ⟨t, _, rfl, hty, ?_⟩⟩
    rw [ht]
    cases s <;> simp [Grammar.Modification.keyword]
  have h : ∀ fuel mods, Parses fuel (parseSendOptions fuel mods)
      (Many (fun s w _ => w ∈ Grammar.Modification.tokens s) fun rest => ¬ Leads IsOption rest)
      (Folds (fun mods s a => a = Grammar.Modification.push mods s) mods) :=
    Parses.loop _ sendOptions_stop (fun fuel a toks pos hs => sendOptions_step fuel a toks pos (not_not.mp hs))
      (fun n mods => parses_sendOptionPass mods) hne
  exact (h fuel mods).reindex (fun ss _ _ hs => ⟨ss, hs, fun _ => folds_eq.mp⟩)
    fun ss _ _ hs => ⟨ss, hs, fun _ => folds_eq.mp⟩

end

/-! ## Actions -/

/-- Behind a test of the type, two continuations may differ at the end of the tokens. -/
theorem expectType_congr {α : Type} {ty : TokenType} {f g : Unit → ParserM α}
    (h : ∀ toks pos t rest, toks.drop pos = t :: rest → f () toks pos = g () toks pos) :
    (expectType ty >>= f) = (expectType ty >>= g) := by
  funext toks pos
  unfold expectType
  rw [bind_assoc, bind_assoc]
  obtain ⟨b, hb, hA⟩ := tests_isExpected ty toks pos
  rw [bind_run hb, bind_run hb]
  cases b with
  | false => rfl
  | true =>
    obtain ⟨t, rest, hd, -⟩ := hA.mp rfl
    exact h toks pos t rest hd

section
variable {n : Nat} {α σ : Type} {V : σ → α → Prop}

theorem parses_copies {k : ParserM α} {D : σ → List Token → List Token → Prop} (hk : Parses n k D V) :
    Parses n (expectCopies >>= fun _ => consume >>= fun _ => k)
      (fun s w rest => ∃ t v, w = t :: v ∧ (t.type = .Keyword ∧ t.text = "COPIES") ∧ D s v rest) V := by
  have heq : (expectCopies >>= fun _ => consume >>= fun _ => k) = expectType .Keyword >>= fun _ => consume >>= fun t =>
      if t.text = "COPIES" then k else throw (missingCopiesError t) := by
    unfold expectCopies
    rw [bind_assoc]
    apply expectType_congr
    intro toks pos t rest hd
    rw [bind_assoc, bind_run (peek_of_drop hd), bind_run (skips_consume toks pos t rest hd)]
    by_cases ht : t.text = "COPIES"
    · rw [if_pos ht, if_pos ht, pure_bind, bind_run (skips_consume toks pos t rest hd)]
    · rw [if_neg ht, if_neg ht]
      rfl
  rw [heq]
  apply (parses_read fun t _ => Parses.guard (fun _ => hk) (throw_fails _)).congr
  intro s w rest
  constructor
  · rintro ⟨t, v, rfl, hty, ht, hv⟩
    exact ⟨t, v, rfl, ⟨hty, ht⟩, hv⟩
  · rintro ⟨t, v, rfl, ⟨hty, ht⟩, hv⟩
    exact ⟨t, v, rfl, hty, ht, hv⟩

end

namespace Grammar.Body

def keyword : Body → String
  | CREATE _ => "CREATE"
  | CONNECT _ => "CONNECT"
  | SEND _ _ _ _ => "SEND"
  | FLOOD _ => "FLOOD"
  | DRAIN _ => "DRAIN"
  | DISCONNECT _ => "DISCONNECT"

def first : Body → UInt32
  | CREATE count => count
  | CONNECT r | SEND r _ _ _ | FLOOD r | DRAIN r | DISCONNECT r => r.start

def more : Body → Language Token
  | CREATE _ => 1
  | CONNECT r | FLOOD r | DRAIN r | DISCONNECT r => Grammar.operator ":" * Grammar.integer r.second
  | SEND r packet copies mods =>
    (Grammar.operator ":" * Grammar.integer r.second) *
      (name packet * (Grammar.keyword "COPIES" * (integer copies * sequence Modification.tokens mods)))

theorem tokens_eq (b : Body) : b.tokens = Grammar.keyword b.keyword * (integer b.first * b.more) := by
  cases b <;> simp only [tokens, keyword, first, more, range, mul_assoc, mul_one]

def apply (a : Action) : Body → Action
  | CREATE count => { a with type := .CREATE, count := count, range := ⟨0, count⟩ }
  | CONNECT r => { a with type := .CONNECT, range := r }
  | SEND r packet copies mods =>
    { a with
      type := .SEND, range := r, packetIdentifier := packet, count := copies, mods := mods.foldl Modification.push a.mods }
  | FLOOD r => { a with type := .FLOOD, range := r }
  | DRAIN r => { a with type := .DRAIN, range := r }
  | DISCONNECT r => { a with type := .DISCONNECT, range := r }

end Grammar.Body

section
variable {n : Nat}

open Grammar

theorem parses_send (first tAction : Token) (a : Action) : Parses n (parseSend first tAction a)
    (fun (s : Body) w rest => ∃ r packet copies mods, s = .SEND r packet copies mods ∧
      Begins first.text.toList s.first.toNat ∧ w ∈ s.more ∧ ¬ Leads IsOption rest) (fun s b => b = s.apply a) := by
  unfold parseSend
  apply ((parses_range first tAction.text).bind_eq fun r => parses_read fun p _ => parses_copies (parses_read fun v _ =>
    parses_lift fun copies _ => (Parses.fuel (fun fuel => parses_sendOptions fuel a.mods) n).bind fun mods b hb =>
      Parses.pure (s := Body.SEND r p.text copies mods) (V := fun s b => b = s.apply a) (by rw [hb]; rfl))).congr
  intro s w rest
  constructor
  · rintro ⟨r, u, _, rfl, ⟨hb, hu⟩, p, _, rfl, hp, c, _, rfl, hc, v, _, rfl, hv, copies, hn, mods, x, _, rfl, hm, rfl, rfl⟩
    obtain ⟨hx, hS⟩ := many_iff.mp hm
    rw [tryConvertInt_iff] at hn
    refine ⟨r, p.text, copies, mods, rfl, hb, ?_, hS⟩
    rw [List.append_nil]
    exact mem_mul_iff.mpr ⟨u, _, rfl, hu, mem_one_mul.mpr ⟨p, _, rfl, ⟨hp, rfl⟩, mem_one_mul.mpr ⟨c, _, rfl, hc,
      mem_one_mul.mpr ⟨v, x, rfl, ⟨hv, hn⟩, hx⟩⟩⟩⟩
  · rintro ⟨r, packet, copies, mods, rfl, hb, hw, hS⟩
    obtain ⟨u, _, rfl, hu, hname⟩ := mem_mul_iff.mp hw
    obtain ⟨p, _, rfl, ⟨hp, rfl⟩, hcopies⟩ := mem_one_mul.mp hname
    obtain ⟨c, _, rfl, hc, hcount⟩ := mem_one_mul.mp hcopies
    obtain ⟨v, x, rfl, ⟨hv, hn⟩, hx⟩ := mem_one_mul.mp hcount
    exact ⟨r, u, _, rfl, ⟨hb, hu⟩, p, _, rfl, hp, c, _, rfl, hc, v, x, rfl, hv, copies, tryConvertInt_iff.mpr hn, mods,
      x, [], (List.append_nil x).symm, many_iff.mpr ⟨hx, hS⟩, rfl, rfl⟩

theorem parses_ranged {type : ActionType} (make : Range → Body) (first tAction : Token) (a : Action)
    (hmake : ∀ r, (make r).apply a = { a with type := type, range := r }) : Parses n (parseRanged type first tAction a)
    (fun (s : Body) w _ => ∃ r, s = make r ∧ Begins first.text.toList r.start.toNat ∧
      w ∈ Grammar.operator ":" * Grammar.integer r.second) (fun s b => b = s.apply a) := by
  unfold parseRanged
  apply ((parses_range first tAction.text).bind_eq fun r =>
    Parses.pure (s := make r) (V := fun s b => b = s.apply a) (hmake r).symm).congr
  intro s w rest
  constructor
  · rintro ⟨r, u, _, rfl, ⟨hb, hu⟩, rfl, rfl⟩
    exact ⟨r, rfl, hb, by rwa [List.append_nil]⟩
  · rintro ⟨r, rfl, hb, hw⟩
    exact ⟨r, w, [], (List.append_nil w).symm, ⟨hb, hw⟩, rfl, rfl⟩

theorem parses_create (first : Token) (a : Action) : Parses n (parseCreate first a)
    (fun (s : Body) w _ => ∃ count, s = .CREATE count ∧ Begins first.text.toList count.toNat ∧ w = [])
    (fun s b => b = s.apply a) := by
  unfold parseCreate
  apply (parses_lift fun count _ => Parses.pure (s := Body.CREATE count) (V := fun s b => b = s.apply a) rfl).congr
  intro s w rest
  simp only [tryConvertInt_iff]
  constructor
  · rintro ⟨count, hb, rfl, rfl⟩
    exact ⟨count, rfl, hb, rfl⟩
  · rintro ⟨count, rfl, hb, rfl⟩
    exact ⟨count, hb, rfl, rfl⟩

def SendEnds (s : Body) (rest : List Token) : Prop := s.keyword = "SEND" → ¬ Leads IsOption rest

theorem parses_kind (tAction first : Token) (a : Action) : Parses n (parseActionKind tAction first a)
    (fun (s : Body) w rest => tAction.text = s.keyword ∧ Begins first.text.toList s.first.toNat ∧ w ∈ s.more ∧
      SendEnds s rest) (fun s b => b = s.apply a) := by
  unfold parseActionKind
  apply (Parses.choose (fun _ => parses_send first tAction a) fun _ =>
    Parses.choose (fun _ => parses_ranged .CONNECT first tAction a fun _ => rfl) fun _ =>
    Parses.choose (fun _ => parses_ranged .FLOOD first tAction a fun _ => rfl) fun _ =>
    Parses.choose (fun _ => parses_ranged .DRAIN first tAction a fun _ => rfl) fun _ =>
    Parses.choose (fun _ => parses_ranged .DISCONNECT first tAction a fun _ => rfl) fun _ =>
    Parses.guard (fun _ => parses_create first a) fun _ _ _ h => by cases h).congr
  intro s w rest
  constructor
  · rintro (⟨hk, r, packet, copies, mods, rfl, hb, hw, hS⟩ | ⟨-, h⟩)
    · exact ⟨hk, hb, hw, fun _ => hS⟩
    have hranged : ∀ {make : Range → Body} {text : String}, tAction.text = text → text ≠ "SEND" →
        (∀ r, (make r).keyword = text ∧ (make r).first = r.start ∧
          (make r).more = Grammar.operator ":" * Grammar.integer r.second) →
        (∃ r, s = make r ∧ Begins first.text.toList r.start.toNat ∧
          w ∈ Grammar.operator ":" * Grammar.integer r.second) →
        tAction.text = s.keyword ∧ Begins first.text.toList s.first.toNat ∧ w ∈ s.more ∧ SendEnds s rest := by
      rintro make text hk hne hmake ⟨r, rfl, hb, hw⟩
      obtain ⟨hkey, hfirst, hmore⟩ := hmake r
      refine ⟨by rw [hk, hkey], by rwa [hfirst], by rwa [hmore], fun h => absurd (hkey.symm.trans h) hne⟩
    rcases h with ⟨hk, h⟩ | ⟨-, ⟨hk, h⟩ | ⟨-, ⟨hk, h⟩ | ⟨-, ⟨hk, h⟩ | ⟨-, hk, count, rfl, hb, rfl⟩⟩⟩⟩
    · exact hranged hk (by decide) (fun _ => ⟨rfl, rfl, rfl⟩) h
    · exact hranged hk (by decide) (fun _ => ⟨rfl, rfl, rfl⟩) h
    · exact hranged hk (by decide) (fun _ => ⟨rfl, rfl, rfl⟩) h
    · exact hranged hk (by decide) (fun _ => ⟨rfl, rfl, rfl⟩) h
    · exact ⟨hk, hb, rfl, fun h => absurd h (by simp [Body.keyword])⟩
  · rintro ⟨hk, hb, hw, hE⟩
    rw [hk]
    cases s with
    | SEND r packet copies mods => exact Or.inl ⟨rfl, r, packet, copies, mods, rfl, hb, hw, hE rfl⟩
    | CONNECT r => exact Or.inr ⟨by simp [Body.keyword], Or.inl ⟨rfl, r, rfl, hb, hw⟩⟩
    | FLOOD r =>
      exact Or.inr ⟨by simp [Body.keyword], Or.inr ⟨by simp [Body.keyword], Or.inl ⟨rfl, r, rfl, hb, hw⟩⟩⟩
    | DRAIN r =>
      exact Or.inr ⟨by simp [Body.keyword], Or.inr ⟨by simp [Body.keyword], Or.inr ⟨by simp [Body.keyword],
        Or.inl ⟨rfl, r, rfl, hb, hw⟩⟩⟩⟩
    | DISCONNECT r =>
      exact Or.inr ⟨by simp [Body.keyword], Or.inr ⟨by simp [Body.keyword], Or.inr ⟨by simp [Body.keyword],
        Or.inr ⟨by simp [Body.keyword], Or.inl ⟨rfl, r, rfl, hb, hw⟩⟩⟩⟩⟩
    | CREATE count =>
      exact Or.inr ⟨by simp [Body.keyword], Or.inr ⟨by simp [Body.keyword], Or.inr ⟨by simp [Body.keyword],
        Or.inr ⟨by simp [Body.keyword], Or.inr ⟨by simp [Body.keyword], rfl, count, rfl, hb, hw⟩⟩⟩⟩⟩

def textIs (text : String) : ParserM Bool := peek >>= fun t => pure (t.text == text)

theorem tests_textIs {text : String} (h : text ≠ "EOF") : Tests (textIs text) (Leads fun t => t.text = text) := by
  intro toks pos
  unfold textIs
  cases hd : toks.drop pos with
  | nil =>
    refine ⟨false, ?_, by simp [not_leads_nil]⟩
    have hp : peek toks pos = .ok (eofToken, pos) := by
      unfold peek
      rw [← List.head?_drop, hd]
      rfl
    rw [bind_run hp, show eofToken.text = "EOF" from rfl, beq_eq_false_iff_ne.mpr h.symm]
    rfl
  | cons t rest =>
    rw [bind_run (peek_of_drop hd)]
    exact ⟨_, rfl, by simp⟩

theorem textIs_eq {α : Type} {text : String} {x : ParserM α} {y : Token → ParserM α} :
    (peek >>= fun t => if t.text = text then x else y t) =
      textIs text >>= fun b => if b = true then x else peek >>= y := by
  funext toks pos
  have hp : peek toks pos = .ok ((toks[pos]?).getD eofToken, pos) := rfl
  have ht : textIs text toks pos = .ok (((toks[pos]?).getD eofToken).text == text, pos) := rfl
  rw [bind_run hp, bind_run ht]
  by_cases h : ((toks[pos]?).getD eofToken).text = text
  · rw [if_pos h, if_pos (by rw [h]; exact beq_self_eq_true _)]
  · rw [if_neg h, if_neg (by rw [beq_eq_false_iff_ne.mpr h]; exact Bool.false_ne_true), bind_run hp]

def OffsetPart : Option UInt32 → List Token → List Token → Prop
  | some ms, w, _ => w ∈ opening (fun _ => True) "OFFSET" * time ms
  | none, w, rest => w = [] ∧ ¬ Leads (fun t => t.text = "OFFSET") rest

theorem parses_offset : Parses n parseOffset OffsetPart (fun s ms => ms = s.getD defaultOffsetMs) := by
  have hend : (peek >>= fun _ => pure defaultOffsetMs : ParserM UInt32) = pure defaultOffsetMs := rfl
  unfold parseOffset
  rw [textIs_eq, hend]
  apply (Parses.ite_skip (tests_textIs (by decide)) skips_consume (Nat.le_succ n) (fun _ _ => parses_read fun t _ =>
    parses_result some fun _ => rfl) (Parses.pure (s := none) rfl)).congr
  intro s w rest
  constructor
  · rintro (⟨t, _, rfl, ht, v, _, rfl, hv, ms, hms, rfl, rfl⟩ | ⟨hl, rfl, rfl⟩)
    · exact mem_one_mul.mpr ⟨t, _, rfl, ⟨trivial, ht⟩, v, rfl, hv, tryParseTime_iff.mp hms⟩
    · exact ⟨rfl, hl⟩
  · intro h
    cases s with
    | some ms =>
      obtain ⟨t, _, rfl, ⟨-, ht⟩, v, rfl, hv, hms⟩ := mem_one_mul.mp h
      exact Or.inl ⟨t, _, rfl, ht, v, [], rfl, hv, ms, tryParseTime_iff.mpr hms, rfl, rfl⟩
    | none =>
      obtain ⟨rfl, hl⟩ := h
      exact Or.inr ⟨hl, rfl, rfl⟩

/-- An action, from whatever memory held at its place. -/
def Grammar.Act.Makes (memory : Memory) (s : Act) (a : Action) : Prop :=
  ∃ p, a = { s.body.apply (memory.action p).toAction with offsetMs := s.offset.getD defaultOffsetMs }

def ActBefore (s : Act) (w rest : List Token) : Prop :=
  ∃ u v, w = u ++ v ∧ u ∈ s.body.tokens ∧ SendEnds s.body (v ++ rest) ∧ OffsetPart s.offset v rest

theorem parses_action (memory : Memory) : Parses n (parseAction memory) ActBefore (Act.Makes memory) := by
  unfold parseAction
  apply (parses_read fun t _ => Parses.position fun p => parses_read fun v _ =>
    (parses_kind t v (memory.action p).toAction).bind fun b a ha => parses_offset.bind fun o ms hms =>
      Parses.pure (s := Act.mk b o) (V := Act.Makes memory) ⟨p, by rw [ha, hms]⟩).congr
  intro s w rest
  constructor
  · rintro ⟨t, _, rfl, ht, v, _, rfl, hv, b, u, _, rfl, ⟨hk, hb, hu, hE⟩, o, x, _, rfl, ho, rfl, rfl⟩
    rw [List.append_nil] at hE ⊢
    refine ⟨t :: v :: u, x, rfl, ?_, hE, ho⟩
    rw [Body.tokens_eq]
    exact mem_one_mul.mpr ⟨t, _, rfl, ⟨ht, hk⟩, mem_one_mul.mpr ⟨v, u, rfl, ⟨hv, hb⟩, hu⟩⟩
  · rintro ⟨w', x, rfl, hw, hE, ho⟩
    rw [Body.tokens_eq] at hw
    obtain ⟨t, _, rfl, ⟨ht, hk⟩, hw⟩ := mem_one_mul.mp hw
    obtain ⟨v, u, rfl, ⟨hv, hb⟩, hu⟩ := mem_one_mul.mp hw
    exact ⟨t, _, rfl, ht, v, _, rfl, hv, s.body, u, x, rfl, ⟨hk, hb, hu, hE⟩, s.offset, x, [],
      (List.append_nil x).symm, ho, rfl, rfl⟩

/-! ### The loop over the actions -/

def IsClosed (t : Token) : Prop := t.type = .BraceClosed

def actionPass (memory : Memory) (o : OrchestratorBlock) : ParserM OrchestratorBlock := do
  let a ← parseAction memory
  return { o with actions := o.actions ++ [a] }

theorem bodyTokens_lead {b : Body} {w : List Token} (h : w ∈ b.tokens) :
    ∃ t v, w = t :: v ∧ t.type = .Keyword ∧ t.text = b.keyword := by
  rw [Body.tokens_eq] at h
  obtain ⟨t, v, rfl, ⟨hty, htext⟩, -⟩ := mem_one_mul.mp h
  exact ⟨t, v, rfl, hty, htext⟩

theorem parses_actionPass (memory : Memory) (n : Nat) (o : OrchestratorBlock) : Parses n (actionPass memory o) ActBefore
    (fun s o' => ∃ a, s.Makes memory a ∧ o' = { o with actions := o.actions ++ [a] }) := by
  unfold actionPass
  apply ((parses_action memory).bind fun s a ha => Parses.pure (s := s) (V := fun s o' => ∃ a, s.Makes memory a ∧
    o' = { o with actions := o.actions ++ [a] }) ⟨a, ha, rfl⟩).congr
  intro s w rest
  constructor
  · rintro ⟨_, u, _, rfl, hu, rfl, rfl⟩
    rwa [List.append_nil]
  · intro h
    exact ⟨s, w, [], (List.append_nil w).symm, h, rfl, rfl⟩

theorem parses_actions (memory : Memory) : ∀ fuel o, Parses fuel (parseActions memory fuel o)
    (Many ActBefore (Leads IsClosed))
    (Folds (fun o s o' => ∃ a, s.Makes memory a ∧ o' = { o with actions := o.actions ++ [a] }) o) := by
  apply Parses.loop (actionPass memory)
  · intro fuel o toks pos h
    unfold parseActions
    rw [((tests_isExpected .BraceClosed).ite _ _ toks pos).1 h]
    rfl
  · intro fuel o toks pos h
    unfold parseActions actionPass
    rw [((tests_isExpected .BraceClosed).ite _ _ toks pos).2 h, bind_assoc]
    rfl
  · exact fun n o => parses_actionPass memory n o
  · rintro s w rest ⟨u, v, rfl, hu, -⟩
    obtain ⟨t, u, rfl, hty, -⟩ := bodyTokens_lead hu
    refine ⟨List.cons_ne_nil _ _, ?_⟩
    simp [IsClosed, hty]

theorem folds_actions {memory : Memory} {ss : List Act} {o o' : OrchestratorBlock} :
    Folds (fun o s o' => ∃ a, Act.Makes memory s a ∧ o' = { o with actions := o.actions ++ [a] }) o ss o' ↔
      ∃ as, List.Forall₂ (Act.Makes memory) ss as ∧ o' = { o with actions := o.actions ++ as } := by
  induction ss generalizing o with
  | nil =>
    constructor
    · rintro rfl
      exact ⟨[], .nil, by rw [List.append_nil]⟩
    · rintro ⟨as, h, rfl⟩
      rw [List.forall₂_nil_left_iff.mp h, List.append_nil]
      rfl
  | cons s ss ih =>
    constructor
    · rintro ⟨_, ⟨a, ha, rfl⟩, h⟩
      obtain ⟨as, has, rfl⟩ := ih.mp h
      exact ⟨a :: as, .cons ha has, by simp⟩
    · rintro ⟨_, h, rfl⟩
      cases h with
      | cons ha has => exact ⟨_, ⟨_, ha, rfl⟩, ih.mpr ⟨_, has, by simp⟩⟩

theorem body_keyword (b : Body) : b.keyword ∉ ["COUNTER", "TIMESTAMP", "OFFSET"] := by
  cases b <;> simp [Body.keyword]

theorem bodyTokens_append {b : Body} {A : Token → Prop} {L : Language Token} {z : List Token}
    (hA : ∀ t, t.type = .Keyword → t.text = b.keyword → ¬ A t) (h : z ∈ b.tokens * L) : ¬ Leads A z := by
  obtain ⟨w, v, rfl, hw, -⟩ := mem_mul_iff.mp h
  obtain ⟨t, w, rfl, hty, htext⟩ := bodyTokens_lead hw
  simpa using hA t hty htext

theorem acts_lead {K : Token → Prop} {ss : List Act} {z : List Token} (h : z ∈ acts K ss) : ¬ Leads IsOption z := by
  have hoption : ∀ (b : Body) (t : Token), t.type = .Keyword → t.text = b.keyword → ¬ IsOption t := by
    intro b t _ htext ht
    have := ht.2
    rw [htext] at this
    exact body_keyword b (by simp at this ⊢; tauto)
  match ss, h with
  | [], h =>
    obtain ⟨t, rfl, ht⟩ := h
    simp [IsOption, ht]
  | ⟨b, some _⟩ :: _, h => exact bodyTokens_append (hoption b) h
  | ⟨b, none⟩ :: _, h => exact bodyTokens_append (hoption b) h

theorem acts_sound : ∀ {ss : List Act} {w rest : List Token} {c : Token}, IsClosed c →
    Many ActBefore (Leads IsClosed) ss w (c :: rest) → w ++ [c] ∈ acts (fun _ => True) ss
  | [], _, _, c, hc, ⟨rfl, _⟩ => ⟨c, rfl, hc⟩
  | ⟨b, some ms⟩ :: ss, _, _, c, hc, ⟨_, v, rfl, ⟨u, x, rfl, hu, _, hx⟩, hm⟩ => by
    obtain ⟨t, _, rfl, ht, y, rfl, hy⟩ := mem_one_mul.mp hx
    rw [List.append_assoc, List.append_assoc]
    exact mem_mul_iff.mpr ⟨u, _, rfl, hu, mem_one_mul.mpr ⟨t, _, rfl, ht, mem_one_mul.mpr
      ⟨y, _, rfl, hy, acts_sound hc hm⟩⟩⟩
  | ⟨b, none⟩ :: ss, _, _, c, hc, ⟨_, v, rfl, ⟨u, _, rfl, hu, _, rfl, hx⟩, hm⟩ => by
    rw [List.append_nil, List.append_assoc]
    rw [leads_append] at hx
    exact mem_mul_iff.mpr ⟨u, _, rfl, hu, Language.mem_inf.mpr ⟨acts_sound hc hm, mem_avoids.mpr hx⟩⟩

theorem acts_complete : ∀ {ss : List Act} {z : List Token}, z ∈ acts (fun _ => True) ss →
    ∃ w c, z = w ++ [c] ∧ IsClosed c ∧ ∀ rest, Many ActBefore (Leads IsClosed) ss w (c :: rest)
  | [], _, ⟨t, rfl, ht⟩ => ⟨[], t, rfl, ht, fun _ => ⟨rfl, leads_cons.mpr ht⟩⟩
  | ⟨b, some ms⟩ :: ss, z, h => by
    obtain ⟨u, _, rfl, hu, h⟩ := mem_mul_iff.mp h
    obtain ⟨t, _, rfl, ht, h⟩ := mem_one_mul.mp h
    obtain ⟨y, _, rfl, hy, h⟩ := mem_one_mul.mp h
    obtain ⟨w, c, rfl, hc, hm⟩ := acts_complete h
    refine ⟨u ++ t :: y :: w, c, by simp, hc, fun rest => ⟨u ++ [t, y], w, by simp, ⟨u, [t, y], rfl, hu, ?_, ?_⟩, hm rest⟩⟩
    · intro _
      simp [IsOption, ht.2]
    · exact mem_one_mul.mpr ⟨t, _, rfl, ht, y, rfl, hy⟩
  | ⟨b, none⟩ :: ss, z, h => by
    obtain ⟨u, _, rfl, hu, h⟩ := mem_mul_iff.mp h
    obtain ⟨h, ha⟩ := Language.mem_inf.mp h
    have hlead := acts_lead h
    obtain ⟨w, c, rfl, hc, hm⟩ := acts_complete h
    refine ⟨u ++ w, c, by simp, hc, fun rest => ⟨u, w, rfl, ⟨u, [], by simp, hu, fun _ => ?_, rfl, ?_⟩, hm rest⟩⟩
    · rwa [List.nil_append, leads_append]
    · rw [leads_append]
      exact mem_avoids.mp ha

end

end Loadshear
