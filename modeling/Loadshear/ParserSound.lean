import Mathlib.Data.List.Forall2
import Loadshear.Lockstep
import Loadshear.Parser

/-!
# What the parser leaves unset

The parser over two memories, in lockstep (`parse_same`). The two scripts
agree but for the header size and the body limit, when their keywords are no
tokens of the text, and for the counts of actions that are given by a range
only.
-/

namespace Loadshear

open Lockstep

/-! ## Tokens that were passed -/

def sizeKeywords : List String := ["HEADERSIZE", "BODYMAX"]

def Token.IsSize (t : Token) : Prop := t.type = .Keyword ∧ t.text ∈ sizeKeywords

def Writes (kw : String) (toks : List Token) : Prop := ∃ t ∈ toks, t.type = .Keyword ∧ t.text = kw

def Quiet (toks : List Token) (p q : Nat) : Prop :=
  p ≤ q ∧ ∀ kw ∈ sizeKeywords, Writes kw (toks.take q) → Writes kw (toks.take p)

section
variable {toks : List Token}

theorem Quiet.refl (p : Nat) : Quiet toks p p := ⟨Nat.le_refl _, fun _ _ h => h⟩

theorem Quiet.trans {p q r : Nat} (h : Quiet toks p q) (h' : Quiet toks q r) : Quiet toks p r :=
  ⟨Nat.le_trans h.1 h'.1, fun kw hk hw => h.2 kw hk (h'.2 kw hk hw)⟩

theorem take_succ_of {p : Nat} {t : Token} (ht : toks[p]? = some t) : toks.take (p + 1) = toks.take p ++ [t] := by
  rw [List.take_add_one, ht]; rfl

theorem Writes.mono {kw : String} {p q : Nat} (h : p ≤ q) (hw : Writes kw (toks.take p)) :
    Writes kw (toks.take q) := by
  obtain ⟨t, ht, hk⟩ := hw
  exact ⟨t, (List.take_prefix_take_left h).subset ht, hk⟩

theorem quiet_step {p : Nat} {t : Token} (ht : toks[p]? = some t) (hq : ¬ t.IsSize) : Quiet toks p (p + 1) := by
  refine ⟨Nat.le_succ p, fun kw hk ⟨u, hu, htype, htext⟩ => ?_⟩
  rw [take_succ_of ht] at hu
  rcases List.mem_append.mp hu with hu | hu
  · exact ⟨u, hu, htype, htext⟩
  · rw [List.mem_singleton.mp hu] at htype htext
    exact absurd ⟨htype, htext ▸ hk⟩ hq

theorem not_size {t : Token} {ty : TokenType} (h : t.type = ty) (hne : ty ≠ .Keyword) : ¬ t.IsSize :=
  fun hs => hne (h ▸ hs.1)

/-- A step over a token of a type that no keyword has. -/
theorem Quiet.next {p q : Nat} {t : Token} {ty : TokenType} (h : Quiet toks p q) (ht : toks[q]? = some t)
    (hty : t.type = ty) (hne : ty ≠ .Keyword) : Quiet toks p (q + 1) :=
  h.trans (quiet_step ht (not_size hty hne))

/-! ## Access in lockstep -/

variable {α α' : Type} {R : α → α' → Nat → Prop} {pos : Nat}

theorem isExpected_run (toks : List Token) (pos : Nat) (ty : TokenType) :
    (isExpected ty toks pos = .ok (true, pos) ∧ ∃ t, toks[pos]? = some t ∧ t.type = ty) ∨
      isExpected ty toks pos = .ok (false, pos) := by
  unfold isExpected
  cases ht : toks[pos]? with
  | none => exact Or.inr rfl
  | some t =>
    by_cases hty : t.type = ty
    · exact Or.inl ⟨by simp [hty], t, rfl, hty⟩
    · exact Or.inr (by simp [hty])

theorem bind_run {β : Type} {x : ParserM α} {a : α} {q : Nat} {f : α → ParserM β} (h : x toks pos = .ok (a, q)) :
    (x >>= f) toks pos = f a toks q := by
  change (x toks pos >>= fun p => f p.1 toks p.2) = _
  rw [h]; rfl

theorem both_ifExpected {ty : TokenType} {x y : ParserM α} {x' y' : ParserM α'}
    (h : ∀ t, toks[pos]? = some t → t.type = ty → Both R (x toks pos) (x' toks pos))
    (h' : Both R (y toks pos) (y' toks pos)) :
    Both R ((isExpected ty >>= fun b => if b = true then x else y) toks pos)
      ((isExpected ty >>= fun b => if b = true then x' else y') toks pos) := by
  rcases isExpected_run toks pos ty with ⟨hr, t, ht, hty⟩ | hr
  · rw [bind_run hr, bind_run hr]; exact h t ht hty
  · rw [bind_run hr, bind_run hr]; exact h'

theorem both_peek {k : Token → ParserM α} {k' : Token → ParserM α'}
    (h : Both R (k ((toks[pos]?).getD eofToken) toks pos) (k' ((toks[pos]?).getD eofToken) toks pos)) :
    Both R ((peek >>= k) toks pos) ((peek >>= k') toks pos) := by
  have hr : peek toks pos = .ok ((toks[pos]?).getD eofToken, pos) := rfl
  rw [bind_run hr, bind_run hr]; exact h

theorem both_throwPeek {f : Token → String} :
    Both R ((peek >>= fun t => (throw (f t) : ParserM α)) toks pos)
      ((peek >>= fun t => (throw (f t) : ParserM α')) toks pos) :=
  both_peek Both.throw

theorem both_expectType {ty : TokenType} {k : Unit → ParserM α} {k' : Unit → ParserM α'}
    (h : ∀ t, toks[pos]? = some t → t.type = ty → Both R (k () toks pos) (k' () toks pos)) :
    Both R ((expectType ty >>= k) toks pos) ((expectType ty >>= k') toks pos) := by
  have hb : Both (fun _ _ q => q = pos ∧ ∃ t, toks[pos]? = some t ∧ t.type = ty)
      (expectType ty toks pos) (expectType ty toks pos) := by
    unfold expectType
    exact both_ifExpected (fun t ht hty => Both.pure ⟨rfl, t, ht, hty⟩) both_throwPeek
  apply Both.bind hb
  rintro _ _ q ⟨rfl, t, ht, hty⟩
  exact h t ht hty

theorem isOperator_run (toks : List Token) (pos : Nat) (op : String) :
    (isOperator op toks pos = .ok (true, pos) ∧ ∃ t, toks[pos]? = some t ∧ t.type = .Operator) ∨
      isOperator op toks pos = .ok (false, pos) := by
  unfold isOperator
  rcases isExpected_run toks pos .Operator with ⟨hr, t, ht, hty⟩ | hr
  · have hp : peek toks pos = .ok (t, pos) := by unfold peek; rw [ht]; rfl
    rw [bind_run hr, bind_run hp]
    by_cases htext : t.text = op
    · exact Or.inl ⟨by simp [htext]; rfl, t, ht, hty⟩
    · rw [beq_eq_false_iff_ne.mpr htext]; exact Or.inr rfl
  · rw [bind_run hr]; exact Or.inr rfl

theorem both_ifOperator {op : String} {x y : ParserM α} {x' y' : ParserM α'}
    (h : ∀ t, toks[pos]? = some t → t.type = .Operator → Both R (x toks pos) (x' toks pos))
    (h' : Both R (y toks pos) (y' toks pos)) :
    Both R ((isOperator op >>= fun b => if b = true then x else y) toks pos)
      ((isOperator op >>= fun b => if b = true then x' else y') toks pos) := by
  rcases isOperator_run toks pos op with ⟨hr, t, ht, hty⟩ | hr
  · rw [bind_run hr, bind_run hr]; exact h t ht hty
  · rw [bind_run hr, bind_run hr]; exact h'

theorem both_expectOperator {op : String} {k : Unit → ParserM α} {k' : Unit → ParserM α'}
    (h : ∀ t, toks[pos]? = some t → t.type = .Operator → Both R (k () toks pos) (k' () toks pos)) :
    Both R ((expectOperator op >>= k) toks pos) ((expectOperator op >>= k') toks pos) := by
  have hb : Both (fun _ _ q => q = pos ∧ ∃ t, toks[pos]? = some t ∧ t.type = .Operator)
      (expectOperator op toks pos) (expectOperator op toks pos) := by
    unfold expectOperator
    exact both_ifOperator (fun t ht hty => Both.pure ⟨rfl, t, ht, hty⟩) both_throwPeek
  apply Both.bind hb
  rintro _ _ q ⟨rfl, t, ht, hty⟩
  exact h t ht hty

theorem both_consume {t : Token} {k : Token → ParserM α} {k' : Token → ParserM α'} (ht : toks[pos]? = some t)
    (h : Both R (k t toks (pos + 1)) (k' t toks (pos + 1))) :
    Both R ((consume >>= k) toks pos) ((consume >>= k') toks pos) := by
  obtain ⟨hlt, rfl⟩ := List.getElem?_eq_some_iff.mp ht
  have hr : consume toks pos = .ok (toks[pos], pos + 1) := by
    unfold consume; simp [hlt]
  rw [bind_run hr, bind_run hr]; exact h

theorem both_lift {β : Type} {r : ParseResult β} {k : β → ParserM α} {k' : β → ParserM α'}
    (h : ∀ b, r = .ok b → Both R (k b toks pos) (k' b toks pos)) :
    Both R ((liftResult r >>= k) toks pos) ((liftResult r >>= k') toks pos) := by
  cases r with
  | error e => exact show e = e from rfl
  | ok b => exact h b rfl

end

/-! ## SETTINGS -/

def SettingsBlock.noSizes (s : SettingsBlock) : SettingsBlock := { s with headerSize := 0, bodyMax := 0 }

structure SameSettings (m m' : Memory) (passed : List Token) (s s' : SettingsBlock) : Prop where
  rest : s.noSizes = s'.noSizes
  header_set : Writes "HEADERSIZE" passed → s.headerSize = s'.headerSize
  header_unset : ¬ Writes "HEADERSIZE" passed → s.headerSize = m.headerSize ∧ s'.headerSize = m'.headerSize
  body_set : Writes "BODYMAX" passed → s.bodyMax = s'.bodyMax
  body_unset : ¬ Writes "BODYMAX" passed → s.bodyMax = m.bodyMax ∧ s'.bodyMax = m'.bodyMax

/-- A change of the block that only the keyword `kw` lets write a size. -/
structure FieldUpdate (kw : String) (f : SettingsBlock → SettingsBlock) : Prop where
  rest : ∀ s s', s.noSizes = s'.noSizes → (f s).noSizes = (f s').noSizes
  header_set : kw = "HEADERSIZE" → ∀ s s', (f s).headerSize = (f s').headerSize
  header_kept : kw ≠ "HEADERSIZE" → ∀ s, (f s).headerSize = s.headerSize
  body_set : kw = "BODYMAX" → ∀ s s', (f s).bodyMax = (f s').bodyMax
  body_kept : kw ≠ "BODYMAX" → ∀ s, (f s).bodyMax = s.bodyMax

/-- Whether a field is set depends on the text alone, and so does what it is
set to. -/
def Settles (kw : String) (P : SettingsBlock → ParseResult SettingsBlock) : Prop :=
  (∃ e, ∀ s, P s = .error e) ∨ ∃ f, (∀ s, P s = .ok (f s)) ∧ FieldUpdate kw f

section
variable {kw : String} {P Q : SettingsBlock → ParseResult SettingsBlock}

theorem Settles.ite {c : Prop} [Decidable c] (h : c → Settles kw P) (h' : ¬ c → Settles kw Q) :
    Settles kw fun s => if c then P s else Q s := by
  by_cases hc : c
  · simp only [if_pos hc]; exact h hc
  · simp only [if_neg hc]; exact h' hc

theorem Settles.bind {β : Type} {r : ParseResult β} {k : β → SettingsBlock → ParseResult SettingsBlock}
    (h : ∀ b, Settles kw (k b)) : Settles kw fun s => r >>= fun b => k b s := by
  cases r with
  | error e => exact Or.inl ⟨e, fun _ => rfl⟩
  | ok b => exact h b

theorem Settles.error {e : String} : Settles kw fun _ => .error e := Or.inl ⟨e, fun _ => rfl⟩

theorem Settles.field (f : SettingsBlock → SettingsBlock) (hk : kw ∉ sizeKeywords)
    (hr : ∀ s, (f s).noSizes = (f s.noSizes).noSizes) (hh : ∀ s, (f s).headerSize = s.headerSize)
    (hb : ∀ s, (f s).bodyMax = s.bodyMax) : Settles kw fun s => .ok (f s) := by
  refine Or.inr ⟨f, fun _ => rfl, fun s s' h => by rw [hr, h, ← hr], fun e => absurd e ?_, fun _ => hh,
    fun e => absurd e ?_, fun _ => hb⟩
  · rintro rfl; exact hk (by decide)
  · rintro rfl; exact hk (by decide)

end

theorem applySetting_settles (keyword value : Token) : Settles keyword.text (applySetting keyword value) := by
  unfold applySetting
  refine Settles.ite (fun h => ?_) fun _ => Settles.ite (fun h => ?_) fun _ => Settles.ite (fun h => ?_) fun _ =>
    Settles.ite (fun h => ?_) fun _ => Settles.ite (fun h => ?_) fun _ => Settles.ite (fun h => ?_) fun _ =>
    Settles.ite (fun h => ?_) fun _ => Settles.ite (fun h => ?_) fun _ => Settles.ite (fun h => ?_) fun _ =>
    Settles.error
  case refine_1 => exact .field _ (by rw [h]; decide) (fun _ => rfl) (fun _ => rfl) fun _ => rfl
  case refine_2 =>
    exact .bind fun temp => .ite (fun _ => .error) fun _ =>
      .field _ (by rw [h]; decide) (fun _ => rfl) (fun _ => rfl) fun _ => rfl
  case refine_3 =>
    refine .bind fun size => Or.inr ⟨fun s => { s with headerSize := size }, fun _ => rfl, ?_⟩
    rw [h]
    exact ⟨fun _ _ hr => hr, fun _ _ _ => rfl, fun e => absurd rfl e, fun e => absurd e (by decide),
      fun _ _ => rfl⟩
  case refine_4 =>
    refine .bind fun size => Or.inr ⟨fun s => { s with bodyMax := size }, fun _ => rfl, ?_⟩
    rw [h]
    exact ⟨fun _ _ hr => hr, fun e => absurd e (by decide), fun _ _ => rfl, fun _ _ _ => rfl,
      fun e => absurd rfl e⟩
  case refine_5 =>
    exact .ite (fun _ => .field _ (by rw [h]; decide) (fun _ => rfl) (fun _ => rfl) fun _ => rfl) fun _ =>
      .ite (fun _ => .field _ (by rw [h]; decide) (fun _ => rfl) (fun _ => rfl) fun _ => rfl) fun _ => .error
  case refine_6 =>
    exact .ite (fun _ => .field _ (by rw [h]; decide) (fun _ => rfl) (fun _ => rfl) fun _ => rfl) fun _ =>
      .ite (fun _ => .field _ (by rw [h]; decide) (fun _ => rfl) (fun _ => rfl) fun _ => rfl) fun _ => .error
  case refine_7 =>
    exact .bind fun _ => .field _ (by rw [h]; decide) (fun _ => rfl) (fun _ => rfl) fun _ => rfl
  case refine_8 =>
    exact .bind fun _ => .field _ (by rw [h]; decide) (fun _ => rfl) (fun _ => rfl) fun _ => rfl
  case refine_9 => exact .field _ (by rw [h]; decide) (fun _ => rfl) (fun _ => rfl) fun _ => rfl

section
variable {m m' : Memory} {toks : List Token} {s s' : SettingsBlock}

theorem SameSettings.quiet {p q : Nat} (h : SameSettings m m' (toks.take p) s s') (hq : Quiet toks p q) :
    SameSettings m m' (toks.take q) s s' := by
  have hh : Writes "HEADERSIZE" (toks.take q) ↔ Writes "HEADERSIZE" (toks.take p) :=
    ⟨hq.2 _ (by decide), Writes.mono hq.1⟩
  have hb : Writes "BODYMAX" (toks.take q) ↔ Writes "BODYMAX" (toks.take p) :=
    ⟨hq.2 _ (by decide), Writes.mono hq.1⟩
  exact ⟨h.rest, fun w => h.header_set (hh.mp w), fun w => h.header_unset fun w' => w (hh.mpr w'),
    fun w => h.body_set (hb.mp w), fun w => h.body_unset fun w' => w (hb.mpr w')⟩

theorem SameSettings.update {passed passed' : List Token} {kw : String} {f : SettingsBlock → SettingsBlock}
    (h : SameSettings m m' passed s s') (hf : FieldUpdate kw f)
    (hw : ∀ k ∈ sizeKeywords, Writes k passed' ↔ Writes k passed ∨ kw = k) :
    SameSettings m m' passed' (f s) (f s') := by
  have hh := hw "HEADERSIZE" (by decide)
  have hb := hw "BODYMAX" (by decide)
  refine ⟨hf.rest _ _ h.rest, fun w => ?_, fun w => ?_, fun w => ?_, fun w => ?_⟩
  · by_cases hk : kw = "HEADERSIZE"
    · exact hf.header_set hk _ _
    · rw [hf.header_kept hk, hf.header_kept hk]
      exact h.header_set ((hh.mp w).resolve_right hk)
  · rw [hh, not_or] at w
    rw [hf.header_kept w.2, hf.header_kept w.2]
    exact h.header_unset w.1
  · by_cases hk : kw = "BODYMAX"
    · exact hf.body_set hk _ _
    · rw [hf.body_kept hk, hf.body_kept hk]
      exact h.body_set ((hb.mp w).resolve_right hk)
  · rw [hb, not_or] at w
    rw [hf.body_kept w.2, hf.body_kept w.2]
    exact h.body_unset w.1

theorem SameSettings.field {passed : List Token} (h : SameSettings m m' passed s s')
    (f : SettingsBlock → SettingsBlock) (hr : ∀ s, (f s).noSizes = (f s.noSizes).noSizes)
    (hh : ∀ s, (f s).headerSize = s.headerSize) (hb : ∀ s, (f s).bodyMax = s.bodyMax) :
    SameSettings m m' passed (f s) (f s') := by
  refine ⟨by rw [hr, h.rest, ← hr], ?_, ?_, ?_, ?_⟩
  · rw [hh, hh]; exact h.header_set
  · rw [hh, hh]; exact h.header_unset
  · rw [hb, hb]; exact h.body_set
  · rw [hb, hb]; exact h.body_unset

def SettingsPost (m m' : Memory) (toks : List Token) (s s' : SettingsBlock) (q : Nat) : Prop :=
  SameSettings m m' (toks.take q) s s'

theorem parsePackets_same : ∀ (fuel : Nat) {s s' : SettingsBlock} {pos : Nat},
    SameSettings m m' (toks.take pos) s s' →
    Both (SettingsPost m m' toks) (parsePackets fuel s toks pos) (parsePackets fuel s' toks pos)
  | 0, _, _, _, _ => Both.throw
  | fuel + 1, s, s', pos, h => by
    unfold parsePackets
    apply both_ifExpected (fun _ _ _ => Both.pure h)
    refine both_expectType fun t₁ ht₁ hty₁ => both_consume ht₁ ?_
    refine both_expectOperator fun t₂ ht₂ hty₂ => both_consume ht₂ ?_
    refine both_expectType fun t₃ ht₃ hty₃ => both_consume ht₃ ?_
    have hq := (((Quiet.refl pos).next ht₁ hty₁ (by decide)).next ht₂ hty₂ (by decide)).next ht₃ hty₃ (by decide)
    have h' := (h.quiet hq).field (fun s => { s with
      packetIdentifiers := mapAssign t₁.text t₃.text s.packetIdentifiers }) (fun _ => rfl) (fun _ => rfl)
      fun _ => rfl
    refine both_ifOperator (fun t₄ ht₄ hty₄ => both_consume ht₄ ?_) ?_
    · exact parsePackets_same fuel (h'.quiet ((Quiet.refl _).next ht₄ hty₄ (by decide)))
    · exact both_ifExpected (fun _ _ _ => Both.pure h') both_throwPeek

theorem parseEndpoints_same : ∀ (fuel : Nat) {s s' : SettingsBlock} {pos : Nat},
    SameSettings m m' (toks.take pos) s s' →
    Both (SettingsPost m m' toks) (parseEndpoints fuel s toks pos) (parseEndpoints fuel s' toks pos)
  | 0, _, _, _, _ => Both.throw
  | fuel + 1, s, s', pos, h => by
    unfold parseEndpoints
    apply both_ifExpected (fun _ _ _ => Both.pure h)
    refine both_expectType fun t₁ ht₁ hty₁ => both_consume ht₁ ?_
    have hq := (Quiet.refl pos).next ht₁ hty₁ (by decide)
    have h' := (h.quiet hq).field (fun s => { s with endpoints := s.endpoints ++ [t₁.text] }) (fun _ => rfl)
      (fun _ => rfl) fun _ => rfl
    refine both_ifOperator (fun t₂ ht₂ hty₂ => both_consume ht₂ ?_) ?_
    · exact parseEndpoints_same fuel (h'.quiet ((Quiet.refl _).next ht₂ hty₂ (by decide)))
    · exact both_ifExpected (fun _ _ _ => Both.pure h') both_throwPeek

theorem closeNested_same {pos : Nat} (h : SettingsPost m m' toks s s' pos) :
    Both (SettingsPost m m' toks) (closeNested s toks pos) (closeNested s' toks pos) := by
  unfold closeNested
  refine both_ifExpected (fun t ht hty => both_consume ht (Both.pure ?_)) both_throwPeek
  exact SameSettings.quiet h ((Quiet.refl _).next ht hty (by decide))

theorem writes_take_succ {p : Nat} {t : Token} (ht : toks[p]? = some t) (hty : t.type = .Keyword) (kw : String) :
    Writes kw (toks.take (p + 1)) ↔ Writes kw (toks.take p) ∨ t.text = kw := by
  rw [take_succ_of ht]
  constructor
  · intro ⟨u, hu, hut, huk⟩
    rcases List.mem_append.mp hu with hu | hu
    · exact Or.inl ⟨u, hu, hut, huk⟩
    · rw [List.mem_singleton.mp hu] at huk
      exact Or.inr huk
  · rintro (⟨u, hu, hut, huk⟩ | hk)
    · exact ⟨u, List.mem_append_left _ hu, hut, huk⟩
    · exact ⟨t, by simp, hty, hk⟩

theorem parseField_same {pos : Nat} (h : SameSettings m m' (toks.take pos) s s') :
    Both (SettingsPost m m' toks) (parseField s toks pos) (parseField s' toks pos) := by
  unfold parseField
  refine both_expectType fun t ht hty => both_consume ht ?_
  refine both_ifExpected (fun t₁ ht₁ hty₁ => both_consume ht₁ ?_) ?_
  · -- A nested block: its keyword is no size.
    have nested {kw : String} (hk : t.text = kw) (hkw : kw ∉ sizeKeywords) :
        SameSettings m m' (toks.take (pos + 1 + 1)) s s' :=
      h.quiet ((quiet_step ht fun hs => hkw (hk ▸ hs.2)).next ht₁ hty₁ (by decide))
    refine Both.ite (fun hk => ?_) fun _ => Both.ite (fun hk => ?_) fun _ => both_throwPeek
    · exact Both.bind (parsePackets_same _ (nested hk (by decide))) fun _ _ _ hr => closeNested_same hr
    · exact Both.bind (parseEndpoints_same _ (nested hk (by decide))) fun _ _ _ hr => closeNested_same hr
  · refine both_expectOperator fun t₂ ht₂ hty₂ => both_consume ht₂ ?_
    refine both_expectType fun t₃ ht₃ hty₃ => both_consume ht₃ ?_
    have hq := ((Quiet.refl _).next ht₂ hty₂ (by decide)).next ht₃ hty₃ (by decide)
    rcases applySetting_settles t t₃ with ⟨e, he⟩ | ⟨f, hf, hu⟩
    · rw [he, he]; exact show e = e from rfl
    · rw [hf, hf]
      refine ⟨rfl, ?_⟩
      apply h.update hu
      intro k hk
      rw [← writes_take_succ ht hty k]
      exact ⟨hq.2 k hk, Writes.mono hq.1⟩

theorem parseFields_same : ∀ (fuel : Nat) {s s' : SettingsBlock} {pos : Nat},
    SameSettings m m' (toks.take pos) s s' →
    Both (SettingsPost m m' toks) (parseFields fuel s toks pos) (parseFields fuel s' toks pos)
  | 0, _, _, _, _ => Both.throw
  | fuel + 1, s, s', pos, h => by
    unfold parseFields
    apply both_ifExpected (fun _ _ _ => Both.pure h)
    exact Both.bind (parseField_same h) fun _ _ _ hr => parseFields_same fuel hr

end

/-! ## ORCHESTRATOR -/

section
variable {m m' : Memory} {toks : List Token}

def QuietPost {α : Type} (toks : List Token) (p : Nat) (a a' : α) (q : Nat) : Prop := a = a' ∧ Quiet toks p q

theorem tryParseRange_same (firstValue : Token) (keyword : String) {pos : Nat} :
    Both (QuietPost toks pos) (tryParseRange firstValue keyword toks pos)
      (tryParseRange firstValue keyword toks pos) := by
  unfold tryParseRange
  refine both_expectOperator fun t₁ ht₁ hty₁ => both_consume ht₁ ?_
  refine both_expectType fun t₂ ht₂ hty₂ => both_consume ht₂ ?_
  refine both_lift fun start _ => both_lift fun second _ => Both.pure ⟨rfl, ?_⟩
  exact ((Quiet.refl _).next ht₁ hty₁ (by decide)).next ht₂ hty₂ (by decide)

theorem parseModArguments_same {pos : Nat} :
    Both (QuietPost toks pos) (parseModArguments toks pos) (parseModArguments toks pos) := by
  unfold parseModArguments
  refine both_expectType fun t₁ ht₁ hty₁ => both_consume ht₁ ?_
  refine both_expectOperator fun t₂ ht₂ hty₂ => both_consume ht₂ ?_
  refine both_expectType fun t₃ ht₃ hty₃ => both_consume ht₃ (Both.pure ⟨rfl, ?_⟩)
  exact (((Quiet.refl _).next ht₁ hty₁ (by decide)).next ht₂ hty₂ (by decide)).next ht₃ hty₃ (by decide)

theorem tryParseSendOption_same (kind : ModificationType) (mods : ModList) {pos : Nat} :
    Both (QuietPost toks pos) (tryParseSendOption kind mods toks pos) (tryParseSendOption kind mods toks pos) := by
  unfold tryParseSendOption
  refine both_expectType fun t₁ ht₁ hty₁ => both_consume ht₁ ?_
  refine Both.bind (tryParseRange_same _ _) ?_
  rintro bytes _ p ⟨rfl, hp⟩
  apply Both.bind parseModArguments_same
  rintro ⟨firstArg, secondArg⟩ _ q ⟨rfl, hq⟩
  apply both_lift
  intro littleEndian _
  have hpos := (((Quiet.refl _).next ht₁ hty₁ (by decide)).trans hp).trans hq
  cases kind with
  | Timestamp => exact Both.ite (fun _ => Both.pure ⟨rfl, hpos⟩) fun _ => Both.throw
  | Counter => exact both_lift fun step _ => Both.pure ⟨rfl, hpos⟩

theorem parseSendOptions_same : ∀ (fuel : Nat) (mods : ModList) {pos : Nat},
    Both (QuietPost toks pos) (parseSendOptions fuel mods toks pos) (parseSendOptions fuel mods toks pos)
  | 0, _, _ => Both.throw
  | fuel + 1, mods, pos => by
    have again {kind : ModificationType} {t : Token} (ht : toks[pos]? = some t) (hk : ¬ t.IsSize) :
        Both (QuietPost toks pos)
          ((consume >>= fun _ => tryParseSendOption kind mods >>= fun mods => parseSendOptions fuel mods) toks pos)
          ((consume >>= fun _ => tryParseSendOption kind mods >>= fun mods => parseSendOptions fuel mods) toks pos) := by
      refine both_consume ht (Both.bind (tryParseSendOption_same _ _) ?_)
      rintro mods' _ p ⟨rfl, hp⟩
      apply (parseSendOptions_same fuel mods').mono
      rintro r _ q ⟨rfl, hq⟩
      exact ⟨rfl, ((quiet_step ht hk).trans hp).trans hq⟩
    unfold parseSendOptions
    apply both_peek
    rcases isExpected_run toks pos .Keyword with ⟨hr, t, ht, _⟩ | hr
    · rw [bind_run hr, ht]
      refine Both.ite (fun _ => ?_) fun _ => Both.pure ⟨rfl, Quiet.refl _⟩
      refine Both.ite (fun hk => ?_) fun _ => Both.ite (fun hk => ?_) fun _ => Both.pure ⟨rfl, Quiet.refl _⟩
      · exact again ht fun hs => by have := hs.2; rw [show t.text = "COUNTER" from hk] at this; revert this; decide
      · exact again ht fun hs => by have := hs.2; rw [show t.text = "TIMESTAMP" from hk] at this; revert this; decide
    · rw [bind_run hr]
      exact Both.ite (fun h => absurd h.2 (by decide)) fun _ => Both.pure ⟨rfl, Quiet.refl _⟩

structure SameBody (a a' : Action) : Prop where
  type : a.type = a'.type
  range : a.range = a'.range
  packetIdentifier : a.packetIdentifier = a'.packetIdentifier
  mods : a.mods = a'.mods
  count : a.type = .CREATE ∨ a.type = .SEND → a.count = a'.count
  create : a.type = .CREATE → a.range = ⟨0, a.count⟩

structure SameAction (a a' : Action) : Prop extends SameBody a a' where
  offsetMs : a.offsetMs = a'.offsetMs

def BodyPost (toks : List Token) (p : Nat) (a a' : Action) (q : Nat) : Prop := SameBody a a' ∧ Quiet toks p q

variable {a a' : Action} (hid : a.packetIdentifier = a'.packetIdentifier) (hmods : a.mods = a'.mods)

include hid hmods in
theorem parseRanged_same {type : ActionType} (ht : type ≠ .CREATE ∧ type ≠ .SEND) (firstVal tAction : Token)
    {pos : Nat} : Both (BodyPost toks pos) (parseRanged type firstVal tAction a toks pos)
      (parseRanged type firstVal tAction a' toks pos) := by
  unfold parseRanged
  apply Both.bind (tryParseRange_same _ _)
  rintro range _ q ⟨rfl, hq⟩
  exact Both.pure ⟨⟨rfl, rfl, hid, hmods, fun h => absurd h (not_or.mpr ht), fun h => absurd h ht.1⟩, hq⟩

include hid hmods in
theorem parseCreate_same (firstVal : Token) {pos : Nat} :
    Both (BodyPost toks pos) (parseCreate firstVal a toks pos) (parseCreate firstVal a' toks pos) := by
  unfold parseCreate
  exact both_lift fun count _ =>
    Both.pure ⟨⟨rfl, rfl, hid, hmods, fun _ => rfl, fun _ => rfl⟩, Quiet.refl _⟩

theorem both_expectCopies {α α' : Type} {R : α → α' → Nat → Prop} {pos : Nat} {k : Unit → ParserM α}
    {k' : Unit → ParserM α'}
    (h : ∀ t, toks[pos]? = some t → ¬ t.IsSize → Both R (k () toks pos) (k' () toks pos)) :
    Both R ((expectCopies >>= k) toks pos) ((expectCopies >>= k') toks pos) := by
  have hb : Both (fun _ _ q => q = pos ∧ ∃ t, toks[pos]? = some t ∧ ¬ t.IsSize) (expectCopies toks pos)
      (expectCopies toks pos) := by
    unfold expectCopies
    refine both_expectType fun t ht _ => both_peek ?_
    rw [ht]
    refine Both.ite (fun hc => Both.pure ⟨rfl, t, rfl, fun hs => ?_⟩) fun _ => Both.throw
    have := hs.2
    rw [show t.text = "COPIES" from hc] at this
    revert this; decide
  apply Both.bind hb
  rintro _ _ q ⟨rfl, t, ht, hty⟩
  exact h t ht hty

include hmods in
theorem parseSend_same (firstVal tAction : Token) {pos : Nat} :
    Both (BodyPost toks pos) (parseSend firstVal tAction a toks pos) (parseSend firstVal tAction a' toks pos) := by
  unfold parseSend
  apply Both.bind (tryParseRange_same _ _)
  rintro range _ p ⟨rfl, hp⟩
  refine both_expectType fun t₁ ht₁ hty₁ => both_consume ht₁ ?_
  refine both_expectCopies fun t₂ ht₂ hk₂ => both_consume ht₂ ?_
  refine both_expectType fun t₃ ht₃ hty₃ => both_consume ht₃ ?_
  refine both_lift fun count _ => ?_
  rw [hmods]
  apply Both.bind (parseSendOptions_same _ _)
  rintro mods _ q ⟨rfl, hq⟩
  refine Both.pure ⟨⟨rfl, rfl, rfl, rfl, fun _ => rfl, fun h => by cases h⟩, ?_⟩
  exact (((hp.next ht₁ hty₁ (by decide)).trans (quiet_step ht₂ hk₂)).next ht₃ hty₃ (by decide)).trans hq

theorem parseOffset_same {pos : Nat} :
    Both (QuietPost toks pos) (parseOffset toks pos) (parseOffset toks pos) := by
  unfold parseOffset
  apply both_peek
  cases ht : toks[pos]? with
  | none => exact Both.ite (fun h => absurd h (by decide)) fun _ => Both.pure ⟨rfl, Quiet.refl _⟩
  | some t =>
    refine Both.ite (fun hk => both_consume ht ?_) fun _ => Both.pure ⟨rfl, Quiet.refl _⟩
    refine both_expectType fun t₁ ht₁ hty₁ => both_consume ht₁ ?_
    have hs : ¬ t.IsSize := fun hs => by
      have := hs.2
      rw [show t.text = "OFFSET" from hk] at this
      revert this; decide
    cases tryParseTime t₁ with
    | error e => exact show e = e from rfl
    | ok ms => exact ⟨rfl, rfl, (quiet_step ht hs).next ht₁ hty₁ (by decide)⟩

include hid hmods in
/-- The keyword of an action is no size, or the action is an error. -/
theorem parseActionKind_same {tAction firstVal : Token} {pos : Nat} :
    Both (fun b b' q => ¬ tAction.IsSize ∧ BodyPost toks pos b b' q) (parseActionKind tAction firstVal a toks pos)
      (parseActionKind tAction firstVal a' toks pos) := by
  unfold parseActionKind
  have kind {name : String} {x y : Except String (Action × Nat)} (hk : tAction.text = name)
      (hn : name ∉ sizeKeywords) (h : Both (BodyPost toks pos) x y) :
      Both (fun b b' q => ¬ tAction.IsSize ∧ BodyPost toks pos b b' q) x y :=
    h.mono fun _ _ _ hb => ⟨fun hs => hn (hk ▸ hs.2), hb⟩
  apply Both.ite (fun hk => kind hk (by decide) (parseSend_same hmods _ _))
  intro _
  apply Both.ite (fun hk => kind hk (by decide) (parseRanged_same hid hmods (by decide) _ _))
  intro _
  apply Both.ite (fun hk => kind hk (by decide) (parseRanged_same hid hmods (by decide) _ _))
  intro _
  apply Both.ite (fun hk => kind hk (by decide) (parseRanged_same hid hmods (by decide) _ _))
  intro _
  apply Both.ite (fun hk => kind hk (by decide) (parseRanged_same hid hmods (by decide) _ _))
  intro _
  exact Both.ite (fun hk => kind hk (by decide) (parseCreate_same hid hmods _)) fun _ => both_throwPeek

end

section
variable (m m' : Memory) {toks : List Token}

def ActionPost (toks : List Token) (p : Nat) (a a' : Action) (q : Nat) : Prop := SameAction a a' ∧ Quiet toks p q

theorem parseAction_same {pos : Nat} :
    Both (ActionPost toks pos) (parseAction m toks pos) (parseAction m' toks pos) := by
  unfold parseAction
  refine both_expectType fun t ht hty => both_consume ht ?_
  have hr : (getThe Nat : ParserM Nat) toks (pos + 1) = .ok (pos + 1, pos + 1) := rfl
  rw [bind_run hr, bind_run hr]
  refine both_expectType fun t₁ ht₁ hty₁ => both_consume ht₁ ?_
  have hid : (m.action (pos + 1)).toAction.packetIdentifier = (m'.action (pos + 1)).toAction.packetIdentifier := rfl
  have hmods : (m.action (pos + 1)).toAction.mods = (m'.action (pos + 1)).toAction.mods := rfl
  apply Both.bind (parseActionKind_same hid hmods)
  intro a a' p ⟨hk, ha, hp⟩
  apply Both.bind parseOffset_same
  rintro ms _ q ⟨rfl, hq⟩
  refine Both.pure ⟨⟨⟨ha.type, ha.range, ha.packetIdentifier, ha.mods, ha.count, ha.create⟩, rfl⟩, ?_⟩
  exact (((quiet_step ht hk).next ht₁ hty₁ (by decide)).trans hp).trans hq

structure SameOrchestrator (o o' : OrchestratorBlock) : Prop where
  settingsIdentifier : o.settingsIdentifier = o'.settingsIdentifier
  actions : List.Forall₂ SameAction o.actions o'.actions

def OrchestratorPost (toks : List Token) (p : Nat) (o o' : OrchestratorBlock) (q : Nat) : Prop :=
  SameOrchestrator o o' ∧ Quiet toks p q

theorem parseActions_same : ∀ (fuel : Nat) {o o' : OrchestratorBlock} {pos : Nat}, SameOrchestrator o o' →
    Both (OrchestratorPost toks pos) (parseActions m fuel o toks pos) (parseActions m' fuel o' toks pos)
  | 0, _, _, _, _ => Both.throw
  | fuel + 1, o, o', pos, h => by
    unfold parseActions
    apply both_ifExpected (fun _ _ _ => Both.pure ⟨h, Quiet.refl _⟩)
    apply Both.bind (parseAction_same m m')
    intro a a' p ⟨ha, hp⟩
    have h' : SameOrchestrator { o with actions := o.actions ++ [a] } { o' with actions := o'.actions ++ [a'] } :=
      ⟨h.settingsIdentifier, List.rel_append h.actions (.cons ha .nil)⟩
    exact (parseActions_same fuel h').mono fun _ _ _ hr => ⟨hr.1, hp.trans hr.2⟩

theorem parseOrchestrator_same {o o' : OrchestratorBlock} (h : SameOrchestrator o o') {pos : Nat} {t : Token}
    (ht : toks[pos]? = some t) (hk : ¬ t.IsSize) :
    Both (OrchestratorPost toks pos) (parseOrchestrator m o toks pos) (parseOrchestrator m' o' toks pos) := by
  unfold parseOrchestrator
  apply both_consume ht
  refine both_expectType fun t₁ ht₁ hty₁ => both_consume ht₁ ?_
  refine both_expectType fun t₂ ht₂ hty₂ => both_consume ht₂ ?_
  refine Both.bind (parseActions_same m m' _ ⟨rfl, h.actions⟩) ?_
  intro r r' q ⟨hr, hq⟩
  refine both_expectType fun t₃ ht₃ hty₃ => both_consume ht₃ (Both.pure ⟨hr, ?_⟩)
  exact ((((quiet_step ht hk).next ht₁ hty₁ (by decide)).next ht₂ hty₂ (by decide)).trans hq).next ht₃ hty₃
    (by decide)

theorem parseSettings_same {s s' : SettingsBlock} {pos : Nat} (h : SameSettings m m' (toks.take pos) s s')
    {t : Token} (ht : toks[pos]? = some t) (hk : ¬ t.IsSize) :
    Both (SettingsPost m m' toks) (parseSettings s toks pos) (parseSettings s' toks pos) := by
  unfold parseSettings
  apply both_consume ht
  refine both_expectType fun t₁ ht₁ hty₁ => both_peek ?_
  refine both_consume ht₁ ?_
  refine both_expectType fun t₂ ht₂ hty₂ => both_consume ht₂ ?_
  have hq := ((quiet_step ht hk).next ht₁ hty₁ (by decide)).next ht₂ hty₂ (by decide)
  have h' := (h.quiet hq).field (fun s => { s with identifier := ((toks[pos + 1]?).getD eofToken).text })
    (fun _ => rfl) (fun _ => rfl) fun _ => rfl
  apply Both.bind (parseFields_same _ h')
  intro r r' q hr
  refine both_expectType fun t₃ ht₃ hty₃ => both_consume ht₃ (Both.pure ?_)
  exact SameSettings.quiet hr ((Quiet.refl _).next ht₃ hty₃ (by decide))

/-! ## The whole text -/

structure SameScript (passed : List Token) (d d' : DSLData) : Prop where
  settings : SameSettings m m' passed d.settings d'.settings
  orchestrator : SameOrchestrator d.orchestrator d'.orchestrator

theorem parseBlocks_same : ∀ (fuel : Nat) {d d' : DSLData} {pos : Nat}, SameScript m m' (toks.take pos) d d' →
    Both (fun r r' _ => SameScript m m' toks r r') (parseBlocks m fuel d toks pos) (parseBlocks m' fuel d' toks pos)
  | 0, _, _, _, _ => Both.throw
  | fuel + 1, d, d', pos, h => by
    unfold parseBlocks
    change Both _ ((if decide (toks.length ≤ pos) = true then _ else _ : ParserM DSLData) toks pos)
      ((if decide (toks.length ≤ pos) = true then _ else _ : ParserM DSLData) toks pos)
    refine Both.ite (fun hend => Both.pure ?_) fun hend => both_peek ?_
    · rwa [List.take_of_length_le (by simpa using hend)] at h
    · have hlt : pos < toks.length := by simpa using hend
      have ht : toks[pos]? = some toks[pos] := List.getElem?_eq_getElem hlt
      rw [ht]
      have named {name : String} (hk : toks[pos].text = name) (hn : name ∉ sizeKeywords) : ¬ toks[pos].IsSize :=
        fun hs => hn (hk ▸ hs.2)
      refine Both.ite (fun hk => ?_) fun _ => Both.ite (fun hk => ?_) fun _ => Both.throw
      · apply Both.bind (parseSettings_same m m' h.settings ht (named hk (by decide)))
        intro r r' q hr
        exact parseBlocks_same fuel ⟨hr, h.orchestrator⟩
      · apply Both.bind (parseOrchestrator_same m m' h.orchestrator ht (named hk (by decide)))
        intro r r' q ⟨hr, hq⟩
        exact parseBlocks_same fuel ⟨h.settings.quiet hq, hr⟩

/-- Over two memories the parser fails with one error or makes one script. -/
theorem parse_same (toks : List Token) :
    (∃ e, parse m toks = .error e ∧ parse m' toks = .error e) ∨
      ∃ d d', parse m toks = .ok d ∧ parse m' toks = .ok d' ∧ SameScript m m' toks d d' := by
  have hnone : ∀ kw, ¬ Writes kw [] := fun kw ⟨_, h, _⟩ => by cases h
  have h₀ : SameScript m m' (toks.take 0) m.toScript m'.toScript :=
    ⟨⟨rfl, fun w => absurd w (hnone _), fun _ => ⟨rfl, rfl⟩, fun w => absurd w (hnone _), fun _ => ⟨rfl, rfl⟩⟩,
      ⟨rfl, .nil⟩⟩
  have h := parseBlocks_same m m' (toks.length + 1) h₀
  change (∃ e, (parseBlocks m (toks.length + 1) m.toScript toks 0).map (·.1) = .error e ∧
      (parseBlocks m' (toks.length + 1) m'.toScript toks 0).map (·.1) = .error e) ∨
    ∃ d d', (parseBlocks m (toks.length + 1) m.toScript toks 0).map (·.1) = .ok d ∧
      (parseBlocks m' (toks.length + 1) m'.toScript toks 0).map (·.1) = .ok d' ∧ SameScript m m' toks d d'
  cases hx : parseBlocks m (toks.length + 1) m.toScript toks 0 with
  | error e => rw [h.error hx]; exact Or.inl ⟨e, rfl, rfl⟩
  | ok r =>
    obtain ⟨d', hx', hs⟩ := h.ok hx
    rw [hx']
    exact Or.inr ⟨_, _, rfl, rfl, hs⟩

end

end Loadshear
