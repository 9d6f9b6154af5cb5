import Mathlib.Data.List.Induction
import Loadshear.LexerSound

/-!
# Where the tokens stand

A script the lexer takes is its tokens' spans, with blanks and comments between
them and nothing else. `advance` keeps the position every token is marked with:
its line is counted from the newlines before it, its column from the last one.
-/

namespace Loadshear

/-! ## Positions -/

def lineAfter (before : List Char) : Nat := 1 + before.count '\n'

def colAfter (before : List Char) : Nat := 1 + (before.reverse.takeWhile (· ≠ '\n')).length

def LexPos.past (p : LexPos) (cs : List Char) : LexPos := cs.foldl LexPos.advance p

namespace LexPos

@[simp] theorem past_nil (p : LexPos) : p.past [] = p := rfl

@[simp] theorem past_cons (p : LexPos) (c : Char) (cs : List Char) : p.past (c :: cs) = (p.advance c).past cs := rfl

theorem past_append (p : LexPos) (cs ds : List Char) : p.past (cs ++ ds) = (p.past cs).past ds := by
  simp [past]

theorem past_eq (cs : List Char) : past ⟨1, 1⟩ cs = ⟨lineAfter cs, colAfter cs⟩ := by
  induction cs using List.reverseRecOn with
  | nil => rfl
  | append_singleton cs c ih =>
    rw [past_append, ih, past_cons, past_nil, advance]
    by_cases hc : c = '\n'
    · subst hc
      rw [if_pos rfl]
      simp [lineAfter, colAfter]
      omega
    · rw [if_neg hc]
      simp [lineAfter, colAfter, hc]
      omega

end LexPos

/-! ## Spans -/

inductive Unescapes : List Char → List Char → Prop
  | nil : Unescapes [] []
  | escaped {d : Char} {body value : List Char} (hd : d = '"' ∨ d = '$') (h : Unescapes body value) :
      Unescapes ('\\' :: d :: body) (d :: value)
  | plain {c : Char} {body value : List Char} (hc : c ≠ '"')
      (hb : c = '\\' → ∀ d ∈ (body ++ ['"']).head?, d ≠ '"' ∧ d ≠ '$') (h : Unescapes body value) :
      Unescapes (c :: body) (c :: value)

def IsNumeral (text : String) : Prop := ∃ c cs, text.toList = c :: cs ∧ c.isDigit ∧ ∀ d ∈ cs, isValueChar d

/-- The span is a spelling of the token. -/
inductive Spells : List Char → TokenType → String → Prop
  | braceOpen : Spells ['{'] .BraceOpen "\x7b"
  | braceClosed : Spells ['}'] .BraceClosed "\x7d"
  | operator {c : Char} (h : c ∈ validTokenOperators) : Spells [c] .Operator (String.ofList [c])
  | quoted {body value : List Char} (h : Unescapes body value) :
      Spells ('"' :: (body ++ ['"'])) .Value (String.ofList value)
  | keyword {text : String} (h : IsName text) (hk : text ∈ validKeywords) : Spells text.toList .Keyword text
  | identity {text : String} (h : IsName text) (hk : text ∉ validKeywords) : Spells text.toList .Identity text
  | number {text : String} (h : IsNumeral text) : Spells text.toList .Value text

def Maximal (text : String) (next : Char) : Prop :=
  (IsName text → ¬ IsName (text.push next)) ∧ (IsNumeral text → ¬ IsNumeral (text.push next))

structure Token.Stands (source : List Char) (span : Nat × Nat) (t : Token) : Prop where
  spells : Spells (source.extract span.1 span.2) t.type t.text
  maximal : ∀ next ∈ source[span.2]?, Maximal (String.ofList (source.extract span.1 span.2)) next
  keyword : source[span.1]? ≠ some '"' → (t.type = .Keyword ↔ t.text ∈ validKeywords)
  line : t.line = lineAfter (source.take span.1)
  col : t.col = colAfter (source.take span.1)

/-- Blanks and comments; at the end of a source a comment needs no newline. -/
def Ignorable (source : List Char) (a b : Nat) : Prop :=
  ∃ gaps comment, source.extract a b = gapText gaps ++ comment ∧
    (comment = [] ∨ b = source.length ∧ ∃ text, comment = '/' :: '/' :: text ∧ '\n' ∉ text)

/-- From `a` on the spans come one behind another, and leave out what is ignorable. -/
def Spaced (source : List Char) : Nat → List (Nat × Nat) → Prop
  | a, [] => a ≤ source.length ∧ Ignorable source a source.length
  | a, (b, c) :: spans => a ≤ b ∧ b < c ∧ c ≤ source.length ∧ Ignorable source a b ∧ Spaced source c spans

/-! ## Loops -/

theorem skipIgnorable_comments : ∀ (cs : List Char) (p : LexPos),
    (∃ text cs', cs = text ++ '\n' :: cs' ∧ '\n' ∉ text ∧
      skipIgnorable true cs p = skipIgnorable false cs' (p.past (text ++ ['\n']))) ∨
    ('\n' ∉ cs ∧ skipIgnorable true cs p = ([], p.past cs))
  | [], p => .inr ⟨by simp, rfl⟩
  | c :: cs, p => by
    by_cases hc : c = '\n'
    · subst hc
      exact .inl ⟨[], cs, rfl, by simp, rfl⟩
    · rw [skipIgnorable, decide_eq_true hc]
      obtain ⟨text, cs', rfl, ht, hs⟩ | ⟨ht, hs⟩ := skipIgnorable_comments cs (p.advance c)
      · refine .inl ⟨c :: text, cs', rfl, ?_, hs⟩
        simp [Ne.symm hc, ht]
      · refine .inr ⟨?_, hs⟩
        simp [Ne.symm hc, ht]

/-- What is skipped is gaps, and a last comment where the source ends in one. -/
theorem skipIgnorable_skips (n : Nat) : ∀ {cs rest : List Char} {p q : LexPos}, cs.length ≤ n →
    skipIgnorable false cs p = (rest, q) →
    ∃ gaps comment, cs = gapText gaps ++ comment ++ rest ∧ q = p.past (gapText gaps ++ comment) ∧
      (comment = [] ∨ rest = [] ∧ ∃ text, comment = '/' :: '/' :: text ∧ '\n' ∉ text) := by
  induction n with
  | zero =>
    intro cs rest p q hn h
    obtain rfl := List.length_eq_zero_iff.mp (Nat.le_zero.mp hn)
    cases h
    exact ⟨[], [], rfl, rfl, .inl rfl⟩
  | succ n ih =>
    intro cs rest p q hn h
    cases cs with
    | nil =>
      cases h
      exact ⟨[], [], rfl, rfl, .inl rfl⟩
    | cons c cs =>
      have hcs : cs.length ≤ n := Nat.le_of_succ_le_succ hn
      rw [skipIgnorable] at h
      by_cases hc : c = ' ' ∨ c = '\t' ∨ c = '\r' ∨ c = '\n'
      · rw [if_pos hc] at h
        obtain ⟨gaps, comment, rfl, rfl, he⟩ := ih hcs h
        exact ⟨.blank c hc :: gaps, comment, rfl, rfl, he⟩
      · rw [if_neg hc] at h
        by_cases hs : c = '/' ∧ cs.head? = some '/'
        · rw [if_pos hs] at h
          obtain ⟨rfl, hd⟩ := hs
          obtain ⟨ds, rfl⟩ : ∃ ds, cs = '/' :: ds := by
            cases cs with
            | nil => cases hd
            | cons d ds => exact ⟨ds, by rw [Option.some.inj hd]⟩
          have hfirst : skipIgnorable true ('/' :: ds) (p.advance '/') =
              skipIgnorable true ds ((p.advance '/').advance '/') := rfl
          rw [hfirst] at h
          obtain ⟨text, ds', rfl, ht, hs⟩ | ⟨ht, hs⟩ := skipIgnorable_comments ds ((p.advance '/').advance '/')
          · rw [hs] at h
            have hl : ds'.length ≤ n := by
              simp only [List.length_cons, List.length_append] at hcs
              omega
            obtain ⟨gaps, comment, rfl, rfl, he⟩ := ih hl h
            refine ⟨.comment text ht :: gaps, comment, ?_, ?_, he⟩
            · simp [gapText, Gap.spelling]
            · simp [gapText, Gap.spelling, LexPos.past_append]
          · rw [hs] at h
            cases h
            exact ⟨[], '/' :: '/' :: ds, by simp [gapText], rfl, .inr ⟨rfl, ds, rfl, ht⟩⟩
        · rw [if_neg hs] at h
          cases h
          exact ⟨[], [], rfl, rfl, .inl rfl⟩

theorem lexWhile_runs {allowed : Char → Bool} : ∀ {cs rest : List Char} {p q : LexPos} {value value' : List Char},
    lexWhile allowed cs p value = (rest, q, value') →
    ∃ run, cs = run ++ rest ∧ value' = value ++ run ∧ q = p.past run ∧ (∀ c ∈ run, allowed c) ∧
      ∀ d ∈ rest.head?, allowed d = false
  | [], rest, p, q, value, value', h => by
    cases h
    exact ⟨[], rfl, by simp, rfl, by simp, by simp⟩
  | c :: cs, rest, p, q, value, value', h => by
    rw [lexWhile] at h
    by_cases hc : allowed c
    · rw [if_pos hc] at h
      obtain ⟨run, rfl, rfl, rfl, hall, hr⟩ := lexWhile_runs h
      exact ⟨c :: run, rfl, by simp, rfl, List.forall_mem_cons.mpr ⟨hc, hall⟩, hr⟩
    · rw [if_neg hc] at h
      cases h
      refine ⟨[], rfl, by simp, rfl, by simp, ?_⟩
      intro d hd
      cases hd
      simpa using hc

theorem lexQuoted_runs {rest : List Char} {q : LexPos} {value' : List Char} {d : Char} :
    ∀ (cs : List Char) (p : LexPos) (value : List Char), lexQuoted cs p value = (d :: rest, q, value') →
    ∃ body content, cs = body ++ '"' :: rest ∧ d = '"' ∧ value' = value ++ content ∧ q = p.past body ∧
      Unescapes body content
  | [], p, value, h => by cases h
  | [c], p, value, h => by
    rw [lexQuoted] at h
    by_cases hc : c = '"'
    · rw [if_pos hc] at h
      cases h
      exact ⟨[], [], by rw [hc]; rfl, hc, by simp, rfl, .nil⟩
    · rw [if_neg hc] at h
      cases h
  | c :: e :: cs, p, value, h => by
    rw [lexQuoted] at h
    by_cases hc : c = '"'
    · rw [if_pos hc] at h
      cases h
      exact ⟨[], [], by rw [hc]; rfl, hc, by simp, rfl, .nil⟩
    rw [if_neg hc] at h
    by_cases he : c = '\\' ∧ (e = '"' ∨ e = '$')
    · rw [if_pos he] at h
      obtain ⟨rfl, he⟩ := he
      obtain ⟨body, content, rfl, rfl, rfl, rfl, hu⟩ := lexQuoted_runs cs _ _ h
      exact ⟨'\\' :: e :: body, e :: content, rfl, rfl, by simp, rfl, .escaped he hu⟩
    · rw [if_neg he] at h
      obtain ⟨body, content, hb, rfl, rfl, rfl, hu⟩ := lexQuoted_runs (e :: cs) _ _ h
      refine ⟨c :: body, c :: content, by rw [hb]; rfl, rfl, by simp, rfl, .plain hc ?_ hu⟩
      -- The character behind the backslash is the one the loop has looked at.
      intro hs d hd
      obtain rfl : e = d := by
        cases body with
        | nil => exact (List.cons.inj hb).1.trans (Option.some.inj hd)
        | cons b body => exact (List.cons.inj hb).1.trans (Option.some.inj hd)
      exact not_or.mp fun hq => he ⟨hs, hq⟩

/-! ## Tokens -/

theorem maximal_of_head {c next : Char} (cs : List Char) (ha : c.isAlpha → isIdentChar next = false)
    (hd : c.isDigit → isValueChar next = false) : Maximal (String.ofList (c :: cs)) next := by
  have hpush : ((String.ofList (c :: cs)).push next).toList = c :: (cs ++ [next]) := by simp
  refine ⟨?_, ?_⟩
  · rintro - ⟨b, bs, hb, hba, hbs⟩
    rw [hpush] at hb
    obtain ⟨rfl, rfl⟩ := List.cons.inj hb
    have hn := hbs next (by simp)
    rw [ha hba] at hn
    cases hn
  · rintro - ⟨b, bs, hb, hbd, hbs⟩
    rw [hpush] at hb
    obtain ⟨rfl, rfl⟩ := List.cons.inj hb
    have hn := hbs next (by simp)
    rw [hd hbd] at hn
    cases hn

theorem not_keyword_of_head {text : String} {c : Char} {cs : List Char} (ht : text.toList = c :: cs)
    (hc : c.isAlpha = false) : text ∉ validKeywords := by
  intro hk
  have hall : ∀ k ∈ validKeywords, IsName k := by decide
  obtain ⟨b, bs, hb, hba, -⟩ := hall text hk
  rw [ht] at hb
  obtain ⟨rfl, -⟩ := List.cons.inj hb
  rw [hc] at hba
  cases hba

def Takes (c : Char) (cs rest : List Char) (p q : LexPos) (t : Token) : Prop :=
  ∃ span, c :: cs = c :: span ++ rest ∧ q = p.past (c :: span) ∧ t.line = p.line ∧ t.col = p.col ∧
    Spells (c :: span) t.type t.text ∧ (c ≠ '"' → (t.type = .Keyword ↔ t.text ∈ validKeywords)) ∧
    ∀ next ∈ rest.head?, Maximal (String.ofList (c :: span)) next

theorem takes_symbol {c : Char} {type : TokenType} (cs : List Char) (p : LexPos)
    (hs : Spells [c] type (String.ofList [c])) (ht : type ≠ .Keyword) (hc : c.isAlphanum = false) :
    Takes c cs cs p (p.advance c) ⟨type, String.ofList [c], p.line, p.col⟩ := by
  obtain ⟨ha, hd⟩ : c.isAlpha = false ∧ c.isDigit = false := by simpa [Char.isAlphanum] using hc
  refine ⟨[], rfl, rfl, rfl, rfl, hs, ?_, ?_⟩
  · intro _
    exact iff_of_false ht (not_keyword_of_head (String.toList_ofList ..) ha)
  · intro next _
    apply maximal_of_head
    · simp [ha]
    · simp [hd]

theorem takes_quoted {cs rest : List Char} {p q : LexPos} {d : Char} {value : List Char}
    (h : lexQuoted cs (p.advance '"') [] = (d :: rest, q, value)) :
    Takes '"' cs rest p (q.advance d) ⟨.Value, String.ofList value, p.line, p.col⟩ := by
  obtain ⟨body, content, rfl, rfl, rfl, rfl, hu⟩ := lexQuoted_runs cs _ _ h
  refine ⟨body ++ ['"'], by simp, by simp [LexPos.past_append], rfl, rfl, .quoted hu, ?_, ?_⟩
  · intro hq
    exact absurd rfl hq
  · intro next _
    apply maximal_of_head
    · intro ha
      exact absurd ha (by decide)
    · intro hd
      exact absurd hd (by decide)

theorem lexWhile_cons_runs {allowed : Char → Bool} {c : Char} {cs rest : List Char} {p q : LexPos} {value : List Char}
    (hc : allowed c) (h : lexWhile allowed (c :: cs) p [] = (rest, q, value)) :
    ∃ span, value = c :: span ∧ c :: cs = c :: span ++ rest ∧ q = p.past (c :: span) ∧ (∀ d ∈ span, allowed d) ∧
      ∀ d ∈ rest.head?, allowed d = false := by
  rw [lexWhile, if_pos hc] at h
  obtain ⟨span, rfl, rfl, rfl, hall, hr⟩ := lexWhile_runs h
  exact ⟨span, rfl, rfl, rfl, hall, hr⟩

theorem takes_name {c : Char} {cs rest : List Char} {p q : LexPos} {ident : List Char} (hc : c.isAlpha)
    (h : lexWhile isIdentChar (c :: cs) p [] = (rest, q, ident)) :
    Takes c cs rest p q ⟨if String.ofList ident ∈ validKeywords then .Keyword else .Identity, String.ofList ident,
      p.line, p.col⟩ := by
  have hident : isIdentChar c := by simp [isIdentChar, Char.isAlphanum, hc]
  obtain ⟨span, rfl, hcs, rfl, hall, hr⟩ := lexWhile_cons_runs hident h
  have htext := String.toList_ofList (l := c :: span)
  have hname : IsName (String.ofList (c :: span)) := ⟨c, span, htext, hc, hall⟩
  have hend : ∀ next ∈ rest.head?, Maximal (String.ofList (c :: span)) next := by
    intro next hn
    apply maximal_of_head
    · intro _
      exact hr next hn
    · intro hd
      rw [not_isAlpha_of_isDigit hd] at hc
      cases hc
  by_cases hk : String.ofList (c :: span) ∈ validKeywords
  · rw [if_pos hk]
    have hs := Spells.keyword hname hk
    rw [htext] at hs
    exact ⟨span, hcs, rfl, rfl, rfl, hs, fun _ => iff_of_true rfl hk, hend⟩
  · rw [if_neg hk]
    have hs := Spells.identity hname hk
    rw [htext] at hs
    exact ⟨span, hcs, rfl, rfl, rfl, hs, fun _ => iff_of_false TokenType.noConfusion hk, hend⟩

theorem takes_number {c : Char} {cs rest : List Char} {p q : LexPos} {value : List Char} (hc : c.isDigit)
    (h : lexWhile isValueChar (c :: cs) p [] = (rest, q, value)) :
    Takes c cs rest p q ⟨.Value, String.ofList value, p.line, p.col⟩ := by
  have hvalue : isValueChar c := by simp [isValueChar, Char.isAlphanum, hc]
  have ha := not_isAlpha_of_isDigit hc
  obtain ⟨span, rfl, hcs, rfl, hall, hr⟩ := lexWhile_cons_runs hvalue h
  have htext := String.toList_ofList (l := c :: span)
  refine ⟨span, hcs, rfl, rfl, rfl, ?_, ?_, ?_⟩
  · have hs := Spells.number ⟨c, span, htext, hc, hall⟩
    rwa [htext] at hs
  · intro _
    exact iff_of_false TokenType.noConfusion (not_keyword_of_head htext ha)
  · intro next hn
    apply maximal_of_head
    · intro hn'
      rw [ha] at hn'
      cases hn'
    · intro _
      exact hr next hn

theorem lexToken_takes {c : Char} {cs rest : List Char} {p q : LexPos} {t : Token}
    (h : lexToken c cs p = .ok (t, rest, q)) : Takes c cs rest p q t := by
  unfold lexToken at h
  split at h
  · subst c
    cases h
    exact takes_symbol cs p .braceOpen (by decide) (by decide)
  split at h
  · subst c
    cases h
    exact takes_symbol cs p .braceClosed (by decide) (by decide)
  split at h
  · rename_i hop
    cases h
    apply takes_symbol cs p (.operator hop) (by decide)
    obtain rfl | rfl | rfl : c = '=' ∨ c = ',' ∨ c = ':' := by simpa [validTokenOperators] using hop
    all_goals rfl
  split at h
  · subst c
    split at h
    · cases h
    · rename_i hq
      cases h
      exact takes_quoted hq
  split at h
  · rename_i ha
    cases h
    exact takes_name ha rfl
  split at h
  · rename_i hd
    cases h
    exact takes_number hd rfl
  · cases h

/-! ## The source -/

theorem extract_middle (before span rest : List Char) :
    (before ++ span ++ rest).extract before.length (before ++ span).length = span := by
  simp

theorem ignorable_of_skipped {before gap rest source : List Char} {gaps : List Gap} {comment : List Char}
    (hs : source = before ++ gap ++ rest) (hg : gap = gapText gaps ++ comment)
    (hc : comment = [] ∨ rest = [] ∧ ∃ text, comment = '/' :: '/' :: text ∧ '\n' ∉ text) :
    Ignorable source before.length (before ++ gap).length := by
  refine ⟨gaps, comment, ?_, ?_⟩
  · rw [hs, extract_middle, hg]
  · refine hc.imp id ?_
    rintro ⟨rfl, ht⟩
    exact ⟨by rw [hs, List.append_nil], ht⟩

theorem Takes.stands {c : Char} {before cs rest : List Char} {q : LexPos} {t : Token}
    (h : Takes c cs rest (LexPos.past ⟨1, 1⟩ before) q t) :
    ∃ span, span ≠ [] ∧ c :: cs = span ++ rest ∧ q = LexPos.past ⟨1, 1⟩ (before ++ span) ∧
      t.Stands (before ++ c :: cs) (before.length, (before ++ span).length) := by
  obtain ⟨span, hcs, rfl, hline, hcol, hs, hk, hm⟩ := h
  refine ⟨c :: span, List.cons_ne_nil _ _, hcs, (LexPos.past_append ..).symm, ?_⟩
  rw [LexPos.past_eq] at hline hcol
  have hsource : before ++ c :: cs = before ++ (c :: span) ++ rest := by rw [hcs, List.append_assoc]
  have hspan : (before ++ c :: cs).extract before.length (before ++ (c :: span)).length = c :: span := by
    rw [hsource, extract_middle]
  refine ⟨?_, ?_, ?_, ?_, ?_⟩
  · rwa [hspan]
  · intro next hn
    rw [hspan]
    apply hm
    rw [hsource, List.getElem?_append_right (Nat.le_refl _), Nat.sub_self, ← List.head?_eq_getElem?] at hn
    exact hn
  · intro hq
    apply hk
    rintro rfl
    apply hq
    simp
  · simpa using hline
  · simpa using hcol

theorem tokenizeLoop_stands {source : List Char} : ∀ (fuel : Nat) (before cs : List Char) (tokens toks : List Token),
    source = before ++ cs → tokenizeLoop fuel cs (LexPos.past ⟨1, 1⟩ before) tokens = .ok toks →
    ∃ new spans, toks = tokens ++ new ∧ List.Forall₂ (Token.Stands source) spans new ∧
      Spaced source before.length spans
  | 0, _, _, _, _, _, h => by cases h
  | fuel + 1, before, cs, tokens, toks, hs, h => by
    rw [tokenizeLoop] at h
    cases hskip : skipIgnorable false cs (LexPos.past ⟨1, 1⟩ before) with
    | mk rest q =>
    obtain ⟨gaps, comment, hcs, rfl, hc⟩ := skipIgnorable_skips cs.length (Nat.le_refl _) hskip
    rw [hskip] at h
    rw [hcs] at hs
    rw [← List.append_assoc] at hs
    have hgap := ignorable_of_skipped hs rfl hc
    rw [← LexPos.past_append] at h
    cases rest with
    | nil =>
      cases h
      refine ⟨[], [], by simp, .nil, ?_, ?_⟩
      · simp [hs]
      · rw [List.append_nil] at hs
        rwa [← hs] at hgap
    | cons c ds =>
      dsimp only at h
      split at h
      · cases h
      rename_i t ds' q' htok
      obtain ⟨span, hne, hspan, rfl, hstands⟩ := (lexToken_takes htok).stands
      rw [← hs] at hstands
      rw [hspan, ← List.append_assoc] at hs
      obtain ⟨new, spans, rfl, hnew, hspaced⟩ := tokenizeLoop_stands fuel _ ds' (tokens ++ [t]) toks hs h
      refine ⟨t :: new, (_, _) :: spans, by simp, .cons hstands hnew, ?_, ?_, ?_, hgap, hspaced⟩
      · simp
      · have := List.length_pos_iff.mpr hne
        simp only [List.length_append]
        omega
      · simp [hs]

/-- The tokens of a script stand on spans of its text, in order, each on its own, and all around them is blank. -/
theorem tokenize_stands {source : List Char} {toks : List Token} (h : tokenize source = .ok toks) :
    ∃ spans, List.Forall₂ (Token.Stands source) spans toks ∧ Spaced source 0 spans := by
  obtain ⟨new, spans, rfl, hs, ht⟩ := tokenizeLoop_stands _ [] source [] toks rfl h
  exact ⟨spans, hs, ht⟩

def layoutText : List Char := "PORT\r\n= \"a // b\nc\\\"\" 5ms// end".toList

theorem layoutText_stands : ∃ spans, List.Forall₂ (Token.Stands layoutText) spans
    [⟨.Keyword, "PORT", 1, 1⟩, ⟨.Operator, "=", 2, 1⟩, ⟨.Value, "a // b\nc\"", 2, 3⟩, ⟨.Value, "5ms", 3, 6⟩] ∧
    Spaced layoutText 0 spans := by
  apply tokenize_stands
  unfold layoutText
  decide +kernel

end Loadshear
