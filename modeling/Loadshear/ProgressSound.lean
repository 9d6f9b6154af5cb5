import Loadshear.CheckedLexerSound
import Loadshear.CheckedParserSound

/-!
# The front end always comes to an end

Both watched runs at once, over any text and any tokens, and the parser over
what the lexer made of a text.
-/

namespace Loadshear

/-- Neither run traps: no loop stalls or runs out, no read is outside, and no
token is consumed at the end. The lexer has gone over each index once. -/
theorem tokenize_parse_progress (memory : Memory) (source : List Char) (toks : List Token) {fuel : Nat}
    (hs : source.length < fuel) (ht : toks.length < fuel) :
    (∃ s, CheckedLexer.tokenize fuel source = .ok (tokenize source, s) ∧ s.pos ≤ source.length ∧
        s.passed = List.range s.pos) ∧
      ∃ pos, CheckedParser.parse fuel memory toks = .ok (parse memory toks, pos) ∧ pos ≤ toks.length := by
  constructor
  · exact CheckedLexer.tokenize_run hs
  · exact CheckedParser.parse_run memory ht

/-- A quote that stays open, and a block without its name. -/
theorem tokenize_parse_progress_truncated :
    (∃ s, CheckedLexer.tokenize 5 ['"', 'a', '\\'] = .ok (tokenize ['"', 'a', '\\'], s) ∧ s.pos ≤ 3 ∧
        s.passed = List.range s.pos) ∧
      ∃ pos, CheckedParser.parse 5 Memory.zero [⟨.Keyword, "SETTINGS", 1, 1⟩] =
        .ok (parse Memory.zero [⟨.Keyword, "SETTINGS", 1, 1⟩], pos) ∧ pos ≤ 1 :=
  tokenize_parse_progress Memory.zero ['"', 'a', '\\'] [⟨.Keyword, "SETTINGS", 1, 1⟩] (by decide) (by decide)

/-! ## From text to script -/

theorem tokenizeLoop_length : ∀ (n : Nat) {cs : List Char} {p : LexPos} {tokens toks : List Token},
    tokenizeLoop n cs p tokens = .ok toks → toks.length ≤ tokens.length + cs.length
  | 0, _, _, _, _, h => by simp [tokenizeLoop] at h
  | n + 1, cs, p, tokens, toks, h => by
    have hskip := skipIgnorable_length false cs p
    simp only [tokenizeLoop] at h
    split at h
    · rw [← Except.ok.inj h]
      exact Nat.le_add_right _ _
    · rename_i c rest q heq
      rw [heq, List.length_cons] at hskip
      split at h
      · cases h
      · rename_i t rest' q' htoken
        have hrest := lexToken_length htoken
        have ih := tokenizeLoop_length n h
        rw [List.length_append, List.length_singleton] at ih
        omega

/-- A token takes a character at least. -/
theorem tokenize_length {source : List Char} {toks : List Token} (h : tokenize source = .ok toks) :
    toks.length ≤ source.length := by
  have hloop := tokenizeLoop_length (source.length + 1) h
  simpa using hloop

/-- The watched front end: the tokens of a text, parsed. -/
def watchedScript (fuel : Nat) (memory : Memory) (source : List Char) : Except Watching.Trap (ParseResult DSLData) := do
  let (tokens, _) ← CheckedLexer.tokenize fuel source
  match tokens with
  | .error reason => return .error reason
  | .ok toks =>
    let (script, _) ← CheckedParser.parse fuel memory toks
    return script

/-- Fuel for the characters of the text is enough for both. -/
theorem watchedScript_run (memory : Memory) {source : List Char} {fuel : Nat} (hf : source.length < fuel) :
    watchedScript fuel memory source = .ok (tokenize source >>= parse memory) := by
  obtain ⟨s, hlex, _⟩ := CheckedLexer.tokenize_run hf
  unfold watchedScript
  rw [hlex]
  cases htokens : tokenize source with
  | error reason => rfl
  | ok toks =>
    obtain ⟨pos, hparse, _⟩ := CheckedParser.parse_run memory (Nat.lt_of_le_of_lt (tokenize_length htokens) hf)
    change (CheckedParser.parse fuel memory toks >>= fun p => pure p.1) = _
    rw [hparse]
    rfl

end Loadshear
