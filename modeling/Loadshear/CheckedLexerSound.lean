import Loadshear.CheckedLexer

/-!
# Every pass of the lexer moves on

The watched lexer shadows the plain one over the characters that are left, and
`pos_` goes over each index below it once.
-/

namespace Loadshear.CheckedLexer

open Watching

def Cursor.rest (source : List Char) (s : Cursor) : List Char := source.drop s.pos

def Cursor.next (s : Cursor) (c : Char) : Cursor := ⟨s.pos + 1, s.place.advance c, s.passed ++ [s.pos]⟩

/-- `pos_` is in the source, beyond `lo`, and has moved one index at a time. -/
structure Tracked (source : List Char) (lo : Nat) (s : Cursor) : Prop where
  least : lo ≤ s.pos
  inside : s.pos ≤ source.length
  passed : s.passed = List.range s.pos

section
variable {source cs : List Char} {lo : Nat} {s : Cursor} {c : Char}

theorem inside_of_rest (h : s.rest source = c :: cs) : s.pos < source.length := by
  by_cases hp : s.pos < source.length
  · exact hp
  · rw [Cursor.rest, List.drop_eq_nil_of_le (Nat.le_of_not_lt hp)] at h
    exact absurd h (by simp)

theorem getElem?_of_rest (h : s.rest source = c :: cs) : source[s.pos]? = some c := by
  have hd : (source.drop s.pos)[0]? = source[s.pos + 0]? := List.getElem?_drop
  rw [Cursor.rest] at h
  rw [h] at hd
  exact hd.symm

theorem rest_next (h : s.rest source = c :: cs) : (s.next c).rest source = cs := by
  have ht : (source.drop s.pos).tail = source.drop (s.pos + 1) := List.tail_drop
  rw [Cursor.rest] at h
  rw [h] at ht
  exact ht.symm

theorem length_rest (source : List Char) (s : Cursor) : (s.rest source).length = source.length - s.pos :=
  List.length_drop

theorem Tracked.next (h : Tracked source lo s) (hr : s.rest source = c :: cs) : Tracked source lo (s.next c) where
  least := Nat.le_succ_of_le h.least
  inside := inside_of_rest hr
  passed := by
    simp only [Cursor.next]
    rw [h.passed, List.range_succ]

theorem Tracked.self (h : Tracked source lo s) : Tracked source s.pos s := ⟨Nat.le_refl _, h.inside, h.passed⟩

theorem Tracked.weaken {lo' : Nat} (h : Tracked source lo s) (hlo : lo' ≤ lo) : Tracked source lo' s :=
  ⟨Nat.le_trans hlo h.least, h.inside, h.passed⟩

/-! ## Reading -/

theorem eof_cons (h : s.rest source = c :: cs) : eof source s = .ok (.ok false, s) := by
  have hr : eof source s = .ok (.ok (decide (source.length ≤ s.pos)), s) := rfl
  rw [hr, decide_eq_false (Nat.not_le_of_lt (inside_of_rest h))]

theorem eof_nil (h : s.rest source = []) : eof source s = .ok (.ok true, s) := by
  have hr : eof source s = .ok (.ok (decide (source.length ≤ s.pos)), s) := rfl
  rw [hr, decide_eq_true (List.drop_eq_nil_iff.mp h)]

/-- The index is that of a character or of the NUL behind them. -/
theorem readAt_run {i : Nat} (h : i ≤ source.length) :
    readAt i source s = .ok (.ok ((source[i]?).getD '\x00'), s) := by
  unfold readAt
  cases hi : source[i]? with
  | some c => rfl
  | none =>
    have heq : i = source.length := Nat.le_antisymm h (List.getElem?_eq_none_iff.mp hi)
    simp only [if_pos heq, Option.getD_none]

theorem peek_run (h : s.pos ≤ source.length) : peek source s = .ok (.ok ((source[s.pos]?).getD '\x00'), s) := by
  have hr : peek source s =
      (if s.pos > source.length then pure '\x00' else readAt s.pos : WatchedLexer Char) source s := rfl
  rw [hr, if_neg (Nat.not_lt_of_le h), readAt_run h]

theorem peek_cons (h : s.rest source = c :: cs) : peek source s = .ok (.ok c, s) := by
  rw [peek_run (Nat.le_of_lt (inside_of_rest h)), getElem?_of_rest h, Option.getD_some]

theorem peek_head (h : Tracked source lo s) : peek source s = .ok (.ok ((s.rest source).head?.getD '\x00'), s) := by
  have hh : (source.drop s.pos).head? = source[s.pos]? := List.head?_drop
  rw [peek_run h.inside, Cursor.rest, hh]

theorem peekNext_cons (h : s.rest source = c :: cs) : peekNext source s = .ok (.ok (cs.head?.getD '\x00'), s) := by
  have hp : s.pos + 1 ≤ source.length := inside_of_rest h
  have hr : peekNext source s =
      (if s.pos + 1 > source.length then pure '\x00' else readAt (s.pos + 1) : WatchedLexer Char) source s := rfl
  have hh : ((s.next c).rest source).head? = source[s.pos + 1]? := List.head?_drop
  rw [rest_next h] at hh
  rw [hr, if_neg (Nat.not_lt_of_le hp), readAt_run hp, hh]

theorem advance_run (source : List Char) (s : Cursor) :
    advance source s = (if s.pos ≥ source.length then pure '\x00' else do
      let c ← readAt s.pos
      set (⟨s.pos + 1, s.place.advance c, s.passed ++ [s.pos]⟩ : Cursor)
      return c : WatchedLexer Char) source s := rfl

theorem advance_cons (h : s.rest source = c :: cs) : advance source s = .ok (.ok c, s.next c) := by
  have hp := inside_of_rest h
  have hread : readAt s.pos source s = .ok (.ok c, s) := by
    rw [readAt_run (Nat.le_of_lt hp), getElem?_of_rest h, Option.getD_some]
  rw [advance_run, if_neg (Nat.not_le_of_lt hp), bind_ok hread]
  rfl

theorem advance_nil (h : s.rest source = []) : advance source s = .ok (.ok '\x00', s) := by
  rw [advance_run, if_pos (List.drop_eq_nil_iff.mp h)]
  rfl

end

section
variable {source : List Char} {lo fuel : Nat} {s : Cursor}

/-- A loop with fuel for what is left of the source, beside a plain loop that
needs none. -/
theorem shadows_loop {β γ : Type} {body : β → WatchedLexer (Pass β β)} (w : β → Cursor → Except String γ)
    {K : β → Cursor → Except String γ → Prop} (b : β) (hf : source.length < fuel) (hj : Tracked source lo s)
    (step : ∀ b {t}, Tracked source lo t →
      Shadows (Tracked source lo) (ContinuesPast Cursor.pos t.pos w K) (body b source t) (w b t)) :
    Shadows (Tracked source lo) K (loop Cursor.pos body fuel b source s) (w b s) := by
  apply Shadows.loop source.length (w := fun _ => w) (n := source.length + 1) (fun _ h => h.inside)
  · exact hj
  · omega
  · omega
  · intro _ b t ht
    exact step b ht

/-! ## What is skipped -/

def skipped (inComment : Bool) (source : List Char) (s : Cursor) : ParseResult (List Char × LexPos) :=
  .ok (Loadshear.skipIgnorable inComment (s.rest source) s.place)

def Skipped (source : List Char) (_ : Unit) (s : Cursor) (y : ParseResult (List Char × LexPos)) : Prop :=
  y = .ok (s.rest source, s.place)

theorem skipped_nil (h : s.rest source = []) (inComment : Bool) :
    skipped inComment source s = .ok (s.rest source, s.place) := by
  rw [skipped, h]
  cases inComment <;> rfl

theorem skipped_comment {c : Char} {cs : List Char} (h : s.rest source = c :: cs) (hc : c ≠ '\n') :
    skipped true source s = skipped true source (s.next c) := by
  rw [skipped, skipped, rest_next h, h]
  simp [Loadshear.skipIgnorable, hc, Cursor.next]

theorem skipped_newline {cs : List Char} (h : s.rest source = '\n' :: cs) (inComment : Bool) :
    skipped inComment source s = skipped false source (s.next '\n') := by
  rw [skipped, skipped, rest_next h, h]
  cases inComment <;> simp [Loadshear.skipIgnorable, Cursor.next]

theorem skipped_blank {c : Char} {cs : List Char} (h : s.rest source = c :: cs) (hc : c = ' ' ∨ c = '\t' ∨ c = '\r') :
    skipped false source s = skipped false source (s.next c) := by
  have hc' : c = ' ' ∨ c = '\t' ∨ c = '\r' ∨ c = '\n' := by
    rcases hc with h | h | h <;> simp [h]
  rw [skipped, skipped, rest_next h, h, Loadshear.skipIgnorable, if_pos hc']
  rfl

/-- A comment opens with two slashes, and both go. -/
theorem skipped_slashes {cs : List Char} (h : s.rest source = '/' :: '/' :: cs) :
    skipped false source s = skipped true source ((s.next '/').next '/') := by
  rw [skipped, skipped, rest_next (rest_next h), h]
  simp [Loadshear.skipIgnorable, Cursor.next]

theorem skipped_stop {c : Char} {cs : List Char} (h : s.rest source = c :: cs)
    (hblank : ¬ (c = ' ' ∨ c = '\t' ∨ c = '\r')) (hline : c ≠ '\n') (hslash : ¬ (c = '/' ∧ cs.head? = some '/')) :
    skipped false source s = .ok (s.rest source, s.place) := by
  have hc : ¬ (c = ' ' ∨ c = '\t' ∨ c = '\r' ∨ c = '\n') := by
    intro hc
    rcases hc with h | h | h | h
    · exact hblank (Or.inl h)
    · exact hblank (Or.inr (Or.inl h))
    · exact hblank (Or.inr (Or.inr h))
    · exact hline h
  rw [skipped, h, Loadshear.skipIgnorable, if_neg hc, if_neg hslash]

/-- The comment ends before its newline, which then is blank. -/
theorem commentPass_shadows (hj : Tracked source lo s) :
    Shadows (Tracked source lo)
      (ContinuesPast Cursor.pos s.pos (fun _ => skipped true source) (fun _ t y => y = skipped false source t))
      (commentPass () source s) (skipped true source s) := by
  unfold commentPass
  cases hr : s.rest source with
  | nil =>
    rw [bind_ok (eof_nil hr)]
    apply Shadows.leave hj
    exact (skipped_nil hr true).trans (skipped_nil hr false).symm
  | cons c cs =>
    rw [bind_ok (eof_cons hr), if_neg Bool.false_ne_true, bind_ok (peek_cons hr)]
    by_cases hc : c = '\n'
    · subst hc
      apply Shadows.leave hj
      exact (skipped_newline hr true).trans (skipped_newline hr false).symm
    · rw [if_neg hc, bind_ok (advance_cons hr)]
      exact .again (hj.next hr) (Nat.lt_succ_self _) (skipped_comment hr hc)

theorem opensComment_run {c : Char} {cs : List Char} (hr : s.rest source = c :: cs) :
    opensComment c source s = .ok (.ok (decide (c = '/' ∧ cs.head? = some '/')), s) := by
  unfold opensComment
  by_cases hc : c = '/'
  · have hhead : (cs.head?.getD '\x00' == '/') = decide (c = '/' ∧ cs.head? = some '/') := by
      cases cs with
      | nil => simp
      | cons d ds => simp [hc, Bool.beq_eq_decide_eq]
    rw [if_pos hc, bind_ok (peekNext_cons hr), hhead]
    rfl
  · rw [if_neg hc, decide_eq_false (fun h => hc h.1)]
    rfl

theorem ignorablePass_shadows (hf : source.length < fuel) (hj : Tracked source lo s) :
    Shadows (Tracked source lo)
      (ContinuesPast Cursor.pos s.pos (fun _ => skipped false source) (Skipped source))
      (ignorablePass fuel () source s) (skipped false source s) := by
  unfold ignorablePass
  cases hr : s.rest source with
  | nil =>
    rw [bind_ok (eof_nil hr)]
    exact .leave hj (skipped_nil hr false)
  | cons c cs =>
    rw [bind_ok (eof_cons hr), if_neg Bool.false_ne_true, bind_ok (peek_cons hr)]
    by_cases hblank : c = ' ' ∨ c = '\t' ∨ c = '\r'
    · rw [if_pos hblank, bind_ok (advance_cons hr)]
      exact .again (hj.next hr) (Nat.lt_succ_self _) (skipped_blank hr hblank)
    rw [if_neg hblank]
    by_cases hline : c = '\n'
    · subst hline
      rw [if_pos rfl, bind_ok (advance_cons hr)]
      exact .again (hj.next hr) (Nat.lt_succ_self _) (skipped_newline hr false)
    rw [if_neg hline, bind_ok (opensComment_run hr)]
    by_cases hslash : c = '/' ∧ cs.head? = some '/'
    · obtain ⟨rfl, hhead⟩ := hslash
      obtain ⟨ds, rfl⟩ : ∃ ds, cs = '/' :: ds := List.head?_eq_some_iff.mp hhead
      rw [decide_eq_true ⟨rfl, hhead⟩, if_pos rfl, bind_ok (advance_cons hr), bind_ok (advance_cons (rest_next hr)),
        skipped_slashes hr]
      have hle : lo ≤ s.pos + 1 + 1 := by
        have := hj.least
        omega
      have hjs := ((hj.next hr).next (rest_next hr)).self
      have hcomment := shadows_loop (fun _ => skipped true source) () hf hjs fun _ {_} ht => commentPass_shadows ht
      apply (hcomment.keep fun _ ht => ht.weaken hle).seq
      · intro e he
        exact absurd he (by simp [skipped])
      · intro u t ht hk
        exact .again ht (Nat.lt_of_succ_lt hk.1.least) hk.2
    · rw [decide_eq_false hslash, if_neg Bool.false_ne_true]
      exact .leave hj (skipped_stop hr hblank hline hslash)

theorem skipIgnorable_shadows (hf : source.length < fuel) (hj : Tracked source lo s) :
    Shadows (Tracked source lo) (Skipped source) (skipIgnorable fuel source s) (skipped false source s) :=
  shadows_loop (fun _ => skipped false source) () hf hj fun _ {_} ht => ignorablePass_shadows hf ht

/-! ## Values and words -/

def quoted (source : List Char) (value : List Char) (s : Cursor) : ParseResult (List Char × LexPos × List Char) :=
  .ok (lexQuoted (s.rest source) s.place value)

def worded (allowed : Char → Bool) (source : List Char) (value : List Char) (s : Cursor) :
    ParseResult (List Char × LexPos × List Char) :=
  .ok (lexWhile allowed (s.rest source) s.place value)

def Read (source : List Char) (value : List Char) (s : Cursor) (y : ParseResult (List Char × LexPos × List Char)) :
    Prop :=
  y = .ok (s.rest source, s.place, value)

section
variable {value cs : List Char} {c d : Char}

theorem quoted_nil (h : s.rest source = []) : quoted source value s = .ok (s.rest source, s.place, value) := by
  rw [quoted, h, lexQuoted]

theorem quoted_close (h : s.rest source = '"' :: cs) :
    quoted source value s = .ok (s.rest source, s.place, value) := by
  rw [quoted, h]
  cases cs <;> simp [lexQuoted]

theorem quoted_escape (h : s.rest source = '\\' :: d :: cs) (hd : d = '"' ∨ d = '$') :
    quoted source value s = quoted source (value ++ [d]) ((s.next '\\').next d) := by
  rw [quoted, quoted, rest_next (rest_next h), h]
  simp [lexQuoted, hd, Cursor.next]

theorem quoted_plain (h : s.rest source = c :: cs) (hc : c ≠ '"')
    (hescape : c = '\\' → cs.head? ≠ some '"' ∧ cs.head? ≠ some '$') :
    quoted source value s = quoted source (value ++ [c]) (s.next c) := by
  rw [quoted, quoted, rest_next h, h]
  cases cs with
  | nil => simp [lexQuoted, hc, Cursor.next]
  | cons d ds =>
    have hno : ¬ (c = '\\' ∧ (d = '"' ∨ d = '$')) := by
      rintro ⟨hb, hd⟩
      have := hescape hb
      simp only [List.head?_cons, ne_eq, Option.some.injEq] at this
      exact hd.elim this.1 this.2
    rw [lexQuoted, if_neg hc, if_neg hno]
    rfl

theorem quotedPass_shadows (hj : Tracked source lo s) (value : List Char) :
    Shadows (Tracked source lo) (ContinuesPast Cursor.pos s.pos (quoted source) (Read source))
      (quotedPass value source s) (quoted source value s) := by
  unfold quotedPass
  cases hr : s.rest source with
  | nil =>
    rw [bind_ok (eof_nil hr)]
    exact .leave hj (quoted_nil hr)
  | cons c cs =>
    rw [bind_ok (eof_cons hr), if_neg Bool.false_ne_true, bind_ok (peek_cons hr)]
    by_cases hc : c = '"'
    · subst hc
      exact .leave hj (quoted_close hr)
    rw [if_neg hc, bind_ok (advance_cons hr)]
    have hnext := hj.next hr
    by_cases hescape : c = '\\'
    · subst hescape
      have hhead := peek_head hnext
      rw [rest_next hr] at hhead
      rw [if_pos rfl, bind_ok hhead]
      cases cs with
      | nil =>
        exact .again hnext (Nat.lt_succ_self _) (quoted_plain hr hc fun _ => by simp)
      | cons d ds =>
        have hgo := advance_cons (rest_next hr)
        have hlast := hnext.next (rest_next hr)
        have hlt : s.pos < s.pos + 1 + 1 := by omega
        by_cases hquote : d = '"'
        · subst hquote
          rw [List.head?_cons, Option.getD_some, if_pos rfl, bind_ok hgo]
          exact .again hlast hlt (quoted_escape hr (Or.inl rfl))
        by_cases hdollar : d = '$'
        · subst hdollar
          rw [List.head?_cons, Option.getD_some, if_neg hquote, if_pos rfl, bind_ok hgo]
          exact .again hlast hlt (quoted_escape hr (Or.inr rfl))
        · rw [List.head?_cons, Option.getD_some, if_neg hquote, if_neg hdollar]
          exact .again hnext (Nat.lt_succ_self _) (quoted_plain hr hc fun _ => by simp [hquote, hdollar])
    · rw [if_neg hescape]
      exact .again hnext (Nat.lt_succ_self _) (quoted_plain hr hc fun h => absurd h hescape)

theorem whilePass_shadows (allowed : Char → Bool) (hj : Tracked source lo s) (value : List Char) :
    Shadows (Tracked source lo) (ContinuesPast Cursor.pos s.pos (worded allowed source) (Read source))
      (whilePass allowed value source s) (worded allowed source value s) := by
  unfold whilePass
  cases hr : s.rest source with
  | nil =>
    rw [bind_ok (eof_nil hr)]
    apply Shadows.leave hj
    rw [Read, worded, hr, lexWhile]
  | cons c cs =>
    rw [bind_ok (eof_cons hr), if_neg Bool.false_ne_true, bind_ok (peek_cons hr)]
    by_cases hc : allowed c = true
    · rw [if_pos hc, bind_ok (advance_cons hr)]
      apply Shadows.again (hj.next hr) (Nat.lt_succ_self _)
      rw [worded, worded, rest_next hr, hr, lexWhile, if_pos hc]
      rfl
    · rw [if_neg hc]
      apply Shadows.leave hj
      rw [Read, worded, hr, lexWhile, if_neg hc]

end

/-! ## Tokens -/

def Lexed (source : List Char) (t : Token) (s : Cursor) (y : ParseResult (Token × List Char × LexPos)) : Prop :=
  y = .ok (t, s.rest source, s.place)

theorem word_shadows {γ : Type} {K : Token → Cursor → ParseResult γ → Prop} (allowed : Char → Bool)
    (token : List Char → Token) {y : ParseResult γ} (hf : source.length < fuel) (hj : Tracked source lo s)
    (hk : ∀ value t, worded allowed source [] s = .ok (t.rest source, t.place, value) → K (token value) t y) :
    Shadows (Tracked source lo) K
      ((loop Cursor.pos (whilePass allowed) fuel [] >>= fun value => pure (token value)) source s) y := by
  have hloop := shadows_loop (worded allowed source) [] hf hj fun value {_} ht => whilePass_shadows allowed ht value
  apply hloop.seq
  · intro e he
    exact absurd he (by simp [worded])
  · intro value t ht hread
    exact .pure ht (hk value t hread)

/-- A brace or an operator is the character itself. -/
theorem symbol_shadows {c : Char} {cs : List Char} (token : Char → Token) (hj : Tracked source lo s)
    (hr : s.rest source = c :: cs) :
    Shadows (Tracked source lo) (Lexed source) ((advance >>= fun d => pure (token d)) source s)
      (.ok (token c, cs, s.place.advance c)) := by
  rw [bind_ok (advance_cons hr)]
  apply Shadows.pure (hj.next hr)
  rw [Lexed, rest_next hr]
  rfl

theorem lexToken_shadows {c : Char} {cs : List Char} (hf : source.length < fuel) (hj : Tracked source lo s)
    (hr : s.rest source = c :: cs) :
    Shadows (Tracked source lo) (Lexed source) (lexToken fuel source s) (Loadshear.lexToken c cs s.place) := by
  have hget : (get : WatchedLexer Cursor) source s = .ok (.ok s, s) := rfl
  have hnext := hj.next hr
  have hrest := rest_next hr
  unfold lexToken Loadshear.lexToken
  rw [bind_ok hget, bind_ok (peek_cons hr)]
  by_cases hopen : c = '{'
  · rw [if_pos hopen, if_pos hopen]
    exact symbol_shadows _ hj hr
  rw [if_neg hopen, if_neg hopen]
  by_cases hclose : c = '}'
  · rw [if_pos hclose, if_pos hclose]
    exact symbol_shadows _ hj hr
  rw [if_neg hclose, if_neg hclose]
  by_cases hoperator : c ∈ validTokenOperators
  · rw [if_pos hoperator, if_pos hoperator]
    exact symbol_shadows _ hj hr
  rw [if_neg hoperator, if_neg hoperator]
  by_cases hquote : c = '"'
  · rw [if_pos hquote, if_pos hquote, bind_ok (advance_cons hr)]
    have hloop := shadows_loop (quoted source) [] hf hnext fun value {_} ht => quotedPass_shadows ht value
    apply hloop.seq
    · intro e he
      exact absurd he (by simp [quoted])
    · intro value t ht hread
      have hplain : lexQuoted cs (s.place.advance c) [] = (t.rest source, t.place, value) := by
        rw [Read, quoted, hrest] at hread
        exact Except.ok.inj hread
      rw [hplain]
      cases htr : t.rest source with
      | nil =>
        rw [bind_ok (eof_nil htr), if_pos rfl, bind_ok (advance_nil htr)]
        exact .failed ht
      | cons d ds =>
        rw [bind_ok (eof_cons htr), if_neg Bool.false_ne_true, bind_ok (advance_cons htr)]
        apply Shadows.pure (ht.next htr)
        rw [Lexed, rest_next htr]
        rfl
  rw [if_neg hquote, if_neg hquote]
  by_cases halpha : c.isAlpha = true
  · rw [if_pos halpha, if_pos halpha]
    apply word_shadows isIdentChar _ hf hj
    intro value t hread
    rw [worded, hr] at hread
    rw [Lexed, Except.ok.inj hread]
  rw [if_neg halpha, if_neg halpha]
  by_cases hdigit : c.isDigit = true
  · rw [if_pos hdigit, if_pos hdigit]
    apply word_shadows isValueChar _ hf hj
    intro value t hread
    rw [worded, hr] at hread
    rw [Lexed, Except.ok.inj hread]
  · rw [if_neg hdigit, if_neg hdigit, bind_ok (advance_cons hr)]
    exact .failed hnext

theorem tokenizeLoop_of_error {n : Nat} {tokens : List Token} {e : String} {inner cs : List Char} {c : Char}
    {p q : LexPos} (hskip : Loadshear.skipIgnorable false inner p = (c :: cs, q))
    (he : Loadshear.lexToken c cs q = .error e) : tokenizeLoop (n + 1) inner p tokens = .error e := by
  simp [tokenizeLoop, hskip, he]

theorem tokensPass_shadows (n : Nat) (tokens : List Token) (hf : source.length < fuel) (hj : Tracked source lo s) :
    Shadows (Tracked source lo)
      (ContinuesPast Cursor.pos s.pos (fun tokens t => tokenizeLoop n (t.rest source) t.place tokens)
        (fun tokens _ y => y = .ok tokens))
      (tokensPass fuel tokens source s) (tokenizeLoop (n + 1) (s.rest source) s.place tokens) := by
  unfold tokensPass
  cases hr : s.rest source with
  | nil =>
    rw [bind_ok (eof_nil hr)]
    exact .leave hj rfl
  | cons c cs =>
    rw [bind_ok (eof_cons hr), if_neg Bool.false_ne_true, ← hr]
    have hskip := (skipIgnorable_shadows hf hj.self).keep fun _ ht => ht.weaken hj.least
    apply hskip.seq
    · intro e he
      exact absurd he (by simp [skipped])
    intro _ t ht hk
    have hplain : Loadshear.skipIgnorable false (s.rest source) s.place = (t.rest source, t.place) :=
      Except.ok.inj hk.2
    cases htr : t.rest source with
    | nil =>
      rw [htr] at hplain
      rw [bind_ok (eof_nil htr)]
      apply Shadows.leave ht
      simp [tokenizeLoop, hplain]
    | cons d ds =>
      rw [htr] at hplain
      rw [bind_ok (eof_cons htr), if_neg Bool.false_ne_true]
      have htoken := (lexToken_shadows hf ht.self htr).keep fun _ hu => hu.weaken ht.least
      apply htoken.seq
      · intro e he
        exact tokenizeLoop_of_error hplain he
      · intro token u hu hlexed
        -- a token is at least one character
        have hlen := lexToken_length hlexed.2
        have hlast := length_rest source u
        have hfirst := length_rest source t
        have hstart := hk.1.least
        have hend := hu.inside
        rw [htr, List.length_cons] at hfirst
        apply Shadows.again hu (by omega)
        simp only [tokenizeLoop, hplain]
        rw [hlexed.2]

/-- With fuel for the characters the watched lexer does not trap, and returns
what the plain one does. -/
theorem tokenize_run (hf : source.length < fuel) :
    ∃ s, tokenize fuel source = .ok (Loadshear.tokenize source, s) ∧ s.pos ≤ source.length ∧
      s.passed = List.range s.pos := by
  have hrun : Shadows (Tracked source 0) (fun tokens _ y => y = .ok tokens) (tokenize fuel source)
      (Loadshear.tokenize source) := by
    have hstart : Tracked source 0 ⟨0, ⟨1, 1⟩, []⟩ := ⟨Nat.le_refl _, Nat.zero_le _, rfl⟩
    exact Shadows.loop source.length (w := fun n tokens (t : Cursor) => tokenizeLoop n (t.rest source) t.place tokens)
      (fun _ ht => ht.inside) (fun n tokens _ ht => tokensPass_shadows n tokens hf ht) hstart hf (Nat.lt_succ_self _)
  generalize tokenize fuel source = o at hrun ⊢
  generalize Loadshear.tokenize source = y at hrun ⊢
  cases hrun with
  | @done tokens s _ hj hk =>
    subst hk
    exact ⟨s, rfl, hj.inside, hj.passed⟩
  | @failed e s hj => exact ⟨s, rfl, hj.inside, hj.passed⟩

end

end Loadshear.CheckedLexer
