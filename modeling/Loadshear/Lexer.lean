import Loadshear.Diagnostics

/-!
# The lexer

`lexer.cpp` over the characters still to read. A character is one byte of the
script, and `std::isalpha` and its kin are the ones of the "C" locale. Each
inner loop of `tokenize` is a function of its own; the outer loop takes fuel,
and `tokenizeLoop_fuel` shows that one unit per character is enough.
-/

namespace Loadshear

inductive TokenType where
  | Keyword
  | Identity
  | Operator
  | Value
  | BraceOpen
  | BraceClosed
deriving DecidableEq, Repr

/-- `ttype_to_string`. -/
def TokenType.toText : TokenType → String
  | .Keyword => "Keyword"
  | .Identity => "Identity"
  | .Operator => "Operator"
  | .Value => "Value"
  | .BraceOpen => "BraceOpen"
  | .BraceClosed => "BraceClosed"

structure Token where
  type : TokenType
  text : String
  line : Nat
  col : Nat
deriving DecidableEq, Repr

def validTokenOperators : List Char := ['=', ',', ':']

def validKeywords : List String :=
  ["SETTINGS", "SESSION", "PORT", "HEADERSIZE", "BODYMAX", "READ", "REPEAT", "SAMPLERATE",
   "ENDPOINTS", "SHARDS", "PACKETS", "HANDLER", "ORCHESTRATOR", "CREATE", "CONNECT", "SEND",
   "FLOOD", "DRAIN", "DISCONNECT", "OFFSET", "COPIES", "TIMESTAMP", "COUNTER"]

/-- `line_` and `col_`. -/
structure LexPos where
  line : Nat
  col : Nat
deriving DecidableEq, Repr

/-- What `advance` does to the position when it goes over `c`. -/
def LexPos.advance (p : LexPos) (c : Char) : LexPos :=
  if c = '\n' then ⟨p.line + 1, 1⟩ else ⟨p.line, p.col + 1⟩

def LexPos.context (p : LexPos) : String :=
  styledString ("[line " ++ toString p.line ++ " column " ++ toString p.col ++ "]") .Context

/-- `skip_ignorable`; the flag is set inside a comment, where everything up to
the newline goes, the second slash included. -/
def skipIgnorable : Bool → List Char → LexPos → List Char × LexPos
  | _, [], p => ([], p)
  | true, c :: cs, p => skipIgnorable (c ≠ '\n') cs (p.advance c)
  | false, c :: cs, p =>
    if c = ' ' ∨ c = '\t' ∨ c = '\r' ∨ c = '\n' then skipIgnorable false cs (p.advance c)
    else if c = '/' ∧ cs.head? = some '/' then skipIgnorable true cs (p.advance c)
    else (c :: cs, p)

/-- The loop over a quoted value, up to the closing quote or the end. -/
def lexQuoted : List Char → LexPos → List Char → List Char × LexPos × List Char
  | [], p, value => ([], p, value)
  | [c], p, value =>
    if c = '"' then ([c], p, value) else ([], p.advance c, value ++ [c])
  | c :: d :: cs, p, value =>
    if c = '"' then (c :: d :: cs, p, value)
    -- Escaped quotes and the escaped $ symbol.
    else if c = '\\' ∧ (d = '"' ∨ d = '$') then
      lexQuoted cs ((p.advance c).advance d) (value ++ [d])
    else lexQuoted (d :: cs) (p.advance c) (value ++ [c])

/-- The loop over the characters of a word or of a number. -/
def lexWhile (allowed : Char → Bool) : List Char → LexPos → List Char → List Char × LexPos × List Char
  | [], p, value => ([], p, value)
  | c :: cs, p, value =>
    if allowed c then lexWhile allowed cs (p.advance c) (value ++ [c]) else (c :: cs, p, value)

def isIdentChar (c : Char) : Bool := c.isAlphanum || c == '_'

def isValueChar (c : Char) : Bool := c.isAlphanum || c == '.'

/-- What one pass of the outer loop pushes when it starts at `c`, with the
characters and the position it leaves. -/
def lexToken (c : Char) (cs : List Char) (p : LexPos) :
    ParseResult (Token × List Char × LexPos) :=
  if c = '{' then .ok (⟨.BraceOpen, "\x7b", p.line, p.col⟩, cs, p.advance c)
  else if c = '}' then .ok (⟨.BraceClosed, "\x7d", p.line, p.col⟩, cs, p.advance c)
  else if c ∈ validTokenOperators then
    .ok (⟨.Operator, String.ofList [c], p.line, p.col⟩, cs, p.advance c)
  else if c = '"' then
    match lexQuoted cs (p.advance c) [] with
    | ([], q, _) =>
      .error ("Reached EOF at " ++ q.context ++ " (expected '" ++ styledString "\"" .Expected ++ "')")
    | (d :: rest, q, value) =>
      -- The other quote needs to be consumed as well.
      .ok (⟨.Value, String.ofList value, p.line, p.col⟩, rest, q.advance d)
  else if c.isAlpha then
    let (rest, q, ident) := lexWhile isIdentChar (c :: cs) p []
    let text := String.ofList ident
    .ok (⟨if text ∈ validKeywords then .Keyword else .Identity, text, p.line, p.col⟩, rest, q)
  else if c.isDigit then
    let (rest, q, value) := lexWhile isValueChar (c :: cs) p []
    .ok (⟨.Value, String.ofList value, p.line, p.col⟩, rest, q)
  else
    .error ("Invalid character " ++ styledString ("'" ++ String.ofList [c] ++ "'") .BadValue
      ++ " at " ++ (p.advance c).context)

def tokenizeLoop : Nat → List Char → LexPos → List Token → ParseResult (List Token)
  | 0, _, _, _ => .error "no fuel"
  | fuel + 1, cs, p, tokens =>
    match skipIgnorable false cs p with
    | ([], _) => .ok tokens
    | (c :: rest, q) =>
      match lexToken c rest q with
      | .error reason => .error reason
      | .ok (t, rest', q') => tokenizeLoop fuel rest' q' (tokens ++ [t])

def tokenize (source : List Char) : ParseResult (List Token) :=
  tokenizeLoop (source.length + 1) source ⟨1, 1⟩ []

/-! ## Fuel -/

theorem skipIgnorable_length : ∀ (b : Bool) (cs : List Char) (p : LexPos),
    (skipIgnorable b cs p).1.length ≤ cs.length
  | _, [], _ => by simp [skipIgnorable]
  | true, c :: cs, p => by
    have := skipIgnorable_length (c ≠ '\n') cs (p.advance c)
    simp only [skipIgnorable, List.length_cons]; omega
  | false, c :: cs, p => by
    have h₁ := skipIgnorable_length false cs (p.advance c)
    have h₂ := skipIgnorable_length true cs (p.advance c)
    simp only [skipIgnorable]
    split
    · simp only [List.length_cons]; omega
    · split
      · simp only [List.length_cons]; omega
      · exact Nat.le_refl _

theorem lexQuoted_length : ∀ (cs : List Char) (p : LexPos) (v : List Char),
    (lexQuoted cs p v).1.length ≤ cs.length
  | [], _, _ => by simp [lexQuoted]
  | [c], p, v => by simp only [lexQuoted]; split <;> simp
  | c :: d :: cs, p, v => by
    have h₁ := lexQuoted_length cs ((p.advance c).advance d) (v ++ [d])
    have h₂ := lexQuoted_length (d :: cs) (p.advance c) (v ++ [c])
    simp only [lexQuoted, List.length_cons] at h₂ ⊢
    split
    · simp
    · split <;> omega

theorem lexWhile_length (allowed : Char → Bool) : ∀ (cs : List Char) (p : LexPos) (v : List Char),
    (lexWhile allowed cs p v).1.length ≤ cs.length
  | [], _, _ => by simp [lexWhile]
  | c :: cs, p, v => by
    have := lexWhile_length allowed cs (p.advance c) (v ++ [c])
    simp only [lexWhile]; split
    · simp only [List.length_cons]; omega
    · exact Nat.le_refl _

theorem lexWhile_cons {allowed : Char → Bool} {c : Char} (h : allowed c = true) (cs : List Char)
    (p : LexPos) : (lexWhile allowed (c :: cs) p []).1.length ≤ cs.length := by
  simp only [lexWhile, h, ite_true]
  exact lexWhile_length allowed cs _ _

theorem lexToken_length {c : Char} {cs : List Char} {p : LexPos} {t : Token} {rest : List Char}
    {q : LexPos} (h : lexToken c cs p = .ok (t, rest, q)) : rest.length ≤ cs.length := by
  unfold lexToken at h
  split at h
  · simp only [Except.ok.injEq, Prod.mk.injEq] at h; exact Nat.le_of_eq (by rw [h.2.1])
  split at h
  · simp only [Except.ok.injEq, Prod.mk.injEq] at h; exact Nat.le_of_eq (by rw [h.2.1])
  split at h
  · simp only [Except.ok.injEq, Prod.mk.injEq] at h; exact Nat.le_of_eq (by rw [h.2.1])
  split at h
  · have hq := lexQuoted_length cs (p.advance c) []
    split at h
    · cases h
    · rename_i d rest' q' value heq
      simp only [Except.ok.injEq, Prod.mk.injEq] at h
      rw [heq] at hq
      simp only [List.length_cons] at hq
      rw [← h.2.1]; omega
  split at h
  · rename_i ha
    simp only [Except.ok.injEq, Prod.mk.injEq] at h
    rw [← h.2.1]
    exact lexWhile_cons (by simp [isIdentChar, Char.isAlphanum, ha]) cs p
  split at h
  · rename_i hd
    simp only [Except.ok.injEq, Prod.mk.injEq] at h
    rw [← h.2.1]
    exact lexWhile_cons (by simp [isValueChar, Char.isAlphanum, hd]) cs p
  · cases h

/-- More fuel than characters changes nothing. -/
theorem tokenizeLoop_fuel : ∀ (n m : Nat) (cs : List Char) (p : LexPos) (ts : List Token),
    cs.length < n → cs.length < m → tokenizeLoop n cs p ts = tokenizeLoop m cs p ts
  | 0, _, _, _, _, hn, _ => absurd hn (Nat.not_lt_zero _)
  | _, 0, _, _, _, _, hm => absurd hm (Nat.not_lt_zero _)
  | n + 1, m + 1, cs, p, ts, hn, hm => by
    have hl := skipIgnorable_length false cs p
    simp only [tokenizeLoop]
    split
    · rfl
    · rename_i c rest q heq
      rw [heq] at hl
      simp only [List.length_cons] at hl
      split
      · rfl
      · rename_i t rest' q' htok
        have := lexToken_length htok
        exact tokenizeLoop_fuel n m rest' q' (ts ++ [t]) (by omega) (by omega)

example : (tokenize "a = \"x\\\"y\" // z\n5ms".toList).map (·.map (·.text)) = .ok ["a", "=", "x\"y", "5ms"] :=
  rfl

end Loadshear
