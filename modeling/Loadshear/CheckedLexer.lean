import Loadshear.Lexer
import Loadshear.Watching

/-!
# The lexer under watch

`lexer.cpp` once more, by position. Beyond the terminating NUL a read traps,
and `passed` lists the indices that `pos_` has moved over.
-/

namespace Loadshear.CheckedLexer

open Watching

/-- `pos_`, `line_` and `col_`. -/
structure Cursor where
  pos : Nat
  place : LexPos
  passed : List Nat
deriving DecidableEq, Repr

abbrev WatchedLexer := Watched (List Char) Cursor String

/-- `script_source_[i]`; behind the last character stands the NUL. -/
def readAt (i : Nat) : WatchedLexer Char := fun source s =>
  match source[i]? with
  | some c => .ok (.ok c, s)
  | none => if i = source.length then .ok (.ok '\x00', s) else .error .illegal

def eof : WatchedLexer Bool := do
  return (← read).length ≤ (← get).pos

def peek : WatchedLexer Char := do
  let s ← get
  if s.pos > (← read).length then return '\x00'
  else readAt s.pos

def peekNext : WatchedLexer Char := do
  let s ← get
  if s.pos + 1 > (← read).length then return '\x00'
  else readAt (s.pos + 1)

def advance : WatchedLexer Char := do
  let s ← get
  if s.pos ≥ (← read).length then return '\x00'
  else
    let c ← readAt s.pos
    set (⟨s.pos + 1, s.place.advance c, s.passed ++ [s.pos]⟩ : Cursor)
    return c

/-! ## What is skipped -/

def commentPass (_ : Unit) : WatchedLexer (Pass Unit Unit) := do
  if ← eof then return .leave ()
  else if (← peek) = '\n' then return .leave ()
  else
    let _ ← advance
    return .again ()

/-- `c == '/' && peek_next() == '/'` -/
def opensComment (c : Char) : WatchedLexer Bool := do
  if c = '/' then return (← peekNext) == '/'
  else return false

section
variable (fuel : Nat)

def ignorablePass (_ : Unit) : WatchedLexer (Pass Unit Unit) := do
  if ← eof then return .leave ()
  let c ← peek
  if c = ' ' ∨ c = '\t' ∨ c = '\r' then
    let _ ← advance
    return .again ()
  else if c = '\n' then
    let _ ← advance
    return .again ()
  else
    if ← opensComment c then
      let _ ← advance
      let _ ← advance
      let _ ← loop Cursor.pos commentPass fuel ()
      return .again ()
    else return .leave ()

def skipIgnorable : WatchedLexer Unit := loop Cursor.pos (ignorablePass fuel) fuel ()

/-! ## Tokens -/

def quotedPass (value : List Char) : WatchedLexer (Pass (List Char) (List Char)) := do
  if ← eof then return .leave value
  else if (← peek) = '"' then return .leave value
  else
    let nextC ← advance
    if nextC = '\\' then
      let escaped ← peek
      if escaped = '"' then
        let _ ← advance
        return .again (value ++ ['"'])
      else if escaped = '$' then
        let _ ← advance
        return .again (value ++ ['$'])
      else return .again (value ++ [nextC])
    else return .again (value ++ [nextC])

def whilePass (allowed : Char → Bool) (value : List Char) : WatchedLexer (Pass (List Char) (List Char)) := do
  if ← eof then return .leave value
  let nextC ← peek
  if allowed nextC then
    let c ← advance
    return .again (value ++ [c])
  else return .leave value

/-- The body of the loop of `tokenize`, behind the blanks. -/
def lexToken : WatchedLexer Token := do
  let token := (← get).place
  let c ← peek
  if c = '{' then
    let _ ← advance
    return ⟨.BraceOpen, "\x7b", token.line, token.col⟩
  else if c = '}' then
    let _ ← advance
    return ⟨.BraceClosed, "\x7d", token.line, token.col⟩
  else if c ∈ validTokenOperators then
    let op ← advance
    return ⟨.Operator, String.ofList [op], token.line, token.col⟩
  else if c = '"' then
    let _ ← advance
    let value ← loop Cursor.pos quotedPass fuel []
    if ← eof then
      let _ ← advance
      let s ← get
      throw ("Reached EOF at " ++ s.place.context ++ " (expected '" ++ styledString "\"" .Expected ++ "')")
    else
      let _ ← advance
      return ⟨.Value, String.ofList value, token.line, token.col⟩
  else if c.isAlpha then
    let ident ← loop Cursor.pos (whilePass isIdentChar) fuel []
    let text := String.ofList ident
    return ⟨if text ∈ validKeywords then .Keyword else .Identity, text, token.line, token.col⟩
  else if c.isDigit then
    let value ← loop Cursor.pos (whilePass isValueChar) fuel []
    return ⟨.Value, String.ofList value, token.line, token.col⟩
  else
    let badC ← advance
    let s ← get
    throw ("Invalid character " ++ styledString ("'" ++ String.ofList [badC] ++ "'") .BadValue
      ++ " at " ++ s.place.context)

def tokensPass (tokens : List Token) : WatchedLexer (Pass (List Token) (List Token)) := do
  if ← eof then return .leave tokens
  skipIgnorable fuel
  if ← eof then return .leave tokens
  return .again (tokens ++ [← lexToken fuel])

/-- `Lexer::tokenize`, with the cursor it ends at. -/
def tokenize (source : List Char) : Except Trap (ParseResult (List Token) × Cursor) :=
  loop Cursor.pos (tokensPass fuel) fuel [] source ⟨0, ⟨1, 1⟩, []⟩

end

end Loadshear.CheckedLexer
