import Loadshear.Lexer
import Loadshear.Script

/-!
# The parser

`parser.cpp` and the template of `parser.h`. The token position is the state,
the token list is read only. Loops take fuel, one unit per pass; each pass
consumes a token.
-/

namespace Loadshear

/-! ## Error texts -/

/-- `[line L column C]` of a token. -/
def Token.context (t : Token) : String :=
  styledString ("[line " ++ toString t.line ++ " column " ++ toString t.col ++ "]") .Context

/-- The opening that most parser errors share. -/
def unexpectedToken (t : Token) : String :=
  "Unexpected token " ++ styledString t.text .BadValue ++ " of type "
    ++ styledString t.type.toText .Keyword ++ " at " ++ t.context

def badTypeError (t : Token) (expected : TokenType) : String :=
  unexpectedToken t ++ " (expected type " ++ styledString expected.toText .Expected ++ ")"

def badActionError (t : Token) : String :=
  "Unexpected keyword " ++ styledString t.text .BadValue ++ " at " ++ t.context
    ++ " (expected a valid action keyword" ++ " such as " ++ styledString "CREATE" .Context ++ ", "
    ++ styledString "CONNECT" .Context ++ ", " ++ styledString "..." .Context ++ " )"

def badOperatorError (t : Token) (op : String) : String :=
  unexpectedToken t ++ " (expected operator " ++ styledString op .Expected ++ ")"

def badIntegerError (t : Token) (keyword : String) : String :=
  unexpectedToken t ++ " (expected an integer value for " ++ styledString keyword .Expected ++ ")"

def negativeIntegerError (t : Token) : String :=
  unexpectedToken t ++ " (expected a positive integer)"

def oobPortError (t : Token) : String :=
  "Token " ++ styledString t.text .BadValue ++ " at " ++ t.context ++ " has "
    ++ styledString "PORT" .BadField ++ " value out of range " ++ "(must be between "
    ++ styledString "1" .Limits ++ " and " ++ styledString "65535" .Limits ++ ")"

def badTimeError (t : Token) : String :=
  unexpectedToken t ++ " (expected a valid time value, i.e " ++ styledString "1ms" .Expected ++ ", "
    ++ styledString "1s" .Expected ++ ")"

def badTimeFormat (t : Token) : String :=
  unexpectedToken t ++ " (expected a valid time format, " ++ "i.e "
    ++ styledString "seconds" .Expected ++ ", " ++ styledString "milliseconds" .Expected ++ ", "
    ++ styledString "microseconds" .Expected ++ ", " ++ styledString "nanoseconds" .Expected ++ ")"

def badBoolError (t : Token) : String :=
  unexpectedToken t ++ " (expected " ++ styledString "true" .Expected ++ " or "
    ++ styledString "false" .Expected ++ ")"

def badEndianError (t : Token) : String :=
  unexpectedToken t ++ " (expected " ++ styledString "\"little\"" .Expected ++ " or "
    ++ styledString "\"big\"" .Expected ++ " for endian field)"

def badNestingError (t : Token) : String := unexpectedToken t ++ " (unexpected nesting)"

def missingCopiesError (t : Token) : String :=
  unexpectedToken t ++ " (expected " ++ styledString "COPIES" .Expected ++ " instead)"

def unterminatedError (t : Token) : String :=
  unexpectedToken t ++ " (expected nesting terminator " ++ styledString "\x7d" .Expected ++ " instead)"

def badTopLevelError (t : Token) : String :=
  unexpectedToken t ++ " (expected " ++ styledString "SETTINGS" .Expected ++ " or "
    ++ styledString "ORCHESTRATOR" .Expected ++ ")"

/-! ## Numbers -/

def isSpace (c : Char) : Bool :=
  c == ' ' || c == '\t' || c == '\n' || c == '\x0b' || c == '\x0c' || c == '\r'

def digitsValue (ds : List Char) : Nat := ds.foldl (fun n c => 10 * n + (c.toNat - '0'.toNat)) 0

/-- `std::stoi`: blanks, a sign, then the longest run of digits; what follows
is ignored. `none` is either of its two exceptions. -/
def stoi (s : List Char) : Option Int :=
  let s := s.dropWhile isSpace
  let negative := s.head? = some '-'
  let s := if s.head? = some '-' ∨ s.head? = some '+' then s.drop 1 else s
  let digits := s.takeWhile Char.isDigit
  if digits = [] then none
  else
    let value : Int := if negative then -(digitsValue digits : Int) else digitsValue digits
    if -2 ^ 31 ≤ value ∧ value < 2 ^ 31 then some value else none

def tryConvertInt (t : Token) (keyword : String) : ParseResult UInt32 :=
  match stoi t.text.toList with
  | none => .error (badIntegerError t keyword)
  | some pos => if pos < 0 then .error (negativeIntegerError t) else .ok (UInt32.ofNat pos.toNat)

def tryParseTime (t : Token) : ParseResult UInt32 :=
  -- Both suffixes lose one character: "ms" leaves the m behind for stoi to ignore.
  let timeInt := t.text.toList.dropLast
  let convert (mul : UInt32) : ParseResult UInt32 :=
    match stoi timeInt with
    | none => .error (badTimeError t)
    | some pos =>
      if pos < 0 then .error (negativeIntegerError t) else .ok (UInt32.ofNat pos.toNat * mul)
  if endsWith t.text "ms" then convert 1
  else if endsWith t.text "s" then convert 1000
  else .error (badTimeError t)

/-! ## Token access -/

abbrev ParserM := ReaderT (List Token) (StateT Nat (Except String))

/-- What `peek` makes up at the end of the tokens. -/
def eofToken : Token := ⟨.Value, "EOF", 0, 0⟩

def endOfTokens : ParserM Bool := fun toks pos => .ok (toks.length ≤ pos, pos)

def peek : ParserM Token := fun toks pos => .ok ((toks[pos]?).getD eofToken, pos)

/-- The position only moves before the end; the token returned is the one
behind it. -/
def consume : ParserM Token := fun toks pos =>
  let pos := if pos < toks.length then pos + 1 else pos
  .ok ((toks[pos - 1]?).getD eofToken, pos)

def isExpected (expected : TokenType) : ParserM Bool := fun toks pos =>
  .ok (match toks[pos]? with
    | none => false
    | some t => t.type == expected, pos)

/-- `if (!is_expected(ty)) return bad_type_error(peek(), ty);` -/
def expectType (ty : TokenType) : ParserM Unit := do
  if ← isExpected ty then pure () else throw (badTypeError (← peek) ty)

/-- `is_expected(TokenType::Operator) && peek().text == op` -/
def isOperator (op : String) : ParserM Bool := do
  return (← isExpected .Operator) && (← peek).text == op

def expectOperator (op : String) : ParserM Unit := do
  if ← isOperator op then pure () else throw (badOperatorError (← peek) op)

def liftResult {α : Type} (r : ParseResult α) : ParserM α := fun _ pos => r.map (·, pos)

def noFuel {α : Type} : ParserM α := throw "no fuel"

/-- A loop gets one pass per token and one to stop. -/
def withFuel {α : Type} (loop : Nat → ParserM α) : ParserM α := fun toks => loop (toks.length + 1) toks

/-! ## SETTINGS -/

/-- The chain of `keyword.text` comparisons for fields without nesting. -/
def applySetting (keyword value : Token) (settings : SettingsBlock) : ParseResult SettingsBlock :=
  if keyword.text = "SESSION" then .ok { settings with sessionProtocol := value.text }
  else if keyword.text = "PORT" then do
    let temp ← tryConvertInt value "PORT"
    if temp > 65535 then .error (oobPortError value) else .ok { settings with port := temp.toUInt16 }
  else if keyword.text = "HEADERSIZE" then do
    return { settings with headerSize := ← tryConvertInt value "HEADERSIZE" }
  else if keyword.text = "BODYMAX" then do
    return { settings with bodyMax := ← tryConvertInt value "BODYMAX" }
  else if keyword.text = "READ" then
    if value.text = "true" then .ok { settings with read := true }
    else if value.text = "false" then .ok { settings with read := false }
    else .error (badBoolError value)
  else if keyword.text = "REPEAT" then
    if value.text = "true" then .ok { settings with repeat' := true }
    else if value.text = "false" then .ok { settings with repeat' := false }
    else .error (badBoolError value)
  else if keyword.text = "SAMPLERATE" then do
    return { settings with packetSampleRate := ← tryConvertInt value "SAMPLERATE" }
  else if keyword.text = "SHARDS" then do
    return { settings with shards := ← tryConvertInt value "SHARDS" }
  else if keyword.text = "HANDLER" then .ok { settings with handlerValue := value.text }
  else .error "Bad keyword detected? This is a software bug."

/-- The loop over the entries of PACKETS and its closing test. -/
def parsePackets : Nat → SettingsBlock → ParserM SettingsBlock
  | 0, _ => noFuel
  | fuel + 1, settings => do
    if ← isExpected .BraceClosed then return settings
    expectType .Identity
    let packetIdentity ← consume
    expectOperator ":"
    let _ ← consume
    expectType .Value
    let packetValue ← consume
    let settings := { settings with
      packetIdentifiers := mapAssign packetIdentity.text packetValue.text settings.packetIdentifiers }
    if ← isOperator "," then
      let _ ← consume
      parsePackets fuel settings
    else if ← isExpected .BraceClosed then return settings
    else throw (badOperatorError (← peek) ",")

def parseEndpoints : Nat → SettingsBlock → ParserM SettingsBlock
  | 0, _ => noFuel
  | fuel + 1, settings => do
    if ← isExpected .BraceClosed then return settings
    expectType .Value
    let endpointValue ← consume
    let settings := { settings with endpoints := settings.endpoints ++ [endpointValue.text] }
    if ← isOperator "," then
      let _ ← consume
      parseEndpoints fuel settings
    else if ← isExpected .BraceClosed then return settings
    else throw (badOperatorError (← peek) ",")

/-- The end of a nested block. -/
def closeNested (settings : SettingsBlock) : ParserM SettingsBlock := do
  if ← isExpected .BraceClosed then
    let _ ← consume
    return settings
  else throw (unterminatedError (← peek))

/-- One pass of the loop over the fields of a SETTINGS block. -/
def parseField (settings : SettingsBlock) : ParserM SettingsBlock := do
  expectType .Keyword
  let keyword ← consume
  if ← isExpected .BraceOpen then
    let _ ← consume
    if keyword.text = "PACKETS" then closeNested (← withFuel (parsePackets · settings))
    else if keyword.text = "ENDPOINTS" then closeNested (← withFuel (parseEndpoints · settings))
    else throw (badNestingError (← peek))
  else
    expectOperator "="
    let _ ← consume
    expectType .Value
    let value ← consume
    liftResult (applySetting keyword value settings)

def parseFields : Nat → SettingsBlock → ParserM SettingsBlock
  | 0, _ => noFuel
  | fuel + 1, settings => do
    if ← isExpected .BraceClosed then return settings
    parseFields fuel (← parseField settings)

def parseSettings (settings : SettingsBlock) : ParserM SettingsBlock := do
  let _ ← consume
  expectType .Identity
  let name ← peek
  let settings := { settings with identifier := name.text }
  let _ ← consume
  expectType .BraceOpen
  let _ ← consume
  let settings ← withFuel (parseFields · settings)
  expectType .BraceClosed
  let _ ← consume
  return settings

/-! ## ORCHESTRATOR -/

def tryParseRange (firstValue : Token) (keyword : String) : ParserM Range := do
  expectOperator ":"
  let _ ← consume
  expectType .Value
  let secondVal ← consume
  let start ← liftResult (tryConvertInt firstValue keyword)
  let second ← liftResult (tryConvertInt secondVal keyword)
  return ⟨start, second⟩

/-- `[Value] [:] [Value]` after the range of a modification. -/
def parseModArguments : ParserM (Token × Token) := do
  expectType .Value
  let firstArg ← consume
  expectOperator ":"
  let _ ← consume
  expectType .Value
  let secondArg ← consume
  return (firstArg, secondArg)

def parseEndian (t : Token) : ParseResult Bool :=
  if t.text = "little" then .ok true
  else if t.text = "big" then .ok false
  else .error (badEndianError t)

/-- `try_parse_send_option<M>`; both specialisations name "TIMESTAMP" in the
errors of their byte range. -/
def tryParseSendOption (m : ModificationType) (mods : ModList) : ParserM ModList := do
  expectType .Value
  let firstValue ← consume
  let bytes ← tryParseRange firstValue "TIMESTAMP"
  let (firstArg, secondArg) ← parseModArguments
  let littleEndian ← liftResult (parseEndian firstArg)
  match m with
  | .Timestamp =>
    if secondArg.text ∈ ["seconds", "milliseconds", "microseconds", "nanoseconds"] then
      return mods.pushTimestamp ⟨bytes, littleEndian, secondArg.text⟩
    else throw (badTimeFormat secondArg)
  | .Counter =>
    let step ← liftResult (tryConvertInt secondArg "COUNTER")
    return mods.pushCounter ⟨bytes, step, littleEndian⟩

/-- The loop over the options of a SEND, up to OFFSET, any other keyword or
any other token. -/
def parseSendOptions : Nat → ModList → ParserM ModList
  | 0, _ => noFuel
  | fuel + 1, mods => do
    let t ← peek
    if t.text ≠ "OFFSET" ∧ (← isExpected .Keyword) then
      if t.text = "COUNTER" then
        let _ ← consume
        parseSendOptions fuel (← tryParseSendOption .Counter mods)
      else if t.text = "TIMESTAMP" then
        let _ ← consume
        parseSendOptions fuel (← tryParseSendOption .Timestamp mods)
      else return mods
    else return mods

def expectCopies : ParserM Unit := do
  expectType .Keyword
  let t ← peek
  if t.text = "COPIES" then pure () else throw (missingCopiesError t)

def parseSend (firstVal tAction : Token) (action : Action) : ParserM Action := do
  let range ← tryParseRange firstVal tAction.text
  expectType .Identity
  let packetId ← consume
  expectCopies
  let _ ← consume
  expectType .Value
  let copiesValue ← consume
  let count ← liftResult (tryConvertInt copiesValue "COPIES")
  let mods ← withFuel (parseSendOptions · action.mods)
  return { action with
    type := .SEND, range := range, packetIdentifier := packetId.text, count := count, mods := mods }

/-- An action that is its range only. -/
def parseRanged (type : ActionType) (firstVal tAction : Token) (action : Action) : ParserM Action := do
  let range ← tryParseRange firstVal tAction.text
  return { action with type := type, range := range }

def parseCreate (firstVal : Token) (action : Action) : ParserM Action := do
  let count ← liftResult (tryConvertInt firstVal "CREATE")
  return { action with type := .CREATE, count := count, range := ⟨0, count⟩ }

def defaultOffsetMs : UInt32 := 250

def parseOffset : ParserM UInt32 := do
  if (← peek).text = "OFFSET" then
    let _ ← consume
    expectType .Value
    let timeout ← consume
    liftResult (tryParseTime timeout)
  else return defaultOffsetMs

/-- The chain of comparisons with the action's keyword. -/
def parseActionKind (tAction firstVal : Token) (action : Action) : ParserM Action := do
  if tAction.text = "SEND" then parseSend firstVal tAction action
  else if tAction.text = "CONNECT" then parseRanged .CONNECT firstVal tAction action
  else if tAction.text = "FLOOD" then parseRanged .FLOOD firstVal tAction action
  else if tAction.text = "DRAIN" then parseRanged .DRAIN firstVal tAction action
  else if tAction.text = "DISCONNECT" then parseRanged .DISCONNECT firstVal tAction action
  else if tAction.text = "CREATE" then parseCreate firstVal action
  else throw (badActionError (← peek))

/-- One pass of the loop over the actions of an ORCHESTRATOR block. -/
def parseAction (memory : Memory) : ParserM Action := do
  expectType .Keyword
  let tAction ← consume
  let action := (memory.action (← getThe Nat)).toAction
  expectType .Value
  let firstVal ← consume
  let action ← parseActionKind tAction firstVal action
  let offsetMs ← parseOffset
  return { action with offsetMs := offsetMs }

def parseActions (memory : Memory) : Nat → OrchestratorBlock → ParserM OrchestratorBlock
  | 0, _ => noFuel
  | fuel + 1, orchestrator => do
    if ← isExpected .BraceClosed then return orchestrator
    let action ← parseAction memory
    parseActions memory fuel { orchestrator with actions := orchestrator.actions ++ [action] }

def parseOrchestrator (memory : Memory) (orchestrator : OrchestratorBlock) :
    ParserM OrchestratorBlock := do
  let _ ← consume
  expectType .Identity
  let name ← consume
  let orchestrator := { orchestrator with settingsIdentifier := name.text }
  expectType .BraceOpen
  let _ ← consume
  let orchestrator ← withFuel (parseActions memory · orchestrator)
  expectType .BraceClosed
  let _ ← consume
  return orchestrator

/-! ## Top level -/

def parseBlocks (memory : Memory) : Nat → DSLData → ParserM DSLData
  | 0, _ => noFuel
  | fuel + 1, script => do
    if ← endOfTokens then return script
    let t ← peek
    if t.text = "SETTINGS" then
      let settings ← parseSettings script.settings
      parseBlocks memory fuel { script with settings := settings }
    else if t.text = "ORCHESTRATOR" then
      let orchestrator ← parseOrchestrator memory script.orchestrator
      parseBlocks memory fuel { script with orchestrator := orchestrator }
    else throw (badTopLevelError t)

/-- `Parser::parse` into a default-initialised `DSLData`. -/
def parse (memory : Memory) (tokens : List Token) : ParseResult DSLData :=
  (·.1) <$> withFuel (parseBlocks memory · memory.toScript) tokens 0

end Loadshear
