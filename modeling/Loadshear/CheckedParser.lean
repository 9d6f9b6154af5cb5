import Loadshear.Parser
import Loadshear.Watching

/-!
# The parser under watch

`parser.cpp` once more, so that the calls of `consume` and the passes of the
loops can be seen. `consume` traps at the end of the tokens, a loop when a pass
comes back where it began. `look` runs what neither consumes nor loops.
-/

namespace Loadshear.CheckedParser

open Watching

abbrev WatchedParser := Watched (List Token) Nat String

/-- `input_tokens_[i]`. -/
def tokenAt (i : Nat) : WatchedParser Token := fun toks pos =>
  match toks[i]? with
  | some t => .ok (.ok t, pos)
  | none => .error .illegal

def consume : WatchedParser Token := do
  if ← look endOfTokens then trap .illegal
  else
    modify (· + 1)
    tokenAt ((← get) - 1)

/-! ## SETTINGS -/

def packetsPass (settings : SettingsBlock) : WatchedParser (Pass SettingsBlock SettingsBlock) := do
  if ← look (isExpected .BraceClosed) then return .leave settings
  look (expectType .Identity)
  let packetIdentity ← consume
  look (expectOperator ":")
  let _ ← consume
  look (expectType .Value)
  let packetValue ← consume
  let settings := { settings with
    packetIdentifiers := mapAssign packetIdentity.text packetValue.text settings.packetIdentifiers }
  if ← look (isOperator ",") then
    let _ ← consume
    return .again settings
  else if ← look (isExpected .BraceClosed) then return .leave settings
  else throw (badOperatorError (← look peek) ",")

def endpointsPass (settings : SettingsBlock) : WatchedParser (Pass SettingsBlock SettingsBlock) := do
  if ← look (isExpected .BraceClosed) then return .leave settings
  look (expectType .Value)
  let endpointValue ← consume
  let settings := { settings with endpoints := settings.endpoints ++ [endpointValue.text] }
  if ← look (isOperator ",") then
    let _ ← consume
    return .again settings
  else if ← look (isExpected .BraceClosed) then return .leave settings
  else throw (badOperatorError (← look peek) ",")

def closeNested (settings : SettingsBlock) : WatchedParser SettingsBlock := do
  if ← look (isExpected .BraceClosed) then
    let _ ← consume
    return settings
  else throw (unterminatedError (← look peek))

section
variable (fuel : Nat)

def parseField (settings : SettingsBlock) : WatchedParser SettingsBlock := do
  look (expectType .Keyword)
  let keyword ← consume
  if ← look (isExpected .BraceOpen) then
    let _ ← consume
    if keyword.text = "PACKETS" then closeNested (← loop id packetsPass fuel settings)
    else if keyword.text = "ENDPOINTS" then closeNested (← loop id endpointsPass fuel settings)
    else throw (badNestingError (← look peek))
  else
    look (expectOperator "=")
    let _ ← consume
    look (expectType .Value)
    let value ← consume
    look (liftResult (applySetting keyword value settings))

def fieldsPass (settings : SettingsBlock) : WatchedParser (Pass SettingsBlock SettingsBlock) := do
  if ← look (isExpected .BraceClosed) then return .leave settings
  return .again (← parseField fuel settings)

def parseSettings (settings : SettingsBlock) : WatchedParser SettingsBlock := do
  let _ ← consume
  look (expectType .Identity)
  let name ← look peek
  let settings := { settings with identifier := name.text }
  let _ ← consume
  look (expectType .BraceOpen)
  let _ ← consume
  let settings ← loop id (fieldsPass fuel) fuel settings
  look (expectType .BraceClosed)
  let _ ← consume
  return settings

end

/-! ## ORCHESTRATOR -/

def tryParseRange (firstValue : Token) (keyword : String) : WatchedParser Range := do
  look (expectOperator ":")
  let _ ← consume
  look (expectType .Value)
  let secondVal ← consume
  let start ← look (liftResult (tryConvertInt firstValue keyword))
  let second ← look (liftResult (tryConvertInt secondVal keyword))
  return ⟨start, second⟩

def parseModArguments : WatchedParser (Token × Token) := do
  look (expectType .Value)
  let firstArg ← consume
  look (expectOperator ":")
  let _ ← consume
  look (expectType .Value)
  let secondArg ← consume
  return (firstArg, secondArg)

def tryParseSendOption (m : ModificationType) (mods : ModList) : WatchedParser ModList := do
  look (expectType .Value)
  let firstValue ← consume
  let bytes ← tryParseRange firstValue "TIMESTAMP"
  let (firstArg, secondArg) ← parseModArguments
  let littleEndian ← look (liftResult (parseEndian firstArg))
  match m with
  | .Timestamp =>
    if secondArg.text ∈ ["seconds", "milliseconds", "microseconds", "nanoseconds"] then
      return mods.pushTimestamp ⟨bytes, littleEndian, secondArg.text⟩
    else throw (badTimeFormat secondArg)
  | .Counter =>
    let step ← look (liftResult (tryConvertInt secondArg "COUNTER"))
    return mods.pushCounter ⟨bytes, step, littleEndian⟩

def sendOptionsPass (mods : ModList) : WatchedParser (Pass ModList ModList) := do
  let t ← look peek
  if t.text ≠ "OFFSET" ∧ (← look (isExpected .Keyword)) then
    if t.text = "COUNTER" then
      let _ ← consume
      return .again (← tryParseSendOption .Counter mods)
    else if t.text = "TIMESTAMP" then
      let _ ← consume
      return .again (← tryParseSendOption .Timestamp mods)
    else return .leave mods
  else return .leave mods

/-- An action that is its range only. -/
def parseRanged (type : ActionType) (firstVal tAction : Token) (action : Action) : WatchedParser Action := do
  let range ← tryParseRange firstVal tAction.text
  return { action with type := type, range := range }

def parseCreate (firstVal : Token) (action : Action) : WatchedParser Action := do
  let count ← look (liftResult (tryConvertInt firstVal "CREATE"))
  return { action with type := .CREATE, count := count, range := ⟨0, count⟩ }

def parseOffset : WatchedParser UInt32 := do
  if (← look peek).text = "OFFSET" then
    let _ ← consume
    look (expectType .Value)
    let timeout ← consume
    look (liftResult (tryParseTime timeout))
  else return defaultOffsetMs

section
variable (fuel : Nat)

def parseSend (firstVal tAction : Token) (action : Action) : WatchedParser Action := do
  let range ← tryParseRange firstVal tAction.text
  look (expectType .Identity)
  let packetId ← consume
  look expectCopies
  let _ ← consume
  look (expectType .Value)
  let copiesValue ← consume
  let count ← look (liftResult (tryConvertInt copiesValue "COPIES"))
  let mods ← loop id sendOptionsPass fuel action.mods
  return { action with
    type := .SEND, range := range, packetIdentifier := packetId.text, count := count, mods := mods }

def parseActionKind (tAction firstVal : Token) (action : Action) : WatchedParser Action := do
  if tAction.text = "SEND" then parseSend fuel firstVal tAction action
  else if tAction.text = "CONNECT" then parseRanged .CONNECT firstVal tAction action
  else if tAction.text = "FLOOD" then parseRanged .FLOOD firstVal tAction action
  else if tAction.text = "DRAIN" then parseRanged .DRAIN firstVal tAction action
  else if tAction.text = "DISCONNECT" then parseRanged .DISCONNECT firstVal tAction action
  else if tAction.text = "CREATE" then parseCreate firstVal action
  else throw (badActionError (← look peek))

def parseAction (memory : Memory) : WatchedParser Action := do
  look (expectType .Keyword)
  let tAction ← consume
  let action := (memory.action (← getThe Nat)).toAction
  look (expectType .Value)
  let firstVal ← consume
  let action ← parseActionKind fuel tAction firstVal action
  let offsetMs ← parseOffset
  return { action with offsetMs := offsetMs }

def actionsPass (memory : Memory) (orchestrator : OrchestratorBlock) :
    WatchedParser (Pass OrchestratorBlock OrchestratorBlock) := do
  if ← look (isExpected .BraceClosed) then return .leave orchestrator
  let action ← parseAction fuel memory
  return .again { orchestrator with actions := orchestrator.actions ++ [action] }

def parseOrchestrator (memory : Memory) (orchestrator : OrchestratorBlock) : WatchedParser OrchestratorBlock := do
  let _ ← consume
  look (expectType .Identity)
  let name ← consume
  let orchestrator := { orchestrator with settingsIdentifier := name.text }
  look (expectType .BraceOpen)
  let _ ← consume
  let orchestrator ← loop id (actionsPass fuel memory) fuel orchestrator
  look (expectType .BraceClosed)
  let _ ← consume
  return orchestrator

/-! ## Top level -/

def blocksPass (memory : Memory) (script : DSLData) : WatchedParser (Pass DSLData DSLData) := do
  if ← look endOfTokens then return .leave script
  let t ← look peek
  if t.text = "SETTINGS" then
    let settings ← parseSettings fuel script.settings
    return .again { script with settings := settings }
  else if t.text = "ORCHESTRATOR" then
    let orchestrator ← parseOrchestrator fuel memory script.orchestrator
    return .again { script with orchestrator := orchestrator }
  else throw (badTopLevelError t)

/-- `Parser::parse`, with the position it ends at. -/
def parse (memory : Memory) (tokens : List Token) : Except Trap (ParseResult DSLData × Nat) :=
  loop id (blocksPass fuel memory) fuel memory.toScript tokens 0

end

end Loadshear.CheckedParser
