import Loadshear.Parser
import Loadshear.Resolver

/-!
# The interpreter

`set_script_defaults`, `verify_script` and `parse_script` of `interpreter.cpp`.
The four session sweeps of the validator are one loop with parameters
(`sweep`); `std::map` is an association list in increasing key order.
-/

namespace Loadshear

def validProtocols : List String := ["TCP", "UDP"]

def validMessageHandlers : List String := ["NOP"]

def validTimeFormats : List String := ["seconds", "milliseconds", "microseconds", "nanoseconds"]

def defaultPacketSampleRate : UInt32 := 100

/-- `int hw_conc`: a count from 2^31 on is negative there. -/
def Env.hwConc (env : Env) : UInt32 :=
  if env.hardwareConcurrency = 0 ∨ 2 ^ 31 ≤ env.hardwareConcurrency then 1 else env.hardwareConcurrency

def setScriptDefaults (env : Env) (script : DSLData) : DSLData :=
  let settings := script.settings
  let settings := if settings.shards = 0 then { settings with shards := env.hwConc } else settings
  let settings :=
    if settings.handlerValue = "" then { settings with handlerValue := "NOP" } else settings
  let settings :=
    if settings.packetSampleRate = 0 then { settings with packetSampleRate := defaultPacketSampleRate }
    else settings
  { script with settings := settings }

/-! ## Settings checks -/

def verifyIdentifier (settings : SettingsBlock) : ParseResult Unit :=
  if settings.identifier = "" then
    .error (styledString "SETTINGS" .BadField ++ " block had empty identifier")
  else .ok ()

def verifyProtocol (settings : SettingsBlock) : ParseResult Unit :=
  if settings.sessionProtocol ∉ validProtocols then
    .error (styledString "SETTINGS" .Keyword ++ " block had invalid " ++ styledString "SESSION" .BadField
      ++ " " ++ styledString settings.sessionProtocol .BadValue ++ " (expected one of "
      ++ styledString "TCP" .Expected ++ ")")
  else .ok ()

def verifyPort (settings : SettingsBlock) : ParseResult Unit :=
  if (settings.sessionProtocol = "TCP" ∨ settings.sessionProtocol = "UDP") ∧ settings.port = 0 then
    .error (styledString "SETTINGS" .Keyword ++ " block had invalid " ++ styledString "PORT" .BadField
      ++ " " ++ styledString (toString settings.port) .BadValue ++ " (value must be between "
      ++ styledString "1" .Limits ++ " and " ++ styledString "65535" .Limits ++ ")")
  else .ok ()

/-- A header size of zero is fine only when reading is off. -/
def verifyHeaderSize (settings : SettingsBlock) : ParseResult Unit :=
  if settings.headerSize = 0 ∧ settings.read then
    .error (styledString "SETTINGS" .Keyword ++ " block had " ++ styledString "HEADERSIZE" .BadField
      ++ " " ++ styledString "0" .BadValue ++ " with reading enabled")
  else .ok ()

def verifyBodyMax (settings : SettingsBlock) : ParseResult Unit :=
  if settings.bodyMax = 0 ∧ settings.read then
    .error (styledString "SETTINGS" .Keyword ++ " block had " ++ styledString "BODYMAX" .BadField
      ++ " set to " ++ styledString "0" .BadValue ++ " with reading enabled")
  else .ok ()

def verifyShards (settings : SettingsBlock) : ParseResult Unit :=
  if settings.shards = 0 then
    .error (styledString "SETTINGS" .Keyword ++ " block has " ++ styledString "SHARD" .BadField
      ++ " set to " ++ styledString "0" .BadValue)
  else .ok ()

def verifyEndpoints (settings : SettingsBlock) : ParseResult Unit :=
  if settings.endpoints = [] then
    .error (styledString "SETTINGS" .BadField ++ " block has no endpoints")
  else .ok ()

/-- No packets are needed as long as nothing is sent. -/
def verifyPacketsDefined (script : DSLData) : ParseResult Unit :=
  if script.settings.packetIdentifiers = [] ∧ script.orchestrator.actions.any (·.type = .SEND) then
    .error (styledString "SETTINGS" .BadField ++ " block has no packets defined")
  else .ok ()

def verifyPacketFiles (env : Env) : List (String × String) → ParseResult Unit
  | [] => .ok ()
  | packetId :: rest =>
    match resolveFile env packetId.2 with
    | .error message =>
      .error ("The " ++ styledString "SETTINGS" .Keyword ++ " " ++ styledString "PACKETS" .BadField
        ++ " block has unresolvable packet " ++ styledString packetId.1 .BadValue
        ++ " with identifier " ++ styledString packetId.2 .Reference ++ " (got error: "
        ++ styledString message .Error ++ ")")
    | .ok _ => verifyPacketFiles env rest

def verifyHandler (env : Env) (settings : SettingsBlock) : ParseResult Unit :=
  if settings.read ∧ settings.handlerValue ∉ validMessageHandlers then
    if endsWith settings.handlerValue ".wasm" then
      match resolveFile env settings.handlerValue with
      | .error message =>
        .error (styledString "SETTINGS" .Keyword ++ " block has message " ++ styledString "HANDLER" .BadField
          ++ " (" ++ styledString settings.handlerValue .BadValue ++ ") that cannot be resolved "
          ++ "(got error: " ++ styledString message .Error ++ ")")
      | .ok _ => .ok ()
    else
      .error (styledString "SETTINGS" .Keyword ++ " block has no valid message "
        ++ styledString "HANDLER" .BadField ++ " for " ++ styledString "READ" .Keyword
        ++ " to use for reading (expected " ++ styledString "\"NOP\"" .Expected
        ++ " or a file path ending in " ++ styledString ".wasm" .Expected ++ ")")
  else .ok ()

def verifyOrchestratorName (script : DSLData) : ParseResult Unit :=
  if script.orchestrator.settingsIdentifier = "" then
    .error (styledString "ORCHESTRATOR" .BadField ++ " is undefined or has no "
      ++ styledString "SETTINGS" .Keyword ++ " identifier. Expected: "
      ++ styledString "ORCHESRTATOR <settings_id> \x7b ... \x7d" .Expected)
  else if script.orchestrator.settingsIdentifier ≠ script.settings.identifier then
    .error ("No matching " ++ styledString "SETTINGS" .Keyword ++ " block for "
      ++ styledString "ORCHESTRATOR" .BadField ++ " requesting identifier "
      ++ styledString script.orchestrator.settingsIdentifier .Reference)
  else .ok ()

def verifyHasActions (script : DSLData) : ParseResult Unit :=
  if script.orchestrator.actions.length = 0 then
    .error (styledString "ORCHESTRATOR" .BadField ++ " has no actions defined")
  else .ok ()

/-! ## Modification ranges -/

/-- `std::map<uint32_t, uint32_t>` -/
abbrev ModRanges := List (UInt32 × UInt32)

def lowerBound (map : ModRanges) (key : UInt32) : Option (UInt32 × UInt32) :=
  (map.dropWhile (·.1 < key)).head?

/-- `std::prev(lower_bound(key))`, when there is one. -/
def beforeLowerBound (map : ModRanges) (key : UInt32) : Option (UInt32 × UInt32) :=
  (map.takeWhile (·.1 < key)).getLast?

/-- `map[key] = value` -/
def modRangesAssign (map : ModRanges) (key value : UInt32) : ModRanges :=
  map.takeWhile (·.1 < key) ++ (key, value) :: (map.dropWhile (·.1 < key)).filter (·.1 ≠ key)

/-- `KEYWORD [action i]` -/
def actionRef (name : String) (style : PrintStyle) (i : Nat) : String :=
  styledString name style ++ " " ++ styledString ("[action " ++ toString i ++ "]") .Reference

def badRangeError (overlapped violatingRange : Range) (actionId : Nat) : String :=
  actionRef "SEND" .BadField actionId ++ " has modification of range \x7b"
    ++ styledString (toString violatingRange.start ++ " " ++ toString violatingRange.second) .BadValue
    ++ "\x7d overlapping previous modification of range \x7b"
    ++ styledString (toString overlapped.start ++ " " ++ toString overlapped.second) .Limits ++ "\x7d"

def insertModRange (map : ModRanges) (toInsert : Range) (actionId : Nat) : ParseResult ModRanges := do
  -- Both neighbours are compared with a length where their end would be due.
  if let some it := lowerBound map toInsert.start then
    if it.1 ≤ toInsert.second then throw (badRangeError ⟨it.1, it.2⟩ toInsert actionId)
  if let some prev := beforeLowerBound map toInsert.start then
    if toInsert.start ≤ prev.2 then throw (badRangeError ⟨prev.1, prev.2⟩ toInsert actionId)
  return modRangesAssign map toInsert.start toInsert.second

/-- The two length checks that timestamps and counters share. -/
def verifyModBytes (name : String) (action : Action) (packetSize : UInt64) (i : Nat) (bytes : Range) :
    ParseResult Unit :=
  if 8 < bytes.second then
    .error (actionRef "SEND" .Keyword i ++ " has " ++ styledString name .BadField ++ " of size "
      ++ styledString (toString bytes.second) .BadValue ++ " (should be at most "
      ++ styledString "8" .Limits ++ ")")
  else if packetSize.toNat ≤ bytes.endFromLength.toNat then
    .error (actionRef "SEND" .Keyword i ++ " has " ++ styledString name .BadField ++ " ending at index "
      ++ styledString (toString bytes.endFromLength) .BadValue ++ " exceeding end of packet "
      ++ styledString action.packetIdentifier .Reference ++ " which has maximum index "
      ++ styledString (toString (packetSize - 1)) .Limits)
  else .ok ()

def verifyTimestampMods (action : Action) (packetSize : UInt64) (i : Nat) :
    ModRanges → List TimestampModification → ParseResult ModRanges
  | map, [] => .ok map
  | map, m :: ms => do
    let map ← insertModRange map m.timestampBytes i
    if m.formatName ∉ validTimeFormats then
      throw (actionRef "SEND" .Keyword i ++ " has invalid " ++ styledString "TIMESTAMP" .BadField
        ++ " format " ++ styledString m.formatName .BadValue ++ " (expected one of: "
        ++ styledString "seconds" .Expected ++ ", " ++ styledString "milliseconds" .Expected ++ ", "
        ++ styledString "microseconds" .Expected ++ ", " ++ styledString "nanoseconds" .Expected ++ ")")
    verifyModBytes "TIMESTAMP" action packetSize i m.timestampBytes
    verifyTimestampMods action packetSize i map ms

def verifyCounterMods (action : Action) (packetSize : UInt64) (i : Nat) :
    ModRanges → List CounterModification → ParseResult ModRanges
  | map, [] => .ok map
  | map, m :: ms => do
    let map ← insertModRange map m.counterBytes i
    if m.counterStep = 0 then
      throw (actionRef "SEND" .Keyword i ++ " has " ++ styledString "COUNTER" .BadField ++ " step set to "
        ++ styledString "0" .BadValue)
    verifyModBytes "COUNTER" action packetSize i m.counterBytes
    verifyCounterMods action packetSize i map ms

/-! ## Actions -/

structure ValidatorState where
  poolSize : UInt32
  sessionActive : List UInt8
  sessionDisconnectCalled : List UInt8
deriving DecidableEq

def ValidatorState.start : ValidatorState := ⟨0, [], []⟩

/-- `v.resize(n)` -/
def resize (v : List UInt8) (n : Nat) : List UInt8 := v.take n ++ List.replicate (n - v.length) 0

/-- `for (size_t j = range.start; j < range.second; j++)` -/
def Range.indices (r : Range) : List Nat :=
  List.range' r.start.toNat (r.second.toNat - r.start.toNat)

/-- Stop at the first session that `bad` rejects, else store `value` for
every session on the way. -/
def sweep (bad : UInt8 → Bool) (value : Option UInt8) (reason : Nat → String) :
    List Nat → List UInt8 → ParseResult (List UInt8)
  | [], v => .ok v
  | j :: js, v =>
    if bad (v.getD j 0) then .error (reason j)
    else sweep bad value reason js (match value with
      | some x => v.set j x
      | none => v)

def scheduledFor (name : String) (i : Nat) (session : String) : String :=
  actionRef name .BadField i ++ " was scheduled for session " ++ styledString session .BadValue

/-- `action.range.second > pool_size`; the words around the limit differ. -/
def verifyInPool (name middle last : String) (i : Nat) (range : Range) (poolSize : UInt32) :
    ParseResult Unit :=
  if poolSize < range.second then
    .error (scheduledFor name i (toString range.second) ++ middle ++ " (pool only holds "
      ++ styledString (toString poolSize) .Limits ++ last)
  else .ok ()

def notConnected (name : String) (i j : Nat) : String :=
  scheduledFor name i (toString j) ++ " despite not being connected."

def verifyCreate (settings : SettingsBlock) (i : Nat) (action : Action) (st : ValidatorState) :
    ParseResult ValidatorState :=
  if st.poolSize ≠ 0 then
    .error (actionRef "CREATE" .BadField i ++ " was called twice in "
      ++ styledString "ORCHESTRATOR" .Keyword ++ " block")
  else if action.count < settings.shards then
    .error (actionRef "CREATE" .BadField i ++ " has count "
      ++ styledString (toString action.count) .BadValue ++ " less than "
      ++ styledString "SHARD" .Keyword ++ " value " ++ styledString (toString settings.shards) .Limits)
  else .ok
    { poolSize := action.count
      sessionActive := resize st.sessionActive action.count.toNat
      sessionDisconnectCalled := resize st.sessionDisconnectCalled action.count.toNat }

def verifyConnect (i : Nat) (action : Action) (st : ValidatorState) : ParseResult ValidatorState := do
  if st.poolSize = 0 then
    throw (actionRef "CONNECT" .BadField i ++ " called before " ++ styledString "CREATE" .Keyword)
  verifyInPool "CONNECT" "" " sessions)" i action.range st.poolSize
  let active ← sweep (· == 1) (some 1)
    (fun j => scheduledFor "CONNECT" i (toString j) ++ " while already scheduled")
    action.range.indices st.sessionActive
  return { st with sessionActive := active }

/-- The file behind a packet identifier, and its size. -/
def verifyPacket (env : Env) (settings : SettingsBlock) (i : Nat) (action : Action) :
    ParseResult UInt64 :=
  -- The source looks the identifier up a second time; the second test cannot fail.
  match settings.packetIdentifiers.lookup action.packetIdentifier with
  | none =>
    .error (actionRef "SEND" .BadField i ++ " has undefined packet identifier ("
      ++ styledString action.packetIdentifier .BadValue ++ ")")
  | some file =>
    if action.mods.modOrder.length ≠ action.mods.timestampMods.length + action.mods.counterMods.length then
      .error (actionRef "SEND" .BadField i ++ " has "
        ++ styledString (toString (action.mods.timestampMods.length + action.mods.counterMods.length)) .BadValue
        ++ " modifications but only " ++ styledString (toString action.mods.modOrder.length) .Limits
        ++ " were accounted for")
    else match resolveFile env file with
    | .error message =>
      .error (actionRef "SEND" .BadField i ++ " has unresolvable packet file "
        ++ styledString file .BadValue ++ " corresponding to identity "
        ++ styledString action.packetIdentifier .Context ++ " (got error: "
        ++ styledString message .Error ++ ")")
    | .ok path =>
      if env.fileSize path = 0 then
        .error (actionRef "SEND" .BadField i ++ " has packet resolving to path "
          ++ styledString path .Context ++ " with " ++ styledString "0" .BadValue ++ " bytes of data")
      else .ok (env.fileSize path)

def verifySend (env : Env) (settings : SettingsBlock) (i : Nat) (action : Action)
    (st : ValidatorState) : ParseResult ValidatorState := do
  if action.count = 0 then
    throw (actionRef "SEND" .BadField i ++ " is trying to send "
      ++ styledString (toString action.count) .BadValue ++ " copies")
  verifyInPool "SEND" "" ")" i action.range st.poolSize
  let packetSize ← verifyPacket env settings i action
  let modRanges ← verifyTimestampMods action packetSize i [] action.mods.timestampMods
  let _ ← verifyCounterMods action packetSize i modRanges action.mods.counterMods
  let _ ← sweep (· != 1) none (notConnected "SEND" i) action.range.indices st.sessionActive
  return st

def verifyFlood (i : Nat) (action : Action) (st : ValidatorState) : ParseResult ValidatorState := do
  verifyInPool "FLOOD" "" ")" i action.range st.poolSize
  let _ ← sweep (· != 1) none (notConnected "FLOOD" i) action.range.indices st.sessionActive
  return st

def verifyDrain (i : Nat) (action : Action) (st : ValidatorState) : ParseResult ValidatorState := do
  verifyInPool "DRAIN" "" ")" i action.range st.poolSize
  let active ← sweep (· != 1) (some 0) (notConnected "DRAIN" i) action.range.indices st.sessionActive
  return { st with sessionActive := active }

/-- Only `session_disconnect_called` is looked at and written. -/
def verifyDisconnect (i : Nat) (action : Action) (st : ValidatorState) :
    ParseResult ValidatorState := do
  verifyInPool "DISCONNECT" " sessions" ")" i action.range st.poolSize
  let called ← sweep (· == 1) (some 1)
    (fun j => scheduledFor "DISCONNECT" i (toString j) ++ " despite already being called.")
    action.range.indices st.sessionDisconnectCalled
  return { st with sessionDisconnectCalled := called }

def verifyAction (env : Env) (settings : SettingsBlock) (i : Nat) (action : Action)
    (st : ValidatorState) : ParseResult ValidatorState :=
  match action.type with
  | .CREATE => verifyCreate settings i action st
  | .CONNECT => verifyConnect i action st
  | .SEND => verifySend env settings i action st
  | .FLOOD => verifyFlood i action st
  | .DRAIN => verifyDrain i action st
  | .DISCONNECT => verifyDisconnect i action st

def verifyActions (env : Env) (settings : SettingsBlock) :
    Nat → ValidatorState → List Action → ParseResult ValidatorState
  | _, st, [] => .ok st
  | i, st, action :: rest => do
    let st ← verifyAction env settings i action st
    verifyActions env settings (i + 1) st rest

def verifyScript (env : Env) (script : DSLData) : ParseResult Unit := do
  verifyIdentifier script.settings
  verifyProtocol script.settings
  verifyPort script.settings
  verifyHeaderSize script.settings
  verifyBodyMax script.settings
  verifyShards script.settings
  verifyEndpoints script.settings
  verifyPacketsDefined script
  verifyPacketFiles env script.settings.packetIdentifiers
  verifyHandler env script.settings
  verifyOrchestratorName script
  verifyHasActions script
  let _ ← verifyActions env script.settings 0 .start script.orchestrator.actions
  return ()

/-- The checks that read neither `header_size` nor `body_max`. -/
structure OtherChecks (env : Env) (script : DSLData) : Prop where
  identifier : verifyIdentifier script.settings = .ok ()
  protocol : verifyProtocol script.settings = .ok ()
  port : verifyPort script.settings = .ok ()
  shards : verifyShards script.settings = .ok ()
  endpoints : verifyEndpoints script.settings = .ok ()
  packetsDefined : verifyPacketsDefined script = .ok ()
  packetFiles : verifyPacketFiles env script.settings.packetIdentifiers = .ok ()
  handler : verifyHandler env script.settings = .ok ()
  orchestratorName : verifyOrchestratorName script = .ok ()
  hasActions : verifyHasActions script = .ok ()
  actions : ∃ st, verifyActions env script.settings 0 .start script.orchestrator.actions = .ok st

theorem verifyScript_ok {env : Env} {script : DSLData} : verifyScript env script = .ok () ↔
    OtherChecks env script ∧ verifyHeaderSize script.settings = .ok () ∧ verifyBodyMax script.settings = .ok () := by
  unfold verifyScript
  constructor
  · intro h
    obtain ⟨_, h₁, h⟩ := bind_eq_ok h
    obtain ⟨_, h₂, h⟩ := bind_eq_ok h
    obtain ⟨_, h₃, h⟩ := bind_eq_ok h
    obtain ⟨_, h₄, h⟩ := bind_eq_ok h
    obtain ⟨_, h₅, h⟩ := bind_eq_ok h
    obtain ⟨_, h₆, h⟩ := bind_eq_ok h
    obtain ⟨_, h₇, h⟩ := bind_eq_ok h
    obtain ⟨_, h₈, h⟩ := bind_eq_ok h
    obtain ⟨_, h₉, h⟩ := bind_eq_ok h
    obtain ⟨_, h₁₀, h⟩ := bind_eq_ok h
    obtain ⟨_, h₁₁, h⟩ := bind_eq_ok h
    obtain ⟨_, h₁₂, h⟩ := bind_eq_ok h
    obtain ⟨st, h₁₃, _⟩ := bind_eq_ok h
    exact ⟨⟨h₁, h₂, h₃, h₆, h₇, h₈, h₉, h₁₀, h₁₁, h₁₂, st, h₁₃⟩, h₄, h₅⟩
  · intro ⟨⟨h₁, h₂, h₃, h₆, h₇, h₈, h₉, h₁₀, h₁₁, h₁₂, st, h₁₃⟩, h₄, h₅⟩
    rw [h₁, h₂, h₃, h₄, h₅, h₆, h₇, h₈, h₉, h₁₀, h₁₁, h₁₂, h₁₃]
    rfl

/-! ## From text to script -/

/-- `parse_script` once the file is in memory. -/
def interpretText (env : Env) (memory : Memory) (scriptRaw : List Char) : ParseResult DSLData := do
  let tokens ← match tokenize scriptRaw with
    | .error reason => throw (styledString "[Lexer Error]: " .Error ++ reason)
    | .ok tokens => pure tokens
  if tokens.length = 0 then
    throw (styledString "[Lexer Error]: " .Error ++ "Lexer returned zero tokens! "
      ++ "Your script might be empty?")
  let script ← match parse memory tokens with
    | .error reason => throw (styledString "[Parser Error]: " .Error ++ reason)
    | .ok script => pure script
  let script := setScriptDefaults env script
  match verifyScript env script with
  | .error reason => throw (styledString "[Validator Error]: " .Error ++ reason)
  | .ok () => return script

theorem interpretText_ok {env : Env} {memory : Memory} {text : List Char} {script : DSLData} :
    interpretText env memory text = .ok script ↔ ∃ toks d, tokenize text = .ok toks ∧ toks ≠ [] ∧
      parse memory toks = .ok d ∧ script = setScriptDefaults env d ∧ verifyScript env script = .ok () := by
  unfold interpretText
  constructor
  · intro h
    cases ht : tokenize text with
    | error e => rw [ht] at h; cases h
    | ok toks =>
      simp only [ht, pure, Except.pure, bind, Except.bind] at h
      split at h
      · cases h
      · rename_i hn
        cases hd : parse memory toks with
        | error e => rw [hd] at h; cases h
        | ok d =>
          simp only [hd] at h
          split at h
          · cases h
          · cases h
            exact ⟨toks, d, rfl, by simpa using hn, hd, rfl, ‹_›⟩
  · rintro ⟨toks, d, ht, hn, hd, rfl, hv⟩
    have hn : ¬ toks.length = 0 := by simpa using hn
    simp only [ht, pure, Except.pure, bind, Except.bind, if_neg hn, hd, hv]

/-- Each byte of the file is one character of the lexer. -/
def bytesToChars (bytes : List UInt8) : List Char := bytes.map fun b => Char.ofNat b.toNat

def parseScript (env : Env) (memory : Memory) (scriptName : String) : ParseResult DSLData := do
  let scriptPath ← match resolveFile env scriptName with
    | .error message =>
      throw (styledString "[Error]: " .Error ++ "Failed to resolve file "
        ++ styledString scriptName .BadValue ++ " (got error: " ++ styledString message .Error ++ ")")
    | .ok path => pure path
  if !env.canOpen scriptPath then
    throw (styledString "[Error]: " .Error ++ "Failed to open file " ++ styledString scriptName .BadValue
      ++ " which resolved to path " ++ styledString scriptPath .Reference)
  let filesize := env.fileSize scriptPath
  if filesize = 0 then
    throw (styledString "[Error]: " .Error ++ "File size for " ++ styledString scriptPath .Reference
      ++ " was " ++ styledString "0" .BadValue)
  match env.readBytes scriptPath filesize.toNat with
  | none =>
    throw (styledString "[Error]: " .Error ++ "Failed to read all "
      ++ styledString (toString filesize) .Context ++ " bytes from " ++ styledString scriptPath .Reference)
  | some bytes => interpretText env memory (bytesToChars bytes)

/-! ## A plain script -/

/-- One shard, one packet, no reading; the actions are left open. -/
def plainText (actions : String) : List Char :=
  ("SETTINGS s \x7b SESSION = \"TCP\" PORT = 80 HEADERSIZE = 4 BODYMAX = 8 SHARDS = 1 "
    ++ "ENDPOINTS \x7b \"host\" \x7d PACKETS \x7b p : \"p.bin\" \x7d \x7d "
    ++ "ORCHESTRATOR s \x7b " ++ actions ++ " \x7d").toList

def plainWords : List String :=
  ["SETTINGS", "s", "\x7b", "SESSION", "=", "\"TCP\"", "PORT", "=", "80", "HEADERSIZE", "=", "4", "BODYMAX", "=", "8",
    "SHARDS", "=", "1", "ENDPOINTS", "\x7b", "\"host\"", "\x7d", "PACKETS", "\x7b", "p", ":", "\"p.bin\"", "\x7d",
    "\x7d", "ORCHESTRATOR", "s", "\x7b"]

-- the kernel takes a long string apart slowly, and short words fast
theorem plainText_words (actions : String) :
    plainText actions = plainWords.flatMap (fun word => word.toList ++ [' ']) ++ (actions.toList ++ [' ', '\x7d']) := by
  simp only [plainText, String.toList_append]
  rfl

def plainScript (actions : List Action) : DSLData where
  settings :=
    { identifier := "s", sessionProtocol := "TCP", headerSize := 4, bodyMax := 8, read := false,
      repeat' := false, packetSampleRate := 100, shards := 1, port := 80, handlerValue := "NOP",
      endpoints := ["host"], packetIdentifiers := [("p", "p.bin")] }
  orchestrator := { settingsIdentifier := "s", actions := actions }

def createAction (count : UInt32) : Action := ⟨.CREATE, count, ⟨0, count⟩, 250, "", .empty⟩

def rangedAction (type : ActionType) (start second : UInt32) : Action :=
  ⟨type, 0, ⟨start, second⟩, 250, "", .empty⟩

def sendAction (start second copies : UInt32) (mods : ModList) : Action :=
  ⟨.SEND, copies, ⟨start, second⟩, 250, "p", mods⟩

/-- A machine with a packet of 24 bytes. -/
def plainEnv : Env := .ofFiles [("p.bin", List.replicate 24 0)]

example : interpretText plainEnv .zero (plainText "CREATE 1") =
    .ok (plainScript [createAction 1]) := by
  rw [plainText_words]
  decide +kernel

end Loadshear
