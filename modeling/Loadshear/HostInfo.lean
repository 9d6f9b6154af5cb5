import Loadshear.Session

/-!
# The hosts of a plan

`generate_execution_plan` of `execution-plan.cpp`, for TCP and for UDP. Boost's
resolver is a parameter.
-/

namespace Loadshear

inductive LogLevel where
  | DEBUG
  | INFO
  | WARN
  | ERROR
deriving DecidableEq, Repr

structure LogEntry where
  level : LogLevel
  msg : String
deriving DecidableEq, Repr

/-! ## Endpoints -/

inductive Address where
  | v4 (bytes : BitVec 32)
  | v6 (bytes : BitVec 128) (scopeId : Nat)
deriving DecidableEq

structure Endpoint where
  address : Address
  port : UInt16
deriving DecidableEq

/-- `udp::endpoint()`: any address of version 4 and port 0. -/
instance : Inhabited Endpoint := ⟨⟨.v4 0, 0⟩⟩

/-- What one call of `resolve` leaves: the message of the error code, if any,
and the results. -/
structure Resolution where
  error : Option String
  results : List Endpoint

/-- `resolve` of a host and a service. -/
abbrev HostResolver := String → String → Resolution

def resolveWarning (endpoint : String) (r : Resolution) : List LogEntry :=
  match r.error with
  | none => []
  | some message => [⟨.WARN, endpoint ++ " could not be resolved (got error: " ++ message ++ ")"⟩]

/-! ## TCP: every endpoint once -/

structure TCPHosts where
  endpoints : List Endpoint := []
  endpointDupes : List Endpoint := []
  log : List LogEntry := []

def TCPHosts.store (h : TCPHosts) (entry : Endpoint) : TCPHosts :=
  if entry ∈ h.endpointDupes then h
  else { h with endpoints := h.endpoints ++ [entry], endpointDupes := entry :: h.endpointDupes }

def TCPHosts.add (resolve : HostResolver) (port : UInt16) (h : TCPHosts) (endpoint : String) : TCPHosts :=
  let results := resolve endpoint (toString port.toNat)
  results.results.foldl TCPHosts.store { h with log := h.log ++ resolveWarning endpoint results }

def tcpHosts (resolve : HostResolver) (settings : SettingsBlock) : TCPHosts :=
  settings.endpoints.foldl (TCPHosts.add resolve settings.port) {}

/-! ## UDP: one endpoint -/

structure UDPHosts where
  endpoints : Endpoint := default
  log : List LogEntry := []

def UDPHosts.add (resolve : HostResolver) (port : UInt16) (h : UDPHosts) (endpoint : String) : UDPHosts :=
  let results := resolve endpoint (toString port.toNat)
  results.results.foldl (fun h entry => { h with endpoints := entry })
    { h with log := h.log ++ resolveWarning endpoint results }

def udpHosts (resolve : HostResolver) (settings : SettingsBlock) : UDPHosts :=
  settings.endpoints.foldl (UDPHosts.add resolve settings.port) {}

/-! ## The plan -/

inductive MessageHandlerFactory where
  /-- An empty `std::function`. -/
  | none
  | NOP
  | WASM (bytes : List UInt8)

/-- `read_binary_file`. -/
def readBinaryFile (env : Env) (path : String) : Except String (List UInt8) :=
  let fileSize := env.fileSize path
  if fileSize = 0 then .error ("File " ++ path ++ " had zero bytes to read!")
  else if fileSize.toNat ≥ 2 ^ 64 - 1 then .error ("File " ++ path ++ " has more than SIZE_T bytes!")
  else match env.readBytes path fileSize.toNat with
  | none => .error ("Failed to read file " ++ path)
  | some bytes => .ok bytes

/-- `compiles` tells whether `wasmtime` makes a module of these bytes. -/
def messageHandlerFactory (env : Env) (compiles : List UInt8 → Bool) (settings : SettingsBlock) :
    Except String MessageHandlerFactory :=
  if !settings.read || settings.handlerValue == "NOP" then .ok .NOP
  else if settings.handlerValue.endsWith ".wasm" then do
    let path ← resolveFile env settings.handlerValue
    let wasmBytes ← readBinaryFile env path
    if compiles wasmBytes then return .WASM wasmBytes
    else throw ("Failed to compile WASM module for file " ++ path)
  else .ok .none

/-- A plan with what its `config` holds of the hosts. -/
structure HostPlan (Hosts : Type) where
  plan : ExecutionPlan
  factory : MessageHandlerFactory
  endpoints : Hosts

/-- What a call of `generate_execution_plan` logs and returns. -/
structure Planned (Hosts : Type) where
  log : List LogEntry
  result : Except String (HostPlan Hosts)

def noEndpointsError : String := "No endpoints could be resolved!"

def generateTCPPlan (env : Env) (memory : Memory) (compiles : List UInt8 → Bool) (resolve : HostResolver)
    (script : DSLData) : Planned (List Endpoint) :=
  match messageHandlerFactory env compiles script.settings with
  | .error message => ⟨[], .error message⟩
  | .ok factory =>
    let hostData := tcpHosts resolve script.settings
    if hostData.endpoints = [] then ⟨hostData.log, .error noEndpointsError⟩
    else match generatePlanCommon env memory script with
    | .error message => ⟨hostData.log, .error message⟩
    | .ok plan => ⟨hostData.log, .ok ⟨plan, factory, hostData.endpoints⟩⟩

def suggestedPayloadSize : Nat := 1500 - 20 - 8

def oversizedError : String :=
  "Payload detected with size greater than the UDP maximum! (" ++ toString maxDatagramSize ++ " bytes)"

/-- The test of the payloads of a UDP plan, with its warning. -/
def checkSizes (plan : ExecutionPlan) : Except String (List LogEntry) :=
  if plan.payloads.any fun payload => payload.packetData.length > maxDatagramSize then .error oversizedError
  else if plan.payloads.any fun payload => payload.packetData.length > suggestedPayloadSize then
    .ok [⟨.WARN, "Payloads detected with size greater than " ++ toString suggestedPayloadSize
      ++ " bytes (suggested datagram size)"⟩]
  else .ok []

def generateUDPPlan (env : Env) (memory : Memory) (compiles : List UInt8 → Bool) (resolve : HostResolver)
    (script : DSLData) : Planned Endpoint :=
  match messageHandlerFactory env compiles script.settings with
  | .error message => ⟨[], .error message⟩
  | .ok factory =>
    let hostData := udpHosts resolve script.settings
    if hostData.endpoints = default then ⟨hostData.log, .error noEndpointsError⟩
    else match generatePlanCommon env memory script with
    | .error message => ⟨hostData.log, .error message⟩
    | .ok plan =>
      match checkSizes plan with
      | .error message => ⟨hostData.log, .error message⟩
      | .ok warnings => ⟨hostData.log ++ warnings, .ok ⟨plan, factory, hostData.endpoints⟩⟩

/-- The list that the user is shown; `addressText` is Boost's. A UDP plan has one
endpoint. -/
def dumpEndpointList (addressText : Address → String) (endpoints : List Endpoint) : String :=
  String.join (endpoints.map fun ep => "  - " ++ addressText ep.address ++ ":" ++ toString ep.port.toNat ++ "\n")

end Loadshear
