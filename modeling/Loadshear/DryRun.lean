import Loadshear.HostInfo

/-!
# The dry run

`CLI::dry_run` of `cli.cpp`: what it logs of a plan. `none` is a read behind
the end of a vector.
-/

namespace Loadshear

/-- A string `[MM:SS:mmm]` for the time offset. -/
def msToTimestring (offsetMs : UInt32) : String :=
  let minutes := offsetMs / 60000
  let seconds := offsetMs % 60000 / 1000
  let milliseconds := offsetMs % 1000
  let minStr := toString minutes.toNat
  let secStr := toString seconds.toNat
  let milliStr := toString milliseconds.toNat
  let minStr := if minStr.length < 2 then "0" ++ minStr else minStr
  let secStr := if secStr.length < 2 then "0" ++ secStr else secStr
  let milliStr :=
    if milliStr.length = 1 then "00" ++ milliStr
    else if milliStr.length = 2 then "0" ++ milliStr
    else milliStr
  "[" ++ minStr ++ ":" ++ secStr ++ ":" ++ milliStr ++ "] "

def packetOpToStr : PacketOperationType → String
  | .IDENTITY => "IDENTITY"
  | .COUNTER => "COUNTER"
  | .TIMESTAMP => "TIMESTAMP"

def ActionDescriptor.typeToString (d : ActionDescriptor) : String :=
  match d.type with
  | .CREATE => "CREATE"
  | .CONNECT => "CONNECT"
  | .SEND => "SEND"
  | .FLOOD => "FLOOD"
  | .DRAIN => "DRAIN"
  | .DISCONNECT => "DISCONNECT"

structure DryRunState where
  currentPayloadId : Nat
  log : List LogEntry

def DryRunState.logged (st : DryRunState) (level : LogLevel) (msg : String) : DryRunState :=
  { st with log := st.log ++ [⟨level, msg⟩] }

/-- The end of an action's range is one behind its last session. -/
def sessionsIndexed (action : ActionDescriptor) : String :=
  "sessions indexed " ++ toString action.sessionsStart.toNat ++ " through "
    ++ toString (action.sessionsEnd - 1).toNat

def opText (op : PacketOperation) : String :=
  "<" ++ packetOpToStr op.type ++ ", " ++ toString op.length.toNat ++ "> "

/-- One pass of the loop over the actions. -/
def dryRunAction (plan : ExecutionPlan) (script : DSLData) (i : Nat) (st : DryRunState)
    (action : ActionDescriptor) : Option DryRunState := do
  let dslAction ← script.orchestrator.actions[i]?
  let actionMsg := msToTimestring (UInt32.ofNat action.offset) ++ action.typeToString ++ " "
  match action.type with
  | .CREATE => return st.logged .INFO (actionMsg ++ toString action.count.toNat ++ " sessions")
  | .SEND =>
    let actionMsg := actionMsg ++ "(" ++ toString action.count.toNat ++ "x) packet identity "
      ++ dslAction.packetIdentifier ++ " with payload data\n" ++ "                "
    if plan.payloads.length < st.currentPayloadId then
      return (st.logged .WARN "Application has a logic error").logged .INFO actionMsg
    else
      let payload ← plan.payloads[st.currentPayloadId]?
      let st := st.logged .INFO (payload.ops.foldl (fun msg op => msg ++ opText op) actionMsg)
      return { st with currentPayloadId := st.currentPayloadId + action.count.toNat }
  | .CONNECT | .FLOOD | .DRAIN | .DISCONNECT => return st.logged .INFO (actionMsg ++ sessionsIndexed action)

def dryRunActions (plan : ExecutionPlan) (script : DSLData) :
    Nat → DryRunState → List ActionDescriptor → Option DryRunState
  | _, st, [] => some st
  | i, st, action :: rest => do
    let st ← dryRunAction plan script i st action
    dryRunActions plan script (i + 1) st rest

def dryRunStart (endpointList : String) : DryRunState where
  currentPayloadId := 0
  log :=
    [⟨.INFO, "             \x1b[1mStarting dry run\x1b[0m\n"⟩,
     ⟨.INFO, "The following endpoints are set to be used:\n"⟩,
     ⟨.INFO, endpointList⟩]

/-- `endpointList` is what `dump_endpoint_list` returns for the plan. -/
def dryRun (endpointList : String) (plan : ExecutionPlan) (script : DSLData) : Option (List LogEntry) :=
  (dryRunActions plan script 0 (dryRunStart endpointList) plan.actions).map (·.log)

end Loadshear
