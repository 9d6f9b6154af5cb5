import Loadshear.DryRun
import Loadshear.Interpreter

/-!
# The command line

`CLI::run` and what it calls of `cli.cpp`, up to the loop of the orchestrator.
`none` is a read behind the end of a vector.
-/

namespace Loadshear

namespace CLI

structure CLIOptions where
  scriptFile : String
  dryRun : Bool := false
  expandEnvs : Bool := false
  acknowledgedResponsibility : Bool := false
  quiet : Bool := false

/-- What the program finds where it is started: the machine, what `wasmtime`
and Boost say, and the line that the user types. -/
structure World where
  env : Env
  memory : Memory
  compiles : List UInt8 → Bool
  resolve : HostResolver
  addressText : Address → String
  userResponse : String

/-- `Resolver::set_global_resolve_options`. -/
def World.resolving (w : World) (ops : CLIOptions) : Env := { w.env with expandEnvs := ops.expandEnvs }

inductive ProtocolType where
  | TCP
  | UDP
deriving DecidableEq

inductive Outcome where
  | exits (code : Nat)
  /-- `start_orchestrator_loop`, or the one that is not interactive. -/
  | loops (interactive : Bool) (protocol : ProtocolType) (plan : HostPlan (List Endpoint))

def acknowledgementStringStart : String :=
  "\n\x1b[1;31mWARNING:\x1b[0m\nThis tool can generate high network loads, rapid connection\n"
    ++ "churn, and resource exhaustion if misused.\n\nThe following endpoints are set to be used:\n"

def acknowledgementStringEnd : String :=
  "You \x1b[1mMUST\x1b[0m have explicit authorization to act on these systems.\n"
    ++ "Unauthorized use of this tool can cause service disruption\nand may be illegal.\n\n"
    ++ "If you are unsure whether you are authorized, stop now.\n\nBy proceeding, you confirm that you:\n"
    ++ " - Are authorized to act on these endpoints\n - Understand the behavior of this tool for your script\n"
    ++ " - Accept full responsibility for its use\n\nTo proceed, type \x1b[1mI UNDERSTAND\x1b[0m below.\n"

/-- Ensure the user knows what will happen before running. -/
def requestAcknowledgement (endpointsList userResponse : String) : List LogEntry × Bool :=
  let log := [⟨.INFO, acknowledgementStringStart⟩, ⟨.INFO, endpointsList⟩, ⟨.INFO, acknowledgementStringEnd⟩]
  if userResponse = "I UNDERSTAND" then (log, true) else (log ++ [⟨.INFO, "\nAborting"⟩], false)

/-- One case of the switch over the protocol, from the plan on. -/
def executePlan (w : World) (ops : CLIOptions) (script : DSLData) (protocol : ProtocolType) {Hosts : Type}
    (endpoints : Hosts → List Endpoint) (planned : Planned Hosts) : Option (List LogEntry × Outcome) :=
  match planned.result with
  | .error message => some (planned.log ++ [⟨.ERROR, message⟩], .exits 1)
  | .ok p =>
    let list := dumpEndpointList w.addressText (endpoints p.endpoints)
    if ops.dryRun then (Loadshear.dryRun list p.plan script).map fun log => (planned.log ++ log, .exits 0)
    else
      let ack := if ops.acknowledgedResponsibility then ([], true) else requestAcknowledgement list w.userResponse
      if ack.2 then
        some (planned.log ++ ack.1, .loops (!ops.quiet) protocol ⟨p.plan, p.factory, endpoints p.endpoints⟩)
      else some (planned.log ++ ack.1, .exits 0)

def executeScript (w : World) (ops : CLIOptions) (script : DSLData) : Option (List LogEntry × Outcome) :=
  if script.settings.sessionProtocol = "TCP" then
    executePlan w ops script .TCP id (generateTCPPlan (w.resolving ops) w.memory w.compiles w.resolve script)
  else if script.settings.sessionProtocol = "UDP" then
    executePlan w ops script .UDP (fun ep => [ep])
      (generateUDPPlan (w.resolving ops) w.memory w.compiles w.resolve script)
  else some ([⟨.ERROR, "Unrecognized transport " ++ script.settings.sessionProtocol ++ " was specified."⟩], .exits 1)

def run (w : World) (ops : CLIOptions) : Option (List LogEntry × Outcome) :=
  match parseScript (w.resolving ops) w.memory ops.scriptFile with
  | .error reason => some ([⟨.ERROR, reason⟩], .exits 1)
  | .ok script => executeScript w ops script

end CLI

end Loadshear
