import Loadshear.Languages
import Loadshear.LiteralSound
import Loadshear.Printer

/-!
# The documented grammar

`syntax.md` as languages of tokens, each indexed by what it spells. A number is
a Value that begins as one. `K` are the tokens that may stand for `SETTINGS`,
`ORCHESTRATOR` and `OFFSET`, by the document the ones of type Keyword; the other
keywords have that type throughout.
-/

namespace Loadshear.Grammar

open Languages

/-! ## Terminals -/

def word (type : TokenType) (text : String) : Language Token := one fun t => t.type = type ∧ t.text = text

def braceOpen : Language Token := one fun t => t.type = .BraceOpen

def braceClosed : Language Token := one fun t => t.type = .BraceClosed

def operator (op : String) : Language Token := word .Operator op

def keyword (text : String) : Language Token := word .Keyword text

def name (text : String) : Language Token := word .Identity text

def value (text : String) : Language Token := word .Value text

def integer (n : UInt32) : Language Token := one fun t => t.type = .Value ∧ Begins t.text.toList n.toNat

/-- A number with `ms` or `s` behind it. -/
def Time (t : Token) (ms : UInt32) : Prop :=
  ∃ body k, Begins body k ∧ (t.text.toList = body ++ ['m', 's'] ∧ ms.toNat = k ∨
    t.text.toList = body ++ ['s'] ∧ body.getLast? ≠ some 'm' ∧ ms.toNat = k * 1000 % 2 ^ 32)

def time (ms : UInt32) : Language Token := one fun t => t.type = .Value ∧ Time t ms

def boolean (b : Bool) : Language Token := value (if b then "true" else "false")

def range (r : Range) : Language Token := integer r.start * (operator ":" * integer r.second)

/-! ## SETTINGS -/

inductive Setting where
  | SESSION (name : String)
  | PORT (n : UInt16)
  | HEADERSIZE (n : UInt32)
  | BODYMAX (n : UInt32)
  | READ (b : Bool)
  | REPEAT (b : Bool)
  | SAMPLERATE (n : UInt32)
  | SHARDS (n : UInt32)
  | HANDLER (file : String)

namespace Setting

def keyword : Setting → String
  | SESSION _ => "SESSION"
  | PORT _ => "PORT"
  | HEADERSIZE _ => "HEADERSIZE"
  | BODYMAX _ => "BODYMAX"
  | READ _ => "READ"
  | REPEAT _ => "REPEAT"
  | SAMPLERATE _ => "SAMPLERATE"
  | SHARDS _ => "SHARDS"
  | HANDLER _ => "HANDLER"

def value : Setting → Language Token
  | SESSION text | HANDLER text => Grammar.value text
  | PORT n => integer n.toUInt32
  | HEADERSIZE n | BODYMAX n | SAMPLERATE n | SHARDS n => integer n
  | READ b | REPEAT b => boolean b

end Setting

inductive Field where
  | setting (s : Setting)
  | PACKETS (entries : List (String × String))
  | ENDPOINTS (hosts : List String)

def packet (entry : String × String) : Language Token := name entry.1 * (operator ":" * value entry.2)

def Field.tokens : Field → Language Token
  | setting s => keyword s.keyword * (operator "=" * s.value)
  | PACKETS es => keyword "PACKETS" * (braceOpen * (entries packet (operator ",") es * braceClosed))
  | ENDPOINTS hosts => keyword "ENDPOINTS" * (braceOpen * (entries value (operator ",") hosts * braceClosed))

structure Settings where
  name : String
  fields : List Field

/-! ## ORCHESTRATOR -/

inductive Modification where
  | TIMESTAMP (m : TimestampModification)
  | COUNTER (m : CounterModification)

def endian (littleEndian : Bool) : Language Token := value (if littleEndian then "little" else "big")

def format (text : String) : Language Token := one fun t => t.type = .Value ∧ t.text = text ∧ text ∈ timeFormats

namespace Modification

def keyword : Modification → String
  | TIMESTAMP _ => "TIMESTAMP"
  | COUNTER _ => "COUNTER"

def arguments : Modification → Language Token
  | TIMESTAMP m => range m.timestampBytes * (endian m.littleEndian * (operator ":" * format m.formatName))
  | COUNTER m => range m.counterBytes * (endian m.littleEndian * (operator ":" * integer m.counterStep))

def tokens (m : Modification) : Language Token := Grammar.keyword m.keyword * m.arguments

end Modification

inductive Body where
  | CREATE (count : UInt32)
  | CONNECT (r : Range)
  | SEND (r : Range) (packet : String) (copies : UInt32) (mods : List Modification)
  | FLOOD (r : Range)
  | DRAIN (r : Range)
  | DISCONNECT (r : Range)

def Body.tokens : Body → Language Token
  | CREATE count => keyword "CREATE" * integer count
  | CONNECT r => keyword "CONNECT" * range r
  | SEND r packet copies mods =>
    keyword "SEND" * (range r * (name packet * (keyword "COPIES" * (integer copies * sequence Modification.tokens mods))))
  | FLOOD r => keyword "FLOOD" * range r
  | DRAIN r => keyword "DRAIN" * range r
  | DISCONNECT r => keyword "DISCONNECT" * range r

structure Act where
  body : Body
  offset : Option UInt32

structure Orchestrator where
  settings : String
  acts : List Act

inductive Block where
  | settings (s : Settings)
  | orchestrator (o : Orchestrator)

/-! ## Blocks -/

section
variable (K : Token → Prop)

/-- A keyword that `K` decides on. -/
def opening (text : String) : Language Token := one fun t => K t ∧ t.text = text

def Settings.tokens (s : Settings) : Language Token :=
  opening K "SETTINGS" * (Grammar.name s.name * (braceOpen * (sequence Field.tokens s.fields * braceClosed)))

/-- The actions and the closing brace. An `OFFSET` belongs to the action before it. -/
def acts : List Act → Language Token
  | [] => braceClosed
  | ⟨body, some ms⟩ :: as => body.tokens * (opening K "OFFSET" * (time ms * acts as))
  | ⟨body, none⟩ :: as => body.tokens * (acts as ⊓ avoids fun t => t.text = "OFFSET")

def Orchestrator.tokens (o : Orchestrator) : Language Token :=
  opening K "ORCHESTRATOR" * (name o.settings * (braceOpen * Grammar.acts K o.acts))

def Block.tokens : Block → Language Token
  | settings s => s.tokens K
  | orchestrator o => o.tokens K

/-- Derivable: a sequence of blocks. -/
def Derivable (toks : List Token) : Prop := ∃ blocks, toks ∈ sequence (Block.tokens K) blocks

end

/-- Derivable from the documented grammar. -/
def Documented (toks : List Token) : Prop := Derivable (fun t => t.type = .Keyword) toks

/-- Derivable where a token of any type may stand for `SETTINGS`, `ORCHESTRATOR`
and `OFFSET`. -/
def Spelled (toks : List Token) : Prop := Derivable (fun _ => True) toks

end Loadshear.Grammar
