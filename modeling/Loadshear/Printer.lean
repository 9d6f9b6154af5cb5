import Loadshear.Parser

/-!
# Writing a script

The documented syntax, from a script to its texts. There are many: the fields of
SETTINGS come in any order, and one that holds what it holds by default may be
left out; the last entry of a list may have a comma behind it; an offset is given
in milliseconds or in seconds, or left out; and around the words there are gaps.
-/

namespace Loadshear

/-! ## Words -/

inductive Word where
  | keyword (text : String)
  | identity (text : String)
  | operator (c : Char)
  | number (text : String)
  | quoted (text : String)
  | braceOpen
  | braceClosed
deriving DecidableEq

namespace Word

def token : Word → TokenType × String
  | keyword text => (.Keyword, text)
  | identity text => (.Identity, text)
  | operator c => (.Operator, String.ofList [c])
  | number text | quoted text => (.Value, text)
  | braceOpen => (.BraceOpen, "\x7b")
  | braceClosed => (.BraceClosed, "\x7d")

/-- A quote and a dollar sign have a backslash before them. -/
def escape : List Char → List Char
  | [] => []
  | c :: cs => if c = '"' ∨ c = '$' then '\\' :: c :: escape cs else c :: escape cs

def spelling : Word → List Char
  | keyword text | identity text | number text => text.toList
  | operator c => [c]
  | quoted text => '"' :: (escape text.toList ++ ['"'])
  | braceOpen => ['{']
  | braceClosed => ['}']

end Word

/-- Letters, digits and underscores behind a letter. -/
def IsName (text : String) : Prop := ∃ c cs, text.toList = c :: cs ∧ c.isAlpha ∧ ∀ d ∈ cs, isIdentChar d

theorem isName_iff {text : String} :
    IsName text ↔ text.toList.head?.any Char.isAlpha = true ∧ text.toList.tail.all isIdentChar = true := by
  unfold IsName
  cases text.toList with
  | nil => simp
  | cons c cs => simp

instance : DecidablePred IsName := fun _ => decidable_of_iff' _ isName_iff

def IsIdentifier (text : String) : Prop := IsName text ∧ text ∉ validKeywords

instance : DecidablePred IsIdentifier := fun _ => inferInstanceAs (Decidable (_ ∧ _))

/-- A backslash at the end would escape the closing quote. -/
def IsQuotable (text : String) : Prop := text.toList.getLast? ≠ some '\\'

instance : DecidablePred IsQuotable := fun _ => inferInstanceAs (Decidable (_ ≠ _))

/-! ## Gaps -/

inductive Gap where
  | blank (c : Char) (h : c = ' ' ∨ c = '\t' ∨ c = '\r' ∨ c = '\n')
  | comment (text : List Char) (h : '\n' ∉ text)

def Gap.spelling : Gap → List Char
  | .blank c _ => [c]
  | .comment text _ => '/' :: '/' :: (text ++ ['\n'])

def gapText (gaps : List Gap) : List Char := gaps.flatMap Gap.spelling

/-- Words, each with the gaps behind it. -/
def layout : List (Word × List Gap) → List Char
  | [] => []
  | (w, gaps) :: items => w.spelling ++ (gapText gaps ++ layout items)

/-- A text of the words, with a gap at least between two of them. -/
def IsText (ws : List Word) (text : List Char) : Prop :=
  ∃ lead items, items.map Prod.fst = ws ∧ text = gapText lead ++ layout items ∧
    ∀ item ∈ items.dropLast, item.2 ≠ []

/-! ## Values -/

def numberWord (n : UInt32) : Word := .number (toString n.toNat)

def boolWord (b : Bool) : Word := .quoted (if b then "true" else "false")

def rangeWords (r : Range) : List Word := [numberWord r.start, .operator ':', numberWord r.second]

/-- Commas between the entries, and one behind the last where `trailing` says so. -/
def entryWords (trailing : Bool) : List (List Word) → List Word
  | [] => []
  | [entry] => entry ++ if trailing then [.operator ','] else []
  | entry :: entries => entry ++ .operator ',' :: entryWords trailing entries

/-! ## SETTINGS -/

inductive SettingsField where
  | SESSION
  | PORT
  | HEADERSIZE
  | BODYMAX
  | READ
  | REPEAT
  | SAMPLERATE
  | SHARDS
  | HANDLER
  | ENDPOINTS
  | PACKETS
deriving DecidableEq

namespace SettingsField

/-- The two blocks hold the field's value in common. -/
def Same (s s' : SettingsBlock) : SettingsField → Prop
  | SESSION => s.sessionProtocol = s'.sessionProtocol
  | PORT => s.port = s'.port
  | HEADERSIZE => s.headerSize = s'.headerSize
  | BODYMAX => s.bodyMax = s'.bodyMax
  | READ => s.read = s'.read
  | REPEAT => s.repeat' = s'.repeat'
  | SAMPLERATE => s.packetSampleRate = s'.packetSampleRate
  | SHARDS => s.shards = s'.shards
  | HANDLER => s.handlerValue = s'.handlerValue
  | ENDPOINTS => s.endpoints = s'.endpoints
  | PACKETS => s.packetIdentifiers = s'.packetIdentifiers

def assignment (keyword : String) (value : Word) : List Word := [.keyword keyword, .operator '=', value]

def block (keyword : String) (trailing : Bool) (entries : List (List Word)) : List Word :=
  .keyword keyword :: .braceOpen :: (entryWords trailing entries ++ [.braceClosed])

def words (s : SettingsBlock) (trailing : SettingsField → Bool) : SettingsField → List Word
  | SESSION => assignment "SESSION" (.quoted s.sessionProtocol)
  | PORT => assignment "PORT" (numberWord s.port.toUInt32)
  | HEADERSIZE => assignment "HEADERSIZE" (numberWord s.headerSize)
  | BODYMAX => assignment "BODYMAX" (numberWord s.bodyMax)
  | READ => assignment "READ" (boolWord s.read)
  | REPEAT => assignment "REPEAT" (boolWord s.repeat')
  | SAMPLERATE => assignment "SAMPLERATE" (numberWord s.packetSampleRate)
  | SHARDS => assignment "SHARDS" (numberWord s.shards)
  | HANDLER => assignment "HANDLER" (.quoted s.handlerValue)
  | ENDPOINTS => block "ENDPOINTS" (trailing ENDPOINTS) (s.endpoints.map fun endpoint => [.quoted endpoint])
  | PACKETS =>
    block "PACKETS" (trailing PACKETS)
      (s.packetIdentifiers.map fun packet => [.identity packet.1, .operator ':', .quoted packet.2])

end SettingsField

/-- The block is written over `start`, each field at most once. -/
inductive SettingsWords (start s : SettingsBlock) : List Word → Prop
  | mk (fields : List SettingsField) (trailing : SettingsField → Bool) (hn : fields.Nodup)
      (hk : ∀ f ∉ fields, f.Same start s) :
    SettingsWords start s (.keyword "SETTINGS" :: .identity s.identifier :: .braceOpen ::
      (fields.flatMap (SettingsField.words s trailing) ++ [.braceClosed]))

/-! ## ORCHESTRATOR -/

def endianWord (littleEndian : Bool) : Word := .quoted (if littleEndian then "little" else "big")

def timestampWords (m : TimestampModification) : List Word :=
  .keyword "TIMESTAMP" :: (rangeWords m.timestampBytes ++
    [endianWord m.littleEndian, .operator ':', .quoted m.formatName])

def counterWords (m : CounterModification) : List Word :=
  .keyword "COUNTER" :: (rangeWords m.counterBytes ++ [endianWord m.littleEndian, .operator ':', numberWord m.counterStep])

/-- The modifications in the order in which they were pushed. -/
def modWords : List TimestampModification → List CounterModification → List ModificationType → List Word
  | m :: ts, cs, .Timestamp :: order => timestampWords m ++ modWords ts cs order
  | ts, m :: cs, .Counter :: order => counterWords m ++ modWords ts cs order
  | _, _, _ => []

def bodyWords (a : Action) : List Word :=
  match a.type with
  | .CREATE => [.keyword "CREATE", numberWord a.count]
  | .CONNECT => .keyword "CONNECT" :: rangeWords a.range
  | .SEND =>
    .keyword "SEND" :: (rangeWords a.range ++ (.identity a.packetIdentifier :: .keyword "COPIES" :: numberWord a.count ::
      modWords a.mods.timestampMods a.mods.counterMods a.mods.modOrder))
  | .FLOOD => .keyword "FLOOD" :: rangeWords a.range
  | .DRAIN => .keyword "DRAIN" :: rangeWords a.range
  | .DISCONNECT => .keyword "DISCONNECT" :: rangeWords a.range

inductive OffsetWords (offsetMs : UInt32) : List Word → Prop
  | omitted (h : offsetMs = defaultOffsetMs) : OffsetWords offsetMs []
  | milliseconds : OffsetWords offsetMs [.keyword "OFFSET", .number (toString offsetMs.toNat ++ "ms")]
  | seconds (n : Nat) (h : offsetMs.toNat = n * 1000) :
    OffsetWords offsetMs [.keyword "OFFSET", .number (toString n ++ "s")]

inductive ActionsWords : List Action → List Word → Prop
  | nil : ActionsWords [] []
  | cons {a : Action} {actions : List Action} {offset ws : List Word} (ho : OffsetWords a.offsetMs offset)
      (h : ActionsWords actions ws) : ActionsWords (a :: actions) (bodyWords a ++ (offset ++ ws))

inductive OrchestratorWords (o : OrchestratorBlock) : List Word → Prop
  | mk {ws : List Word} (h : ActionsWords o.actions ws) :
    OrchestratorWords o (.keyword "ORCHESTRATOR" :: .identity o.settingsIdentifier :: .braceOpen ::
      (ws ++ [.braceClosed]))

/-! ## Scripts -/

/-- The words of a script that is read into what `memory` holds. -/
inductive ScriptWords (memory : Memory) (script : DSLData) : List Word → Prop
  | settingsFirst {ws ws' : List Word} (hs : SettingsWords memory.toScript.settings script.settings ws)
      (ho : OrchestratorWords script.orchestrator ws') : ScriptWords memory script (ws ++ ws')
  | orchestratorFirst {ws ws' : List Word} (ho : OrchestratorWords script.orchestrator ws)
      (hs : SettingsWords memory.toScript.settings script.settings ws') : ScriptWords memory script (ws ++ ws')

/-- The text is one of the script's. -/
def Written (memory : Memory) (script : DSLData) (text : List Char) : Prop :=
  ∃ ws, ScriptWords memory script ws ∧ IsText ws text

/-! ## One text -/

def SettingsField.all : List SettingsField :=
  [SESSION, PORT, HEADERSIZE, BODYMAX, READ, REPEAT, SAMPLERATE, SHARDS, HANDLER, ENDPOINTS, PACKETS]

def actionsWords : List Action → List Word
  | [] => []
  | a :: actions =>
    bodyWords a ++ ([.keyword "OFFSET", .number (toString a.offsetMs.toNat ++ "ms")] ++ actionsWords actions)

def DSLData.words (script : DSLData) : List Word :=
  (.keyword "SETTINGS" :: .identity script.settings.identifier :: .braceOpen ::
    (SettingsField.all.flatMap (SettingsField.words script.settings fun _ => false) ++ [.braceClosed])) ++
  (.keyword "ORCHESTRATOR" :: .identity script.orchestrator.settingsIdentifier :: .braceOpen ::
    (actionsWords script.orchestrator.actions ++ [.braceClosed]))

/-- A word a line. -/
def lines (ws : List Word) : List (Word × List Gap) := ws.map fun w => (w, [.blank '\n' (by decide)])

/-- Every field, and every offset in milliseconds. -/
def DSLData.print (script : DSLData) : List Char := layout (lines script.words)

theorem isText_lines (ws : List Word) : IsText ws (layout (lines ws)) := by
  refine ⟨[], lines ws, ?_, rfl, fun item hi => ?_⟩
  · rw [lines, List.map_map]
    exact List.map_id _
  · obtain ⟨w, -, rfl⟩ := List.mem_map.mp (List.dropLast_subset _ hi)
    exact List.cons_ne_nil _ _

theorem actionsWords_written : ∀ actions : List Action, ActionsWords actions (actionsWords actions)
  | [] => .nil
  | _ :: actions => .cons .milliseconds (actionsWords_written actions)

/-- There is a text for every script. -/
theorem print_written (memory : Memory) (script : DSLData) : Written memory script script.print := by
  refine ⟨script.words, .settingsFirst (.mk _ _ (by decide) fun f hf => ?_) (.mk (actionsWords_written _)), isText_lines _⟩
  exact absurd (by cases f <;> decide) hf

/-! ## What can be written -/

/-- What `std::stoi` takes. -/
def IsSmall (n : UInt32) : Prop := n.toNat < 2 ^ 31

instance : DecidablePred IsSmall := fun _ => inferInstanceAs (Decidable (_ < _))

structure Range.WellFormed (r : Range) : Prop where
  start : IsSmall r.start
  second : IsSmall r.second

def timeFormats : List String := ["seconds", "milliseconds", "microseconds", "nanoseconds"]

structure ModList.WellFormed (l : ModList) : Prop where
  timestamps : ∀ m ∈ l.timestampMods, m.timestampBytes.WellFormed ∧ m.formatName ∈ timeFormats
  counters : ∀ m ∈ l.counterMods, m.counterBytes.WellFormed ∧ IsSmall m.counterStep

/-- Only a SEND has a packet and modifications. -/
structure Action.WellFormed (a : Action) : Prop where
  range : a.range.WellFormed
  offsetMs : IsSmall a.offsetMs
  create : a.type = .CREATE → a.range = ⟨0, a.count⟩
  count : a.type = .CREATE ∨ a.type = .SEND → IsSmall a.count
  packet : a.type = .SEND → IsIdentifier a.packetIdentifier
  mods : a.mods.WellFormed
  bare : a.type ≠ .SEND → a.packetIdentifier = "" ∧ a.mods = .empty

structure SettingsBlock.WellFormed (s : SettingsBlock) : Prop where
  identifier : IsIdentifier s.identifier
  sessionProtocol : IsQuotable s.sessionProtocol
  headerSize : IsSmall s.headerSize
  bodyMax : IsSmall s.bodyMax
  packetSampleRate : IsSmall s.packetSampleRate
  shards : IsSmall s.shards
  handlerValue : IsQuotable s.handlerValue
  endpoints : ∀ endpoint ∈ s.endpoints, IsQuotable endpoint
  packets : ∀ packet ∈ s.packetIdentifiers, IsIdentifier packet.1 ∧ IsQuotable packet.2
  /-- The identifiers are the keys of a map. -/
  distinct : (s.packetIdentifiers.map (·.1)).Nodup

structure DSLData.WellFormed (script : DSLData) : Prop where
  settings : script.settings.WellFormed
  settingsIdentifier : IsIdentifier script.orchestrator.settingsIdentifier
  actions : ∀ a ∈ script.orchestrator.actions, a.WellFormed

end Loadshear
