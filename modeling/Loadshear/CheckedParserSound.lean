import Loadshear.CheckedParser
import Loadshear.ParserSound

/-!
# Every pass of the parser moves on

The watched parser shadows the plain one: it never traps, so each pass of a
loop consumes, leaves or fails, and each call of `consume` finds a token.
-/

namespace Loadshear.CheckedParser

open Watching

/-- Between `lo` and the end of the tokens. -/
def Here (toks : List Token) (lo pos : Nat) : Prop := lo ≤ pos ∧ pos ≤ toks.length

def Expects (p : ParserM Unit) (toks : List Token) (pos : Nat) : Prop :=
  (p toks pos = .ok ((), pos) ∧ pos < toks.length) ∨ ∃ e, p toks pos = .error e

section
variable {toks : List Token} {lo pos : Nat}

theorem Here.succ (h : Here toks lo pos) (hp : pos < toks.length) : Here toks lo (pos + 1) :=
  ⟨Nat.le_succ_of_le h.1, hp⟩

theorem Here.self {lo' : Nat} (h : Here toks lo' pos) : Here toks pos pos := ⟨Nat.le_refl _, h.2⟩

theorem inside_of {t : Token} (ht : toks[pos]? = some t) : pos < toks.length :=
  (List.getElem?_eq_some_iff.mp ht).1

/-- The token that `peek` makes up is no keyword's. -/
theorem inside_of_text {text : String} (h : ((toks[pos]?).getD eofToken).text = text) (hne : text ≠ "EOF") :
    pos < toks.length := by
  by_cases hp : pos < toks.length
  · exact hp
  · rw [List.getElem?_eq_none (Nat.le_of_not_lt hp)] at h
    exact absurd h.symm hne

/-! ## Expecting -/

theorem expectType_expects (ty : TokenType) : Expects (expectType ty) toks pos := by
  unfold expectType
  rcases isExpected_run toks pos ty with ⟨hr, t, ht, _⟩ | hr
  · apply Or.inl
    rw [plain_ok hr]
    exact ⟨rfl, inside_of ht⟩
  · apply Or.inr
    rw [plain_ok hr]
    exact ⟨_, rfl⟩

theorem expectOperator_expects (op : String) : Expects (expectOperator op) toks pos := by
  unfold expectOperator
  rcases isOperator_run toks pos op with ⟨hr, t, ht, _⟩ | hr
  · apply Or.inl
    rw [plain_ok hr]
    exact ⟨rfl, inside_of ht⟩
  · apply Or.inr
    rw [plain_ok hr]
    exact ⟨_, rfl⟩

theorem expectCopies_expects : Expects expectCopies toks pos := by
  unfold Expects expectCopies
  have hpeek : peek toks pos = .ok ((toks[pos]?).getD eofToken, pos) := rfl
  have htype : Expects (expectType .Keyword) toks pos := expectType_expects .Keyword
  rcases htype with ⟨hr, hp⟩ | ⟨e, hr⟩
  · rw [plain_ok hr, plain_ok hpeek]
    by_cases ht : ((toks[pos]?).getD eofToken).text = "COPIES"
    · rw [if_pos ht]
      exact Or.inl ⟨rfl, hp⟩
    · rw [if_neg ht]
      exact Or.inr ⟨_, rfl⟩
  · exact Or.inr ⟨e, plain_error hr⟩

/-! ## Steps of the two runs -/

variable {α β : Type} {K : α → Nat → Except String (β × Nat) → Prop}

theorem shadows_look {γ : Type} {p : ParserM γ} {x : γ → WatchedParser α} {y : γ → ParserM β} {a : γ}
    (hp : p toks pos = .ok (a, pos)) (h : Shadows (Here toks lo) K (x a toks pos) (y a toks pos)) :
    Shadows (Here toks lo) K ((look p >>= x) toks pos) ((p >>= y) toks pos) := by
  rw [bind_ok (look_ok hp), plain_ok hp]
  exact h

theorem shadows_peek {x : Token → WatchedParser α} {y : Token → ParserM β}
    (h : Shadows (Here toks lo) K (x ((toks[pos]?).getD eofToken) toks pos) (y ((toks[pos]?).getD eofToken) toks pos)) :
    Shadows (Here toks lo) K ((look peek >>= x) toks pos) ((peek >>= y) toks pos) :=
  shadows_look rfl h

theorem shadows_throwPeek {f : Token → String} (hj : Here toks lo pos) :
    Shadows (Here toks lo) K ((look peek >>= fun t => (throw (f t) : WatchedParser α)) toks pos)
      ((peek >>= fun t => (throw (f t) : ParserM β)) toks pos) :=
  shadows_peek (Shadows.throw hj rfl)

theorem shadows_ifExpected {ty : TokenType} {x x' : WatchedParser α} {y y' : ParserM β}
    (h : pos < toks.length → Shadows (Here toks lo) K (x toks pos) (y toks pos))
    (h' : Shadows (Here toks lo) K (x' toks pos) (y' toks pos)) :
    Shadows (Here toks lo) K ((look (isExpected ty) >>= fun b => if b = true then x else x') toks pos)
      ((isExpected ty >>= fun b => if b = true then y else y') toks pos) := by
  rcases isExpected_run toks pos ty with ⟨hr, t, ht, _⟩ | hr
  · exact shadows_look hr (h (inside_of ht))
  · exact shadows_look hr h'

theorem shadows_ifOperator {op : String} {x x' : WatchedParser α} {y y' : ParserM β}
    (h : pos < toks.length → Shadows (Here toks lo) K (x toks pos) (y toks pos))
    (h' : Shadows (Here toks lo) K (x' toks pos) (y' toks pos)) :
    Shadows (Here toks lo) K ((look (isOperator op) >>= fun b => if b = true then x else x') toks pos)
      ((isOperator op >>= fun b => if b = true then y else y') toks pos) := by
  rcases isOperator_run toks pos op with ⟨hr, t, ht, _⟩ | hr
  · exact shadows_look hr (h (inside_of ht))
  · exact shadows_look hr h'

theorem shadows_expect {p : ParserM Unit} {x : Unit → WatchedParser α} {y : Unit → ParserM β}
    (hj : Here toks lo pos) (hp : Expects p toks pos)
    (h : pos < toks.length → Shadows (Here toks lo) K (x () toks pos) (y () toks pos)) :
    Shadows (Here toks lo) K ((look p >>= x) toks pos) ((p >>= y) toks pos) := by
  rcases hp with ⟨hr, hin⟩ | ⟨e, hr⟩
  · exact shadows_look hr (h hin)
  · have hlook : look p toks pos = .ok (.error e, pos) := by
      unfold look
      rw [hr]
    rw [bind_error hlook, plain_error hr]
    exact .failed hj

theorem shadows_result {r : ParseResult β} (hj : Here toks lo pos) :
    Shadows (Here toks lo) Gives (look (liftResult r) toks pos) (liftResult r toks pos) := by
  cases r with
  | error e => exact .failed hj
  | ok c => exact .done hj rfl

theorem shadows_lift {γ : Type} {r : ParseResult γ} {x : γ → WatchedParser α} {y : γ → ParserM β}
    (hj : Here toks lo pos) (h : ∀ c, Shadows (Here toks lo) K (x c toks pos) (y c toks pos)) :
    Shadows (Here toks lo) K ((look (liftResult r) >>= x) toks pos) ((liftResult r >>= y) toks pos) := by
  cases r with
  | error e => exact .failed hj
  | ok c => exact shadows_look rfl (h c)

theorem shadows_consume {x : Token → WatchedParser α} {y : Token → ParserM β} (hj : Here toks lo pos)
    (hp : pos < toks.length)
    (h : ∀ t, Here toks lo (pos + 1) → Shadows (Here toks lo) K (x t toks (pos + 1)) (y t toks (pos + 1))) :
    Shadows (Here toks lo) K ((consume >>= x) toks pos) ((Loadshear.consume >>= y) toks pos) := by
  have hget : toks[pos]? = some toks[pos] := List.getElem?_eq_getElem hp
  have hend : look endOfTokens toks pos = .ok (.ok false, pos) := by
    simp [look, endOfTokens, hp]
  have htoken : tokenAt (pos + 1 - 1) toks (pos + 1) = .ok (.ok toks[pos], pos + 1) := by
    simp [tokenAt, hget]
  have hwatched : consume toks pos = .ok (.ok toks[pos], pos + 1) := by
    unfold consume
    rw [bind_ok hend]
    exact htoken
  have hplain : Loadshear.consume toks pos = .ok (toks[pos], pos + 1) := by
    simp [Loadshear.consume, hp]
  rw [bind_ok hwatched, plain_ok hplain]
  exact h _ (hj.succ hp)

/-- `look` has found a token, and `consume` goes over it. -/
theorem shadows_take {p : ParserM Unit} {x : Token → WatchedParser α} {y : Token → ParserM β}
    (hj : Here toks lo pos) (hp : Expects p toks pos)
    (h : ∀ t, Here toks lo (pos + 1) → Shadows (Here toks lo) K (x t toks (pos + 1)) (y t toks (pos + 1))) :
    Shadows (Here toks lo) K ((look p >>= fun _ => consume >>= x) toks pos)
      ((p >>= fun _ => Loadshear.consume >>= y) toks pos) := by
  apply shadows_expect hj hp
  intro hin
  exact shadows_consume hj hin h

/-! ## Progress -/

theorem shadows_past {next : β → Nat → Except String (β × Nat)} {K : β → Nat → Except String (β × Nat) → Prop}
    {start : Nat} {x : Except Trap (Except String (Pass β β) × Nat)} {y : Except String (β × Nat)}
    (hj : Here toks lo (start + 1))
    (h : Here toks (start + 1) (start + 1) → Shadows (Here toks (start + 1)) (Continues next K) x y) :
    Shadows (Here toks lo) (ContinuesPast id start next K) x y := by
  apply (h hj.self).continuesPast
  · intro q hq
    exact ⟨Nat.le_trans hj.1 hq.1, hq.2⟩
  · intro q hq
    exact hq.1

theorem shadows_givesPast {start : Nat} {x : Except Trap (Except String β × Nat)} {y : Except String (β × Nat)}
    (hj : Here toks lo (start + 1))
    (h : Here toks (start + 1) (start + 1) → Shadows (Here toks (start + 1)) Gives x y) :
    Shadows (Here toks lo) (GivesPast id start) x y := by
  apply (h hj.self).givesPast
  · intro q hq
    exact ⟨Nat.le_trans hj.1 hq.1, hq.2⟩
  · intro q hq
    exact hq.1

end

section
variable {toks : List Token} {lo pos fuel : Nat}

theorem shadows_withFuel {β : Type} {body : β → WatchedParser (Pass β β)} (w : Nat → β → ParserM β) (b : β)
    (hf : toks.length < fuel) (hj : Here toks lo pos)
    (step : ∀ n b {q}, Here toks lo q → Shadows (Here toks lo)
      (ContinuesPast id q (fun b s => w n b toks s) Gives) (body b toks q) (w (n + 1) b toks q)) :
    Shadows (Here toks lo) Gives (loop id body fuel b toks pos) (withFuel (w · b) toks pos) := by
  apply Shadows.loop toks.length (w := fun n b s => w n b toks s) (fun _ h => h.2)
  · intro n b s hs
    exact step n b hs
  · exact hj
  · simp only [id]
    omega
  · simp only [id]
    omega

/-! ## SETTINGS -/

theorem packetsPass_shadows (n : Nat) (settings : SettingsBlock) (hj : Here toks lo pos) :
    Shadows (Here toks lo) (ContinuesPast id pos (fun b s => parsePackets n b toks s) Gives)
      (packetsPass settings toks pos) (parsePackets (n + 1) settings toks pos) := by
  rw [packetsPass, parsePackets]
  apply shadows_ifExpected
  · intro _
    exact .pure hj rfl
  · apply shadows_take hj (expectType_expects _)
    intro t₁ h₁
    apply shadows_past h₁
    intro h₁
    apply shadows_take h₁ (expectOperator_expects _)
    intro t₂ h₂
    apply shadows_take h₂ (expectType_expects _)
    intro t₃ h₃
    apply shadows_ifOperator
    · intro hp
      apply shadows_consume h₃ hp
      intro t₄ h₄
      exact .pure h₄ rfl
    · apply shadows_ifExpected
      · intro _
        exact .pure h₃ rfl
      · exact shadows_throwPeek h₃

theorem endpointsPass_shadows (n : Nat) (settings : SettingsBlock) (hj : Here toks lo pos) :
    Shadows (Here toks lo) (ContinuesPast id pos (fun b s => parseEndpoints n b toks s) Gives)
      (endpointsPass settings toks pos) (parseEndpoints (n + 1) settings toks pos) := by
  rw [endpointsPass, parseEndpoints]
  apply shadows_ifExpected
  · intro _
    exact .pure hj rfl
  · apply shadows_take hj (expectType_expects _)
    intro t₁ h₁
    apply shadows_past h₁
    intro h₁
    apply shadows_ifOperator
    · intro hp
      apply shadows_consume h₁ hp
      intro t₂ h₂
      exact .pure h₂ rfl
    · apply shadows_ifExpected
      · intro _
        exact .pure h₁ rfl
      · exact shadows_throwPeek h₁

theorem closeNested_shadows (settings : SettingsBlock) (hj : Here toks lo pos) :
    Shadows (Here toks lo) Gives (closeNested settings toks pos) (Loadshear.closeNested settings toks pos) := by
  unfold closeNested Loadshear.closeNested
  apply shadows_ifExpected
  · intro hp
    apply shadows_consume hj hp
    intro t h
    exact .pure h rfl
  · exact shadows_throwPeek hj

theorem parseField_shadows (settings : SettingsBlock) (hf : toks.length < fuel) (hj : Here toks lo pos) :
    Shadows (Here toks lo) (GivesPast id pos) (parseField fuel settings toks pos)
      (Loadshear.parseField settings toks pos) := by
  unfold parseField Loadshear.parseField
  apply shadows_take hj (expectType_expects _)
  intro keyword h₁
  apply shadows_givesPast h₁
  intro h₁
  apply shadows_ifExpected
  · intro hp
    apply shadows_consume h₁ hp
    intro t₂ h₂
    apply Shadows.ite
    · intro _
      apply (shadows_withFuel parsePackets settings hf h₂ fun n b _ hq => packetsPass_shadows n b hq).bind
      intro settings' q hq
      exact closeNested_shadows settings' hq
    · intro _
      apply Shadows.ite
      · intro _
        apply (shadows_withFuel parseEndpoints settings hf h₂ fun n b _ hq => endpointsPass_shadows n b hq).bind
        intro settings' q hq
        exact closeNested_shadows settings' hq
      · intro _
        exact shadows_throwPeek h₂
  · apply shadows_take h₁ (expectOperator_expects _)
    intro t₂ h₂
    apply shadows_take h₂ (expectType_expects _)
    intro value h₃
    exact shadows_result h₃

theorem fieldsPass_shadows (n : Nat) (settings : SettingsBlock) (hf : toks.length < fuel) (hj : Here toks lo pos) :
    Shadows (Here toks lo) (ContinuesPast id pos (fun b s => parseFields n b toks s) Gives)
      (fieldsPass fuel settings toks pos) (parseFields (n + 1) settings toks pos) := by
  rw [fieldsPass, parseFields]
  apply shadows_ifExpected
  · intro _
    exact .pure hj rfl
  · apply (parseField_shadows settings hf hj).bindPast
    intro settings' q hq hlt
    exact .pure hq ⟨hlt, rfl⟩

theorem parseSettings_shadows (settings : SettingsBlock) (hf : toks.length < fuel) (hj : Here toks lo pos)
    (hp : pos < toks.length) :
    Shadows (Here toks lo) (GivesPast id pos) (parseSettings fuel settings toks pos)
      (Loadshear.parseSettings settings toks pos) := by
  unfold parseSettings Loadshear.parseSettings
  apply shadows_consume hj hp
  intro t₁ h₁
  apply shadows_givesPast h₁
  intro h₁
  apply shadows_expect h₁ (expectType_expects _)
  intro hname
  apply shadows_peek
  apply shadows_consume h₁ hname
  intro t₂ h₂
  apply shadows_take h₂ (expectType_expects _)
  intro t₃ h₃
  apply (shadows_withFuel parseFields _ hf h₃ fun n b _ hq => fieldsPass_shadows n b hf hq).bind
  intro settings' q hq
  apply shadows_take hq (expectType_expects _)
  intro t₄ h₄
  exact .pure h₄ rfl

/-! ## ORCHESTRATOR -/

theorem tryParseRange_shadows (firstValue : Token) (keyword : String) (hj : Here toks lo pos) :
    Shadows (Here toks lo) Gives (tryParseRange firstValue keyword toks pos)
      (Loadshear.tryParseRange firstValue keyword toks pos) := by
  unfold tryParseRange Loadshear.tryParseRange
  apply shadows_take hj (expectOperator_expects _)
  intro t₁ h₁
  apply shadows_take h₁ (expectType_expects _)
  intro secondVal h₂
  apply shadows_lift h₂
  intro start
  apply shadows_lift h₂
  intro second
  exact .pure h₂ rfl

theorem parseModArguments_shadows (hj : Here toks lo pos) :
    Shadows (Here toks lo) Gives (parseModArguments toks pos) (Loadshear.parseModArguments toks pos) := by
  unfold parseModArguments Loadshear.parseModArguments
  apply shadows_take hj (expectType_expects _)
  intro firstArg h₁
  apply shadows_take h₁ (expectOperator_expects _)
  intro t₂ h₂
  apply shadows_take h₂ (expectType_expects _)
  intro secondArg h₃
  exact .pure h₃ rfl

theorem tryParseSendOption_shadows (m : ModificationType) (mods : ModList) (hj : Here toks lo pos) :
    Shadows (Here toks lo) Gives (tryParseSendOption m mods toks pos)
      (Loadshear.tryParseSendOption m mods toks pos) := by
  unfold tryParseSendOption Loadshear.tryParseSendOption
  apply shadows_take hj (expectType_expects _)
  intro firstValue h₁
  apply (tryParseRange_shadows firstValue "TIMESTAMP" h₁).bind
  intro bytes q₂ h₂
  apply (parseModArguments_shadows h₂).bind
  intro arguments q₃ h₃
  obtain ⟨firstArg, secondArg⟩ := arguments
  apply shadows_lift h₃
  intro littleEndian
  cases m with
  | Timestamp =>
    apply Shadows.ite
    · intro _
      exact .pure h₃ rfl
    · intro _
      exact .throw h₃ rfl
  | Counter =>
    apply shadows_lift h₃
    intro step
    exact .pure h₃ rfl

/-- The two branches of the loop that go on. -/
theorem sendOption_shadows (m : ModificationType) (n : Nat) (mods : ModList) (hj : Here toks lo pos)
    (hp : pos < toks.length) :
    Shadows (Here toks lo) (ContinuesPast id pos (fun b s => parseSendOptions n b toks s) Gives)
      ((consume >>= fun _ => tryParseSendOption m mods >>= fun mods => pure (.again mods)) toks pos)
      ((Loadshear.consume >>= fun _ => Loadshear.tryParseSendOption m mods >>= parseSendOptions n) toks pos) := by
  apply shadows_consume hj hp
  intro t h₁
  apply shadows_past h₁
  intro h₁
  apply (tryParseSendOption_shadows m mods h₁).bind
  intro mods' q hq
  exact .pure hq rfl

theorem sendOptionsPass_shadows (n : Nat) (mods : ModList) (hj : Here toks lo pos) :
    Shadows (Here toks lo) (ContinuesPast id pos (fun b s => parseSendOptions n b toks s) Gives)
      (sendOptionsPass mods toks pos) (parseSendOptions (n + 1) mods toks pos) := by
  rw [sendOptionsPass, parseSendOptions]
  apply shadows_peek
  rcases isExpected_run toks pos .Keyword with ⟨hr, t, ht, _⟩ | hr
  · apply shadows_look hr
    apply Shadows.ite
    · intro _
      apply Shadows.ite
      · intro _
        exact sendOption_shadows .Counter n mods hj (inside_of ht)
      · intro _
        apply Shadows.ite
        · intro _
          exact sendOption_shadows .Timestamp n mods hj (inside_of ht)
        · intro _
          exact .pure hj rfl
    · intro _
      exact .pure hj rfl
  · apply shadows_look hr
    apply Shadows.ite
    · intro h
      simp at h
    · intro _
      exact .pure hj rfl

theorem parseRanged_shadows (type : ActionType) (firstVal tAction : Token) (action : Action) (hj : Here toks lo pos) :
    Shadows (Here toks lo) Gives (parseRanged type firstVal tAction action toks pos)
      (Loadshear.parseRanged type firstVal tAction action toks pos) := by
  unfold parseRanged Loadshear.parseRanged
  apply (tryParseRange_shadows firstVal tAction.text hj).bind
  intro range q hq
  exact .pure hq rfl

theorem parseCreate_shadows (firstVal : Token) (action : Action) (hj : Here toks lo pos) :
    Shadows (Here toks lo) Gives (parseCreate firstVal action toks pos)
      (Loadshear.parseCreate firstVal action toks pos) := by
  unfold parseCreate Loadshear.parseCreate
  apply shadows_lift hj
  intro count
  exact .pure hj rfl

theorem parseOffset_shadows (hj : Here toks lo pos) :
    Shadows (Here toks lo) Gives (parseOffset toks pos) (Loadshear.parseOffset toks pos) := by
  unfold parseOffset Loadshear.parseOffset
  apply shadows_peek
  apply Shadows.ite
  · intro hoffset
    apply shadows_consume hj (inside_of_text hoffset (by decide))
    intro t h₁
    apply shadows_take h₁ (expectType_expects _)
    intro timeout h₂
    exact shadows_result h₂
  · intro _
    exact .pure hj rfl

theorem parseSend_shadows (firstVal tAction : Token) (action : Action) (hf : toks.length < fuel)
    (hj : Here toks lo pos) :
    Shadows (Here toks lo) Gives (parseSend fuel firstVal tAction action toks pos)
      (Loadshear.parseSend firstVal tAction action toks pos) := by
  unfold parseSend Loadshear.parseSend
  apply (tryParseRange_shadows firstVal tAction.text hj).bind
  intro range q h₁
  apply shadows_take h₁ (expectType_expects _)
  intro packetId h₂
  apply shadows_take h₂ expectCopies_expects
  intro t₃ h₃
  apply shadows_take h₃ (expectType_expects _)
  intro copiesValue h₄
  apply shadows_lift h₄
  intro count
  apply (shadows_withFuel parseSendOptions _ hf h₄ fun n b _ hq => sendOptionsPass_shadows n b hq).bind
  intro mods q h₅
  exact .pure h₅ rfl

theorem parseActionKind_shadows (tAction firstVal : Token) (action : Action) (hf : toks.length < fuel)
    (hj : Here toks lo pos) :
    Shadows (Here toks lo) Gives (parseActionKind fuel tAction firstVal action toks pos)
      (Loadshear.parseActionKind tAction firstVal action toks pos) := by
  unfold parseActionKind Loadshear.parseActionKind
  apply Shadows.ite
  · intro _
    exact parseSend_shadows firstVal tAction action hf hj
  intro _
  apply Shadows.ite
  · intro _
    exact parseRanged_shadows .CONNECT firstVal tAction action hj
  intro _
  apply Shadows.ite
  · intro _
    exact parseRanged_shadows .FLOOD firstVal tAction action hj
  intro _
  apply Shadows.ite
  · intro _
    exact parseRanged_shadows .DRAIN firstVal tAction action hj
  intro _
  apply Shadows.ite
  · intro _
    exact parseRanged_shadows .DISCONNECT firstVal tAction action hj
  intro _
  apply Shadows.ite
  · intro _
    exact parseCreate_shadows firstVal action hj
  · intro _
    exact shadows_throwPeek hj

theorem parseAction_shadows (memory : Memory) (hf : toks.length < fuel) (hj : Here toks lo pos) :
    Shadows (Here toks lo) (GivesPast id pos) (parseAction fuel memory toks pos)
      (Loadshear.parseAction memory toks pos) := by
  unfold parseAction Loadshear.parseAction
  apply shadows_take hj (expectType_expects _)
  intro tAction h₁
  apply shadows_givesPast h₁
  intro h₁
  have hwatched : (getThe Nat : WatchedParser Nat) toks (pos + 1) = .ok (.ok (pos + 1), pos + 1) := rfl
  have hplain : (getThe Nat : ParserM Nat) toks (pos + 1) = .ok (pos + 1, pos + 1) := rfl
  rw [bind_ok hwatched, plain_ok hplain]
  apply shadows_take h₁ (expectType_expects _)
  intro firstVal h₂
  apply (parseActionKind_shadows tAction firstVal _ hf h₂).bind
  intro action q h₃
  apply (parseOffset_shadows h₃).bind
  intro offsetMs q h₄
  exact .pure h₄ rfl

theorem actionsPass_shadows (memory : Memory) (n : Nat) (orchestrator : OrchestratorBlock) (hf : toks.length < fuel)
    (hj : Here toks lo pos) :
    Shadows (Here toks lo) (ContinuesPast id pos (fun b s => parseActions memory n b toks s) Gives)
      (actionsPass fuel memory orchestrator toks pos) (parseActions memory (n + 1) orchestrator toks pos) := by
  rw [actionsPass, parseActions]
  apply shadows_ifExpected
  · intro _
    exact .pure hj rfl
  · apply (parseAction_shadows memory hf hj).bindPast
    intro action q hq hlt
    exact .pure hq ⟨hlt, rfl⟩

theorem parseOrchestrator_shadows (memory : Memory) (orchestrator : OrchestratorBlock) (hf : toks.length < fuel)
    (hj : Here toks lo pos) (hp : pos < toks.length) :
    Shadows (Here toks lo) (GivesPast id pos) (parseOrchestrator fuel memory orchestrator toks pos)
      (Loadshear.parseOrchestrator memory orchestrator toks pos) := by
  unfold parseOrchestrator Loadshear.parseOrchestrator
  apply shadows_consume hj hp
  intro t₁ h₁
  apply shadows_givesPast h₁
  intro h₁
  apply shadows_take h₁ (expectType_expects _)
  intro name h₂
  apply shadows_take h₂ (expectType_expects _)
  intro t₃ h₃
  apply (shadows_withFuel (parseActions memory) _ hf h₃ fun n b _ hq => actionsPass_shadows memory n b hf hq).bind
  intro orchestrator' q h₄
  apply shadows_take h₄ (expectType_expects _)
  intro t₅ h₅
  exact .pure h₅ rfl

/-! ## Top level -/

theorem blocksPass_shadows (memory : Memory) (n : Nat) (script : DSLData) (hf : toks.length < fuel)
    (hj : Here toks lo pos) :
    Shadows (Here toks lo) (ContinuesPast id pos (fun b s => parseBlocks memory n b toks s) Gives)
      (blocksPass fuel memory script toks pos) (parseBlocks memory (n + 1) script toks pos) := by
  rw [blocksPass, parseBlocks]
  have hend : endOfTokens toks pos = .ok (decide (toks.length ≤ pos), pos) := rfl
  apply shadows_look hend
  by_cases hp : toks.length ≤ pos
  · rw [decide_eq_true hp]
    exact .pure hj rfl
  · rw [decide_eq_false hp]
    have hin : pos < toks.length := Nat.lt_of_not_le hp
    apply shadows_peek
    apply Shadows.ite
    · intro _
      apply (parseSettings_shadows script.settings hf hj hin).bindPast
      intro settings q hq hlt
      exact .pure hq ⟨hlt, rfl⟩
    · intro _
      apply Shadows.ite
      · intro _
        apply (parseOrchestrator_shadows memory script.orchestrator hf hj hin).bindPast
        intro orchestrator q hq hlt
        exact .pure hq ⟨hlt, rfl⟩
      · intro _
        exact .throw hj rfl

/-- With fuel for the tokens the watched parser does not trap, and returns what
the plain one does. -/
theorem parse_run (memory : Memory) (hf : toks.length < fuel) :
    ∃ pos, parse fuel memory toks = .ok (Loadshear.parse memory toks, pos) ∧ pos ≤ toks.length := by
  have hrun : Shadows (Here toks 0) Gives (parse fuel memory toks)
      (withFuel (parseBlocks memory · memory.toScript) toks 0) :=
    shadows_withFuel (parseBlocks memory) memory.toScript hf ⟨Nat.le_refl _, Nat.zero_le _⟩
      fun n b _ hq => blocksPass_shadows memory n b hf hq
  unfold Loadshear.parse
  generalize parse fuel memory toks = o at hrun ⊢
  generalize withFuel (parseBlocks memory · memory.toScript) toks 0 = y at hrun ⊢
  cases hrun with
  | @done script pos _ hj hk =>
    subst hk
    exact ⟨pos, rfl, hj.2⟩
  | @failed e pos hj => exact ⟨pos, rfl, hj.2⟩

end

end Loadshear.CheckedParser
