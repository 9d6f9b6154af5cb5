import Mathlib.Data.UInt

/-!
# Diagnostics

`ParseResult` is `Except String`: `good_parse()` is `.ok` and
`arbitrary_error(reason)` is `.error reason`. The reasons are the ones of the
source, palette escapes included (`diagnostic-colors.cpp`).
-/

namespace Loadshear

inductive PrintStyle where
  | Error
  | Expected
  | Keyword
  | Context
  | BadField
  | BadValue
  | Reference
  | Limits

def ansiReset : String := "\x1b[0m"

def PrintStyle.palette : PrintStyle → String
  | .Error => "\x1b[31m"
  | .Expected => "\x1b[32m"
  | .Keyword => "\x1b[1m"
  | .Context => "\x1b[95m"
  | .BadField => "\x1b[4;31m"
  | .BadValue => "\x1b[91m"
  | .Reference => "\x1b[36m"
  | .Limits => "\x1b[33m"

def applyPalette (input palette : String) : String := palette ++ input ++ ansiReset

def styledString (input : String) (style : PrintStyle) : String := applyPalette input style.palette

/-- `s.ends_with(suffix)`. -/
def endsWith (s suffix : String) : Bool := suffix.toList.isSuffixOf s.toList

abbrev ParseResult (α : Type) := Except String α

instance decidableEqExcept {ε α : Type} [DecidableEq ε] [DecidableEq α] : DecidableEq (Except ε α)
  | .error e, .error e' => decidable_of_iff (e = e') ⟨congrArg Except.error, Except.error.inj⟩
  | .ok a, .ok a' => decidable_of_iff (a = a') ⟨congrArg Except.ok, Except.ok.inj⟩
  | .error _, .ok _ => isFalse nofun
  | .ok _, .error _ => isFalse nofun

theorem bind_eq_ok {α β : Type} {x : ParseResult α} {f : α → ParseResult β} {b : β}
    (h : x >>= f = .ok b) : ∃ a, x = .ok a ∧ f a = .ok b := by
  cases x with
  | error e => cases h
  | ok a => exact ⟨a, rfl, h⟩

end Loadshear
