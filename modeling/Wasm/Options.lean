import Wasm.Text.Numeral

/-! The settings of a run. -/

namespace Wasm

structure Options where
  /-- The activations that there may be at once. -/
  maxCallDepth : Nat := 1024
  /-- Skips a function's call of itself that repeats its own arguments, when nothing has changed since. -/
  recursionGuard : Bool := true
  /-- Stops a branch back to a loop that would enter it in the state it was entered in before. The whole frame
      counts, so a loop that changes a local goes on. -/
  loopGuard : Bool := true
deriving DecidableEq, Repr, Inhabited

namespace Options

/-- A limit that a setting gives: a number of 64 bits. -/
def limit? (s : String) : Option Nat :=
  match Numeral.parse 10 0 18446744073709551615 (trimBlanks s.toList) with
  | .ok n => some n.toNat
  | .error _ => none

/-- The truth value that a setting gives. -/
def flag? (s : String) : Option Bool :=
  let word := String.ofList ((trimBlanks s.toList).map Char.toLower)
  if word ∈ ["1", "true", "yes", "on"] then some true
  else if word ∈ ["0", "false", "no", "off"] then some false
  else none

/-- The default settings, with those that the environment sets to something legible. -/
def ofEnvironment (lookup : String → Option String) : Options :=
  let standard : Options := {}
  { maxCallDepth := ((lookup "STACKWASM_CALL_DEPTH_LIMIT").bind limit?).getD standard.maxCallDepth
    recursionGuard := ((lookup "STACKWASM_RECURSION_GUARD").bind flag?).getD standard.recursionGuard
    loopGuard := ((lookup "STACKWASM_LOOP_GUARD").bind flag?).getD standard.loopGuard }

end Options
end Wasm
