import Wasm.Text.Numeral
import Wasm.Module.Failure
import Wasm.CommandLine.Report

/-! Arguments on the command line: texts that are read as values of the types that a function takes. -/

namespace Wasm

/-- Why the arguments of a call are not right. -/
inductive ArgumentError
  | count (signature : FuncType) (found : Nat)
  | notInt (text : String) (w : Width) (why : NumeralError)
  | outOfRange (text : String) (w : Width)
  | notFloat (text : String) (w : Width) (why : FloatFormat.SyntaxError)
deriving DecidableEq, Repr

def ArgumentError.report : ArgumentError → Report
  | count signature found =>
    { message := s!"expected {signature.params.length} argument(s) for {signature.text}, got {found}" }
  | notInt text w why => ⟨s!"{backquoted text} is not an {w.int.text}", [why.message]⟩
  | outOfRange text w => { message := s!"{backquoted text} is out of range for {w.int.text}" }
  | notFloat text w why => ⟨s!"{backquoted text} is not an {w.float.text}", [why.message]⟩

namespace Argument

/-- The integers that a numeral may stand for before its range is looked at. -/
def widest : Int × Int := (-(1 <<< 127 : Nat), (1 <<< 127 : Nat) - 1)

/-- The integer that a text stands for: a numeral, to the radix 16 after `0x`, with a minus sign before it. The
    numeral may have a sign of its own. -/
def integer (cs : List Char) : Except NumeralError Int :=
  let magnitude : List Char → Except NumeralError Int
    | '0' :: 'x' :: hex => Numeral.parse 16 widest.1 widest.2 hex
    | '0' :: 'X' :: hex => Numeral.parse 16 widest.1 widest.2 hex
    | digits => Numeral.parse 10 widest.1 widest.2 digits
  match cs with
  | '-' :: rest => (fun i => -i) <$> magnitude rest
  | _ => magnitude cs

/-- The integer of a width that a text stands for. An integer without sign stands for the one with the same bits. -/
def parseInt (w : Width) (cs : List Char) : Except ArgumentError (BitVec w.bits) :=
  match integer cs with
  | .error why => .error (.notInt (String.ofList cs) w why)
  | .ok i =>
    if -(1 <<< (w.bits - 1) : Nat) ≤ i ∧ i < (1 <<< w.bits : Nat) then .ok (.ofInt w.bits i)
    else .error (.outOfRange (String.ofList cs) w)

/-- The float of a width that a text stands for. -/
def parseFloat (w : Width) (cs : List Char) : Except ArgumentError (BitVec w.bits) :=
  match w.format.ofText (String.ofList cs) with
  | .error why => .error (.notFloat (String.ofList cs) w why)
  | .ok bits => .ok (.ofNat w.bits bits)

/-- The value of a type that a text stands for. White space around it does not count. -/
def parse (t : ValType) (s : String) : Except ArgumentError Value :=
  let cs := trimBlanks s.toList
  match t with
  | .i32 => Value.int .w32 <$> parseInt .w32 cs
  | .i64 => Value.int .w64 <$> parseInt .w64 cs
  | .f32 => Value.float .w32 <$> parseFloat .w32 cs
  | .f64 => Value.float .w64 <$> parseFloat .w64 cs

/-- The arguments of a function. -/
def parseAll (signature : FuncType) (texts : List String) : Except ArgumentError (List Value) :=
  if texts.length ≠ signature.params.length then .error (.count signature texts.length)
  else (signature.params.zip texts).mapM fun (t, s) => parse t s

end Argument
end Wasm
