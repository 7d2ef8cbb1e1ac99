import Wasm.Types
import Wasm.Binary.ReadError

/-! Why a run stops before its end. -/

namespace Wasm

/-- What an access can fall outside of. -/
inductive Region
  | memory
  | dataSegment
  | stack
deriving DecidableEq, Repr

def Region.text : Region → String
  | memory => "memory"
  | dataSegment => "data segment"
  | stack => "stack"

/-- Why a run stops before its end. -/
inductive Trap
  | unsupportedOpcode (code : Nat)
  | outOfBounds (region : Region) (index : Nat)
  | divideByZero
  | integerOverflow
  | invalidConversion
  | stackUnderflow
  | typeMismatch (expected found : ValType)
  | constantGlobal (index : Nat)
  | unreachable
  | unknownFunction (index : Nat)
  | unknownGlobal (index : Nat)
  | unknownLocal (index : Nat)
  | missingMemory (index : Nat)
  | missingBody (index : Nat)
  | unboundImport (moduleName name : String)
  | argumentCount (expected found : Nat)
  | callStackExhausted (limit : Nat)
  | unbalancedBlock (offset : Nat)
  | branchDepth (depth : Nat)
  | host (text : String)
  | binary (e : ReadError)
deriving DecidableEq, Repr

/-- A number in hexadecimal, with two digits at least. -/
def hexText (n : Nat) : String :=
  let digits := Nat.toDigits 16 n
  "0x" ++ String.ofList (if digits.length < 2 then '0' :: digits else digits)

namespace Trap

def message : Trap → String
  | unsupportedOpcode code => s!"unsupported opcode {hexText code}"
  | outOfBounds region index => s!"{region.text} access out of bounds at index {index}"
  | divideByZero => "integer divide by zero"
  | integerOverflow => "integer overflow"
  | invalidConversion => "invalid conversion to integer"
  | stackUnderflow => "operand stack underflow"
  | typeMismatch expected found => s!"type mismatch: expected {expected.text}, found {found.text}"
  | constantGlobal index => s!"global {index} is constant"
  | unreachable => "unreachable executed"
  | unknownFunction index => s!"unknown function {index}"
  | unknownGlobal index => s!"unknown global {index}"
  | unknownLocal index => s!"unknown local {index}"
  | missingMemory index => s!"memory {index} is not defined"
  | missingBody index => s!"function {index} has no body"
  | unboundImport moduleName name => s!"unbound import {moduleName}.{name}"
  | argumentCount expected found => s!"expected {expected} arguments, found {found}"
  | callStackExhausted limit => s!"call stack exhausted (limit {limit})"
  | unbalancedBlock offset => s!"unbalanced block structure at offset {offset}"
  | branchDepth depth => s!"branch depth {depth} exceeds enclosing blocks"
  | host text => s!"host function failed: {text}"
  | binary e => e.message

/-- Traps that tell of the code itself, whatever values it runs on. -/
def isStructural : Trap → Bool
  | unsupportedOpcode _ => true
  | unbalancedBlock _ => true
  | binary _ => true
  | _ => false

end Trap
end Wasm
