import Wasm.Instr.Opcode
import Wasm.Store.Stack

/-! What the instructions on numbers do to the stack. The right operand is on top. -/

namespace Wasm.Numeric

/-- The float nearest to an integer. -/
def converted (target source : Width) (sign : Signedness) (v : BitVec source.bits) : BitVec target.bits :=
  .ofNat target.bits (target.format.ofInt (sign.toInt v))

/-- A float in the format of another width. -/
def resized (target source : Width) (bits : BitVec source.bits) : BitVec target.bits :=
  .ofNat target.bits (source.format.convert target.format bits.toNat)

def exec : Numeric → Stack.Op Unit
  | eqz w => do
    let v ← Stack.popInt w
    Stack.push (.ofBool (v == 0))
  | intUnary w op => do
    let v ← Stack.popInt w
    Stack.push (.int w (op.apply v))
  | intBinary w op => do
    let b ← Stack.popInt w
    let a ← Stack.popInt w
    Stack.push (.int w (← ofExcept (op.apply a b)))
  | intCompare w op => do
    let b ← Stack.popInt w
    let a ← Stack.popInt w
    Stack.push (.ofBool (op.apply a b))
  | floatUnary w op => do
    let v ← Stack.popFloat w
    Stack.push (.float w (op.apply (.ofWidth w) v))
  | floatBinary w op => do
    let b ← Stack.popFloat w
    let a ← Stack.popFloat w
    Stack.push (.float w (op.apply (.ofWidth w) a b))
  | floatCompare w op => do
    let b ← Stack.popFloat w
    let a ← Stack.popFloat w
    Stack.push (.ofBool (op.apply (.ofWidth w) a b))
  | wrap => do
    let v ← Stack.popInt .w64
    Stack.push (.i32 (v.setWidth 32))
  | extend sign => do
    let v ← Stack.popInt .w32
    Stack.push (.i64 (.ofInt 64 (sign.toInt v)))
  | truncate target source sign => do
    let bits ← Stack.popFloat source
    Stack.push (.int target (← ofExcept ((source.format.classify bits.toNat).truncate target.bits sign)))
  | truncateSat target source sign => do
    let bits ← Stack.popFloat source
    Stack.push (.int target ((source.format.classify bits.toNat).saturate target.bits sign))
  | convert target source sign => do
    let v ← Stack.popInt source
    Stack.push (.float target (converted target source sign v))
  | demote => do
    let bits ← Stack.popFloat .w64
    Stack.push (.float .w32 (resized .w32 .w64 bits))
  | promote => do
    let bits ← Stack.popFloat .w32
    Stack.push (.float .w64 (resized .w64 .w32 bits))
  | toBits w => do
    let bits ← Stack.popFloat w
    Stack.push (.int w bits)
  | ofBits w => do
    let v ← Stack.popInt w
    Stack.push (.float w v)

end Wasm.Numeric
