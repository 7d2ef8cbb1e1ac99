import Wasm.Value
import Wasm.Trap

/-! Integer instructions, on words of any width `n`. Counts of shifts and rotations are taken modulo `n`. -/

namespace Wasm

/-- Integer instructions of one operand. -/
inductive IntUnary
  | clz
  | ctz
  | popcnt
  | extend8
  | extend16
  | extend32
deriving DecidableEq, Repr

/-- Integer instructions of two operands. -/
inductive IntBinary
  | add
  | sub
  | mul
  | divS
  | divU
  | remS
  | remU
  | and
  | or
  | xor
  | shl
  | shrS
  | shrU
  | rotl
  | rotr
deriving DecidableEq, Repr

/-- Comparisons of integers. -/
inductive IntCompare
  | eq
  | ne
  | ltS
  | ltU
  | gtS
  | gtU
  | leS
  | leU
  | geS
  | geU
deriving DecidableEq, Repr

/-- Whether the bits of an integer are read with a sign. -/
inductive Signedness
  | signed
  | unsigned
deriving DecidableEq, Repr

namespace Signedness

/-- The integer that some bits stand for. -/
def toInt {n : Nat} (v : BitVec n) : Signedness → Int
  | signed => v.toInt
  | unsigned => v.toNat

/-- The least integer of `n` bits. -/
def least (n : Nat) : Signedness → Int
  | signed => -(1 <<< (n - 1) : Nat)
  | unsigned => 0

/-- The greatest integer of `n` bits. -/
def greatest (n : Nat) : Signedness → Int
  | signed => (1 <<< (n - 1) : Nat) - 1
  | unsigned => (1 <<< n : Nat) - 1

end Signedness

variable {n : Nat}

def IntUnary.apply (v : BitVec n) : IntUnary → BitVec n
  | clz => v.clz
  | ctz => v.ctz
  | popcnt => v.cpop
  | extend8 => (v.setWidth 8).signExtend n
  | extend16 => (v.setWidth 16).signExtend n
  | extend32 => (v.setWidth 32).signExtend n

/-- Signed division toward zero; the quotient of the least number by -1 does not fit. -/
def signedQuotient (a b : BitVec n) : Except Trap (BitVec n) :=
  if b = 0 then .error .divideByZero
  else if a = BitVec.intMin n ∧ b = -1 then .error .integerOverflow
  else .ok (a.sdiv b)

/-- The given result, unless the divisor is zero. -/
def unlessZero (b result : BitVec n) : Except Trap (BitVec n) :=
  if b = 0 then .error .divideByZero else .ok result

def IntBinary.apply (a b : BitVec n) : IntBinary → Except Trap (BitVec n)
  | add => .ok (a + b)
  | sub => .ok (a - b)
  | mul => .ok (a * b)
  | divS => signedQuotient a b
  | divU => unlessZero b (a / b)
  | remS => unlessZero b (a.srem b)
  | remU => unlessZero b (a % b)
  | and => .ok (a &&& b)
  | or => .ok (a ||| b)
  | xor => .ok (a ^^^ b)
  | shl => .ok (a <<< (b.toNat % n))
  | shrS => .ok (a.sshiftRight (b.toNat % n))
  | shrU => .ok (a >>> (b.toNat % n))
  | rotl => .ok (a.rotateLeft (b.toNat % n))
  | rotr => .ok (a.rotateRight (b.toNat % n))

def IntCompare.apply (a b : BitVec n) : IntCompare → Bool
  | eq => a == b
  | ne => a != b
  | ltS => a.slt b
  | ltU => a.ult b
  | gtS => b.slt a
  | gtU => b.ult a
  | leS => a.sle b
  | leU => a.ule b
  | geS => b.sle a
  | geU => b.ule a

end Wasm
