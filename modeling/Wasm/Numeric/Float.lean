import Wasm.Numeric.Integer
import Wasm.Numeric.FloatFormat

/-! Float instructions, on the bits of floats. What only moves or tests the sign is done on the bits, as is all
    rounding to integers; sums, products, quotients and roots are those of the machine. -/

namespace Wasm

/-- Float instructions of one operand. -/
inductive FloatUnary
  | abs
  | neg
  | ceil
  | floor
  | trunc
  | nearest
  | sqrt
deriving DecidableEq, Repr

/-- Float instructions of two operands. -/
inductive FloatBinary
  | add
  | sub
  | mul
  | div
  | min
  | max
  | copysign
deriving DecidableEq, Repr

/-- Comparisons of floats. -/
inductive FloatCompare
  | eq
  | ne
  | lt
  | gt
  | le
  | ge
deriving DecidableEq, Repr

/-- The bits of floats of one width, with the arithmetic of the machine on them. -/
structure FloatArithmetic (n : Nat) where
  format : FloatFormat
  add : BitVec n → BitVec n → BitVec n
  sub : BitVec n → BitVec n → BitVec n
  mul : BitVec n → BitVec n → BitVec n
  div : BitVec n → BitVec n → BitVec n
  sqrt : BitVec n → BitVec n
  eq : BitVec n → BitVec n → Bool
  lt : BitVec n → BitVec n → Bool
  le : BitVec n → BitVec n → Bool

namespace FloatArithmetic

private def single32 (bits : BitVec 32) : Float32 := .ofBits (.ofBitVec bits)
private def double64 (bits : BitVec 64) : Float := .ofBits (.ofBitVec bits)

def single : FloatArithmetic 32 where
  format := .single
  add a b := (single32 a + single32 b).toBits.toBitVec
  sub a b := (single32 a - single32 b).toBits.toBitVec
  mul a b := (single32 a * single32 b).toBits.toBitVec
  div a b := (single32 a / single32 b).toBits.toBitVec
  sqrt a := (single32 a).sqrt.toBits.toBitVec
  eq a b := single32 a == single32 b
  lt a b := single32 a < single32 b
  le a b := single32 a ≤ single32 b

def double : FloatArithmetic 64 where
  format := .double
  add a b := (double64 a + double64 b).toBits.toBitVec
  sub a b := (double64 a - double64 b).toBits.toBitVec
  mul a b := (double64 a * double64 b).toBits.toBitVec
  div a b := (double64 a / double64 b).toBits.toBitVec
  sqrt a := (double64 a).sqrt.toBits.toBitVec
  eq a b := double64 a == double64 b
  lt a b := double64 a < double64 b
  le a b := double64 a ≤ double64 b

/-- The arithmetic of a width. -/
def ofWidth : (w : Width) → FloatArithmetic w.bits
  | .w32 => single
  | .w64 => double

variable {n : Nat} (m : FloatArithmetic n)

/-- The bits with another sign. -/
def setSign (negative : Bool) (a : BitVec n) : BitVec n :=
  .ofNat n (m.format.withSign negative (m.format.magnitude a.toNat))

def isNegative (a : BitVec n) : Bool := m.format.isNegative a.toNat

def isNan (a : BitVec n) : Bool := m.format.isNan a.toNat

/-- The float rounded to an integer. -/
def toIntegral (mode : IntegralRounding) (a : BitVec n) : BitVec n :=
  .ofNat n (m.format.toIntegral mode a.toNat)

/-- The lesser operand; the negative one of two zeros, and a NaN if either is one. -/
def min (a b : BitVec n) : BitVec n :=
  if m.isNan a || m.isNan b then .ofNat n m.format.canonicalNan
  else if m.eq a b then if m.isNegative a then a else b
  else if m.lt a b then a else b

/-- The greater operand; the positive one of two zeros, and a NaN if either is one. -/
def max (a b : BitVec n) : BitVec n :=
  if m.isNan a || m.isNan b then .ofNat n m.format.canonicalNan
  else if m.eq a b then if m.isNegative a then b else a
  else if m.lt a b then b else a

end FloatArithmetic

variable {n : Nat}

def FloatUnary.apply (m : FloatArithmetic n) (a : BitVec n) : FloatUnary → BitVec n
  | abs => m.setSign false a
  | neg => m.setSign (!m.isNegative a) a
  | ceil => m.toIntegral .up a
  | floor => m.toIntegral .down a
  | trunc => m.toIntegral .towardZero a
  | nearest => m.toIntegral .nearestEven a
  | sqrt => m.sqrt a

def FloatBinary.apply (m : FloatArithmetic n) (a b : BitVec n) : FloatBinary → BitVec n
  | add => m.add a b
  | sub => m.sub a b
  | mul => m.mul a b
  | div => m.div a b
  | min => m.min a b
  | max => m.max a b
  | copysign => m.setSign (m.isNegative b) a

def FloatCompare.apply (m : FloatArithmetic n) (a b : BitVec n) : FloatCompare → Bool
  | eq => m.eq a b
  | ne => !m.eq a b
  | lt => m.lt a b
  | gt => m.lt b a
  | le => m.le a b
  | ge => m.le b a

/-! ### Floats and integers -/

namespace FloatClass

/-- The integer part of a float as an integer of `n` bits, if it fits. -/
def truncate (n : Nat) (sign : Signedness) : FloatClass → Except Trap (BitVec n)
  | nan => .error .invalidConversion
  | infinite _ => .error .integerOverflow
  | finite negative significand scale =>
    let i := truncated negative significand scale
    if sign.least n ≤ i ∧ i ≤ sign.greatest n then .ok (.ofInt n i) else .error .integerOverflow

/-- The integer of `n` bits that is closest to the integer part of a float; zero for a NaN. -/
def saturate (n : Nat) (sign : Signedness) : FloatClass → BitVec n
  | nan => 0
  | infinite negative => .ofInt n (if negative then sign.least n else sign.greatest n)
  | finite negative significand scale =>
    .ofInt n (max (sign.least n) (min (sign.greatest n) (truncated negative significand scale)))

end FloatClass
end Wasm
