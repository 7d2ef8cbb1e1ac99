import Wasm.Value

/-! Binary floating-point formats: what the bits of a float stand for, and the float nearest to a quotient.
    Everything here is exact arithmetic on natural numbers. -/

namespace Wasm

/-- A binary floating-point format: a sign bit, then the exponent, then the fraction. -/
structure FloatFormat where
  fractionBits : Nat
  exponentBits : Nat
deriving DecidableEq, Repr

def FloatFormat.single : FloatFormat := ⟨23, 8⟩
def FloatFormat.double : FloatFormat := ⟨52, 11⟩

/-- The format of the floats of a width. -/
def Width.format : Width → FloatFormat
  | w32 => .single
  | w64 => .double

/-- What the bits of a float stand for; a finite one is `± significand · 2 ^ scale`. -/
inductive FloatClass
  | nan
  | infinite (negative : Bool)
  | finite (negative : Bool) (significand : Nat) (scale : Int)
deriving DecidableEq, Repr

/-- Which of its two neighbours among the integers stands for a number. -/
inductive IntegralRounding
  | up
  | down
  | towardZero
  | nearestEven
deriving DecidableEq, Repr

/-- The quotient `n / d`, rounded half to even. -/
def roundHalfEven (n d : Nat) : Nat :=
  let q := n / d
  let r := n % d
  if d < 2 * r ∨ (d = 2 * r ∧ q % 2 = 1) then q + 1 else q

/-- The magnitude of `± n / d` after rounding to an integer. -/
def IntegralRounding.magnitude (negative : Bool) (n d : Nat) : IntegralRounding → Nat
  | up => if negative ∨ n % d = 0 then n / d else n / d + 1
  | down => if ¬negative ∨ n % d = 0 then n / d else n / d + 1
  | towardZero => n / d
  | nearestEven => roundHalfEven n d

namespace FloatFormat
variable (f : FloatFormat)

/-- The bits of a format without the sign. -/
def signPosition : Nat := f.fractionBits + f.exponentBits

/-- The scale of the least positive float. -/
def minScale : Int := 2 - (1 <<< (f.exponentBits - 1) : Nat) - f.fractionBits

/-- The bits of positive infinity. -/
def infinity : Nat := (1 <<< f.exponentBits - 1) <<< f.fractionBits

/-- The top bit of the fraction, which tells a quiet NaN. -/
def quietBit : Nat := 1 <<< (f.fractionBits - 1)

/-- The bits of the quiet NaN that carries no payload. -/
def canonicalNan : Nat := f.infinity + f.quietBit

def isNegative (bits : Nat) : Bool := bits.testBit f.signPosition

/-- The bits without the sign. -/
def magnitude (bits : Nat) : Nat := bits % 1 <<< f.signPosition

/-- The given magnitude, with a sign. -/
def withSign (negative : Bool) (magnitude : Nat) : Nat :=
  if negative then magnitude + 1 <<< f.signPosition else magnitude

def isNan (bits : Nat) : Bool := f.infinity < f.magnitude bits

/-- The NaN made quiet. -/
def quiet (bits : Nat) : Nat := bits ||| f.quietBit

def classify (bits : Nat) : FloatClass :=
  let magnitude := f.magnitude bits
  let biased := magnitude >>> f.fractionBits
  let fraction := magnitude % 1 <<< f.fractionBits
  if f.infinity < magnitude then .nan
  else if f.infinity = magnitude then .infinite (f.isNegative bits)
  else if biased = 0 then .finite (f.isNegative bits) fraction f.minScale
  else .finite (f.isNegative bits) (1 <<< f.fractionBits + fraction) (f.minScale + biased - 1)

/-- The greatest `e` with `2 ^ e ≤ n / d`. -/
def log2Quotient (n d : Nat) : Int :=
  let e : Int := n.log2 - d.log2
  if d <<< e.toNat ≤ n <<< (-e).toNat then e else e - 1

/-- The float nearest to `± n / d`, the even one of two; too large a quotient gives an infinity. -/
def nearest (negative : Bool) (n d : Nat) : Nat :=
  if n = 0 then f.withSign negative 0
  else
    let scale := max f.minScale (log2Quotient n d - f.fractionBits)
    let q := roundHalfEven (n <<< (-scale).toNat) (d <<< scale.toNat)
    f.withSign negative (min f.infinity ((scale - f.minScale).toNat <<< f.fractionBits + q))

/-- The float nearest to `± significand · 2 ^ scale`. -/
def nearestScaled (negative : Bool) (significand : Nat) (scale : Int) : Nat :=
  f.nearest negative (significand <<< scale.toNat) (1 <<< (-scale).toNat)

/-- The float nearest to an integer. -/
def ofInt (i : Int) : Nat := f.nearest (i < 0) i.natAbs 1

/-- The float rounded to an integer; a zero keeps the sign. -/
def toIntegral (mode : IntegralRounding) (bits : Nat) : Nat :=
  match f.classify bits with
  | .nan => f.quiet bits
  | .infinite _ => bits
  | .finite negative significand scale =>
    if 0 ≤ scale then bits
    else f.nearest negative (mode.magnitude negative significand (1 <<< (-scale).toNat)) 1

/-- The same number in another format, rounded if it has to be; a NaN keeps the high bits of its payload. -/
def convert (target : FloatFormat) (bits : Nat) : Nat :=
  match f.classify bits with
  | .nan =>
    let payload := (bits % 1 <<< f.fractionBits) <<< target.fractionBits >>> f.fractionBits
    target.quiet (target.withSign (f.isNegative bits) (target.infinity + payload))
  | .infinite negative => target.withSign negative target.infinity
  | .finite negative significand scale => target.nearestScaled negative significand scale

end FloatFormat

/-- The integer part of a finite float. -/
def FloatClass.truncated (negative : Bool) (significand : Nat) (scale : Int) : Int :=
  let magnitude := significand <<< scale.toNat >>> (-scale).toNat
  if negative then -magnitude else magnitude

end Wasm
