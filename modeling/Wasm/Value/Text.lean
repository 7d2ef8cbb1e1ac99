import Wasm.Numeric.FloatFormat

/-! The text of values. Written, a finite float has the fewest digits that read back as the same float, in positional
    notation. Read, a decimal gives the nearest float. -/

namespace Wasm

/-- The number `digits · 10 ^ exponent`. -/
structure Decimal where
  digits : Nat
  exponent : Int
deriving DecidableEq, Repr

namespace Decimal

/-- A power of ten with a natural exponent; one for a negative exponent. -/
def tenTo (e : Int) : Nat := Nat.pow 10 e.toNat

/-! ### Fewest digits -/

/-- Of the multiples of `unit`, the one nearest to `value` among its two neighbours that lie between `low` and
    `high`; the greater of two equally near. The bounds count as between if `closed`. -/
def neighbour? (low value high : Nat) (closed : Bool) (unit : Nat) : Option Nat :=
  let inside (n : Nat) : Bool := if closed then low ≤ n && n ≤ high else low < n && n < high
  let q := value / unit
  match inside (q * unit), inside ((q + 1) * unit) with
  | true, true => some (if unit ≤ 2 * (value % unit) then q + 1 else q)
  | true, false => some q
  | false, true => some (q + 1)
  | false, false => none

/-- Tries one digit after another, `more` at most, from the place `10 ^ place` on. The numbers `low`, `value` and
    `high` are in units of `2 ^ scale`. -/
def shortestFrom (low value high : Nat) (closed : Bool) (scale : Int) : (more : Nat) → (place : Int) → Decimal
  | 0, place => ⟨value <<< scale.toNat * tenTo (-place) / (tenTo place <<< (-scale).toNat), place⟩
  | more + 1, place =>
    let up := tenTo (-place) <<< scale.toNat
    match neighbour? (low * up) (value * up) (high * up) closed (tenTo place <<< (-scale).toNat) with
    | some q => ⟨q, place⟩
    | none => shortestFrom low value high closed scale more (place - 1)

/-- The greatest `e` with `10 ^ e ≤ n / d`, found downwards from `e`. -/
def log10From (n d : Nat) : (more : Nat) → (e : Int) → Int
  | 0, e => e
  | more + 1, e => if d * tenTo e ≤ n * tenTo (-e) then e else log10From n d more (e - 1)

/-- The greatest `e` with `10 ^ e ≤ n / d`. The binary logarithm gives a start at most a few too high. -/
def log10 (n d : Nat) : Int :=
  let start := FloatFormat.log2Quotient n d * 30103 / 100000 + 1
  log10From n d 4 start

/-- The decimal with the fewest digits that lies nearer to `significand · 2 ^ scale` than to the next floats of the
    format, and of those the nearest. -/
def shortest (f : FloatFormat) (significand : Nat) (scale : Int) : Decimal :=
  let below := if significand = 1 <<< f.fractionBits ∧ f.minScale < scale then 1 else 2
  let place := log10 (significand <<< scale.toNat) (1 <<< (-scale).toNat)
  shortestFrom (4 * significand - below) (4 * significand) (4 * significand + 2) (significand % 2 = 0)
    (scale - 2) 17 place

/-! ### Positional notation -/

/-- The digits in positional notation, with no point if no digit other than zero follows it. -/
def positional (x : Decimal) : String :=
  let cs := Nat.toDigits 10 x.digits
  if 0 ≤ x.exponent then String.ofList (cs ++ List.replicate x.exponent.toNat '0')
  else
    let places := (-x.exponent).toNat
    let padded := List.replicate (places + 1 - cs.length) '0' ++ cs
    let fraction := ((padded.drop (padded.length - places)).reverse.dropWhile (· = '0')).reverse
    let whole := padded.take (padded.length - places)
    String.ofList (if fraction = [] then whole else whole ++ '.' :: fraction)

/-! ### Reading -/

/-- The number that some digits spell. -/
def ofDigits (cs : List Char) : Nat := cs.foldl (fun n c => 10 * n + (c.toNat - '0'.toNat)) 0

/-- Exponents are not read beyond this. -/
def exponentBound : Nat := 65536

/-- The number that the digits of an exponent spell, as far as it is read. -/
def ofExponentDigits (cs : List Char) : Nat :=
  cs.foldl (fun n c => if n < exponentBound then 10 * n + (c.toNat - '0'.toNat) else n) 0

/-- The exponent of a decimal in scientific notation, which may be missing. -/
def exponent? : List Char → Option Int
  | [] => some 0
  | e :: cs =>
    let (negative, ds) := match cs with
      | '-' :: r => (true, r)
      | '+' :: r => (false, r)
      | r => (false, r)
    if (e = 'e' ∨ e = 'E') ∧ ds ≠ [] ∧ ds.all Char.isDigit then
      some (if negative then -(ofExponentDigits ds) else ofExponentDigits ds)
    else none

/-- A decimal without sign: digits with at most one point among or around them, and an exponent. -/
def parse? (cs : List Char) : Option Decimal :=
  let whole := cs.takeWhile Char.isDigit
  let (fraction, rest) := match cs.dropWhile Char.isDigit with
    | '.' :: r => (r.takeWhile Char.isDigit, r.dropWhile Char.isDigit)
    | r => ([], r)
  if whole = [] ∧ fraction = [] then none
  else (exponent? rest).map fun e => ⟨ofDigits (whole ++ fraction), e - fraction.length⟩

/-- Decimals of this order of magnitude and more are infinite, their inverses zero, in every format. -/
def extremeExponent : Int := 400

/-- The float nearest to a decimal. -/
def toFloat (f : FloatFormat) (negative : Bool) (x : Decimal) : Nat :=
  let order := (Nat.toDigits 10 x.digits).length + x.exponent
  if x.digits = 0 ∨ order < -extremeExponent then f.withSign negative 0
  else if extremeExponent < order then f.withSign negative f.infinity
  else f.nearest negative (x.digits * tenTo x.exponent) (tenTo (-x.exponent))

end Decimal

namespace FloatFormat
variable (f : FloatFormat)

/-- The text of a float. -/
def text (bits : Nat) : String :=
  match f.classify bits with
  | .nan => "NaN"
  | .infinite negative => if negative then "-inf" else "inf"
  | .finite negative significand scale =>
    (if negative then "-" else "") ++
      if significand = 0 then "0" else (Decimal.shortest f significand scale).positional

/-- Why a text is not a float. -/
inductive SyntaxError
  | empty
  | invalid
deriving DecidableEq, Repr

def SyntaxError.message : SyntaxError → String
  | empty => "cannot parse float from empty string"
  | invalid => "invalid float literal"

/-- The float that a text without sign names, if it is a name and no number. -/
def ofName? (negative : Bool) (cs : List Char) : Option Nat :=
  let name := String.ofList (cs.map Char.toLower)
  if name = "inf" ∨ name = "infinity" then some (f.withSign negative f.infinity)
  else if name = "nan" then some (f.withSign negative f.canonicalNan)
  else none

/-- The float nearest to a decimal text: a sign, then a decimal or a name. -/
def ofText (s : String) : Except SyntaxError Nat :=
  let unsigned (negative : Bool) (cs : List Char) : Except SyntaxError Nat :=
    match Decimal.parse? cs with
    | some x => .ok (x.toFloat f negative)
    | none =>
      match f.ofName? negative cs with
      | some bits => .ok bits
      | none => .error .invalid
  match s.toList with
  | [] => .error .empty
  | '-' :: cs => unsigned true cs
  | '+' :: cs => unsigned false cs
  | cs => unsigned false cs

end FloatFormat

/-- A value as it is listed: its number, a colon and its type. -/
def Value.text (v : Value) : String :=
  let number := match v with
    | .i32 x => toString x.toInt
    | .i64 x => toString x.toInt
    | .f32 bits => FloatFormat.single.text bits.toNat
    | .f64 bits => FloatFormat.double.text bits.toNat
  number ++ ":" ++ v.type.text

end Wasm
