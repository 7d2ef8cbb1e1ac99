/-! Numerals: digits to a radix, with at most one sign, that stand for an integer in a given range. White space is not
    significant around settings and arguments. -/

namespace Wasm

/-! ### White space -/

/-- The characters with the Unicode property White_Space. -/
def isBlank (c : Char) : Bool :=
  let n := c.toNat
  (0x9 ≤ n && n ≤ 0xD) || n == 0x20 || n == 0x85 || n == 0xA0 || n == 0x1680 || (0x2000 ≤ n && n ≤ 0x200A) ||
    n == 0x2028 || n == 0x2029 || n == 0x202F || n == 0x205F || n == 0x3000

/-- The characters without the white space before and after them. -/
def trimBlanks (cs : List Char) : List Char := ((cs.dropWhile isBlank).reverse.dropWhile isBlank).reverse

theorem isBlank_of_isWhitespace {c : Char} (h : c.isWhitespace = true) : isBlank c = true := by
  simp only [Char.isWhitespace, Bool.or_eq_true, decide_eq_true_eq] at h
  rcases h with ((rfl | rfl) | rfl) | rfl <;> decide

/-! ### Digits -/

/-- Why a text is not a numeral. -/
inductive NumeralError
  | empty
  | invalidDigit
  | tooLarge
  | tooSmall
deriving DecidableEq, Repr

def NumeralError.message : NumeralError → String
  | empty => "cannot parse integer from empty string"
  | invalidDigit => "invalid digit found in string"
  | tooLarge => "number too large to fit in target type"
  | tooSmall => "number too small to fit in target type"

namespace Numeral

/-- The number that a digit stands for. Letters of either case follow on the ten digits. -/
def digitValue? (c : Char) : Option Nat :=
  if c.isDigit then some (c.toNat - '0'.toNat)
  else if c.isLower then some (c.toNat - 'a'.toNat + 10)
  else if c.isUpper then some (c.toNat - 'A'.toNat + 10)
  else none

/-- The number that digits stand for, after those that gave `sum`. The first digit at fault decides: one that is no
    digit of the radix, or one that makes the number exceed `limit`. -/
def magnitude (radix limit : Nat) (excess : NumeralError) : (sum : Nat) → List Char → Except NumeralError Nat
  | sum, [] => .ok sum
  | sum, c :: cs =>
    match digitValue? c with
    | none => .error .invalidDigit
    | some d =>
      if radix ≤ d then .error .invalidDigit
      else if limit < sum * radix + d then .error excess
      else magnitude radix limit excess (sum * radix + d) cs

/-- The integer from `least` to `greatest` that a numeral stands for. A minus sign is one only if the range has
    negative integers. -/
def parse (radix : Nat) (least greatest : Int) : List Char → Except NumeralError Int
  | [] => .error .empty
  | ['+'] => .error .invalidDigit
  | ['-'] => .error .invalidDigit
  | '+' :: cs => (fun n : Nat => (n : Int)) <$> magnitude radix greatest.toNat .tooLarge 0 cs
  | '-' :: cs =>
    if least < 0 then (fun n : Nat => -(n : Int)) <$> magnitude radix (-least).toNat .tooSmall 0 cs
    else .error .invalidDigit
  | cs => (fun n : Nat => (n : Int)) <$> magnitude radix greatest.toNat .tooLarge 0 cs

end Numeral
end Wasm
