import Wasm.Binary.Reader

/-! LEB128: numbers in groups of seven bits, least significant first, the high bit of a byte set where another
    follows. Readers for the widths of the binary format, and the shortest encodings. -/

namespace Wasm
namespace Leb128

/-- The most bytes that a number of `bits` bits may take. -/
def maxBytes (bits : Nat) : Nat := (bits + 6) / 7

/-- The seven payload bits of a byte. -/
def payload (b : UInt8) : Nat := b.toNat % 128

/-- Another byte follows. -/
def continues (b : UInt8) : Bool := 128 ≤ b.toNat

/-- Numbers are summed up in registers that hold less than this. -/
def registerLimit : Nat := 1 <<< 64

/-- Stops, because the number does not fit in `bits` bits. -/
def overflow {α : Type} (bits : Nat) : Reader α := do throw (.lebOverflow bits (← Reader.position))

/-- Stops, because no last byte came in time. -/
def tooLong {α : Type} (bits : Nat) : Reader α := do throw (.lebTooLong (maxBytes bits) (← Reader.position))

/-- An unsigned number of `bits` bits, at most `budget` more bytes; the groups below bit `shift` sum up to `sum`. -/
def unsignedFrom (bits : Nat) : (budget shift sum : Nat) → Reader Nat
  | 0, _, _ => tooLong bits
  | budget + 1, shift, sum => do
    let b ← Reader.byte
    let sum := sum + payload b <<< shift
    if registerLimit ≤ sum then overflow bits
    else if continues b then unsignedFrom bits budget (shift + 7) sum
    else if 1 <<< bits ≤ sum then overflow bits
    else return sum

/-- A signed number of `bits` bits, at most `budget` more bytes; the groups below bit `shift` sum up to `sum`. -/
def signedFrom (bits : Nat) : (budget shift sum : Nat) → Reader Int
  | 0, _, _ => tooLong bits
  | budget + 1, shift, sum => do
    let b ← Reader.byte
    let sum := sum + payload b <<< shift
    if continues b then signedFrom bits budget (shift + 7) sum
    else
      let value : Int := if 64 ≤ payload b then sum - (1 <<< (shift + 7) : Nat) else sum
      let half : Nat := 1 <<< (bits - 1)
      if -half ≤ value ∧ value < half then return value else overflow bits

/-- An unsigned number of `bits` bits. -/
def unsigned (bits : Nat) : Reader Nat := unsignedFrom bits (maxBytes bits) 0 0

/-- A signed number of `bits` bits. -/
def signed (bits : Nat) : Reader Int := signedFrom bits (maxBytes bits) 0 0

/-- The shortest unsigned encoding. -/
def encodeUnsigned (n : Nat) : List UInt8 :=
  if n < 128 then [n.toUInt8] else (n % 128 + 128).toUInt8 :: encodeUnsigned (n / 128)
termination_by n

/-- The shortest signed encoding. -/
def encodeSigned (n : Int) : List UInt8 :=
  if -64 ≤ n ∧ n < 64 then [(n % 128).toNat.toUInt8]
  else (n % 128 + 128).toNat.toUInt8 :: encodeSigned (n / 128)
termination_by n.natAbs
decreasing_by omega

end Leb128

namespace Reader
variable {α : Type}

/-- The unsigned numbers of 32 bits, which count and index everything in the format. -/
def u32 : Reader Nat := Leb128.unsigned 32

/-- The length of a vector. Each item takes a byte at least, so a length above what remains cannot be right. -/
def count : Reader Nat := do
  let start ← position
  let n ← u32
  if (← remaining) < n then throw (.unexpectedEnd start) else return n

/-- A vector: its length, then its items. -/
def vector (item : Reader α) : Reader (Array α) := do
  let n ← count
  items item n #[]

/-- Counted bytes. -/
def countedBytes : Reader ByteArray := do
  let n ← u32
  bytes n

/-- A name: counted bytes of UTF-8 text. -/
def name : Reader String := do
  let start ← position
  let part ← countedBytes
  match String.fromUTF8? part with
  | some s => return s
  | none => throw (.invalidUtf8 start)

end Reader
end Wasm
