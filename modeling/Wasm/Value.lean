import Wasm.Types

/-! Typed values. A float is held as the bits of its format, so that no payload of a NaN is lost. -/

namespace Wasm

/-- The two widths of numbers. -/
inductive Width
  | w32
  | w64
deriving DecidableEq, Repr

namespace Width

def bits : Width → Nat
  | w32 => 32
  | w64 => 64

/-- The integers of a width. -/
def int : Width → ValType
  | w32 => .i32
  | w64 => .i64

/-- The floats of a width. -/
def float : Width → ValType
  | w32 => .f32
  | w64 => .f64

theorem bits_pos (w : Width) : 0 < w.bits := by cases w <;> decide

end Width

/-- The bytes that a value of the type takes in memory. -/
def ValType.size : ValType → Nat
  | i32 => 4
  | i64 => 8
  | f32 => 4
  | f64 => 8

/-- A typed value. -/
inductive Value
  | i32 (v : BitVec 32)
  | i64 (v : BitVec 64)
  | f32 (bits : BitVec 32)
  | f64 (bits : BitVec 64)
deriving DecidableEq, Repr, Inhabited

namespace Value

def type : Value → ValType
  | i32 _ => .i32
  | i64 _ => .i64
  | f32 _ => .f32
  | f64 _ => .f64

/-- The bits of a value, as a number. -/
def toNat : Value → Nat
  | i32 v => v.toNat
  | i64 v => v.toNat
  | f32 bits => bits.toNat
  | f64 bits => bits.toNat

/-- The value of a type whose bits are the low bits of a number. -/
def ofNat : ValType → Nat → Value
  | .i32, n => i32 (.ofNat 32 n)
  | .i64, n => i64 (.ofNat 64 n)
  | .f32, n => f32 (.ofNat 32 n)
  | .f64, n => f64 (.ofNat 64 n)

/-- The value that fresh locals of a type hold. -/
def zero : ValType → Value
  | .i32 => i32 0
  | .i64 => i64 0
  | .f32 => f32 0
  | .f64 => f64 0

/-- An integer of a width. -/
def int : (w : Width) → BitVec w.bits → Value
  | .w32, v => i32 v
  | .w64, v => i64 v

/-- A float of a width, from its bits. -/
def float : (w : Width) → BitVec w.bits → Value
  | .w32, bits => f32 bits
  | .w64, bits => f64 bits

/-- The truth values of comparisons: one and zero. -/
def ofBool (b : Bool) : Value := i32 (if b then 1 else 0)

/-- The value as an integer of a width, if it is one. -/
def int? : (w : Width) → Value → Option (BitVec w.bits)
  | .w32, i32 v => some v
  | .w64, i64 v => some v
  | _, _ => none

/-- The bits of the value as a float of a width, if it is one. -/
def float? : (w : Width) → Value → Option (BitVec w.bits)
  | .w32, f32 bits => some bits
  | .w64, f64 bits => some bits
  | _, _ => none

@[simp] theorem type_zero (t : ValType) : (zero t).type = t := by cases t <;> rfl

@[simp] theorem type_ofNat (t : ValType) (n : Nat) : (ofNat t n).type = t := by cases t <;> rfl

@[simp] theorem type_int (w : Width) (v : BitVec w.bits) : (int w v).type = w.int := by cases w <;> rfl

@[simp] theorem type_float (w : Width) (bits : BitVec w.bits) : (float w bits).type = w.float := by
  cases w <;> rfl

@[simp] theorem type_ofBool (b : Bool) : (ofBool b).type = .i32 := rfl

@[simp] theorem ofNat_toNat (v : Value) : ofNat v.type v.toNat = v := by
  cases v <;> simp [ofNat, type, toNat]

theorem int?_eq_some {w : Width} {x : Value} {v : BitVec w.bits} : x.int? w = some v ↔ x = int w v := by
  constructor
  · intro h
    cases w <;> cases x <;> cases h <;> rfl
  · rintro rfl
    cases w <;> rfl

theorem float?_eq_some {w : Width} {x : Value} {v : BitVec w.bits} : x.float? w = some v ↔ x = float w v := by
  constructor
  · intro h
    cases w <;> cases x <;> cases h <;> rfl
  · rintro rfl
    cases w <;> rfl

end Value
end Wasm
