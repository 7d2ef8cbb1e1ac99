import Wasm.Value
import Wasm.Trap

/-! The operand stack, which all activations share. An operation that fails leaves the stack as far as it came:
    a value of the wrong type has been popped. -/

namespace Wasm

/-- The operand stack, the bottom first. -/
structure Stack where
  values : Array Value := #[]
deriving DecidableEq, Repr, Inhabited

namespace Stack

/-- An operation on the stack. -/
abbrev Op : Type → Type := EStateM Trap Stack

def size (s : Stack) : Nat := s.values.size

def push (v : Value) : Op Unit := fun ⟨values⟩ => .ok () ⟨values.push v⟩

/-- Pushes values, the first one first. -/
def pushMany (vs : Array Value) : Op Unit := fun ⟨values⟩ => .ok () ⟨values ++ vs⟩

def pop : Op Value := fun ⟨values⟩ =>
  match values.back? with
  | some v => .ok v ⟨values.pop⟩
  | none => .error .stackUnderflow ⟨values⟩

/-- Pops an integer of a width. -/
def popInt (w : Width) : Op (BitVec w.bits) := do
  let v ← pop
  match v.int? w with
  | some x => return x
  | none => throw (.typeMismatch w.int v.type)

/-- Pops the bits of a float of a width. -/
def popFloat (w : Width) : Op (BitVec w.bits) := do
  let v ← pop
  match v.float? w with
  | some x => return x
  | none => throw (.typeMismatch w.float v.type)

/-- Pops a value of a type. -/
def popType (t : ValType) : Op Value := do
  let v ← pop
  if v.type = t then return v else throw (.typeMismatch t v.type)

/-- Pops an address or length, a 32-bit integer without sign. -/
def popAddress : Op Nat := do
  let v ← popInt .w32
  return v.toNat

/-- The value at an index from the bottom. -/
def get (index : Nat) : Op Value := fun s =>
  match s.values[index]? with
  | some v => .ok v s
  | none => .error (.outOfBounds .stack index) s

/-- Replaces the value at an index from the bottom. -/
def set (index : Nat) (v : Value) : Op Unit := fun ⟨values⟩ =>
  if h : index < values.size then .ok () ⟨values.set index v⟩
  else .error (.outOfBounds .stack index) ⟨values⟩

/-- The values on top, the lowest first. -/
def top? (s : Stack) (n : Nat) : Option (Array Value) :=
  if n ≤ s.values.size then some (s.values.extract (s.values.size - n) s.values.size) else none

/-- The values on top, which stay there. -/
def top (n : Nat) : Op (Array Value) := fun s =>
  match s.top? n with
  | some vs => .ok vs s
  | none => .error .stackUnderflow s

/-- Pops the values on top; the lowest comes first. -/
def popMany (n : Nat) : Op (Array Value) := fun ⟨values⟩ =>
  if n ≤ values.size then
    let height := values.size - n
    let vs := values.extract height values.size
    .ok vs ⟨values.shrink height⟩
  else .error .stackUnderflow ⟨values⟩

/-- Drops what is above a height. -/
def truncate (height : Nat) : Op Unit := fun ⟨values⟩ => .ok () ⟨values.shrink height⟩

/-- Takes out the values from index `first` up to `last`, and moves down what is above. -/
def remove (first last : Nat) : Op Unit := fun ⟨values⟩ =>
  if first ≤ last ∧ last ≤ values.size then
    let kept := values.extract last values.size
    .ok () ⟨values.shrink first ++ kept⟩
  else .error .stackUnderflow ⟨values⟩

/-- Leaves the top `arity` values above `height`. -/
def settle (height arity : Nat) : Op Unit := fun s =>
  if height + arity ≤ s.values.size then remove height (s.values.size - arity) s
  else .error .stackUnderflow s

end Stack
end Wasm
