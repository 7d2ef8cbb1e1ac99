import Wasm.Options
import Wasm.Store.Stack
import Wasm.Store.Memory

/-! What the functions of a module share and change: the operand stack, memories, globals and data segments. -/

namespace Wasm

structure Global where
  value : Value
  isConstant : Bool
  /-- The name of the export of this global. -/
  name : Option String := none
deriving DecidableEq, Repr, Inhabited

structure Store where
  stack : Stack := {}
  memories : Array Memory := #[]
  globals : Array Global := #[]
  /-- The bytes of data segments. Dropped segments are empty, and active ones are dropped once written. -/
  data : Array ByteArray := #[]
  /-- How many writes to memories and globals and calls of host functions there have been. -/
  effects : Nat := 0
  /-- The activations that there are now. -/
  depth : Nat := 0
  /-- A shadow serves to look through code; nothing is written to its memories. -/
  shadow : Bool := false
  options : Options := {}
deriving Inhabited

/-- What runs on a store. A trap leaves the store as far as the run came. -/
abbrev Exec : Type → Type := EStateM Trap Store

namespace Store
variable {α : Type}

/-- A copy to look through code on. -/
def shadowCopy (s : Store) : Store :=
  { s with data := #[], effects := 0, depth := 0, shadow := true }

/-- An operation on the stack. -/
@[inline] def onStack (op : Stack.Op α) : Exec α := fun ⟨stack, memories, globals, data, effects, depth, shadow, options⟩ =>
  match op stack with
  | .ok a stack => .ok a ⟨stack, memories, globals, data, effects, depth, shadow, options⟩
  | .error e stack => .error e ⟨stack, memories, globals, data, effects, depth, shadow, options⟩

/-- An operation on a memory. -/
def onMemory (index : Nat) (op : Memory.Op α) : Exec α := fun s =>
  match s.memories[index]? with
  | none => .error (.missingMemory index) s
  | some m =>
    -- The memory is out of the table while it changes, so that it is changed in place.
    let s := { s with memories := s.memories.setIfInBounds index default }
    match op m with
    | .ok a m => .ok a { s with memories := s.memories.setIfInBounds index m }
    | .error e m => .error e { s with memories := s.memories.setIfInBounds index m }

/-- Counts an effect. -/
def countEffect : Exec Unit := modify fun s => { s with effects := s.effects + 1 }

/-- The value of a global. -/
def global (index : Nat) : Exec Value := fun s =>
  match s.globals[index]? with
  | some g => .ok g.value s
  | none => .error (.unknownGlobal index) s

/-- Gives a global another value of its type. -/
def setGlobal (index : Nat) (v : Value) : Exec Unit := fun s =>
  match s.globals[index]? with
  | none => .error (.unknownGlobal index) s
  | some g =>
    if g.isConstant then .error (.constantGlobal index) s
    else if g.value.type ≠ v.type then .error (.typeMismatch g.value.type v.type) s
    else .ok () { s with
      globals := s.globals.setIfInBounds index { g with value := v }
      effects := s.effects + 1 }

/-- The `n` bytes from `offset` on of a data segment. -/
def segment (index offset n : Nat) : Exec ByteArray := fun s =>
  match s.data[index]? with
  | some part =>
    if offset + n ≤ part.size then .ok (part.extract offset (offset + n)) s
    else .error (.outOfBounds .dataSegment index) s
  | none => .error (.outOfBounds .dataSegment index) s

/-- Drops a data segment. -/
def dropSegment (index : Nat) : Exec Unit := fun s =>
  if index < s.data.size then .ok () { s with data := s.data.setIfInBounds index .empty }
  else .error (.outOfBounds .dataSegment index) s

end Store
end Wasm
