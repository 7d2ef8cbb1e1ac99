import Wasm.Instr.Basic
import Wasm.Store.Basic
import Wasm.Exec.Numeric

/-! What the instructions do that run straight on to the next one. -/

namespace Wasm

/-- The part of the stack that an activation owns. -/
structure Frame where
  /-- The index of the first local. -/
  offset : Nat
  /-- The number of locals, parameters among them. -/
  locals : Nat
deriving DecidableEq, Repr

/-- The stack index of a local. -/
def Frame.slot? (f : Frame) (index : Nat) : Option Nat :=
  if index < f.locals then some (f.offset + index) else none

namespace Plain
open Store

/-- The stack index of a local that there must be. -/
def slot (f : Frame) (index : Nat) : Exec Nat :=
  match f.slot? index with
  | some i => pure i
  | none => throw (.unknownLocal index)

/-- Pops the address of a load or store. -/
def popTarget (arg : MemArg) : Exec Nat := do
  let base ← onStack Stack.popAddress
  return base + arg.offset

/-- Changes the first memory, unless on a shadow. -/
def writeMemory (op : Memory.Op Unit) : Exec Unit := do
  if (← get).shadow then return
  onMemory 0 op
  countEffect

/-- Pops a value, and gives it to a local of its type. -/
def assign (f : Frame) (index : Nat) : Exec Value := do
  let i ← slot f index
  let v ← onStack Stack.pop
  let old ← onStack (Stack.get i)
  if old.type ≠ v.type then throw (.typeMismatch old.type v.type)
  onStack (Stack.set i v)
  return v

/-- The value that a load makes of the bytes it reads. -/
def loaded : LoadOp → Nat → Value
  | .full t, n => .ofNat t n
  | .narrow w _ .unsigned, n => .int w (.ofNat _ n)
  | .narrow w size .signed, n => .int w ((BitVec.ofNat (8 * size.bytes) n).signExtend _)

/-- Adds pages to the first memory, and gives the number there was before, or -1; a shadow refuses. -/
def growMemory (delta : Nat) : Exec (BitVec 32) := do
  if (← get).shadow then return -1
  let before ← onMemory 0 fun m =>
    let (before, m) := m.grow delta
    .ok before m
  match before with
  | some n => do
    countEffect
    return .ofNat 32 n
  | none => return -1

def exec (f : Frame) : Plain → Exec Unit
  | unreachable => throw .unreachable
  | nop => return
  | drop => discard (onStack Stack.pop)
  | select => do
    let condition ← onStack (Stack.popInt .w32)
    let b ← onStack Stack.pop
    let a ← onStack Stack.pop
    onStack (Stack.push (if condition ≠ 0 then a else b))
  | localGet index => do
    let i ← slot f index
    let v ← onStack (Stack.get i)
    onStack (Stack.push v)
  | localSet index => discard (assign f index)
  | localTee index => do
    let v ← assign f index
    onStack (Stack.push v)
  | globalGet index => do
    let v ← global index
    onStack (Stack.push v)
  | globalSet index => do
    let v ← onStack Stack.pop
    setGlobal index v
  | load op arg => do
    let address ← popTarget arg
    let n ← onMemory 0 (Memory.load address op.size)
    onStack (Stack.push (loaded op n))
  | store op arg => do
    let v ← onStack (Stack.popType op.type)
    let address ← popTarget arg
    writeMemory (Memory.store address op.size v.toNat)
  | memorySize => do
    let pages ← onMemory 0 fun m => .ok m.pages m
    onStack (Stack.push (.i32 (.ofNat 32 pages)))
  | memoryGrow => do
    let delta ← onStack Stack.popAddress
    let before ← growMemory delta
    onStack (Stack.push (.i32 before))
  | const v => onStack (Stack.push v)
  | numeric op => onStack op.exec
  | memoryInit index => do
    let n ← onStack Stack.popAddress
    let source ← onStack Stack.popAddress
    let target ← onStack Stack.popAddress
    if (← get).shadow then return
    let part ← segment index source n
    writeMemory (Memory.write target part)
  | dataDrop index => do
    if (← get).shadow then return
    dropSegment index
  | memoryCopy => do
    let n ← onStack Stack.popAddress
    let source ← onStack Stack.popAddress
    let target ← onStack Stack.popAddress
    writeMemory (Memory.copy target source n)
  | memoryFill => do
    let n ← onStack Stack.popAddress
    let b ← onStack (Stack.popInt .w32)
    let target ← onStack Stack.popAddress
    writeMemory (Memory.fill target (UInt8.ofNat b.toNat) n)

end Plain
end Wasm
