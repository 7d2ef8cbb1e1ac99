import Wasm.Trap
import Wasm.Binary.Section
import Wasm.Instr.Opcode

/-! Instructions with their immediates, and how they are read from the bytes of a body. All immediates of an
    instruction are read before it does anything, so that reading and running are apart. -/

namespace Wasm

/-- Where a load or store goes: a hint at the alignment, and what is added to the address on the stack. -/
structure MemArg where
  align : Nat
  offset : Nat
deriving DecidableEq, Repr

/-- Instructions that run straight on to the next one. -/
inductive Plain
  | unreachable
  | nop
  | drop
  | select
  | localGet (index : Nat)
  | localSet (index : Nat)
  | localTee (index : Nat)
  | globalGet (index : Nat)
  | globalSet (index : Nat)
  | load (op : LoadOp) (arg : MemArg)
  | store (op : StoreOp) (arg : MemArg)
  | memorySize
  | memoryGrow
  | const (v : Value)
  | numeric (op : Numeric)
  | memoryInit (segment : Nat)
  | dataDrop (segment : Nat)
  | memoryCopy
  | memoryFill
deriving DecidableEq, Repr

/-- An instruction of a body. -/
inductive Instr
  | plain (op : Plain)
  | block (type : BlockType)
  | loop (type : BlockType)
  | ifThen (type : BlockType)
  | elseMark
  | endMark
  | br (depth : Nat)
  | brIf (depth : Nat)
  | brTable (targets : Array Nat) (fallback : Nat)
  | ret
  | call (function : Nat)
deriving DecidableEq, Repr

namespace Reader

def memArg : Reader MemArg := do
  let align ← u32
  return ⟨align, ← u32⟩

/-- A constant of a type. -/
def constant : ValType → Reader Value
  | .i32 => return .i32 (.ofInt 32 (← Leb128.signed 32))
  | .i64 => return .i64 (.ofInt 64 (← Leb128.signed 64))
  | .f32 => return .ofNat .f32 (← fixed 4)
  | .f64 => return .ofNat .f64 (← fixed 8)

end Reader

namespace Instr

/-- A reader of code: its failures are traps. -/
abbrev CodeReader : Type → Type := Decoder Trap

/-- A reader of immediates as a reader of code. -/
def immediate {α : Type} (r : Reader α) : CodeReader α := fun data pos =>
  match r data pos with
  | .ok a pos => .ok a pos
  | .error e pos => .error (.binary e) pos

/-- The code that an unknown extended instruction is reported by. -/
def extendedCode (n : Nat) : Nat := 0xFC00 ||| n

/-- The rest of an extended instruction. -/
def readExtended : CodeReader Plain := do
  let n ← immediate Reader.u32
  match ExtendedOp.ofNumber? n with
  | none => throw (.unsupportedOpcode (extendedCode n))
  | some (.truncateSat target source sign) => return .numeric (.truncateSat target source sign)
  | some .memoryInit => do
    let segment ← immediate Reader.u32
    immediate (Reader.skip 1)
    return .memoryInit segment
  | some .dataDrop => return .dataDrop (← immediate Reader.u32)
  | some .memoryCopy => do
    immediate (Reader.skip 1)
    immediate (Reader.skip 1)
    return .memoryCopy
  | some .memoryFill => do
    immediate (Reader.skip 1)
    return .memoryFill

/-- The immediates of the instruction with a given opcode. -/
def readRest : Opcode → CodeReader Instr
  | .unreachable => return .plain .unreachable
  | .nop => return .plain .nop
  | .block => return .block (← immediate Reader.blockType)
  | .loop => return .loop (← immediate Reader.blockType)
  | .ifThen => return .ifThen (← immediate Reader.blockType)
  | .elseMark => return .elseMark
  | .endMark => return .endMark
  | .br => return .br (← immediate Reader.u32)
  | .brIf => return .brIf (← immediate Reader.u32)
  | .brTable => do
    let targets ← immediate (Reader.vector Reader.u32)
    return .brTable targets (← immediate Reader.u32)
  | .ret => return .ret
  | .call => return .call (← immediate Reader.u32)
  | .drop => return .plain .drop
  | .select => return .plain .select
  | .selectTyped => do
    discard (immediate (Reader.vector Reader.byte))
    return .plain .select
  | .localGet => return .plain (.localGet (← immediate Reader.u32))
  | .localSet => return .plain (.localSet (← immediate Reader.u32))
  | .localTee => return .plain (.localTee (← immediate Reader.u32))
  | .globalGet => return .plain (.globalGet (← immediate Reader.u32))
  | .globalSet => return .plain (.globalSet (← immediate Reader.u32))
  | .load op => return .plain (.load op (← immediate Reader.memArg))
  | .store op => return .plain (.store op (← immediate Reader.memArg))
  | .memorySize => do
    immediate (Reader.skip 1)
    return .plain .memorySize
  | .memoryGrow => do
    immediate (Reader.skip 1)
    return .plain .memoryGrow
  | .const t => return .plain (.const (← immediate (Reader.constant t)))
  | .numeric op => return .plain (.numeric op)
  | .extended => return .plain (← readExtended)

/-- The instruction at the reader's position. -/
def read : CodeReader Instr := do
  let b ← immediate Reader.byte
  match Opcode.ofByte? b with
  | none => throw (.unsupportedOpcode b.toNat)
  | some op => readRest op

end Instr
end Wasm
