import Wasm.Value
import Wasm.Binary.Leb128

/-! The sections of a binary module: their kinds and order, and readers for the records they hold. -/

namespace Wasm

/-! ### Kinds of sections -/

inductive SectionKind
  | custom
  | types
  | imports
  | functions
  | tables
  | memories
  | globals
  | exports
  | start
  | elements
  | code
  | data
  | dataCount
deriving DecidableEq, Repr

namespace SectionKind

/-- All kinds, each at the place of its identifier in the binary format. -/
def all : List SectionKind :=
  [custom, types, imports, functions, tables, memories, globals, exports, start, elements, code, data, dataCount]

/-- The kind with the given identifier. -/
def ofId? (id : Nat) : Option SectionKind := all[id]?

/-- The place in a module. The count of data segments comes before the code that may refer to them. -/
def rank : SectionKind → Nat
  | custom => 0
  | types => 1
  | imports => 2
  | functions => 3
  | tables => 4
  | memories => 5
  | globals => 6
  | exports => 7
  | start => 8
  | elements => 9
  | dataCount => 10
  | code => 11
  | data => 12

def name : SectionKind → String
  | custom => "Custom"
  | types => "Type"
  | imports => "Import"
  | functions => "Function"
  | tables => "Table"
  | memories => "Memory"
  | globals => "Global"
  | exports => "Export"
  | start => "Start"
  | elements => "Element"
  | code => "Code"
  | data => "Data"
  | dataCount => "DataCount"

theorem rank_injective {a b : SectionKind} (h : a.rank = b.rank) : a = b := by
  cases a <;> cases b <;> first | rfl | cases h

end SectionKind

/-! ### Records -/

/-- What stands before the payload of a section. -/
structure SectionHeader where
  kind : SectionKind
  /-- The number of bytes in the payload. -/
  size : Nat
  /-- Where the payload starts. -/
  start : Nat
deriving DecidableEq, Repr

/-- The initial value of a global, or the place of a data segment: a constant, or another global's value. -/
inductive ConstExpr
  | value (v : Value)
  | globalGet (index : Nat)
deriving DecidableEq, Repr

inductive ImportKind
  | func (signature : Nat)
  | table
  | memory (limits : Limits)
  | global (type : ValType) (isMutable : Bool)
deriving DecidableEq, Repr

structure ImportEntry where
  moduleName : String
  name : String
  kind : ImportKind
deriving DecidableEq, Repr

structure GlobalEntry where
  type : ValType
  isMutable : Bool
  init : ConstExpr
deriving DecidableEq, Repr

/-- What an export names. -/
inductive ExportKind
  | func
  | table
  | memory
  | global
deriving DecidableEq, Repr

namespace ExportKind

def tag : ExportKind → Nat
  | func => 0
  | table => 1
  | memory => 2
  | global => 3

def ofTag? : Nat → Option ExportKind
  | 0 => some func
  | 1 => some table
  | 2 => some memory
  | 3 => some global
  | _ => none

@[simp] theorem ofTag?_tag (k : ExportKind) : ofTag? k.tag = some k := by cases k <;> rfl

end ExportKind

structure ExportEntry where
  name : String
  kind : ExportKind
  index : Nat
deriving DecidableEq, Repr

/-- The locals that a function declares, and its instructions. -/
structure CodeEntry where
  locals : List ValType
  body : ByteArray

/-- An active segment is copied to its memory when the module is loaded; a passive one waits for instructions. -/
inductive DataMode
  | active (memory : Nat) (offset : ConstExpr)
  | passive
deriving DecidableEq, Repr

structure DataEntry where
  mode : DataMode
  bytes : ByteArray

/-- A function may declare as many locals at most. -/
def maxLocals : Nat := 50000

namespace Reader

/-! ### Readers of types -/

def sectionHeader : Reader SectionHeader := do
  let first ← position
  let id ← byte
  match SectionKind.ofId? id.toNat with
  | none => reject .sectionId first
  | some kind => do
    let size ← u32
    return ⟨kind, size, ← position⟩

def valType : Reader ValType := do
  let first ← position
  match ValType.ofTag? (← byte) with
  | some t => return t
  | none => reject .valueType first

def limits : Reader Limits := do
  let first ← position
  match (← byte).toNat with
  | 0 => return ⟨← u32, none⟩
  | 1 => do
    let min ← u32
    let max ← u32
    if max < min then reject .limitsOrder first else return ⟨min, some max⟩
  | _ => reject .limitsFlag first

def funcType : Reader FuncType := do
  let first ← position
  if (← byte) ≠ 0x60 then reject .functionTypeForm first
  else do
    let params ← vector valType
    let results ← vector valType
    return ⟨params.toList, results.toList⟩

/-- Whether a global may be written. -/
def mutability : Reader Bool := do
  let first ← position
  match (← byte).toNat with
  | 0 => return false
  | 1 => return true
  | _ => reject .mutability first

/-- A table type, of which only the form matters. -/
def tableType : Reader Unit := do
  let first ← position
  let b ← byte
  if b = 0x70 ∨ b = 0x6F then discard limits else reject .referenceType first

/-- A block type: a tag, or a signature index in the signed encoding. The peeked byte decides, since a one-byte
    encoding of an index has its sixth bit clear and the tags have it set. -/
def blockType : Reader BlockType := do
  let b ← peek
  if b = 0x40 then do
    skip 1
    return .empty
  else match ValType.ofTag? b with
    | some t => do
      skip 1
      return .result t
    | none => do
      let first ← position
      let index ← Leb128.signed 64
      if 0 ≤ index ∧ index < (1 <<< 32 : Nat) then return .signature index.toNat else reject .blockType first

/-! ### Readers of records -/

/-- The instruction of an initializer. -/
def initializer : Reader ConstExpr := do
  let first ← position
  match (← byte).toNat with
  | 0x41 => return .value (.i32 (.ofInt 32 (← Leb128.signed 32)))
  | 0x42 => return .value (.i64 (.ofInt 64 (← Leb128.signed 64)))
  | 0x43 => return .value (.ofNat .f32 (← fixed 4))
  | 0x44 => return .value (.ofNat .f64 (← fixed 8))
  | 0x23 => return .globalGet (← u32)
  | _ => reject .initializerOpcode first

/-- An initializer: one instruction and the end mark. -/
def constExpr : Reader ConstExpr := do
  let expr ← initializer
  let last ← position
  if (← byte) ≠ 0x0B then reject .initializerEnd last else return expr

def importKind : Reader ImportKind := do
  let first ← position
  match (← byte).toNat with
  | 0 => return .func (← u32)
  | 1 => do
    tableType
    return .table
  | 2 => return .memory (← limits)
  | 3 => do
    let type ← valType
    return .global type (← mutability)
  | _ => reject .importKind first

def importEntry : Reader ImportEntry := do
  let moduleName ← name
  let field ← name
  return ⟨moduleName, field, ← importKind⟩

def globalEntry : Reader GlobalEntry := do
  let type ← valType
  let isMutable ← mutability
  return ⟨type, isMutable, ← constExpr⟩

def exportEntry : Reader ExportEntry := do
  let field ← name
  let first ← position
  match ExportKind.ofTag? (← byte).toNat with
  | none => reject .exportKind first
  | some kind => return ⟨field, kind, ← u32⟩

/-- A number of locals of one type. -/
def localGroup : Reader (Nat × ValType) := do
  let n ← u32
  return (n, ← valType)

/-- A function body, which is all that the reader's input holds. -/
def codeBody : Reader CodeEntry := do
  let groups ← vector localGroup
  if maxLocals < groups.foldl (fun n g => n + g.1) 0 then reject .tooManyLocals 0
  else do
    let body ← bytes (← remaining)
    return ⟨groups.toList.flatMap fun g => List.replicate g.1 g.2, body⟩

def codeEntry : Reader CodeEntry := do
  let size ← u32
  within size codeBody

def dataMode : Reader DataMode := do
  let first ← position
  match ← u32 with
  | 0 => return .active 0 (← constExpr)
  | 1 => return .passive
  | 2 => do
    let memory ← u32
    return .active memory (← constExpr)
  | _ => reject .dataFlags first

def dataEntry : Reader DataEntry := do
  let mode ← dataMode
  return ⟨mode, ← countedBytes⟩

/-! ### Readers of sections -/

def typeSection : Reader (Array FuncType) := vector funcType

def importSection : Reader (Array ImportEntry) := vector importEntry

/-- The signature index of each declared function. -/
def functionSection : Reader (Array Nat) := vector u32

def memorySection : Reader (Array Limits) := vector limits

def globalSection : Reader (Array GlobalEntry) := vector globalEntry

def exportSection : Reader (Array ExportEntry) := vector exportEntry

/-- The index of the function that runs when the module is loaded. -/
def startSection : Reader Nat := u32

/-- The number of data segments. -/
def dataCountSection : Reader Nat := u32

def codeSection : Reader (Array CodeEntry) := vector codeEntry

def dataSection : Reader (Array DataEntry) := vector dataEntry

end Reader
end Wasm
