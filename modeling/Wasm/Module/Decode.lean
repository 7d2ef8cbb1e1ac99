import Wasm.Module.Basic
import Wasm.Module.Failure

/-! Reading modules: the binary container, section by section, straight into the functions of a module and the
    store it starts with. -/

namespace Wasm

/-- A module while it is read. -/
structure Loading (σ : Type) where
  module : Module σ := {}
  store : Store := {}
  notices : Array Notice := #[]
  /-- The place in the order of sections of the last one. -/
  rank : Nat := 0
  /-- The index of the first function that is declared and not imported. -/
  firstDeclared : Nat := 0
  /-- The number of declared functions. -/
  declared : Nat := 0
  /-- The number of bodies. -/
  bodies : Nat := 0

/-- What reads a part of a module. A failure leaves what has been read so far. -/
abbrev Load (σ : Type) : Type → Type := EStateM Failure (Loading σ)

namespace Load
variable {σ α : Type}

/-- Stops, because the bytes at an offset are not right. -/
def refuse (offset : Nat) (defect : Defect) : Load σ α := throw (.malformed offset defect)

/-- Runs a reader on some bytes that start at `base` in the module, from a position on. -/
def read (base : Nat) (r : Reader α) (bytes : ByteArray) (pos : Nat) : Load σ (α × Nat) :=
  match r bytes pos with
  | .ok a pos => return (a, pos)
  | .error e _ => refuse (base + e.offset) (.read (e.shift base))

/-- The signature at an index. -/
def signature (base index : Nat) : Load σ FuncType := do
  match (← get).module.types[index]? with
  | some t => return t
  | none => refuse base (.typeIndex index)

/-- The value of an initializer. -/
def initial (base : Nat) : ConstExpr → Load σ Value
  | .value v => pure v
  | .globalGet index => do
    match (← get).store.globals[index]? with
    | some g => return g.value
    | none => refuse base (.initialGlobal index)

def addFunction (f : Function σ) : Load σ Unit :=
  modify fun l => { l with module.functions := l.module.functions.push f }

def addMemory (limits : Limits) : Load σ Unit :=
  modify fun l => { l with store.memories := l.store.memories.push (Memory.new limits) }

def addGlobal (value : Value) (isMutable : Bool) : Load σ Unit :=
  modify fun l => { l with store.globals := l.store.globals.push { value, isConstant := !isMutable } }

def addData (bytes : ByteArray) : Load σ Unit :=
  modify fun l => { l with store.data := l.store.data.push bytes }

/-! ### Records -/

def importEntry (resolve : Resolver σ) (base : Nat) (entry : ImportEntry) : Load σ Unit := do
  match entry.kind with
  | .func index => do
    let t ← signature base index
    let bound := resolve entry.moduleName entry.name t
    addFunction { signature := t, body := .host entry.moduleName entry.name bound }
  | .table => return
  | .memory limits => addMemory limits
  | .global type isMutable => addGlobal (.zero type) isMutable

def functionEntry (base index : Nat) : Load σ Unit := do
  addFunction { signature := ← signature base index }

def globalEntry (base : Nat) (entry : GlobalEntry) : Load σ Unit := do
  let v ← initial base entry.init
  if v.type ≠ entry.type then refuse base (.globalType entry.type v) else addGlobal v entry.isMutable

/-- Names what an export tells of; a later export of the same replaces the name. Tables are not supported. -/
def exportEntry (base : Nat) (entry : ExportEntry) : Load σ Unit := do
  let l ← get
  let index := entry.index
  match entry.kind with
  | .func =>
    if index < l.module.functions.size then
      set { l with module.functions := l.module.functions.modify index fun f => { f with name := some entry.name } }
    else refuse base (.exportIndex entry.name index)
  | .memory =>
    if index < l.store.memories.size then
      set { l with store.memories := l.store.memories.modify index fun m => { m with name := some entry.name } }
    else refuse base (.exportIndex entry.name index)
  | .global =>
    if index < l.store.globals.size then
      set { l with store.globals := l.store.globals.modify index fun g => { g with name := some entry.name } }
    else refuse base (.exportIndex entry.name index)
  | .table => set { l with notices := l.notices.push (.ignoredExport entry.kind entry.name) }

/-- Gives the declared functions from `index` on their bodies. -/
def attach (base : Nat) : (index : Nat) → List CodeEntry → Load σ Unit
  | _, [] => return
  | index, entry :: rest => do
    let l ← get
    if index < l.module.functions.size then
      set { l with module.functions := l.module.functions.modify index fun f =>
        { f with locals := entry.locals, body := .code entry.body } }
      attach base (index + 1) rest
    else refuse base .bodyWithoutFunction

/-- Copies an active segment to its memory. -/
def writeSegment (base memory offset : Nat) (bytes : ByteArray) : Load σ Unit := fun l =>
  match Store.onMemory memory (Memory.write offset bytes) l.store with
  | .ok () store => .ok () { l with store }
  | .error (.missingMemory _) store => .error (.malformed base (.dataMemory memory)) { l with store }
  | .error e store => .error (.trap e) { l with store }

def dataEntry (base : Nat) (entry : DataEntry) : Load σ Unit := do
  match entry.mode with
  | .passive => addData entry.bytes
  | .active memory place => do
    match ← initial base place with
    | .i32 offset => do
      writeSegment base memory offset.toNat entry.bytes
      addData .empty
    | v => refuse base (.dataOffset v)

/-! ### Sections -/

/-- Reads a section whose payload starts at `base`, and gives the position in the payload it has come to. -/
def payload (resolve : Resolver σ) (base : Nat) (bytes : ByteArray) : SectionKind → Load σ Nat
  | .custom => return bytes.size
  | .tables => return bytes.size
  | .elements => return bytes.size
  | .types => do
    let (types, pos) ← read base Reader.typeSection bytes 0
    modify fun l => { l with module.types := types }
    return pos
  | .imports => do
    let (entries, pos) ← read base Reader.importSection bytes 0
    entries.forM (importEntry resolve base)
    return pos
  | .functions => do
    let (indices, pos) ← read base Reader.functionSection bytes 0
    modify fun l => { l with firstDeclared := l.module.functions.size, declared := indices.size }
    indices.forM (functionEntry base)
    return pos
  | .memories => do
    let (limits, pos) ← read base Reader.memorySection bytes 0
    limits.forM addMemory
    return pos
  | .globals => do
    let (entries, pos) ← read base Reader.globalSection bytes 0
    entries.forM (globalEntry base)
    return pos
  | .exports => do
    let (entries, pos) ← read base Reader.exportSection bytes 0
    entries.forM (exportEntry base)
    return pos
  | .start => do
    let (index, pos) ← read base Reader.startSection bytes 0
    modify fun l => { l with module.start := some index }
    return pos
  | .dataCount => do
    let (_, pos) ← read base Reader.dataCountSection bytes 0
    return pos
  | .code => do
    let (entries, pos) ← read base Reader.codeSection bytes 0
    let l ← get
    if entries.size ≠ l.declared then refuse base .bodyCount
    set { l with bodies := entries.size }
    attach base l.firstDeclared entries.toList
    return pos
  | .data => do
    let (entries, pos) ← read base Reader.dataSection bytes 0
    entries.forM (dataEntry base)
    return pos

/-- Notes the place of a section. Custom sections may stand anywhere, the others in order and once. -/
def advance (base : Nat) (kind : SectionKind) : Load σ Unit := do
  if kind ≠ .custom then
    if kind.rank ≤ (← get).rank then refuse base .sectionOrder
    modify fun l => { l with rank := kind.rank }

/-- Reads the section at a position, and gives the position after it. -/
def oneSection (resolve : Resolver σ) (bytes : ByteArray) (pos : Nat) : Load σ Nat := do
  let (header, start) ← read 0 Reader.sectionHeader bytes pos
  let (part, next) ← read 0 (Reader.bytes header.size) bytes start
  advance start header.kind
  let stop ← payload resolve start part header.kind
  if stop < part.size then refuse (start + stop) .unreadPayload
  return next

/-- Reads the sections from a position on. Each takes a byte at least. -/
def sections (resolve : Resolver σ) (bytes : ByteArray) : (fuel : Nat) → (pos : Nat) → Load σ Unit
  | 0, _ => return
  | fuel + 1, pos =>
    if bytes.size ≤ pos then return
    else do
      let next ← oneSection resolve bytes pos
      sections resolve bytes fuel next

/-- The bytes that a module starts with, and then those of its version. -/
def magic : ByteArray := ⟨#[0x00, 0x61, 0x73, 0x6D]⟩
def version : ByteArray := ⟨#[0x01, 0x00, 0x00, 0x00]⟩

/-- Four given bytes at an offset. -/
def expect (bytes : ByteArray) (offset : Nat) (part : ByteArray) (defect : Defect) : Load σ Unit :=
  match Reader.bytes 4 bytes offset with
  | .ok found _ => if found.data = part.data then return else refuse offset defect
  | .error _ _ => refuse offset .truncatedHeader

/-- Reads a whole module. -/
def container (resolve : Resolver σ) (bytes : ByteArray) : Load σ Unit := do
  expect bytes 0 magic .magic
  expect bytes 4 version .version
  sections resolve bytes bytes.size 8
  let l ← get
  if l.declared ≠ l.bodies then refuse bytes.size .bodyCount
  set { l with module := l.module.withJumps l.store }

end Load

/-- Reads a module: its functions and signatures, the store it starts with, and notices. -/
def Module.decode {σ : Type} (bytes : ByteArray) (options : Options) (resolve : Resolver σ) :
    EStateM.Result Failure (Loading σ) Unit :=
  Load.container resolve bytes { store := { options } }

end Wasm
