import Wasm.Proofs.MemoryImage
import Wasm.Module.Decode

/-! Outlines: what a module file says, apart from how it is spelled, and the tables of functions, memories, globals and
    data segments that it gives. -/

namespace Wasm

/-- What the sections of a module say. A section that is not there says nothing. -/
structure Outline where
  types : List FuncType := []
  imports : List ImportEntry := []
  /-- The signature index of each declared function. -/
  functions : List Nat := []
  memories : List Limits := []
  globals : List GlobalEntry := []
  exports : List ExportEntry := []
  start : Option Nat := none
  code : List CodeEntry := []
  data : List DataEntry := []

/-! ### Entries -/

/-- The signature at an index. -/
def signatureAt (types : List FuncType) (index : Nat) : FuncType := types[index]?.getD default

namespace ImportEntry
variable {σ : Type}

/-- Whether an entry imports a function. -/
def isFunction (e : ImportEntry) : Bool :=
  match e.kind with
  | .func _ => true
  | _ => false

/-- The function that an entry imports. -/
def function? (types : List FuncType) (resolve : Resolver σ) (e : ImportEntry) : Option (Function σ) :=
  match e.kind with
  | .func index =>
    let t := signatureAt types index
    some { signature := t, body := .host e.moduleName e.name (resolve e.moduleName e.name t) }
  | _ => none

/-- The bounds of the memory that an entry imports. -/
def limits? (e : ImportEntry) : Option Limits :=
  match e.kind with
  | .memory limits => some limits
  | _ => none

/-- The global that an entry imports. Its value is not known, and zero stands for it. -/
def global? (e : ImportEntry) : Option Global :=
  match e.kind with
  | .global type isMutable => some { value := .zero type, isConstant := !isMutable }
  | _ => none

end ImportEntry

/-- The declared function at an index, with the body at the same index, if there is one. -/
def declaredFunction {σ : Type} (types : List FuncType) (code : List CodeEntry) (i signature : Nat) : Function σ :=
  match code[i]? with
  | some entry => { signature := signatureAt types signature, locals := entry.locals, body := .code entry.body }
  | none => { signature := signatureAt types signature }

/-- The value of an initializer that may read the given globals. -/
def ConstExpr.eval (globals : List Global) : ConstExpr → Value
  | .value v => v
  | .globalGet index => (globals[index]?.map (·.value)).getD default

/-- An initializer gives a value of a type where it may read globals of the given types. -/
def ConstExpr.HasType (types : List ValType) : ConstExpr → ValType → Prop
  | .value v, t => v.type = t
  | .globalGet index, t => types[index]? = some t

/-- A global with the value of its initializer. -/
def GlobalEntry.global (before : List Global) (e : GlobalEntry) : Global :=
  { value := e.init.eval before, isConstant := !e.isMutable }

/-- What is left of a segment for instructions to copy: nothing of one that is copied when the module is loaded. -/
def DataEntry.kept (d : DataEntry) : ByteArray :=
  match d.mode with
  | .passive => d.bytes
  | .active _ _ => .empty

/-! ### Tables -/

namespace Outline
variable {σ : Type} (A : Outline) (resolve : Resolver σ)

/-- The name that the last export of something gives it. -/
def nameOf (kind : ExportKind) (index : Nat) : Option String :=
  (A.exports.reverse.find? fun e => e.kind = kind ∧ e.index = index).map (·.name)

def importedFunctions : List (Function σ) := A.imports.filterMap (ImportEntry.function? A.types resolve)

/-- The imported functions, and then the declared ones. -/
def functionList : List (Function σ) := A.importedFunctions resolve ++ A.functions.mapIdx (declaredFunction A.types A.code)

def functionTable : Array (Function σ) :=
  (A.functionList resolve).toArray.mapIdx fun i f => { f with name := A.nameOf .func i }

/-- The bounds of the imported memories, and then those of the declared ones. -/
def memoryLimits : List Limits := A.imports.filterMap ImportEntry.limits? ++ A.memories

def importedGlobals : List Global := A.imports.filterMap ImportEntry.global?

/-- The imported globals, and then the declared ones. The initializer of each may read those before it. -/
def globalList : List Global :=
  A.globals.foldl (fun before e => before ++ [e.global before]) A.importedGlobals

def globalTable : Array Global := A.globalList.toArray.mapIdx fun i g => { g with name := A.nameOf .global i }

/-- The address that an initializer gives. -/
def address (place : ConstExpr) : Nat :=
  match place.eval A.globalList with
  | .i32 v => v.toNat
  | _ => 0

/-- The segment that an entry writes to a memory. -/
def segment? (memory : Nat) (d : DataEntry) : Option Segment :=
  match d.mode with
  | .active index place => if index = memory then some (A.address place, d.bytes) else none
  | .passive => none

/-- The segments that are written to a memory, in order. -/
def segments (memory : Nat) : List Segment := A.data.filterMap (A.segment? memory)

def memoryTable : Array Memory :=
  A.memoryLimits.toArray.mapIdx fun i limits => .holding limits (A.nameOf .memory i) (A.segments i)

def dataTable : Array ByteArray := (A.data.map DataEntry.kept).toArray

/-- The functions and signatures, without jump tables. -/
def module : Module σ := { functions := A.functionTable resolve, types := A.types.toArray, start := A.start }

/-- The store that a module starts with. -/
def store (options : Options) : Store :=
  { memories := A.memoryTable, globals := A.globalTable, data := A.dataTable, options }

/-- The exports of tables are ignored, which is told. -/
def notices : Array Notice :=
  (A.exports.filterMap fun e => if e.kind = .table then some (.ignoredExport .table e.name) else none).toArray

/-! ### What is right -/

/-- The types of the imported globals, and then those of the declared ones. -/
def globalTypes : List ValType := A.importedGlobals.map (·.value.type) ++ A.globals.map (·.type)

/-- The number of what there is to export of a kind. -/
def count : ExportKind → Nat
  | .func => A.imports.countP ImportEntry.isFunction + A.functions.length
  | .memory => A.memoryLimits.length
  | .global => A.globalTypes.length
  | .table => 0

/-- An active segment goes to a memory that is there, and has room in it. -/
def Fits (d : DataEntry) : Prop :=
  match d.mode with
  | .passive => True
  | .active memory place => place.HasType A.globalTypes .i32 ∧ ∃ limits, A.memoryLimits[memory]? = some limits ∧
    Segment.stop (A.address place, d.bytes) ≤ Memory.mostPages limits * pageSize

/-- What the entries of a kind of section refer to is there, and of the right type. -/
def Right : SectionKind → Prop
  | .imports => ∀ e ∈ A.imports,
    (∀ index, e.kind = .func index → index < A.types.length) ∧ ∀ limits, e.kind = .memory limits → limits.Valid
  | .functions => ∀ index ∈ A.functions, index < A.types.length
  | .memories => ∀ limits ∈ A.memories, limits.Valid
  -- An initializer reads only globals that come before.
  | .globals => ∀ before e after, A.globals = before ++ e :: after →
    e.init.HasType (A.importedGlobals.map (·.value.type) ++ before.map (·.type)) e.type
  | .exports => ∀ e ∈ A.exports, e.kind = .table ∨ e.index < A.count e.kind
  | .code => A.code.length = A.functions.length
  | .data => ∀ d ∈ A.data, A.Fits d
  | _ => True

def WellFormed : Prop := ∀ kind, A.Right kind

variable {A}

/-- The memories may have as many pages as they have at least. -/
theorem memoryLimits_valid (imports : A.Right .imports) (memories : A.Right .memories) :
    ∀ limits ∈ A.memoryLimits, limits.Valid := by
  intro limits h
  rcases List.mem_append.mp h with h | h
  · obtain ⟨e, he, same⟩ := List.mem_filterMap.mp h
    unfold ImportEntry.limits? at same
    split at same <;> cases same
    exact (imports e he).2 _ ‹_›
  · exact memories limits h

end Outline
end Wasm
