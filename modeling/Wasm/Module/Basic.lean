import Wasm.Host
import Wasm.Exec.JumpTable

/-! Modules: the functions and signatures that stay as they are while a module is in use, and what is told of its reading
    and its runs. -/

namespace Wasm

/-! ### Notices -/

/-- What a run or the reading of a module passes over. -/
inductive Notice
  /-- A function's call of itself that was skipped. -/
  | repeatedCall (function : Nat)
  /-- A loop of a function that was left, or went on behind its branch. -/
  | repeatedLoop (function start : Nat)
  | depthLimit (function limit : Nat)
  | ignoredExport (kind : ExportKind) (name : String)
deriving DecidableEq, Repr

def Notice.text : Notice → String
  | repeatedCall function =>
    "stackwasm::guard: self-call repeats its arguments with no intervening effect; skipping " ++
      s!"function={function}"
  | repeatedLoop function start =>
    "stackwasm::guard: loop would repeat with unchanged state; leaving it " ++
      s!"function={function} offset={start}"
  | depthLimit function limit =>
    s!"stackwasm::guard: call depth limit reached function={function} limit={limit}"
  | ignoredExport kind name =>
    s!"stackwasm::decode: export kind not supported; ignored kind={kind.tag} name={name}"

/-! ### Functions -/

/-- Where what a function does comes from. -/
inductive Body (σ : Type)
  /-- The code has not been read yet. -/
  | pending
  | code (bytes : ByteArray)
  | host (moduleName name : String) (bound : Option (HostFunc σ))

structure Function (σ : Type) where
  /-- The name of the export of this function. -/
  name : Option String := none
  signature : FuncType
  /-- The locals declared after the parameters. -/
  locals : List ValType := []
  body : Body σ := .pending

structure Module (σ : Type) where
  functions : Array (Function σ) := #[]
  types : Array FuncType := #[]
  /-- The function that runs when the module is loaded. -/
  start : Option Nat := none
  /-- The jump table of each function. -/
  jumps : Array (Except Trap JumpTable) := #[]

variable {σ : Type}

/-- The body as it is listed. -/
def Body.text : Body σ → String
  | pending => "Pending"
  | code bytes => s!"Code({bytes.size} bytes)"
  | host moduleName name bound =>
    "Host \x7b module: " ++ quoted moduleName ++ ", field: " ++ quoted name ++ ", bound: " ++
      toString bound.isSome ++ " \x7d"

namespace Function

def isImported (f : Function σ) : Bool :=
  match f.body with
  | .host _ _ _ => true
  | _ => false

/-- The jump table of the function at an index, found on a shadow of a store. -/
def jumpTable (signatures : Array FuncType) (live : Store) (index : Nat) (f : Function σ) : Except Trap JumpTable :=
  match f.body with
  | .code bytes => JumpTable.build signatures f.signature f.locals bytes live
  | _ => .error (.missingBody index)

end Function

namespace Module

def signatures (m : Module σ) : Array FuncType := m.functions.map (·.signature)

/-- Finds the jump tables of all functions, on shadows of a store. -/
def withJumps (m : Module σ) (live : Store) : Module σ :=
  let signatures := m.signatures
  { m with jumps := m.functions.mapIdx (Function.jumpTable signatures live) }

/-- The function at an index. -/
def function (m : Module σ) (index : Nat) : Except Trap (Function σ) :=
  match m.functions[index]? with
  | some f => .ok f
  | none => .error (.unknownFunction index)

/-- The jump table of the function at an index. -/
def jumpTable (m : Module σ) (index : Nat) : Except Trap JumpTable :=
  match m.jumps[index]? with
  | some table => table
  | none => .error (.unknownFunction index)

/-- The first function that is exported under a name. -/
def find? (m : Module σ) (name : String) : Option Nat := m.functions.findIdx? fun f => f.name == some name

/-- The exported functions in order, with their signatures. -/
def exports (m : Module σ) : List (String × FuncType) :=
  m.functions.toList.filterMap fun f => f.name.map fun name => (name, f.signature)

end Module
end Wasm
