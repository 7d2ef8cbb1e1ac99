import Wasm.Module.Decode
import Wasm.Exec.Machine

/-! Using a module: loading it, calling its exports, and looking at what it leaves. -/

namespace Wasm
variable {σ : Type}

/-- What is done with a module. A failure leaves the machine as it says. -/
abbrev Session (σ : Type) : Type → Type := EStateM Failure (Machine σ)

namespace Module

/-- The function at an index, if the arguments are right for it. -/
def accept (m : Module σ) (index : Nat) (arguments : Array Value) : Except Trap (Function σ) := do
  let f ← m.function index
  let params := f.signature.params
  if params.length ≠ arguments.size then throw (.argumentCount params.length arguments.size)
  match (arguments.toList.zip params).find? fun (v, t) => v.type ≠ t with
  | some (v, t) => throw (.typeMismatch t v.type)
  | none => return f

/-- Pushes the arguments and runs a function to its end. -/
def runToEnd (m : Module σ) (fuel : Nat) (f : Function σ) (index : Nat) (arguments : Array Value)
    (machine : Machine σ) : Outcome σ :=
  let offset := machine.store.stack.size
  let entered := do
    Run.onStack (Stack.pushMany arguments)
    m.enter f index offset
  match entered machine with
  | .ok (some act) machine => m.run fuel [act] machine
  | .ok none machine => .returned machine
  | .error e machine => .trapped e machine

/-- Calls the function at an index; its results stay on the stack. A trap cuts the stack down to the height it had. -/
def invokeIndex (m : Module σ) (fuel index : Nat) (arguments : Array Value) : Session σ Unit := fun machine =>
  match m.accept index arguments with
  | .error e => .error (.trap e) machine
  | .ok f =>
    let height := machine.store.stack.size
    let depth := machine.store.depth
    match m.runToEnd fuel f index arguments machine with
    | .returned machine => .ok () machine
    | .trapped e ⟨store, host, notices⟩ =>
      let ⟨values⟩ := store.stack
      .error (.trap e) ⟨{ store with stack := ⟨values.shrink height⟩, depth }, host, notices⟩
    | .unfinished machine => .error .unfinished machine

/-- The index of the function that is exported under a name. -/
def lookup (m : Module σ) (name : String) : Except Failure Nat :=
  match m.find? name with
  | some index => .ok index
  | none => .error (.noExport name)

/-- Calls an exported function; its results stay on the stack. -/
def invoke (m : Module σ) (fuel : Nat) (name : String) (arguments : Array Value) : Session σ Unit := do
  let index ← ofExcept (m.lookup name)
  m.invokeIndex fuel index arguments

/-- An operation on the stack, from outside of a run. -/
def onStack {α : Type} (op : Stack.Op α) : Session σ α := fun machine =>
  match Run.onStack op machine with
  | .ok a machine => .ok a machine
  | .error e machine => .error (.trap e) machine

/-- Calls an exported function and pops its results. -/
def call (m : Module σ) (fuel : Nat) (name : String) (arguments : Array Value) : Session σ (Array Value) := do
  let index ← ofExcept (m.lookup name)
  m.invokeIndex fuel index arguments
  let arity := (m.functions[index]?.map fun f => f.signature.results.length).getD 0
  onStack (Stack.popMany arity)

/-- The values on top of the stack, which stay there. -/
def readResults (n : Nat) : Session σ (Array Value) := onStack (Stack.top n)

/-- How the loading of a module ends: with the module or a failure, and with what the host and the notices tell. -/
structure Loaded (σ : Type) where
  result : Except Failure (Module σ)
  machine : Machine σ

/-- Reads a module and runs its start function, if it has one. -/
def load (fuel : Nat) (bytes : ByteArray) (options : Options) (resolve : Resolver σ) (host : σ) : Loaded σ :=
  match decode bytes options resolve with
  | .error e l => ⟨.error e, ⟨l.store, host, l.notices⟩⟩
  | .ok () l =>
    let machine : Machine σ := ⟨l.store, host, l.notices⟩
    match l.module.start with
    | none => ⟨.ok l.module, machine⟩
    | some index =>
      match l.module.invokeIndex fuel index #[] machine with
      | .ok () machine => ⟨.ok l.module, machine⟩
      | .error e machine => ⟨.error e, machine⟩

end Module

namespace Store

/-- The index of the first memory that is exported under a name. -/
def findMemory? (s : Store) (name : String) : Option Nat := s.memories.findIdx? fun m => m.name == some name

/-- The first global that is exported under a name. -/
def findGlobal? (s : Store) (name : String) : Option Global := s.globals.find? fun g => g.name == some name

end Store
end Wasm
