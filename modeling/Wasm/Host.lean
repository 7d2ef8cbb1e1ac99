import Wasm.Value
import Wasm.Trap
import Wasm.Text.Quoted

/-! Functions that the host supplies. They run on a state `σ` of the host's own. -/

namespace Wasm

/-- A host function takes the arguments and gives the results, both in order of declaration. -/
abbrev HostFunc (σ : Type) : Type := Array Value → EStateM Trap σ (Array Value)

/-- Finds the host function that a module imports. An import without one traps when it is called. -/
abbrev Resolver (σ : Type) : Type := (moduleName name : String) → FuncType → Option (HostFunc σ)

/-- The resolver that knows no function. -/
def Resolver.none {σ : Type} : Resolver σ := fun _ _ _ => Option.none

/-- Host functions under the names that modules import them by. -/
structure Imports (σ : Type) where
  functions : List ((String × String) × HostFunc σ) := []

namespace Imports
variable {σ : Type}

/-- Adds a function, in the place of the one that had its names before. -/
def insert (imports : Imports σ) (moduleName name : String) (f : HostFunc σ) : Imports σ :=
  ⟨((moduleName, name), f) :: imports.functions.filter fun entry => entry.1 ≠ (moduleName, name)⟩

def find? (imports : Imports σ) (moduleName name : String) : Option (HostFunc σ) :=
  imports.functions.lookup (moduleName, name)

def size (imports : Imports σ) : Nat := imports.functions.length

/-- The functions, whatever signature they are imported by. -/
def resolver (imports : Imports σ) : Resolver σ := fun moduleName name _ => imports.find? moduleName name

/-- The names of the functions, sorted, as they are listed. -/
def text (imports : Imports σ) : String :=
  let names := imports.functions.map fun ((moduleName, name), _) => moduleName ++ "." ++ name
  let sorted := names.mergeSort fun a b => !(b < a)
  "Imports \x7b funcs: [" ++ ", ".intercalate (sorted.map quoted) ++ "] \x7d"

theorem find?_insert_self (imports : Imports σ) (moduleName name : String) (f : HostFunc σ) :
    (imports.insert moduleName name f).find? moduleName name = some f := by
  simp [insert, find?]

end Imports
end Wasm
