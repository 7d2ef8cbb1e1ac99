import Wasm.Exec.Activation

/-! Runs: a chain of activations, each waiting for the one it called, works until none is left. -/

namespace Wasm
variable {σ : Type}

open Run

/-- A host function has to give the declared results. -/
def checkResults (declared : List ValType) (results : Array Value) : Except Trap Unit :=
  if results.size ≠ declared.length then
    .error (.host s!"expected {declared.length} results, got {results.size}")
  else
    match (results.toList.zip declared).find? fun (v, t) => v.type ≠ t with
    | some (v, t) => .error (.typeMismatch t v.type)
    | none => .ok ()

namespace Run

/-- Calls a host function. A call that fails counts as an effect, too. -/
def callHost (f : HostFunc σ) (arguments : Array Value) : Run σ (Array Value) := fun ⟨store, host, notices⟩ =>
  let store := { store with effects := store.effects + 1 }
  match f arguments host with
  | .ok results host => .ok results ⟨store, host, notices⟩
  | .error e host => .error e ⟨store, host, notices⟩

/-- Notes that an activation is over. -/
def leaveDepth : Run σ Unit := onStore (modify fun s => { s with depth := s.depth - 1 })

end Run

namespace Module

/-- Starts the function at an index, whose arguments are on the stack from `offset` on. A host function is over at
    once; another one gives the activation to run. -/
def enter (m : Module σ) (f : Function σ) (index offset : Nat) : Run σ (Option Activation) := do
  let s ← store
  let limit := s.options.maxCallDepth
  if limit ≤ s.depth then
    notify (.depthLimit index limit)
    throw (.callStackExhausted limit)
  onStore (modify fun s => { s with depth := s.depth + 1 })
  let params := f.signature.params.length
  if s.stack.size < offset + params then throw .stackUnderflow
  match f.body with
  | .pending => throw (.missingBody index)
  | .host moduleName name none => throw (.unboundImport moduleName name)
  | .host _ _ (some function) =>
    let arguments ← onStack (Stack.popMany params)
    let results ← callHost function arguments
    ofExcept (checkResults f.signature.results results)
    onStack (Stack.truncate offset)
    onStack (Stack.pushMany results)
    leaveDepth
    return none
  | .code body =>
    let jumps ← ofExcept (m.jumpTable index)
    let arguments := if s.options.recursionGuard then s.stack.values.extract offset (offset + params) else #[]
    onStack (Stack.pushMany (zeros f.locals))
    return some {
      index, body, jumps, arguments
      frame := ⟨offset, params + f.locals.length⟩
      results := f.signature.results
      effects := s.effects }

/-- Finds that a call repeats the caller's own with the same arguments, and nothing has changed in between. -/
def isRepeated (act : Activation) (callee params : Nat) (s : Store) : Except Trap Bool :=
  if callee = act.index ∧ s.options.recursionGuard = true ∧ s.effects = act.effects then
    match s.stack.top? params with
    | none => .error .stackUnderflow
    | some vs => .ok (vs == act.arguments)
  else .ok false

/-- Calls a function from an activation. A repeated call is skipped, with zeros for its results. -/
def callFrom (m : Module σ) (act : Activation) (callee : Nat) : Run σ (Option Activation) := do
  let f ← ofExcept (m.function callee)
  let params := f.signature.params.length
  if ← ofExcept (isRepeated act callee params (← store)) then
    notify (.repeatedCall callee)
    discard (onStack (Stack.popMany params))
    onStack (Stack.pushMany (zeros f.signature.results))
    return none
  let offset ← Activation.heightBelow params
  m.enter f callee offset

/-- Ends an activation: its results take the place of its frame. -/
def leave (act : Activation) : Run σ Unit := do
  onStack (Stack.settle act.frame.offset act.results.length)
  leaveDepth

/-- Runs one instruction of the innermost activation. -/
def step (m : Module σ) (act : Activation) (callers : List Activation) : Run σ (List Activation) := do
  match ← act.step m.types with
  | .next act => return act :: callers
  | .ret =>
    leave act
    return callers
  | .call act callee =>
    match ← m.callFrom act callee with
    | some inner => return inner :: act :: callers
    | none => return act :: callers

end Module

/-- How a run ends: by itself, by a trap, or for lack of fuel. -/
inductive Outcome (σ : Type)
  | returned (final : Machine σ)
  | trapped (e : Trap) (final : Machine σ)
  | unfinished (sofar : Machine σ)

/-- Runs a chain of activations for `fuel` instructions at most. -/
def Module.run (m : Module σ) : (fuel : Nat) → List Activation → Machine σ → Outcome σ
  | _, [], machine => .returned machine
  | 0, _ :: _, machine => .unfinished machine
  | fuel + 1, act :: callers, machine =>
    match m.step act callers machine with
    | .ok chain machine => m.run fuel chain machine
    | .error e machine => .trapped e machine

end Wasm
