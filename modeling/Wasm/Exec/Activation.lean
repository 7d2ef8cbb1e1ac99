import Wasm.Module.Basic

/-! Activations: functions that run. An activation reads one instruction after another; constructs and branches
    work on its labels, everything else on the store. -/

namespace Wasm

/-- What a run works on: the store, the state of the host, and the notices given so far. -/
structure Machine (σ : Type) where
  store : Store
  host : σ
  notices : Array Notice := #[]

/-- What runs on a machine. A trap leaves the machine as far as the run came. -/
abbrev Run (σ : Type) : Type → Type := EStateM Trap (Machine σ)

/-- A construct that an activation is in. -/
structure Label where
  kind : BlockKind
  /-- The position of the opcode that opened it. -/
  start : Nat
  /-- The position of its end. -/
  stop : Nat
  /-- The height of the stack below its parameters. -/
  height : Nat
  /-- The number of values that a branch to it takes along: the parameters of a loop, else the results. -/
  arity : Nat
  results : List ValType
  /-- What the frame held when a loop was entered. -/
  snapshot : Array Value
  /-- The count of effects when it was entered. -/
  effects : Nat
deriving DecidableEq, Repr

/-- A function that runs. -/
structure Activation where
  index : Nat
  body : ByteArray
  jumps : JumpTable
  frame : Frame
  results : List ValType
  /-- The arguments it was called with. -/
  arguments : Array Value
  /-- The count of effects when it was called. -/
  effects : Nat
  /-- The position of the next instruction. -/
  pos : Nat := 0
  /-- The constructs it is in, innermost first. -/
  labels : List Label := []

/-- How a run goes on after an instruction. -/
inductive Flow
  | next (act : Activation)
  | call (act : Activation) (callee : Nat)
  | ret

namespace Run
variable {σ α : Type}

/-- An operation on the store. -/
@[inline] def onStore (op : Exec α) : Run σ α := fun ⟨store, host, notices⟩ =>
  match op store with
  | .ok a store => .ok a ⟨store, host, notices⟩
  | .error e store => .error e ⟨store, host, notices⟩

/-- An operation on the stack. -/
@[inline] def onStack (op : Stack.Op α) : Run σ α := onStore (Store.onStack op)

def notify (n : Notice) : Run σ Unit := modify fun m => { m with notices := m.notices.push n }

def store : Run σ Store := fun m => .ok m.store m

end Run

/-- The zeros that stand for skipped results. -/
def zeros (ts : List ValType) : Array Value := (ts.map Value.zero).toArray

namespace Activation
open Run
variable {σ : Type}

/-- Goes on at a position, which may be the end of the body. -/
def goto (act : Activation) (pos : Nat) : Run σ Activation :=
  if pos ≤ act.body.size then return { act with pos } else throw (.binary (.unexpectedEnd pos))

/-- What a block takes and gives. -/
def blockSignature (types : Array FuncType) (t : BlockType) (start : Nat) : Run σ (Nat × List ValType) :=
  match t.arity types with
  | .ok signature => pure signature
  | .error _ => throw (.binary (.malformed .blockTypeIndex start))

/-- The height of the stack below as many values. -/
def heightBelow (n : Nat) : Run σ Nat := do
  let s ← store
  if n ≤ s.stack.size then return s.stack.size - n else throw .stackUnderflow

/-- Enters a block. -/
def enterBlock (act : Activation) (types : Array FuncType) (t : BlockType) (start : Nat) : Run σ Activation := do
  let (params, results) ← blockSignature types t start
  let height ← heightBelow params
  let stop ← ofExcept (act.jumps.blockEnd start)
  let label : Label := ⟨.block, start, stop, height, results.length, results, #[], (← store).effects⟩
  return { act with labels := label :: act.labels }

/-- Enters a loop, and notes what the frame holds if the loop guard will ask for it. -/
def enterLoop (act : Activation) (types : Array FuncType) (t : BlockType) (start : Nat) : Run σ Activation := do
  let (params, results) ← blockSignature types t start
  let height ← heightBelow params
  let stop ← ofExcept (act.jumps.loopEnd start)
  let s ← store
  let snapshot :=
    if s.options.loopGuard then s.stack.values.extract act.frame.offset s.stack.values.size else #[]
  let label : Label := ⟨.loop, start, stop, height, params, results, snapshot, s.effects⟩
  return { act with labels := label :: act.labels }

/-- Enters an if: its first arm if the condition holds, else the second one, or its end if it has none. -/
def enterIf (act : Activation) (types : Array FuncType) (t : BlockType) (start : Nat) : Run σ Activation := do
  let (params, results) ← blockSignature types t start
  let condition ← onStack (Stack.popInt .w32)
  let (otherwise, stop) ← ofExcept (act.jumps.ifTargets start)
  let height ← heightBelow params
  let label : Label := ⟨.ifThen, start, stop, height, results.length, results, #[], (← store).effects⟩
  let act := { act with labels := label :: act.labels }
  if condition ≠ 0 then return act
  else if otherwise = stop then goto act stop
  else goto act (otherwise + 1)

/-- Leaves the first arm of an if. -/
def leaveArm (act : Activation) (start : Nat) : Run σ Activation :=
  match act.labels with
  | label :: _ => if label.kind = .ifThen then goto act label.stop else throw (.unbalancedBlock start)
  | [] => throw (.unbalancedBlock start)

/-- Leaves a construct at its end, or the function if there is none. -/
def leave (act : Activation) : Run σ Flow :=
  match act.labels with
  | [] => return .ret
  | label :: rest => do
    onStack (Stack.settle label.height label.results.length)
    return .next { act with labels := rest }

/-- A branch back to the loop would enter it with the frame as it was before. -/
def reentersUnchanged (label : Label) (frame : Frame) (stack : Stack) : Bool :=
  decide (frame.offset ≤ label.height ∧ label.height ≤ stack.size) &&
    match stack.top? label.arity with
    | none => false
    | some carried => label.snapshot == stack.values.extract frame.offset label.height ++ carried

/-- A branch to a loop is idle if nothing has changed since the loop was entered. -/
def isIdle (label : Label) (frame : Frame) (s : Store) : Bool :=
  label.kind = .loop && s.options.loopGuard && label.effects == s.effects &&
    reentersUnchanged label frame s.stack

/-- Branches to the construct that `depth` others are inside of, or out of the function. An idle branch is not
    taken: a conditional one goes on behind it, another one leaves the loop with zeros for its results. -/
def branch (act : Activation) (depth : Nat) (conditional : Bool) : Run σ Flow := do
  if depth = act.labels.length then return .ret
  match act.labels[depth]? with
  | none => throw (.branchDepth depth)
  | some label =>
    let outer := act.labels.drop (depth + 1)
    if isIdle label act.frame (← store) then
      notify (.repeatedLoop act.index label.start)
      if conditional then return .next act
      else
        onStack (Stack.truncate label.height)
        onStack (Stack.pushMany (zeros label.results))
        return .next (← goto { act with labels := outer } (label.stop + 1))
    else
      onStack (Stack.settle label.height label.arity)
      let act := { act with labels := outer }
      match label.kind with
      | .loop =>
        match act.jumps.loopStart? label.stop with
        | some start => return .next (← goto act start)
        | none => throw (.unbalancedBlock label.stop)
      | _ => return .next (← goto act (label.stop + 1))

/-- Runs the instruction that was read at `start`. -/
def exec (types : Array FuncType) (act : Activation) (start : Nat) : Instr → Run σ Flow
  | .plain p => do
    onStore (p.exec act.frame)
    return .next act
  | .block t => return .next (← enterBlock act types t start)
  | .loop t => return .next (← enterLoop act types t start)
  | .ifThen t => return .next (← enterIf act types t start)
  | .elseMark => return .next (← leaveArm act start)
  | .endMark => leave act
  | .br depth => branch act depth false
  | .brIf depth => do
    let condition ← onStack (Stack.popInt .w32)
    if condition ≠ 0 then branch act depth true else return .next act
  | .brTable targets fallback => do
    let index ← onStack Stack.popAddress
    branch act (targets[index]?.getD fallback) false
  | .ret => return .ret
  | .call callee => return .call act callee

/-- Reads the next instruction and runs it. -/
def step (types : Array FuncType) (act : Activation) : Run σ Flow :=
  match Instr.read act.body act.pos with
  | .ok i next => exec types { act with pos := next } act.pos i
  | .error e _ => throw e

end Activation
end Wasm
