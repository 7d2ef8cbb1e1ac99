import Wasm.Exec.Machine

/-! When an instruction takes off no more than its function owns. This is asked of runs that return, where an instruction
    pops all that it can pop; how far down a run works that may trap is told by `Wasm.Module.lowest`. -/

namespace Wasm
variable {σ : Type}

/-- The values that an operation on numbers pops. -/
def Numeric.pops : Numeric → Nat
  | intBinary _ _ | intCompare _ _ | floatBinary _ _ | floatCompare _ _ => 2
  | _ => 1

/-- The values that an instruction pops before it pushes any. -/
def Plain.pops : Plain → Nat
  | drop | localSet _ | localTee _ | globalSet _ | load _ _ | memoryGrow => 1
  | store _ _ => 2
  | select | memoryInit _ | memoryCopy | memoryFill => 3
  | numeric op => op.pops
  | unreachable | nop | localGet _ | globalGet _ | memorySize | const _ | dataDrop _ => 0

/-- The construct that an instruction branches to, if it does, and the stack that it settles. -/
def Instr.target? (i : Instr) (s : Stack) : Option (Nat × Stack) :=
  match i with
  | br depth => some (depth, s)
  | brIf depth =>
    match Stack.popInt .w32 s with
    | .ok condition s => if condition ≠ 0 then some (depth, s) else none
    | .error _ _ => none
  | brTable targets fallback =>
    match Stack.popAddress s with
    | .ok index s => some (targets[index]?.getD fallback, s)
    | .error _ _ => none
  | _ => none

theorem Instr.target?_brIf {depth : Nat} {s t : Stack} {c : BitVec Width.w32.bits}
    (popped : Stack.popInt .w32 s = .ok c t) (holds : c ≠ 0) : (brIf depth).target? s = some (depth, t) := by
  unfold target?
  rw [popped]
  exact if_pos holds

theorem Instr.target?_brTable {targets : Array Nat} {fallback index : Nat} {s t : Stack}
    (popped : Stack.popAddress s = .ok index t) :
    (brTable targets fallback).target? s = some (targets[index]?.getD fallback, t) := by
  unfold target?
  rw [popped]

/-- Settling takes nothing off below a height. -/
def Stack.SettlesAbove (offset : Nat) (s : Stack) (height arity : Nat) : Prop :=
  offset ≤ height ∨ s.values.size = height + arity

namespace Activation

/-- What an instruction pops or takes out of a stack belongs to the frame. The arguments of a call are popped. -/
def Spares (m : Module σ) (act : Activation) (s : Stack) : Instr → Prop
  | .plain p => act.frame.offset + p.pops ≤ s.values.size
  | .ifThen _ => act.frame.offset + 1 ≤ s.values.size
  | .endMark => ∀ L ∈ act.labels.head?, s.SettlesAbove act.frame.offset L.height L.results.length
  | .call callee =>
    ∀ f, m.function callee = .ok f → act.frame.offset + f.signature.params.length ≤ s.values.size
  | .br depth => ∀ L, act.labels[depth]? = some L → s.SettlesAbove act.frame.offset L.height L.arity
  | .brIf depth => act.frame.offset + 1 ≤ s.values.size ∧
    ∀ target s', (Instr.brIf depth).target? s = some (target, s') → ∀ L, act.labels[target]? = some L →
      s'.SettlesAbove act.frame.offset L.height L.arity
  | .brTable targets fallback => act.frame.offset + 1 ≤ s.values.size ∧
    ∀ target s', (Instr.brTable targets fallback).target? s = some (target, s') → ∀ L, act.labels[target]? = some L →
      s'.SettlesAbove act.frame.offset L.height L.arity
  | _ => True

/-- The next instruction spares what is below the frame. -/
def KeepsToFrame (m : Module σ) (act : Activation) (M : Machine σ) : Prop :=
  ∀ i next, Instr.read act.body act.pos = .ok i next → act.Spares m M.store.stack i

end Activation
end Wasm
