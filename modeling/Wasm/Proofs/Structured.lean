import Wasm.Proofs.Code
import Wasm.Exec.Machine

/-! What structured code means, with no positions to go to and no labels. Code is left at its end, by a branch to a
    construct around it, by a return or by a trap. A construct takes the way its inside was left, and goes on, or is
    entered again, or is left itself. -/

namespace Wasm
variable {σ : Type}

open Run

/-- How code is left. -/
inductive Ending
  /-- At its end. -/
  | fall
  /-- By a branch to the construct around it that `depth` others are inside of. -/
  | branch (depth : Nat)
  | ret
  | trap (e : Trap)
deriving DecidableEq

/-- A branch from inside of `depth` constructs: to one of them, out of the function, or nowhere. -/
def Ending.ofBranch (depth target : Nat) : Ending :=
  if target < depth then .branch target
  else if target = depth then .ret
  else .trap (.branchDepth target)

/-- What a construct that has been entered does to the stack. -/
structure Extent where
  /-- The height of the stack below the parameters. -/
  height : Nat
  params : Nat
  results : Nat
deriving DecidableEq, Repr

/-- The values that a branch to a construct takes along. -/
def Extent.arity (x : Extent) : BlockKind → Nat
  | .loop => x.params
  | _ => x.results

/-- What becomes of a construct whose inside has been left. -/
inductive Sequel
  /-- It is over, and what comes after it is next. -/
  | ended
  /-- It is entered again. -/
  | again
  | left (how : Ending)
deriving DecidableEq

namespace Run

/-- Keeps what is below a height and the values on top, and takes out what is between. -/
def keep (height arity : Nat) : Run σ Unit := fun M =>
  let values := M.store.stack.values
  if height + arity ≤ values.size then
    .ok () { M with store.stack := ⟨values.extract 0 height ++ values.extract (values.size - arity) values.size⟩ }
  else .error .stackUnderflow M

/-- The height of the stack without the values on top that are asked for. -/
def heightUnder (count : Nat) : Run σ Nat := fun M =>
  let size := M.store.stack.values.size
  if count ≤ size then .ok (size - count) M else .error .stackUnderflow M

theorem heightUnder_eq (count : Nat) : (heightUnder count : Run σ Nat) = Activation.heightBelow count := by
  funext M
  by_cases enough : count ≤ M.store.stack.values.size
  · exact (if_pos enough).trans (congrFun (if_pos enough : ite _ _ _ = (pure _ : Run σ Nat)) M).symm
  · exact (if_neg enough).trans (congrFun (if_neg enough : ite _ _ _ = (throw _ : Run σ Nat)) M).symm

/-- What an operation that has to succeed for a sequel leads to. -/
def leadingTo (sequel : Sequel) (op : Run σ Unit) (M : Machine σ) : Sequel × Machine σ :=
  match op M with
  | .ok () M => (sequel, M)
  | .error e M => (.left (.trap e), M)

end Run

/-- What becomes of a construct, from how its inside was left. A branch to a loop enters it again. -/
def Ending.sequel (kind : BlockKind) (x : Extent) : Ending → Machine σ → Sequel × Machine σ
  | .fall => leadingTo .ended (keep x.height x.results)
  | .branch 0 => leadingTo (if kind = .loop then .again else .ended) (keep x.height (x.arity kind))
  | .branch (depth + 1) => fun M => (.left (.branch depth), M)
  | .ret => fun M => (.left .ret, M)
  | .trap e => fun M => (.left (.trap e), M)

/-- What becomes of a call, from how the code of the function was left: at its end or by a return, the results take
    the place of the frame. -/
def Ending.finish (act : Activation) : Ending → Run σ Unit
  | .trap e => throw e
  | _ => do
    keep act.frame.offset act.results.length
    leaveDepth

namespace Activation

/-- Enters a block or a loop. -/
def opens (types : Array FuncType) (type : BlockType) (start : Nat) : Run σ Extent := do
  let (params, results) ← blockSignature types type start
  return ⟨← heightUnder params, params, results.length⟩

/-- Enters an if, and finds whether the condition holds. -/
def opensIf (types : Array FuncType) (type : BlockType) (start : Nat) : Run σ (Extent × Bool) := do
  let (params, results) ← blockSignature types type start
  let condition ← onStack (Stack.popInt .w32)
  return (⟨← heightUnder params, params, results.length⟩, condition ≠ 0)

end Activation

/-- Calls a function whose arguments are on the stack. A host function is over at once. -/
def Module.begins (m : Module σ) (callee : Nat) : Run σ (Option Activation) := do
  let f ← ofExcept (m.function callee)
  let offset ← heightUnder f.signature.params.length
  m.enter f callee offset

theorem Module.begins_eq (m : Module σ) (callee : Nat) : m.begins callee = (do
    let f ← ofExcept (m.function callee)
    let offset ← Activation.heightBelow f.signature.params.length
    m.enter f callee offset) := by
  unfold begins
  simp only [heightUnder_eq]

open Activation

/-- From inside of `depth` constructs of a frame, the code takes the first machine to the second one, and is left that
    way. -/
inductive Eval (m : Module σ) : (frame : Frame) → (depth : Nat) → Code → Machine σ → Ending → Machine σ → Prop
  | done {frame depth M} : Eval m frame depth .done M .fall M
  | plain {frame depth p rest M M₁ y M₂} : onStore (p.exec frame) M = .ok () M₁ → Eval m frame depth rest M₁ y M₂ →
      Eval m frame depth (.simple (.plain p) rest) M y M₂
  | plain_traps {frame depth p rest M e M₁} : onStore (p.exec frame) M = .error e M₁ →
      Eval m frame depth (.simple (.plain p) rest) M (.trap e) M₁
  | br {frame depth target rest M} : Eval m frame depth (.simple (.br target) rest) M (.ofBranch depth target) M
  | brIf_taken {frame depth target rest M c M₁} : onStack (Stack.popInt .w32) M = .ok c M₁ → c ≠ 0 →
      Eval m frame depth (.simple (.brIf target) rest) M (.ofBranch depth target) M₁
  | brIf_passed {frame depth target rest M c M₁ y M₂} : onStack (Stack.popInt .w32) M = .ok c M₁ → c = 0 →
      Eval m frame depth rest M₁ y M₂ → Eval m frame depth (.simple (.brIf target) rest) M y M₂
  | brIf_traps {frame depth target rest M e M₁} : onStack (Stack.popInt .w32) M = .error e M₁ →
      Eval m frame depth (.simple (.brIf target) rest) M (.trap e) M₁
  | brTable {frame depth targets fallback rest M index M₁} : onStack Stack.popAddress M = .ok index M₁ →
      Eval m frame depth (.simple (.brTable targets fallback) rest) M
        (.ofBranch depth (targets[index]?.getD fallback)) M₁
  | brTable_traps {frame depth targets fallback rest M e M₁} : onStack Stack.popAddress M = .error e M₁ →
      Eval m frame depth (.simple (.brTable targets fallback) rest) M (.trap e) M₁
  | ret {frame depth rest M} : Eval m frame depth (.simple .ret rest) M .ret M
  | call_fails {frame depth callee rest M e M₁} : m.begins callee M = .error e M₁ →
      Eval m frame depth (.simple (.call callee) rest) M (.trap e) M₁
  | call_host {frame depth callee rest M M₁ y M₂} : m.begins callee M = .ok none M₁ →
      Eval m frame depth rest M₁ y M₂ → Eval m frame depth (.simple (.call callee) rest) M y M₂
  | call_returns {frame depth callee rest M act M₁ code x M₂ M₃ y M₄} : m.begins callee M = .ok (some act) M₁ →
      Whole act.body code → Eval m act.frame 0 code M₁ x M₂ → x.finish act M₂ = .ok () M₃ →
      Eval m frame depth rest M₃ y M₄ → Eval m frame depth (.simple (.call callee) rest) M y M₄
  | call_traps {frame depth callee rest M act M₁ code x M₂ e M₃} : m.begins callee M = .ok (some act) M₁ →
      Whole act.body code → Eval m act.frame 0 code M₁ x M₂ → x.finish act M₂ = .error e M₃ →
      Eval m frame depth (.simple (.call callee) rest) M (.trap e) M₃
  | block_fails {frame depth start stop type inner rest M e M₁} : opens m.types type start M = .error e M₁ →
      Eval m frame depth (.block start stop type inner rest) M (.trap e) M₁
  | block_ended {frame depth start stop type inner rest M x M₁ y M₂ M₃ z M₄} : opens m.types type start M = .ok x M₁ →
      Eval m frame (depth + 1) inner M₁ y M₂ → y.sequel .block x M₂ = (.ended, M₃) →
      Eval m frame depth rest M₃ z M₄ → Eval m frame depth (.block start stop type inner rest) M z M₄
  | block_left {frame depth start stop type inner rest M x M₁ y M₂ z M₃} : opens m.types type start M = .ok x M₁ →
      Eval m frame (depth + 1) inner M₁ y M₂ → y.sequel .block x M₂ = (.left z, M₃) →
      Eval m frame depth (.block start stop type inner rest) M z M₃
  | loop_fails {frame depth start stop type inner rest M e M₁} : opens m.types type start M = .error e M₁ →
      Eval m frame depth (.loop start stop type inner rest) M (.trap e) M₁
  | loop_ended {frame depth start stop type inner rest M x M₁ y M₂ M₃ z M₄} : opens m.types type start M = .ok x M₁ →
      Eval m frame (depth + 1) inner M₁ y M₂ → y.sequel .loop x M₂ = (.ended, M₃) →
      Eval m frame depth rest M₃ z M₄ → Eval m frame depth (.loop start stop type inner rest) M z M₄
  | loop_again {frame depth start stop type inner rest M x M₁ y M₂ M₃ z M₄} : opens m.types type start M = .ok x M₁ →
      Eval m frame (depth + 1) inner M₁ y M₂ → y.sequel .loop x M₂ = (.again, M₃) →
      Eval m frame depth (.loop start stop type inner rest) M₃ z M₄ →
      Eval m frame depth (.loop start stop type inner rest) M z M₄
  | loop_left {frame depth start stop type inner rest M x M₁ y M₂ z M₃} : opens m.types type start M = .ok x M₁ →
      Eval m frame (depth + 1) inner M₁ y M₂ → y.sequel .loop x M₂ = (.left z, M₃) →
      Eval m frame depth (.loop start stop type inner rest) M z M₃
  | if_fails {frame depth start otherwise stop type first second rest M e M₁} :
      opensIf m.types type start M = .error e M₁ →
      Eval m frame depth (.ifThen start otherwise stop type first second rest) M (.trap e) M₁
  | if_ended {frame depth start otherwise stop type first second rest M x holds M₁ y M₂ M₃ z M₄} :
      opensIf m.types type start M = .ok (x, holds) M₁ →
      Eval m frame (depth + 1) (if holds then first else second) M₁ y M₂ → y.sequel .ifThen x M₂ = (.ended, M₃) →
      Eval m frame depth rest M₃ z M₄ →
      Eval m frame depth (.ifThen start otherwise stop type first second rest) M z M₄
  | if_left {frame depth start otherwise stop type first second rest M x holds M₁ y M₂ z M₃} :
      opensIf m.types type start M = .ok (x, holds) M₁ →
      Eval m frame (depth + 1) (if holds then first else second) M₁ y M₂ → y.sequel .ifThen x M₂ = (.left z, M₃) →
      Eval m frame depth (.ifThen start otherwise stop type first second rest) M z M₃

/-- An activation whose body is the code comes to an outcome. -/
def Finishes (m : Module σ) (act : Activation) (code : Code) (M : Machine σ) (o : Outcome σ) : Prop :=
  ∃ y M₁, Eval m act.frame 0 code M y M₁ ∧
    match y.finish act M₁ with
    | .ok () M₂ => o = .returned M₂
    | .error e M₂ => o = .trapped e M₂

end Wasm
