import Wasm.Proofs.Entry
import Wasm.Proofs.Growth

/-! What runs are put together from. All operations are sequences of few primitive ones, so that what is to hold of every
    run has to be shown of these only. The limit of the depth is looked at by one of them, the one that goes deeper. -/

namespace Wasm
variable {σ α β : Type}

/-- The same store with another limit of the depth. -/
def Store.withLimit (limit : Nat) (s : Store) : Store := { s with options := { s.options with maxCallDepth := limit } }

/-- The same machine with another limit of the depth. -/
def Machine.withLimit (limit : Nat) (M : Machine σ) : Machine σ := { M with store := M.store.withLimit limit }

theorem Machine.store_withLimit (limit : Nat) (M : Machine σ) : (M.withLimit limit).store = M.store.withLimit limit := rfl

/-! ### Stores -/

/-- An operation that is put together from those on the parts of a store. -/
inductive Exec.Built : {α : Type} → Exec α → Prop
  | pure {α : Type} (a : α) : Built (Pure.pure a)
  | throw {α : Type} (e : Trap) : Built (MonadExcept.throw e : Exec α)
  | bind {α β : Type} {x : Exec α} {k : α → Exec β} : Built x → (∀ a, Built (k a)) → Built (x >>= k)
  | look {α : Type} {k : Store → Exec α} : (∀ s, Built (k s)) → (∀ s limit, k (s.withLimit limit) = k s) → Built (get >>= k)
  | stack {α : Type} (op : Stack.Op α) : Built (Store.onStack op)
  | read {α : Type} {op : Memory.Op α} (index : Nat) : Memory.Reads op → Built (Store.onMemory index op)
  | write {op : Memory.Op Unit} : Memory.Writes op → Built (Plain.writeMemory op)
  | grow (delta : Nat) : Built (Plain.growMemory delta)
  | global (index : Nat) : Built (Store.global index)
  | setGlobal (index : Nat) (v : Value) : Built (Store.setGlobal index v)
  | segment (index offset n : Nat) : Built (Store.segment index offset n)
  | dropSegment (index : Nat) : Built (Store.dropSegment index)

theorem discard_eq_bind {ε τ : Type} (x : EStateM ε τ α) : discard x = x >>= fun _ => Pure.pure ⟨⟩ := by
  funext s
  show EStateM.map _ x s = EStateM.bind x _ s
  unfold EStateM.map EStateM.bind
  cases x s <;> rfl

theorem Exec.Built.discard {x : Exec α} (h : Built x) : Built (Functor.discard x) := by
  rw [discard_eq_bind]
  exact h.bind fun _ => .pure _

namespace Plain
open Exec

theorem slot_built (f : Frame) (index : Nat) : Built (slot f index) := by
  unfold slot
  split
  · exact .pure _
  · exact .throw _

theorem popTarget_built (arg : MemArg) : Built (popTarget arg) := (Built.stack _).bind fun _ => .pure _

theorem assign_built (f : Frame) (index : Nat) : Built (assign f index) := by
  refine (slot_built f index).bind fun i => (Built.stack _).bind fun v => (Built.stack _).bind fun old => ?_
  split
  · exact .throw _
  · exact (Built.stack _).bind fun _ => .pure v

theorem exec_built (f : Frame) (p : Plain) : Built (p.exec f) := by
  have pop := Built.stack Stack.pop
  have address := Built.stack Stack.popAddress
  have push := fun v => Built.stack (Stack.push v)
  cases p with
  | unreachable => exact .throw _
  | nop => exact .pure _
  | drop => exact pop.discard
  | select => exact (Built.stack _).bind fun _ => pop.bind fun _ => pop.bind fun _ => push _
  | localGet index => exact (slot_built f index).bind fun i => (Built.stack _).bind fun _ => push _
  | localSet index => exact (assign_built f index).discard
  | localTee index => exact (assign_built f index).bind fun _ => push _
  | globalGet index => exact (Built.global index).bind fun _ => push _
  | globalSet index => exact pop.bind fun v => .setGlobal index v
  | load op arg => exact (popTarget_built arg).bind fun a => (Built.read 0 (Memory.load_reads _ _)).bind fun _ => push _
  | store op arg =>
    exact (Built.stack _).bind fun _ => (popTarget_built arg).bind fun _ => .write (Memory.store_writes _ _ _)
  | memorySize => exact (Built.read 0 fun _ _ same => same).bind fun _ => push _
  | memoryGrow => exact address.bind fun delta => (Built.grow delta).bind fun _ => push _
  | const v => exact push v
  | numeric op => exact .stack op.exec
  | memoryInit index =>
    refine address.bind fun n => address.bind fun source => address.bind fun target => .look (fun s => ?_) fun _ _ => rfl
    split
    · exact .pure _
    · exact (Built.segment index source n).bind fun part => .write (Memory.write_writes _ _)
  | dataDrop index =>
    refine .look (fun s => ?_) fun _ _ => rfl
    split
    · exact .pure _
    · exact .dropSegment index
  | memoryCopy =>
    exact address.bind fun n => address.bind fun source => address.bind fun target => .write (Memory.copy_writes _ _ _)
  | memoryFill =>
    exact address.bind fun n => (Built.stack _).bind fun b => address.bind fun target =>
      .write (Memory.fill_writes _ _ _)

end Plain

/-! ### Machines -/

/-- An operation that is put together from those on a machine. Some of these make calls, and only calls change the depth
    and the host. -/
inductive Run.Built (calls : Prop) : {α : Type} → Run σ α → Prop
  | pure {α : Type} (a : α) : Built calls (Pure.pure a)
  | throw {α : Type} (e : Trap) : Built calls (MonadExcept.throw e : Run σ α)
  | bind {α β : Type} {x : Run σ α} {k : α → Run σ β} : Built calls x → (∀ a, Built calls (k a)) → Built calls (x >>= k)
  | look {α : Type} {k : Store → Run σ α} : (∀ s, Built calls (k s)) → (∀ s limit, k (s.withLimit limit) = k s) →
    Built calls (store >>= k)
  | onStore {α : Type} {op : Exec α} : Exec.Built op → Built calls (onStore op)
  | notify (n : Notice) : Built calls (notify n)
  /-- There is one activation more, unless there are as many as there may be. -/
  | deepen {α : Type} {k : Store → Run σ α} (index : Nat) : calls → (∀ s, Built calls (k s)) →
    (∀ s limit, k (s.withLimit limit) = k s) → Built calls (store >>= fun s =>
      if s.options.maxCallDepth ≤ s.depth then
        Run.notify (.depthLimit index s.options.maxCallDepth) >>= fun _ =>
          MonadExcept.throw (.callStackExhausted s.options.maxCallDepth)
      else Run.onStore (modify fun s => { s with depth := s.depth + 1 }) >>= fun _ => k s)
  | leaveDepth : calls → Built calls leaveDepth
  | callHost (f : HostFunc σ) (arguments : Array Value) : calls → Built calls (callHost f arguments)

namespace Run.Built
variable {calls : Prop}

theorem onStack (op : Stack.Op α) : Built (σ := σ) calls (Run.onStack op) := .onStore (.stack op)

theorem ofExcept (x : Except Trap α) : Built (σ := σ) calls (MonadExcept.ofExcept x : Run σ α) := by
  cases x with
  | ok a => exact .pure a
  | error e => exact .throw e

theorem discard {x : Run σ α} (h : Built calls x) : Built calls (Functor.discard x) := by
  rw [discard_eq_bind]
  exact h.bind fun _ => .pure _

end Run.Built

namespace Activation
open Run
variable {calls : Prop} (act : Activation) (types : Array FuncType) (type : BlockType) (start : Nat)

theorem goto_built (pos : Nat) : Built calls (goto act pos : Run σ Activation) := by
  unfold goto
  split
  · exact .pure _
  · exact .throw _

theorem blockSignature_built : Built calls (blockSignature types type start : Run σ _) := by
  unfold blockSignature
  split
  · exact .pure _
  · exact .throw _

theorem heightBelow_built (n : Nat) : Built calls (heightBelow n : Run σ Nat) := by
  refine .look (fun s => ?_) fun _ _ => rfl
  split
  · exact .pure _
  · exact .throw _

theorem enterBlock_built : Built calls (enterBlock act types type start : Run σ Activation) :=
  (blockSignature_built types type start).bind fun _ => (heightBelow_built _).bind fun _ =>
    (Built.ofExcept _).bind fun _ => .look (fun _ => .pure _) fun _ _ => rfl

theorem enterLoop_built : Built calls (enterLoop act types type start : Run σ Activation) :=
  (blockSignature_built types type start).bind fun _ => (heightBelow_built _).bind fun _ =>
    (Built.ofExcept _).bind fun _ => .look (fun _ => .pure _) fun _ _ => rfl

theorem enterIf_built : Built calls (enterIf act types type start : Run σ Activation) := by
  refine (blockSignature_built types type start).bind fun _ => (Built.onStack _).bind fun condition =>
    (Built.ofExcept _).bind fun _ => (heightBelow_built _).bind fun _ => .look (fun s => ?_) fun _ _ => rfl
  dsimp only
  split
  · exact .pure _
  · split
    · exact goto_built _ _
    · exact goto_built _ _

theorem leaveArm_built : Built calls (leaveArm act start : Run σ Activation) := by
  unfold leaveArm
  split
  · split
    · exact goto_built _ _
    · exact .throw _
  · exact .throw _

theorem leave_built : Built calls (leave act : Run σ Flow) := by
  unfold leave
  split
  · exact .pure _
  · exact (Built.onStack _).bind fun _ => .pure _

theorem branch_built (depth : Nat) (conditional : Bool) : Built calls (branch act depth conditional : Run σ Flow) := by
  unfold branch
  split
  · exact .pure _
  · split
    · exact .throw _
    · refine .look (fun s => ?_) fun _ _ => rfl
      split
      · refine (Built.notify _).bind fun _ => ?_
        split
        · exact .pure _
        · exact (Built.onStack _).bind fun _ => (Built.onStack _).bind fun _ => (goto_built _ _).bind fun _ => .pure _
      · refine (Built.onStack _).bind fun _ => ?_
        dsimp only
        split
        · split
          · exact (goto_built _ _).bind fun _ => .pure _
          · exact .throw _
        · exact (goto_built _ _).bind fun _ => .pure _

theorem exec_built (i : Instr) : Built calls (exec types act start i : Run σ Flow) := by
  cases i with
  | plain p => exact (Built.onStore (p.exec_built act.frame)).bind fun _ => .pure _
  | block t => exact (enterBlock_built act types t start).bind fun _ => .pure _
  | loop t => exact (enterLoop_built act types t start).bind fun _ => .pure _
  | ifThen t => exact (enterIf_built act types t start).bind fun _ => .pure _
  | elseMark => exact (leaveArm_built act start).bind fun _ => .pure _
  | endMark => exact leave_built act
  | br depth => exact branch_built act depth false
  | brIf depth =>
    refine (Built.onStack _).bind fun condition => ?_
    split
    · exact branch_built act depth true
    · exact .pure _
  | brTable targets fallback => exact (Built.onStack _).bind fun index => branch_built act _ false
  | ret => exact .pure _
  | call callee => exact .pure _

theorem step_built : Built calls (step types act : Run σ Flow) := by
  unfold step
  split
  · exact exec_built _ _ _ _
  · exact .throw _

end Activation

namespace Module
open Run
variable (m : Module σ)

theorem enter_built (f : Function σ) (index offset : Nat) : Built True (m.enter f index offset) := by
  refine .deepen index trivial (fun s => ?_) fun _ _ => rfl
  dsimp only
  split
  · exact .throw _
  · split
    · exact .throw _
    · exact .throw _
    · exact (Built.onStack _).bind fun _ => (Built.callHost _ _ trivial).bind fun _ => (Built.ofExcept _).bind fun _ =>
        (Built.onStack _).bind fun _ => (Built.onStack _).bind fun _ => (Built.leaveDepth trivial).bind fun _ => .pure _
    · exact (Built.ofExcept _).bind fun _ => (Built.onStack _).bind fun _ => .pure _

theorem callFrom_built (act : Activation) (callee : Nat) : Built True (m.callFrom act callee) := by
  refine (Built.ofExcept _).bind fun f => .look (fun s => (Built.ofExcept _).bind fun again => ?_) fun _ _ => rfl
  split
  · exact (Built.notify _).bind fun _ => (Built.onStack _).discard.bind fun _ => (Built.onStack _).bind fun _ => .pure _
  · exact (Activation.heightBelow_built _).bind fun _ => enter_built m f callee _

theorem leave_built (act : Activation) : Built True (leave act : Run σ Unit) :=
  (Built.onStack _).bind fun _ => .leaveDepth trivial

theorem proceed_built (act : Activation) (callers : List Activation) (flow : Flow) :
    Built True (m.proceed act callers flow) := by
  cases flow with
  | next act => exact .pure _
  | ret => exact (leave_built act).bind fun _ => .pure _
  | call act callee =>
    refine (m.callFrom_built act callee).bind fun inner => ?_
    split
    · exact .pure _
    · exact .pure _

theorem step_built (act : Activation) (callers : List Activation) : Built True (m.step act callers) := by
  rw [step_eq]
  exact (act.step_built m.types).bind fun flow => m.proceed_built act callers flow

end Module
end Wasm
