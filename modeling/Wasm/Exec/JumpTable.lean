import Std.Data.TreeMap.Basic
import Wasm.Exec.Plain

/-! Jump tables: where the constructs of a body end. One look through the body finds them all, on a shadow of the
    store, on which the code between is run for its shape. -/

namespace Wasm

/-- The constructs that labels belong to. -/
inductive BlockKind
  | block
  | loop
  | ifThen
deriving DecidableEq, Repr

/-- All positions are those of opcodes in the body. -/
structure JumpTable where
  /-- From an if to its else, or to its end if it has none, and to its end. -/
  ifs : Std.TreeMap Nat (Nat × Nat) := {}
  /-- From a block to its end. -/
  blocks : Std.TreeMap Nat Nat := {}
  /-- From the end of a loop to its start. -/
  loops : Std.TreeMap Nat Nat := {}
  /-- From a loop to its end. -/
  loopEnds : Std.TreeMap Nat Nat := {}
deriving Inhabited

namespace JumpTable

/-- The entry for a position, which is missing if the construct there is not balanced. -/
def entry {α : Type} (map : Std.TreeMap Nat α) (pos : Nat) : Except Trap α :=
  match map[pos]? with
  | some a => .ok a
  | none => .error (.unbalancedBlock pos)

def ifTargets (t : JumpTable) (pos : Nat) : Except Trap (Nat × Nat) := entry t.ifs pos

def blockEnd (t : JumpTable) (pos : Nat) : Except Trap Nat := entry t.blocks pos

def loopEnd (t : JumpTable) (pos : Nat) : Except Trap Nat := entry t.loopEnds pos

/-- The start of the loop that ends at a position. -/
def loopStart? (t : JumpTable) (pos : Nat) : Option Nat := t.loops[pos]?

/-- A construct whose end has not been seen yet. -/
structure Opening where
  kind : BlockKind
  start : Nat
  /-- The position of its else. -/
  otherwise : Option Nat := none
deriving DecidableEq, Repr

/-- Enters a construct that ends at `stop`. -/
def close (t : JumpTable) (o : Opening) (stop : Nat) : JumpTable :=
  match o.kind with
  | .ifThen => { t with ifs := t.ifs.insert o.start (o.otherwise.getD stop, stop) }
  | .block => { t with blocks := t.blocks.insert o.start stop }
  | .loop => { t with loops := t.loops.insert stop o.start, loopEnds := t.loopEnds.insert o.start stop }

/-- How far the look through a body has come. -/
structure Scan where
  table : JumpTable := {}
  /-- The open constructs, innermost first. -/
  opened : List Opening := []
  shadow : Store

/-- The store after an operation, whether it failed or not. -/
def after {α : Type} (op : Exec α) (s : Store) : Store :=
  match op s with
  | .ok _ s => s
  | .error _ s => s

namespace Scan

/-- Opens a construct. -/
def enter (c : Scan) (kind : BlockKind) (start : Nat) : Scan := { c with opened := { kind, start } :: c.opened }

/-- Runs an operation on the shadow, which may fail. -/
def attempt {α : Type} (c : Scan) (op : Exec α) : Scan := { c with shadow := after op c.shadow }

/-- Pops a condition or index off the shadow. -/
def popInt (c : Scan) : Scan := c.attempt (Store.onStack (Stack.popInt .w32))

/-- Pops as many values off the shadow, and pushes zeros. -/
def call (c : Scan) (callee : FuncType) : Scan :=
  let popped := callee.params.foldl (fun c _ => c.attempt (Store.onStack Stack.pop)) c
  popped.attempt (Store.onStack (Stack.pushMany (callee.results.map Value.zero).toArray))

/-- What the instruction at a position adds, if it is not the last one. -/
def step (signatures : Array FuncType) (frame : Frame) (pos : Nat) (c : Scan) : Instr → Except Trap Scan
  | .block _ => .ok (c.enter .block pos)
  | .loop _ => .ok (c.enter .loop pos)
  | .ifThen _ => .ok (c.popInt.enter .ifThen pos)
  | .elseMark =>
    match c.opened with
    | ⟨.ifThen, start, none⟩ :: rest => .ok { c with opened := ⟨.ifThen, start, some pos⟩ :: rest }
    | _ => .error (.unbalancedBlock pos)
  | .endMark =>
    match c.opened with
    | o :: rest => .ok { c with table := c.table.close o pos, opened := rest }
    | [] => .error (.unbalancedBlock pos)
  | .br _ => .ok c
  | .brIf _ => .ok c.popInt
  | .brTable _ _ => .ok c.popInt
  | .ret => .ok c
  | .call f =>
    match signatures[f]? with
    | some callee => .ok (c.call callee)
    | none => .ok c
  | .plain p =>
    match p.exec frame c.shadow with
    | .ok _ shadow => .ok { c with shadow }
    | .error e shadow => if e.isStructural then .error e else .ok { c with shadow }

end Scan

/-- Looks through a body from a position on. The end mark that no construct awaits has to be the last byte. -/
def scanFrom (signatures : Array FuncType) (frame : Frame) (body : ByteArray) :
    (fuel : Nat) → (pos : Nat) → Scan → Except Trap JumpTable
  | 0, pos, _ => .error (.unbalancedBlock pos)
  | fuel + 1, pos, c =>
    if body.size ≤ pos then .error (.unbalancedBlock pos)
    else match Instr.read body pos with
      | .error e _ => .error e
      | .ok i next =>
        if i = .endMark ∧ c.opened = [] ∧ body.size ≤ next then .ok c.table
        else match c.step signatures frame pos i with
          | .ok c => scanFrom signatures frame body fuel next c
          | .error e => .error e

/-- The jump table of a body, found on a shadow of the given store. Each instruction takes a byte at least. -/
def build (signatures : Array FuncType) (signature : FuncType) (locals : List ValType) (body : ByteArray)
    (live : Store) : Except Trap JumpTable :=
  let shadow := live.shadowCopy
  let slots := signature.params ++ locals
  let frame : Frame := ⟨shadow.stack.size, slots.length⟩
  let shadow := after (Store.onStack (Stack.pushMany (slots.map Value.zero).toArray)) shadow
  scanFrom signatures frame body (body.size + 1) 0 { shadow }

end JumpTable
end Wasm
