import Wasm.Proofs.Placement
import Wasm.Proofs.Soundness

/-! Calls of a function without a body. Where every function is the host's or has code, no run tells of a missing body,
    unless the host itself does. -/

namespace Wasm

/-- A trap that does not tell of a missing body. -/
def Trap.IsBodied (e : Trap) : Prop := ∀ index, e ≠ .missingBody index

theorem Trap.isBodied_of_isStructural {e : Trap} (h : e.isStructural = true) : e.IsBodied := by
  rintro index rfl
  cases h

/-! ### Looks through bodies -/

namespace Instr

/-- A reader of code that fails only because the code is not right. -/
def FindsFault {α : Type} (r : CodeReader α) : Prop := ∀ code, Raises (fun e => e.isStructural = true) (r code)

namespace FindsFault
variable {α β : Type}

theorem pure (a : α) : FindsFault (Pure.pure a) := fun _ => Raises.pure a

theorem throw {e : Trap} (h : e.isStructural = true) : FindsFault (MonadExcept.throw e : CodeReader α) :=
  fun _ => Raises.throw h

theorem bind {r : CodeReader α} {f : α → CodeReader β} (hr : FindsFault r) (hf : ∀ a, FindsFault (f a)) :
    FindsFault (r >>= f) := fun code => (hr code).bind fun a => hf a code

theorem map {r : CodeReader α} (f : α → β) (hr : FindsFault r) : FindsFault (f <$> r) := by
  rw [map_eq_pure_bind]
  exact hr.bind fun _ => pure _

end FindsFault

theorem immediate_findsFault {α : Type} (r : Reader α) : FindsFault (immediate r) := by
  refine fun code => .of_error fun pos e next failed => ?_
  unfold immediate at failed
  split at failed <;> cases failed
  rfl

theorem readExtended_findsFault : FindsFault readExtended := by
  refine (immediate_findsFault _).bind fun n => ?_
  split
  · exact .throw rfl
  · exact .pure _
  · exact (immediate_findsFault _).bind fun _ => (immediate_findsFault _).bind fun _ => .pure _
  · exact (immediate_findsFault _).bind fun _ => .pure _
  · exact (immediate_findsFault _).bind fun _ => (immediate_findsFault _).bind fun _ => .pure _
  · exact (immediate_findsFault _).bind fun _ => .pure _

theorem readRest_findsFault (op : Opcode) : FindsFault (readRest op) := by
  cases op with
  | brTable => exact (immediate_findsFault _).bind fun _ => (immediate_findsFault _).bind fun _ => .pure _
  | selectTyped => exact ((immediate_findsFault _).map _).bind fun _ => .pure _
  | extended => exact readExtended_findsFault.bind fun _ => .pure _
  | _ => first | exact .pure _ | exact (immediate_findsFault _).bind fun _ => .pure _

theorem read_findsFault : FindsFault read := by
  refine (immediate_findsFault _).bind fun b => ?_
  split
  · exact .throw rfl
  · exact readRest_findsFault _

end Instr

namespace JumpTable

theorem scanStep_isStructural {signatures : Array FuncType} {frame : Frame} {pos : Nat} {c : Scan} {i : Instr} {e : Trap}
    (h : c.step signatures frame pos i = .error e) : e.isStructural = true := by
  cases i with
  | elseMark =>
    unfold Scan.step at h
    dsimp only at h
    split at h <;> cases h
    rfl
  | endMark =>
    unfold Scan.step at h
    dsimp only at h
    split at h <;> cases h
    rfl
  | call f =>
    unfold Scan.step at h
    dsimp only at h
    split at h <;> cases h
  | plain p =>
    unfold Scan.step at h
    dsimp only at h
    split at h
    · cases h
    · split at h <;> cases h
      assumption
  | _ => cases h

theorem scanFrom_isStructural {signatures : Array FuncType} {frame : Frame} {body : ByteArray} {e : Trap} :
    ∀ {fuel pos : Nat} {c : Scan}, scanFrom signatures frame body fuel pos c = .error e → e.isStructural = true := by
  intro fuel
  induction fuel with
  | zero =>
    intro pos c h
    cases h
    rfl
  | succ fuel ih =>
    intro pos c h
    rw [scanFrom] at h
    split at h
    · cases h
      rfl
    split at h
    · rename_i failed
      cases h
      exact (Instr.read_findsFault body).error trivial failed
    split at h
    · cases h
    split at h
    · exact ih h
    · rename_i failed
      cases h
      exact scanStep_isStructural failed

/-- A look through a body fails only because the body is not right. -/
theorem build_isStructural {signatures : Array FuncType} {signature : FuncType} {locals : List ValType} {body : ByteArray}
    {live : Store} {e : Trap} (h : build signatures signature locals body live = .error e) : e.isStructural = true :=
  scanFrom_isStructural h

end JumpTable

variable {σ : Type}

/-! ### Instructions -/

namespace Activation
open Run
variable (types : Array FuncType) (act : Activation)

theorem onStack_bodied {α : Type} {op : Stack.Op α} (h : Raises Trap.IsPlain op) :
    Raises Trap.IsBodied (onStack op : Run σ α) :=
  (onStore_raises (Store.onStack_raises h)).raising fun _ plain => plain.bodied

theorem store_bodied : Raises Trap.IsBodied (store : Run σ Store) := fun _ _ => trivial

theorem entry_bodied {α : Type} (map : Std.TreeMap Nat α) (pos : Nat) :
    Raises Trap.IsBodied (ofExcept (JumpTable.entry map pos) : Run σ α) := by
  refine .ofExcept fun e h => ?_
  unfold JumpTable.entry at h
  split at h <;> cases h
  exact nofun

theorem settle_bodied (height arity : Nat) : Raises Trap.IsBodied (onStack (Stack.settle height arity) : Run σ Unit) := by
  refine onStack_bodied (.of_error fun s e t failed => ?_)
  obtain ⟨-, rfl, -⟩ := Stack.settle_eq_error.mp failed
  exact ⟨rfl, nofun⟩

theorem pushMany_bodied (vs : Array Value) : Raises Trap.IsBodied (onStack (Stack.pushMany vs) : Run σ Unit) :=
  onStack_bodied (.of_error fun _ _ _ h => by cases h)

theorem truncate_bodied (height : Nat) : Raises Trap.IsBodied (onStack (Stack.truncate height) : Run σ Unit) :=
  onStack_bodied (.of_error fun _ _ _ h => by cases h)

theorem popMany_bodied (n : Nat) : Raises Trap.IsBodied (onStack (Stack.popMany n) : Run σ (Array Value)) := by
  refine onStack_bodied (.of_error fun ⟨values⟩ e t failed => ?_)
  unfold Stack.popMany at failed
  dsimp only at failed
  split at failed <;> cases failed
  exact ⟨rfl, nofun⟩

theorem goto_bodied (pos : Nat) : Raises Trap.IsBodied (goto act pos : Run σ Activation) := by
  unfold goto
  split
  · exact .pure _
  · exact .throw nofun

theorem blockSignature_bodied (t : BlockType) (start : Nat) :
    Raises Trap.IsBodied (blockSignature types t start : Run σ (Nat × List ValType)) := by
  unfold blockSignature
  split
  · exact .pure _
  · exact .throw nofun

theorem heightBelow_bodied (n : Nat) : Raises Trap.IsBodied (heightBelow n : Run σ Nat) := by
  refine store_bodied.bind fun s => ?_
  split
  · exact .pure _
  · exact .throw nofun

theorem enterBlock_bodied (t : BlockType) (start : Nat) :
    Raises Trap.IsBodied (enterBlock act types t start : Run σ Activation) :=
  (blockSignature_bodied types t start).bind fun _ => (heightBelow_bodied _).bind fun _ =>
    (entry_bodied _ start).bind fun _ => store_bodied.bind fun _ => .pure _

theorem enterLoop_bodied (t : BlockType) (start : Nat) :
    Raises Trap.IsBodied (enterLoop act types t start : Run σ Activation) :=
  (blockSignature_bodied types t start).bind fun _ => (heightBelow_bodied _).bind fun _ =>
    (entry_bodied _ start).bind fun _ => store_bodied.bind fun _ => .pure _

theorem enterIf_bodied (t : BlockType) (start : Nat) :
    Raises Trap.IsBodied (enterIf act types t start : Run σ Activation) := by
  refine (blockSignature_bodied types t start).bind fun _ => (onStack_bodied (Stack.popInt_raises .w32)).bind fun _ =>
    (entry_bodied _ start).bind fun _ => (heightBelow_bodied _).bind fun _ => store_bodied.bind fun _ => ?_
  dsimp only
  split
  · exact .pure _
  split
  · exact goto_bodied _ _
  · exact goto_bodied _ _

theorem leaveArm_bodied (start : Nat) : Raises Trap.IsBodied (leaveArm act start : Run σ Activation) := by
  unfold leaveArm
  split
  · split
    · exact goto_bodied _ _
    · exact .throw nofun
  · exact .throw nofun

theorem leave_bodied : Raises Trap.IsBodied (leave act : Run σ Flow) := by
  unfold leave
  split
  · exact .pure _
  · exact (settle_bodied _ _).bind fun _ => .pure _

theorem branch_bodied (depth : Nat) (conditional : Bool) :
    Raises Trap.IsBodied (branch act depth conditional : Run σ Flow) := by
  unfold branch
  split
  · exact .pure _
  split
  · exact .throw nofun
  refine store_bodied.bind fun s => ?_
  split
  · refine Raises.bind (fun _ _ => trivial) fun _ => ?_
    split
    · exact .pure _
    · exact (truncate_bodied _).bind fun _ => (pushMany_bodied _).bind fun _ => (goto_bodied _ _).bind fun _ => .pure _
  · refine (settle_bodied _ _).bind fun _ => ?_
    dsimp only
    split
    · split
      · exact (goto_bodied _ _).bind fun _ => .pure _
      · exact .throw nofun
    · exact (goto_bodied _ _).bind fun _ => .pure _

/-- No instruction tells of a missing body by itself. -/
theorem exec_bodied (start : Nat) (i : Instr) : Raises Trap.IsBodied (exec types act start i : Run σ Flow) := by
  cases i with
  | plain p =>
    have ran : Raises Trap.IsBodied (onStore (p.exec act.frame) : Run σ Unit) :=
      (onStore_raises (Plain.exec_raises _ p)).raising fun _ plain => plain.bodied
    exact ran.bind fun _ => .pure _
  | block t => exact (enterBlock_bodied types act t start).bind fun _ => .pure _
  | loop t => exact (enterLoop_bodied types act t start).bind fun _ => .pure _
  | ifThen t => exact (enterIf_bodied types act t start).bind fun _ => .pure _
  | elseMark => exact (leaveArm_bodied act start).bind fun _ => .pure _
  | endMark => exact leave_bodied act
  | br depth => exact branch_bodied act depth false
  | brIf depth =>
    refine (onStack_bodied (Stack.popInt_raises .w32)).bind fun condition => ?_
    split
    · exact branch_bodied act depth true
    · exact .pure _
  | brTable targets fallback => exact (onStack_bodied Stack.popAddress_raises).bind fun _ => branch_bodied act _ false
  | ret => exact .pure _
  | call callee => exact .pure _

theorem step_bodied : Raises Trap.IsBodied (act.step types : Run σ Flow) := by
  unfold step
  split
  · exact exec_bodied types _ _ _
  · rename_i failed
    exact .throw (Trap.isBodied_of_isStructural ((Instr.read_findsFault act.body).error trivial failed))

end Activation

/-! ### Calls -/

namespace Module
open Run

/-- Every function is the host's or has code, and the jump tables are those of the functions. -/
structure Ready (m : Module σ) : Prop where
  tabled : m.Tabled
  bodies : ∀ f ∈ m.functions, f.body ≠ .pending

/-- A host function fails with the trap itself. -/
def HostFails (m : Module σ) (e : Trap) : Prop :=
  ∃ f ∈ m.functions, ∃ moduleName name function arguments host host',
    f.body = .host moduleName name (some function) ∧ function arguments host = .error e host'

/-- The traps that a run may end in: none tells of a missing body, unless the host does. -/
def MayEndIn (m : Module σ) (e : Trap) : Prop := e.IsBodied ∨ m.HostFails e

variable {m : Module σ} {f : Function σ} {index : Nat} {e : Trap}

theorem jumpTable_bodied (ready : m.Ready) (function : m.function index = .ok f) {body : ByteArray}
    (code : f.body = .code body) (failed : m.jumpTable index = .error e) : e.IsBodied := by
  obtain ⟨live, tabled⟩ := ready.tabled
  rw [← tabled, m.jumpTable_withJumps live (function_eq_ok.mp function)] at failed
  unfold Function.jumpTable at failed
  rw [code] at failed
  exact Trap.isBodied_of_isStructural (JumpTable.build_isStructural failed)

theorem function_bodied (failed : m.function index = .error e) : e.IsBodied := by
  unfold Module.function at failed
  split at failed <;> cases failed
  exact nofun

theorem checkResults_bodied {declared : List ValType} {results : Array Value}
    (failed : checkResults declared results = .error e) : e.IsBodied := by
  unfold checkResults at failed
  split at failed
  · cases failed
    exact nofun
  split at failed <;> cases failed
  exact nofun

theorem callHost_mayEndIn {moduleName name : String} {function : HostFunc σ} (there : f ∈ m.functions)
    (host : f.body = .host moduleName name (some function)) (arguments : Array Value) :
    Raises m.MayEndIn (callHost function arguments) := by
  refine .of_error fun M e N failed => .inr ?_
  unfold callHost at failed
  dsimp only at failed
  split at failed <;> cases failed
  exact ⟨f, there, moduleName, name, function, arguments, _, _, host, ‹_›⟩

theorem own {α : Type} {op : Run σ α} (h : Raises Trap.IsBodied op) : Raises m.MayEndIn op := h.raising fun _ => .inl

theorem enter_mayEndIn (ready : m.Ready) (function : m.function index = .ok f) (offset : Nat) :
    Raises m.MayEndIn (m.enter f index offset) := by
  have there : f ∈ m.functions := Array.mem_of_getElem? (function_eq_ok.mp function)
  have bodied := ready.bodies f there
  refine (own Activation.store_bodied).bind fun s => ?_
  dsimp only
  split
  · exact Raises.bind (fun _ _ => trivial) fun _ => .throw (.inl nofun)
  refine Raises.bind (fun _ _ => trivial) fun _ => ?_
  split
  · exact .throw (.inl nofun)
  split
  · rename_i pending
    exact absurd pending bodied
  · exact .throw (.inl nofun)
  · rename_i host
    refine (own (Activation.popMany_bodied _)).bind fun arguments => (callHost_mayEndIn there host arguments).bind
      fun results => Raises.bind (.ofExcept fun e failed => .inl (checkResults_bodied failed)) fun _ =>
      (own (Activation.truncate_bodied _)).bind fun _ => (own (Activation.pushMany_bodied _)).bind fun _ =>
      Raises.bind (fun _ _ => trivial) fun _ => .pure _
  · rename_i code
    exact Raises.bind (.ofExcept fun e failed => .inl (jumpTable_bodied ready function code failed)) fun _ =>
      (own (Activation.pushMany_bodied _)).bind fun _ => .pure _

theorem callFrom_mayEndIn (ready : m.Ready) (act : Activation) (callee : Nat) :
    Raises m.MayEndIn (m.callFrom act callee) := by
  cases function : m.function callee with
  | error e =>
    unfold callFrom
    rw [function]
    exact .throw (.inl (function_bodied function))
  | ok f =>
    unfold callFrom
    rw [Activation.ofExcept_holds function, pure_bind]
    refine (own Activation.store_bodied).bind fun s => Raises.bind (.ofExcept fun e failed => .inl ?_) fun again => ?_
    · unfold isRepeated at failed
      split at failed
      · split at failed <;> cases failed
        exact nofun
      · cases failed
    split
    · refine Raises.bind (fun _ _ => trivial) fun _ => (own (Activation.popMany_bodied _)).discard.bind fun _ =>
        (own (Activation.pushMany_bodied _)).bind fun _ => .pure _
    · exact (own (Activation.heightBelow_bodied _)).bind fun offset => enter_mayEndIn ready function offset

theorem step_mayEndIn (ready : m.Ready) (act : Activation) (callers : List Activation) :
    Raises m.MayEndIn (m.step act callers) := by
  refine (own (Activation.step_bodied m.types act)).bind fun flow => ?_
  cases flow with
  | next act => exact .pure _
  | ret =>
    exact (own (Activation.settle_bodied _ _)).bind (fun _ => fun _ _ => trivial) |>.bind fun _ => .pure _
  | call act callee =>
    refine (callFrom_mayEndIn ready act callee).bind fun r => ?_
    cases r with
    | some inner => exact .pure _
    | none => exact .pure _

theorem run_mayEndIn (ready : m.Ready) {fuel : Nat} {chain : List Activation} {M N : Machine σ}
    (h : m.run fuel chain M = .trapped e N) : m.MayEndIn e := by
  induction fuel, chain, M using m.run_induction with
  | ended fuel M =>
    rw [run_nil] at h
    cases h
  | spent act callers M => cases h
  | fails fuel act callers M e N step =>
    rw [run_error step] at h
    cases h
    exact (step_mayEndIn ready act callers).error trivial step
  | onward fuel act callers M chain N step ih =>
    rw [run_ok step] at h
    exact ih h

theorem accept_bodied {arguments : Array Value} (failed : m.accept index arguments = .error e) : e.IsBodied := by
  unfold accept at failed
  cases function : m.function index with
  | error e' =>
    rw [function] at failed
    cases failed
    exact function_bodied function
  | ok f =>
    rw [function] at failed
    simp only [bind, Except.bind, pure, Except.pure, throw, throwThe, MonadExceptOf.throw] at failed
    split at failed
    · cases failed
      exact nofun
    · split at failed <;> cases failed
      exact nofun

theorem starts_mayEndIn (ready : m.Ready) (function : m.function index = .ok f) {arguments : Array Value} {M N : Machine σ}
    (failed : m.starts f index arguments M = .error e N) : m.MayEndIn e :=
  ((own (Activation.pushMany_bodied arguments)).bind fun _ => enter_mayEndIn ready function M.store.stack.size).error
    trivial failed

/-- A call ends in none but these traps. -/
theorem invokeIndex_mayEndIn (ready : m.Ready) {fuel : Nat} {arguments : Array Value} {M N : Machine σ}
    (h : m.invokeIndex fuel index arguments M = .error (.trap e) N) : m.MayEndIn e := by
  rcases invokeIndex_eq_error h with ⟨e, refused, ⟨⟩⟩ | ⟨f, accepted, ⟨e, N', failed, ⟨⟩⟩ | ⟨act, N', -, ended⟩⟩
  · exact .inl (accept_bodied refused)
  · exact starts_mayEndIn ready (accept_eq_ok accepted).1 failed
  · rcases ended with ⟨e, F, trapped, ⟨⟩⟩ | ⟨F, -, ⟨⟩⟩
    exact run_mayEndIn ready trapped

theorem invoke_mayEndIn (ready : m.Ready) {fuel : Nat} {name : String} {arguments : Array Value} {M N : Machine σ}
    (h : m.invoke fuel name arguments M = .error (.trap e) N) : m.MayEndIn e := by
  unfold invoke lookup at h
  cases found : m.find? name with
  | none =>
    rw [found] at h
    cases h
  | some index =>
    rw [found] at h
    exact invokeIndex_mayEndIn ready h

end Module
end Wasm
