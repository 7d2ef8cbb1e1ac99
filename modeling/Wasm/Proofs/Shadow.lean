import Wasm.Proofs.Changes
import Wasm.Proofs.StackTyping
import Wasm.Proofs.Reading

/-! Shadows of stores. An instruction that runs straight on does to the stack of a shadow, in number and types of values,
    what it does to the stack of the store itself, and it never changes the memories of a shadow. -/

namespace Wasm
variable {σ α : Type}

/-- A shadow of a store holds the same values and the same memories and globals. -/
structure Store.Shadows (s t : Store) : Prop where
  stack : t.stack = s.stack
  memories : t.memories = s.memories
  globals : t.globals = s.globals
  shadow : t.shadow = true

theorem Store.shadowCopy_shadows (s : Store) : s.Shadows s.shadowCopy := ⟨rfl, rfl, rfl, rfl⟩

/-! ### Operations -/

/-- An operation does the same to a store and to a shadow of it, unless it fails on the store. -/
abbrev Exec.Shadowed (op : Exec α) : Prop := Mirrors False Store.Shadows op op Store.Shadows

/-- After the last one of some operations, only the stack counts. -/
abbrev Exec.Ending (op : Exec α) : Prop := Simulates False Store.Shadows op op fun _ _ s t => t.stack = s.stack

/-- An operation that leaves the stack as it is, unless it fails. -/
abbrev Exec.Spares (op : Exec α) : Prop := ∀ stack, Preserves (fun s : Store => s.stack = stack) op

namespace Store
open Exec

theorem onStack_shadowed (op : Stack.Op α) : Shadowed (onStack op) := by
  intro s t shadows a s' done
  obtain ⟨stack, ran, rfl⟩ := onStack_eq_ok.mp done
  rw [onStack_eq_ok.mpr ⟨stack, by rw [shadows.stack, ran], rfl⟩]
  exact ⟨rfl, { shadows with stack := rfl }⟩

theorem onMemory_shadowed (index : Nat) (op : Memory.Op α) : Shadowed (onMemory index op) := by
  intro s t shadows a s' done
  obtain ⟨m, m', found, ran, rfl⟩ := onMemory_eq_ok.mp done
  rw [onMemory_eq_ok.mpr ⟨m, m', by rw [shadows.memories, found], ran, rfl⟩]
  exact ⟨rfl, { shadows with memories := congrArg (·.setIfInBounds index m') shadows.memories }⟩

theorem global_shadowed (index : Nat) : Shadowed (global index) := by
  intro s t shadows v s' done
  obtain ⟨⟨g, found, value⟩, rfl⟩ := global_eq_ok.mp done
  rw [global_eq_ok.mpr ⟨⟨g, by rw [shadows.globals, found], value⟩, rfl⟩]
  exact ⟨rfl, shadows⟩

theorem setGlobal_shadowed (index : Nat) (v : Value) : Shadowed (setGlobal index v) := by
  intro s t shadows _ s' done
  obtain ⟨g, found, isVariable, sameType, rfl⟩ := setGlobal_eq_ok.mp done
  rw [setGlobal_eq_ok.mpr ⟨g, by rw [shadows.globals, found], isVariable, sameType, rfl⟩]
  refine ⟨rfl, { shadows with globals := ?_ }⟩
  dsimp only
  rw [shadows.globals]

theorem onMemory_spares (index : Nat) (op : Memory.Op α) : Spares (onMemory index op) :=
  fun stack => .of_ok fun s a t same done => by
    obtain ⟨_, _, -, -, rfl⟩ := onMemory_eq_ok.mp done
    exact same

theorem segment_spares (index offset n : Nat) : Spares (segment index offset n) :=
  fun stack => .of_ok fun s bytes t same done => by
    rwa [(segment_eq_ok.mp done).2]

theorem dropSegment_spares (index : Nat) : Spares (dropSegment index) :=
  fun stack => .of_ok fun s _ t same done => by
    obtain ⟨-, rfl⟩ := dropSegment_eq_ok.mp done
    exact same

theorem countEffect_spares : Spares countEffect := fun _ _ same => same

/-- What a shadow leaves out does not concern the stack. -/
theorem unlessShadow_ending {y : Exec α} (a : α) (spares : Spares y) :
    Ending (get >>= fun s : Store => if s.shadow then pure a else y) := by
  intro s t shadows b s' done
  rw [bind_ok (get_apply s)] at done
  rw [bind_ok (get_apply t), if_pos shadows.shadow]
  refine shadows.stack.trans ?_
  by_cases shadow : s.shadow = true
  · rw [if_pos shadow] at done
    cases done
    rfl
  · rw [if_neg shadow] at done
    exact ((spares s.stack).ok rfl done).symm

end Store

/-! ### Plain instructions -/

namespace Plain
open Store Exec

theorem slot_shadowed (f : Frame) (index : Nat) : Shadowed (slot f index) := by
  unfold slot
  cases f.slot? index with
  | some i => exact .pure
  | none => exact Simulates.throw

theorem popTarget_shadowed (arg : MemArg) : Shadowed (popTarget arg) := (onStack_shadowed _).bind fun _ => .pure

theorem assign_shadowed (f : Frame) (index : Nat) : Shadowed (assign f index) := by
  refine (slot_shadowed f index).bind fun i => (onStack_shadowed _).bind fun v => (onStack_shadowed _).bind fun old => ?_
  by_cases differ : old.type ≠ v.type
  · rw [if_pos differ]
    exact Simulates.throw
  · rw [if_neg differ]
    exact (onStack_shadowed _).bind fun _ => .pure

theorem writeMemory_spares (op : Memory.Op Unit) : Spares (writeMemory op) := fun stack => by
  refine Preserves.bind (fun _ same => same) fun s => ?_
  split
  · exact .pure _
  · exact (onMemory_spares 0 op stack).bind fun _ => countEffect_spares stack

theorem writeMemory_ending (op : Memory.Op Unit) : Ending (writeMemory op) :=
  unlessShadow_ending _ fun stack => (onMemory_spares 0 op stack).bind fun _ => countEffect_spares stack

theorem growMemory_ending (delta : Nat) : Ending (growMemory delta) := by
  refine unlessShadow_ending _ fun stack => (onMemory_spares 0 _ stack).bind fun before => ?_
  cases before with
  | some pages => exact (countEffect_spares stack).bind fun _ => .pure _
  | none => exact .pure _

/-- Where an instruction succeeds on a store, it succeeds on a shadow of it, and leaves values of the same types there. -/
theorem exec_shadowed (f : Frame) (p : Plain) : Simulates False Shadows (p.exec f) (p.exec f)
    fun _ _ s t => Value.types t.stack.values = Value.types s.stack.values := by
  have pop := onStack_shadowed Stack.pop
  have address := onStack_shadowed Stack.popAddress
  have int := onStack_shadowed (Stack.popInt .w32)
  have push := fun v => onStack_shadowed (Stack.push v)
  have whole : ∀ {op : Exec Unit}, Shadowed op → Simulates False Shadows op op
      fun _ _ s t => Value.types t.stack.values = Value.types s.stack.values := fun h =>
    h.weaken (fun _ _ h => h) fun _ _ s t related => by rw [related.2.stack]
  have ending : ∀ {op : Exec Unit}, Ending op → Simulates False Shadows op op
      fun _ _ s t => Value.types t.stack.values = Value.types s.stack.values := fun h =>
    h.weaken (fun _ _ h => h) fun _ _ s t same => by rw [same]
  cases p with
  | unreachable => exact Simulates.throw
  | nop => exact whole .pure
  | drop => exact whole pop.discard
  | select => exact whole (int.bind fun _ => pop.bind fun _ => pop.bind fun _ => push _)
  | localGet index => exact whole ((slot_shadowed f index).bind fun i => (onStack_shadowed _).bind fun _ => push _)
  | localSet index => exact whole (assign_shadowed f index).discard
  | localTee index => exact whole ((assign_shadowed f index).bind fun _ => push _)
  | globalGet index => exact whole ((global_shadowed index).bind fun _ => push _)
  | globalSet index => exact whole (pop.bind fun v => setGlobal_shadowed index v)
  | load op arg =>
    exact whole ((popTarget_shadowed arg).bind fun _ => (onMemory_shadowed 0 _).bind fun _ => push _)
  | store op arg =>
    exact (onStack_shadowed _).bind_simulates fun v => (popTarget_shadowed arg).bind_simulates fun _ =>
      ending (writeMemory_ending _)
  | memorySize => exact whole ((onMemory_shadowed 0 _).bind fun _ => push _)
  | memoryGrow =>
    -- The shadow pushes another number, of the same type.
    refine address.bind_simulates fun delta => (growMemory_ending delta).bind fun before before' => ?_
    intro s t same _ s' done
    obtain ⟨stack, pushed, rfl⟩ := onStack_eq_ok.mp done
    rw [onStack_eq_ok.mpr ⟨⟨t.stack.values.push (.i32 before')⟩, rfl, rfl⟩]
    cases pushed
    dsimp only
    rw [Value.types_push, Value.types_push, same]
    rfl
  | const v => exact whole (push v)
  | numeric op => exact whole (onStack_shadowed op.exec)
  | memoryInit index =>
    refine address.bind_simulates fun n => address.bind_simulates fun source => address.bind_simulates fun target =>
      ending (unlessShadow_ending _ fun stack => ?_)
    exact (segment_spares index source n stack).bind fun part => writeMemory_spares _ stack
  | dataDrop index => exact ending (unlessShadow_ending _ (dropSegment_spares index))
  | memoryCopy =>
    exact address.bind_simulates fun n => address.bind_simulates fun source => address.bind_simulates fun target =>
      ending (writeMemory_ending _)
  | memoryFill =>
    exact address.bind_simulates fun n => int.bind_simulates fun b => address.bind_simulates fun target =>
      ending (writeMemory_ending _)

end Plain

/-! ### The memories of a shadow -/

/-- A shadow with certain memories. -/
def Store.IsShadow (memories : Array Memory) (s : Store) : Prop := s.shadow = true ∧ s.memories = memories

/-- Whatever becomes of an operation on a shadow, the memories stay as they are. -/
theorem Exec.Built.isShadow {memories : Array Memory} {op : Exec α} (h : Built op) :
    Maintains (Store.IsShadow memories) op := by
  have unlessShadow : ∀ {α : Type} (a : α) (y : Exec α),
      Maintains (Store.IsShadow memories) (get >>= fun s : Store => if s.shadow then Pure.pure a else y) := fun a y s is => by
    rw [bind_ok (get_apply s), if_pos is.1]
    exact is
  induction h with
  | pure a => exact .pure a
  | throw e => exact .throw e
  | bind _ _ first second => exact first.bind second
  | look _ _ then_ => exact .bind (fun _ is => is) then_
  | stack op =>
    refine .of_cases (fun s a t is done => ?_) fun s e t is failed => ?_
    · obtain ⟨_, -, rfl⟩ := Store.onStack_eq_ok.mp done
      exact is
    · obtain ⟨_, -, rfl⟩ := Store.onStack_eq_error.mp failed
      exact is
  | read index reads =>
    refine .of_cases (fun s a t is done => ?_) fun s e t is failed => ?_
    · obtain ⟨m, m', found, looked, rfl⟩ := Store.onMemory_eq_ok.mp done
      rwa [reads.ok looked, Store.setIfInBounds_getElem? found]
    · rcases Store.onMemory_eq_error failed with rfl | ⟨m, m', found, looked, rfl⟩
      · exact is
      · rwa [reads.error looked, Store.setIfInBounds_getElem? found]
  | write _ => exact unlessShadow () _
  | grow delta => exact unlessShadow (-1) _
  | global index =>
    refine .of_cases (fun s v t is done => ?_) fun s e t is failed => ?_
    · rwa [(Store.global_eq_ok.mp done).2]
    · rwa [Store.global_eq_error failed]
  | setGlobal index v =>
    refine .of_cases (fun s u t is done => ?_) fun s e t is failed => ?_
    · obtain ⟨g, -, -, -, rfl⟩ := Store.setGlobal_eq_ok.mp done
      exact is
    · rwa [Store.setGlobal_eq_error failed]
  | segment index offset n =>
    refine .of_cases (fun s bytes t is done => ?_) fun s e t is failed => ?_
    · rwa [(Store.segment_eq_ok.mp done).2]
    · rwa [Store.segment_eq_error failed]
  | dropSegment index =>
    refine .of_cases (fun s u t is done => ?_) fun s e t is failed => ?_
    · obtain ⟨-, rfl⟩ := Store.dropSegment_eq_ok.mp done
      exact is
    · rwa [Store.dropSegment_eq_error failed]

/-! ### The run and the look -/

section Dispatch
open Run
variable {act : Activation} {p : Plain} {next : Nat} {body : ByteArray} {pos : Nat}

/-- A step that reads a plain instruction goes on behind it, unless it fails. -/
theorem Activation.step_plain (read : Instr.read act.body act.pos = .ok (.plain p) next) (types : Array FuncType) :
    (act.step types : Run σ Flow) = onStore (p.exec act.frame) >>= fun _ => pure (.next { act with pos := next }) :=
  step_read read types

/-- The look through a body goes on behind a plain instruction, too. -/
theorem JumpTable.scanFrom_plain (read : Instr.read body pos = .ok (.plain p) next) {frame : Frame} {c : Scan} {shadow : Store}
    (ran : p.exec frame c.shadow = .ok () shadow) (signatures : Array FuncType) (fuel : Nat) :
    scanFrom signatures frame body (fuel + 1) pos c = scanFrom signatures frame body fuel next { c with shadow } := by
  have inside : ¬body.size ≤ pos := by
    have := Instr.read_bounds read
    omega
  rw [scanFrom, if_neg inside, read]
  dsimp only
  rw [if_neg (by simp), Scan.step, ran]

/-- Where a step of a run succeeds that reads a plain instruction, the look through the body does so on a shadow of the
    store: it goes on at the same position, and the stack of the shadow has as many values, of the same types. Whatever
    comes of the instruction on a shadow, the memories stay as they are. -/
theorem Plain.exec_shadow (read : Instr.read act.body act.pos = .ok (.plain p) next) (types : Array FuncType)
    (M : Machine σ) :
    (∀ flow N, act.step types M = .ok flow N → flow = .next { act with pos := next } ∧ ∃ shadow,
      p.exec act.frame M.store.shadowCopy = .ok () shadow ∧ shadow.stack.size = N.store.stack.size ∧
      Value.types shadow.stack.values = Value.types N.store.stack.values ∧
      ∀ signatures fuel (c : JumpTable.Scan), c.shadow = M.store.shadowCopy →
        JumpTable.scanFrom signatures act.frame act.body (fuel + 1) act.pos c =
          JumpTable.scanFrom signatures act.frame act.body fuel next { c with shadow }) ∧
    ∀ s : Store, s.shadow = true → (stateAfter (p.exec act.frame) s).memories = s.memories := by
  refine ⟨fun flow N stepped => ?_, fun s shadow => ((p.exec_built act.frame).isShadow.after ⟨shadow, rfl⟩).2⟩
  rw [Activation.step_plain read] at stepped
  obtain ⟨_, M₁, done, goesOn⟩ := bind_eq_ok.mp stepped
  obtain ⟨t, ran, rfl⟩ := onStore_eq_ok.mp done
  cases goesOn
  have after := p.exec_shadowed act.frame M.store M.store.shadowCopy M.store.shadowCopy_shadows () t ran
  cases copied : p.exec act.frame M.store.shadowCopy with
  | error e shadow =>
    rw [copied] at after
    exact after.elim
  | ok _ shadow =>
    rw [copied] at after
    have sizes := congrArg List.length after
    rw [Value.length_types, Value.length_types] at sizes
    exact ⟨rfl, shadow, rfl, sizes, after, fun signatures fuel c same =>
      JumpTable.scanFrom_plain read (same ▸ copied) signatures fuel⟩

end Dispatch

namespace NoGrowth
open Run

/-- A memory of no pages. -/
def memory : Memory := { bytes := .empty, limits := ⟨0, none⟩ }

/-- The body grows the memory and leaves. -/
def entered : Activation :=
  { index := 0, body := ⟨#[0x40, 0x00, 0x0B]⟩, jumps := {}, frame := ⟨0, 0⟩, results := [], arguments := #[],
    effects := 0 }

/-- The body is entered over a value of the caller, with no page to grow by. -/
def live : Store := { stack := ⟨#[.i64 7, .i32 0]⟩, memories := #[memory] }

theorem memory_grow : memory.grow 0 = (some 0, memory) := by
  unfold Memory.grow
  rw [if_neg (by decide)]
  rfl

theorem exec_live : Plain.memoryGrow.exec entered.frame live = .ok () { live with effects := 1 } := by
  let popped : Store := { live with stack := ⟨#[.i64 7]⟩ }
  have counted : Plain.growMemory 0 popped = .ok 0 { popped with effects := 1 } := by
    refine (bind_ok (get_apply popped)).trans ?_
    rw [if_neg (by decide)]
    refine bind_ok (a := some 0) (t := popped) (Store.onMemory_eq_ok.mpr ⟨memory, memory, rfl, ?_, rfl⟩)
    rw [memory_grow]
  exact (bind_ok (show Store.onStack Stack.popAddress live = .ok 0 popped from rfl)).trans (bind_ok counted)

end NoGrowth

open NoGrowth Run in
/-- Growing a memory by no page gives the number of its pages on the store, and -1 on a shadow. -/
theorem Plain.exec_shadow_grow :
    entered.step #[] (⟨live, (), #[]⟩ : Machine Unit) =
        .ok (.next { entered with pos := 2 }) ⟨{ live with effects := 1 }, (), #[]⟩ ∧
      (∃ shadow, Plain.memoryGrow.exec entered.frame live.shadowCopy = .ok () shadow ∧
        shadow.stack.values = #[.i64 7, .i32 (-1)] ∧ Value.types shadow.stack.values = Value.types live.stack.values) ∧
      (stateAfter (Plain.memoryGrow.exec entered.frame) live.shadowCopy).memories = #[memory] := by
  have read : Instr.read entered.body entered.pos = .ok (.plain .memoryGrow) 2 := Instr.read_of_find? (by decide) rfl rfl
  have stepped : entered.step #[] (⟨live, (), #[]⟩ : Machine Unit) =
      .ok (.next { entered with pos := 2 }) ⟨{ live with effects := 1 }, (), #[]⟩ := by
    rw [Activation.step_plain read]
    exact bind_ok (onStore_eq_ok.mpr ⟨_, exec_live, rfl⟩)
  obtain ⟨agrees, rests⟩ := Plain.exec_shadow read #[] (⟨live, (), #[]⟩ : Machine Unit)
  obtain ⟨-, shadow, ran, -, types, -⟩ := agrees _ _ stepped
  have copied : Plain.memoryGrow.exec entered.frame live.shadowCopy =
    .ok () { live.shadowCopy with stack := ⟨#[.i64 7, .i32 (-1)]⟩ } := rfl
  refine ⟨stepped, ⟨shadow, ran, ?_, types⟩, rests live.shadowCopy rfl⟩
  cases copied.symm.trans ran
  rfl

end Wasm
