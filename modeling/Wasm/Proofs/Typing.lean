import Wasm.Proofs.Changes
import Wasm.Proofs.StackTyping
import Wasm.Proofs.Structural
import Wasm.Proofs.Validation

/-! Instructions that run straight on keep to their signatures: they find the operands that they take, give results of
    the declared types, and leave the declarations of the store alone. -/

namespace Wasm
variable {σ : Type}

/-! ### Declarations -/

/-- A global keeps what has been declared of it when its value changes. -/
theorem Store.shape_setGlobal {s : Store} {index : Nat} {g : Global} {v : Value} (found : s.globals[index]? = some g)
    (type : v.type = g.value.type) :
    (s.globals.setIfInBounds index { g with value := v }).map Global.declared = s.globals.map Global.declared := by
  apply Array.ext_getElem?
  intro j
  simp only [Array.getElem?_map, Array.getElem?_setIfInBounds]
  by_cases same : index = j
  · subst same
    rw [if_pos rfl, if_pos (Array.getElem?_eq_some_iff.mp found).1, found]
    simp [Global.declared, type]
  · rw [if_neg same]

theorem Store.Change.shape {s t : Store} (h : s.Change t) : t.shape = s.shape := by
  cases h with
  | stack stack => rfl
  | memory _ _ => simp [Store.shape]
  | global found _ type => simp only [Store.shape, shape_setGlobal found type.symm]
  | segment index => simp [Store.shape]

/-- The store of the machine is declared as told. -/
def Machine.Shaped (shape : Shape) (M : Machine σ) : Prop := M.store.shape = shape

theorem Machine.Changes.shape {calls : Prop} {M N : Machine σ} (h : M.Changes calls N) :
    N.store.shape = M.store.shape := by
  induction h with
  | refl => rfl
  | tail _ change ih =>
    refine Eq.trans ?_ ih
    cases change with
    | store change => exact change.shape
    | notice n => rfl
    | depth depth _ => rfl
    | host host _ => rfl

/-! ### Numbers -/

section Append
variable {α : Type}

theorem append_two (xs : List α) (a b : α) : xs ++ [a, b] = xs ++ [a] ++ [b] := by simp

theorem append_three (xs : List α) (a b c : α) : xs ++ [a, b, c] = xs ++ [a] ++ [b] ++ [c] := by simp

end Append

section Numbers
open Stack
variable {under : Array Value} {ts : List ValType}

theorem Numeric.exec_holds (op : Numeric) : Ensures (Holds under (ts ++ op.params)) op.exec
    (fun _ => Holds under (ts ++ [op.result])) Trap.IsRegular := by
  have computed : ∀ {α : Type} {x : Except Trap α}, (∀ e, x = .error e → e.IsFault) →
      Ensures (Holds under ts) (ofExcept x) (fun _ => Holds under ts) Trap.IsRegular := by
    intro α x faults
    cases x with
    | ok a => exact .pure fun _ h => h
    | error e => exact .throw fun _ _ => (faults e rfl).isRegular
  cases op with
  | eqz w => exact (popInt_holds w).bind fun _ => push_holds rfl
  | intUnary w op => exact (popInt_holds w).bind fun _ => push_holds (by simp [result])
  | intBinary w op =>
    rw [params, append_two]
    exact (popInt_holds w).bind fun _ => (popInt_holds w).bind fun _ =>
      (computed fun _ => IntBinary.apply_isFault).bind fun _ => push_holds (by simp [result])
  | intCompare w op =>
    rw [params, append_two]
    exact (popInt_holds w).bind fun _ => (popInt_holds w).bind fun _ => push_holds rfl
  | floatUnary w op => exact (popFloat_holds w).bind fun _ => push_holds (by simp [result])
  | floatBinary w op =>
    rw [params, append_two]
    exact (popFloat_holds w).bind fun _ => (popFloat_holds w).bind fun _ => push_holds (by simp [result])
  | floatCompare w op =>
    rw [params, append_two]
    exact (popFloat_holds w).bind fun _ => (popFloat_holds w).bind fun _ => push_holds rfl
  | wrap => exact (popInt_holds .w64).bind fun _ => push_holds rfl
  | extend sign => exact (popInt_holds .w32).bind fun _ => push_holds rfl
  | truncate target source sign =>
    exact (popFloat_holds source).bind fun _ => (computed fun _ => FloatClass.truncate_isFault).bind fun _ =>
      push_holds (by simp [result])
  | truncateSat target source sign => exact (popFloat_holds source).bind fun _ => push_holds (by simp [result])
  | convert target source sign => exact (popInt_holds source).bind fun _ => push_holds (by simp [result])
  | demote => exact (popFloat_holds .w64).bind fun _ => push_holds rfl
  | promote => exact (popFloat_holds .w32).bind fun _ => push_holds rfl
  | toBits w => exact (popFloat_holds w).bind fun _ => push_holds (by simp [result])
  | ofBits w => exact (popInt_holds w).bind fun _ => push_holds (by simp [result])

end Numbers

/-! ### Stores -/

namespace Store

/-- The stack has values of the types above some others, and the store is as declared. -/
def Holds (shape : Shape) (under : Array Value) (ts : List ValType) (s : Store) : Prop :=
  s.stack.Holds under ts ∧ s.shape = shape

variable {α : Type} {shape : Shape} {under : Array Value} {ts us : List ValType} {E : Trap → Prop}

theorem onStack_gives {op : Stack.Op α} {p : α → Prop}
    (h : Ensures (Stack.Holds under ts) op (fun a s => p a ∧ s.Holds under us) E) :
    Ensures (Holds shape under ts) (onStack op) (fun a s => p a ∧ s.Holds shape under us) E := by
  refine .of_cases (fun s a t holds done => ?_) fun s e t holds failed => ?_
  · obtain ⟨stack, ran, rfl⟩ := onStack_eq_ok.mp done
    obtain ⟨fact, above⟩ := h.ok holds.1 ran
    exact ⟨fact, above, holds.2⟩
  · obtain ⟨stack, stopped, rfl⟩ := onStack_eq_error.mp failed
    exact h.error holds.1 stopped

theorem onStack_holds {op : Stack.Op α} (h : Ensures (Stack.Holds under ts) op (fun _ => Stack.Holds under us) E) :
    Ensures (Holds shape under ts) (onStack op) (fun _ => Holds shape under us) E :=
  (onStack_gives (p := fun _ => True) (h.weaken (fun _ h => h) fun _ _ h => ⟨trivial, h⟩)).weaken (fun _ h => h)
    fun _ _ h => h.2

theorem onMemory_holds {op : Memory.Op α} (some : 0 < shape.memories) (h : Raises Trap.IsFault op) :
    Ensures (Holds shape under ts) (onMemory 0 op) (fun _ => Holds shape under ts) Trap.IsRegular := by
  refine .of_cases (fun s a t holds done => ?_) fun s e t holds failed => ?_
  · obtain ⟨m, m', -, -, rfl⟩ := onMemory_eq_ok.mp done
    obtain ⟨stack, rfl⟩ := holds
    exact ⟨stack, by simp [Store.shape]⟩
  · obtain ⟨-, rfl⟩ := holds
    have found : s.memories[0]? = .some s.memories[0] := Array.getElem?_eq_getElem some
    unfold onMemory at failed
    rw [found] at failed
    dsimp only at failed
    split at failed <;> cases failed
    exact (h.error trivial ‹_›).isRegular

theorem global_holds {index : Nat} {g : GlobalType} (found : shape.globals[index]? = some g) :
    Ensures (Holds shape under ts) (global index) (fun v s => v.type = g.type ∧ s.Holds shape under ts) E := by
  refine .of_ok fun s holds => ?_
  obtain ⟨stack, rfl⟩ := holds
  simp only [Store.shape, Array.getElem?_map, Option.map_eq_some_iff] at found
  obtain ⟨g, found, rfl⟩ := found
  exact ⟨g.value, s, global_eq_ok.mpr ⟨⟨g, found, rfl⟩, rfl⟩, rfl, stack, rfl⟩

theorem setGlobal_holds {index : Nat} {g : GlobalType} {v : Value} (found : shape.globals[index]? = some g)
    (isVariable : g.isConstant = false) (type : v.type = g.type) :
    Ensures (Holds shape under ts) (setGlobal index v) (fun _ => Holds shape under ts) E := by
  refine .of_ok fun s holds => ?_
  obtain ⟨stack, rfl⟩ := holds
  simp only [Store.shape, Array.getElem?_map, Option.map_eq_some_iff] at found
  obtain ⟨g, found, rfl⟩ := found
  refine ⟨(), _, setGlobal_eq_ok.mpr ⟨g, found, isVariable, type.symm, rfl⟩, stack, ?_⟩
  simp only [Store.shape, shape_setGlobal found type]

theorem segment_holds (index offset n : Nat) :
    Ensures (Holds shape under ts) (segment index offset n) (fun _ => Holds shape under ts) Trap.IsRegular := by
  refine .of_cases (fun s a t holds done => ?_) fun s e t holds failed => ?_
  · obtain ⟨-, rfl⟩ := segment_eq_ok.mp done
    exact holds
  · unfold segment at failed
    repeat' split at failed
    all_goals cases failed
    all_goals exact nofun

theorem dropSegment_holds (index : Nat) :
    Ensures (Holds shape under ts) (dropSegment index) (fun _ => Holds shape under ts) Trap.IsRegular := by
  refine .of_cases (fun s a t holds done => ?_) fun s e t holds failed => ?_
  · obtain ⟨inside, rfl⟩ := dropSegment_eq_ok.mp done
    obtain ⟨stack, rfl⟩ := holds
    exact ⟨stack, by simp [Store.shape]⟩
  · unfold dropSegment at failed
    split at failed <;> cases failed
    rintro ⟨⟩

theorem get_holds : Ensures (Holds shape under ts) (get : Exec Store) (fun _ => Holds shape under ts) E := fun _ h => h

end Store

/-! ### Instructions -/

namespace Plain
open Store
variable {C : Context} {f : Frame} {under : Array Value} {ts params results : List ValType} {t : ValType} {index : Nat}
  {E : Trap → Prop}

theorem slot_eq (offset : f.offset = under.size) (locals : f.locals = C.locals.length) (found : C.locals[index]? = some t) :
    slot f index = pure (under.size + index) := by
  have inside : index < f.locals := by
    rw [locals]
    exact (List.getElem?_eq_some_iff.mp found).1
  unfold slot Frame.slot?
  rw [if_pos inside, offset]

/-- A local is among the values of the frame, whatever operands are above. -/
theorem local_found (found : C.locals[index]? = some t) : (C.locals ++ ts)[index]? = some t := by
  rw [List.getElem?_append_left (List.getElem?_eq_some_iff.mp found).1, found]

theorem popTarget_holds (arg : MemArg) :
    Ensures (Holds C.shape under (ts ++ [.i32])) (popTarget arg) (fun _ => Holds C.shape under ts) E :=
  (onStack_holds Stack.popAddress_holds).bind fun _ => .pure fun _ h => h

theorem writeMemory_holds {op : Memory.Op Unit} (some : 0 < C.shape.memories) (h : Raises Trap.IsFault op) :
    Ensures (Holds C.shape under ts) (writeMemory op) (fun _ => Holds C.shape under ts) Trap.IsRegular := by
  refine get_holds.bind fun s => ?_
  split
  · exact .pure fun _ h => h
  · exact (onMemory_holds some h).bind fun _ => .of_ok fun s h => ⟨(), _, rfl, h⟩

theorem growMemory_holds (some : 0 < C.shape.memories) (delta : Nat) :
    Ensures (Holds C.shape under ts) (growMemory delta) (fun _ => Holds C.shape under ts) Trap.IsRegular := by
  refine get_holds.bind fun s => ?_
  split
  · exact .pure fun _ h => h
  · refine (onMemory_holds some (.of_error fun m e m' h => ?_)).bind fun before => ?_
    · split at h
      cases h
    · cases before with
      | some n => exact Ensures.bind (.of_ok fun s h => ⟨(), _, rfl, h⟩) fun _ => .pure fun _ h => h
      | none => exact .pure fun _ h => h

theorem assign_holds (offset : f.offset = under.size) (locals : f.locals = C.locals.length)
    (found : C.locals[index]? = some t) : Ensures (Holds C.shape under (C.locals ++ ts ++ [t])) (assign f index)
      (fun v s => v.type = t ∧ s.Holds C.shape under (C.locals ++ ts)) E := by
  unfold assign
  rw [slot_eq offset locals found, pure_bind]
  refine (onStack_gives Stack.pop_holds).bind fun v => .given fun type =>
    (onStack_gives (Stack.get_holds (local_found found))).bind fun old => .given fun same => ?_
  -- The slot holds a value of the declared type, so it is no mismatch.
  rw [if_neg (by simp [same, type])]
  subst type
  exact (onStack_holds (Stack.set_holds (local_found found))).bind fun _ => .pure fun _ h => ⟨rfl, h⟩

theorem loaded_type (op : LoadOp) (n : Nat) : (loaded op n).type = op.type := by
  rcases op with t | ⟨w, size, _ | _⟩ <;> simp [loaded, LoadOp.type]

/-- An instruction that runs straight on takes its operands to its results, above the locals and other operands. -/
theorem exec_holds {p : Plain} (typed : p.Typed C params results) (offset : f.offset = under.size)
    (locals : f.locals = C.locals.length) : Ensures (Holds C.shape under (C.locals ++ ts ++ params)) (p.exec f)
      (fun _ => Holds C.shape under (C.locals ++ ts ++ results)) Trap.IsRegular := by
  -- Operands are taken off one after the other, so those of an instruction stand one by one behind the others.
  cases typed with
  | nop => exact .pure fun _ h => h
  | drop => exact (onStack_gives Stack.pop_holds).discard fun _ _ h => by simpa using h.2
  | select =>
    rw [append_three]
    refine (onStack_holds (Stack.popInt_holds .w32)).bind fun condition => (onStack_gives Stack.pop_holds).bind fun b =>
      .given fun second => (onStack_gives Stack.pop_holds).bind fun a => .given fun first =>
        onStack_holds (Stack.push_holds ?_)
    -- Both have the type that is selected, whichever it is.
    split <;> assumption
  | localGet found =>
    unfold exec
    dsimp only
    rw [slot_eq offset locals found, pure_bind, List.append_nil]
    exact (onStack_gives (Stack.get_holds (local_found found))).bind fun v => .given fun type =>
      onStack_holds (Stack.push_holds type)
  | localSet found =>
    rw [List.append_nil]
    exact (assign_holds offset locals found).discard fun _ _ h => h.2
  | localTee found =>
    -- What is assigned is pushed again.
    exact (assign_holds offset locals found).bind fun v => .given fun type => onStack_holds (Stack.push_holds type)
  | globalGet found =>
    rw [List.append_nil]
    exact (global_holds found).bind fun v => .given fun type => onStack_holds (Stack.push_holds type)
  | globalSet found isVariable =>
    rw [List.append_nil]
    exact (onStack_gives Stack.pop_holds).bind fun v => .given fun type => setGlobal_holds found isVariable type
  | @load op arg some =>
    -- An access may trap, and this is a trap that typed code may run into.
    exact (popTarget_holds arg).bind fun address => (onMemory_holds some (Memory.load_raises address op.size)).bind fun n =>
      onStack_holds (Stack.push_holds (loaded_type op n))
  | @store op arg some =>
    rw [append_two, List.append_nil]
    exact (onStack_holds (Stack.popType_holds op.type)).bind fun v => (popTarget_holds arg).bind fun address =>
      writeMemory_holds some (Memory.write_raises address _)
  | memorySize some =>
    rw [List.append_nil]
    exact (onMemory_holds some fun _ _ => trivial).bind fun _ => onStack_holds (Stack.push_holds rfl)
  | memoryGrow some =>
    exact (onStack_holds Stack.popAddress_holds).bind fun delta => (growMemory_holds some delta).bind fun _ =>
      onStack_holds (Stack.push_holds rfl)
  | const =>
    rw [List.append_nil]
    exact onStack_holds (Stack.push_holds rfl)
  | numeric => exact onStack_holds (Numeric.exec_holds _)
  | @memoryInit index some =>
    rw [append_three, List.append_nil]
    refine (onStack_holds Stack.popAddress_holds).bind fun n => (onStack_holds Stack.popAddress_holds).bind fun source =>
      (onStack_holds Stack.popAddress_holds).bind fun target => get_holds.bind fun s => ?_
    -- On a shadow nothing is copied.
    split
    · exact .pure fun _ h => h
    · exact (segment_holds index source n).bind fun part => writeMemory_holds some (Memory.write_raises target part)
  | dataDrop =>
    rw [List.append_nil]
    refine get_holds.bind fun s => ?_
    split
    · exact .pure fun _ h => h
    · exact dropSegment_holds _
  | memoryCopy some =>
    rw [append_three, List.append_nil]
    exact (onStack_holds Stack.popAddress_holds).bind fun n => (onStack_holds Stack.popAddress_holds).bind fun source =>
      (onStack_holds Stack.popAddress_holds).bind fun target => writeMemory_holds some (Memory.copy_raises target source n)
  | memoryFill some =>
    rw [append_three, List.append_nil]
    exact (onStack_holds Stack.popAddress_holds).bind fun n => (onStack_holds (Stack.popInt_holds .w32)).bind fun b =>
      (onStack_holds Stack.popAddress_holds).bind fun target => writeMemory_holds some (Memory.fill_raises target _ n)

end Plain
end Wasm
