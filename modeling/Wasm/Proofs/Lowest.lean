import Wasm.Proofs.Transparency
import Wasm.Proofs.Validation

/-! How far down the stack a run works: the lowest height at which it takes a value off, takes one out, or puts another
    one in its place. Only what an instruction really does counts. Operands are taken off one after the other, and one of
    the wrong type is the last; nothing is taken out where the values that stay are all there are; and the arguments of
    a function with code stay where they are. -/

namespace Wasm
variable {σ τ ε α β : Type}

/-! ### Instructions -/

/-- The height that a stack has once operands have been taken off it, the topmost first. -/
def Stack.lowest : List Operand → Stack → Nat
  | [], s => s.size
  | o :: os, s =>
    match s.values.back? with
    | none => s.size
    | some v => if o.all (· = v.type) then lowest os ⟨s.values.pop⟩ else s.size - 1

/-- Settling takes out what is between a height and the values that stay. -/
def Stack.lowestSettling (height arity : Nat) (s : Stack) : Nat :=
  if height + arity < s.size then height else s.size

/-- The value on top takes the place of another one, if this is of its type. -/
def Stack.lowestAssigning (slot : Nat) (s : Stack) : Nat :=
  match s.values.back?, s.values.pop[slot]? with
  | some v, some old => if old.type = v.type then slot else s.size - 1
  | _, _ => s.size - 1

/-- The operands of an instruction that runs straight on, the topmost first. -/
def Plain.operands : Plain → List Operand
  | drop | localSet _ | localTee _ | globalSet _ => [none]
  | select => [some .i32, none, none]
  | load _ _ | memoryGrow => [some .i32]
  | store op _ => [some op.type, some .i32]
  | numeric op => known op.params
  | memoryInit _ | memoryCopy | memoryFill => [some .i32, some .i32, some .i32]
  | unreachable | nop | localGet _ | globalGet _ | memorySize | const _ | dataDrop _ => []

def Plain.lowest (f : Frame) (s : Stack) : Plain → Nat
  | localSet index | localTee index =>
    match f.slot? index with
    | some slot => s.lowestAssigning slot
    | none => s.size
  | p => s.lowest p.operands

/-- A host function takes its arguments off the stack, if it gets so far. -/
def Function.takesArguments (f : Function σ) (s : Store) : Bool :=
  match f.body with
  | .host _ _ (some _) => s.depth < s.options.maxCallDepth
  | _ => false

namespace Activation

/-- A function that is over leaves its results in the place of its frame. -/
def lowestReturning (act : Activation) (s : Stack) : Nat := s.lowestSettling act.frame.offset act.results.length

/-- An idle branch cuts the stack down to the height of its loop, unless it goes on behind itself. -/
def lowestBranching (act : Activation) (depth : Nat) (conditional : Bool) (s : Store) : Nat :=
  if depth = act.labels.length then act.lowestReturning s.stack
  else
    match act.labels[depth]? with
    | none => s.stack.size
    | some L =>
      if isIdle L act.frame s then if conditional then s.stack.size else L.height
      else s.stack.lowestSettling L.height L.arity

/-- A call takes its arguments off the stack if it is skipped, or if it is one of a host function. -/
def lowestCalling (m : Module σ) (act : Activation) (callee : Nat) (s : Store) : Nat :=
  match m.function callee with
  | .error _ => s.stack.size
  | .ok f =>
    let params := f.signature.params.length
    match Module.isRepeated act callee params s with
    | .error _ => s.stack.size
    | .ok repeated =>
      if params ≤ s.stack.size ∧ (repeated || f.takesArguments s) then s.stack.size - params else s.stack.size

/-- The condition of an if is taken off once its type has been found. -/
def lowestTesting (types : Array FuncType) (type : BlockType) (s : Stack) : Nat :=
  match type.arity types with
  | .ok _ => s.lowest [some .i32]
  | .error _ => s.size

def lowestLeaving (act : Activation) (s : Stack) : Nat :=
  match act.labels with
  | [] => act.lowestReturning s
  | L :: _ => s.lowestSettling L.height L.results.length

/-- An instruction takes its operand off, and branches if there is a target. -/
def lowestChoosing (act : Activation) (target : Option (Nat × Stack)) (conditional : Bool) (s : Store) : Nat :=
  match target with
  | some (depth, stack) => act.lowestBranching depth conditional { s with stack }
  | none => s.stack.lowest [some .i32]

def lowestOf (m : Module σ) (act : Activation) (s : Store) : Instr → Nat
  | .plain p => p.lowest act.frame s.stack
  | .ifThen type => lowestTesting m.types type s.stack
  | .endMark => act.lowestLeaving s.stack
  | .br depth => act.lowestBranching depth false s
  | .brIf depth => act.lowestChoosing ((Instr.brIf depth).target? s.stack) true s
  | .brTable targets fallback => act.lowestChoosing ((Instr.brTable targets fallback).target? s.stack) false s
  | .ret => act.lowestReturning s.stack
  | .call callee => act.lowestCalling m callee s
  | .block _ | .loop _ | .elseMark => s.stack.size

/-- The lowest height that the next instruction works at. -/
def lowest (m : Module σ) (act : Activation) (s : Store) : Nat :=
  match Instr.read act.body act.pos with
  | .ok i _ => act.lowestOf m s i
  | .error _ _ => s.stack.size

end Activation

/-! ### Runs -/

namespace Module

/-- The lowest height that a run works at. -/
def lowest (m : Module σ) : (fuel : Nat) → List Activation → Machine σ → Nat
  | fuel + 1, act :: callers, M =>
    match m.step act callers M with
    | .ok chain N => min (act.lowest m M.store) (m.lowest fuel chain N)
    | .error _ _ => act.lowest m M.store
  | _, _, M => M.store.stack.size

/-- The lowest height that the call of the function at an index works at. Its own arguments are above all there was. -/
def invokeLowest (m : Module σ) (fuel index : Nat) (arguments : Array Value) (M : Machine σ) : Nat :=
  match m.accept index arguments with
  | .error _ => M.store.stack.size
  | .ok f =>
    match m.starts f index arguments M with
    | .ok (some act) N => min M.store.stack.size (m.lowest fuel [act] N)
    | _ => M.store.stack.size

end Module

/-! ### Values at the bottom -/

/-- A stack has these values at its bottom. -/
structure Stack.Rests (under : Array Value) (s : Stack) : Prop where
  size : under.size ≤ s.values.size
  get : ∀ i < under.size, s.values[i]? = under[i]?

namespace Stack.Rests
variable {under : Array Value} {s t : Stack} {v : Value}

/-- What rests on a stack rests on any other one that is as high and has the same values there. -/
theorem of_values (h : s.Rests under) (size : under.size ≤ t.values.size)
    (get : ∀ i < under.size, t.values[i]? = s.values[i]?) : t.Rests under :=
  ⟨size, fun i lt => (get i lt).trans (h.get i lt)⟩

theorem split (h : s.Rests under) : ∃ above, s.values = under ++ above ∧ above.size = s.values.size - under.size := by
  have size := h.size
  refine ⟨s.values.extract under.size s.values.size, Array.ext_getElem? fun i => ?_, by simp⟩
  by_cases low : i < under.size
  · rw [h.get i low, Array.getElem?_append_left low]
  · rw [Array.getElem?_append_right (Nat.le_of_not_lt low), Array.getElem?_extract]
    split
    · congr 1
      omega
    · exact Array.getElem?_eq_none (by omega)

/-- The values at the bottom, as far as a height. -/
theorem extract (s : Stack) (height : Nat) : s.Rests (s.values.extract 0 height) := by
  refine ⟨by rw [Array.size_extract]; omega, fun i lt => ?_⟩
  rw [Array.size_extract] at lt
  rw [Array.getElem?_extract, if_pos (by omega), Nat.zero_add]

/-- Cutting the stack down to a height that is no lower, and putting other values there. -/
theorem cut (h : s.Rests under) {height : Nat} (le : under.size ≤ height) (above : Array Value) :
    Stack.Rests under ⟨s.values.extract 0 height ++ above⟩ := by
  have size := h.size
  refine h.of_values (by simp; omega) fun i lt => ?_
  rw [Array.getElem?_append_left (by rw [Array.size_extract]; omega), Array.getElem?_extract, if_pos (by omega), Nat.zero_add]

theorem shrink (h : s.Rests under) {height : Nat} (le : under.size ≤ height) : Stack.Rests under ⟨s.values.shrink height⟩ := by
  have := h.cut le #[]
  rwa [Array.append_empty, ← Array.take_eq_extract, ← Array.shrink_eq_take] at this

theorem pushed (h : s.Rests under) (vs : Array Value) : Stack.Rests under ⟨s.values ++ vs⟩ := by
  have size := h.size
  exact h.of_values (by simp; omega) fun i lt => Array.getElem?_append_left (by omega)

theorem popped (h : s.Rests under) (whole : s.values = t.values.push v) (low : under.size ≤ t.values.size) :
    t.Rests under := by
  refine h.of_values low fun i lt => ?_
  rw [whole, Array.getElem?_push, if_neg (by omega)]

end Stack.Rests

/-! ### Operations that take operands -/

/-- The operation takes off an operand and nothing else, and fails if there is none of its type. -/
def Takes (stack : τ → Stack) (o : Operand) (op : EStateM ε τ α) : Prop :=
  ∀ s, match op s with
    | .ok _ t => ∃ v, (stack s).values = (stack t).values.push v ∧ o.all (· = v.type)
    | .error _ t => stack t = stack s ∨ ∃ v, (stack s).values = (stack t).values.push v

/-- From a stack with these values below all its operands, the operation leaves them there, whether it succeeds or fails. -/
def Isolates (stack : τ → Stack) (under : Array Value) (os : List Operand) (op : EStateM ε τ α) : Prop :=
  ∀ s, (stack s).Rests under → under.size ≤ (stack s).lowest os → (stack (stateAfter op s)).Rests under

theorem Stack.lowest_le (os : List Operand) (s : Stack) : s.lowest os ≤ s.size := by
  induction os generalizing s with
  | nil => exact Nat.le_refl _
  | cons o os ih =>
    unfold lowest
    split
    · exact Nat.le_refl _
    · have below := ih ⟨s.values.pop⟩
      unfold size at *
      rw [Array.size_pop] at below
      split <;> omega

/-- Below an operand there is one value less, also if it is not of its type. -/
theorem Stack.lowest_cons {s t : Stack} {v : Value} (whole : s.values = t.values.push v) (o : Operand) (os : List Operand) :
    s.lowest (o :: os) = if o.all (· = v.type) then t.lowest os else t.size := by
  have last : s.values.back? = some v := by rw [whole, Array.back?_push]
  have rest : (⟨s.values.pop⟩ : Stack) = t := by rw [whole, Array.pop_push]
  have size : s.size - 1 = t.size := by
    unfold size
    rw [whole, Array.size_push, Nat.add_sub_cancel]
  rw [lowest, last]
  dsimp only
  rw [rest, size]

theorem Stack.lowest_any (s : Stack) : s.lowest [none] = s.size - 1 := by
  unfold lowest
  split
  · rename_i empty
    rw [Array.back?_eq_none_iff] at empty
    simp [size, empty]
  · simp [lowest, size]

theorem Stack.lowestAssigning_push {s t : Stack} {v : Value} (whole : s.values = t.values.push v) (slot : Nat) :
    s.lowestAssigning slot = match t.values[slot]? with
      | some old => if old.type = v.type then slot else t.size
      | none => t.size := by
  have size : s.size - 1 = t.size := by rw [Stack.size, whole, Array.size_push, Nat.add_sub_cancel, Stack.size]
  unfold lowestAssigning
  rw [whole, Array.back?_push, Array.pop_push, size]
  cases t.values[slot]? <;> rfl

theorem Stack.lowestAssigning_le (slot : Nat) (s : Stack) : s.lowestAssigning slot ≤ s.size - 1 := by
  unfold lowestAssigning
  split
  · rename_i other
    have inside := (Array.getElem?_eq_some_iff.mp other).1
    rw [Array.size_pop] at inside
    split
    · exact Nat.le_of_lt inside
    · exact Nat.le_refl _
  · exact Nat.le_refl _

namespace Takes
variable {stack : τ → Stack} {o : Operand} {op : EStateM ε τ α} {under : Array Value} {os : List Operand} {s t : τ}

theorem ok (h : Takes stack o op) {a : α} (done : op s = .ok a t) (rests : (stack s).Rests under)
    (low : under.size ≤ (stack s).lowest (o :: os)) : (stack t).Rests under ∧ under.size ≤ (stack t).lowest os := by
  have := h s
  rw [done] at this
  obtain ⟨v, whole, type⟩ := this
  rw [Stack.lowest_cons whole, if_pos type] at low
  exact ⟨rests.popped whole (Nat.le_trans low (Stack.lowest_le ..)), low⟩

theorem error (h : Takes stack o op) {e : ε} (failed : op s = .error e t) (rests : (stack s).Rests under)
    (low : under.size ≤ (stack s).lowest (o :: os)) : (stack t).Rests under := by
  have := h s
  rw [failed] at this
  rcases this with same | ⟨v, whole⟩
  · rwa [same]
  · refine rests.popped whole (Nat.le_trans low ?_)
    rw [Stack.lowest_cons whole]
    split
    · exact Stack.lowest_le ..
    · exact Nat.le_refl _

/-- An operation that goes on with the operand. -/
theorem bind (h : Takes stack o op) {f : α → EStateM ε τ β} (hf : ∀ a, Isolates stack under os (f a)) :
    Isolates stack under (o :: os) (op >>= f) := by
  intro s rests low
  cases done : op s with
  | ok a t =>
    obtain ⟨rests, low⟩ := h.ok done rests low
    rw [stateAfter_bind done]
    exact hf a t rests low
  | error e t =>
    rw [stateAfter_error (bind_error done)]
    exact h.error done rests low

/-- An operation that gives something else. -/
theorem map (h : Takes stack o op) (f : α → β) : Takes stack o (do return f (← op)) := by
  intro s
  have := h s
  cases done : op s with
  | ok a t =>
    rw [done] at this
    rw [bind_ok done]
    exact this
  | error e t =>
    rw [done] at this
    rw [bind_error done]
    exact this

theorem discard (h : Takes stack o op) : Isolates stack under [o] (Functor.discard op) := by
  rw [discard_eq_bind]
  exact h.bind fun _ _ rests _ => rests

end Takes

theorem Isolates.of_maintains {stack : τ → Stack} {under : Array Value} {op : EStateM ε τ α}
    (h : Maintains (fun s => (stack s).Rests under) op) (os : List Operand) : Isolates stack under os op :=
  fun _ rests _ => h.after rests

/-- An operation that does nothing to the stack. -/
theorem rests_of_same {stack : τ → Stack} {under : Array Value} {op : EStateM ε τ α}
    (ok : ∀ s a t, op s = .ok a t → stack t = stack s) (error : ∀ s e t, op s = .error e t → stack t = stack s) :
    Maintains (fun s => (stack s).Rests under) op :=
  .of_cases (fun s a t rests done => by rwa [ok s a t done]) fun s e t rests failed => by rwa [error s e t failed]

/-! ### The stack -/

namespace Stack
variable {under : Array Value}

theorem pop_takes : Takes id none pop := by
  intro s
  cases popped : pop s with
  | ok v t => exact ⟨v, pop_eq_ok.mp popped, rfl⟩
  | error e t =>
    unfold pop at popped
    dsimp only at popped
    split at popped <;> cases popped
    exact .inl rfl

/-- Taking off a value that may turn out to be of the wrong type. -/
theorem pop_bind_takes {o : Operand} {f : Value → Op α} (ok : ∀ v s a t, f v s = .ok a t → t = s ∧ o.all (· = v.type))
    (error : ∀ v s e t, f v s = .error e t → t = s) : Takes id o (pop >>= f) := by
  intro s
  have first := pop_takes s
  cases popped : pop s with
  | error e t =>
    rw [popped] at first
    rw [bind_error popped]
    exact first
  | ok v t =>
    rw [popped] at first
    obtain ⟨v', whole, -⟩ := first
    obtain rfl : v' = v := by
      have same := pop_eq_ok.mp popped
      exact (Array.push_eq_push.mp (whole.symm.trans same)).1
    rw [bind_ok popped]
    cases done : f v' t with
    | ok a u =>
      obtain ⟨rfl, type⟩ := ok v' t a u done
      exact ⟨v', whole, type⟩
    | error e u =>
      obtain rfl := error v' t e u done
      exact .inr ⟨v', whole⟩

theorem popInt_takes (w : Width) : Takes id (some w.int) (popInt w) := by
  refine pop_bind_takes (fun v s x t done => ?_) fun v s e t failed => ?_
  · cases v <;> cases w <;> cases done <;> exact ⟨rfl, rfl⟩
  · cases v <;> cases w <;> cases failed <;> rfl

theorem popFloat_takes (w : Width) : Takes id (some w.float) (popFloat w) := by
  refine pop_bind_takes (fun v s x t done => ?_) fun v s e t failed => ?_
  · cases v <;> cases w <;> cases done <;> exact ⟨rfl, rfl⟩
  · cases v <;> cases w <;> cases failed <;> rfl

theorem popType_takes (type : ValType) : Takes id (some type) (popType type) := by
  refine pop_bind_takes (fun v s x t done => ?_) fun v s e t failed => ?_
  · split at done <;> cases done
    rename_i same
    exact ⟨rfl, by simp [same]⟩
  · split at failed <;> cases failed
    rfl

theorem popAddress_takes : Takes id (some .i32) popAddress := (popInt_takes .w32).map _

theorem push_rests (v : Value) : Maintains (Rests under) (push v) := by
  refine .of_after fun s rests => ?_
  have pushed := rests.pushed #[v]
  rwa [← Array.push_eq_append] at pushed

theorem pushMany_rests (vs : Array Value) : Maintains (Rests under) (pushMany vs) := .of_after fun _ rests => rests.pushed vs

theorem popMany_rests {count : Nat} {s : Stack} (rests : s.Rests under)
    (low : count ≤ s.size → under.size ≤ s.size - count) : (stateAfter (popMany count) s).Rests under := by
  unfold stateAfter popMany
  dsimp only
  split
  · rename_i done
    split at done <;> cases done
    exact rests.shrink (low ‹_›)
  · rename_i failed
    split at failed <;> cases failed
    exact rests

/-- Values may be replaced where they are above those at the bottom. -/
theorem set_rests {index : Nat} (above : under.size ≤ index) (v : Value) : Maintains (Rests under) (set index v) := by
  refine .of_cases (fun s _ t rests done => ?_) fun s e t rests failed => ?_
  · obtain ⟨-, values⟩ := set_eq_ok.mp done
    refine rests.of_values (by rw [values, Array.size_setIfInBounds]; exact rests.size) fun i lt => ?_
    rw [values, Array.getElem?_setIfInBounds_ne (by omega)]
  · unfold set at failed
    dsimp only at failed
    split at failed <;> cases failed
    exact rests

theorem get_rests (index : Nat) : Maintains (Rests under) (get index) := by
  refine .of_cases (fun s v t rests done => (get_eq_ok.mp done).2 ▸ rests) fun s e t rests failed => ?_
  unfold get at failed
  split at failed <;> cases failed
  exact rests

end Stack

theorem Numeric.exec_isolates {under : Array Value} (op : Numeric) : Isolates id under (known op.params) op.exec := by
  have int : ∀ w, Takes id (some w.int) (Stack.popInt w) := Stack.popInt_takes
  have float : ∀ w, Takes id (some w.float) (Stack.popFloat w) := Stack.popFloat_takes
  have push : ∀ v, Isolates id under [] (Stack.push v) := fun v => .of_maintains (Stack.push_rests v) _
  have computed : ∀ {α : Type} (x : Except Trap α) (f : α → Value),
      Isolates id under [] (do Stack.push (f (← MonadExcept.ofExcept x))) := fun x f =>
    .of_maintains ((Maintains.ofExcept x).bind fun a => Stack.push_rests (f a)) _
  cases op with
  | eqz w => exact (int w).bind fun _ => push _
  | intUnary w op => exact (int w).bind fun _ => push _
  | intBinary w op => exact (int w).bind fun _ => (int w).bind fun _ => computed _ _
  | intCompare w op => exact (int w).bind fun _ => (int w).bind fun _ => push _
  | floatUnary w op => exact (float w).bind fun _ => push _
  | floatBinary w op => exact (float w).bind fun _ => (float w).bind fun _ => push _
  | floatCompare w op => exact (float w).bind fun _ => (float w).bind fun _ => push _
  | wrap => exact (int .w64).bind fun _ => push _
  | extend sign => exact (int .w32).bind fun _ => push _
  | truncate target source sign => exact (float source).bind fun _ => computed _ _
  | truncateSat target source sign => exact (float source).bind fun _ => push _
  | convert target source sign => exact (int source).bind fun _ => push _
  | demote => exact (float .w64).bind fun _ => push _
  | promote => exact (float .w32).bind fun _ => push _
  | toBits w => exact (float w).bind fun _ => push _
  | ofBits w => exact (int w).bind fun _ => push _

/-! ### The store -/

namespace Store
variable {under : Array Value}

/-- An operation on the stack changes nothing else of a store. -/
theorem stateAfter_onStack (op : Stack.Op α) (s : Store) : (stateAfter (onStack op) s).stack = stateAfter op s.stack := by
  cases done : op s.stack with
  | ok a t => rw [stateAfter_ok done, stateAfter_ok (onStack_eq_ok.mpr ⟨t, done, rfl⟩)]
  | error e t => rw [stateAfter_error done, stateAfter_error (onStack_eq_error.mpr ⟨t, done, rfl⟩)]

theorem onStack_takes {o : Operand} {op : Stack.Op α} (h : Takes id o op) : Takes stack o (onStack op) := by
  intro s
  have := h s.stack
  cases done : op s.stack with
  | ok a t =>
    rw [done] at this
    rw [onStack_eq_ok.mpr ⟨t, done, rfl⟩]
    exact this
  | error e t =>
    rw [done] at this
    rw [onStack_eq_error.mpr ⟨t, done, rfl⟩]
    exact this

theorem onStack_isolates {os : List Operand} {op : Stack.Op α} (h : Isolates id under os op) :
    Isolates stack under os (onStack op) := by
  intro s rests low
  rw [stateAfter_onStack]
  exact h s.stack rests low

theorem onStack_rests {op : Stack.Op α} (h : Maintains (Stack.Rests under) op) :
    Maintains (fun s => s.stack.Rests under) (onStack op) :=
  .of_after fun s rests => by
    rw [stateAfter_onStack]
    exact h.after rests

theorem onMemory_rests (index : Nat) (op : Memory.Op α) : Maintains (fun s => s.stack.Rests under) (onMemory index op) := by
  refine rests_of_same (fun s a t done => ?_) fun s e t failed => ?_
  · obtain ⟨m, m', -, -, rfl⟩ := onMemory_eq_ok.mp done
    rfl
  · unfold onMemory at failed
    split at failed
    · cases failed
      rfl
    · dsimp only at failed
      split at failed <;> cases failed
      rfl

theorem global_rests (index : Nat) : Maintains (fun s => s.stack.Rests under) (global index) := by
  refine rests_of_same (fun s v t done => by rw [(global_eq_ok.mp done).2]) fun s e t failed => ?_
  unfold global at failed
  split at failed <;> cases failed
  rfl

theorem setGlobal_rests (index : Nat) (v : Value) : Maintains (fun s => s.stack.Rests under) (setGlobal index v) := by
  refine rests_of_same (fun s _ t done => ?_) fun s e t failed => ?_
  · obtain ⟨g, -, -, -, rfl⟩ := setGlobal_eq_ok.mp done
    rfl
  · unfold setGlobal at failed
    repeat' split at failed
    all_goals cases failed
    all_goals rfl

theorem segment_rests (index offset count : Nat) : Maintains (fun s => s.stack.Rests under) (segment index offset count) := by
  refine rests_of_same (fun s bytes t done => by rw [(segment_eq_ok.mp done).2]) fun s e t failed => ?_
  unfold segment at failed
  repeat' split at failed
  all_goals cases failed
  all_goals rfl

theorem dropSegment_rests (index : Nat) : Maintains (fun s => s.stack.Rests under) (dropSegment index) := by
  refine rests_of_same (fun s _ t done => ?_) fun s e t failed => ?_
  · obtain ⟨-, rfl⟩ := dropSegment_eq_ok.mp done
    rfl
  · unfold dropSegment at failed
    split at failed <;> cases failed
    rfl

theorem get_rests : Maintains (fun s => s.stack.Rests under) (get : Exec Store) := fun _ rests => rests

theorem countEffect_rests : Maintains (fun s => s.stack.Rests under) countEffect := fun _ rests => rests

end Store

namespace Plain
open Store
variable {under : Array Value}

theorem slot_rests (f : Frame) (index : Nat) : Maintains (fun s => s.stack.Rests under) (slot f index) := by
  unfold slot
  split
  · exact .pure _
  · exact .throw _

theorem popTarget_takes (arg : MemArg) : Takes stack (some .i32) (popTarget arg) :=
  (onStack_takes Stack.popAddress_takes).map _

theorem writeMemory_rests (op : Memory.Op Unit) : Maintains (fun s => s.stack.Rests under) (writeMemory op) := by
  refine get_rests.bind fun s => ?_
  split
  · exact .pure _
  · exact (onMemory_rests 0 op).bind fun _ => countEffect_rests

theorem growMemory_rests (delta : Nat) : Maintains (fun s => s.stack.Rests under) (growMemory delta) := by
  refine get_rests.bind fun s => ?_
  split
  · exact .pure _
  · refine (onMemory_rests 0 _).bind fun before => ?_
    split
    · exact countEffect_rests.bind fun _ => .pure _
    · exact .pure _

theorem slot_eq_ok {f : Frame} {index i : Nat} {s t : Store} :
    slot f index s = .ok i t ↔ f.slot? index = some i ∧ t = s := by
  unfold slot
  cases f.slot? index with
  | none => simp
  | some j => simp [eq_comm]

/-- What is on top takes the place of a local. -/
theorem assign_isolates (f : Frame) (index : Nat) {s : Store} (rests : s.stack.Rests under)
    (low : under.size ≤ (localSet index).lowest f s.stack) : (stateAfter (assign f index) s).stack.Rests under := by
  refine stateAfter_bind_of (I := fun s : Store => s.stack.Rests under) ((slot_rests f index).after rests)
    fun i t got _ => ?_
  obtain ⟨found, same⟩ := slot_eq_ok.mp got
  subst t
  have low : under.size ≤ s.stack.lowestAssigning i := by
    unfold lowest at low
    dsimp only at low
    rwa [found] at low
  have pops : under.size ≤ s.stack.lowest [none] := by
    rw [Stack.lowest_any]
    exact Nat.le_trans low (s.stack.lowestAssigning_le i)
  cases popped : onStack Stack.pop s with
  | error e t =>
    rw [stateAfter_error (bind_error popped)]
    exact (onStack_takes Stack.pop_takes).error popped rests pops
  | ok v t =>
    rw [stateAfter_bind popped]
    have below := ((onStack_takes Stack.pop_takes).ok popped rests pops).1
    obtain ⟨stack, took, rfl⟩ := onStack_eq_ok.mp popped
    rw [Stack.lowestAssigning_push (Stack.pop_eq_ok.mp took)] at low
    refine stateAfter_bind_of (I := fun s : Store => s.stack.Rests under) ((onStack_rests (Stack.get_rests i)).after below)
      fun old _ got below => ?_
    obtain ⟨_, looked, rfl⟩ := onStack_eq_ok.mp got
    obtain ⟨there, rfl⟩ := Stack.get_eq_ok.mp looked
    rw [there] at low
    dsimp only at low
    by_cases type : old.type = v.type
    · rw [if_pos type] at low
      rw [if_neg (not_not.mpr type)]
      exact ((onStack_rests (Stack.set_rests low v)).bind fun _ => .pure v).after below
    · rw [if_pos type]
      exact below

/-- An instruction that runs straight on leaves what is below its lowest height. -/
theorem exec_isolates (f : Frame) (p : Plain) {s : Store} (rests : s.stack.Rests under)
    (low : under.size ≤ p.lowest f s.stack) : (stateAfter (p.exec f) s).stack.Rests under := by
  have any : Takes stack none (onStack Stack.pop) := onStack_takes Stack.pop_takes
  have address : Takes stack (some .i32) (onStack Stack.popAddress) := onStack_takes Stack.popAddress_takes
  have int : Takes stack (some .i32) (onStack (Stack.popInt .w32)) := onStack_takes (Stack.popInt_takes .w32)
  have push : ∀ v, Maintains (fun s => s.stack.Rests under) (onStack (Stack.push v)) := fun v =>
    onStack_rests (Stack.push_rests v)
  have takes : ∀ {os : List Operand} {op : Exec Unit}, Isolates stack under os op → under.size ≤ s.stack.lowest os →
      (stateAfter op s).stack.Rests under := fun isolates low => isolates s rests low
  cases p with
  | unreachable => exact rests
  | nop => exact rests
  | drop => exact takes any.discard low
  | select =>
    exact takes (int.bind fun c => any.bind fun b => any.bind fun a => .of_maintains (push (if c ≠ 0 then a else b)) _) low
  | localGet index =>
    exact ((slot_rests f index).bind fun i => (onStack_rests (Stack.get_rests i)).bind fun v => push v).after rests
  | localSet index =>
    rw [exec, discard_eq_bind]
    exact stateAfter_bind_of (I := fun s : Store => s.stack.Rests under) (assign_isolates f index rests low)
      fun _ _ _ rests => rests
  | localTee index =>
    exact stateAfter_bind_of (I := fun s : Store => s.stack.Rests under) (assign_isolates f index rests low)
      fun v _ _ rests => (push v).after rests
  | globalGet index => exact ((global_rests index).bind fun v => push v).after rests
  | globalSet index => exact takes (any.bind fun v => .of_maintains (setGlobal_rests index v) _) low
  | load op arg =>
    exact takes ((popTarget_takes arg).bind fun a =>
      .of_maintains ((onMemory_rests 0 (Memory.load a op.size)).bind fun n => push (loaded op n)) _) low
  | store op arg =>
    exact takes ((onStack_takes (Stack.popType_takes op.type)).bind fun v => (popTarget_takes arg).bind fun a =>
      .of_maintains (writeMemory_rests (Memory.store a op.size v.toNat)) _) low
  | memorySize => exact ((onMemory_rests 0 _).bind fun pages => push (.i32 (.ofNat 32 pages))).after rests
  | memoryGrow =>
    exact takes (address.bind fun delta =>
      .of_maintains ((growMemory_rests delta).bind fun before => push (.i32 before)) _) low
  | const v => exact (push v).after rests
  | numeric op => exact takes (onStack_isolates op.exec_isolates) low
  | memoryInit index =>
    refine takes (address.bind fun n => address.bind fun source => address.bind fun target =>
      .of_maintains (get_rests.bind fun s => ?_) []) low
    split
    · exact .pure _
    · exact (segment_rests index source n).bind fun part => writeMemory_rests (Memory.write target part)
  | dataDrop index =>
    refine Maintains.after (get_rests.bind fun s => ?_) rests
    split
    · exact .pure _
    · exact dropSegment_rests index
  | memoryCopy =>
    exact takes (address.bind fun n => address.bind fun source => address.bind fun target =>
      .of_maintains (writeMemory_rests (Memory.copy target source n)) _) low
  | memoryFill =>
    exact takes (address.bind fun n => int.bind fun b => address.bind fun target =>
      .of_maintains (writeMemory_rests (Memory.fill target (UInt8.ofNat b.toNat) n)) _) low

end Plain
end Wasm
