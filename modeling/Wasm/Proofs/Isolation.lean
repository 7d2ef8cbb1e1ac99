import Wasm.Proofs.Lowest
import Wasm.Proofs.NetEffect

/-! What was on the stack before a call is there after it, whether it returns, traps or is stopped, as far up as the run
    of the call leaves it alone. -/

namespace Wasm
variable {σ α β : Type}

open Run

/-- The stack of a machine has these values at its bottom. -/
def Machine.Rests (under : Array Value) (M : Machine σ) : Prop := M.store.stack.Rests under

namespace Run
variable {under : Array Value} {M : Machine σ}

/-! ### Operations of a run -/

theorem onStore_rests {op : Exec α} (h : (stateAfter op M.store).stack.Rests under) :
    (stateAfter (onStore op) M).Rests under := by
  cases done : op M.store with
  | ok a store =>
    rw [stateAfter_ok done] at h
    rw [stateAfter_ok (onStore_eq_ok.mpr ⟨store, done, rfl⟩)]
    exact h
  | error e store =>
    rw [stateAfter_error done] at h
    rw [stateAfter_error (onStore_eq_error.mpr ⟨store, done, rfl⟩)]
    exact h

theorem onStack_rests {op : Stack.Op α} (h : (stateAfter op M.store.stack).Rests under) :
    (stateAfter (onStack op) M).Rests under := by
  refine onStore_rests ?_
  rw [Store.stateAfter_onStack]
  exact h

theorem onStack_takes {o : Operand} {op : Stack.Op α} (h : Takes id o op) :
    Takes (fun M : Machine σ => M.store.stack) o (onStack op) := by
  intro M
  have := h M.store.stack
  cases done : op M.store.stack with
  | ok a t =>
    rw [done] at this
    rw [onStack_eq_ok.mpr ⟨t, done, rfl⟩]
    exact this
  | error e t =>
    rw [done] at this
    rw [onStack_eq_error.mpr ⟨t, done, rfl⟩]
    exact this

theorem pushMany_rests (vs : Array Value) : Maintains (Machine.Rests (σ := σ) under) (onStack (Stack.pushMany vs)) :=
  .of_after fun _ rests => onStack_rests ((Stack.pushMany_rests vs).after rests)

theorem store_rests : Maintains (Machine.Rests (σ := σ) under) store := fun _ rests => rests

theorem notify_rests (notice : Notice) : Maintains (Machine.Rests (σ := σ) under) (notify notice) := fun _ rests => rests

theorem setDepth_rests (f : Nat → Nat) :
    Maintains (Machine.Rests (σ := σ) under) (onStore (modify fun s => { s with depth := f s.depth })) :=
  fun _ rests => rests

theorem callHost_rests (f : HostFunc σ) (arguments : Array Value) :
    Maintains (Machine.Rests under) (callHost f arguments) := by
  refine .of_cases (fun M a N rests done => ?_) fun M e N rests failed => ?_
  · obtain ⟨host, -, rfl⟩ := callHost_eq_ok.mp done
    exact rests
  · obtain ⟨host, -, rfl⟩ := callHost_eq_error.mp failed
    exact rests

/-- Settling leaves what is below its height, and all there is where nothing has to be taken out. -/
theorem settle_rests {height arity : Nat} (rests : M.Rests under)
    (low : under.size ≤ M.store.stack.lowestSettling height arity) :
    (stateAfter (onStack (Stack.settle height arity)) M).Rests under := by
  refine onStack_rests ?_
  cases done : Stack.settle height arity M.store.stack with
  | error e t =>
    obtain ⟨-, -, rfl⟩ := Stack.settle_eq_error.mp done
    rw [stateAfter_error done]
    exact rests
  | ok _ t =>
    obtain ⟨enough, values⟩ := Stack.settle_eq_ok.mp done
    rw [stateAfter_ok done, show t = ⟨_⟩ from congrArg Stack.mk values]
    unfold Stack.lowestSettling Stack.size at low
    by_cases between : height + arity < M.store.stack.values.size
    · rw [if_pos between] at low
      exact rests.cut low _
    · have all : M.store.stack.values.size = height + arity := by omega
      have same : M.store.stack.values.extract 0 height ++
          M.store.stack.values.extract (M.store.stack.values.size - arity) M.store.stack.values.size =
          M.store.stack.values := by
        rw [all, Nat.add_sub_cancel, Array.extract_append_extract, Nat.min_eq_left (Nat.zero_le _),
          Nat.max_eq_right (Nat.le_add_right _ _), ← all, Array.extract_size]
      rw [same]
      exact rests

theorem truncate_rests {height : Nat} (low : under.size ≤ height) :
    Maintains (Machine.Rests (σ := σ) under) (onStack (Stack.truncate height)) :=
  .of_after fun _ rests => onStack_rests (rests.shrink low)

end Run

/-! ### Instructions -/

namespace Activation
variable {under : Array Value} {m : Module σ} {act : Activation} {M N : Machine σ}

theorem goto_rests (pos : Nat) : Maintains (Machine.Rests (σ := σ) under) (goto act pos) := by
  unfold goto
  split
  · exact .pure _
  · exact .throw _

theorem blockSignature_rests (types : Array FuncType) (t : BlockType) (start : Nat) :
    Maintains (Machine.Rests (σ := σ) under) (blockSignature types t start) := by
  unfold blockSignature
  split
  · exact .pure _
  · exact .throw _

theorem heightBelow_rests (count : Nat) : Maintains (Machine.Rests (σ := σ) under) (heightBelow count) := by
  refine store_rests.bind fun s => ?_
  split
  · exact .pure _
  · exact .throw _

theorem enterBlock_rests (types : Array FuncType) (t : BlockType) (start : Nat) :
    Maintains (Machine.Rests (σ := σ) under) (enterBlock act types t start) :=
  (blockSignature_rests types t start).bind fun _ => (heightBelow_rests _).bind fun _ => (Maintains.ofExcept _).bind fun _ =>
    store_rests.bind fun _ => .pure _

theorem enterLoop_rests (types : Array FuncType) (t : BlockType) (start : Nat) :
    Maintains (Machine.Rests (σ := σ) under) (enterLoop act types t start) :=
  (blockSignature_rests types t start).bind fun _ => (heightBelow_rests _).bind fun _ => (Maintains.ofExcept _).bind fun _ =>
    store_rests.bind fun _ => .pure _

/-- An if takes the condition off, unless its type is found to be none before. -/
theorem enterIf_rests (types : Array FuncType) (t : BlockType) (start : Nat) (rests : M.Rests under)
    (low : under.size ≤ lowestTesting types t M.store.stack) : (stateAfter (enterIf act types t start) M).Rests under := by
  have condition : Takes (fun M : Machine σ => M.store.stack) (some .i32) (onStack (Stack.popInt .w32)) :=
    onStack_takes (Stack.popInt_takes .w32)
  unfold lowestTesting at low
  unfold enterIf blockSignature
  cases signature : t.arity types with
  | error e => exact rests
  | ok arities =>
    rw [signature] at low
    refine (condition.bind fun c => .of_maintains ((Maintains.ofExcept _).bind fun targets =>
      (heightBelow_rests _).bind fun height => store_rests.bind fun s => ?_) []) M rests low
    dsimp only
    split
    · exact .pure _
    · split
      · exact goto_rests _
      · exact goto_rests _

theorem leaveArm_rests (start : Nat) : Maintains (Machine.Rests (σ := σ) under) (leaveArm act start) := by
  unfold leaveArm
  split
  · split
    · exact goto_rests _
    · exact .throw _
  · exact .throw _

theorem leave_rests (rests : M.Rests under) (low : under.size ≤ act.lowestLeaving M.store.stack) :
    (stateAfter (leave act) M).Rests under := by
  unfold lowestLeaving at low
  unfold leave
  split
  · exact rests
  · rename_i L outer labels
    rw [labels] at low
    exact Maintains.after_bind (settle_rests rests low) fun _ => .pure _

/-- An idle branch cuts the stack down to the height of its loop, and another one settles it there. -/
theorem branch_rests (depth : Nat) (conditional : Bool) (rests : M.Rests under)
    (low : under.size ≤ act.lowestBranching depth conditional M.store) :
    (stateAfter (branch act depth conditional) M).Rests under := by
  have goes : ∀ pos, Maintains (Machine.Rests (σ := σ) under)
      (do return .next (← goto { act with labels := act.labels.drop (depth + 1) } pos) : Run σ Flow) :=
    fun pos => (goto_rests pos).bind fun _ => .pure _
  unfold lowestBranching at low
  unfold branch
  by_cases out : depth = act.labels.length
  · rw [if_pos out]
    exact rests
  rw [if_neg out] at low ⊢
  cases found : act.labels[depth]? with
  | none => exact rests
  | some L =>
    rw [found] at low
    dsimp only at low
    rw [stateAfter_bind (store_eq M)]
    by_cases idle : isIdle L act.frame M.store
    · rw [if_pos idle] at low ⊢
      rw [stateAfter_bind (show notify _ M = .ok () _ from rfl)]
      cases conditional with
      | true => exact rests
      | false =>
        exact (truncate_rests low).bind (fun _ => (pushMany_rests _).bind fun _ => goes _) |>.after rests
    · rw [if_neg idle] at low ⊢
      refine Maintains.after_bind (settle_rests rests low) fun _ => ?_
      dsimp only
      split
      · split
        · exact goes _
        · exact .throw _
      · exact goes _

theorem lowestSettling_le (height arity : Nat) (s : Stack) : s.lowestSettling height arity ≤ s.size := by
  unfold Stack.lowestSettling
  split <;> omega

theorem lowestBranching_le (act : Activation) (depth : Nat) (conditional : Bool) (s : Store) :
    act.lowestBranching depth conditional s ≤ s.stack.size := by
  unfold lowestBranching
  split
  · exact lowestSettling_le ..
  · split
    · exact Nat.le_refl _
    · split
      · rename_i L _ idle
        unfold isIdle reentersUnchanged at idle
        simp only [Bool.and_eq_true, decide_eq_true_eq] at idle
        split
        · exact Nat.le_refl _
        · exact idle.2.1.2
      · exact lowestSettling_le ..

/-- An instruction that takes an operand off, and then branches or goes on. -/
theorem choose_rests {op : Stack.Op α} {k : α → Run σ Flow} {target : Option (Nat × Stack)} {conditional : Bool}
    (takes : Takes id (some .i32) op) (rests : M.Rests under) (low : under.size ≤ act.lowestChoosing target conditional M.store)
    (fails : ∀ e t, op M.store.stack = .error e t → target = none)
    (chooses : ∀ a t, op M.store.stack = .ok a t → (∃ depth, target = some (depth, t) ∧ k a = branch act depth conditional) ∨
      target = none ∧ ∃ flow, k a = pure flow) : (stateAfter (onStack op >>= k) M).Rests under := by
  have taken : Takes (fun M : Machine σ => M.store.stack) (some .i32) (onStack op) := onStack_takes takes
  unfold lowestChoosing at low
  cases done : onStack op M with
  | error e N =>
    obtain ⟨t, failed, -⟩ := onStack_eq_error.mp done
    rw [fails e t failed] at low
    rw [stateAfter_error (bind_error done)]
    exact taken.error done rests low
  | ok a N =>
    rw [stateAfter_bind done]
    obtain ⟨t, took, after⟩ := onStack_eq_ok.mp done
    rcases chooses a t took with ⟨depth, found, branches⟩ | ⟨found, flow, goes⟩
    · rw [found] at low
      rw [branches]
      have high := Nat.le_trans low (lowestBranching_le ..)
      have := takes M.store.stack
      rw [took] at this
      obtain ⟨v, whole, -⟩ := this
      subst after
      exact branch_rests depth conditional (Stack.Rests.popped rests whole high) low
    · rw [found] at low
      rw [goes]
      exact (taken.ok done rests low).1

theorem exec_rests (start : Nat) (i : Instr) (rests : M.Rests under) (low : under.size ≤ act.lowestOf m M.store i) :
    (stateAfter (exec m.types act start i) M).Rests under := by
  cases i with
  | plain p => exact Maintains.after_bind (onStore_rests (p.exec_isolates act.frame rests low)) fun _ => .pure _
  | block t => exact ((enterBlock_rests m.types t start).bind fun _ => .pure _).after rests
  | loop t => exact ((enterLoop_rests m.types t start).bind fun _ => .pure _).after rests
  | ifThen t => exact Maintains.after_bind (enterIf_rests m.types t start rests low) fun _ => .pure _
  | elseMark => exact ((leaveArm_rests start).bind fun _ => .pure _).after rests
  | endMark => exact leave_rests rests low
  | br depth => exact branch_rests depth false rests low
  | brIf depth =>
    refine choose_rests (Stack.popInt_takes .w32) rests low (fun e t failed => ?_) fun c t took => ?_
    · unfold Instr.target?
      rw [failed]
    · by_cases taken : c ≠ 0
      · exact .inl ⟨depth, Instr.target?_brIf took taken, if_pos taken⟩
      · refine .inr ⟨?_, .next act, if_neg taken⟩
        unfold Instr.target?
        rw [took]
        exact if_neg taken
  | brTable targets fallback =>
    refine choose_rests Stack.popAddress_takes rests low (fun e t failed => ?_) fun index t took => ?_
    · unfold Instr.target?
      rw [failed]
    · exact .inl ⟨_, Instr.target?_brTable took, rfl⟩
  | ret => exact rests
  | call callee => exact rests

/-- A branch returns only where it goes out of the function, and does nothing else then. -/
theorem branch_returns (depth : Nat) (conditional : Bool) : Ensures (· = M) (branch act depth conditional)
    (fun flow N => flow = .ret → act.lowestBranching depth conditional M.store = act.lowestReturning N.store.stack)
    fun _ => True := by
  unfold lowestBranching branch
  by_cases out : depth = act.labels.length
  · rw [if_pos out, if_pos out]
    exact .pure fun N same _ => by rw [same]
  rw [if_neg out, if_neg out]
  cases act.labels[depth]? with
  | none => exact .throw fun _ _ => trivial
  | some L =>
    dsimp only
    refine Ensures.any.bind fun s => ?_
    split
    · refine Ensures.any.bind fun _ => ?_
      split
      · exact .pure fun _ _ => nofun
      · exact Ensures.any.bind fun _ => Ensures.any.bind fun _ => Ensures.any.bind fun _ => .pure fun _ _ => nofun
    · refine Ensures.any.bind fun _ => ?_
      split
      · split
        · exact Ensures.any.bind fun _ => .pure fun _ _ => nofun
        · exact .throw fun _ _ => trivial
      · exact Ensures.any.bind fun _ => .pure fun _ _ => nofun

/-- An instruction that returns works as far down as the return does, which comes after it. -/
theorem exec_returns (start : Nat) (i : Instr) (ran : exec m.types act start i M = .ok .ret N) :
    act.lowestOf m M.store i = act.lowestReturning N.store.stack := by
  -- Whatever is taken off first, a branch that returns does so at the stack it finds.
  have branches : ∀ {N : Machine σ} (stack : Stack) {depth : Nat} {conditional : Bool},
      branch act depth conditional { M with store.stack := stack } = .ok .ret N →
      act.lowestBranching depth conditional { M.store with stack } = act.lowestReturning N.store.stack :=
    fun _ _ _ ran => (branch_returns _ _).ok rfl ran rfl
  cases i with
  | plain p => obtain ⟨_, _, _, ends⟩ := bind_eq_ok.mp ran; cases ends
  | block t => obtain ⟨_, _, _, ends⟩ := bind_eq_ok.mp ran; cases ends
  | loop t => obtain ⟨_, _, _, ends⟩ := bind_eq_ok.mp ran; cases ends
  | ifThen t => obtain ⟨_, _, _, ends⟩ := bind_eq_ok.mp ran; cases ends
  | elseMark => obtain ⟨_, _, _, ends⟩ := bind_eq_ok.mp ran; cases ends
  | endMark =>
    change leave act M = _ at ran
    unfold leave at ran
    rw [lowestOf, lowestLeaving]
    cases labels : act.labels with
    | nil =>
      rw [labels] at ran
      cases ran
      rfl
    | cons L outer =>
      rw [labels] at ran
      obtain ⟨_, _, _, ends⟩ := bind_eq_ok.mp ran
      cases ends
  | br depth => exact branches M.store.stack ran
  | brIf depth =>
    obtain ⟨c, N₁, popped, ends⟩ := bind_eq_ok.mp ran
    obtain ⟨stack, took, rfl⟩ := onStack_eq_ok.mp popped
    by_cases taken : c ≠ 0
    · rw [if_pos taken] at ends
      rw [lowestOf, Instr.target?_brIf took taken]
      exact branches _ ends
    · rw [if_neg taken] at ends
      cases ends
  | brTable targets fallback =>
    obtain ⟨index, N₁, popped, ends⟩ := bind_eq_ok.mp ran
    obtain ⟨stack, took, rfl⟩ := onStack_eq_ok.mp popped
    rw [lowestOf, Instr.target?_brTable took]
    exact branches _ ends
  | ret =>
    cases ran
    rfl
  | call callee => cases ran

end Activation

/-! ### Calls -/

namespace Module
variable {under : Array Value} {m : Module σ} {act : Activation} {callers chain : List Activation} {M N : Machine σ}
  {index fuel : Nat} {arguments : Array Value}

theorem enter_rests (f : Function σ) (index : Nat) {offset : Nat} (rests : M.Rests under)
    (low : f.takesArguments M.store = true → under.size ≤ offset) : (stateAfter (m.enter f index offset) M).Rests under := by
  unfold enter
  rw [stateAfter_bind (store_eq M)]
  dsimp only
  by_cases deep : M.store.options.maxCallDepth ≤ M.store.depth
  · rw [if_pos deep]
    exact ((notify_rests _).bind fun _ => .throw _).after rests
  rw [if_neg deep, stateAfter_bind (show onStore _ M = .ok () { M with store.depth := M.store.depth + 1 } from rfl)]
  by_cases short : M.store.stack.size < offset + f.signature.params.length
  · rw [if_pos short]
    exact rests
  rw [if_neg short]
  unfold Function.takesArguments at low
  split
  · exact rests
  · exact rests
  · rename_i body
    rw [body] at low
    have above : under.size ≤ offset := low (decide_eq_true (Nat.lt_of_not_le deep))
    refine Maintains.after_bind (onStack_rests (Stack.popMany_rests rests fun _ => ?_)) fun arguments => ?_
    · dsimp only
      omega
    · exact (callHost_rests _ _).bind fun _ => (Maintains.ofExcept _).bind fun _ => (truncate_rests above).bind fun _ =>
        (pushMany_rests _).bind fun _ => (setDepth_rests (· - 1)).bind fun _ => .pure _
  · exact ((Maintains.ofExcept _).bind fun _ => (pushMany_rests _).bind fun _ => .pure _).after rests

theorem callFrom_rests (callee : Nat) (rests : M.Rests under) (low : under.size ≤ act.lowestCalling m callee M.store) :
    (stateAfter (m.callFrom act callee) M).Rests under := by
  unfold Activation.lowestCalling at low
  unfold callFrom
  cases function : m.function callee with
  | error e => exact rests
  | ok f =>
    rw [function] at low
    dsimp only at low
    rw [stateAfter_bind (ofExcept_eq_ok.mpr ⟨rfl, rfl⟩), stateAfter_bind (store_eq M)]
    cases repeated : isRepeated act callee f.signature.params.length M.store with
    | error e => exact rests
    | ok again =>
      rw [repeated] at low
      dsimp only at low
      rw [stateAfter_bind (ofExcept_eq_ok.mpr ⟨rfl, rfl⟩)]
      cases again with
      | true =>
        rw [if_pos rfl, stateAfter_bind (show notify _ M = .ok () _ from rfl)]
        refine Maintains.after_bind ?_ fun _ => (pushMany_rests _).bind fun _ => .pure _
        rw [discard_eq_bind]
        refine Maintains.after_bind (onStack_rests (Stack.popMany_rests rests fun enough => ?_)) fun _ => .pure _
        rwa [if_pos ⟨enough, rfl⟩] at low
      | false =>
        rw [if_neg Bool.false_ne_true]
        refine stateAfter_bind_of ((Activation.heightBelow_rests _).after rests) fun offset N below rests => ?_
        -- A host function takes just the arguments off, and the frame begins below them.
        obtain ⟨whole, rfl⟩ := Activation.heightBelow_eq_ok.mp below
        refine enter_rests f callee rests fun takes => ?_
        rw [takes, if_pos ⟨by unfold Stack.size; omega, rfl⟩] at low
        unfold Stack.size at low
        omega

theorem leave_rests (rests : M.Rests under) (low : under.size ≤ act.lowestReturning M.store.stack) :
    (stateAfter (leave act) M).Rests under :=
  Maintains.after_bind (settle_rests rests low) fun _ => setDepth_rests (· - 1)

/-! ### Runs -/

/-- A step leaves the values below its lowest height, whether it succeeds or fails. -/
theorem step_rests (callers : List Activation) (rests : M.Rests under) (low : under.size ≤ act.lowest m M.store) :
    (stateAfter (m.step act callers) M).Rests under := by
  unfold Activation.lowest at low
  rw [step_eq]
  cases read : Instr.read act.body act.pos with
  | error e next =>
    rw [stateAfter_error (bind_error (show act.step m.types M = .error e M by unfold Activation.step; rw [read]; rfl))]
    exact rests
  | ok i next =>
    rw [read] at low
    change under.size ≤ Activation.lowestOf m { act with pos := next } M.store i at low
    rw [Activation.step_read read]
    refine stateAfter_bind_of (Activation.exec_rests act.pos i rests low) fun flow N ran rests => ?_
    have flows := (Activation.exec_flowsOn m.types act.pos i).ok rfl ran
    cases flow with
    | next a => exact rests
    | ret =>
      -- The return settles what the instruction has left.
      rw [Activation.exec_returns act.pos i ran] at low
      exact Maintains.after_bind (leave_rests rests low) fun _ => .pure _
    | call a callee =>
      obtain ⟨rfl, rfl, rfl⟩ := flows
      refine Maintains.after_bind (callFrom_rests callee rests low) fun inner => ?_
      split
      · exact .pure _
      · exact .pure _

/-- A run leaves the values below its lowest height, however it ends. -/
theorem run_rests (rests : M.Rests under) (low : under.size ≤ m.lowest fuel chain M) :
    (m.run fuel chain M).final.Rests under := by
  induction fuel, chain, M using m.run_induction with
  | ended fuel M =>
    rw [run_nil]
    exact rests
  | spent act callers M => exact rests
  | fails fuel act callers M e N stepped =>
    rw [lowest, stepped] at low
    have after := step_rests callers rests low
    rw [stateAfter_error stepped] at after
    rw [run_error stepped]
    exact after
  | onward fuel act callers M chain N stepped ih =>
    rw [lowest, stepped] at low
    have after := step_rests callers rests (Nat.le_trans low (Nat.min_le_left _ _))
    rw [stateAfter_ok stepped] at after
    rw [run_ok stepped]
    exact ih after (Nat.le_trans low (Nat.min_le_right _ _))

/-- A function that is called from outside has its frame, and its arguments, above all that was on the stack. -/
theorem starts_rests (f : Function σ) (index : Nat) (arguments : Array Value) (rests : M.Rests under) :
    (stateAfter (m.starts f index arguments) M).Rests under :=
  enter_rests (M := { M with store.stack := ⟨M.store.stack.values ++ arguments⟩ }) f index
    (Stack.Rests.pushed rests arguments) fun _ => rests.size

/-! ### Calls from outside -/

theorem invokeLowest_le (m : Module σ) (fuel index : Nat) (arguments : Array Value) (M : Machine σ) :
    m.invokeLowest fuel index arguments M ≤ M.store.stack.size := by
  unfold invokeLowest
  split
  · exact Nat.le_refl _
  · split
    · exact Nat.min_le_left _ _
    · exact Nat.le_refl _

theorem invokeIndex_rests (fuel : Nat) (rests : M.Rests under) (low : under.size ≤ m.invokeLowest fuel index arguments M) :
    (stateAfter (m.invokeIndex fuel index arguments) M).Rests under := by
  unfold invokeLowest at low
  cases accepted : m.accept index arguments with
  | error e =>
    rw [stateAfter_error (invokeIndex_refused accepted fuel)]
    exact rests
  | ok f =>
    rw [accepted] at low
    dsimp only at low
    -- What the run leaves is cut down after a trap, but not below the height there was.
    have ended : (m.runToEnd fuel f index arguments M).final.Rests under := by
      rw [runToEnd_eq]
      have begun := starts_rests (m := m) f index arguments rests
      cases started : m.starts f index arguments M with
      | error e N =>
        rw [stateAfter_error started] at begun
        exact begun
      | ok r N =>
        rw [stateAfter_ok started] at begun
        cases r with
        | none => exact begun
        | some act =>
          rw [started] at low
          exact run_rests begun (Nat.le_trans low (Nat.min_le_right _ _))
    unfold stateAfter invokeIndex
    rw [accepted]
    dsimp only
    cases outcome : m.runToEnd fuel f index arguments M with
    | returned N =>
      rw [outcome] at ended
      exact ended
    | trapped e N =>
      rw [outcome] at ended
      exact Stack.Rests.shrink ended rests.size
    | unfinished N =>
      rw [outcome] at ended
      exact ended

/-- A trap never leaves the stack higher than it was. -/
theorem invokeIndex_height {fuel index : Nat} {arguments : Array Value} {e : Failure}
    (h : m.invokeIndex fuel index arguments M = .error e N) (stopped : e ≠ .unfinished) :
    N.store.stack.values.size ≤ M.store.stack.values.size := by
  unfold invokeIndex at h
  cases accepted : m.accept index arguments with
  | error e =>
    rw [accepted] at h
    cases h
    exact Nat.le_refl _
  | ok f =>
    rw [accepted] at h
    dsimp only at h
    cases ended : m.runToEnd fuel f index arguments M with
    | returned F =>
      rw [ended] at h
      cases h
    | trapped e F =>
      rw [ended] at h
      cases h
      dsimp only
      rw [Array.size_shrink]
      exact Nat.min_le_left _ _
    | unfinished F =>
      rw [ended] at h
      cases h
      exact absurd rfl stopped

/-- The results that are popped are above all that was on the stack. -/
theorem call_rests {name : String} (found : m.lookup name = .ok index) (fuel : Nat) (rests : M.Rests under)
    (low : under.size ≤ m.invokeLowest fuel index arguments M) : (stateAfter (m.call fuel name arguments) M).Rests under := by
  have after := invokeIndex_rests (m := m) fuel rests low
  cases ended : m.invokeIndex fuel index arguments M with
  | ok u N =>
    rw [stateAfter_ok ended] at after
    rw [stateAfter_ok (call_returned found ended)]
    exact Stack.Rests.shrink after rests.size
  | error e N =>
    rw [stateAfter_error ended] at after
    rw [stateAfter_error (call_failed found ended)]
    exact after

/-- How the stack is once a call has ended: as told if it has succeeded, and just as it was if it has failed. One that
    is stopped has at least not touched what was there. -/
def Isolated (before : Stack) (returned : α → Stack → Prop) : EStateM.Result Failure (Machine σ) α → Prop
  | .ok a N => returned a N.store.stack
  | .error .unfinished N => ∃ above, N.store.stack.values = before.values ++ above
  | .error _ N => N.store.stack = before

/-- So many values have been put on top of a stack. -/
def Topped (before : Stack) (count : Nat) (s : Stack) : Prop :=
  ∃ results, s.values = before.values ++ results ∧ results.size = count

/-- A call that takes nothing off what was on the stack leaves it there, with the results on top if it returns and with
    nothing on top if it fails. -/
theorem invokeIndex_isolated {f : Function σ} (function : m.function index = .ok f)
    (whole : m.invokeLowest fuel index arguments M = M.store.stack.size) :
    Isolated M.store.stack (fun _ => Topped M.store.stack f.signature.results.length)
      (m.invokeIndex fuel index arguments M) := by
  have before : M.Rests M.store.stack.values := ⟨Nat.le_refl _, fun _ _ => rfl⟩
  have after := invokeIndex_rests (m := m) fuel before (Nat.le_of_eq whole.symm)
  cases ended : m.invokeIndex fuel index arguments M with
  | ok u N =>
    rw [stateAfter_ok ended] at after
    obtain ⟨results, values, size⟩ := Stack.Rests.split after
    have raised := invokeIndex_size function ended
    exact ⟨results, values, by omega⟩
  | error e N =>
    rw [stateAfter_error ended] at after
    obtain ⟨above, values, size⟩ := Stack.Rests.split after
    have restored : e ≠ .unfinished → N.store.stack = M.store.stack := by
      intro stopped
      have height := invokeIndex_height ended stopped
      obtain rfl : above = #[] := Array.eq_empty_of_size_eq_zero (by omega)
      rw [Array.append_empty] at values
      exact congrArg Stack.mk values
    cases e with
    | unfinished => exact ⟨above, values⟩
    | _ => exact restored nofun

/-- What is below the lowest height that the call of an export works at is there after the call, however it ends. If this
    is all that was on the stack, a call that returns leaves just the results on top of it, or nothing once they are
    popped, and a call that fails leaves the stack just as it was. A call that is refused leaves everything as it was,
    and no trap leaves the stack higher than before. -/
theorem invoke_isolated (m : Module σ) (fuel : Nat) (name : String) (arguments : Array Value) (M : Machine σ) :
    (∀ e, m.lookup name = .error e →
      m.invoke fuel name arguments M = .error e M ∧ m.call fuel name arguments M = .error e M) ∧
    (∀ index e, m.lookup name = .ok index → m.accept index arguments = .error e →
      m.invoke fuel name arguments M = .error (.trap e) M ∧ m.call fuel name arguments M = .error (.trap e) M) ∧
    (∀ e N, m.invoke fuel name arguments M = .error e N ∨ m.call fuel name arguments M = .error e N → e ≠ .unfinished →
      N.store.stack.size ≤ M.store.stack.size) ∧
    ∀ index f, m.lookup name = .ok index → m.function index = .ok f →
      (∀ i < m.invokeLowest fuel index arguments M,
        (stateAfter (m.invoke fuel name arguments) M).store.stack.values[i]? = M.store.stack.values[i]? ∧
        (stateAfter (m.call fuel name arguments) M).store.stack.values[i]? = M.store.stack.values[i]?) ∧
      (m.invokeLowest fuel index arguments M = M.store.stack.size →
        Isolated M.store.stack (fun _ => Topped M.store.stack f.signature.results.length) (m.invoke fuel name arguments M) ∧
        Isolated M.store.stack (fun results s => s = M.store.stack ∧ results.size = f.signature.results.length)
          (m.call fuel name arguments M)) := by
  refine ⟨fun e missing => lookup_eq_error missing fuel arguments, fun index e found refused => ?_,
    fun e N failed stopped => ?_, fun index f found function => ⟨fun i below => ?_, fun whole => ?_⟩⟩
  · obtain ⟨invoked, called⟩ := lookup_eq_ok (M := M) found fuel arguments
    rw [invoked, called, bind_error (invokeIndex_refused refused fuel)]
    exact ⟨invokeIndex_refused refused fuel, rfl⟩
  · have failed : m.invoke fuel name arguments M = .error e N := failed.elim id call_eq_error.mp
    cases found : m.lookup name with
    | error e =>
      rw [(lookup_eq_error found fuel arguments).1] at failed
      cases failed
      exact Nat.le_refl _
    | ok index =>
      rw [(lookup_eq_ok found fuel arguments).1] at failed
      exact invokeIndex_height failed stopped
  · -- The values below the lowest height are those under the run.
    have rests : M.Rests (M.store.stack.values.extract 0 (m.invokeLowest fuel index arguments M)) :=
      .extract M.store.stack _
    have low : (M.store.stack.values.extract 0 (m.invokeLowest fuel index arguments M)).size ≤
        m.invokeLowest fuel index arguments M := by
      rw [Array.size_extract]
      omega
    have highest := m.invokeLowest_le fuel index arguments M
    have inside : i < (M.store.stack.values.extract 0 (m.invokeLowest fuel index arguments M)).size := by
      rw [Array.size_extract]
      unfold Stack.size at highest
      omega
    have invoked := (invokeIndex_rests fuel rests low).get i inside
    have called := (call_rests found fuel rests low).get i inside
    rw [← rests.get i inside] at invoked called
    have same : stateAfter (m.invoke fuel name arguments) M = stateAfter (m.invokeIndex fuel index arguments) M := by
      unfold stateAfter
      rw [(lookup_eq_ok found fuel arguments).1]
    rw [same]
    exact ⟨invoked, called⟩
  · have isolated := invokeIndex_isolated function whole
    rw [(lookup_eq_ok found fuel arguments).1]
    refine ⟨isolated, ?_⟩
    cases ended : m.invokeIndex fuel index arguments M with
    | error e N =>
      rw [ended] at isolated
      rw [call_failed found ended]
      cases e <;> exact isolated
    | ok u N =>
      rw [ended] at isolated
      rw [call_returned found ended]
      obtain ⟨results, values, size⟩ := isolated
      have restored : N.store.stack.values.shrink M.store.stack.values.size = M.store.stack.values := by simp [values]
      exact ⟨congrArg Stack.mk restored, by simp [values, size]⟩

/-- A function that traps, with a value on the stack from before. The one it calls takes off what is below its own frame,
    and its addition finds an operand of the wrong type, but nothing of what was there before is taken off. -/
theorem invoke_isolated_mistyped :
    let g : Function Unit := { name := some "g", signature := ⟨[], []⟩, body := .code ⟨#[
      0x41, 0x05, 0x10, 0x01, 0x42, 0x01, 0x6A, 0x0B]⟩ }
    let h : Function Unit := { signature := ⟨[], []⟩, body := .code ⟨#[0x1A, 0x41, 0x06, 0x0B]⟩ }
    let m := ({ functions := #[g, h] } : Module Unit).withJumps {}
    let M : Machine Unit := ⟨{ stack := ⟨#[.i32 7]⟩ }, (), #[]⟩
    ∃ N, m.invoke 20 "g" #[] M = .error (.trap (.typeMismatch .i32 .i64)) N ∧ N.store.stack = M.store.stack := by
  intro g h m M
  have function : m.function 0 = .ok g := function_eq_ok.mpr rfl
  have found : m.lookup "g" = .ok 0 := by decide +kernel
  have whole : m.invokeLowest 20 0 #[] M = M.store.stack.size := by decide +kernel
  have isolated := (((invoke_isolated m 20 "g" #[] M).2.2.2 0 g found function).2 whole).1
  have trapped : (match m.invoke 20 "g" #[] M with
      | .ok () _ => none
      | .error e _ => some e) = some (.trap (.typeMismatch .i32 .i64)) := by
    decide +kernel
  cases ended : m.invoke 20 "g" #[] M with
  | ok u N => simp [ended] at trapped
  | error e N =>
    obtain rfl : e = .trap (.typeMismatch .i32 .i64) := by simpa [ended] using trapped
    rw [ended] at isolated
    exact ⟨N, rfl, isolated⟩

/-- A function that reaches below its frame returns, although it has put another value in the place of what an earlier
    call has left on the stack. -/
theorem invoke_not_isolated :
    let bytes : ByteArray := ⟨#[
      0x00, 0x61, 0x73, 0x6D, 0x01, 0x00, 0x00, 0x00, 0x01, 0x08, 0x02, 0x60, 0x00, 0x01, 0x7F, 0x60, 0x00, 0x00,
      0x03, 0x03, 0x02, 0x00, 0x01, 0x07, 0x09, 0x02, 0x01, 0x66, 0x00, 0x00, 0x01, 0x68, 0x00, 0x01,
      0x0A, 0x0C, 0x02, 0x04, 0x00, 0x41, 0x07, 0x0B, 0x05, 0x00, 0x1A, 0x41, 0x09, 0x0B]⟩
    ∃ (l : Loading Unit) (M N : Machine Unit), Module.decode bytes {} .none = .ok () l ∧
      l.module.invoke 10 "f" #[] ⟨l.store, (), l.notices⟩ = .ok () M ∧ M.store.stack.values = #[.i32 7] ∧
      l.module.invoke 10 "h" #[] M = .ok () N ∧ N.store.stack.values = #[.i32 9] := by
  intro bytes
  have ran : (match (Module.decode bytes {} .none : EStateM.Result Failure (Loading Unit) Unit) with
      | .ok () l => match l.module.invoke 10 "f" #[] ⟨l.store, (), l.notices⟩ with
        | .ok () M => match l.module.invoke 10 "h" #[] M with
          | .ok () N => some (M.store.stack.values, N.store.stack.values)
          | .error _ _ => none
        | .error _ _ => none
      | .error _ _ => none) = some (#[.i32 7], #[.i32 9]) := by
    decide +kernel
  cases loaded : (Module.decode bytes {} .none : EStateM.Result Failure (Loading Unit) Unit) with
  | error e l => simp [loaded] at ran
  | ok u l =>
    simp only [loaded] at ran
    cases first : l.module.invoke 10 "f" #[] ⟨l.store, (), l.notices⟩ with
    | error e M => simp [first] at ran
    | ok u M =>
      simp only [first] at ran
      cases second : l.module.invoke 10 "h" #[] M with
      | error e N => simp [second] at ran
      | ok u N =>
        simp only [second, Option.some.injEq, Prod.mk.injEq] at ran
        exact ⟨l, M, N, rfl, first, ran.1, second, ran.2⟩

end Module
end Wasm
