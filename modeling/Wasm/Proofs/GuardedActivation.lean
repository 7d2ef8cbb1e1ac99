import Wasm.Proofs.GuardedScan
import Wasm.Proofs.Entry

/-! Activations under guard. An activation stays within its body, its jump table and the constructs it is in, and the
    sums and slices of a branch keep to what was noted when its construct was entered. Heights may be anything. -/

namespace Wasm
variable {σ α β : Type}

/-- What runs on a machine under guard. -/
abbrev GuardedRun (σ : Type) : Type → Type := Guarded Trap (Machine σ)

def Machine.Sturdy (M : Machine σ) : Prop := M.store.Sturdy

namespace Run

def onStore! (g : Guarded Trap Store α) : GuardedRun σ α := fun M => do
  let result ← g M.store
  return mapState (fun store => { M with store }) result

def onStack! (g : Guarded Trap Stack α) : GuardedRun σ α := onStore! (Store.onStack! g)

/-- Under guard the operation does what it does without, and what it gives has `Q`. -/
abbrev Yields (Q : α → Prop) (g : GuardedRun σ α) (op : Run σ α) : Prop := Wasm.Gives Machine.Sturdy Q g op

theorem onStore_eq (op : Exec α) (M : Machine σ) :
    onStore op M = mapState (fun store => { M with store }) (op M.store) := by
  unfold onStore
  dsimp only
  cases op M.store <;> rfl

theorem onStore_guarded {g : Guarded Trap Store α} {op : Exec α} (h : Guards Store.Sturdy g op) :
    Yields (σ := σ) Anything (onStore! g) (onStore op) := fun M sturdy =>
  (h M.store sturdy).part _ rfl (onStore_eq op M) fun _ sturdy => sturdy

theorem onStack_guarded {g : Guarded Trap Stack α} {op : Stack.Op α} (h : Guards Stack.Any g op) :
    Yields (σ := σ) Anything (onStack! g) (onStack op) := onStore_guarded (Store.onStack_guarded h)

/-- Nothing is asked of what only works on the stack. -/
theorem stack_guarded (op : Stack.Op α) : Yields (σ := σ) Anything (liftM (onStack op : Run σ α)) (onStack op) :=
  fun M sturdy => (Store.stack_guarded op M.store sturdy).part (fun store => { M with store })
    (congrArg Except.ok (onStore_eq _ M)) (onStore_eq _ M) fun _ sturdy => sturdy

theorem store_guarded : Yields (σ := σ) Anything (liftM (store : Run σ Store)) store := Guards.lift fun _ h => h

theorem notify_guarded (n : Notice) : Yields (σ := σ) Anything (liftM (notify n : Run σ Unit)) (notify n) :=
  Guards.lift fun _ h => h

theorem ofExcept_guarded (x : Except Trap α) :
    Yields (σ := σ) (x = .ok ·) (liftM (ofExcept x : Run σ α)) (ofExcept x) := by
  cases x with
  | ok a => exact .pure rfl
  | error e => exact .throw e

end Run

/-! ### What an activation relies on -/

/-- What holds of an activation wherever it is. -/
structure Activation.Sturdy (act : Activation) : Prop where
  bounded : act.body.size < allocationLimit
  frame : act.frame.Sturdy
  jumps : act.jumps.Inside act.body.size
  labels : ∀ L ∈ act.labels, L.stop < act.body.size
  pos : act.pos ≤ act.body.size

def Flow.Sturdy : Flow → Prop
  | next act => act.Sturdy
  | call act _ => act.Sturdy
  | ret => True

namespace Activation
open Run
variable {act : Activation}

/-! ### Constructs -/

def enterIf! (act : Activation) (types : Array FuncType) (t : BlockType) (start : Nat) : GuardedRun σ Activation := do
  let (params, results) ← (blockSignature types t start : Run σ _)
  let condition ← (onStack (Stack.popInt .w32) : Run σ _)
  let (otherwise, stop) ← (ofExcept (act.jumps.ifTargets start) : Run σ _)
  let height ← (heightBelow params : Run σ _)
  let label : Label := ⟨.ifThen, start, stop, height, results.length, results, #[], (← (store : Run σ _)).effects⟩
  let act := { act with labels := label :: act.labels }
  if condition ≠ 0 then return act
  else if otherwise = stop then (goto act stop : Run σ _)
  else
    let behind ← Checked.add 64 otherwise 1
    (goto act behind : Run σ _)

def leave! (act : Activation) : GuardedRun σ Flow :=
  match act.labels with
  | [] => return .ret
  | label :: rest => do
    onStack! (Stack.settle! label.height label.results.length)
    return .next { act with labels := rest }

/-- A snapshot is compared with two parts, one after the other. -/
def equalsBoth! (snapshot base carried : Array Value) : Checked Bool := do
  let whole ← Checked.add 64 base.size carried.size
  if snapshot.size = whole then
    let first ← Checked.slice snapshot 0 base.size
    let second ← Checked.slice snapshot base.size snapshot.size
    return first == base && second == carried
  else return false

def reentersUnchanged! (label : Label) (frame : Frame) (stack : Stack) : Checked Bool := do
  let size ← Checked.size stack.size
  if frame.offset ≤ label.height ∧ label.height ≤ size then
    let base ← Checked.slice stack.values frame.offset label.height
    if label.arity ≤ size then
      let carried ← Checked.slice stack.values (size - label.arity) size
      equalsBoth! label.snapshot base carried
    else return false
  else return false

def isIdle! (label : Label) (frame : Frame) (s : Store) : Checked Bool :=
  if label.kind = .loop ∧ s.options.loopGuard ∧ label.effects = s.effects then reentersUnchanged! label frame s.stack
  else return false

/-- The labels are in a vector, the outermost first, and the ones inside of the target are cut off with it. -/
def branch! (act : Activation) (depth : Nat) (conditional : Bool) : GuardedRun σ Flow := do
  if depth = act.labels.length then return .ret
  let inside ← Checked.add 64 depth 1
  if act.labels.length < inside then (throw (.branchDepth depth) : Run σ Flow)
  else
    let label ← Checked.index act.labels.reverse.toArray (act.labels.length - inside)
    let outer := act.labels.drop inside
    if ← isIdle! label act.frame (← (store : Run σ _)) then
      (notify (.repeatedLoop act.index label.start) : Run σ _)
      if conditional then return .next act
      else
        (onStack (Stack.truncate label.height) : Run σ _)
        (onStack (Stack.pushMany (zeros label.results)) : Run σ _)
        let behind ← Checked.add 64 label.stop 1
        return .next (← (goto { act with labels := outer } behind : Run σ _))
    else
      onStack! (Stack.settle! label.height label.arity)
      let act := { act with labels := outer }
      match label.kind with
      | .loop =>
        match act.jumps.loopStart? label.stop with
        | some start => return .next (← (goto act start : Run σ _))
        | none => (throw (.unbalancedBlock label.stop) : Run σ Flow)
      | _ => do
        let behind ← Checked.add 64 label.stop 1
        return .next (← (goto act behind : Run σ _))

def exec! (types : Array FuncType) (act : Activation) (start : Nat) : Instr → GuardedRun σ Flow
  | .plain p => do
    onStore! (p.exec! act.frame)
    return .next act
  | .ifThen t => return .next (← enterIf! act types t start)
  | .endMark => leave! act
  | .br depth => branch! act depth false
  | .brIf depth => do
    let condition ← (onStack (Stack.popInt .w32) : Run σ _)
    if condition ≠ 0 then branch! act depth true else return .next act
  | .brTable targets fallback => do
    let index ← (onStack Stack.popAddress : Run σ _)
    branch! act (targets[index]?.getD fallback) false
  | i => (exec types act start i : Run σ Flow)

def step! (types : Array FuncType) (act : Activation) : GuardedRun σ Flow := do
  match ← (liftM (Instr.read! act.body act.pos) : GuardedRun σ _) with
  | .ok i next => exec! types { act with pos := next } act.pos i
  | .error e _ => (throw e : Run σ Flow)


/-! ### What becomes of an activation -/

theorem Sturdy.moved (h : act.Sturdy) {pos : Nat} (inside : pos ≤ act.body.size) : Sturdy { act with pos } :=
  ⟨h.bounded, h.frame, h.jumps, h.labels, inside⟩

theorem Sturdy.entered (h : act.Sturdy) {L : Label} (inside : L.stop < act.body.size) :
    Sturdy { act with labels := L :: act.labels } := by
  refine ⟨h.bounded, h.frame, h.jumps, fun L' there => ?_, h.pos⟩
  rcases List.mem_cons.mp there with rfl | there
  · exact inside
  · exact h.labels L' there

theorem Sturdy.outer (h : act.Sturdy) (n : Nat) : Sturdy { act with labels := act.labels.drop n } :=
  ⟨h.bounded, h.frame, h.jumps, fun L there => h.labels L (List.mem_of_mem_drop there), h.pos⟩

theorem goto_guarded (h : act.Sturdy) (pos : Nat) :
    Yields (σ := σ) Sturdy (liftM (goto act pos : Run σ _)) (goto act pos) := by
  unfold goto
  split
  · exact .lift_pure (h.moved ‹_›)
  · exact .throw _

theorem blockSignature_guarded (types : Array FuncType) (t : BlockType) (start : Nat) :
    Yields (σ := σ) Anything (liftM (blockSignature types t start : Run σ _)) (blockSignature types t start) := by
  unfold blockSignature
  split
  · exact .lift_pure trivial
  · exact .throw _

theorem heightBelow_guarded (n : Nat) :
    Yields (σ := σ) Anything (liftM (heightBelow n : Run σ _)) (heightBelow n) := by
  refine .lift_bind store_guarded fun s _ => ?_
  split
  · exact .lift_pure trivial
  · exact .throw _

section Constructs
variable (types : Array FuncType) (t : BlockType) (start : Nat)

theorem enterBlock_guarded (h : act.Sturdy) :
    Yields (σ := σ) Sturdy (liftM (enterBlock act types t start : Run σ _)) (enterBlock act types t start) := by
  refine .lift_bind (blockSignature_guarded types t start) fun signature _ => ?_
  refine .lift_bind (heightBelow_guarded _) fun height _ => .lift_bind (ofExcept_guarded _) fun stop found => ?_
  refine .lift_bind store_guarded fun s _ => .lift_pure (h.entered ?_)
  exact h.jumps.blocks _ _ (JumpTable.entry_eq_ok.mp found)

theorem enterLoop_guarded (h : act.Sturdy) :
    Yields (σ := σ) Sturdy (liftM (enterLoop act types t start : Run σ _)) (enterLoop act types t start) := by
  refine .lift_bind (blockSignature_guarded types t start) fun signature _ => ?_
  refine .lift_bind (heightBelow_guarded _) fun height _ => .lift_bind (ofExcept_guarded _) fun stop found => ?_
  refine .lift_bind store_guarded fun s _ => .lift_pure (h.entered ?_)
  exact h.jumps.loopEnds _ _ (JumpTable.entry_eq_ok.mp found)

theorem enterIf_guarded (h : act.Sturdy) :
    Yields (σ := σ) Sturdy (enterIf! act types t start) (enterIf act types t start) := by
  refine (blockSignature_guarded types t start).bind fun signature _ => (stack_guarded _).bind fun condition _ =>
    (ofExcept_guarded _).bind fun targets found => (heightBelow_guarded _).bind fun height _ =>
    store_guarded.bind fun s _ => ?_
  obtain ⟨otherwise, stop⟩ := h.jumps.ifs _ _ _ (JumpTable.entry_eq_ok.mp found)
  have within := h.entered (L := ⟨.ifThen, start, targets.2, height, signature.2.length, signature.2, #[], s.effects⟩) stop
  dsimp only
  split
  · exact .pure within
  · split
    · exact goto_guarded within _
    · have bounded := h.bounded
      unfold allocationLimit at bounded
      exact .check (.of_eq (Checked.add_ok (by omega))) (goto_guarded within _)

theorem leaveArm_guarded (h : act.Sturdy) :
    Yields (σ := σ) Sturdy (liftM (leaveArm act start : Run σ _)) (leaveArm act start) := by
  unfold leaveArm
  split
  · split
    · exact goto_guarded h _
    · exact .throw _
  · exact .throw _

end Constructs

theorem leave_guarded (h : act.Sturdy) : Yields (σ := σ) Flow.Sturdy (leave! act) (leave act) := by
  unfold leave! leave
  cases labels : act.labels with
  | nil => exact .pure (show Flow.Sturdy .ret from trivial)
  | cons L rest =>
    have outer := h.outer 1
    rw [labels] at outer
    exact (onStack_guarded (Stack.settle_guarded _ _)).bind fun _ _ =>
      .pure (show Flow.Sturdy (.next _) from outer)

/-! ### Branches -/

/-- An array is compared with two others, one after the other. -/
theorem beq_append (xs ys zs : Array Value) : (xs == ys ++ zs) =
    if xs.size = ys.size + zs.size then xs.extract 0 ys.size == ys && xs.extract ys.size xs.size == zs else false := by
  rw [Bool.eq_iff_iff, beq_iff_eq]
  constructor
  · rintro rfl
    rw [if_pos Array.size_append]
    simp
  · intro same
    split at same
    · rename_i size
      obtain ⟨first, second⟩ := Bool.and_eq_true_iff.mp same
      rw [← beq_iff_eq.mp first, ← beq_iff_eq.mp second, Array.extract_append_extract,
        Nat.max_eq_right (by omega)]
      simp
    · cases same

theorem equalsBoth_checked (snapshot : Array Value) {base carried : Array Value} (below : base.size < allocationLimit)
    (above : carried.size < allocationLimit) :
    equalsBoth! snapshot base carried = .ok (snapshot == base ++ carried) := by
  unfold equalsBoth!
  rw [beq_append, Checked.add_sizes below above]
  show ite (snapshot.size = base.size + carried.size) _ _ = _
  split
  · rw [Checked.slice_ok ⟨Nat.zero_le _, by omega⟩]
    show (Checked.slice _ _ _ >>= _) = _
    rw [Checked.slice_ok ⟨by omega, Nat.le_refl _⟩]
    rfl
  · rfl

theorem reentersUnchanged_faultless (label : Label) (frame : Frame) (stack : Stack) :
    Faultless (reentersUnchanged! label frame stack) (reentersUnchanged label frame stack) := by
  refine .size_bind fun bounded => ?_
  have part : ∀ first last : Nat, last ≤ stack.size → (stack.values.extract first last).size < allocationLimit := by
    intro first last inside
    rw [Array.size_extract]
    omega
  unfold reentersUnchanged Stack.top?
  by_cases within : frame.offset ≤ label.height ∧ label.height ≤ stack.size
  · rw [if_pos within, decide_eq_true within, Bool.true_and, Checked.slice_ok within]
    show Faultless (ite (label.arity ≤ stack.size) _ _) _
    by_cases enough : label.arity ≤ stack.size
    · have carried : Checked.slice stack.values (stack.size - label.arity) stack.size =
          .ok (stack.values.extract (stack.size - label.arity) stack.size) :=
        Checked.slice_ok ⟨Nat.sub_le .., Nat.le_refl _⟩
      rw [if_pos enough, if_pos (show label.arity ≤ stack.values.size from enough), carried]
      exact .of_eq (equalsBoth_checked _ (part _ _ within.2) (part _ _ (Nat.le_refl _)))
    · rw [if_neg enough, if_neg (show ¬label.arity ≤ stack.values.size from enough)]
      exact .ok _
  · rw [if_neg within, decide_eq_false within]
    exact .ok _

theorem isIdle_faultless (label : Label) (frame : Frame) (s : Store) :
    Faultless (isIdle! label frame s) (isIdle label frame s) := by
  have asked : isIdle label frame s =
      (decide (label.kind = .loop ∧ s.options.loopGuard ∧ label.effects = s.effects) &&
        reentersUnchanged label frame s.stack) := by
    unfold isIdle
    simp [Bool.and_assoc, Bool.beq_eq_decide_eq]
  rw [asked]
  unfold isIdle!
  split
  · rename_i same
    rw [decide_eq_true same, Bool.true_and]
    exact reentersUnchanged_faultless label frame s.stack
  · rename_i other
    rw [decide_eq_false other]
    exact .ok _

/-- The labels are the same from either end. -/
theorem label_checked {depth : Nat} (inside : depth < act.labels.length) :
    Checked.index act.labels.reverse.toArray (act.labels.length - (depth + 1)) = .ok act.labels[depth] := by
  have last : act.labels.length - (depth + 1) < act.labels.reverse.toArray.size := by
    rw [List.size_toArray, List.length_reverse]
    omega
  rw [Checked.index_ok last, List.getElem_toArray, List.getElem_reverse]
  congr 2
  omega

theorem branch_guarded (h : act.Sturdy) {depth : Nat} (small : depth < 1 <<< 32) (conditional : Bool) :
    Yields (σ := σ) Flow.Sturdy (branch! act depth conditional) (branch act depth conditional) := by
  -- Behind a construct there may be the end of the body, but no sum goes past what a length can be.
  have bounded := h.bounded
  unfold allocationLimit at bounded
  have outer := h.outer (depth + 1)
  have next : ∀ {a : Activation} (pos : Nat), a.Sturdy → Yields (σ := σ) Flow.Sturdy
      (liftM (goto a pos : Run σ _) >>= fun a => pure (.next a)) (goto a pos >>= fun a => pure (.next a)) :=
    fun pos h => (goto_guarded h pos).bind fun _ next => .pure (show Flow.Sturdy (.next _) from next)
  unfold branch! branch
  split
  · exact .pure (show Flow.Sturdy .ret from trivial)
  · refine .check (.of_eq (Checked.add_ok (by omega))) ?_
    by_cases inside : depth < act.labels.length
    · have behind := h.labels _ (List.getElem_mem inside)
      rw [if_neg (by omega), List.getElem?_eq_getElem inside]
      refine .check (.of_eq (label_checked inside)) (store_guarded.bind fun s _ => .check (isIdle_faultless _ _ _) ?_)
      dsimp only
      split
      · refine (notify_guarded _).bind fun _ _ => ?_
        split
        · exact .pure (show Flow.Sturdy (.next _) from h)
        · exact (stack_guarded _).bind fun _ _ => (stack_guarded _).bind fun _ _ =>
            .check (.of_eq (Checked.add_ok (by omega))) (next _ outer)
      · refine (onStack_guarded (Stack.settle_guarded _ _)).bind fun _ _ => ?_
        cases act.labels[depth].kind with
        | loop =>
          cases act.jumps.loopStart? act.labels[depth].stop with
          | some start => exact next _ outer
          | none => exact .throw _
        | block => exact .check (.of_eq (Checked.add_ok (by omega))) (next _ outer)
        | ifThen => exact .check (.of_eq (Checked.add_ok (by omega))) (next _ outer)
    · rw [if_pos (by omega), List.getElem?_eq_none (by omega)]
      exact .throw _

theorem exec_guarded (types : Array FuncType) (h : act.Sturdy) (start : Nat) {i : Instr} (small : i.Small) :
    Yields (σ := σ) Flow.Sturdy (exec! types act start i) (exec types act start i) := by
  cases i with
  | plain p => exact (onStore_guarded (Plain.exec_guarded h.frame small)).bind fun _ _ => .pure h
  | block t => exact .lift_bind (enterBlock_guarded types t start h) fun _ next => .lift_pure next
  | loop t => exact .lift_bind (enterLoop_guarded types t start h) fun _ next => .lift_pure next
  | ifThen t => exact (enterIf_guarded types t start h).bind fun _ next => .pure next
  | elseMark => exact .lift_bind (leaveArm_guarded start h) fun _ next => .lift_pure next
  | endMark => exact leave_guarded h
  | br depth => exact branch_guarded h small false
  | brIf depth =>
    refine (stack_guarded _).bind fun condition _ => ?_
    split
    · exact branch_guarded h small true
    · exact .pure h
  | brTable targets fallback =>
    refine (stack_guarded _).bind fun index _ => branch_guarded h ?_ false
    cases found : targets[index]? with
    | none => exact small.2
    | some depth => exact small.1 depth (Array.mem_of_getElem? found)
  | ret => exact .lift_pure trivial
  | call callee => exact .lift_pure h

theorem step_guarded (types : Array FuncType) (h : act.Sturdy) :
    Yields (σ := σ) Flow.Sturdy (step! types act) (step types act) := by
  refine .check (.of_eq (Instr.read_faithful h.bounded act.pos h.pos).1) ?_
  unfold step
  cases read : Instr.read act.body act.pos with
  | error e next => exact .throw e
  | ok i next => exact exec_guarded types (h.moved ((Instr.read_bounds read).2)) act.pos (Instr.read_small read)

end Activation
end Wasm
