import Wasm.Proofs.Entry

/-! What an instruction does to the constructs that its activation is in: it leaves some of them, or enters one more. -/

namespace Wasm
variable {σ : Type}

open Run

/-- What is noted of a loop when an activation enters it. -/
structure Label.Noted (act : Activation) (pos : Nat) (M : Machine σ) (L : Label) : Prop where
  start : L.start = pos
  stop : act.jumps.loopEnd pos = .ok L.stop
  size : L.height + L.arity = M.store.stack.values.size
  effects : L.effects = M.store.effects
  snapshot : M.store.options.loopGuard = true →
    L.snapshot = M.store.stack.values.extract act.frame.offset M.store.stack.values.size

namespace Activation

/-- An activation after an instruction that was read at `start`. -/
inductive GoesOn (act : Activation) (start : Nat) (M : Machine σ) : Activation → Prop
  | leaves (pos count : Nat) : GoesOn act start M { act with pos, labels := act.labels.drop count }
  | enters (pos : Nat) (L : Label) : (L.kind = .loop → L.Noted act start M) →
    GoesOn act start M { act with pos, labels := L :: act.labels }

variable {act : Activation} {start : Nat} {i : Instr} {M : Machine σ} {P : Machine σ → Prop}

theorem GoesOn.same {a : Activation} (h : act.GoesOn start M a) : ∃ pos labels, a = { act with pos, labels } := by
  cases h <;> exact ⟨_, _, rfl⟩

theorem GoesOn.frame {a : Activation} (h : act.GoesOn start M a) : a.frame = act.frame := by
  cases h <;> rfl

/-- It does not matter which instruction is read next. -/
theorem GoesOn.ofMoved {a : Activation} {next : Nat} (h : GoesOn { act with pos := next } start M a) :
    act.GoesOn start M a := by
  cases h with
  | leaves pos count => exact .leaves pos count
  | enters pos L noted =>
    refine .enters pos L fun isLoop => ?_
    obtain ⟨start, stop, size, effects, snapshot⟩ := noted isLoop
    exact ⟨start, stop, size, effects, snapshot⟩

theorem goto_moves (act : Activation) (pos : Nat) :
    Ensures P (goto act pos) (fun a _ => a = { act with pos }) fun _ => True := by
  unfold goto
  split
  · exact .pure fun _ _ => rfl
  · exact .throw fun _ _ => trivial

theorem blockSignature_same (types : Array FuncType) (t : BlockType) (start : Nat) :
    Ensures P (blockSignature types t start) (fun _ => P) fun _ => True := by
  unfold blockSignature
  split
  · exact .pure fun _ h => h
  · exact .throw fun _ _ => trivial

theorem heightBelow_whole (count : Nat) : Ensures (· = M) (heightBelow count)
    (fun height N => N = M ∧ count + height = M.store.stack.values.size) fun _ => True := by
  refine .of_cases (fun N height N' same done => ?_) fun _ _ _ _ _ => trivial
  obtain ⟨whole, rfl⟩ := heightBelow_eq_ok.mp done
  subst same
  exact ⟨rfl, whole⟩

theorem ofExcept_found {α : Type} (x : Except Trap α) :
    Ensures P (ofExcept x : Run σ α) (fun a N => P N ∧ x = .ok a) fun _ => True := by
  cases x with
  | ok a => exact .pure fun N h => ⟨h, rfl⟩
  | error e => exact .throw fun _ _ => trivial

variable (types : Array FuncType) (t : BlockType)

theorem enterBlock_goesOn : Ensures P (enterBlock act types t start) (fun a _ => act.GoesOn start M a) fun _ => True :=
  Ensures.any.bind fun _ => Ensures.any.bind fun _ => Ensures.any.bind fun _ => Ensures.any.bind fun _ =>
    .pure fun _ _ => .enters act.pos _ fun isLoop => nomatch isLoop

theorem enterLoop_goesOn : Ensures (· = M) (enterLoop act types t start) (fun a _ => act.GoesOn start M a) fun _ => True := by
  refine (blockSignature_same types t start).bind fun signature => (heightBelow_whole _).bind fun height =>
    (ofExcept_found _).bind fun stop => Ensures.bind (Q := fun s N => s = M.store ∧
      height + signature.1 = M.store.stack.values.size ∧ act.jumps.loopEnd start = .ok stop) ?_ fun s => ?_
  · rintro N ⟨⟨rfl, whole⟩, found⟩
    exact ⟨rfl, by omega, found⟩
  · refine .pure fun _ noted => .enters act.pos _ fun _ => ?_
    obtain ⟨rfl, whole, found⟩ := noted
    exact ⟨rfl, found, whole, rfl, fun guarded => if_pos guarded⟩

theorem enterIf_goesOn : Ensures P (enterIf act types t start) (fun a _ => act.GoesOn start M a) fun _ => True := by
  refine Ensures.any.bind fun signature => Ensures.any.bind fun condition => Ensures.any.bind fun targets =>
    Ensures.any.bind fun height => Ensures.any.bind fun s => ?_
  have within : ∀ pos, act.GoesOn start M { act with pos, labels :=
      ⟨.ifThen, start, targets.2, height, signature.2.length, signature.2, #[], s.effects⟩ :: act.labels } :=
    fun pos => .enters pos _ fun isLoop => nomatch isLoop
  dsimp only
  split
  · exact .pure fun _ _ => within act.pos
  · split
    · exact (goto_moves _ _).weaken (fun _ h => h) fun a _ moved => moved ▸ within _
    · exact (goto_moves _ _).weaken (fun _ h => h) fun a _ moved => moved ▸ within _

theorem leaveArm_goesOn : Ensures P (leaveArm act start) (fun a _ => act.GoesOn start M a) fun _ => True := by
  unfold leaveArm
  split
  · split
    · exact (goto_moves act _).weaken (fun _ h => h) fun a _ moved => moved ▸ .leaves _ 0
    · exact .throw fun _ _ => trivial
  · exact .throw fun _ _ => trivial

/-- How the run goes on after an instruction. Only a call leads to another function, and does nothing before. -/
def FlowsOn (act : Activation) (start : Nat) (i : Instr) (M : Machine σ) : Flow → Machine σ → Prop
  | .next a, _ => act.GoesOn start M a
  | .call a callee, N => i = .call callee ∧ a = act ∧ N = M
  | .ret, _ => True

/-- An operation that gives an activation which is the next one. -/
theorem next_flowsOn {op : Run σ Activation} (h : Ensures P op (fun a _ => act.GoesOn start M a) fun _ => True) :
    Ensures P (do return .next (← op) : Run σ Flow) (act.FlowsOn start i M) fun _ => True :=
  h.bind fun _ => .pure fun _ goesOn => goesOn

theorem leave_flowsOn : Ensures P (leave act) (act.FlowsOn start i M) fun _ => True := by
  unfold leave
  split
  · exact .pure fun _ _ => trivial
  · rename_i L outer labels
    refine Ensures.any.bind fun _ => .pure fun _ _ => ?_
    have goesOn : GoesOn act start M _ := .leaves act.pos 1
    rw [labels] at goesOn
    exact goesOn

theorem branch_flowsOn (depth : Nat) (conditional : Bool) :
    Ensures P (branch act depth conditional) (act.FlowsOn start i M) fun _ => True := by
  have goes : ∀ pos {P : Machine σ → Prop}, Ensures P
      (do return .next (← goto { act with labels := act.labels.drop (depth + 1) } pos) : Run σ Flow)
      (act.FlowsOn start i M) fun _ => True := fun pos _ =>
    next_flowsOn ((goto_moves _ pos).weaken (fun _ h => h) fun a _ moved => moved ▸ .leaves pos (depth + 1))
  unfold branch
  split
  · exact .pure fun _ _ => trivial
  · split
    · exact .throw fun _ _ => trivial
    · refine Ensures.any.bind fun s => ?_
      split
      · refine Ensures.any.bind fun _ => ?_
        split
        · exact .pure fun _ _ => .leaves act.pos 0
        · exact Ensures.any.bind fun _ => Ensures.any.bind fun _ => goes _
      · refine Ensures.any.bind fun _ => ?_
        dsimp only
        split
        · split
          · exact goes _
          · exact .throw fun _ _ => trivial
        · exact goes _

theorem exec_flowsOn (types : Array FuncType) (start : Nat) (i : Instr) :
    Ensures (· = M) (exec types act start i) (act.FlowsOn start i M) fun _ => True := by
  cases i with
  | plain p => exact Ensures.any.bind fun _ => .pure fun _ _ => .leaves act.pos 0
  | block t => exact next_flowsOn (enterBlock_goesOn types t)
  | loop t => exact next_flowsOn (enterLoop_goesOn types t)
  | ifThen t => exact next_flowsOn (enterIf_goesOn types t)
  | elseMark => exact next_flowsOn leaveArm_goesOn
  | endMark => exact leave_flowsOn
  | br depth => exact branch_flowsOn depth false
  | brIf depth =>
    refine Ensures.any.bind fun condition => ?_
    split
    · exact branch_flowsOn depth true
    · exact .pure fun _ _ => .leaves act.pos 0
  | brTable targets fallback => exact Ensures.any.bind fun index => branch_flowsOn _ false
  | ret => exact .pure fun _ _ => trivial
  | call callee => exact .pure fun _ same => ⟨rfl, rfl, same⟩

/-- A step that succeeds has read an instruction, and goes on as this one does. -/
theorem step_flowsOn {types : Array FuncType} {flow : Flow} {N : Machine σ} (ran : act.step types M = .ok flow N) :
    ∃ i next, Instr.read act.body act.pos = .ok i next ∧ exec types { act with pos := next } act.pos i M = .ok flow N ∧
      FlowsOn { act with pos := next } act.pos i M flow N := by
  obtain ⟨i, next, read, ran⟩ := step_eq_ok.mp ran
  exact ⟨i, next, read, ran, (exec_flowsOn types act.pos i).ok rfl ran⟩

end Activation
end Wasm
