import Wasm.Proofs.Kept
import Wasm.Proofs.Structured

/-! Steps of a run, one equation for each instruction. With both guards off, a branch and a call only do what their
    names say. -/

namespace Wasm
variable {σ : Type}

open Run

/-- Both guards are off. -/
structure Machine.Unguarded (M : Machine σ) : Prop where
  recursion : M.store.options.recursionGuard = false
  loop : M.store.options.loopGuard = false

theorem Machine.Unguarded.kept {M N : Machine σ} (h : M.Unguarded) (kept : M.Kept N) : N.Unguarded :=
  ⟨by rw [kept.options, h.recursion], by rw [kept.options, h.loop]⟩

theorem Machine.Unguarded.before {M N : Machine σ} (h : N.Unguarded) (kept : M.Kept N) : M.Unguarded :=
  ⟨by rw [← kept.options, h.recursion], by rw [← kept.options, h.loop]⟩

/-- What a run comes to is more than that the fuel has been used up. -/
def Outcome.Final : Outcome σ → Prop
  | unfinished _ => False
  | _ => True

namespace Module

/-- Runs on with what a step has come to. -/
def resume (m : Module σ) (fuel : Nat) : EStateM.Result Trap (Machine σ) (List Activation) → Outcome σ
  | .ok chain M => m.run fuel chain M
  | .error e M => .trapped e M

/-- Runs on with what an instruction has come to. -/
def goOn (m : Module σ) (fuel : Nat) (act : Activation) (callers : List Activation) :
    EStateM.Result Trap (Machine σ) Flow → Outcome σ
  | .ok flow M => m.resume fuel (m.proceed act callers flow M)
  | .error e M => .trapped e M

section Run
variable {m : Module σ} {fuel : Nat} {act : Activation} {callers : List Activation} {M : Machine σ}

theorem run_succ : m.run (fuel + 1) (act :: callers) M = m.resume fuel (m.step act callers M) := by
  rw [run]
  cases m.step act callers M <;> rfl

theorem run_final (h : (m.run fuel (act :: callers) M).Final) : ∃ n, fuel = n + 1 := by
  cases fuel with
  | zero => exact h.elim
  | succ n => exact ⟨n, rfl⟩

theorem run_nil (m : Module σ) (fuel : Nat) (M : Machine σ) : m.run fuel [] M = .returned M := by
  cases fuel <;> rfl

theorem run_ok {chain : List Activation} {N : Machine σ} (step : m.step act callers M = .ok chain N) :
    m.run (fuel + 1) (act :: callers) M = m.run fuel chain N := by
  rw [run_succ, step]
  rfl

theorem run_error {e : Trap} {N : Machine σ} (step : m.step act callers M = .error e N) :
    m.run (fuel + 1) (act :: callers) M = .trapped e N := by
  rw [run_succ, step]
  rfl

/-- Induction over a run: no activation is left, or no fuel, or the next step fails, or the run goes on behind it. -/
theorem run_induction (m : Module σ) {motive : Nat → List Activation → Machine σ → Prop}
    (ended : ∀ fuel M, motive fuel [] M) (spent : ∀ act callers M, motive 0 (act :: callers) M)
    (fails : ∀ fuel act callers M e N, m.step act callers M = .error e N → motive (fuel + 1) (act :: callers) M)
    (onward : ∀ fuel act callers M chain N, m.step act callers M = .ok chain N → motive fuel chain N →
      motive (fuel + 1) (act :: callers) M) (fuel : Nat) (chain : List Activation) (M : Machine σ) : motive fuel chain M := by
  induction fuel generalizing chain M with
  | zero =>
    cases chain with
    | nil => exact ended 0 M
    | cons act callers => exact spent act callers M
  | succ fuel ih =>
    cases chain with
    | nil => exact ended (fuel + 1) M
    | cons act callers =>
      cases step : m.step act callers M with
      | error e N => exact fails fuel act callers M e N step
      | ok chain N => exact onward fuel act callers M chain N step (ih chain N)

/-- Induction over a run that returns, from its end on. -/
theorem returned_induction {motive : List Activation → Machine σ → Prop} {chain : List Activation} {F : Machine σ}
    (ended : motive [] F)
    (onward : ∀ act callers M chain N, m.step act callers M = .ok chain N → motive chain N → motive (act :: callers) M)
    (returns : m.run fuel chain M = .returned F) : motive chain M := by
  induction fuel, chain, M using m.run_induction with
  | ended fuel M =>
    rw [run_nil] at returns
    cases returns
    exact ended
  | spent act callers M => cases returns
  | fails fuel act callers M e N step =>
    rw [run_error step] at returns
    cases returns
  | onward fuel act callers M chain N step ih =>
    rw [run_ok step] at returns
    exact onward act callers M chain N step (ih returns)

/-- More fuel does not change a final outcome. -/
theorem run_mono {chain : List Activation} {o : Outcome σ} (h : m.run fuel chain M = o) (final : o.Final) (n : Nat) :
    m.run (fuel + n) chain M = o := by
  induction fuel, chain, M using m.run_induction with
  | ended fuel M =>
    rw [run_nil] at h ⊢
    exact h
  | spent act callers M =>
    rw [← h] at final
    exact final.elim
  | fails fuel act callers M e N step =>
    rw [Nat.add_right_comm, run_error step]
    rwa [run_error step] at h
  | onward fuel act callers M chain N step ih =>
    rw [Nat.add_right_comm, run_ok step]
    rw [run_ok step] at h
    exact ih h

theorem goOn_ret : m.goOn fuel act callers (.ok .ret M) =
    match leave act M with
    | .ok () M => m.run fuel callers M
    | .error e M => .trapped e M := by
  unfold goOn proceed resume
  dsimp only
  cases h : leave act M with
  | ok u M => rw [bind_ok h]; rfl
  | error e M => rw [bind_error h]

/-- How a run goes on depends on the activation by its frame and its results only. -/
theorem goOn_congr {other : Activation} {r : EStateM.Result Trap (Machine σ) Flow} (frame : other.frame = act.frame)
    (results : other.results = act.results) : m.goOn fuel other callers r = m.goOn fuel act callers r := by
  cases r with
  | error e M => rfl
  | ok flow M =>
    cases flow with
    | next act => rfl
    | call act callee => rfl
    | ret =>
      rw [goOn_ret, goOn_ret, leave, leave, frame, results]

theorem goOn_mono {r : EStateM.Result Trap (Machine σ) Flow} {o : Outcome σ} (h : m.goOn fuel act callers r = o)
    (final : o.Final) (n : Nat) : m.goOn (fuel + n) act callers r = o := by
  cases r with
  | error e M => exact h
  | ok flow M =>
    unfold goOn resume at h ⊢
    dsimp only at h ⊢
    split at h
    · exact run_mono h final n
    · exact h

/-- A step reads an instruction and runs it. -/
theorem run_read (act : Activation) {i : Instr} {next : Nat} (read : Instr.read act.body act.pos = .ok i next) :
    m.run (fuel + 1) (act :: callers) M =
      m.goOn fuel act callers (Activation.exec m.types { act with pos := next } act.pos i M) := by
  rw [run_succ, step_eq, Activation.step_read read]
  cases h : Activation.exec m.types { act with pos := next } act.pos i M with
  | ok flow N => rw [bind_ok h]; rfl
  | error e N => rw [bind_error h]; rfl

theorem run_at {pos next : Nat} {labels : List Label} {i : Instr} (read : Instr.read act.body pos = .ok i next) :
    m.run (fuel + 1) ({ act with pos, labels } :: callers) M =
      m.goOn fuel act callers (Activation.exec m.types { act with pos := next, labels } pos i M) := by
  refine (run_read { act with pos, labels } read).trans ?_
  exact goOn_congr rfl rfl

theorem run_of_exec {pos next : Nat} {i : Instr} {r : EStateM.Result Trap (Machine σ) Flow}
    (read : Instr.read act.body pos = .ok i next) (ran : Activation.exec m.types { act with pos := next } pos i M = r) :
    m.run (fuel + 1) ({ act with pos } :: callers) M = m.goOn fuel act callers r := by
  rw [run_at read, ran]

theorem run_next {pos next : Nat} {i : Instr} {act' : Activation} {N : Machine σ}
    (read : Instr.read act.body pos = .ok i next)
    (h : Activation.exec m.types { act with pos := next } pos i M = .ok (.next act') N) :
    m.run (fuel + 1) ({ act with pos } :: callers) M = m.run fuel (act' :: callers) N :=
  run_of_exec read h

theorem run_trap {pos next : Nat} {i : Instr} {e : Trap} {N : Machine σ} (read : Instr.read act.body pos = .ok i next)
    (h : Activation.exec m.types { act with pos := next } pos i M = .error e N) :
    m.run (fuel + 1) ({ act with pos } :: callers) M = .trapped e N :=
  run_of_exec read h

end Run
end Module

/-! ### Instructions, by what becomes of what they begin with -/

namespace Activation
variable {types : Array FuncType} {act next : Activation} {start : Nat} {M N : Machine σ} {e : Trap}

theorem exec_plain_ok {p : Plain} (ran : onStore (p.exec act.frame) M = .ok () N) :
    exec types act start (.plain p) M = .ok (.next act) N :=
  bind_ok ran

theorem exec_plain_error {p : Plain} (failed : onStore (p.exec act.frame) M = .error e N) :
    exec types act start (.plain p) M = .error e N :=
  bind_error failed

section Constructs
variable {type : BlockType}

theorem exec_block_ok (entered : enterBlock act types type start M = .ok next N) :
    exec types act start (.block type) M = .ok (.next next) N :=
  bind_ok entered

theorem exec_block_error (failed : enterBlock act types type start M = .error e N) :
    exec types act start (.block type) M = .error e N :=
  bind_error failed

theorem exec_loop_ok (entered : enterLoop act types type start M = .ok next N) :
    exec types act start (.loop type) M = .ok (.next next) N :=
  bind_ok entered

theorem exec_loop_error (failed : enterLoop act types type start M = .error e N) :
    exec types act start (.loop type) M = .error e N :=
  bind_error failed

theorem exec_ifThen_ok (entered : enterIf act types type start M = .ok next N) :
    exec types act start (.ifThen type) M = .ok (.next next) N :=
  bind_ok entered

theorem exec_ifThen_error (failed : enterIf act types type start M = .error e N) :
    exec types act start (.ifThen type) M = .error e N :=
  bind_error failed

end Constructs

section Branches
variable {target : Nat} {targets : Array Nat}

theorem exec_brIf_taken {c : BitVec Width.w32.bits} (popped : onStack (Stack.popInt .w32) M = .ok c N) (holds : c ≠ 0) :
    exec types act start (.brIf target) M = branch act target true N :=
  (bind_ok popped).trans (by rw [if_pos holds])

theorem exec_brIf_passed {c : BitVec Width.w32.bits} (popped : onStack (Stack.popInt .w32) M = .ok c N) (zero : c = 0) :
    exec types act start (.brIf target) M = .ok (.next act) N :=
  (bind_ok popped).trans (by rw [if_neg (not_not_intro zero)]; rfl)

theorem exec_brIf_error (failed : onStack (Stack.popInt .w32) M = .error e N) :
    exec types act start (.brIf target) M = .error e N :=
  bind_error failed

theorem exec_brTable_ok {index : Nat} (popped : onStack Stack.popAddress M = .ok index N) :
    exec types act start (.brTable targets target) M = branch act (targets[index]?.getD target) false N :=
  bind_ok popped

theorem exec_brTable_error (failed : onStack Stack.popAddress M = .error e N) :
    exec types act start (.brTable targets target) M = .error e N :=
  bind_error failed

end Branches
end Activation

/-! ### Without guards -/

theorem isIdle_unguarded {label : Label} {frame : Frame} {M : Machine σ} (h : M.Unguarded) :
    Activation.isIdle label frame M.store = false := by
  simp [Activation.isIdle, h.loop]

namespace Activation
variable {act : Activation} {M : Machine σ}

/-- Where a branch to a construct goes, once the stack has been settled. -/
def land (act : Activation) (label : Label) (outer : List Label) : Run σ Flow :=
  match label.kind with
  | .loop =>
    match act.jumps.loopStart? label.stop with
    | some start => return .next (← goto { act with labels := outer } start)
    | none => throw (.unbalancedBlock label.stop)
  | _ => return .next (← goto { act with labels := outer } (label.stop + 1))

/-- A branch to a construct that is not idle settles the stack and goes on from there. -/
theorem branch_awake {depth : Nat} {label : Label} (found : act.labels[depth]? = some label)
    (awake : isIdle label act.frame M.store = false) (conditional : Bool) : act.branch depth conditional M =
      (do onStack (Stack.settle label.height label.arity); land act label (act.labels.drop (depth + 1))) M := by
  have inside : depth < act.labels.length := (List.getElem?_eq_some_iff.mp found).1
  unfold branch
  rw [if_neg (by omega), found]
  dsimp only
  rw [bind_ok (store_eq M), awake]
  rfl

theorem branch_unguarded (h : M.Unguarded) {depth : Nat} {label : Label} (found : act.labels[depth]? = some label)
    (conditional : Bool) : act.branch depth conditional M =
      (do onStack (Stack.settle label.height label.arity); land act label (act.labels.drop (depth + 1))) M :=
  branch_awake found (isIdle_unguarded h) conditional

theorem goto_eq_ok {a : Activation} {N : Machine σ} {pos : Nat} (h : goto act pos M = .ok a N) :
    a = { act with pos } ∧ N = M := by
  unfold goto at h
  split at h <;> cases h
  exact ⟨rfl, rfl⟩

theorem goto_ok (act : Activation) {pos : Nat} (h : pos ≤ act.body.size) : (goto act pos : Run σ Activation) = pure { act with pos } := by
  unfold goto
  rw [if_pos h]

/-- A branch to a loop goes back to its start. -/
theorem land_loop {L : Label} {outer : List Label} {start : Nat} (kind : L.kind = .loop)
    (back : act.jumps.loopStart? L.stop = some start) (h : start ≤ act.body.size) :
    (act.land L outer : Run σ Flow) = pure (.next { act with pos := start, labels := outer }) := by
  unfold land
  rw [kind, back]
  dsimp only
  rw [goto_ok { act with labels := outer } h]
  rfl

/-- A branch to another construct goes on behind its end. -/
theorem land_out {L : Label} {outer : List Label} (kind : L.kind ≠ .loop) (h : L.stop + 1 ≤ act.body.size) :
    (act.land L outer : Run σ Flow) = pure (.next { act with pos := L.stop + 1, labels := outer }) := by
  unfold land
  cases isKind : L.kind with
  | loop => exact absurd isKind kind
  | _ =>
    dsimp only
    rw [goto_ok { act with labels := outer } h]
    rfl

end Activation

/-- A call that is not repeated starts the function. -/
theorem Module.callFrom_awake {m : Module σ} {act : Activation} {callee : Nat} {M : Machine σ}
    (awake : ∀ f, m.function callee = .ok f → isRepeated act callee f.signature.params.length M.store = .ok false) :
    m.callFrom act callee M = m.begins callee M := by
  rw [begins_eq]
  unfold callFrom
  cases function : m.function callee with
  | error e => rfl
  | ok f =>
    show EStateM.bind (ofExcept (isRepeated act callee f.signature.params.length M.store)) _ M = _
    rw [awake f function]
    rfl

/-- Without a guard, no call is repeated. -/
theorem Module.isRepeated_unguarded {act : Activation} {callee params : Nat} {M : Machine σ} (h : M.Unguarded) :
    isRepeated act callee params M.store = .ok false := by
  simp [isRepeated, h.recursion]

end Wasm
