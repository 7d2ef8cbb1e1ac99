import Wasm.Proofs.FlatStep
import Wasm.Proofs.Derivation
import Wasm.Proofs.JumpTable

/-! How a run goes on from where structured code has been left, and what it does with each instruction: the same as
    the structured semantics tells, one step for each opening, end and else. -/

namespace Wasm
variable {σ : Type}

open Run

/-- What a run comes to after the code of an activation has been left. -/
def Module.follow (m : Module σ) (fuel : Nat) (act : Activation) (callers : List Activation) :
    Ending → Machine σ → Outcome σ
  | .fall, M => m.run fuel (act :: callers) M
  | .branch depth, M => m.goOn fuel act callers (act.branch depth false M)
  | .ret, M => m.goOn fuel act callers (.ok .ret M)
  | .trap e, M => .trapped e M

/-- A label tells of a construct that has been entered. -/
structure Label.Fits (L : Label) (kind : BlockKind) (stop : Nat) (x : Extent) : Prop where
  isKind : L.kind = kind
  stop : L.stop = stop
  height : L.height = x.height
  arity : L.arity = x.arity kind
  results : L.results.length = x.results

namespace Module
variable {m : Module σ} {fuel : Nat} {act : Activation} {callers : List Activation} {M : Machine σ}

theorem follow_mono {y : Ending} {o : Outcome σ} (h : m.follow fuel act callers y M = o) (final : o.Final) (n : Nat) :
    m.follow (fuel + n) act callers y M = o := by
  unfold follow at h ⊢
  cases y with
  | fall => exact run_mono h final n
  | branch depth => exact goOn_mono h final n
  | ret => exact goOn_mono h final n
  | trap e => exact h

theorem follow_ret (pos : Nat) : m.follow fuel { act with pos } callers .ret M = m.follow fuel act callers .ret M := by
  unfold follow
  exact goOn_congr rfl rfl

/-- What is on the stack is settled, and then the run goes on outside of the construct, or at its start. -/
theorem follow_branch (h : M.Unguarded) {depth : Nat} {L : Label} (found : act.labels[depth]? = some L) :
    m.follow fuel act callers (.branch depth) M = m.goOn fuel act callers
      ((do keep L.height L.arity; act.land L (act.labels.drop (depth + 1))) M) := by
  unfold follow
  dsimp only
  rw [Activation.branch_unguarded h found, settle_eq_keep]

/-- Where a construct is left to does not depend on the position and the labels inside of it. -/
theorem land_congr (L : Label) (outer labels : List Label) (pos : Nat) :
    (Activation.land { act with pos, labels } L outer : Run σ Flow) = act.land L outer := rfl

/-- Where a branch leads does not depend on where it comes from. -/
theorem follow_pos (act : Activation) (h : M.Unguarded) {y : Ending} (leaves : y ≠ .fall)
    (inside : ∀ depth, y = .branch depth → depth < act.labels.length) (pos : Nat) :
    m.follow fuel { act with pos } callers y M = m.follow fuel act callers y M := by
  cases y with
  | fall => exact absurd rfl leaves
  | branch depth =>
    have found := List.getElem?_eq_getElem (inside depth rfl)
    have found' : { act with pos }.labels[depth]? = some _ := found
    rw [follow_branch h found, follow_branch h found', land_congr]
    exact goOn_congr rfl rfl
  | ret => exact follow_ret pos
  | trap e => rfl

/-- A branch out of the innermost construct is one from around it. -/
theorem follow_branch_succ (act : Activation) (h : M.Unguarded) {depth : Nat} {L : Label} (inside : depth < act.labels.length) :
    m.follow fuel { act with labels := L :: act.labels } callers (.branch (depth + 1)) M =
      m.follow fuel act callers (.branch depth) M := by
  have found := List.getElem?_eq_getElem inside
  have found' : { act with labels := L :: act.labels }.labels[depth + 1]? = some _ := found
  rw [follow_branch h found, follow_branch h found', land_congr]
  exact goOn_congr rfl rfl

/-! ### Leaving a construct -/

/-- How a run goes on with a construct whose inside has been left. -/
def carryOn (m : Module σ) (fuel : Nat) (act : Activation) (callers : List Activation) (start next : Nat) :
    Sequel × Machine σ → Outcome σ
  | (.ended, M) => m.run fuel ({ act with pos := next } :: callers) M
  | (.again, M) => m.run fuel ({ act with pos := start } :: callers) M
  | (.left z, M) => m.follow fuel act callers z M

theorem goOn_keep (height arity : Nat) (f : Run σ Flow) (act' : Activation) (s : Sequel) {start next : Nat}
    (lands : ∀ N, m.goOn fuel act' callers (f N) = m.carryOn fuel act callers start next (s, N)) :
    m.goOn fuel act' callers ((do keep height arity; f) M) =
      m.carryOn fuel act callers start next (leadingTo s (keep height arity) M) := by
  unfold leadingTo
  cases kept : keep height arity M with
  | ok u N =>
    rw [bind_ok kept]
    exact lands N
  | error e N =>
    rw [bind_error kept, goOn, carryOn, follow]

/-- The inside of a construct has been left, at its end or by a branch: the run goes on as the structured semantics
    tells. At the end that takes one more step. -/
theorem follow_sequel {kind : BlockKind} {L : Label} {x : Extent} {start stop next : Nat} (fits : L.Fits kind stop x)
    (close : Instr.read act.body stop = .ok .endMark next)
    (back : kind = .loop → act.jumps.loopStart? stop = some start ∧ start ≤ act.body.size) {y : Ending}
    (inside : ∀ depth, y = .branch depth → depth < act.labels.length + 1)
    (h : (∀ e, y ≠ .trap e) → M.Unguarded) :
    ∃ steps, ∀ fuel, m.follow (fuel + steps) { act with pos := stop, labels := L :: act.labels } callers y M =
      m.carryOn fuel act callers start next (y.sequel kind x M) := by
  obtain ⟨isKind, isStop, height, arity, results⟩ := fits
  cases y with
  | fall =>
    refine ⟨1, fun fuel => ?_⟩
    rw [follow, run_at close]
    show m.goOn fuel _ callers ((do onStack (Stack.settle L.height L.results.length); _) M) = _
    rw [settle_eq_keep, height, results]
    exact goOn_keep _ _ _ _ _ fun N => rfl
  | branch depth =>
    have quiet := h (by simp)
    refine ⟨0, fun fuel => ?_⟩
    cases depth with
    | zero =>
      have bounds := Instr.read_bounds close
      have mark := Instr.read_endMark close
      rw [follow_branch quiet (show _ = some L from rfl), height, arity, land_congr]
      refine goOn_keep _ _ _ _ _ fun N => ?_
      by_cases loop : kind = .loop
      · obtain ⟨start?, inBody⟩ := back loop
        rw [Activation.land_loop (isKind.trans loop) (by rw [isStop, start?]) inBody, if_pos loop]
        rfl
      · rw [Activation.land_out (by rw [isKind]; exact loop) (by omega), if_neg loop, isStop, mark]
        rfl
    | succ depth =>
      -- Outside the branch counts one construct less.
      have within : depth < act.labels.length := Nat.lt_of_succ_lt_succ (inside _ rfl)
      rw [Nat.add_zero]
      refine (follow_branch_succ { act with pos := stop } quiet within).trans ?_
      rw [follow_pos act quiet (by simp) (fun _ eq => by cases eq; exact within)]
      rfl
  | ret =>
    refine ⟨0, fun fuel => ?_⟩
    unfold follow
    exact goOn_congr rfl rfl
  | trap e => exact ⟨0, fun fuel => rfl⟩

end Module

/-! ### Entering a construct -/

namespace Activation
variable {act : Activation} {types : Array FuncType} {type : BlockType} {start stop : Nat} {M N : Machine σ}

theorem opens_eq_ok {x : Extent} (h : opens types type start M = .ok x N) :
    ∃ results, blockSignature types type start M = .ok (x.params, results) N ∧ heightBelow x.params N = .ok x.height N ∧
      results.length = x.results := by
  obtain ⟨⟨params, results⟩, M₁, signature, h⟩ := bind_eq_ok.mp h
  obtain ⟨height, M₂, below, h⟩ := bind_eq_ok.mp h
  rw [heightUnder_eq] at below
  cases h
  have same : N = M₁ := by
    obtain ⟨s, M₁, h, below⟩ := bind_eq_ok.mp below
    cases h
    split at below <;> cases below
    rfl
  subst same
  exact ⟨results, signature, below, rfl⟩

theorem enterBlock_ok (act : Activation) {x : Extent} (h : opens types type start M = .ok x N) (ends : act.jumps.blockEnd start = .ok stop) :
    ∃ L : Label, L.Fits .block stop x ∧
      enterBlock act types type start M = .ok { act with labels := L :: act.labels } N := by
  obtain ⟨results, signature, below, length⟩ := opens_eq_ok h
  refine ⟨⟨.block, start, stop, x.height, results.length, results, #[], N.store.effects⟩, ⟨rfl, rfl, rfl, length, length⟩, ?_⟩
  unfold enterBlock
  rw [bind_ok signature]
  dsimp only
  rw [bind_ok below, ends]
  rfl

theorem enterBlock_error {e : Trap} (h : opens types type start M = .error e N) :
    enterBlock act types type start M = .error e N := by
  unfold enterBlock
  rcases bind_eq_error.mp h with h | ⟨⟨params, results⟩, M₁, signature, h⟩
  · rw [bind_error h]
  · rw [bind_ok signature]
    dsimp only
    rcases bind_eq_error.mp h with h | ⟨height, M₂, below, h⟩
    · rw [heightUnder_eq] at h
      rw [bind_error h]
    · cases h

theorem enterLoop_ok (act : Activation) {x : Extent} (h : opens types type start M = .ok x N) (ends : act.jumps.loopEnd start = .ok stop) :
    ∃ L : Label, L.Fits .loop stop x ∧
      enterLoop act types type start M = .ok { act with labels := L :: act.labels } N := by
  obtain ⟨results, signature, below, length⟩ := opens_eq_ok h
  have entered : ∃ L : Label, L.Fits .loop stop x ∧ (do
      let height ← heightBelow x.params
      let stop ← ofExcept (act.jumps.loopEnd start)
      let s ← store
      let snapshot :=
        if s.options.loopGuard then s.stack.values.extract act.frame.offset s.stack.values.size else #[]
      let label : Label := ⟨.loop, start, stop, height, x.params, results, snapshot, s.effects⟩
      return { act with labels := label :: act.labels } : Run σ Activation) N =
        .ok { act with labels := L :: act.labels } N := by
    rw [bind_ok below, ends]
    exact ⟨_, ⟨rfl, rfl, rfl, rfl, length⟩, rfl⟩
  obtain ⟨L, fits, done⟩ := entered
  refine ⟨L, fits, ?_⟩
  unfold enterLoop
  rw [bind_ok signature]
  exact done

theorem enterLoop_error {e : Trap} (h : opens types type start M = .error e N) :
    enterLoop act types type start M = .error e N := by
  unfold enterLoop
  rcases bind_eq_error.mp h with h | ⟨⟨params, results⟩, M₁, signature, h⟩
  · rw [bind_error h]
  · rw [bind_ok signature]
    dsimp only
    rcases bind_eq_error.mp h with h | ⟨height, M₂, below, h⟩
    · rw [heightUnder_eq] at h
      rw [bind_error h]
    · cases h

theorem enterIf_ok (act : Activation) {x : Extent} {holds : Bool} {otherwise : Nat} (h : opensIf types type start M = .ok (x, holds) N)
    (targets : act.jumps.ifTargets start = .ok (otherwise, stop)) :
    ∃ L : Label, L.Fits .ifThen stop x ∧ enterIf act types type start M =
      (if holds then pure { act with labels := L :: act.labels }
        else if otherwise = stop then goto { act with labels := L :: act.labels } stop
        else goto { act with labels := L :: act.labels } (otherwise + 1)) N := by
  obtain ⟨⟨params, results⟩, M₁, signature, h⟩ := bind_eq_ok.mp h
  obtain ⟨condition, M₂, popped, h⟩ := bind_eq_ok.mp h
  obtain ⟨height, M₃, below, h⟩ := bind_eq_ok.mp h
  rw [heightUnder_eq] at below
  cases h
  refine ⟨⟨.ifThen, start, stop, height, results.length, results, #[], N.store.effects⟩, ⟨rfl, rfl, rfl, rfl, rfl⟩, ?_⟩
  unfold enterIf
  rw [bind_ok signature]
  dsimp only
  rw [bind_ok popped, targets]
  show (heightBelow params >>= _ : Run σ Activation) M₂ = _
  rw [bind_ok below]
  by_cases zero : condition = 0
  · subst zero
    rfl
  · rw [if_pos (decide_eq_true zero)]
    exact congrFun (if_pos zero) N

theorem enterIf_error (act : Activation) {e : Trap} {targets : Nat × Nat} (h : opensIf types type start M = .error e N)
    (ends : act.jumps.ifTargets start = .ok targets) : enterIf act types type start M = .error e N := by
  unfold enterIf
  rcases bind_eq_error.mp h with h | ⟨⟨params, results⟩, M₁, signature, h⟩
  · rw [bind_error h]
  · rw [bind_ok signature]
    dsimp only
    rcases bind_eq_error.mp h with h | ⟨condition, M₂, popped, h⟩
    · rw [bind_error h]
    · rw [bind_ok popped, ends]
      rcases bind_eq_error.mp h with h | ⟨height, M₂, below, h⟩
      · show (heightBelow params >>= _ : Run σ Activation) M₂ = _
        rw [heightUnder_eq] at h
        exact bind_error h
      · cases h

end Activation
end Wasm
