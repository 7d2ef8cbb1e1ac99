import Wasm.Proofs.Structured
import Wasm.Proofs.Kept

/-! Derivations of the structured semantics: what a branch out of code may go to, and what code keeps that does not
    trap. -/

namespace Wasm
variable {σ : Type}

open Run Activation

/-! ### Settling and returning -/

/-- Settling keeps what the structured semantics keeps. -/
theorem settle_eq_keep (height arity : Nat) :
    (onStack (Stack.settle height arity) : Run σ Unit) = keep height arity := by
  funext ⟨⟨⟨values⟩, memories, globals, data, effects, depth, shadow, options⟩, host, notices⟩
  unfold keep onStack onStore Store.onStack
  dsimp only
  by_cases enough : height + arity ≤ values.size
  · rw [if_pos enough, Stack.settle_eq_ok.mpr ⟨enough, rfl⟩]
  · rw [if_neg enough, Stack.settle_eq_error.mpr ⟨Nat.lt_of_not_le enough, rfl, rfl⟩]

theorem leave_eq_finish (act : Activation) {y : Ending} (h : ∀ e, y ≠ .trap e) :
    (Module.leave act : Run σ Unit) = y.finish act := by
  cases y with
  | trap e => exact absurd rfl (h e)
  | _ =>
    unfold Module.leave Ending.finish
    rw [settle_eq_keep]

theorem keep_kept (height arity : Nat) {l : Machine σ} : Preserves (Machine.Kept l) (keep height arity : Run σ Unit) := by
  rw [← settle_eq_keep]
  exact onStack_kept _

/-! ### How code is left -/

theorem Ending.ofBranch_branch {depth target k : Nat} (h : ofBranch depth target = .branch k) : k < depth := by
  unfold ofBranch at h
  split at h
  · cases h
    assumption
  · split at h <;> cases h

theorem keep_eq_error {height arity : Nat} {e : Trap} {M N : Machine σ} (h : keep height arity M = .error e N) : N = M := by
  unfold keep at h
  dsimp only at h
  split at h <;> cases h
  rfl

theorem Ending.sequel_kept (kind : BlockKind) (x : Extent) (y : Ending) (M : Machine σ) :
    M.Kept (y.sequel kind x M).2 := by
  have settle : ∀ (t : Sequel) (height arity : Nat), M.Kept (leadingTo t (keep height arity) M).2 := by
    intro t height arity
    unfold leadingTo
    split
    · exact (keep_kept height arity).ok (.refl M) ‹_›
    · rename_i e N failed
      rw [keep_eq_error failed]
      exact .refl M
  cases y with
  | fall => exact settle _ _ _
  | branch depth =>
    cases depth with
    | zero => exact settle _ _ _
    | succ depth => exact .refl M
  | ret => exact .refl M
  | trap e => exact .refl M

theorem Ending.sequel_left {kind : BlockKind} {x : Extent} {y : Ending} {M N : Machine σ} {depth : Nat}
    (h : y.sequel kind x M = (.left (.branch depth), N)) : y = .branch (depth + 1) := by
  have settle : ∀ {t : Sequel} {height arity : Nat}, t ≠ .left (.branch depth) →
      leadingTo t (keep height arity) M ≠ (.left (.branch depth), N) := by
    intro t height arity other h
    unfold leadingTo at h
    split at h <;> cases h
    exact other rfl
  cases y with
  | fall => exact absurd h (settle (by simp))
  | branch k =>
    cases k with
    | zero => exact absurd h (settle (by split <;> simp))
    | succ k => cases h; rfl
  | ret => cases h
  | trap e => cases h

theorem Ending.sequel_again {kind : BlockKind} {x : Extent} {y : Ending} {M N : Machine σ}
    (h : y.sequel kind x M = (.again, N)) : kind = .loop := by
  have settle : ∀ {t : Sequel} {height arity : Nat}, leadingTo t (keep height arity) M = (.again, N) → t = .again := by
    intro t height arity h
    unfold leadingTo at h
    split at h <;> cases h
    rfl
  cases y with
  | fall => cases settle h
  | branch depth =>
    cases depth with
    | zero =>
      have loops := settle h
      split at loops
      · assumption
      · cases loops
    | succ depth => cases h
  | ret => cases h
  | trap e => cases h

/-- A branch that leaves code goes to a construct around it. -/
theorem Eval.branch_lt {m : Module σ} {frame : Frame} {depth : Nat} {code : Code} {M N : Machine σ} {y : Ending}
    (h : Eval m frame depth code M y N) : ∀ k, y = .branch k → k < depth := by
  induction h with
  | done => intro k eq; cases eq
  | plain _ _ ih => exact ih
  | plain_traps => intro k eq; cases eq
  | br => intro k eq; exact Ending.ofBranch_branch eq
  | brIf_taken => intro k eq; exact Ending.ofBranch_branch eq
  | brIf_passed _ _ _ ih => exact ih
  | brIf_traps => intro k eq; cases eq
  | brTable => intro k eq; exact Ending.ofBranch_branch eq
  | brTable_traps => intro k eq; cases eq
  | ret => intro k eq; cases eq
  | call_fails => intro k eq; cases eq
  | call_host _ _ ih => exact ih
  | call_returns _ _ _ _ _ _ ih => exact ih
  | call_traps => intro k eq; cases eq
  | block_fails => intro k eq; cases eq
  | block_ended _ _ _ _ _ ih => exact ih
  | block_left _ _ left ih =>
    -- A branch that leaves a construct has gone one further inside it.
    rintro k rfl
    exact Nat.lt_of_succ_lt_succ (ih _ (Ending.sequel_left left))
  | loop_fails => intro k eq; cases eq
  | loop_ended _ _ _ _ _ ih => exact ih
  | loop_again _ _ _ _ _ ih => exact ih
  | loop_left _ _ left ih =>
    rintro k rfl
    exact Nat.lt_of_succ_lt_succ (ih _ (Ending.sequel_left left))
  | if_fails => intro k eq; cases eq
  | if_ended _ _ _ _ _ ih => exact ih
  | if_left _ _ left ih =>
    rintro k rfl
    exact Nat.lt_of_succ_lt_succ (ih _ (Ending.sequel_left left))

theorem heightUnder_built {calls : Prop} (count : Nat) : Built calls (heightUnder count : Run σ Nat) := by
  rw [heightUnder_eq]
  exact heightBelow_built count

theorem opens_kept {l : Machine σ} (types : Array FuncType) (type : BlockType) (start : Nat) :
    Preserves (Machine.Kept l) (opens types type start : Run σ Extent) :=
  ((blockSignature_built types type start).bind fun _ => (heightUnder_built _).bind fun _ => .pure _).kept

theorem opensIf_kept {l : Machine σ} (types : Array FuncType) (type : BlockType) (start : Nat) :
    Preserves (Machine.Kept l) (opensIf types type start : Run σ (Extent × Bool)) :=
  ((blockSignature_built types type start).bind fun _ => (Built.onStack _).bind fun _ => (heightUnder_built _).bind
    fun _ => .pure _).kept

theorem Module.begins_kept {l : Machine σ} (m : Module σ) (callee : Nat) :
    Preserves (Machine.Kept l) (m.begins callee) :=
  ((Built.ofExcept _).bind fun f => (heightUnder_built _).bind fun _ => m.enter_built f callee _).kept

theorem Ending.finish_kept {l : Machine σ} (act : Activation) (y : Ending) :
    Preserves (Machine.Kept l) (y.finish act : Run σ Unit) := by
  cases y with
  | trap e => exact .throw e
  | _ => exact (keep_kept _ _).bind fun _ => (Built.leaveDepth trivial).kept

theorem Machine.Kept.construct {kind : BlockKind} {x : Extent} {y : Ending} {s : Sequel} {L M N P : Machine σ}
    (entered : L.Kept M) (inner : (∀ e, y ≠ .trap e) → M.Kept N) (sequel : y.sequel kind x N = (s, P))
    (goes : ∀ e, s ≠ .left (.trap e)) : L.Kept P := by
  have left := y.sequel_kept kind x N
  rw [sequel] at left
  refine (entered.trans (inner fun e eq => ?_)).trans left
  subst eq
  cases sequel
  exact goes e rfl

/-- Code that does not trap keeps what every step keeps. -/
theorem Eval.kept {m : Module σ} {frame : Frame} {depth : Nat} {code : Code} {M N : Machine σ} {y : Ending}
    (h : Eval m frame depth code M y N) : (∀ e, y ≠ .trap e) → M.Kept N := by
  induction h with
  | @done _ _ M => exact fun _ => .refl M
  | @plain _ _ p _ M M₁ _ _ ran _ ih =>
    exact fun goes => ((p.exec_kept _).ok (.refl M) ran).trans (ih goes)
  | plain_traps => exact fun goes => absurd rfl (goes _)
  | @br _ _ _ _ M => exact fun _ => .refl M
  | @brIf_taken _ _ _ _ M _ _ popped _ => exact fun _ => (onStack_kept _).ok (.refl M) popped
  | @brIf_passed _ _ _ _ M _ _ _ _ popped _ _ ih => exact fun goes => ((onStack_kept _).ok (.refl M) popped).trans (ih goes)
  | brIf_traps => exact fun goes => absurd rfl (goes _)
  | @brTable _ _ _ _ _ M _ _ popped => exact fun _ => (onStack_kept _).ok (.refl M) popped
  | brTable_traps => exact fun goes => absurd rfl (goes _)
  | @ret _ _ _ M => exact fun _ => .refl M
  | call_fails => exact fun goes => absurd rfl (goes _)
  | @call_host _ _ _ _ M _ _ _ begun _ ih => exact fun goes => ((m.begins_kept _).ok (.refl M) begun).trans (ih goes)
  | @call_returns _ _ _ _ M act M₁ _ x M₂ M₃ _ _ begun _ _ finished _ ih₁ ih₂ =>
    intro goes
    -- A function that finishes has not trapped.
    have inner := ih₁ fun e eq => by
      subst eq
      cases finished
    have entered := (m.begins_kept _).ok (.refl M) begun
    have left := (x.finish_kept act).ok (.refl M₂) finished
    exact ((entered.trans inner).trans left).trans (ih₂ goes)
  | call_traps => exact fun goes => absurd rfl (goes _)
  | block_fails => exact fun goes => absurd rfl (goes _)
  | @block_ended _ _ _ _ _ _ _ M _ _ _ _ _ _ _ opened _ ends _ ih₁ ih₂ =>
    exact fun goes => (((opens_kept _ _ _).ok (.refl M) opened).construct ih₁ ends (by simp)).trans (ih₂ goes)
  | @block_left _ _ _ _ _ _ _ M _ _ _ _ _ _ opened _ left ih =>
    exact fun goes => ((opens_kept _ _ _).ok (.refl M) opened).construct ih left fun e eq => goes e (by cases eq; rfl)
  | loop_fails => exact fun goes => absurd rfl (goes _)
  | @loop_ended _ _ _ _ _ _ _ M _ _ _ _ _ _ _ opened _ ends _ ih₁ ih₂ =>
    exact fun goes => (((opens_kept _ _ _).ok (.refl M) opened).construct ih₁ ends (by simp)).trans (ih₂ goes)
  | @loop_again _ _ _ _ _ _ _ M _ _ _ _ _ _ _ opened _ again _ ih₁ ih₂ =>
    exact fun goes => (((opens_kept _ _ _).ok (.refl M) opened).construct ih₁ again (by simp)).trans (ih₂ goes)
  | @loop_left _ _ _ _ _ _ _ M _ _ _ _ _ _ opened _ left ih =>
    exact fun goes => ((opens_kept _ _ _).ok (.refl M) opened).construct ih left fun e eq => goes e (by cases eq; rfl)
  | if_fails => exact fun goes => absurd rfl (goes _)
  | @if_ended _ _ _ _ _ _ _ _ _ M _ _ _ _ _ _ _ _ opened _ ends _ ih₁ ih₂ =>
    exact fun goes => (((opensIf_kept _ _ _).ok (.refl M) opened).construct ih₁ ends (by simp)).trans (ih₂ goes)
  | @if_left _ _ _ _ _ _ _ _ _ M _ _ _ _ _ _ _ opened _ left ih =>
    exact fun goes => ((opensIf_kept _ _ _).ok (.refl M) opened).construct ih left fun e eq => goes e (by cases eq; rfl)

end Wasm
