import Wasm.Proofs.Changes

/-! What runs leave alone. The settings and the number of data segments stay as they are, and memories, globals and the
    state of the host do not change without an effect being counted. -/

namespace Wasm
variable {σ α : Type} {M N : Machine σ}

/-- What every step of a run keeps. The depth is not kept, for calls are steps. -/
structure Machine.Kept (m n : Machine σ) : Prop where
  options : n.store.options = m.store.options
  shadow : n.store.shadow = m.store.shadow
  segments : n.store.data.size = m.store.data.size
  effects : m.store.effects ≤ n.store.effects
  memories : n.store.effects = m.store.effects → n.store.memories = m.store.memories
  globals : n.store.effects = m.store.effects → n.store.globals = m.store.globals
  host : n.store.effects = m.store.effects → n.host = m.host

namespace Machine

theorem Kept.refl (m : Machine σ) : Kept m m :=
  ⟨rfl, rfl, rfl, Nat.le_refl _, fun _ => rfl, fun _ => rfl, fun _ => rfl⟩

theorem Kept.trans {l m n : Machine σ} (h : Kept l m) (h' : Kept m n) : Kept l n := by
  have first := h.effects
  have second := h'.effects
  refine ⟨h'.options.trans h.options, h'.shadow.trans h.shadow, h'.segments.trans h.segments,
    Nat.le_trans first second, fun same => ?_, fun same => ?_, fun same => ?_⟩
  · rw [h'.memories (by omega), h.memories (by omega)]
  · rw [h'.globals (by omega), h.globals (by omega)]
  · rw [h'.host (by omega), h.host (by omega)]

/-- A change that has been counted. -/
theorem Kept.counted {m n : Machine σ} (options : n.store.options = m.store.options)
    (shadow : n.store.shadow = m.store.shadow) (segments : n.store.data.size = m.store.data.size)
    (effects : n.store.effects = m.store.effects + 1) : Kept m n :=
  ⟨options, shadow, segments, by omega, fun same => by omega, fun same => by omega, fun same => by omega⟩

theorem Change.kept {calls : Prop} (h : M.Change calls N) : M.Kept N := by
  cases h with
  | store change =>
    cases change with
    | stack stack => exact ⟨rfl, rfl, rfl, Nat.le_refl _, fun _ => rfl, fun _ => rfl, fun _ => rfl⟩
    | memory _ _ => exact .counted rfl rfl rfl rfl
    | global _ _ _ => exact .counted rfl rfl rfl rfl
    | segment index =>
      exact ⟨rfl, rfl, Array.size_setIfInBounds, Nat.le_refl _, fun _ => rfl, fun _ => rfl, fun _ => rfl⟩
  | notice n => exact ⟨rfl, rfl, rfl, Nat.le_refl _, fun _ => rfl, fun _ => rfl, fun _ => rfl⟩
  | depth depth _ => exact ⟨rfl, rfl, rfl, Nat.le_refl _, fun _ => rfl, fun _ => rfl, fun _ => rfl⟩
  | host host _ => exact .counted rfl rfl rfl rfl

theorem Changes.kept {calls : Prop} (h : M.Changes calls N) : M.Kept N := by
  induction h with
  | refl => exact .refl M
  | tail _ change ih => exact ih.trans change.kept

end Machine

theorem Run.Built.kept {op : Run σ α} (h : Built True op) {l : Machine σ} : Preserves (Machine.Kept l) op :=
  .of_ok fun _ _ _ kept done => kept.trans (h.changes.ok .refl done).kept

theorem Run.onStack_kept (op : Stack.Op α) {l : Machine σ} : Preserves (Machine.Kept l) (onStack op) :=
  (Built.onStack op).kept

theorem Plain.exec_kept (p : Plain) (f : Frame) {l : Machine σ} : Preserves (Machine.Kept l) (Run.onStore (p.exec f)) :=
  (Run.Built.onStore (p.exec_built f)).kept

theorem Module.step_kept (m : Module σ) (act : Activation) (callers : List Activation) {l : Machine σ} :
    Preserves (Machine.Kept l) (m.step act callers) :=
  (m.step_built act callers).kept

end Wasm
