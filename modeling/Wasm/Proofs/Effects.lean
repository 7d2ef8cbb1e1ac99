import Wasm.Proofs.Course

/-! The count of effects tells of every change. Where it is the same as before, no host function has been called, and
    memories and globals are as they were. -/

namespace Wasm
variable {σ α β : Type}

open Run

/-- However the operation ends, it has counted an effect. -/
def Machine.Counts (M : Machine σ) (op : Run σ α) : Prop := M.store.effects < (stateAfter op M).store.effects

namespace Machine.Counts
variable {M N : Machine σ}

theorem ok {op : Run σ α} (h : M.Counts op) {a : α} (done : op M = .ok a N) : M.store.effects < N.store.effects := by
  unfold Counts at h
  rwa [stateAfter_ok done] at h

theorem error {op : Run σ α} (h : M.Counts op) {e : Trap} (failed : op M = .error e N) :
    M.store.effects < N.store.effects := by
  unfold Counts at h
  rwa [stateAfter_error failed] at h

theorem of_eq {op op' : Run σ α} (same : op M = op' M) (h : M.Counts op') : M.Counts op := by
  unfold Counts stateAfter at h ⊢
  rwa [same]

/-- Nothing that comes later takes back what has been counted. -/
theorem bind {x : Run σ α} {k : α → Run σ β} (first : M.Counts x) (rest : ∀ a, Built True (k a)) : M.Counts (x >>= k) := by
  cases ran : x M with
  | error e N =>
    unfold Counts
    rw [stateAfter_error (bind_error ran)]
    exact first.error ran
  | ok a N =>
    have later : N.Changes True (stateAfter (k a) N) := (rest a).changes.after .refl
    unfold Counts
    rw [stateAfter_bind ran]
    exact Nat.lt_of_lt_of_le (first.ok ran) later.kept.effects

theorem after {x : Run σ α} {k : α → Run σ β} {a : α} (ran : x M = .ok a N) (same : N.store.effects = M.store.effects)
    (rest : N.Counts (k a)) : M.Counts (x >>= k) := by
  unfold Counts at rest ⊢
  rw [stateAfter_bind ran]
  rwa [same] at rest

theorem callHost (f : HostFunc σ) (arguments : Array Value) : M.Counts (callHost f arguments) := by
  unfold Counts
  cases called : Run.callHost f arguments M with
  | ok results N =>
    obtain ⟨host, -, rfl⟩ := callHost_eq_ok.mp called
    rw [stateAfter_ok called]
    exact Nat.lt_succ_self _
  | error e N =>
    obtain ⟨host, -, rfl⟩ := callHost_eq_error.mp called
    rw [stateAfter_error called]
    exact Nat.lt_succ_self _

end Machine.Counts

/-- The memories, with their lengths and bytes, and the globals are the same. -/
structure Store.Unchanged (s t : Store) : Prop where
  memories : t.memories = s.memories
  globals : t.globals = s.globals

/-- A host function is called if there is one, not too deep, and with arguments enough. -/
theorem Function.hostCalls_ne_nil {f : Function σ} {index offset : Nat} {s : Store} (h : f.hostCalls index offset s ≠ []) :
    ∃ moduleName name function, f.body = .host moduleName name (some function) ∧
      s.depth < s.options.maxCallDepth ∧ offset + f.signature.params.length ≤ s.stack.size := by
  unfold Function.hostCalls at h
  split at h
  · rename_i moduleName name function body
    dsimp only at h
    split at h
    · rename_i enough
      exact ⟨moduleName, name, function, body, enough.1, enough.2⟩
    · exact absurd rfl h
  · exact absurd rfl h

/-- The next instruction calls a host function if it calls one at all, and no guard skips the call. -/
theorem Activation.hostCalls_ne_nil {m : Module σ} {act : Activation} {s : Store} (h : act.hostCalls m s ≠ []) :
    ∃ callee next f, Instr.read act.body act.pos = .ok (.call callee) next ∧ m.function callee = .ok f ∧
      Module.isRepeated act callee f.signature.params.length s = .ok false ∧
      f.hostCalls callee (s.stack.size - f.signature.params.length) s ≠ [] := by
  unfold Activation.hostCalls at h
  split at h
  · rename_i callee next read
    split at h
    · rename_i f function
      dsimp only at h
      split at h
      · rename_i fresh
        exact ⟨callee, next, f, read, function, fresh, h⟩
      · exact absurd rfl h
    · exact absurd rfl h
  · exact absurd rfl h

namespace Module
variable {m : Module σ} {f : Function σ} {act : Activation} {callers chain : List Activation} {M : Machine σ}
  {index offset fuel : Nat} {arguments : Array Value}

theorem enter_counts (calls : f.hostCalls index offset M.store ≠ []) : M.Counts (m.enter f index offset) := by
  obtain ⟨moduleName, name, function, body, shallow, enough⟩ := Function.hostCalls_ne_nil calls
  refine .after (store_eq M) rfl ?_
  dsimp only
  rw [if_neg (Nat.not_le.mpr shallow)]
  refine .after (show onStore _ M = .ok () { M with store.depth := M.store.depth + 1 } from rfl) rfl ?_
  rw [if_neg (Nat.not_lt.mpr enough), body]
  have popped := Stack.popMany_of_le (Nat.le_trans (Nat.le_add_left _ _) enough)
  refine .after (Run.onStack_eq_ok.mpr ⟨_, popped, rfl⟩) rfl ?_
  refine (Machine.Counts.callHost function _).bind fun results => ?_
  exact (Built.ofExcept _).bind fun _ => (Built.onStack _).bind fun _ => (Built.onStack _).bind fun _ =>
    (Built.leaveDepth trivial).bind fun _ => .pure _

/-- A step that calls a host function counts an effect. -/
theorem step_counts (calls : act.hostCalls m M.store ≠ []) : M.Counts (m.step act callers) := by
  obtain ⟨callee, next, f, read, function, fresh, calls⟩ := Activation.hostCalls_ne_nil calls
  obtain ⟨_, _, _, -, -, enough⟩ := Function.hostCalls_ne_nil calls
  have entered : M.Counts (m.callFrom { act with pos := next } callee) :=
    .of_eq (callFrom_fresh function fresh (Nat.le_trans (Nat.le_add_left _ _) enough)) (enter_counts calls)
  refine .of_eq (step_reads_call read callers M) (entered.bind fun inner => ?_)
  split
  · exact .pure _
  · exact .pure _

theorem run_effects (m : Module σ) (fuel : Nat) (chain : List Activation) (M : Machine σ) :
    M.store.effects ≤ (m.run fuel chain M).final.store.effects :=
  (m.run_changes fuel chain M).kept.effects

/-- A run that has counted nothing has called no host function. -/
theorem run_silent (quiet : (m.run fuel chain M).final.store.effects = M.store.effects) : m.hostCalls fuel chain M = [] := by
  induction fuel generalizing chain M with
  | zero => cases chain <;> rfl
  | succ fuel ih =>
    cases chain with
    | nil => rfl
    | cons act callers =>
      rw [run_succ] at quiet
      unfold hostCalls
      have silent : ¬M.Counts (m.step act callers) → act.hostCalls m M.store = [] := fun uncounted =>
        Decidable.byContradiction fun calls => uncounted (step_counts calls)
      cases stepped : m.step act callers M with
      | error e N =>
        rw [stepped] at quiet
        rw [silent fun counts => Nat.ne_of_gt (counts.error stepped) quiet]
        rfl
      | ok chain N =>
        rw [stepped] at quiet
        change (m.run fuel chain N).final.store.effects = _ at quiet
        -- The count grows from step to step, so that it is the same all the way.
        have early := ((m.step_built act callers).changes.ok .refl stepped).kept.effects
        have late := m.run_effects fuel chain N
        rw [silent fun counts => by have counted := counts.ok stepped; omega]
        exact ih (by omega)

theorem starts_counts (calls : f.hostCalls index M.store.stack.size
    { M.store with stack := ⟨M.store.stack.values ++ arguments⟩ } ≠ []) : M.Counts (m.starts f index arguments) := by
  have counts : Machine.Counts { M with store.stack := ⟨M.store.stack.values ++ arguments⟩ }
      (m.enter f index M.store.stack.size) := enter_counts calls
  exact counts

theorem runToEnd_silent (accepted : m.accept index arguments = .ok f)
    (quiet : (m.runToEnd fuel f index arguments M).final.store.effects = M.store.effects) :
    m.invokeCalls fuel index arguments M = [] := by
  unfold invokeCalls
  rw [accepted]
  dsimp only
  rw [runToEnd_eq] at quiet
  have silent : ¬M.Counts (m.starts f index arguments) → f.hostCalls index M.store.stack.size
      { M.store with stack := ⟨M.store.stack.values ++ arguments⟩ } = [] := fun uncounted =>
    Decidable.byContradiction fun calls => uncounted (starts_counts calls)
  cases begun : m.starts f index arguments M with
  | error e N =>
    rw [begun] at quiet
    rw [silent fun counts => Nat.ne_of_gt (counts.error begun) quiet]
    rfl
  | ok r N =>
    rw [begun] at quiet
    cases r with
    | none =>
      rw [silent fun counts => Nat.ne_of_gt (counts.ok begun) quiet]
      rfl
    | some act =>
      have early := ((m.starts_built f index arguments).changes.ok .refl begun).kept.effects
      have late := m.run_effects fuel [act] N
      dsimp only at quiet
      rw [silent fun counts => by have counted := counts.ok begun; omega]
      exact run_silent (by omega)

/-- A call from outside that has counted nothing has called no host function. -/
theorem invokeIndex_silent
    (quiet : (stateAfter (m.invokeIndex fuel index arguments) M).store.effects = M.store.effects) :
    m.invokeCalls fuel index arguments M = [] := by
  cases accepted : m.accept index arguments with
  | error e => exact invokeCalls_refused accepted fuel M
  | ok f =>
    refine runToEnd_silent accepted (Eq.trans ?_ quiet)
    unfold stateAfter invokeIndex
    rw [accepted]
    dsimp only
    cases m.runToEnd fuel f index arguments M <;> rfl

/-- As long as the count of effects stays the same, no host function is called, and memories and globals stay as they
    are. This holds of any number of steps, whether they end with a trap or not, and of calls from outside. -/
theorem unchanged_of_effects (m : Module σ) (M : Machine σ) :
    (∀ steps chain, (m.run steps chain M).final.store.effects = M.store.effects →
      m.hostCalls steps chain M = [] ∧ M.store.Unchanged (m.run steps chain M).final.store) ∧
    ∀ fuel index arguments,
      (stateAfter (m.invokeIndex fuel index arguments) M).store.effects = M.store.effects →
      m.invokeCalls fuel index arguments M = [] ∧
        M.store.Unchanged (stateAfter (m.invokeIndex fuel index arguments) M).store := by
  refine ⟨fun steps chain quiet => ⟨run_silent quiet, ?_⟩, fun fuel index arguments quiet =>
    ⟨invokeIndex_silent quiet, ?_⟩⟩
  · have kept := (m.run_changes steps chain M).kept
    exact ⟨kept.memories quiet, kept.globals quiet⟩
  · have changes : M.Changes True (stateAfter (m.invokeIndex fuel index arguments) M) :=
      (m.invokeIndex_changes fuel index arguments).after .refl
    exact ⟨changes.kept.memories quiet, changes.kept.globals quiet⟩

/-- A function calls another one and then itself, which is skipped, and traps. -/
theorem unchanged_of_effects_skipped :
    let again : Function Unit := {
      signature := ⟨[], []⟩
      body := .code ⟨#[0x10, 0x01, 0x10, 0x00, 0x00, 0x0B]⟩ }
    let idle : Function Unit := { signature := ⟨[], []⟩, body := .code ⟨#[0x01, 0x0B]⟩ }
    let m := ({ functions := #[again, idle] } : Module Unit).withJumps {}
    let M : Machine Unit := ⟨{ globals := #[⟨.i32 1, false, none⟩] }, (), #[]⟩
    let act : Activation := {
      index := 0, body := ⟨#[0x10, 0x01, 0x10, 0x00, 0x00, 0x0B]⟩, jumps := {}, frame := ⟨0, 0⟩
      results := [], arguments := #[], effects := 0 }
    ((m.run 5 [act] M).final.notices = #[.repeatedCall 0] ∧ m.hostCalls 5 [act] M = [] ∧
      M.store.Unchanged (m.run 5 [act] M).final.store) ∧
    (stateAfter (m.invokeIndex 5 0 #[]) M).notices = #[.repeatedCall 0] ∧ m.invokeCalls 5 0 #[] M = [] ∧
      M.store.Unchanged (stateAfter (m.invokeIndex 5 0 #[]) M).store := by
  intro again idle m M act
  have ⟨runs, calls⟩ := unchanged_of_effects m M
  exact ⟨⟨by decide +kernel, runs 5 [act] (by decide +kernel)⟩, by decide +kernel, calls 5 0 #[] (by decide +kernel)⟩

end Module
end Wasm
