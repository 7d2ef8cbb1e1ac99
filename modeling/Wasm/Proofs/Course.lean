import Wasm.Proofs.Transparency

/-! The course of runs, and of calls from outside. Whatever they come to, what they do to a machine is a sequence of
    changes, and the depth goes with the number of activations. -/

namespace Wasm
variable {σ α : Type}

open Run

/-- The machine that a run ends with, however it ends. -/
def Outcome.final : Outcome σ → Machine σ
  | returned M => M
  | trapped _ M => M
  | unfinished M => M

/-- There are no more activations than there may be. -/
def Machine.Within (M : Machine σ) : Prop := M.store.depth ≤ M.store.options.maxCallDepth

theorem Machine.Changes.depth {M N : Machine σ} (h : M.Changes False N) : N.store.depth = M.store.depth := by
  induction h with
  | refl => rfl
  | tail _ change ih =>
    refine Eq.trans ?_ ih
    cases change with
    | store change => cases change <;> rfl
    | notice n => rfl
    | depth _ called => exact called.elim
    | host _ called => exact called.elim

theorem Machine.Within.changed {M N : Machine σ} (h : M.Within) (changes : M.Changes False N) : N.Within := by
  unfold Machine.Within at *
  rwa [changes.depth, changes.kept.options]

/-- Nothing goes deeper than the limit allows. -/
theorem Run.Built.within {calls : Prop} {op : Run σ α} (h : Built calls op) : Maintains Machine.Within op := by
  have unchanged : ∀ {α : Type} {op : Run σ α}, Built False op → Maintains Machine.Within op := fun built =>
    .of_cases (fun M _ N within done => within.changed (built.changes.ok .refl done))
      fun M _ N within failed => within.changed (built.changes.error .refl failed)
  induction h with
  | pure a => exact .pure a
  | throw e => exact .throw e
  | bind _ _ first second => exact first.bind second
  | look _ _ then_ => exact .bind (fun _ within => within) then_
  | onStore built => exact unchanged (.onStore built)
  | notify n => exact unchanged (.notify n)
  | deepen index _ _ _ then_ =>
    intro M within
    by_cases deep : M.store.options.maxCallDepth ≤ M.store.depth
    · rw [bind_ok (store_eq M), if_pos deep]
      exact within
    · rw [bind_ok (store_eq M), if_neg deep]
      refine then_ M.store { M with store.depth := M.store.depth + 1 } ?_
      unfold Machine.Within
      dsimp only
      omega
  | leaveDepth _ => exact fun M within => Nat.le_trans (Nat.sub_le _ _) within
  | callHost f arguments _ =>
    refine .of_cases (fun M results N within done => ?_) fun M e N within failed => ?_
    · obtain ⟨host, -, rfl⟩ := callHost_eq_ok.mp done
      exact within
    · obtain ⟨host, -, rfl⟩ := callHost_eq_error.mp failed
      exact within

/-- The operation leaves the depth as it was, whether it fails or not. Only one that is not over may leave it deeper. -/
def Restores (op : Session σ α) : Prop := ∀ M, match op M with
  | .ok _ N => N.store.depth = M.store.depth
  | .error failure N => failure = .unfinished ∨ N.store.depth = M.store.depth

namespace Restores
variable {β : Type}

theorem pure (a : α) : Restores (Pure.pure a : Session σ α) := fun _ => rfl

theorem ofExcept (x : Except Failure α) : Restores (MonadExcept.ofExcept x : Session σ α) := fun _ => by
  cases x with
  | ok a => exact rfl
  | error e => exact .inr rfl

theorem bind {x : Session σ α} {k : α → Session σ β} (hx : Restores x) (hk : ∀ a, Restores (k a)) :
    Restores (x >>= k) := by
  intro M
  have first := hx M
  cases done : x M with
  | error e N =>
    rw [done] at first
    rw [bind_error done]
    exact first
  | ok a N =>
    rw [done] at first
    rw [bind_ok done]
    have second := hk a N
    rwa [first] at second

theorem discard {x : Session σ α} (h : Restores x) : Restores (Functor.discard x) := by
  rw [discard_eq_bind]
  exact h.bind fun _ => .pure _

end Restores

namespace Module
variable {m : Module σ} {f : Function σ} {act : Activation} {callers chain chain' : List Activation} {M N : Machine σ}
  {index fuel base : Nat} {arguments : Array Value}

/-! ### Runs -/

/-- What every step maintains, a run maintains. -/
theorem run_maintains {I : Machine σ → Prop} (step : ∀ act callers, Maintains I (m.step act callers)) (h : I M) :
    I (m.run fuel chain M).final := by
  induction fuel, chain, M using m.run_induction with
  | ended fuel M =>
    rw [run_nil]
    exact h
  | spent act callers M => exact h
  | fails fuel act callers M e N stepped =>
    rw [run_error stepped]
    exact (step act callers).error h stepped
  | onward fuel act callers M chain N stepped ih =>
    rw [run_ok stepped]
    exact ih ((step act callers).ok h stepped)

theorem run_changes (m : Module σ) (fuel : Nat) (chain : List Activation) (M : Machine σ) :
    M.Changes True (m.run fuel chain M).final :=
  run_maintains (fun act callers => (m.step_built act callers).changes) .refl

theorem starts_built (m : Module σ) (f : Function σ) (index : Nat) (arguments : Array Value) :
    Built True (m.starts f index arguments) :=
  .look (k := fun s => Run.onStack (Stack.pushMany arguments) >>= fun _ => m.enter f index s.stack.size)
    (fun s => (Built.onStack _).bind fun _ => m.enter_built f index s.stack.size) fun _ _ => rfl

theorem runToEnd_changes (m : Module σ) (fuel : Nat) (f : Function σ) (index : Nat) (arguments : Array Value)
    (M : Machine σ) : M.Changes True (m.runToEnd fuel f index arguments M).final := by
  rw [runToEnd_eq]
  cases begun : m.starts f index arguments M with
  | error e N => exact (m.starts_built f index arguments).changes.error .refl begun
  | ok r N =>
    have started := (m.starts_built f index arguments).changes.ok .refl begun
    cases r with
    | none => exact started
    | some act => exact started.trans (m.run_changes fuel [act] N)

/-- A call from outside ends as its run does, and puts the height of the stack and the depth back after a trap. -/
theorem runToEnd_restored (accepted : m.accept index arguments = .ok f) :
    (m.runToEnd fuel f index arguments M).final.Changes True (stateAfter (m.invokeIndex fuel index arguments) M) := by
  unfold stateAfter invokeIndex
  rw [accepted]
  dsimp only
  cases m.runToEnd fuel f index arguments M with
  | returned N => exact .refl
  | trapped e N => exact (Relation.ReflTransGen.single (.store (.stack _))).tail (.depth _ trivial)
  | unfinished N => exact .refl

theorem invokeIndex_changes (m : Module σ) (fuel index : Nat) (arguments : Array Value) {l : Machine σ} :
    Maintains (l.Changes True) (m.invokeIndex fuel index arguments) := by
  refine .of_after fun M before => ?_
  cases accepted : m.accept index arguments with
  | error e =>
    rw [stateAfter_error (invokeIndex_refused accepted fuel)]
    exact before
  | ok f => exact (before.trans (m.runToEnd_changes fuel f index arguments M)).trans (runToEnd_restored accepted)

/-! ### Activations -/

theorem enter_depth {offset : Nat} {r : Option Activation} (h : m.enter f index offset M = .ok r N) :
    N.store.depth = M.store.depth + r.toList.length := by
  cases r with
  | none =>
    obtain ⟨_, _, _, _, _, _, _, -, -, -, -, -, -, -, rfl⟩ := enter_eq_none h
    rfl
  | some act =>
    obtain ⟨_, _, -, -, -, -, -, rfl⟩ := enter_eq_some h
    rfl

theorem starts_depth {r : Option Activation} (h : m.starts f index arguments M = .ok r N) :
    N.store.depth = M.store.depth + r.toList.length := by
  rw [starts_eq] at h
  have deeper := enter_depth h
  exact deeper

theorem callFrom_depth {callee : Nat} {r : Option Activation} (h : m.callFrom act callee M = .ok r N) :
    N.store.depth = M.store.depth + r.toList.length := by
  obtain ⟨f, -, ⟨rfl, _, _, -, -, depth, -⟩ | ⟨offset, -, entered⟩⟩ := callFrom_eq_ok h
  · exact depth
  · exact enter_depth entered

/-- There is one activation more or less where the depth is one more or less. -/
theorem step_depth (h : m.step act callers M = .ok chain N) (counted : M.store.depth = base + (act :: callers).length) :
    N.store.depth = base + chain.length := by
  rw [step_eq] at h
  obtain ⟨flow, M₁, ran, proceeded⟩ := bind_eq_ok.mp h
  have same : M₁.store.depth = base + (callers.length + 1) := by
    rw [((act.step_built m.types).changes.ok .refl ran).depth]
    exact counted
  cases flow with
  | next act =>
    cases proceeded
    exact same
  | ret =>
    obtain ⟨_, M₂, left, returned⟩ := bind_eq_ok.mp proceeded
    obtain ⟨-, rfl⟩ := leave_eq_ok.mp left
    cases returned
    dsimp only
    omega
  | call act callee =>
    obtain ⟨r, M₂, called, returned⟩ := bind_eq_ok.mp proceeded
    have deeper := callFrom_depth called
    cases r with
    | none =>
      cases returned
      exact deeper.trans same
    | some inner =>
      cases returned
      rw [deeper, same]
      simp
      omega

theorem visits_depth (visits : m.Visits chain M chain' N) (counted : M.store.depth = base + chain.length) :
    N.store.depth = base + chain'.length := by
  induction visits with
  | here => exact counted
  | onward stepped _ ih => exact ih (step_depth stepped counted)

theorem visits_changes (visits : m.Visits chain M chain' N) : M.Changes True N := by
  induction visits with
  | here => exact .refl
  | onward stepped _ ih => exact ((m.step_built _ _).changes.ok .refl stepped).trans ih

theorem visits_within (visits : m.Visits chain M chain' N) (within : M.Within) : N.Within := by
  induction visits with
  | here => exact within
  | onward stepped _ ih => exact ih ((m.step_built _ _).within.ok within stepped)

/-- A run that returns has left all its activations. -/
theorem run_depth (returns : m.run fuel chain M = .returned N) (counted : M.store.depth = base + chain.length) :
    N.store.depth = base := by
  revert counted
  refine returned_induction (motive := fun chain M => M.store.depth = base + chain.length → _) ?_ ?_ returns
  · exact fun counted => counted
  · exact fun act callers M chain M' stepped ih counted => ih (step_depth stepped counted)

theorem invokeIndex_restores (m : Module σ) (fuel index : Nat) (arguments : Array Value) :
    Restores (m.invokeIndex fuel index arguments) := by
  intro M
  unfold invokeIndex
  cases m.accept index arguments with
  | error e => exact .inr rfl
  | ok f =>
    dsimp only
    rw [runToEnd_eq]
    cases begun : m.starts f index arguments M with
    | error e N => exact .inr rfl
    | ok r N =>
      have deeper := starts_depth begun
      cases r with
      | none => exact deeper
      | some act =>
        dsimp only
        cases ended : m.run fuel [act] N with
        | returned F => exact run_depth ended deeper
        | trapped e F => exact .inr rfl
        | unfinished F => exact .inl rfl

end Module
end Wasm
