import Wasm.Proofs.Soundness
import Wasm.Proofs.Labels

/-! The net effect of calls on the height of the stack: the arguments are taken, and as many values as there are results
    are left, whatever a body does in between. -/

namespace Wasm
variable {σ : Type}

open Run

/-- The values of some types, as they are found where their types are checked. -/
theorem Value.types_of_checked {vs : Array Value} {ts : List ValType} (size : vs.size = ts.length)
    (found : (vs.toList.zip ts).find? (fun (v, t) => v.type ≠ t) = none) : Value.types vs = ts := by
  rw [List.find?_eq_none] at found
  refine List.ext_getElem (by simpa using size) fun i inside inside' => ?_
  rw [length_types] at inside
  have pair : (vs[i], ts[i]) ∈ vs.toList.zip ts :=
    List.mem_iff_getElem.mpr ⟨i, by simpa using Nat.lt_min.mpr ⟨inside, inside'⟩, by simp⟩
  simpa [types] using found _ pair

theorem checkResults_eq_ok {declared : List ValType} {results : Array Value} :
    checkResults declared results = .ok () ↔ Value.types results = declared := by
  refine ⟨fun h => ?_, Module.checkResults_ok⟩
  unfold checkResults at h
  split at h
  · cases h
  · rename_i size
    split at h
    · cases h
    · exact Value.types_of_checked (Decidable.not_not.mp size) ‹_›

namespace Module
variable {m : Module σ} {f : Function σ} {index fuel offset arity : Nat} {arguments : Array Value} {act : Activation}
  {callers chain : List Activation} {M N : Machine σ}

/-- The arguments that are accepted have the types of the parameters. -/
theorem accept_types (h : m.accept index arguments = .ok f) : Value.types arguments = f.signature.params := by
  obtain ⟨function, count⟩ := accept_eq_ok h
  unfold accept at h
  rw [function] at h
  simp only [bind, Except.bind, pure, Except.pure, throw, throwThe, MonadExceptOf.throw] at h
  rw [if_neg (not_not.mpr count)] at h
  split at h
  · cases h
  · exact Value.types_of_checked count.symm ‹_›

/-- A host function that has been called leaves results of the declared types where its arguments were. -/
theorem enter_results (h : m.enter f index offset M = .ok none N) : ∃ results,
    N.store.stack.values = M.store.stack.values.extract 0 offset ++ results ∧ offset ≤ M.store.stack.values.size ∧
      Value.types results = f.signature.results := by
  obtain ⟨_, _, _, below, taken, results, _, -, -, enough, whole, size, -, checked, rfl⟩ := enter_eq_none h
  have inside : offset ≤ below.size := by
    have := congrArg Array.size whole
    rw [Array.size_append] at this
    omega
  refine ⟨results, ?_, by omega, checkResults_eq_ok.mp checked⟩
  have rest : taken.extract (0 - below.size) (offset - below.size) = #[] := by
    rw [Nat.sub_eq_zero_of_le inside]
    simp
  rw [whole, Array.extract_append, rest, Array.append_empty]
  simp [Array.shrink_eq_take]

/-- The outermost of some activations will leave so many results above a height, or has left them. -/
structure Leaves (offset arity : Nat) (chain : List Activation) (s : Stack) : Prop where
  outermost : ∀ act, chain.getLast? = some act → act.frame.offset = offset ∧ act.results.length = arity
  ended : chain = [] → s.values.size = offset + arity

variable {s t : Stack}

/-- It does not matter where an activation is, nor in which constructs. -/
theorem Leaves.moved {pos : Nat} {labels : List Label} (h : Leaves offset arity (act :: callers) s) :
    Leaves offset arity ({ act with pos, labels } :: callers) t := by
  refine ⟨fun a last => ?_, nofun⟩
  cases callers with
  | nil =>
    cases last
    exact h.outermost act rfl
  | cons caller callers => exact h.outermost a last

theorem Leaves.called {inner : Activation} (h : Leaves offset arity (act :: callers) s) :
    Leaves offset arity (inner :: act :: callers) s :=
  ⟨h.outermost, nofun⟩

/-- An activation that is over leaves its results in place of its frame. -/
theorem Leaves.returned (h : Leaves offset arity (act :: callers) s) (left : leave act M = .ok () N) :
    Leaves offset arity callers N.store.stack := by
  obtain ⟨enough, rfl⟩ := leave_eq_ok.mp left
  cases callers with
  | nil =>
    obtain ⟨rfl, rfl⟩ := h.outermost act rfl
    refine ⟨nofun, fun _ => ?_⟩
    simp
    omega
  | cons caller callers => exact ⟨h.outermost, nofun⟩

theorem step_leaves (h : Leaves offset arity (act :: callers) M.store.stack) (step : m.step act callers M = .ok chain N) :
    Leaves offset arity chain N.store.stack := by
  rw [step_eq] at step
  obtain ⟨flow, M₁, ran, proceeded⟩ := bind_eq_ok.mp step
  obtain ⟨i, next, -, -, flows⟩ := Activation.step_flowsOn ran
  cases flow with
  | next a =>
    obtain ⟨pos, labels, rfl⟩ := Activation.GoesOn.same flows
    cases proceeded
    exact h.moved
  | ret =>
    obtain ⟨_, M₂, left, done⟩ := bind_eq_ok.mp proceeded
    cases done
    exact h.returned left
  | call a callee =>
    obtain ⟨-, rfl, -⟩ := flows
    obtain ⟨r, M₂, called, done⟩ := bind_eq_ok.mp proceeded
    cases r with
    | none =>
      cases done
      exact h.moved
    | some inner =>
      cases done
      exact h.moved.called

/-- A run that returns has left the results of its outermost activation in place of the frame of that one. -/
theorem run_leaves (h : Leaves offset arity chain M.store.stack) (returns : m.run fuel chain M = .returned N) :
    N.store.stack.values.size = offset + arity := by
  revert h
  refine returned_induction (motive := fun chain M => Leaves offset arity chain M.store.stack → _) ?_ ?_ returns
  · exact fun h => h.ended rfl
  · exact fun act callers M chain M' stepped ih h => ih (step_leaves h stepped)

/-- A call from outside that returns has put as many values on the stack as the function has results. -/
theorem invokeIndex_size (function : m.function index = .ok f) (returns : m.invokeIndex fuel index arguments M = .ok () N) :
    N.store.stack.values.size = M.store.stack.values.size + f.signature.results.length := by
  obtain ⟨g, accepted, how⟩ := invokeIndex_eq_ok.mp returns
  obtain rfl := Except.ok.inj (function.symm.trans (accept_eq_ok accepted).1)
  rcases how with begun | ⟨act, N', begun, ran⟩
  · obtain ⟨results, whole, -, types⟩ := enter_results (starts_eq m _ _ _ _ ▸ begun)
    rw [whole, Array.size_append, ← types, Value.length_types]
    simp [Stack.size]
  · obtain ⟨_, _, -, -, -, -, same, -⟩ := enter_eq_some (starts_eq m _ _ _ _ ▸ begun)
    have first : Leaves M.store.stack.size f.signature.results.length [act] N'.store.stack := by
      refine ⟨?_, fun none => absurd none (List.cons_ne_nil _ _)⟩
      rintro _ ⟨⟩
      exact ⟨congrArg (·.frame.offset) same, congrArg (·.results.length) same⟩
    exact run_leaves first ran

/-! ### Calls of exports -/

variable {name : String}

theorem lookup_eq_error {name : String} {e : Failure} (h : m.lookup name = .error e) (fuel : Nat) (arguments : Array Value) :
    m.invoke fuel name arguments M = .error e M ∧ m.call fuel name arguments M = .error e M := by
  unfold invoke call
  rw [h]
  exact ⟨rfl, rfl⟩

theorem lookup_eq_ok {name : String} {index : Nat} (h : m.lookup name = .ok index) (fuel : Nat) (arguments : Array Value) :
    m.invoke fuel name arguments M = m.invokeIndex fuel index arguments M ∧
      m.call fuel name arguments M = (do
        m.invokeIndex fuel index arguments
        onStack (Stack.popMany ((m.functions[index]?.map fun f : Function σ => f.signature.results.length).getD 0))) M := by
  unfold invoke call
  rw [h]
  exact ⟨rfl, rfl⟩

/-- The results of a call that returns are popped, and what is below them stays. -/
theorem call_returned (found : m.lookup name = .ok index) (returned : m.invokeIndex fuel index arguments M = .ok () N) :
    m.call fuel name arguments M = .ok (N.store.stack.values.extract M.store.stack.values.size N.store.stack.values.size)
      { N with store.stack := ⟨N.store.stack.values.shrink M.store.stack.values.size⟩ } := by
  obtain ⟨f, accepted, -⟩ := invokeIndex_eq_ok.mp returned
  have function := (accept_eq_ok accepted).1
  have raised := invokeIndex_size function returned
  have height : N.store.stack.values.size - f.signature.results.length = M.store.stack.values.size := by omega
  have popped := Stack.popMany_of_le (s := N.store.stack) (n := f.signature.results.length) (by omega)
  rw [height] at popped
  rw [(lookup_eq_ok found fuel arguments).2, bind_ok returned, function_eq_ok.mp function, Option.map_some, Option.getD_some]
  unfold onStack
  rw [Run.onStack_eq_ok.mpr ⟨_, popped, rfl⟩]

theorem call_failed {e : Failure} (found : m.lookup name = .ok index)
    (failed : m.invokeIndex fuel index arguments M = .error e N) : m.call fuel name arguments M = .error e N := by
  rw [(lookup_eq_ok found fuel arguments).2, bind_error failed]

/-- A call from outside fails only as its run does. -/
theorem call_eq_error {e : Failure} :
    m.call fuel name arguments M = .error e N ↔ m.invoke fuel name arguments M = .error e N := by
  cases found : m.lookup name with
  | error e' =>
    obtain ⟨invoked, called⟩ := lookup_eq_error found fuel arguments (M := M)
    rw [invoked, called]
    constructor <;> (intro h; cases h; rfl)
  | ok index =>
    rw [(lookup_eq_ok found fuel arguments).1]
    cases ended : m.invokeIndex fuel index arguments M with
    | error e' N' =>
      rw [call_failed found ended]
      constructor <;> (intro h; cases h; rfl)
    | ok u N' =>
      rw [call_returned found ended]
      constructor <;> nofun

end Module
end Wasm
