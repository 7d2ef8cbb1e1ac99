import Wasm.Proofs.Course
import Wasm.Proofs.HostBoundary

/-! Calls that come to an end: by a run of the function's body, by a host function, or by being skipped for repeating the
    caller's own call. In all three cases as many values are taken off the stack as the function has parameters, as many
    are put on it as it has results, and the depth is what it was. -/

namespace Wasm
variable {σ : Type}

open Run

/-- The parameters have been taken off the stack and the results put on it, and the depth is what it was. -/
structure Function.NetEffect (f : Function σ) (M N : Machine σ) : Prop where
  enough : f.signature.params.length ≤ M.store.stack.size
  height : N.store.stack.size = M.store.stack.size - f.signature.params.length + f.signature.results.length
  depth : N.store.depth = M.store.depth

namespace Module
variable {m : Module σ} {f : Function σ} {fuel index callee next offset : Nat} {act : Activation}
  {chain callers : List Activation} {M N F : Machine σ}

/-! ### Runs within runs -/

/-- Where a run of some activations returns, their callers go on. -/
theorem run_callers (returns : m.run fuel chain M = .returned N) (callers : List Activation) :
    ∃ steps, ∀ more, m.run (steps + more) (chain ++ callers) M = m.run more callers N := by
  refine returned_induction
    (motive := fun chain M => ∃ steps, ∀ more, m.run (steps + more) (chain ++ callers) M = m.run more callers N)
    ?_ (fun act others M chain M' step later => ?_) returns
  · exact ⟨0, fun more => by rw [Nat.zero_add, List.nil_append]⟩
  · obtain ⟨new, rfl, alone⟩ := step_append step
    obtain ⟨steps, goesOn⟩ := later
    refine ⟨steps + 1, fun more => ?_⟩
    rw [Nat.add_right_comm, List.cons_append, run_ok (alone _), ← List.append_assoc, goesOn more]

/-- A run that returns has come back to the callers, unless there are none, when the activations above them were over. -/
theorem run_returned (returns : m.run fuel (chain ++ callers) M = .returned F) :
    ∃ steps N rest, m.run steps chain M = .returned N ∧ m.run rest callers N = .returned F := by
  generalize whole : chain ++ callers = all at returns
  induction fuel, all, M using m.run_induction generalizing chain with
  | ended fuel M =>
    obtain ⟨rfl, rfl⟩ := List.append_eq_nil_iff.mp whole
    exact ⟨0, M, fuel, rfl, returns⟩
  | spent act others M => cases returns
  | fails fuel act others M e M' step =>
    rw [run_error step] at returns
    cases returns
  | onward fuel act others M new M' step ih =>
    cases chain with
    -- The activations above are over, and what is left is the run of the callers.
    | nil =>
      obtain rfl : callers = act :: others := whole
      exact ⟨0, M, fuel + 1, rfl, returns⟩
    | cons first rest =>
      obtain ⟨rfl, rfl⟩ := List.cons.inj whole
      rw [run_ok step] at returns
      obtain ⟨new, rfl, alone⟩ := step_append step
      obtain ⟨steps, N, more, inner, outer⟩ := ih (List.append_assoc new rest callers) returns
      exact ⟨steps + 1, N, more, (run_ok (alone rest)).trans inner, outer⟩

/-! ### Calls that complete -/

/-- What has been entered is over: at once, or as its activation has returned. -/
def Completes (m : Module σ) (entry : Run σ (Option Activation)) (M N : Machine σ) : Prop :=
  entry M = .ok none N ∨ ∃ inner M' fuel, entry M = .ok (some inner) M' ∧ m.run fuel [inner] M' = .returned N

/-- A function whose arguments are on top of the stack, from `offset` on. -/
theorem enter_netEffect (top : offset + f.signature.params.length = M.store.stack.size)
    (completes : m.Completes (m.enter f index offset) M N) : f.NetEffect M N := by
  have enough : f.signature.params.length ≤ M.store.stack.size := by omega
  have height : M.store.stack.size - f.signature.params.length = offset := by omega
  rcases completes with entered | ⟨inner, M', fuel, entered, returns⟩
  · obtain ⟨results, whole, inside, types⟩ := enter_results entered
    refine ⟨enough, ?_, enter_depth entered⟩
    rw [height, Stack.size, whole, Array.size_append, Array.size_extract, ← types, Value.length_types]
    omega
  · have deeper : M'.store.depth = M.store.depth + [inner].length := enter_depth entered
    obtain ⟨_, _, -, -, -, -, same, -⟩ := enter_eq_some entered
    have first : Leaves offset f.signature.results.length [inner] M'.store.stack := by
      refine ⟨?_, fun empty => absurd empty (List.cons_ne_nil _ _)⟩
      rintro _ ⟨⟩
      exact ⟨congrArg (·.frame.offset) same, congrArg (·.results.length) same⟩
    refine ⟨enough, ?_, run_depth returns deeper⟩
    rw [height]
    exact run_leaves first returns

theorem callFrom_netEffect (function : m.function callee = .ok f) (completes : m.Completes (m.callFrom act callee) M N) :
    f.NetEffect M N := by
  rcases completes with atOnce | ⟨inner, M', fuel, entered, returns⟩
  · obtain ⟨g, function', skipped | ⟨offset, top, entered⟩⟩ := callFrom_eq_ok atOnce <;>
      obtain rfl := Except.ok.inj (function.symm.trans function')
    · obtain ⟨-, rest, arguments, before, size, depth, after⟩ := skipped
      have sizes := congrArg Array.size before
      have sizes' := congrArg Array.size after
      rw [Array.size_append] at sizes sizes'
      have results : (zeros f.signature.results).size = f.signature.results.length := by
        rw [← Value.length_types, Value.types_zeros]
      refine ⟨?_, ?_, depth⟩ <;> unfold Stack.size <;> omega
    · exact enter_netEffect (by rw [Nat.add_comm]; exact top) (.inl entered)
  · obtain ⟨g, offset, function', top, entered⟩ := callFrom_eq_some entered
    obtain rfl := Except.ok.inj (function.symm.trans function')
    exact enter_netEffect (by rw [Nat.add_comm]; exact top) (.inr ⟨inner, M', fuel, entered, returns⟩)

/-- Where a call completes, the run goes on behind it. -/
theorem Completes.goesOn (completes : m.Completes (m.callFrom { act with pos := next } callee) M N)
    (read : Instr.read act.body act.pos = .ok (.call callee) next) (callers : List Activation) :
    ∃ steps, ∀ more, m.run (steps + more) (act :: callers) M = m.run more ({ act with pos := next } :: callers) N := by
  rcases completes with atOnce | ⟨inner, M', fuel, entered, returns⟩
  · refine ⟨1, fun more => ?_⟩
    rw [Nat.add_comm, run_succ, step_reads_call read]
    exact congrArg _ (bind_ok atOnce)
  · obtain ⟨steps, goesOn⟩ := run_callers returns ({ act with pos := next } :: callers)
    refine ⟨steps + 1, fun more => ?_⟩
    rw [Nat.add_right_comm, run_succ, step_reads_call read, ← goesOn more]
    exact congrArg _ (bind_ok entered)

/-- In a run that returns, all calls complete. -/
theorem completes_of_returned (read : Instr.read act.body act.pos = .ok (.call callee) next)
    (returns : m.run fuel (act :: callers) M = .returned F) : ∃ N rest,
      m.Completes (m.callFrom { act with pos := next } callee) M N ∧
      m.run rest ({ act with pos := next } :: callers) N = .returned F := by
  obtain ⟨more, rfl⟩ := run_final (by rw [returns]; trivial)
  rw [run_succ, step_reads_call read] at returns
  cases called : m.callFrom { act with pos := next } callee M with
  | error e M' =>
    rw [show m.proceed act callers (.call { act with pos := next } callee) M = .error e M' from bind_error called] at returns
    cases returns
  | ok inner M' =>
    rw [show m.proceed act callers (.call { act with pos := next } callee) M = _ from bind_ok called] at returns
    cases inner with
    | none => exact ⟨M', more, .inl called, returns⟩
    | some inner =>
      change m.run more ([inner] ++ { act with pos := next } :: callers) M' = .returned F at returns
      obtain ⟨steps, N, rest, ran, outer⟩ := run_returned returns
      exact ⟨N, rest, .inr ⟨inner, M', steps, called, ran⟩, outer⟩

/-! ### Calls from outside -/

/-- From outside, the results come on top of what is on the stack. -/
theorem invoke_netEffect {name : String} {arguments : Array Value} (h : m.invoke fuel name arguments M = .ok () N) :
    ∃ index f, m.lookup name = .ok index ∧ m.function index = .ok f ∧ arguments.size = f.signature.params.length ∧
      N.store.stack.size = M.store.stack.size + f.signature.results.length ∧ N.store.depth = M.store.depth := by
  cases found : m.lookup name with
  | error e =>
    rw [(lookup_eq_error found fuel arguments).1] at h
    cases h
  | ok index =>
    rw [(lookup_eq_ok found fuel arguments).1] at h
    obtain ⟨f, accepted, -⟩ := invokeIndex_eq_ok.mp h
    obtain ⟨function, count⟩ := accept_eq_ok accepted
    have restores := m.invokeIndex_restores fuel index arguments M
    rw [h] at restores
    exact ⟨index, f, rfl, function, count.symm, invokeIndex_size function h, restores⟩

/-- A call whose results are popped leaves the stack as high as it was. -/
theorem call_netEffect {name : String} {arguments results : Array Value} (h : m.call fuel name arguments M = .ok results N) :
    N.store.stack.size = M.store.stack.size ∧ N.store.depth = M.store.depth := by
  cases found : m.lookup name with
  | error e =>
    rw [(lookup_eq_error found fuel arguments).2] at h
    cases h
  | ok index =>
    cases ended : m.invokeIndex fuel index arguments M with
    | error e N' =>
      rw [call_failed found ended] at h
      cases h
    | ok u N' =>
      obtain ⟨f, accepted, -⟩ := invokeIndex_eq_ok.mp ended
      have raised := invokeIndex_size (accept_eq_ok accepted).1 ended
      have restores := m.invokeIndex_restores fuel index arguments M
      rw [ended] at restores
      rw [call_returned found ended] at h
      cases h
      refine ⟨?_, restores⟩
      rw [Stack.size, Array.size_shrink, Stack.size]
      omega

/-- However a call completes, its net effect is that of the function's signature, and the depth is as before: in a run,
    which goes on behind the call, and from outside, where no call fails for popping the results. -/
theorem calls_netEffect (m : Module σ) :
    (∀ act callee f M N, m.function callee = .ok f → m.Completes (m.callFrom act callee) M N → f.NetEffect M N) ∧
    (∀ act callers callee next M, Instr.read act.body act.pos = .ok (.call callee) next →
      (∀ N, m.Completes (m.callFrom { act with pos := next } callee) M N →
        ∃ steps, ∀ more, m.run (steps + more) (act :: callers) M = m.run more ({ act with pos := next } :: callers) N) ∧
      ∀ fuel F, m.run fuel (act :: callers) M = .returned F → ∃ N rest,
        m.Completes (m.callFrom { act with pos := next } callee) M N ∧
        m.run rest ({ act with pos := next } :: callers) N = .returned F) ∧
    ∀ fuel name arguments M,
      (∀ N, m.invoke fuel name arguments M = .ok () N → ∃ index f, m.lookup name = .ok index ∧ m.function index = .ok f ∧
        arguments.size = f.signature.params.length ∧
        N.store.stack.size = M.store.stack.size + f.signature.results.length ∧ N.store.depth = M.store.depth) ∧
      (∀ e N, m.call fuel name arguments M = .error e N ↔ m.invoke fuel name arguments M = .error e N) ∧
      ∀ results N, m.call fuel name arguments M = .ok results N →
        N.store.stack.size = M.store.stack.size ∧ N.store.depth = M.store.depth := by
  refine ⟨fun act callee f M N function completes => ?_, fun act callers callee next M read => ?_,
    fun fuel name arguments M => ?_⟩
  · exact callFrom_netEffect function completes
  · exact ⟨fun N completes => completes.goesOn read callers, fun fuel F returns => completes_of_returned read returns⟩
  · exact ⟨fun N => invoke_netEffect, fun e N => call_eq_error, fun results N => call_netEffect⟩

/-! ### All ways to complete -/

namespace Ways

/-- A host function that gives its argument twice. -/
def twice : Function Unit := {
  signature := ⟨[.i32], [.i32, .i32]⟩
  body := .host "host" "twice" (some fun vs host => .ok (vs ++ vs) host) }

/-- Calls itself with its own argument, then the host function, and branches out of the function. -/
def body : ByteArray := ⟨#[
  0x20, 0x00, 0x10, 0x01, 0x1A, 0x20, 0x00, 0x10, 0x00, 0x1A, 0x1A, 0x42, 0x07, 0x0C, 0x00, 0x0B]⟩

def branches : Function Unit := { name := some "f", signature := ⟨[.i32], [.i64]⟩, body := .code body }

def module : Module Unit := Module.withJumps { functions := #[twice, branches] } {}

/-- The function at work, called with 5. -/
def caller : Activation := {
  index := 1, body, jumps := {}, frame := ⟨0, 1⟩, results := [.i64], arguments := #[.i32 5], effects := 0 }

/-- The stack holds the caller's frame and its argument once more. -/
def machine : Machine Unit := ⟨{ stack := ⟨#[.i32 5, .i32 5]⟩, depth := 1 }, (), #[]⟩

/-- The stack holds another argument than the caller's own. -/
def other : Machine Unit := { machine with store.stack := ⟨#[.i32 5, .i32 6]⟩ }

theorem runs : ∃ N, module.Completes (module.callFrom caller 1) other N := by
  have ran : (match module.callFrom caller 1 other with
      | .ok (some inner) M => match module.run 9 [inner] M with
        | .returned N => some N.store.stack.values
        | .trapped _ _ => none
        | .unfinished _ => none
      | .ok none _ => none
      | .error _ _ => none) = some #[.i32 5, .i64 7] := by
    decide +kernel
  cases entered : module.callFrom caller 1 other with
  | error e M =>
    rw [entered] at ran
    cases ran
  | ok entry M =>
    rw [entered] at ran
    cases entry with
    | none => cases ran
    | some inner =>
      dsimp only at ran
      cases ended : module.run 9 [inner] M with
      | returned N => exact ⟨N, .inr ⟨inner, M, 9, entered, ended⟩⟩
      | trapped e N =>
        rw [ended] at ran
        cases ran
      | unfinished N =>
        rw [ended] at ran
        cases ran

theorem called : ∃ N, module.call 9 "f" #[.i32 5] machine = .ok #[.i64 7] N := by
  have ran : (match module.call 9 "f" #[.i32 5] machine with
      | .ok results _ => some results
      | .error _ _ => none) = some #[.i64 7] := by
    decide +kernel
  split at ran
  · rename_i results N returned
    cases ran
    exact ⟨N, returned⟩
  · cases ran

end Ways

/-- A call that is skipped, one of a host function, one that is run, and one from outside. -/
theorem calls_netEffect_ways :
    (∃ N, Ways.module.callFrom Ways.caller 1 Ways.machine = .ok none N ∧ Ways.branches.NetEffect Ways.machine N) ∧
    (∃ N, Ways.module.callFrom Ways.caller 0 Ways.machine = .ok none N ∧ Ways.twice.NetEffect Ways.machine N) ∧
    (∃ N, Ways.module.Completes (Ways.module.callFrom Ways.caller 1) Ways.other N ∧ Ways.branches.NetEffect Ways.other N) ∧
    ∃ N, Ways.module.call 9 "f" #[.i32 5] Ways.machine = .ok #[.i64 7] N ∧ N.store.stack.size = 2 ∧ N.store.depth = 1 := by
  obtain ⟨effect, -, outside⟩ := calls_netEffect Ways.module
  have skipped : Ways.module.callFrom Ways.caller 1 Ways.machine = .ok none
      { Ways.machine with store.stack := ⟨#[.i32 5, .i64 0]⟩, notices := #[.repeatedCall 1] } := rfl
  have hosted : Ways.module.callFrom Ways.caller 0 Ways.machine = .ok none
      { Ways.machine with store.stack := ⟨#[.i32 5, .i32 5, .i32 5]⟩, store.effects := 1 } := rfl
  obtain ⟨N, completes⟩ := Ways.runs
  obtain ⟨O, called⟩ := Ways.called
  exact ⟨⟨_, skipped, effect _ _ _ _ _ rfl (.inl skipped)⟩, ⟨_, hosted, effect _ _ _ _ _ rfl (.inl hosted)⟩,
    ⟨N, completes, effect _ _ _ _ _ rfl completes⟩, O, called, (outside _ _ _ _).2.2 _ _ called⟩

end Module
end Wasm
