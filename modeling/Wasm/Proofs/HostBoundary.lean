import Wasm.Proofs.CheckedHosts
import Wasm.Proofs.RoundTrip

/-! Values that cross the boundary to the host: how many they are, and of which types. -/

namespace Wasm
variable {σ : Type}

open Run

/-- The host function gets as many arguments as it has parameters. -/
def HostCall.Counted (m : Module σ) (call : HostCall) : Prop :=
  ∃ f, m.function call.function = .ok f ∧ call.arguments.size = f.signature.params.length

/-- The host supplies the function. -/
def Function.IsHost (f : Function σ) : Prop := ∃ moduleName name function, f.body = .host moduleName name (some function)

namespace Module
variable {m : Module σ} {f : Function σ} {index fuel : Nat} {name : String} {arguments : Array Value} {act : Activation}
  {chain : List Activation} {M M' N : Machine σ}

/-! ### How many values -/

theorem entered_counted (function : m.function index = .ok f) (offset : Nat) (s : Store) :
    ∀ call ∈ f.hostCalls index offset s, call.Counted m := by
  intro call member
  unfold Function.hostCalls at member
  split at member
  · dsimp only at member
    split at member
    · rename_i enough
      rw [List.mem_singleton.mp member]
      refine ⟨f, function, ?_⟩
      have room : offset + f.signature.params.length ≤ s.stack.values.size := enough.2
      unfold Stack.size
      rw [Array.size_extract]
      omega
    · cases member
  · cases member

theorem stepped_counted (act : Activation) (s : Store) : ∀ call ∈ act.hostCalls m s, call.Counted m := by
  unfold Activation.hostCalls
  split
  · split
    · rename_i f function
      dsimp only
      split
      · exact entered_counted function _ s
      · exact nofun
    · exact nofun
  · exact nofun

theorem hostCalls_counted (fuel : Nat) (chain : List Activation) (M : Machine σ) :
    ∀ call ∈ m.hostCalls fuel chain M, call.Counted m := by
  induction fuel generalizing chain M with
  | zero => cases chain <;> exact nofun
  | succ fuel ih =>
    cases chain with
    | nil => exact nofun
    | cons act callers =>
      intro call member
      rw [hostCalls] at member
      rcases List.mem_append.mp member with here | later
      · exact stepped_counted act M.store call here
      · cases stepped : m.step act callers M with
        | ok chain N =>
          rw [stepped] at later
          exact ih chain N call later
        | error e N =>
          rw [stepped] at later
          cases later

theorem invokeCalls_counted (fuel index : Nat) (arguments : Array Value) (M : Machine σ) :
    ∀ call ∈ m.invokeCalls fuel index arguments M, call.Counted m := by
  intro call member
  obtain ⟨f, accepted, first | ⟨act, N, -, later⟩⟩ := mem_invokeCalls member
  · exact entered_counted (accept_eq_ok accepted).1 _ _ call first
  · exact hostCalls_counted _ _ _ call later

/-! ### Of which types -/

/-- Where all bodies are valid, the results and the arguments of host functions have the declared types, whatever the
    host functions give. -/
theorem invokeIndex_typed (tabled : m.Tabled) (valid : m.Valid M.store.shape) (reached : m.Reaches M M')
    (accepted : m.accept index arguments = .ok f) (fuel : Nat) :
    (∀ N, m.invokeIndex fuel index arguments M' = .ok () N → ∃ results, Value.types results = f.signature.results ∧
      N.store.stack.values = M'.store.stack.values ++ results) ∧
    ∀ call ∈ m.invokeCalls fuel index arguments M', call.Typed m := by
  -- The host functions are taken to check their results themselves, which makes no difference.
  have tabled := m.checked_tabled tabled
  have hosts := m.checked_hostsTyped
  have valid := m.checked_valid valid
  have typed := accept_types accepted
  rw [← Function.checked_signature] at typed ⊢
  have function : m.checked.function index = .ok f.checked :=
    m.function_checked_eq_ok.mpr ⟨f, (accept_eq_ok accepted).1, rfl⟩
  have started := starts_typed tabled hosts valid function typed reached.checked.declared
  have accepted' : m.checked.accept index arguments = .ok f.checked := by
    rw [accept_checked, accepted]
    rfl
  rw [← invokeIndex_checked, ← invokeCalls_checked]
  refine ⟨fun N returns => ?_, fun call member => m.typed_checked.mp ?_⟩
  · obtain ⟨g, again, begun⟩ := invokeIndex_eq_ok.mp returns
    obtain rfl := Except.ok.inj (accepted'.symm.trans again)
    rcases begun with begun | ⟨act, N', begun, ran⟩
    · rw [begun] at started
      exact started
    · rw [begun] at started
      have ends := (Sound.run tabled hosts valid started fuel).1
      rw [ran] at ends
      exact ends.ended
  -- The host is called by the function itself, or by a step of its run.
  · obtain ⟨g, again, first | ⟨act, N, begun, later⟩⟩ := mem_invokeCalls member <;>
      obtain rfl := Except.ok.inj (accepted'.symm.trans again)
    · have holds : Stack.Holds M'.store.stack.values ([] ++ f.checked.signature.params)
          ⟨M'.store.stack.values ++ arguments⟩ := ⟨arguments, rfl, typed⟩
      exact Module.hostCalls_typed function _ holds call first
    · rw [begun] at started
      exact (Sound.run tabled hosts valid started fuel).2 call later

/-- A call of a function that the host supplies gives results of the declared types. -/
theorem invokeIndex_host (function : m.function index = .ok f) (host : f.IsHost)
    (returns : m.invokeIndex fuel index arguments M = .ok () N) : ∃ results,
      Value.types results = f.signature.results ∧ N.store.stack.values = M.store.stack.values ++ results := by
  obtain ⟨g, accepted, how⟩ := invokeIndex_eq_ok.mp returns
  obtain rfl := Except.ok.inj (function.symm.trans (accept_eq_ok accepted).1)
  obtain ⟨moduleName, name, function, body⟩ := host
  rcases how with begun | ⟨act, N', begun, -⟩
  · obtain ⟨results, whole, -, types⟩ := enter_results (starts_eq m _ _ _ _ ▸ begun)
    exact ⟨results, types, by rw [whole]; simp [Stack.size]⟩
  · obtain ⟨_, _, code, -⟩ := enter_eq_some (starts_eq m _ _ _ _ ▸ begun)
    rw [body] at code
    cases code

/-- The one call of a host function that is called from outside. -/
theorem invokeCalls_host (function : m.function index = .ok f) (host : f.IsHost) :
    ∀ call ∈ m.invokeCalls fuel index arguments M, call.Typed m := by
  intro call member
  obtain ⟨g, accepted, first | ⟨act, N, begun, -⟩⟩ := mem_invokeCalls member <;>
    obtain rfl := Except.ok.inj (function.symm.trans (accept_eq_ok accepted).1)
  · have holds : Stack.Holds M.store.stack.values ([] ++ f.signature.params) ⟨M.store.stack.values ++ arguments⟩ :=
      ⟨arguments, rfl, accept_types accepted⟩
    exact Module.hostCalls_typed function _ holds call first
  · obtain ⟨_, _, code, -⟩ := enter_eq_some (starts_eq m _ _ _ _ ▸ begun)
    obtain ⟨_, _, _, body⟩ := host
    rw [body] at code
    cases code

/-- A call that returns pops the results that its run has left. -/
theorem call_eq_ok {results : Array Value} (found : m.lookup name = .ok index) (function : m.function index = .ok f)
    (h : m.call fuel name arguments M = .ok results N) : ∃ N', m.invokeIndex fuel index arguments M = .ok () N' ∧
      N'.store.stack.values = N.store.stack.values ++ results ∧ results.size = f.signature.results.length := by
  cases ended : m.invokeIndex fuel index arguments M with
  | error e N' =>
    rw [call_failed found ended] at h
    cases h
  | ok u N' =>
    have raised := invokeIndex_size function ended
    rw [call_returned found ended] at h
    cases h
    refine ⟨N', rfl, ?_, by rw [Array.size_extract]; omega⟩
    rw [Array.shrink_eq_take, Array.take_eq_extract, Array.extract_append_extract, Nat.min_eq_left (Nat.zero_le _),
      Nat.max_eq_right (by omega), Array.extract_size]

/-- The results that a run has left on what was there before are those that its call gives. -/
theorem call_types {results : Array Value} (found : m.lookup name = .ok index) (function : m.function index = .ok f)
    (h : m.call fuel name arguments M = .ok results N)
    (typed : ∀ N', m.invokeIndex fuel index arguments M = .ok () N' → ∃ results,
      Value.types results = f.signature.results ∧ N'.store.stack.values = M.store.stack.values ++ results) :
    Value.types results = f.signature.results := by
  obtain ⟨N', returned, whole, size⟩ := call_eq_ok found function h
  obtain ⟨left, types, whole'⟩ := typed N' returned
  have same : N.store.stack.values ++ results = M.store.stack.values ++ left := whole.symm.trans whole'
  have length : left.size = f.signature.results.length := by rw [← types, Value.length_types]
  rw [← types, (Array.append_inj' same (by omega)).2]

/-- The host gets as many results as an exported function declares, and host functions get as many arguments as they
    declare, whatever bodies do. Arguments from outside, and results of host functions, are of the declared types. Where
    all bodies are valid, so are results and arguments that come from bodies. -/
theorem call_boundary {bytes : ByteArray} {options : Options} {resolve : Resolver σ} {l : Loading σ}
    (decoded : decode bytes options resolve = .ok () l) (fuel : Nat) (name : String) (arguments : Array Value)
    (M : Machine σ) :
    (∀ index f, l.module.lookup name = .ok index → l.module.function index = .ok f →
      (∀ N, l.module.invoke fuel name arguments M = .ok () N → Value.types arguments = f.signature.params ∧
        N.store.stack.values.size = M.store.stack.values.size + f.signature.results.length) ∧
      (∀ results N, l.module.call fuel name arguments M = .ok results N → Value.types arguments = f.signature.params ∧
        results.size = f.signature.results.length ∧ (f.IsHost → Value.types results = f.signature.results)) ∧
      (f.IsHost → ∀ call ∈ l.module.invokeCalls fuel index arguments M, call.Typed l.module)) ∧
    (∀ index, ∀ call ∈ l.module.invokeCalls fuel index arguments M, call.Counted l.module) ∧
    (∀ index f offset N O, l.module.function index = .ok f → l.module.enter f index offset N = .ok none O → ∃ results,
      O.store.stack.values = N.store.stack.values.extract 0 offset ++ results ∧
        Value.types results = f.signature.results) ∧
    (l.module.Valid l.store.shape → ∀ host notices, l.module.Reaches ⟨l.store, host, notices⟩ M →
      (∀ index f results N, l.module.lookup name = .ok index → l.module.function index = .ok f →
        l.module.call fuel name arguments M = .ok results N → Value.types results = f.signature.results) ∧
      ∀ index, ∀ call ∈ l.module.invokeCalls fuel index arguments M, call.Typed l.module) := by
  have accepted {index f N} (function : l.module.function index = .ok f)
      (returned : l.module.invokeIndex fuel index arguments M = .ok () N) :
      l.module.accept index arguments = .ok f := by
    obtain ⟨g, accepted, -⟩ := invokeIndex_eq_ok.mp returned
    obtain rfl := Except.ok.inj (function.symm.trans (accept_eq_ok accepted).1)
    exact accepted
  refine ⟨fun index f found function => ⟨fun N returned => ?_, fun results N called => ?_, invokeCalls_host function⟩,
    fun index => invokeCalls_counted fuel index arguments M, fun index f offset N O function entered => ?_,
    fun valid host notices reached => ⟨fun index f results N found function called => ?_, fun index call member => ?_⟩⟩
  · rw [(lookup_eq_ok found fuel arguments).1] at returned
    exact ⟨accept_types (accepted function returned), invokeIndex_size function returned⟩
  · obtain ⟨N', returned, -, size⟩ := call_eq_ok found function called
    exact ⟨accept_types (accepted function returned), size,
      fun host => call_types found function called fun N' => invokeIndex_host function host⟩
  · obtain ⟨results, whole, -, types⟩ := enter_results entered
    exact ⟨results, whole, types⟩
  -- The jump tables have been built with the module, so that no valid body fails for the want of one.
  all_goals
    obtain ⟨sections, -, -, -, gives⟩ := decode_sound decoded
    have tabled : l.module.Tabled := gives.module ▸ withJumps_tabled _ _
  · obtain ⟨N', returned, -, -⟩ := call_eq_ok found function called
    exact call_types found function called
      (invokeIndex_typed tabled valid reached (accepted function returned) fuel).1
  · cases refused : l.module.accept index arguments with
    | ok f => exact (invokeIndex_typed tabled valid reached refused fuel).2 call member
    | error e =>
      unfold invokeCalls at member
      rw [refused] at member
      cases member

/-! ### Bodies that are not valid -/

namespace Mistyped

/-- A function that is to give a 32-bit integer, and gives a 64-bit one, as it does to a host function before. -/
def bytes : ByteArray := ⟨#[
  0x00, 0x61, 0x73, 0x6D, 0x01, 0x00, 0x00, 0x00, 0x01, 0x09, 0x02, 0x60, 0x01, 0x7F, 0x00, 0x60, 0x00, 0x01, 0x7F,
  0x02, 0x07, 0x01, 0x01, 0x6D, 0x01, 0x68, 0x00, 0x00, 0x03, 0x02, 0x01, 0x01, 0x07, 0x05, 0x01, 0x01, 0x66, 0x00, 0x01,
  0x0A, 0x0A, 0x01, 0x08, 0x00, 0x42, 0x05, 0x10, 0x00, 0x42, 0x05, 0x0B]⟩

/-- All imports are bound to a function that does nothing. -/
def resolve : Resolver Unit := fun _ _ _ => some fun _ host => .ok #[] host

/-- What a caller sees: the function's index, its signature and that of the import, the results, the calls of the host. -/
def seen : Option (Nat × FuncType × FuncType × Array Value × List HostCall) :=
  match (decode bytes {} resolve : EStateM.Result Failure (Loading Unit) Unit) with
  | .error _ _ => none
  | .ok () l =>
    match l.module.lookup "f", l.module.function 1, l.module.function 0, l.module.call 10 "f" #[] ⟨l.store, (), l.notices⟩ with
    | .ok index, .ok f, .ok h, .ok results _ =>
      some (index, f.signature, h.signature, results, l.module.invokeCalls 10 1 #[] ⟨l.store, (), l.notices⟩)
    | _, _, _, _ => none

/-- What becomes of the file, and of a call of its function. -/
theorem outcome : ∃ (l : Loading Unit) (f h : Function Unit) (N : Machine Unit), decode bytes {} resolve = .ok () l ∧
    l.module.lookup "f" = .ok 1 ∧ l.module.function 1 = .ok f ∧ f.signature = ⟨[], [.i32]⟩ ∧
    l.module.function 0 = .ok h ∧ h.signature = ⟨[.i32], []⟩ ∧
    l.module.call 10 "f" #[] ⟨l.store, (), l.notices⟩ = .ok #[.i64 5] N ∧
    l.module.invokeCalls 10 1 #[] ⟨l.store, (), l.notices⟩ = [⟨0, #[.i64 5]⟩] := by
  have ran : seen = some (1, ⟨[], [.i32]⟩, ⟨[.i32], []⟩, #[.i64 5], [⟨0, #[.i64 5]⟩]) := by decide +kernel
  unfold seen at ran
  split at ran
  · cases ran
  · rename_i l decoded
    split at ran
    · rename_i index f h results N found function host called
      simp only [Option.some.injEq, Prod.mk.injEq] at ran
      obtain ⟨rfl, signature, signature', rfl, calls⟩ := ran
      exact ⟨l, f, h, N, decoded, found, function, signature, host, signature', called, calls⟩
    · cases ran

end Mistyped

/-- The types are not checked that values from a body have, but their numbers are. -/
theorem call_boundary_mistyped : ∃ (l : Loading Unit) (N : Machine Unit),
    decode Mistyped.bytes {} Mistyped.resolve = .ok () l ∧
    l.module.call 10 "f" #[] ⟨l.store, (), l.notices⟩ = .ok #[.i64 5] N ∧ (#[.i64 5] : Array Value).size = [ValType.i32].length ∧
    ∀ call ∈ l.module.invokeCalls 10 1 #[] ⟨l.store, (), l.notices⟩, call.Counted l.module := by
  obtain ⟨l, f, h, N, decoded, found, function, signature, -, -, called, -⟩ := Mistyped.outcome
  obtain ⟨exported, counted, -⟩ := call_boundary decoded 10 "f" #[] ⟨l.store, (), l.notices⟩
  have size := ((exported 1 f found function).2.1 _ N called).2.1
  rw [signature] at size
  exact ⟨l, N, decoded, called, size, counted 1⟩

/-- A call of an accepted module gives a result of another type than declared, and calls a host function with an
    argument of another type than declared. -/
theorem call_not_typed : ∃ (l : Loading Unit) (f : Function Unit) (N : Machine Unit),
    decode Mistyped.bytes {} Mistyped.resolve = .ok () l ∧ l.module.lookup "f" = .ok 1 ∧ l.module.function 1 = .ok f ∧
    l.module.call 10 "f" #[] ⟨l.store, (), l.notices⟩ = .ok #[.i64 5] N ∧ Value.types #[.i64 5] ≠ f.signature.results ∧
    ∃ call ∈ l.module.invokeCalls 10 1 #[] ⟨l.store, (), l.notices⟩, ¬call.Typed l.module := by
  obtain ⟨l, f, h, N, decoded, found, function, signature, host, signature', called, calls⟩ := Mistyped.outcome
  refine ⟨l, f, N, decoded, found, function, called, by rw [signature]; decide, ⟨0, #[.i64 5]⟩, by rw [calls]; simp, ?_⟩
  rintro ⟨g, found', typed⟩
  obtain rfl := Except.ok.inj (host.symm.trans found')
  rw [signature'] at typed
  revert typed
  decide

end Module
end Wasm
