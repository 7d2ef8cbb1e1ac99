import Wasm.Proofs.Calling
import Wasm.Proofs.Course

/-! Valid modules are sound: whatever runs, code finds its operands and locals with the types it takes them to have. -/

namespace Wasm
variable {σ : Type}

open Run

/-- An activation finds each of its locals on the stack, with a value of the declared type. -/
def Activation.FindsLocals (m : Module σ) (act : Activation) (s : Stack) : Prop :=
  ∃ f, m.function act.index = .ok f ∧ act.frame.locals = f.slots.length ∧ ∀ index t, f.slots[index]? = some t →
    ∃ slot v, act.frame.slot? index = some slot ∧ s.values[slot]? = some v ∧ v.type = t

/-- The host function gets arguments of the types of its parameters. -/
def HostCall.Typed (m : Module σ) (call : HostCall) : Prop :=
  ∃ f, m.function call.function = .ok f ∧ Value.types call.arguments = f.signature.params

theorem Stack.Holds.top {s : Stack} {under : Array Value} {ts us : List ValType} (h : s.Holds under (ts ++ us)) :
    Value.types (s.values.extract (s.values.size - us.length) s.values.size) = us := by
  obtain ⟨frame, values, whole, -, rfl⟩ := h.split
  have below : s.values.size - (Value.types values).length = (under ++ frame).size := by
    simp [whole]
    omega
  rw [below, whole, Value.extract_above]

namespace Module
variable {m : Module σ} {f : Function σ} {index fuel : Nat} {shape : Shape} {bottom under : Array Value}
  {final results ts : List ValType} {act : Activation} {callers chain chain' : List Activation} {M M' N : Machine σ}
  {arguments : Array Value}

/-! ### What is found on the way -/

theorem Chain.findsLocals {below : Array Value} (h : m.Chain shape bottom final chain below results) (above : Array Value)
    {s : Stack} (whole : s.values = below ++ above) : ∀ act ∈ chain, act.FindsLocals m s := by
  induction h generalizing above with
  | nil => simp
  | @cons act pos labels callers f under frame operands results function belongs _ types _ ih =>
    have all : s.values = under ++ (frame ++ above) := by simp [whole]
    intro act' member
    rcases List.mem_cons.mp member with rfl | member
    · refine ⟨f, function, belongs.locals, fun index t found => ?_⟩
      have inside : index < act.frame.locals := by
        rw [belongs.locals]
        exact (List.getElem?_eq_some_iff.mp found).1
      have holds : s.Holds under (f.slots ++ (operands ++ Value.types above)) := ⟨_, all, by simp [types]⟩
      obtain ⟨v, read, type⟩ := holds.get (t := t) (i := index)
        (by rw [List.getElem?_append_left (List.getElem?_eq_some_iff.mp found).1, found])
      refine ⟨under.size + index, v, ?_, read, type⟩
      unfold Frame.slot?
      rw [if_pos inside, belongs.offset]
    · exact ih _ all act' member

theorem Sound.findsLocals (sound : m.Sound shape bottom final chain M) : ∀ act ∈ chain, act.FindsLocals m M.store.stack := by
  obtain ⟨-, below, values, whole, typed⟩ := sound
  exact typed.findsLocals values whole

/-- When no activation is left, the stack has the results on what was there before. -/
theorem Sound.ended (sound : m.Sound shape bottom final [] M) :
    ∃ results, Value.types results = final ∧ M.store.stack.values = bottom ++ results := by
  obtain ⟨-, below, results, whole, chain⟩ := sound
  generalize types : Value.types results = ts at chain
  cases chain with
  | nil => exact ⟨results, types, whole⟩

theorem hostCalls_typed {s : Store} (function : m.function index = .ok f) (offset : Nat)
    (holds : s.stack.Holds under (ts ++ f.signature.params)) : ∀ call ∈ f.hostCalls index offset s, call.Typed m := by
  unfold Function.hostCalls Stack.size
  split
  · dsimp only
    split
    · intro call member
      rw [List.mem_singleton.mp member]
      exact ⟨f, function, holds.top⟩
    · simp
  · simp

theorem Sound.hostCalls_typed (sound : m.Sound shape bottom final (act :: callers) M) :
    ∀ call ∈ act.hostCalls m M.store, call.Typed m := by
  obtain ⟨home, f, under, pos, labels, operands, rfl, -, belongs, stands, holds, -⟩ := sound.innermost
  unfold Activation.hostCalls
  split
  · rename_i callee next read
    -- A call only tells which function is called, and the operands on top are of the types of its parameters.
    have progress : home.Progresses σ (m.context shape f) under pos labels operands := stands.progresses belongs
    have read : Instr.read home.body pos = .ok (.call callee) next := read
    obtain ⟨_, _, operands', t, -, found, -, holds⟩ := (Activation.progresses_iff read).mp progress M holds
    split
    · rename_i g called
      have same : g.signature = t := by
        simp only [context, signatures, Array.getElem?_map, function_eq_ok.mp called] at found
        exact Option.some.inj found
      subst same
      dsimp only
      split
      · exact Module.hostCalls_typed called _ holds.1
      · simp
    · simp
  · simp

/-! ### Runs -/

section Runs
variable (tabled : m.Tabled) (hosts : m.HostsTyped) (valid : m.Valid shape)
include tabled hosts valid

theorem Sound.run (sound : m.Sound shape bottom final chain M) (fuel : Nat) :
    (match m.run fuel chain M with
      | .returned N => m.Sound shape bottom final [] N
      | .trapped e _ => m.Allows e
      | .unfinished _ => True) ∧ ∀ call ∈ m.hostCalls fuel chain M, call.Typed m := by
  induction fuel, chain, M using m.run_induction with
  | ended fuel M =>
    rw [run_nil]
    exact ⟨sound, by simp [hostCalls]⟩
  | spent act callers M => exact ⟨trivial, by simp [hostCalls]⟩
  | fails fuel act callers M e N step =>
    have allowed := (step_sound tabled hosts valid act callers).error sound step
    rw [run_error step, hostCalls, step]
    exact ⟨allowed, by simpa using sound.hostCalls_typed⟩
  | onward fuel act callers M chain N step ih =>
    obtain ⟨ends, typed⟩ := ih ((step_sound tabled hosts valid act callers).ok sound step)
    rw [run_ok step, hostCalls, step]
    refine ⟨ends, fun call member => ?_⟩
    rcases List.mem_append.mp member with member | member
    · exact sound.hostCalls_typed call member
    · exact typed call member

theorem Sound.visits (sound : m.Sound shape bottom final chain M) (visits : m.Visits chain M chain' M') :
    m.Sound shape bottom final chain' M' := by
  induction visits with
  | here => exact sound
  | onward stepped _ ih => exact ih ((step_sound tabled hosts valid _ _).ok sound stepped)

/-- The function at an index is started with arguments of its parameter types. -/
theorem starts_typed (function : m.function index = .ok f) (typed : Value.types arguments = f.signature.params)
    (declared : M.store.shape = shape) : match m.starts f index arguments M with
      | .ok none N => ∃ results, Value.types results = f.signature.results ∧
          N.store.stack.values = M.store.stack.values ++ results
      | .ok (some act) N => m.Sound shape M.store.stack.values f.signature.results [act] N
      | .error e _ => m.Allows e := by
  have holds : Machine.Holds shape M.store.stack.values ([] ++ f.signature.params)
      { M with store.stack := ⟨M.store.stack.values ++ arguments⟩ } := ⟨⟨arguments, rfl, typed⟩, declared⟩
  have entered := enter_typed tabled hosts valid function _ holds
  rw [starts_eq]
  cases begun : m.enter f index M.store.stack.size { M with store.stack := ⟨M.store.stack.values ++ arguments⟩ } with
  | error e N =>
    rw [show M.store.stack.values.size + [].length = M.store.stack.size from rfl, begun] at entered
    exact entered
  | ok r N =>
    rw [show M.store.stack.values.size + [].length = M.store.stack.size from rfl, begun] at entered
    cases r with
    | none =>
      obtain ⟨⟨results, whole, types⟩, -⟩ := entered
      exact ⟨results, types, whole⟩
    | some act =>
      refine Sound.entered function entered fun frame types => ?_
      have empty : frame = #[] := by simpa [Value.types] using types
      rw [empty, Array.append_empty]
      exact .nil

end Runs

/-! ### Calls from outside -/

theorem invokeIndex_shaped (m : Module σ) (fuel index : Nat) (arguments : Array Value) :
    Maintains (Machine.Shaped shape) (m.invokeIndex fuel index arguments) :=
  .of_cases (fun _ _ _ shaped done => ((m.invokeIndex_changes _ _ _).ok .refl done).shape.trans shaped)
    fun _ _ _ shaped failed => ((m.invokeIndex_changes _ _ _).error .refl failed).shape.trans shaped

/-- How a call that fails has begun, and how it has gone on. -/
theorem invokeIndex_eq_error {failure : Failure} (h : m.invokeIndex fuel index arguments M = .error failure N) :
    (∃ e, m.accept index arguments = .error e ∧ failure = .trap e) ∨ ∃ f, m.accept index arguments = .ok f ∧
      ((∃ e N', m.starts f index arguments M = .error e N' ∧ failure = .trap e) ∨
        ∃ act N', m.starts f index arguments M = .ok (some act) N' ∧
          ((∃ e F, m.run fuel [act] N' = .trapped e F ∧ failure = .trap e) ∨
            ∃ F, m.run fuel [act] N' = .unfinished F ∧ failure = .unfinished)) := by
  unfold invokeIndex at h
  cases accepted : m.accept index arguments with
  | error e =>
    rw [accepted] at h
    cases h
    exact .inl ⟨e, rfl, rfl⟩
  | ok f =>
    rw [accepted] at h
    dsimp only at h
    rw [runToEnd_eq] at h
    right
    cases begun : m.starts f index arguments M with
    | error e N' =>
      rw [begun] at h
      cases h
      exact ⟨f, rfl, .inl ⟨e, N', begun, rfl⟩⟩
    | ok r N' =>
      rw [begun] at h
      cases r with
      | none => cases h
      | some act =>
        dsimp only at h
        refine ⟨f, rfl, .inr ⟨act, N', begun, ?_⟩⟩
        cases ended : m.run fuel [act] N' with
        | returned F =>
          rw [ended] at h
          cases h
        | trapped e F =>
          rw [ended] at h
          cases h
          exact .inl ⟨e, F, rfl, rfl⟩
        | unfinished F =>
          rw [ended] at h
          cases h
          exact .inr ⟨_, rfl, rfl⟩

/-- What may have happened to a machine between calls: functions have been called, to an end or not, and the stack, the
    settings and the host have been changed from outside. -/
inductive Reaches (m : Module σ) (M : Machine σ) : Machine σ → Prop
  | start : Reaches m M M
  | returned {fuel index arguments N N'} : Reaches m M N → m.invokeIndex fuel index arguments N = .ok () N' → Reaches m M N'
  | failed {fuel index arguments N e N'} : Reaches m M N → m.invokeIndex fuel index arguments N = .error e N' →
      Reaches m M N'
  | outside {N stack options host notices} : Reaches m M N →
      Reaches m M ⟨{ N.store with stack, options }, host, notices⟩

theorem Reaches.declared (h : m.Reaches M N) : N.store.shape = M.store.shape := by
  induction h with
  | start => rfl
  | returned _ done ih => exact (m.invokeIndex_shaped _ _ _).ok ih done
  | failed _ failed ih => exact (m.invokeIndex_shaped _ _ _).error ih failed
  | outside _ ih => exact ih

theorem accept_typed (function : m.function index = .ok f) (typed : Value.types arguments = f.signature.params) :
    m.accept index arguments = .ok f := by
  have count : f.signature.params.length = arguments.size := by rw [← typed, Value.length_types]
  unfold accept
  rw [function]
  simp only [bind, Except.bind, pure, Except.pure]
  rw [if_neg (by simp [count]), Value.find?_mismatch typed]

/-- Valid functions are sound, whichever of them is called in whatever state of the module, with both guards in any
    setting. The arguments are replaced by results of the declared types, and nothing changes below. No operand, local,
    label or result is missing or of a wrong type: such a trap comes from a host function, if at all. All activations
    find their locals, and host functions get arguments, of the declared types. -/
theorem invokeIndex_sound (tabled : m.Tabled) (hosts : m.HostsTyped) (valid : m.Valid M.store.shape)
    (reached : m.Reaches M M') (function : m.function index = .ok f)
    (typed : Value.types arguments = f.signature.params) (fuel : Nat) :
    (∀ N, m.invokeIndex fuel index arguments M' = .ok () N → ∃ results, Value.types results = f.signature.results ∧
      N.store.stack.values = M'.store.stack.values ++ results) ∧
    (∀ failure N, m.invokeIndex fuel index arguments M' = .error failure N →
      failure = .unfinished ∨ ∃ e, failure = .trap e ∧ (e.IsRegular ∨ m.HostRaises e)) ∧
    (∀ act N chain N', m.starts f index arguments M' = .ok (some act) N → m.Visits [act] N chain N' →
      ∀ a ∈ chain, a.FindsLocals m N'.store.stack) ∧
    ∀ call ∈ m.invokeCalls fuel index arguments M', call.Typed m := by
  have accepted := accept_typed function typed
  have started := starts_typed tabled hosts valid function typed reached.declared
  have first : ∀ call ∈ f.hostCalls index M'.store.stack.size
      { M'.store with stack := ⟨M'.store.stack.values ++ arguments⟩ }, call.Typed m :=
    hostCalls_typed function _ (show Stack.Holds _ ([] ++ f.signature.params) _ from ⟨arguments, rfl, typed⟩)
  refine ⟨fun N returns => ?_, fun failure N fails => ?_, fun act N chain N' begun visits => ?_, ?_⟩
  · obtain ⟨g, accepted', begun⟩ := invokeIndex_eq_ok.mp returns
    obtain rfl := Except.ok.inj (accepted.symm.trans accepted')
    rcases begun with begun | ⟨act, N', begun, ran⟩
    · rw [begun] at started
      exact started
    · rw [begun] at started
      have ends := (Sound.run tabled hosts valid started fuel).1
      rw [ran] at ends
      exact Sound.ended ends
  · rcases invokeIndex_eq_error fails with ⟨e, refused, -⟩ | ⟨g, accepted', begun⟩
    · rw [accepted] at refused
      cases refused
    · obtain rfl := Except.ok.inj (accepted.symm.trans accepted')
      rcases begun with ⟨e, N', begun, rfl⟩ | ⟨act, N', begun, ⟨e, F, ran, rfl⟩ | ⟨F, ran, rfl⟩⟩
      · rw [begun] at started
        exact .inr ⟨e, rfl, started⟩
      · rw [begun] at started
        have ends := (Sound.run tabled hosts valid started fuel).1
        rw [ran] at ends
        exact .inr ⟨e, rfl, ends⟩
      · exact .inl rfl
  · rw [begun] at started
    exact (Sound.visits tabled hosts valid started visits).findsLocals
  · unfold invokeCalls
    rw [accepted]
    intro call member
    rcases List.mem_append.mp member with member | member
    · exact first call member
    · split at member
      · rename_i begun
        rw [begun] at started
        exact (Sound.run tabled hosts valid started fuel).2 call member
      · cases member

/-- A loop that goes on as long as a host function gives something else than zero for its last result. -/
theorem invokeIndex_sound_loop :
    let next : Function Nat := {
      signature := ⟨[.i32], [.i32]⟩
      body := .host "host" "next" (some fun _ left => .ok #[.i32 (.ofNat 32 left)] (left - 1)) }
    let repeats : Function Nat := {
      signature := ⟨[.i32], [.i32]⟩
      body := .code ⟨#[0x03, 0x7F, 0x20, 0x00, 0x10, 0x00, 0x22, 0x00, 0x0D, 0x00, 0x20, 0x00, 0x0B, 0x0B]⟩ }
    let m := ({ functions := #[next, repeats] } : Module Nat).withJumps {}
    let M : Machine Nat := ⟨{}, 2, #[]⟩
    (∀ N, m.invokeIndex 100 1 #[.i32 7] M = .ok () N → ∃ results, Value.types results = [.i32] ∧
      N.store.stack.values = M.store.stack.values ++ results) ∧
    (∀ failure N, m.invokeIndex 100 1 #[.i32 7] M = .error failure N →
      failure = .unfinished ∨ ∃ e, failure = .trap e ∧ (e.IsRegular ∨ m.HostRaises e)) ∧
    (∀ act N chain N', m.starts repeats 1 #[.i32 7] M = .ok (some act) N → m.Visits [act] N chain N' →
      ∀ a ∈ chain, a.FindsLocals m N'.store.stack) ∧
    ∀ call ∈ m.invokeCalls 100 1 #[.i32 7] M, call.Typed m := by
  intro next repeats m M
  let body : ByteArray := ⟨#[0x03, 0x7F, 0x20, 0x00, 0x10, 0x00, 0x22, 0x00, 0x0D, 0x00, 0x20, 0x00, 0x0B, 0x0B]⟩
  let inner : Code := .simple (.plain (.localGet 0)) <| .simple (.call 0) <| .simple (.plain (.localTee 0)) <|
    .simple (.brIf 0) <| .simple (.plain (.localGet 0)) .done
  have opens : Instr.read body 0 = .ok (.loop (.result .i32)) 2 := Instr.read_of_find? (by decide) rfl rfl
  have gets : Instr.read body 2 = .ok (.plain (.localGet 0)) 4 := Instr.read_of_find? (by decide) rfl rfl
  have calls : Instr.read body 4 = .ok (.call 0) 6 := Instr.read_of_find? (by decide) rfl rfl
  have tees : Instr.read body 6 = .ok (.plain (.localTee 0)) 8 := Instr.read_of_find? (by decide) rfl rfl
  have branches : Instr.read body 8 = .ok (.brIf 0) 10 := Instr.read_of_find? (by decide) rfl rfl
  have again : Instr.read body 10 = .ok (.plain (.localGet 0)) 12 := Instr.read_of_find? (by decide) rfl rfl
  have ends : Instr.read body 12 = .ok .endMark 13 := Instr.read_of_find? (by decide) rfl rfl
  have last : Instr.read body 13 = .ok .endMark 14 := Instr.read_of_find? (by decide) rfl rfl
  have laid : Laid body 2 inner 12 :=
    .simple gets (.simple calls (.simple tees (.simple branches (.simple again .done))))
  have whole : Whole body (.loop 0 12 (.result .i32) inner .done) := ⟨13, .loop opens laid ends .done, last⟩
  let C := m.context M.store.shape repeats
  have signature : C.functions[0]? = some ⟨[.i32], [.i32]⟩ := by
    show ((#[next, repeats] : Array (Function Nat)).map (·.signature))[0]? = _
    simp [next]
  have typedInner : Wasm.Valid C [[], [.i32]] inner ([] ++ []) [.i32] := by
    refine .plain (.localGet rfl) .nil ?_
    refine .call signature (suits_known _) ?_
    refine .plain (.localTee rfl) (suits_known _) ?_
    show Wasm.Valid C _ _ ([] ++ [] ++ known [.i32]) _
    refine .brIf rfl .nil (suits_known _) ?_
    exact .plain (.localGet rfl) .nil (.done (suits_known _))
  have typed : Wasm.Valid C [[.i32]] (.loop 0 12 (.result .i32) inner .done) ([] ++ []) [.i32] :=
    .loop (t := ⟨[], [.i32]⟩) rfl .nil typedInner (.done (suits_known _))
  have valid : m.Valid M.store.shape := by
    intro index f bytes function code
    match index, function_eq_ok.mp function with
    | 0, found =>
      obtain rfl : next = f := Option.some.inj found
      cases code
    | 1, found =>
      obtain rfl : repeats = f := Option.some.inj found
      cases code
      exact ⟨_, whole, typed⟩
  have hosts : m.HostsTyped := by
    intro index f moduleName name function arguments host results host' found bound _ ran
    match index, function_eq_ok.mp found with
    | 0, found =>
      obtain rfl : next = f := Option.some.inj found
      cases bound
      cases ran
      rfl
    | 1, found =>
      obtain rfl : repeats = f := Option.some.inj found
      cases bound
  have found : (#[next, repeats] : Array (Function Nat))[1]? = some repeats := rfl
  exact invokeIndex_sound (withJumps_tabled _ _) hosts valid .start (function_eq_ok.mpr found) rfl 100

end Module
end Wasm
