import Wasm.Proofs.NetEffect

/-! The check of what host functions give may be made by the host functions themselves: calls go just the same. -/

namespace Wasm
variable {σ : Type}

open Run

/-- The host function, which fails itself where its results are not as declared. -/
def HostFunc.checked (declared : List ValType) (function : HostFunc σ) : HostFunc σ := fun arguments host =>
  match function arguments host with
  | .ok results host =>
    match checkResults declared results with
    | .ok () => .ok results host
    | .error e => .error e host
  | .error e host => .error e host

namespace Function

def checked (f : Function σ) : Function σ :=
  match f.body with
  | .host moduleName name (some function) =>
    { f with body := .host moduleName name (some (function.checked f.signature.results)) }
  | _ => f

variable (f : Function σ)

@[simp] theorem checked_signature : f.checked.signature = f.signature := by
  unfold checked
  split <;> rfl

theorem checked_code {body : ByteArray} : f.checked.body = .code body ↔ f.body = .code body := by
  unfold checked
  split
  · rename_i host
    rw [host]
    exact ⟨nofun, nofun⟩
  · rfl

/-- Only functions that the host supplies can be checked. -/
theorem checked_of_unbound (h : ∀ moduleName name function, f.body ≠ .host moduleName name (some function)) :
    f.checked = f := by
  unfold checked
  split
  · exact absurd ‹_› (h _ _ _)
  · rfl

theorem checked_of_code {body : ByteArray} (code : f.body = .code body) : f.checked = f :=
  f.checked_of_unbound fun _ _ _ host => nomatch code.symm.trans host

@[simp] theorem jumpTable_checked (signatures : Array FuncType) (live : Store) (index : Nat) :
    f.checked.jumpTable signatures live index = f.jumpTable signatures live index := by
  unfold checked
  split
  · rename_i host
    simp [jumpTable, host]
  · rfl

@[simp] theorem hostCalls_checked (index offset : Nat) (s : Store) :
    f.checked.hostCalls index offset s = f.hostCalls index offset s := by
  unfold checked
  split
  · rename_i host
    simp [hostCalls, host]
  · rfl

end Function

/-- A call is the same whoever makes the check. -/
theorem Run.callHost_checked {β : Type} (declared : List ValType) (function : HostFunc σ) (arguments : Array Value)
    (k : Array Value → Run σ β) :
    (callHost (function.checked declared) arguments >>= fun results =>
      ofExcept (checkResults declared results) >>= fun _ => k results) =
      callHost function arguments >>= fun results => ofExcept (checkResults declared results) >>= fun _ => k results := by
  funext M
  cases ran : function arguments M.host with
  | error e host =>
    have plain : callHost function arguments M = .error e { M with store.effects := M.store.effects + 1, host } :=
      callHost_eq_error.mpr ⟨host, ran, rfl⟩
    have checked : callHost (function.checked declared) arguments M =
        .error e { M with store.effects := M.store.effects + 1, host } :=
      callHost_eq_error.mpr ⟨host, by rw [HostFunc.checked, ran], rfl⟩
    rw [bind_error plain, bind_error checked]
  | ok results host =>
    have plain : callHost function arguments M = .ok results { M with store.effects := M.store.effects + 1, host } :=
      callHost_eq_ok.mpr ⟨host, ran, rfl⟩
    rw [bind_ok plain]
    cases check : checkResults declared results with
    | ok u =>
      have checked : callHost (function.checked declared) arguments M =
          .ok results { M with store.effects := M.store.effects + 1, host } :=
        callHost_eq_ok.mpr ⟨host, by rw [HostFunc.checked, ran]; dsimp only; rw [check], rfl⟩
      rw [bind_ok checked, check]
    | error e =>
      have checked : callHost (function.checked declared) arguments M =
          .error e { M with store.effects := M.store.effects + 1, host } :=
        callHost_eq_error.mpr ⟨host, by rw [HostFunc.checked, ran]; dsimp only; rw [check], rfl⟩
      -- The checked function fails itself, just as the check behind the other one does.
      rw [bind_error checked]
      rfl

namespace Module

/-- The module with host functions that check their results. -/
def checked (m : Module σ) : Module σ := { m with functions := m.functions.map Function.checked }

variable (m : Module σ)

theorem function_checked (index : Nat) : m.checked.function index = (m.function index).map Function.checked := by
  unfold function checked
  rw [Array.getElem?_map]
  cases m.functions[index]? <;> rfl

theorem function_checked_eq_ok {index : Nat} {g : Function σ} :
    m.checked.function index = .ok g ↔ ∃ f, m.function index = .ok f ∧ f.checked = g := by
  rw [function_checked]
  cases m.function index <;> simp [Except.map]

@[simp] theorem signatures_checked : m.checked.signatures = m.signatures := by
  simp [signatures, checked, Function.comp_def]

theorem checked_tabled (tabled : m.Tabled) : m.checked.Tabled := by
  obtain ⟨live, same⟩ := tabled
  refine ⟨live, ?_⟩
  have jumps : m.functions.mapIdx (Function.jumpTable m.signatures live) = m.jumps := congrArg Module.jumps same
  unfold withJumps
  rw [signatures_checked]
  unfold checked
  dsimp only
  rw [← jumps]
  congr 1
  exact Array.ext (by simp) fun i _ _ => by simp

theorem checked_valid {shape : Shape} (valid : m.Valid shape) : m.checked.Valid shape := by
  intro index g body function code
  obtain ⟨f, found, rfl⟩ := m.function_checked_eq_ok.mp function
  have code := f.checked_code.mp code
  rw [f.checked_of_code code]
  have context : m.checked.context shape f = m.context shape f := by
    unfold Module.context
    rw [signatures_checked]
    rfl
  rw [context]
  exact valid index f body found code

/-- Results that have been checked are of the declared types. -/
theorem checked_hostsTyped : m.checked.HostsTyped := by
  intro index g moduleName name function arguments host results host' found bound _ ran
  obtain ⟨f, found, rfl⟩ := m.function_checked_eq_ok.mp found
  rw [Function.checked_signature]
  unfold Function.checked at bound
  split at bound
  · cases bound
    unfold HostFunc.checked at ran
    split at ran
    · split at ran
      · cases ran
        exact checkResults_eq_ok.mp ‹_›
      · cases ran
    · cases ran
  · rename_i other
    exact absurd bound (other _ _ _)

theorem typed_checked {call : HostCall} : call.Typed m.checked ↔ call.Typed m := by
  constructor
  · rintro ⟨g, function, typed⟩
    obtain ⟨f, found, rfl⟩ := m.function_checked_eq_ok.mp function
    exact ⟨f, found, by rwa [Function.checked_signature] at typed⟩
  · rintro ⟨f, found, typed⟩
    exact ⟨f.checked, m.function_checked_eq_ok.mpr ⟨f, found, rfl⟩, by rwa [Function.checked_signature]⟩

/-! ### Runs -/

theorem enter_checked (f : Function σ) (index offset : Nat) :
    m.checked.enter f.checked index offset = m.enter f index offset := by
  by_cases bound : ∃ moduleName name function, f.body = .host moduleName name (some function)
  · obtain ⟨moduleName, name, function, body⟩ := bound
    have checked : f.checked = { f with body := .host moduleName name (some (function.checked f.signature.results)) } := by
      rw [Function.checked, body]
    rw [checked]
    unfold enter
    rw [body]
    dsimp only
    refine bind_congr fun s => ?_
    split
    · rfl
    refine bind_congr fun _ => ?_
    split
    · rfl
    exact bind_congr fun arguments => callHost_checked _ _ _ _
  · rw [f.checked_of_unbound fun moduleName name function body => bound ⟨moduleName, name, function, body⟩]
    rfl

theorem callFrom_checked (act : Activation) (callee : Nat) : m.checked.callFrom act callee = m.callFrom act callee := by
  unfold callFrom
  rw [function_checked]
  cases m.function callee with
  | error e => rfl
  | ok f =>
    rw [Activation.ofExcept_holds (show Except.map Function.checked (.ok f) = .ok f.checked from rfl),
      Activation.ofExcept_holds (show Except.ok f = .ok f from rfl), pure_bind, pure_bind]
    simp only [Function.checked_signature, enter_checked]

theorem step_checked (act : Activation) (callers : List Activation) : m.checked.step act callers = m.step act callers := by
  rw [step_eq, step_eq]
  refine bind_congr fun flow => ?_
  cases flow with
  | call act callee =>
    unfold proceed
    dsimp only
    rw [callFrom_checked]
  | _ => rfl

theorem run_checked (fuel : Nat) (chain : List Activation) (M : Machine σ) :
    m.checked.run fuel chain M = m.run fuel chain M := by
  induction fuel, chain, M using m.run_induction with
  | ended fuel M => rw [run_nil, run_nil]
  | spent act callers M => rfl
  | fails fuel act callers M e N step =>
    rw [run_error step]
    exact run_error (m.step_checked act callers ▸ step)
  | onward fuel act callers M chain N step ih =>
    rw [run_ok step, ← ih]
    exact run_ok (m.step_checked act callers ▸ step)

theorem hostCalls_checked (fuel : Nat) (chain : List Activation) (M : Machine σ) :
    m.checked.hostCalls fuel chain M = m.hostCalls fuel chain M := by
  have here (act : Activation) (s : Store) : act.hostCalls m.checked s = act.hostCalls m s := by
    unfold Activation.hostCalls
    split
    · rw [function_checked]
      cases m.function _ with
      | error e => rfl
      | ok f => simp only [Except.map, Function.checked_signature, Function.hostCalls_checked]
    · rfl
  induction fuel generalizing chain M with
  | zero => cases chain <;> rfl
  | succ fuel ih =>
    cases chain with
    | nil => rfl
    | cons act callers =>
      rw [hostCalls, hostCalls, step_checked, here]
      cases m.step act callers M with
      | ok chain N => exact congrArg _ (ih chain N)
      | error e N => rfl

/-- Calls from outside are accepted alike. -/
theorem accept_checked (index : Nat) (arguments : Array Value) :
    m.checked.accept index arguments = (m.accept index arguments).map Function.checked := by
  unfold accept
  rw [function_checked]
  cases m.function index with
  | error e => rfl
  | ok f =>
    simp only [Except.map, bind, Except.bind, pure, Except.pure, throw, throwThe, MonadExceptOf.throw,
      Function.checked_signature]
    split
    · rfl
    · split <;> rfl

theorem starts_checked (f : Function σ) (index : Nat) (arguments : Array Value) (M : Machine σ) :
    m.checked.starts f.checked index arguments M = m.starts f index arguments M := by
  rw [starts_eq, starts_eq, enter_checked]

theorem invokeIndex_checked (fuel index : Nat) (arguments : Array Value) :
    m.checked.invokeIndex fuel index arguments = m.invokeIndex fuel index arguments := by
  funext M
  unfold invokeIndex
  rw [accept_checked]
  cases m.accept index arguments with
  | error e => rfl
  | ok f =>
    simp only [Except.map]
    rw [runToEnd_eq, runToEnd_eq, starts_checked]
    simp only [run_checked]

theorem invokeCalls_checked (fuel index : Nat) (arguments : Array Value) (M : Machine σ) :
    m.checked.invokeCalls fuel index arguments M = m.invokeCalls fuel index arguments M := by
  unfold invokeCalls
  rw [accept_checked]
  cases m.accept index arguments with
  | error e => rfl
  | ok f =>
    simp only [Except.map]
    rw [Function.hostCalls_checked, starts_checked]
    simp only [hostCalls_checked]

theorem Reaches.checked {M N : Machine σ} (h : m.Reaches M N) : m.checked.Reaches M N := by
  induction h with
  | start => exact .start
  | returned _ done ih => exact ih.returned (by rwa [invokeIndex_checked])
  | failed _ failed ih => exact ih.failed (by rwa [invokeIndex_checked])
  | outside _ ih => exact ih.outside

end Module
end Wasm
