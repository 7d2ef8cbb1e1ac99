import Wasm.Proofs.Operations
import Wasm.Exec.Machine

/-! How functions are entered and left: what has to hold for it, and what becomes of the machine. -/

namespace Wasm
variable {σ α : Type}

open Run

namespace Run

theorem store_eq (M : Machine σ) : store M = .ok M.store M := rfl

theorem onStore_eq_ok {op : Exec α} {a : α} {M N : Machine σ} :
    onStore op M = .ok a N ↔ ∃ store, op M.store = .ok a store ∧ N = { M with store } := by
  unfold onStore
  dsimp only
  constructor
  · intro h
    split at h <;> cases h
    exact ⟨_, ‹_›, rfl⟩
  · rintro ⟨store, h, rfl⟩
    rw [h]

theorem onStore_eq_error {op : Exec α} {e : Trap} {M N : Machine σ} :
    onStore op M = .error e N ↔ ∃ store, op M.store = .error e store ∧ N = { M with store } := by
  unfold onStore
  dsimp only
  constructor
  · intro h
    split at h <;> cases h
    exact ⟨_, ‹_›, rfl⟩
  · rintro ⟨store, h, rfl⟩
    rw [h]

theorem onStack_eq_ok {op : Stack.Op α} {a : α} {M N : Machine σ} :
    onStack op M = .ok a N ↔ ∃ stack, op M.store.stack = .ok a stack ∧ N = { M with store.stack := stack } := by
  unfold onStack
  rw [onStore_eq_ok]
  constructor
  · rintro ⟨store, h, rfl⟩
    obtain ⟨stack, done, rfl⟩ := Store.onStack_eq_ok.mp h
    exact ⟨stack, done, rfl⟩
  · rintro ⟨stack, h, rfl⟩
    exact ⟨_, Store.onStack_eq_ok.mpr ⟨stack, h, rfl⟩, rfl⟩

theorem onStack_eq_error {op : Stack.Op α} {e : Trap} {M N : Machine σ} :
    onStack op M = .error e N ↔ ∃ stack, op M.store.stack = .error e stack ∧ N = { M with store.stack := stack } := by
  unfold onStack
  rw [onStore_eq_error]
  constructor
  · rintro ⟨store, h, rfl⟩
    obtain ⟨stack, failed, rfl⟩ := Store.onStack_eq_error.mp h
    exact ⟨stack, failed, rfl⟩
  · rintro ⟨stack, h, rfl⟩
    exact ⟨_, Store.onStack_eq_error.mpr ⟨stack, h, rfl⟩, rfl⟩

theorem ofExcept_eq_ok {x : Except Trap α} {a : α} {M N : Machine σ} :
    (ofExcept x : Run σ α) M = .ok a N ↔ x = .ok a ∧ N = M := by
  cases x with
  | ok b => simp [eq_comm]
  | error e => simp

theorem callHost_eq_ok {f : HostFunc σ} {arguments results : Array Value} {M N : Machine σ} :
    callHost f arguments M = .ok results N ↔ ∃ host, f arguments M.host = .ok results host ∧
      N = { M with store.effects := M.store.effects + 1, host } := by
  unfold callHost
  dsimp only
  constructor
  · intro h
    split at h <;> cases h
    exact ⟨_, ‹_›, rfl⟩
  · rintro ⟨host, h, rfl⟩
    rw [h]

/-- A host function that fails has been called, too. -/
theorem callHost_eq_error {f : HostFunc σ} {arguments : Array Value} {e : Trap} {M N : Machine σ} :
    callHost f arguments M = .error e N ↔ ∃ host, f arguments M.host = .error e host ∧
      N = { M with store.effects := M.store.effects + 1, host } := by
  unfold callHost
  dsimp only
  constructor
  · intro h
    split at h <;> cases h
    exact ⟨_, ‹_›, rfl⟩
  · rintro ⟨host, h, rfl⟩
    rw [h]

end Run

namespace Activation

theorem heightBelow_eq_ok {n height : Nat} {M N : Machine σ} :
    heightBelow n M = .ok height N ↔ n + height = M.store.stack.values.size ∧ N = M := by
  show (if n ≤ M.store.stack.size then pure (M.store.stack.size - n) else throw _ : Run σ Nat) M = _ ↔ _
  unfold Stack.size
  by_cases enough : n ≤ M.store.stack.values.size
  · rw [if_pos enough]
    constructor
    · intro h
      cases h
      exact ⟨by omega, rfl⟩
    · rintro ⟨h, rfl⟩
      rw [← h, Nat.add_sub_cancel_left]
      rfl
  · rw [if_neg enough]
    constructor
    · intro h
      cases h
    · rintro ⟨h, -⟩
      omega

variable {act : Activation}

/-- A step reads an instruction and runs it. -/
theorem step_read {i : Instr} {next : Nat} (read : Instr.read act.body act.pos = .ok i next) (types : Array FuncType) :
    (act.step types : Run σ Flow) = exec types { act with pos := next } act.pos i := by
  unfold step
  rw [read]

/-- A step that succeeds has read an instruction. -/
theorem step_eq_ok {types : Array FuncType} {flow : Flow} {M N : Machine σ} :
    act.step types M = .ok flow N ↔ ∃ i next, Instr.read act.body act.pos = .ok i next ∧
      exec types { act with pos := next } act.pos i M = .ok flow N := by
  constructor
  · intro ran
    cases read : Instr.read act.body act.pos with
    | error e next =>
      unfold step at ran
      rw [read] at ran
      cases ran
    | ok i next =>
      rw [step_read read] at ran
      exact ⟨i, next, rfl, ran⟩
  · rintro ⟨i, next, read, ran⟩
    rw [step_read read]
    exact ran

end Activation

namespace Module

/-- A function is entered that has code, which pushes its locals, or a host function, which takes its arguments off the
    stack and gives its results. The latter counts as an effect. -/
theorem enter_eq_ok {m : Module σ} {f : Function σ} {index offset : Nat} {r : Option Activation} {M N : Machine σ}
    (h : m.enter f index offset M = .ok r N) :
    M.store.depth < M.store.options.maxCallDepth ∧ offset + f.signature.params.length ≤ M.store.stack.values.size ∧
      ((∃ body jumps, f.body = .code body ∧ m.jumpTable index = .ok jumps ∧
          r = some {
            index, body, jumps
            frame := ⟨offset, f.signature.params.length + f.locals.length⟩
            results := f.signature.results
            arguments :=
              if M.store.options.recursionGuard then
                M.store.stack.values.extract offset (offset + f.signature.params.length) else #[]
            effects := M.store.effects } ∧
          N = { M with
            store.depth := M.store.depth + 1
            store.stack := ⟨M.store.stack.values ++ zeros f.locals⟩ }) ∨
        ∃ moduleName name function below arguments results host, f.body = .host moduleName name (some function) ∧
          M.store.stack.values = below ++ arguments ∧ arguments.size = f.signature.params.length ∧
          function arguments M.host = .ok results host ∧ checkResults f.signature.results results = .ok () ∧
          r = none ∧
          N = { M with
            store.stack := ⟨below.shrink offset ++ results⟩
            store.effects := M.store.effects + 1
            host }) := by
  obtain ⟨s, M₁, got, h⟩ := bind_eq_ok.mp h
  cases got
  dsimp only at h
  by_cases deep : M.store.options.maxCallDepth ≤ M.store.depth
  · rw [if_pos deep] at h
    obtain ⟨_, _, -, h⟩ := bind_eq_ok.mp h
    cases h
  rw [if_neg deep] at h
  obtain ⟨_, M₂, deeper, h⟩ := bind_eq_ok.mp h
  cases deeper
  by_cases short : M.store.stack.size < offset + f.signature.params.length
  · rw [if_pos short] at h
    cases h
  rw [if_neg short] at h
  refine ⟨Nat.lt_of_not_le deep, Nat.le_of_not_lt short, ?_⟩
  cases body : f.body with
  | pending => rw [body] at h; cases h
  | code bytes =>
    rw [body] at h
    obtain ⟨jumps, M₃, table, h⟩ := bind_eq_ok.mp h
    obtain ⟨built, rfl⟩ := ofExcept_eq_ok.mp table
    dsimp only at h
    obtain ⟨_, M₄, pushed, h⟩ := bind_eq_ok.mp h
    cases pushed
    cases h
    exact .inl ⟨bytes, jumps, rfl, built, rfl, rfl⟩
  | host moduleName name bound =>
    rw [body] at h
    cases bound with
    | none => cases h
    | some function =>
      obtain ⟨arguments, M₃, popped, h⟩ := bind_eq_ok.mp h
      -- The arguments are on top of the stack, but the frame may begin lower than they do.
      obtain ⟨⟨below⟩, took, rfl⟩ := onStack_eq_ok.mp popped
      obtain ⟨stack, size⟩ := Stack.popMany_eq_ok.mp took
      obtain ⟨results, M₄, called, h⟩ := bind_eq_ok.mp h
      obtain ⟨host, ran, rfl⟩ := callHost_eq_ok.mp called
      obtain ⟨_, M₅, checked, h⟩ := bind_eq_ok.mp h
      obtain ⟨sound, rfl⟩ := ofExcept_eq_ok.mp checked
      obtain ⟨_, M₆, truncated, h⟩ := bind_eq_ok.mp h
      cases truncated
      obtain ⟨_, M₇, pushed, h⟩ := bind_eq_ok.mp h
      cases pushed
      obtain ⟨_, M₈, shallower, h⟩ := bind_eq_ok.mp h
      cases shallower
      cases h
      exact .inr ⟨moduleName, name, function, below, arguments, results, host, rfl, stack, size, ran, sound, rfl, rfl⟩

theorem enter_eq_some {m : Module σ} {f : Function σ} {index offset : Nat} {M N : Machine σ} {act : Activation}
    (h : m.enter f index offset M = .ok (some act) N) :
    ∃ body jumps, f.body = .code body ∧ m.jumpTable index = .ok jumps ∧
      M.store.depth < M.store.options.maxCallDepth ∧
      offset + f.signature.params.length ≤ M.store.stack.values.size ∧
      act = {
        index, body, jumps
        frame := ⟨offset, f.signature.params.length + f.locals.length⟩
        results := f.signature.results
        arguments :=
          if M.store.options.recursionGuard then
            M.store.stack.values.extract offset (offset + f.signature.params.length) else #[]
        effects := M.store.effects } ∧
      N = { M with
        store.depth := M.store.depth + 1
        store.stack := ⟨M.store.stack.values ++ zeros f.locals⟩ } := by
  obtain ⟨shallow, enough, ⟨body, jumps, code, table, entered, after⟩ | ⟨_, _, _, _, _, _, _, -, -, -, -, -, ended, -⟩⟩ :=
    enter_eq_ok h
  · exact ⟨body, jumps, code, table, shallow, enough, Option.some.inj entered, after⟩
  · cases ended

/-- When a function with code is entered. -/
theorem enter_code {m : Module σ} {f : Function σ} {index offset : Nat} {M : Machine σ} {body : ByteArray}
    {jumps : JumpTable} (code : f.body = .code body) (table : m.jumpTable index = .ok jumps)
    (shallow : M.store.depth < M.store.options.maxCallDepth)
    (enough : offset + f.signature.params.length ≤ M.store.stack.values.size) :
    m.enter f index offset M = .ok (some {
        index, body, jumps
        frame := ⟨offset, f.signature.params.length + f.locals.length⟩
        results := f.signature.results
        arguments :=
          if M.store.options.recursionGuard then
            M.store.stack.values.extract offset (offset + f.signature.params.length) else #[]
        effects := M.store.effects })
      { M with
        store.depth := M.store.depth + 1
        store.stack := ⟨M.store.stack.values ++ zeros f.locals⟩ } := by
  refine (bind_ok (store_eq M)).trans ?_
  dsimp only
  rw [if_neg (by omega)]
  refine (bind_ok (show onStore _ M = .ok () { M with store.depth := M.store.depth + 1 } from rfl)).trans ?_
  rw [if_neg (show ¬M.store.stack.size < _ by unfold Stack.size; omega), code, table]
  rfl

theorem enter_eq_none {m : Module σ} {f : Function σ} {index offset : Nat} {M N : Machine σ}
    (h : m.enter f index offset M = .ok none N) :
    ∃ moduleName name function below arguments results host,
      f.body = .host moduleName name (some function) ∧ M.store.depth < M.store.options.maxCallDepth ∧
      offset + f.signature.params.length ≤ M.store.stack.values.size ∧
      M.store.stack.values = below ++ arguments ∧ arguments.size = f.signature.params.length ∧
      function arguments M.host = .ok results host ∧ checkResults f.signature.results results = .ok () ∧
      N = { M with
        store.stack := ⟨below.shrink offset ++ results⟩
        store.effects := M.store.effects + 1
        host } := by
  obtain ⟨shallow, enough, ⟨_, _, -, -, entered, -⟩ |
    ⟨moduleName, name, function, below, arguments, results, host, body, stack, size, ran, sound, -, after⟩⟩ := enter_eq_ok h
  · cases entered
  · exact ⟨moduleName, name, function, below, arguments, results, host, body, shallow, enough, stack, size, ran, sound, after⟩

/-- A call that does not fail is skipped, with zeros in the place of its arguments, or else it enters the function with
    the arguments on top of the stack. -/
theorem callFrom_eq_ok {m : Module σ} {act : Activation} {callee : Nat} {r : Option Activation} {M N : Machine σ}
    (h : m.callFrom act callee M = .ok r N) : ∃ f, m.function callee = .ok f ∧
      ((r = none ∧ ∃ rest arguments, M.store.stack.values = rest ++ arguments ∧
          arguments.size = f.signature.params.length ∧ N.store.depth = M.store.depth ∧
          N.store.stack.values = rest ++ zeros f.signature.results) ∨
        ∃ offset, f.signature.params.length + offset = M.store.stack.values.size ∧ m.enter f callee offset M = .ok r N) := by
  obtain ⟨f, M₁, found, h⟩ := bind_eq_ok.mp h
  obtain ⟨function, same⟩ := ofExcept_eq_ok.mp found
  subst M₁
  obtain ⟨s, M₁, got, h⟩ := bind_eq_ok.mp h
  cases got
  obtain ⟨again, M₁, repeated, h⟩ := bind_eq_ok.mp h
  obtain ⟨-, same⟩ := ofExcept_eq_ok.mp repeated
  subst M₁
  refine ⟨f, function, ?_⟩
  cases again with
  | true =>
    obtain ⟨_, M₁, noted, h⟩ := bind_eq_ok.mp h
    obtain ⟨_, M₂, popped, h⟩ := bind_eq_ok.mp h
    obtain ⟨_, M₃, pushed, h⟩ := bind_eq_ok.mp h
    cases noted
    obtain ⟨arguments, taken⟩ := discard_eq_ok.mp popped
    obtain ⟨⟨rest⟩, took, rfl⟩ := onStack_eq_ok.mp taken
    obtain ⟨whole, size⟩ := Stack.popMany_eq_ok.mp took
    cases pushed
    cases h
    exact .inl ⟨rfl, rest, arguments, whole, size, rfl, rfl⟩
  | false =>
    obtain ⟨offset, M₁, below, entered⟩ := bind_eq_ok.mp h
    obtain ⟨whole, same⟩ := Activation.heightBelow_eq_ok.mp below
    subst M₁
    exact .inr ⟨offset, whole, entered⟩

/-- A call that leads to an activation enters the function with the arguments on top of the stack. -/
theorem callFrom_eq_some {m : Module σ} {act inner : Activation} {callee : Nat} {M N : Machine σ}
    (h : m.callFrom act callee M = .ok (some inner) N) : ∃ f offset, m.function callee = .ok f ∧
      f.signature.params.length + offset = M.store.stack.values.size ∧
      m.enter f callee offset M = .ok (some inner) N := by
  obtain ⟨f, function, ⟨none, -⟩ | ⟨offset, whole, entered⟩⟩ := callFrom_eq_ok h
  · cases none
  · exact ⟨f, offset, function, whole, entered⟩

/-- A call that no guard skips enters the function with the arguments on top of the stack. -/
theorem callFrom_fresh {m : Module σ} {act : Activation} {callee : Nat} {f : Function σ} {M : Machine σ}
    (function : m.function callee = .ok f)
    (fresh : isRepeated act callee f.signature.params.length M.store = .ok false)
    (enough : f.signature.params.length ≤ M.store.stack.size) :
    m.callFrom act callee M = m.enter f callee (M.store.stack.size - f.signature.params.length) M := by
  have below : f.signature.params.length + (M.store.stack.size - f.signature.params.length) = M.store.stack.size := by
    omega
  refine (bind_ok (ofExcept_eq_ok.mpr ⟨function, rfl⟩)).trans ?_
  refine (bind_ok (store_eq M)).trans ?_
  refine (bind_ok (ofExcept_eq_ok.mpr ⟨fresh, rfl⟩)).trans ?_
  exact bind_ok (Activation.heightBelow_eq_ok.mpr ⟨below, rfl⟩)

/-- The results of a function take the place of its frame. -/
theorem leave_eq_ok {act : Activation} {M N : Machine σ} :
    leave act M = .ok () N ↔ act.frame.offset + act.results.length ≤ M.store.stack.values.size ∧
      N = { M with
        store.depth := M.store.depth - 1
        store.stack := ⟨M.store.stack.values.extract 0 act.frame.offset ++
          M.store.stack.values.extract (M.store.stack.values.size - act.results.length) M.store.stack.values.size⟩ } := by
  unfold leave
  rw [bind_eq_ok]
  constructor
  · rintro ⟨_, M₁, settled, left⟩
    obtain ⟨⟨values⟩, ran, rfl⟩ := onStack_eq_ok.mp settled
    obtain ⟨enough, rfl⟩ := Stack.settle_eq_ok.mp ran
    cases left
    exact ⟨enough, rfl⟩
  · rintro ⟨enough, rfl⟩
    exact ⟨(), _, onStack_eq_ok.mpr ⟨⟨_⟩, Stack.settle_eq_ok.mpr ⟨enough, rfl⟩, rfl⟩, rfl⟩

/-- What a step does once its instruction has been run. -/
def proceed (m : Module σ) (act : Activation) (callers : List Activation) : Flow → Run σ (List Activation)
  | .next act => return act :: callers
  | .ret => do
    leave act
    return callers
  | .call act callee => do
    match ← m.callFrom act callee with
    | some inner => return inner :: act :: callers
    | none => return act :: callers

theorem step_eq (m : Module σ) (act : Activation) (callers : List Activation) :
    m.step act callers = act.step m.types >>= m.proceed act callers := by
  show (act.step m.types >>= fun flow => _) = _
  refine congrArg _ (funext fun flow => ?_)
  cases flow <;> rfl

/-- A step that reads a call calls. -/
theorem step_reads_call {m : Module σ} {act : Activation} {callee next : Nat}
    (read : Instr.read act.body act.pos = .ok (.call callee) next) (callers : List Activation) (M : Machine σ) :
    m.step act callers M = m.proceed act callers (.call { act with pos := next } callee) M := by
  have ran : act.step m.types M = .ok (.call { act with pos := next } callee) M :=
    Activation.step_eq_ok.mpr ⟨_, _, read, rfl⟩
  rw [step_eq, bind_ok ran]

end Module
end Wasm
