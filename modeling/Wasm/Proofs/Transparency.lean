import Wasm.Proofs.Watched
import Wasm.Module.Session

/-! The guards are transparent: a call that returns without them returns the same with them. -/

namespace Wasm
variable {σ : Type}

open Run

/-! ### The calls of host functions in a run -/

/-- A call of a host function. -/
structure HostCall where
  function : Nat
  arguments : Array Value
deriving DecidableEq, Repr

/-- The call of a host function that entering a function comes to, if it gets that far. -/
def Function.hostCalls (f : Function σ) (index offset : Nat) (s : Store) : List HostCall :=
  match f.body with
  | .host _ _ (some _) =>
    let params := f.signature.params.length
    if s.depth < s.options.maxCallDepth ∧ offset + params ≤ s.stack.size then
      [⟨index, s.stack.values.extract (s.stack.size - params) s.stack.size⟩]
    else []
  | _ => []

/-- The call of a host function that the next instruction is. -/
def Activation.hostCalls (m : Module σ) (act : Activation) (s : Store) : List HostCall :=
  match Instr.read act.body act.pos with
  | .ok (.call callee) _ =>
    match m.function callee with
    | .ok f =>
      let params := f.signature.params.length
      match Module.isRepeated act callee params s with
      | .ok false => f.hostCalls callee (s.stack.size - params) s
      | _ => []
    | .error _ => []
  | _ => []

namespace Module

/-- The calls of host functions in a run, in order. -/
def hostCalls (m : Module σ) : (fuel : Nat) → List Activation → Machine σ → List HostCall
  | fuel + 1, act :: callers, M =>
    act.hostCalls m M.store ++ match m.step act callers M with
      | .ok chain N => m.hostCalls fuel chain N
      | .error _ _ => []
  | _, _, _ => []

/-- Pushes the arguments and enters a function. -/
def starts (m : Module σ) (f : Function σ) (index : Nat) (arguments : Array Value) : Run σ (Option Activation) := fun M =>
  (do Run.onStack (Stack.pushMany arguments); m.enter f index M.store.stack.size) M

/-- The calls of host functions while the function at an index is called, in order. -/
def invokeCalls (m : Module σ) (fuel index : Nat) (arguments : Array Value) (M : Machine σ) : List HostCall :=
  match m.accept index arguments with
  | .error _ => []
  | .ok f =>
    f.hostCalls index M.store.stack.size { M.store with stack := ⟨M.store.stack.values ++ arguments⟩ } ++
      match m.starts f index arguments M with
      | .ok (some act) N => m.hostCalls fuel [act] N
      | _ => []

/-- The host function is called with these arguments just if the trace has them. -/
theorem enter_hostCalls {m : Module σ} {f : Function σ} {index offset : Nat} {r : Option Activation} {M N : Machine σ}
    (h : m.enter f index offset M = .ok r N) : match r with
      | none => ∃ moduleName name function arguments results, f.body = .host moduleName name (some function) ∧
        f.hostCalls index offset M.store = [⟨index, arguments⟩] ∧ function arguments M.host = .ok results N.host
      | some _ => f.hostCalls index offset M.store = [] ∧ N.host = M.host := by
  cases r with
  | none =>
    obtain ⟨moduleName, name, function, below, arguments, results, host, body, shallow, enough, whole, count, ran, -, rfl⟩ :=
      enter_eq_none h
    refine ⟨moduleName, name, function, arguments, results, body, ?_, ran⟩
    unfold Function.hostCalls Stack.size
    rw [body]
    dsimp only
    rw [if_pos ⟨shallow, enough⟩, whole, Array.size_append, ← count]
    simp
  | some act =>
    obtain ⟨body, jumps, code, -, -, -, -, rfl⟩ := enter_eq_some h
    refine ⟨?_, rfl⟩
    unfold Function.hostCalls
    rw [code]

/-! ### Runs that keep to their frames -/

/-- The chains and machines that a run comes by. -/
inductive Visits (m : Module σ) : List Activation → Machine σ → List Activation → Machine σ → Prop
  | here {chain M} : Visits m chain M chain M
  | onward {act callers M chain N chain' N'} : m.step act callers M = .ok chain N → Visits m chain N chain' N' →
    Visits m (act :: callers) M chain' N'

/-- In the call of the function at an index, no instruction pops a value or takes one out of the stack that is below the
    frame of its activation. A run that returns makes all the pops that are counted here. -/
def KeepsToFrames (m : Module σ) (index : Nat) (arguments : Array Value) (M : Machine σ) : Prop :=
  ∀ f act N, m.accept index arguments = .ok f → m.starts f index arguments M = .ok (some act) N →
    ∀ act' callers N', m.Visits [act] N (act' :: callers) N' → act'.KeepsToFrame m N'

end Module

/-! ### Both runs in step -/

theorem Machine.withGuards_alike (M : Machine σ) (recursion loop : Bool) : M.Alike True 0 0 0 (M.withGuards recursion loop) :=
  ⟨⟨.refl _, rfl, rfl, rfl, rfl, fun _ => rfl, fun _ => rfl, fun _ => rfl⟩, fun _ => rfl, fun _ => rfl⟩

theorem Stack.Alike.eq {s t : Stack} (h : Alike 0 0 0 s t) : t = s := by
  obtain ⟨values⟩ := s
  obtain ⟨values'⟩ := t
  exact congrArg Stack.mk (Array.ext_getElem? fun i => h.get i (Nat.zero_le i))

/-- Machines that have been exactly alike, but for the guards, and that are alike later, differ in the guards only. -/
theorem Machine.Alike.eq_withGuards {L M N : Machine σ} {recursion loop : Bool} (h : M.Alike True 0 0 0 N) (kept : L.Kept M)
    (kept' : (L.withGuards recursion loop).Kept N) : N = M.withGuards recursion loop := by
  have options : N.store.options = (M.withGuards recursion loop).store.options := by
    rw [kept'.options]
    unfold Machine.withGuards
    dsimp only
    rw [kept.options]
  obtain ⟨⟨stack, memories, globals, data, effects, depth, shadow, _⟩, host, notices⟩ := M
  obtain ⟨⟨stack', memories', globals', data', effects', depth', shadow', _⟩, host', notices'⟩ := N
  obtain rfl := h.store.stack.eq
  obtain rfl : memories' = memories := h.store.memories
  obtain rfl : globals' = globals := h.store.globals
  obtain rfl : data' = data := h.store.data trivial
  obtain rfl : effects' = effects := h.store.effects
  obtain rfl : depth' = depth := h.store.depth trivial
  obtain rfl : shadow' = shadow := h.store.shadow
  obtain rfl : host' = host := h.host trivial
  obtain rfl : notices' = notices := h.notices trivial
  dsimp only at options
  rw [options]
  rfl

section Lockstep
variable {m : Module σ} {recursion loop : Bool} {M N F : Machine σ} {a g : Activation}
  {as gs new callers : List Activation} {fuel : Nat}

/-- In a run that returns without the guards, none of them stops the next instruction. -/
theorem Recorded.unstopped (tabled : m.Tabled) (record : Recorded m recursion loop [a] M a g) (unguarded : M.Unguarded)
    (keeps : a.KeepsToFrame m M) (step : m.step a [] M = .ok new N) (returns : m.run fuel (new ++ callers) N = .returned F) :
    g.Unstopped m (M.withGuards recursion loop) := by
  intro i next read
  rw [record.alike.body, record.alike.pos] at read
  have awake : ∀ depth stack, i.target? M.store.stack = some (depth, stack) → ∀ L, g.labels[depth]? = some L →
      Activation.isIdle L g.frame { (M.withGuards recursion loop).store with stack } = false :=
    fun _ _ target _ found => record.not_idle tabled unguarded keeps step returns read target found
  cases i with
  | call callee => exact fun f function => record.not_repeated unguarded keeps step returns read function
  | _ => exact awake

/-- The next instruction makes the same call of a host function. -/
theorem hostCalls_withGuards (alike : a.Alike 0 g) (unguarded : M.Unguarded)
    (unstopped : g.Unstopped m (M.withGuards recursion loop)) :
    g.hostCalls m (M.withGuards recursion loop).store = a.hostCalls m M.store := by
  unfold Activation.hostCalls
  rw [alike.body, alike.pos]
  cases read : Instr.read a.body a.pos with
  | error e next => rfl
  | ok i next =>
    cases i with
    | call callee =>
      dsimp only
      cases function : m.function callee with
      | error e => rfl
      | ok f =>
        have read' : Instr.read g.body g.pos = .ok (.call callee) next := by rw [alike.body, alike.pos, read]
        dsimp only
        rw [unstopped _ next read' f function, Module.isRepeated_unguarded unguarded]
        rfl
    | _ => rfl

/-- The next step of a run that returns without the guards is made with them, too. -/
theorem Module.step_withGuards {chain : List Activation} (tabled : m.Tabled)
    (histories : Histories m recursion loop M [] (a :: as) (g :: gs)) (unguarded : M.Unguarded)
    (keeps : a.KeepsToFrame m M) (step : m.step a as M = .ok chain N) (returns : m.run fuel chain N = .returned F) :
    ∃ chain', m.step g gs (M.withGuards recursion loop) = .ok chain' (N.withGuards recursion loop) ∧
      Histories m recursion loop N [] chain chain' ∧
      g.hostCalls m (M.withGuards recursion loop).store = a.hostCalls m M.store := by
  cases histories with
  | more record others =>
    obtain ⟨new, rfl, beside⟩ := step_append step
    have alone : m.step a [] M = .ok new N := by rw [beside [], List.append_nil]
    -- The run returns, so that no guard has had a reason to stop it.
    have unstopped := record.unstopped tabled unguarded keeps alone returns
    obtain ⟨-, meets⟩ := step_alike gs record.alike (Nat.zero_le _) (M.withGuards_alike recursion loop) keeps
      (unstopped_unguarded unguarded) unstopped alone (.inl trivial)
    cases step' : m.step g gs (M.withGuards recursion loop) with
    | error e N' =>
      rw [step'] at meets
      exact absurd trivial meets
    | ok chain' N' =>
      rw [step'] at meets
      obtain ⟨new', rfl, news, alike⟩ := meets
      have kept : Machine.Kept M N := (step_kept m a as).ok (Machine.Kept.refl M) step
      have kept' : Machine.Kept (M.withGuards recursion loop) N' :=
        (step_kept m g gs).ok (Machine.Kept.refl _) step'
      -- Machines that are alike exactly differ in the setting of the guards alone.
      obtain rfl := alike.eq_withGuards kept kept'
      obtain ⟨new'', same, beside'⟩ := step_append step'
      obtain rfl := List.append_cancel_right same
      have alone' : m.step g [] (M.withGuards recursion loop) = .ok new' (N.withGuards recursion loop) := by
        rw [beside' [], List.append_nil]
      exact ⟨_, rfl, Histories.step (.more record others) keeps alone alone' news,
        hostCalls_withGuards record.alike unguarded unstopped⟩

/-- A run that returns without the guards returns with them, in as many steps, and calls the same host functions. -/
theorem Module.run_withGuards (tabled : m.Tabled) (histories : Histories m recursion loop M [] as gs)
    (unguarded : M.Unguarded) (returns : m.run fuel as M = .returned F)
    (keeps : ∀ act callers N, m.Visits as M (act :: callers) N → act.KeepsToFrame m N) :
    m.run fuel gs (M.withGuards recursion loop) = .returned (F.withGuards recursion loop) ∧
      m.hostCalls fuel gs (M.withGuards recursion loop) = m.hostCalls fuel as M := by
  induction fuel, as, M using m.run_induction generalizing gs with
  | ended fuel M =>
    cases histories
    rw [run_nil] at returns ⊢
    cases returns
    exact ⟨rfl, by cases fuel <;> rfl⟩
  | spent a as M => cases returns
  | fails fuel a as M e N step =>
    rw [run_error step] at returns
    cases returns
  | onward fuel a as M chain N step ih =>
    rw [run_ok step] at returns
    obtain ⟨g, gs, rfl⟩ : ∃ g rest, gs = g :: rest := by
      cases histories
      exact ⟨_, _, rfl⟩
    obtain ⟨chain', step', histories, calls⟩ := step_withGuards tabled histories unguarded (keeps a as M .here) step returns
    have kept : Machine.Kept M N := (step_kept m a as).ok (Machine.Kept.refl M) step
    obtain ⟨returns', later⟩ := ih histories (unguarded.kept kept) returns fun act callers P visits =>
      keeps act callers P (.onward step visits)
    refine ⟨(run_ok step').trans returns', ?_⟩
    unfold hostCalls
    rw [step, step', calls]
    exact congrArg _ later

end Lockstep

/-! ### Calls -/

namespace Module
variable {m : Module σ} {f : Function σ} {index fuel : Nat} {arguments : Array Value} {M final : Machine σ}

theorem accept_eq_ok (h : m.accept index arguments = .ok f) :
    m.function index = .ok f ∧ f.signature.params.length = arguments.size := by
  unfold accept at h
  cases function : m.function index with
  | error e =>
    rw [function] at h
    cases h
  | ok f' =>
    rw [function] at h
    simp only [bind, Except.bind, pure, Except.pure, throw, throwThe, MonadExceptOf.throw] at h
    split at h
    · cases h
    · rename_i count
      split at h <;> cases h
      exact ⟨rfl, Decidable.not_not.mp count⟩

theorem runToEnd_eq (m : Module σ) (fuel : Nat) (f : Function σ) (index : Nat) (arguments : Array Value) (M : Machine σ) :
    m.runToEnd fuel f index arguments M = match m.starts f index arguments M with
      | .ok (some act) N => m.run fuel [act] N
      | .ok none N => .returned N
      | .error e N => .trapped e N := rfl

/-- How a call that returns has begun, and how it has gone on. -/
theorem invokeIndex_eq_ok : m.invokeIndex fuel index arguments M = .ok () final ↔
    ∃ f, m.accept index arguments = .ok f ∧ (m.starts f index arguments M = .ok none final ∨
      ∃ act N, m.starts f index arguments M = .ok (some act) N ∧ m.run fuel [act] N = .returned final) := by
  unfold invokeIndex
  cases accepted : m.accept index arguments with
  | error e => simp
  | ok f =>
    dsimp only
    rw [runToEnd_eq]
    cases begun : m.starts f index arguments M with
    | error e N => simp [begun]
    | ok r N =>
      cases r with
      | none => simp [begun]
      | some act =>
        dsimp only
        cases ended : m.run fuel [act] N with
        | returned F => simp [begun, ended]
        | trapped e F => simp [begun, ended]
        | unfinished F => simp [begun, ended]

theorem invokeIndex_refused {e : Trap} (refused : m.accept index arguments = .error e) (fuel : Nat) :
    m.invokeIndex fuel index arguments M = .error (.trap e) M := by
  unfold invokeIndex
  rw [refused]

theorem invokeCalls_refused {e : Trap} (refused : m.accept index arguments = .error e) (fuel : Nat) (M : Machine σ) :
    m.invokeCalls fuel index arguments M = [] := by
  unfold invokeCalls
  rw [refused]

/-- A host function is the one that is called, or is called by a function that is started. -/
theorem mem_invokeCalls {call : HostCall} (member : call ∈ m.invokeCalls fuel index arguments M) :
    ∃ f, m.accept index arguments = .ok f ∧
      (call ∈ f.hostCalls index M.store.stack.size { M.store with stack := ⟨M.store.stack.values ++ arguments⟩ } ∨
        ∃ act N, m.starts f index arguments M = .ok (some act) N ∧ call ∈ m.hostCalls fuel [act] N) := by
  unfold invokeCalls at member
  cases accepted : m.accept index arguments with
  | error e =>
    rw [accepted] at member
    cases member
  | ok f =>
    rw [accepted] at member
    refine ⟨f, rfl, (List.mem_append.mp member).imp_right fun later => ?_⟩
    split at later
    · exact ⟨_, _, ‹_›, later⟩
    · cases later

theorem starts_eq (m : Module σ) (f : Function σ) (index : Nat) (arguments : Array Value) (M : Machine σ) :
    m.starts f index arguments M =
      m.enter f index M.store.stack.size { M with store.stack := ⟨M.store.stack.values ++ arguments⟩ } := rfl

theorem starts_kept {l : Machine σ} (m : Module σ) (f : Function σ) (index : Nat) (arguments : Array Value) :
    Preserves (Machine.Kept l) (m.starts f index arguments) := fun M kept =>
  ((Built.onStack _).bind fun _ => m.enter_built f index M.store.stack.size).kept M kept

/-- A function is entered with the guards as it is without them. -/
theorem starts_withGuards (recursion loop : Bool) (count : f.signature.params.length = arguments.size)
    {r : Option Activation} {N : Machine σ} (h : m.starts f index arguments M = .ok r N) :
    ∃ r', m.starts f index arguments (M.withGuards recursion loop) = .ok r' (N.withGuards recursion loop) ∧
      Option.Rel (Activation.Alike 0) r r' := by
  have pushed := Machine.withGuards_alike { M with store.stack := ⟨M.store.stack.values ++ arguments⟩ } recursion loop
  have enough : 0 + f.signature.params.length ≤ (M.store.stack.values ++ arguments).size := by
    rw [Array.size_append]
    omega
  have mirrored : Simulates (¬True) (Machine.Alike True 0 0 f.signature.params.length)
      (m.enter f index M.store.stack.size) (m.enter f index (M.store.stack.size + 0)) _ :=
    enter_alike (Nat.zero_le _) (.inl trivial)
  have entered := mirrored _ _ { pushed with store := pushed.store.more enough } r N h
  have begun : m.enter f index (M.store.stack.size + 0)
      (Machine.withGuards { M with store.stack := ⟨M.store.stack.values ++ arguments⟩ } recursion loop) =
        m.starts f index arguments (M.withGuards recursion loop) := rfl
  rw [begun] at entered
  have kept : Machine.Kept M N := (starts_kept m f index arguments).ok (Machine.Kept.refl M) h
  cases started : m.starts f index arguments (M.withGuards recursion loop) with
  | error e N' =>
    rw [started] at entered
    exact absurd trivial entered
  | ok r' N' =>
    rw [started] at entered
    have kept' : Machine.Kept (M.withGuards recursion loop) N' :=
      (starts_kept m f index arguments).ok (Machine.Kept.refl _) started
    obtain ⟨related, alike⟩ := entered
    obtain rfl := alike.eq_withGuards kept kept'
    exact ⟨r', rfl, related⟩

/-- A call that returns without the guards returns with any setting of them, with the same results on the same stack, the
    same memories, globals, data segments, effects and host, and the host functions have been called in the same order
    with the same arguments. No instruction may pop a value or take one out of the stack that is below the frame of its
    activation. -/
theorem invokeIndex_withGuards (tabled : m.Tabled) (unguarded : M.Unguarded)
    (returns : m.invokeIndex fuel index arguments M = .ok () final) (keeps : m.KeepsToFrames index arguments M)
    (recursion loop : Bool) :
    m.invokeIndex fuel index arguments (M.withGuards recursion loop) = .ok () (final.withGuards recursion loop) ∧
      m.invokeCalls fuel index arguments (M.withGuards recursion loop) = m.invokeCalls fuel index arguments M := by
  obtain ⟨f, accepted, how⟩ := invokeIndex_eq_ok.mp returns
  obtain ⟨function, count⟩ := accept_eq_ok accepted
  rcases how with started | ⟨act, N, started, ran⟩
  · obtain ⟨r', started', related⟩ := starts_withGuards recursion loop count started
    cases related
    refine ⟨invokeIndex_eq_ok.mpr ⟨f, accepted, .inl started'⟩, ?_⟩
    unfold invokeCalls
    rw [accepted]
    dsimp only
    rw [started, started']
    rfl
  · obtain ⟨r', started', related⟩ := starts_withGuards recursion loop count started
    cases related with
    | @some _ g alike =>
      have whole : f.signature.params.length + M.store.stack.size = (M.store.stack.values ++ arguments).size := by
        rw [Array.size_append, count, Nat.add_comm]
        rfl
      have record : Recorded m recursion loop [act] N act g := .entered function whole started started' alike
      have quiet := unguarded.kept ((starts_kept m f index arguments).ok (Machine.Kept.refl M) started)
      obtain ⟨ran', calls⟩ := run_withGuards tabled (.more record .none) quiet ran (keeps f act N accepted started)
      refine ⟨invokeIndex_eq_ok.mpr ⟨f, accepted, .inr ⟨g, _, started', ran'⟩⟩, ?_⟩
      unfold invokeCalls
      rw [accepted]
      dsimp only
      rw [started, started']
      dsimp only
      rw [calls]
      rfl

/-- One step more of a run that returns and keeps to its frames. -/
theorem returns_step (m : Module σ) (act : Activation) (callers : List Activation) (M : Machine σ)
    {chain : List Activation} {i : Instr} {next : Nat} {N F : Machine σ}
    (read : Instr.read act.body act.pos = .ok i next) (spares : act.Spares m M.store.stack i)
    (step : (Activation.exec m.types { act with pos := next } act.pos i >>= m.proceed act callers) M = .ok chain N)
    (rest : m.run fuel chain N = .returned F ∧
      ∀ a others P, m.Visits chain N (a :: others) P → a.KeepsToFrame m P) :
    m.run (fuel + 1) (act :: callers) M = .returned F ∧
      ∀ a others P, m.Visits (act :: callers) M (a :: others) P → a.KeepsToFrame m P := by
  have stepped : m.step act callers M = .ok chain N := by
    rw [step_eq, Activation.step_read read]
    exact step
  refine ⟨by rw [run_succ, stepped]; exact rest.1, fun a others P visits => ?_⟩
  cases visits with
  | here =>
    intro i' next' read'
    rw [read] at read'
    cases read'
    exact spares
  | onward stepped' visits =>
    rw [stepped] at stepped'
    cases stepped'
    exact rest.2 a others P visits

/-- A loop that goes on as long as a host function tells it to, here once more. -/
theorem invokeIndex_withGuards_loop :
    let ask : Function Nat := {
      signature := ⟨[], [.i32]⟩
      body := .host "host" "more" (some fun _ left => .ok #[.i32 (.ofNat 32 left)] (left - 1)) }
    let repeats : Function Nat := {
      signature := ⟨[], []⟩
      body := .code ⟨#[0x03, 0x40, 0x10, 0x00, 0x0D, 0x00, 0x0B, 0x0B]⟩ }
    let m := ({ functions := #[ask, repeats] } : Module Nat).withJumps {}
    let M : Machine Nat := ⟨{ options := { recursionGuard := false, loopGuard := false } }, 1, #[]⟩
    let final : Machine Nat := ⟨{ M.store with effects := 2 }, 0, #[]⟩
    m.invokeIndex 8 1 #[] (M.withGuards true true) = .ok () (final.withGuards true true) ∧
      m.invokeCalls 8 1 #[] (M.withGuards true true) = m.invokeCalls 8 1 #[] M := by
  intro ask repeats m M final
  let body : ByteArray := ⟨#[0x03, 0x40, 0x10, 0x00, 0x0D, 0x00, 0x0B, 0x0B]⟩
  let code : Code := .loop 0 6 .empty (.simple (.call 0) (.simple (.brIf 0) .done)) .done
  have opens : Instr.read body 0 = .ok (.loop .empty) 2 := Instr.read_of_find? (by decide) rfl rfl
  have calls : Instr.read body 2 = .ok (.call 0) 4 := Instr.read_of_find? (by decide) rfl rfl
  have branches : Instr.read body 4 = .ok (.brIf 0) 6 := Instr.read_of_find? (by decide) rfl rfl
  have ends : Instr.read body 6 = .ok .endMark 7 := Instr.read_of_find? (by decide) rfl rfl
  have last : Instr.read body 7 = .ok .endMark 8 := Instr.read_of_find? (by decide) rfl rfl
  have whole : Whole body code := ⟨7, .loop opens (.simple calls (.simple branches .done)) ends .done, last⟩
  have found : (#[ask, repeats] : Array (Function Nat))[1]? = some repeats := rfl
  have table : m.jumpTable 1 = .ok (.ofConstructs code.constructs) := by
    have built : repeats.jumpTable ({ functions := #[ask, repeats] } : Module Nat).signatures {} 1 =
        .ok (.ofConstructs code.constructs) := by
      unfold Function.jumpTable
      exact JumpTable.build_whole _ _ _ _ whole
    exact (jumpTable_withJumps { functions := #[ask, repeats] } {} found).trans built
  let act : Activation := {
    index := 1, body, jumps := .ofConstructs code.constructs, frame := ⟨0, 0⟩, results := [], arguments := #[], effects := 0 }
  let N : Machine Nat := { M with store.depth := 1 }
  have function : m.function 1 = .ok repeats := function_eq_ok.mpr found
  have accepted : m.accept 1 #[] = .ok repeats := by
    unfold accept
    rw [function]
    rfl
  have started : m.starts repeats 1 #[] M = .ok (some act) N := by
    rw [starts_eq]
    have begun := enter_code (m := m) (f := repeats) (M := M) (Eq.refl repeats.body) table (by decide) (show 0 + 0 ≤ 0 by decide)
    exact begun
  let L : Label := ⟨.loop, 0, 6, 0, 0, [], #[], 0⟩
  let L' : Label := ⟨.loop, 0, 6, 0, 0, [], #[], 1⟩
  let counted (effects left : Nat) (values : Array Value) : Machine Nat :=
    { N with store.effects := effects, store.stack := ⟨values⟩, host := left }
  have left : m.run 0 [] final = .returned final ∧
      ∀ a others P, m.Visits [] final (a :: others) P → a.KeepsToFrame m P := ⟨rfl, fun _ _ _ visits => nomatch visits⟩
  have eighth := returns_step m { act with pos := 7 } [] (counted 2 0 #[]) last (by rintro _ ⟨⟩) rfl left
  have seventh := returns_step m { act with pos := 6, labels := [L'] } [] (counted 2 0 #[]) ends
    (by rintro _ ⟨⟩; exact .inl (by decide)) rfl eighth
  have sixth := returns_step m { act with pos := 4, labels := [L'] } [] (counted 2 0 #[.i32 0]) branches
    ⟨by decide, by rintro _ _ ⟨⟩⟩ rfl seventh
  have fifth := returns_step m { act with pos := 2, labels := [L'] } [] (counted 1 0 #[]) calls
    (by rintro _ ⟨⟩; decide) rfl sixth
  have fourth := returns_step m act [] (counted 1 0 #[]) opens trivial rfl fifth
  have third := returns_step m { act with pos := 4, labels := [L] } [] (counted 1 0 #[.i32 1]) branches
    ⟨by decide, by rintro _ _ ⟨⟩ _ ⟨⟩; exact .inl (by decide)⟩ rfl fourth
  have second := returns_step m { act with pos := 2, labels := [L] } [] (counted 0 1 #[]) calls
    (by rintro _ ⟨⟩; decide) rfl third
  have first := returns_step m act [] N opens trivial rfl second
  refine invokeIndex_withGuards (withJumps_tabled _ _) ⟨rfl, rfl⟩
    (invokeIndex_eq_ok.mpr ⟨repeats, accepted, .inr ⟨act, N, started, first.1⟩⟩) ?_ true true
  intro f act' N' accepted' started'
  rw [accepted] at accepted'
  cases accepted'
  rw [started] at started'
  cases started'
  exact fun a others P visits => first.2 a others P visits

end Module
end Wasm
