import Wasm.Proofs.History

/-! A guard never stops a run that would return without it: what it finds is a run that recurs. -/

namespace Wasm
variable {σ : Type}

open Run

/-! ### Idle loops -/

namespace Activation
variable {act : Activation} {L : Label} {M N : Machine σ}

/-- When a branch to a loop would enter it with the frame as it was. -/
theorem reentersUnchanged_eq_true {frame : Frame} {s : Stack} : reentersUnchanged L frame s = true ↔
    (frame.offset ≤ L.height ∧ L.height ≤ s.values.size) ∧ L.arity ≤ s.values.size ∧
      L.snapshot = s.values.extract frame.offset L.height ++
        s.values.extract (s.values.size - L.arity) s.values.size := by
  unfold reentersUnchanged Stack.top? Stack.size
  rw [Bool.and_eq_true, decide_eq_true_iff]
  refine and_congr_right fun _ => ?_
  by_cases enough : L.arity ≤ s.values.size
  · rw [if_pos enough]
    simp [enough]
  · rw [if_neg enough]
    simp [enough]

theorem isIdle_eq_true {frame : Frame} {s : Store} : isIdle L frame s = true ↔ L.kind = .loop ∧
    s.options.loopGuard = true ∧ L.effects = s.effects ∧ reentersUnchanged L frame s.stack = true := by
  simp [isIdle, and_assoc]

/-- An instruction with a target branches there, with a stack that has been popped from. -/
theorem exec_target {i : Instr} {depth : Nat} {stack : Stack} (target : i.target? M.store.stack = some (depth, stack))
    (types : Array FuncType) (act : Activation) (start : Nat) : ∃ conditional,
      exec types act start i M = branch act depth conditional { M with store.stack := stack } := by
  cases i with
  | br target =>
    cases target
    exact ⟨false, rfl⟩
  | brIf branchedTo =>
    unfold Instr.target? at target
    dsimp only at target
    cases popped : Stack.popInt .w32 M.store.stack with
    | error e s =>
      rw [popped] at target
      cases target
    | ok condition s =>
      rw [popped] at target
      dsimp only at target
      by_cases holds : condition ≠ 0
      · rw [if_pos holds] at target
        cases target
        exact ⟨true, exec_brIf_taken (onStack_eq_ok.mpr ⟨stack, popped, rfl⟩) holds⟩
      · rw [if_neg holds] at target
        cases target
  | brTable targets fallback =>
    unfold Instr.target? at target
    dsimp only at target
    cases popped : Stack.popAddress M.store.stack with
    | error e s =>
      rw [popped] at target
      cases target
    | ok index s =>
      rw [popped] at target
      cases target
      exact ⟨false, exec_brTable_ok (onStack_eq_ok.mpr ⟨stack, popped, rfl⟩)⟩
  | _ => cases target

/-- A branch to a loop that is taken leads back to its start. -/
theorem branch_loop (act : Activation) {depth start : Nat} {conditional : Bool} {flow : Flow} (found : act.labels[depth]? = some L)
    (kind : L.kind = .loop) (back : act.jumps.loopStart? L.stop = some start) (unguarded : M.Unguarded)
    (done : branch act depth conditional M = .ok flow N) :
    flow = .next { act with pos := start, labels := act.labels.drop (depth + 1) } ∧
      ∃ stack, Stack.settle L.height L.arity M.store.stack = .ok () stack ∧ N = { M with store.stack := stack } := by
  rw [branch_unguarded unguarded found] at done
  obtain ⟨_, M₁, settled, landed⟩ := bind_eq_ok.mp done
  obtain ⟨stack, ran, rfl⟩ := onStack_eq_ok.mp settled
  unfold land at landed
  rw [kind, back] at landed
  obtain ⟨a, M₂, went, ended⟩ := bind_eq_ok.mp landed
  cases ended
  obtain ⟨rfl, rfl⟩ := goto_eq_ok went
  exact ⟨rfl, stack, ran, rfl⟩

end Activation

/-- The end of a loop leads back to its start. -/
theorem JumpTable.Lists.loopStart?_of_loopEnd {table : JumpTable} {cs : List Construct} (lists : table.Lists cs)
    {start stop : Nat} (ends : table.loopEnd start = .ok stop) : table.loopStart? stop = some start := by
  refine (lists.loops_inverse start stop).mp ?_
  unfold loopEnd entry at ends
  split at ends <;> cases ends
  assumption

/-- A step that branches to a loop leads back to its start. -/
theorem Module.step_loop {m : Module σ} {a : Activation} {L : Label} {M N : Machine σ} {new : List Activation} {i : Instr}
    {next depth start : Nat} {stack : Stack} (unguarded : M.Unguarded) (read : Instr.read a.body a.pos = .ok i next)
    (target : i.target? M.store.stack = some (depth, stack)) (found : a.labels[depth]? = some L) (kind : L.kind = .loop)
    (back : a.jumps.loopStart? L.stop = some start) (step : m.step a [] M = .ok new N) :
    new = [{ a with pos := start, labels := a.labels.drop (depth + 1) }] ∧
      ∃ stack', Stack.settle L.height L.arity stack = .ok () stack' ∧ N = { M with store.stack := stack' } := by
  rw [step_eq] at step
  obtain ⟨flow, M₁, ran, proceeded⟩ := bind_eq_ok.mp step
  rw [Activation.step_read read] at ran
  obtain ⟨conditional, branches⟩ := Activation.exec_target target m.types { a with pos := next } a.pos
  rw [branches] at ran
  have unguarded₁ : Machine.Unguarded { M with store.stack := stack } := ⟨unguarded.recursion, unguarded.loop⟩
  obtain ⟨rfl, stack', settled, rfl⟩ := Activation.branch_loop { a with pos := next } found kind back unguarded₁ ran
  cases proceeded
  exact ⟨rfl, stack', settled, rfl⟩

/-- A stack that has been settled to what the frame of a loop held is the stack as it was then. -/
theorem Stack.alike_of_unchanged {o height arity : Nat} {s t t' : Stack} (below : o ≤ height)
    (size : height + arity = s.values.size) (settled : settle height arity t = .ok () t')
    (same : s.values.extract o s.values.size =
      t.values.extract o height ++ t.values.extract (t.values.size - arity) t.values.size) : Alike o 0 0 s t' := by
  obtain ⟨fits, values⟩ := settle_eq_ok.mp settled
  refine ⟨by omega, ?_, fun i above => ?_⟩
  · rw [values, Array.size_append, Array.size_extract, Array.size_extract]
    omega
  · have there := congrArg (fun xs : Array Value => xs[i - o]?) same
    rw [Array.getElem?_extract, Array.getElem?_append, Array.getElem?_extract, Array.getElem?_extract,
      Array.size_extract] at there
    rw [values, settled_getElem? fits]
    by_cases inside : i < s.values.size
    · rw [if_pos (by omega), show o + (i - o) = i by omega] at there
      rw [Nat.add_zero, there]
      by_cases low : i < height
      · rw [if_pos low, if_pos (by omega), if_pos (by omega)]
      · rw [if_neg low, if_pos (by omega), if_neg (by omega), if_pos (by omega)]
        congr 1
        omega
    · rw [Nat.add_zero, if_neg (by omega), if_neg (by omega), Array.getElem?_eq_none (by omega)]

/-- The same arguments are on top of both stacks, and the same locals come on top of them. -/
theorem Stack.alike_of_arguments (locals : Array Value) {o o' n : Nat} {s t : Array Value} (size : n + o = s.size)
    (size' : n + o' = t.size) (below : o ≤ o') (same : t.extract (t.size - n) t.size = s.extract o s.size) :
    Alike o (o' - o) 0 ⟨s ++ locals⟩ ⟨t ++ locals⟩ := by
  refine ⟨?_, ?_, fun i above => ?_⟩
  · dsimp only
    rw [Array.size_append]
    omega
  · dsimp only
    rw [Array.size_append, Array.size_append]
    omega
  · have there := congrArg (fun xs : Array Value => xs[i - o]?) same
    rw [Array.getElem?_extract, Array.getElem?_extract] at there
    dsimp only
    rw [Array.getElem?_append, Array.getElem?_append]
    by_cases inside : i < s.size
    · rw [if_pos (by omega), if_pos (by omega), show o + (i - o) = i by omega,
        show t.size - n + (i - o) = i + (o' - o) by omega] at there
      rw [if_pos (by omega), if_pos inside, there]
    · rw [if_neg (by omega), if_neg inside, show i + (o' - o) - t.size = i - s.size by omega]

variable {m : Module σ} {recursion loop : Bool} {M N F : Machine σ} {a g : Activation} {new callers : List Activation}
  {fuel : Nat}

/-- Without an effect, only what is above a height of the stack can have changed. -/
theorem alike_of_kept {o k : Nat} {stack : Stack} (kept : Machine.Kept M N) (quiet : N.store.effects = M.store.effects)
    (alike : M.store.stack.Alike o k 0 stack) (depth : Nat) :
    M.Alike False o k 0 { N with store.stack := stack, store.depth := depth } where
  store := {
    stack := alike
    memories := kept.memories quiet
    globals := kept.globals quiet
    effects := quiet
    shadow := kept.shadow
    data := False.elim
    depth := False.elim
    limit := False.elim }
  host := False.elim
  notices := False.elim

/-- The jump table of an activation lists the constructs of its body. -/
theorem Recorded.lists (tabled : m.Tabled) (record : Recorded m recursion loop new M a g) : ∃ cs, a.jumps.Lists cs := by
  obtain ⟨f, offset, E₀, E, count, function, -, entered, -⟩ := record.entry
  obtain ⟨body, jumps, code, table, -, -, fresh, -⟩ := Module.enter_eq_some entered
  obtain ⟨live, built⟩ := tabled.table function code table
  have same := congrArg Activation.jumps fresh
  dsimp only at same
  rw [same]
  exact JumpTable.lists_of_build _ _ _ _ built

/-- In a run that returns without the guards, no branch back to a loop finds the frame as it was when the loop was
    entered. -/
theorem Recorded.not_idle (tabled : m.Tabled) (record : Recorded m recursion loop [a] M a g) (unguarded : M.Unguarded)
    (keeps : a.KeepsToFrame m M) (step : m.step a [] M = .ok new N) (returns : m.run fuel (new ++ callers) N = .returned F)
    {i : Instr} {next : Nat} (read : Instr.read a.body a.pos = .ok i next) {depth : Nat} {stack : Stack}
    (target : i.target? M.store.stack = some (depth, stack)) {L : Label} (found : g.labels[depth]? = some L) :
    Activation.isIdle L g.frame { (M.withGuards recursion loop).store with stack } = false := by
  cases idle : Activation.isIdle L g.frame { (M.withGuards recursion loop).store with stack } with
  | false => rfl
  | true =>
    exfalso
    obtain ⟨kind, guarded, effects, unchanged⟩ := Activation.isIdle_eq_true.mp idle
    obtain ⟨⟨below, -⟩, enough, same⟩ := Activation.reentersUnchanged_eq_true.mp unchanged
    obtain ⟨E, count, noted, leads⟩ := record.loops depth L found kind
    obtain ⟨L₀, found₀, labels⟩ := record.alike.label_of found
    have back : a.jumps.loopStart? L₀.stop = some L.start := by
      obtain ⟨cs, lists⟩ := record.lists tabled
      exact labels.stop ▸ lists.loopStart?_of_loopEnd noted.stop
    obtain ⟨rfl, stack', settled, rfl⟩ := Module.step_loop unguarded read target found₀ (labels.kind ▸ kind) back step
    -- The frame is as it was at the start of the loop, so that what led from there to here is gone through again and
    -- again.
    have recurs : m.Recurs { a with pos := L.start, labels := a.labels.drop (depth + 1) } E 0
        { a with pos := L.start, labels := a.labels.drop (depth + 1) } { M with store.stack := stack' } := by
      have kept := leads.kept
      have quiet : M.store.effects = E.store.effects := effects.symm.trans noted.effects
      have height : L.height = L₀.height := labels.height
      have size : L.height + L.arity = E.store.stack.values.size := noted.size
      have offset : g.frame.offset = a.frame.offset := record.alike.offset
      have held : L.snapshot = E.store.stack.values.extract a.frame.offset E.store.stack.values.size :=
        noted.snapshot guarded
      rw [height, labels.arity] at size
      rw [held, offset, height, labels.arity] at same
      rw [offset, height] at below
      refine ⟨⟨count, [], leads.onward keeps step⟩, quiet, unguarded.before kept, .refl _, ?_⟩
      exact alike_of_kept kept quiet (Stack.alike_of_unchanged below size settled same) M.store.depth
    exact recurs.never_returns fuel callers F returns

/-- In a run that returns without the guards, no call repeats the one that its function was entered by. -/
theorem Recorded.not_repeated (record : Recorded m recursion loop [a] M a g) (unguarded : M.Unguarded)
    (keeps : a.KeepsToFrame m M) (step : m.step a [] M = .ok new N) (returns : m.run fuel (new ++ callers) N = .returned F)
    {callee next : Nat} (read : Instr.read a.body a.pos = .ok (.call callee) next) {f : Function σ}
    (function : m.function callee = .ok f) :
    Module.isRepeated g callee f.signature.params.length (M.withGuards recursion loop).store = .ok false := by
  have spared : a.frame.offset + f.signature.params.length ≤ M.store.stack.values.size := keeps _ next read f function
  unfold Module.isRepeated
  by_cases repeats : callee = g.index ∧ (M.withGuards recursion loop).store.options.recursionGuard = true ∧
      (M.withGuards recursion loop).store.effects = g.effects
  · obtain ⟨self, guarded, effects⟩ := repeats
    rw [if_pos ⟨self, guarded, effects⟩]
    have top : (M.withGuards recursion loop).store.stack.top? f.signature.params.length =
        some (M.store.stack.values.extract (M.store.stack.values.size - f.signature.params.length)
          M.store.stack.values.size) := if_pos (show _ ≤ M.store.stack.values.size by omega)
    rw [top]
    dsimp only
    cases same : M.store.stack.values.extract (M.store.stack.values.size - f.signature.params.length)
        M.store.stack.values.size == g.arguments with
    | false => rfl
    | true =>
      exfalso
      obtain ⟨f₀, offset, E₀, E, count, function₀, whole, entered, leads, effects₀, arguments⟩ := record.entry
      obtain rfl : callee = a.index := self.trans record.alike.index
      obtain rfl : f = f₀ := Except.ok.inj (function.symm.trans function₀)
      obtain ⟨f', offset', function', whole', turn⟩ := Module.step_call unguarded read step
      obtain rfl : f = f' := Except.ok.inj (function.symm.trans function')
      obtain ⟨body, jumps, code, table, -, -, fresh, rfl⟩ := Module.enter_eq_some entered
      obtain ⟨entered', rfl⟩ | ⟨inner, entered', rfl⟩ := turn
      -- A function that has code is not over at once.
      · obtain ⟨_, _, _, _, _, _, _, host, -⟩ := Module.enter_eq_none entered'
        rw [code] at host
        cases host
      · obtain ⟨body', jumps', code', table', -, -, rfl, rfl⟩ := Module.enter_eq_some entered'
        obtain rfl : body = body' := Body.code.inj (code.symm.trans code')
        obtain rfl : jumps = jumps' := Except.ok.inj (table.symm.trans table')
        have kept := leads.kept
        have quiet : M.store.effects = E₀.store.effects := effects.trans effects₀
        have origin := congrArg (fun e : Activation => e.frame.offset) fresh
        dsimp only at origin
        rw [origin] at spared
        have lower : offset ≤ offset' := by omega
        rw [fresh] at leads
        have stack := Stack.alike_of_arguments (zeros f.locals) whole whole' lower
          ((beq_iff_eq.mp same).trans (arguments guarded))
        -- What led from the entry to this call leads from it to another one inside, and there is no end to it.
        have recurs : m.Recurs _ _ (offset' - offset) _ _ :=
          ⟨⟨count, _, leads.onward keeps step⟩, quiet, unguarded.before kept,
            ⟨rfl, rfl, rfl, (Nat.add_sub_cancel' lower).symm, rfl, rfl, rfl, .nil⟩,
            alike_of_kept kept quiet stack (M.store.depth + 1)⟩
        exact recurs.never_returns fuel _ F returns
  · rw [if_neg repeats]

end Wasm
