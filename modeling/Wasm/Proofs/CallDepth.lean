import Wasm.Proofs.Effects

/-! The limit of the depth. A call that does not come up against it ends the same with a higher one, and there are never
    more activations than it allows. -/

namespace Wasm
variable {σ α : Type}

open Run

/-! ### Operations with a higher limit -/

section Stores
variable {limit : Nat}

theorem onMemory_withLimit (index : Nat) (op : Memory.Op α) :
    Commutes (Store.withLimit limit) (Store.onMemory index op) := by
  intro s
  unfold Store.onMemory
  rw [show (s.withLimit limit).memories = s.memories from rfl]
  cases s.memories[index]? with
  | none => rfl
  | some m =>
    dsimp only
    cases op m <;> rfl

theorem look_withLimit {k : Store → Exec α} (then_ : ∀ s, Commutes (Store.withLimit limit) (k s))
    (blind : ∀ s limit, k (s.withLimit limit) = k s) : Commutes (Store.withLimit limit) (get >>= k) := by
  intro s
  show k (s.withLimit limit) (s.withLimit limit) = mapState _ (k s s)
  rw [blind]
  exact then_ s s

theorem countEffect_withLimit : Commutes (Store.withLimit limit) Store.countEffect := fun _ => rfl

/-- Nothing that works on a store looks at the limit. -/
theorem Exec.Built.withLimit {op : Exec α} (h : Built op) : Commutes (Store.withLimit limit) op := by
  induction h with
  | pure a => exact .pure a
  | throw e => exact .throw e
  | bind _ _ first second => exact first.bind second
  | look _ blind then_ => exact look_withLimit then_ blind
  | stack op =>
    refine .of_cases (fun s a t done => ?_) fun s e t failed => ?_
    · obtain ⟨stack, ran, rfl⟩ := Store.onStack_eq_ok.mp done
      exact Store.onStack_eq_ok.mpr ⟨stack, ran, rfl⟩
    · obtain ⟨stack, stopped, rfl⟩ := Store.onStack_eq_error.mp failed
      exact Store.onStack_eq_error.mpr ⟨stack, stopped, rfl⟩
  | read index _ => exact onMemory_withLimit index _
  | write _ =>
    refine look_withLimit (fun s => ?_) fun _ _ => rfl
    split
    · exact .pure _
    · exact (onMemory_withLimit 0 _).bind fun _ => countEffect_withLimit
  | grow delta =>
    refine look_withLimit (fun s => ?_) fun _ _ => rfl
    split
    · exact .pure _
    · refine (onMemory_withLimit 0 _).bind fun before => ?_
      split
      · exact countEffect_withLimit.bind fun _ => .pure _
      · exact .pure _
  | global index =>
    intro s
    unfold Store.global
    rw [show (s.withLimit limit).globals = s.globals from rfl]
    cases s.globals[index]? <;> rfl
  | setGlobal index v =>
    intro s
    unfold Store.setGlobal
    rw [show (s.withLimit limit).globals = s.globals from rfl]
    cases s.globals[index]? with
    | none => rfl
    | some g =>
      dsimp only
      split
      · rfl
      · split <;> rfl
  | segment index offset n =>
    intro s
    unfold Store.segment
    rw [show (s.withLimit limit).data = s.data from rfl]
    cases s.data[index]? with
    | none => rfl
    | some part =>
      dsimp only
      split <;> rfl
  | dropSegment index =>
    intro s
    show (if index < s.data.size then _ else _) = mapState _ (if index < s.data.size then _ else _)
    split <;> rfl

end Stores

/-- The operation runs out of depth, or ends the same with a higher limit. -/
def Run.Outlasts (op : Run σ α) (M : Machine σ) (limit : Nat) : Prop :=
  (∃ N, op M = .error (.callStackExhausted M.store.options.maxCallDepth) N) ∨
    op (M.withLimit limit) = mapState (Machine.withLimit limit) (op M)

theorem Run.Built.outlasts {calls : Prop} {op : Run σ α} (h : Built calls op) {M : Machine σ} {limit : Nat}
    (more : M.store.options.maxCallDepth ≤ limit) : Outlasts op M limit := by
  induction h generalizing M with
  | pure a => exact .inr rfl
  | throw e => exact .inr rfl
  | @bind _ _ x k built _ first second =>
    rcases first more with ⟨N, exhausted⟩ | same
    · exact .inl ⟨N, bind_error exhausted⟩
    · cases ran : x M with
      | error e N =>
        rw [ran] at same
        right
        rw [bind_error same, bind_error ran]
        rfl
      | ok a N =>
        rw [ran] at same
        have options : N.store.options = M.store.options := (built.changes.ok .refl ran).kept.options
        unfold Outlasts
        rw [bind_ok ran, bind_ok same, ← options]
        exact second a (by rwa [options])
  | @look _ k _ blind then_ =>
    show (∃ N, k M.store M = _) ∨ k (M.store.withLimit limit) (M.withLimit limit) = mapState _ (k M.store M)
    rw [blind]
    exact then_ M.store more
  | @onStore _ op built =>
    have same : op (M.store.withLimit limit) = mapState _ (op M.store) := built.withLimit M.store
    right
    cases done : op M.store with
    | ok a t =>
      rw [done] at same
      rw [onStore_eq_ok.mpr ⟨t, done, rfl⟩]
      exact onStore_eq_ok.mpr ⟨_, same, rfl⟩
    | error e t =>
      rw [done] at same
      rw [onStore_eq_error.mpr ⟨t, done, rfl⟩]
      exact onStore_eq_error.mpr ⟨_, same, rfl⟩
  | notify n => exact .inr rfl
  -- This alone looks at the limit. Where the depth is below the lower one it is below the higher one too.
  | @deepen _ k index _ _ blind then_ =>
    by_cases deep : M.store.options.maxCallDepth ≤ M.store.depth
    · refine .inl ⟨{ M with notices := M.notices.push (.depthLimit index M.store.options.maxCallDepth) }, ?_⟩
      rw [bind_ok (store_eq M), if_pos deep]
      rfl
    · have next := then_ M.store (M := { M with store.depth := M.store.depth + 1 }) more
      have shallow : ¬(M.withLimit limit).store.options.maxCallDepth ≤ (M.withLimit limit).store.depth :=
        fun h => deep (Nat.le_trans more h)
      unfold Outlasts
      rw [bind_ok (store_eq M), if_neg deep, bind_ok (store_eq (M.withLimit limit)), if_neg shallow, M.store_withLimit,
        blind]
      exact next
  | leaveDepth _ => exact .inr rfl
  | callHost f arguments _ =>
    right
    cases ran : f arguments M.host with
    | ok results host =>
      rw [callHost_eq_ok.mpr ⟨host, ran, rfl⟩]
      exact callHost_eq_ok.mpr ⟨host, ran, rfl⟩
    | error e host =>
      rw [callHost_eq_error.mpr ⟨host, ran, rfl⟩]
      exact callHost_eq_error.mpr ⟨host, ran, rfl⟩

/-- The same outcome on a machine with another limit. -/
def Outcome.withLimit (limit : Nat) : Outcome σ → Outcome σ
  | returned M => .returned (M.withLimit limit)
  | trapped e M => .trapped e (M.withLimit limit)
  | unfinished M => .unfinished (M.withLimit limit)

/-! ### Calls of host functions with a higher limit -/

theorem Function.hostCalls_withLimit {f : Function σ} {index offset limit : Nat} {s : Store}
    (shallow : s.depth < s.options.maxCallDepth) (more : s.options.maxCallDepth ≤ limit) :
    f.hostCalls index offset (s.withLimit limit) = f.hostCalls index offset s := by
  have shallow' : s.depth < limit := Nat.lt_of_lt_of_le shallow more
  unfold hostCalls
  split
  · dsimp only
    refine if_congr ?_ rfl rfl
    exact ⟨fun h => ⟨shallow, h.2⟩, fun h => ⟨shallow', h.2⟩⟩
  · rfl

namespace Module
variable {m : Module σ} {f : Function σ} {act : Activation} {callers chain : List Activation} {M : Machine σ}
  {index offset fuel limit : Nat} {arguments : Array Value}

theorem enter_exhausted (m : Module σ) (f : Function σ) (index offset : Nat)
    (deep : M.store.options.maxCallDepth ≤ M.store.depth) :
    ∃ N, m.enter f index offset M = .error (.callStackExhausted M.store.options.maxCallDepth) N := by
  refine ⟨{ M with notices := M.notices.push (.depthLimit index M.store.options.maxCallDepth) }, ?_⟩
  refine (bind_ok (store_eq M)).trans ?_
  dsimp only
  rw [if_pos deep]
  rfl

/-- A host function is entered as deep as any other. -/
theorem enter_hostCalls_withLimit (m : Module σ) (f : Function σ) (index offset : Nat)
    (more : M.store.options.maxCallDepth ≤ limit) :
    (∃ N, m.enter f index offset M = .error (.callStackExhausted M.store.options.maxCallDepth) N) ∨
      f.hostCalls index offset (M.store.withLimit limit) = f.hostCalls index offset M.store := by
  by_cases deep : M.store.options.maxCallDepth ≤ M.store.depth
  · exact .inl (enter_exhausted m f index offset deep)
  · exact .inr (Function.hostCalls_withLimit (Nat.not_le.mp deep) more)

/-- The next instruction makes the same call of a host function with a higher limit, unless it is too deep for it. -/
theorem step_hostCalls_withLimit (m : Module σ) (act : Activation) (callers : List Activation)
    (more : M.store.options.maxCallDepth ≤ limit) :
    (∃ N, m.step act callers M = .error (.callStackExhausted M.store.options.maxCallDepth) N) ∨
      act.hostCalls m (M.store.withLimit limit) = act.hostCalls m M.store := by
  by_cases deep : M.store.options.maxCallDepth ≤ M.store.depth
  · have none : act.hostCalls m M.store = [] := Decidable.byContradiction fun calls => by
      obtain ⟨_, _, _, -, -, -, calls⟩ := Activation.hostCalls_ne_nil calls
      obtain ⟨_, _, _, -, shallow, -⟩ := Function.hostCalls_ne_nil calls
      omega
    by_cases calls : act.hostCalls m (M.store.withLimit limit) = []
    · exact .inr (calls.trans none.symm)
    · obtain ⟨callee, next, f, read, function, fresh, calls⟩ := Activation.hostCalls_ne_nil calls
      obtain ⟨_, _, _, -, -, enough⟩ := Function.hostCalls_ne_nil calls
      obtain ⟨N, exhausted⟩ := enter_exhausted m f callee (M.store.stack.size - f.signature.params.length) deep
      have called : m.callFrom { act with pos := next } callee M = _ :=
        (callFrom_fresh function fresh (Nat.le_trans (Nat.le_add_left _ _) enough)).trans exhausted
      exact .inl ⟨N, (step_reads_call read callers M).trans (bind_error called)⟩
  · have same : ∀ (f : Function σ) callee offset, f.hostCalls callee offset (M.store.withLimit limit) =
        f.hostCalls callee offset M.store := fun _ _ _ => Function.hostCalls_withLimit (Nat.not_le.mp deep) more
    right
    unfold Activation.hostCalls
    simp only [same]
    rfl

/-! ### Runs and calls from outside with a higher limit -/

theorem step_withLimit (m : Module σ) (act : Activation) (callers : List Activation)
    (more : M.store.options.maxCallDepth ≤ limit) :
    (∃ N, m.step act callers M = .error (.callStackExhausted M.store.options.maxCallDepth) N) ∨
      (m.step act callers (M.withLimit limit) = mapState (Machine.withLimit limit) (m.step act callers M) ∧
        act.hostCalls m (M.store.withLimit limit) = act.hostCalls m M.store) := by
  rcases (m.step_built act callers).outlasts more with exhausted | same
  · exact .inl exhausted
  · exact (m.step_hostCalls_withLimit act callers more).imp_right fun calls => ⟨same, calls⟩

/-- A run that does not run out of depth ends the same with a higher limit, and calls the same host functions. -/
theorem run_withLimit (m : Module σ) (fuel : Nat) (chain : List Activation)
    (more : M.store.options.maxCallDepth ≤ limit) :
    (∃ N, m.run fuel chain M = .trapped (.callStackExhausted M.store.options.maxCallDepth) N) ∨
      (m.run fuel chain (M.withLimit limit) = (m.run fuel chain M).withLimit limit ∧
        m.hostCalls fuel chain (M.withLimit limit) = m.hostCalls fuel chain M) := by
  induction fuel, chain, M using m.run_induction with
  | ended fuel M =>
    rw [run_nil, run_nil]
    exact .inr ⟨rfl, by cases fuel <;> rfl⟩
  | spent act callers M => exact .inr ⟨rfl, rfl⟩
  | fails fuel act callers M e N step =>
    rcases m.step_withLimit act callers more with ⟨P, exhausted⟩ | ⟨same, calls⟩
    · exact .inl ⟨P, run_error exhausted⟩
    · rw [step] at same
      rw [run_error step, run_error same, hostCalls, hostCalls, step, same, M.store_withLimit, calls]
      exact .inr ⟨rfl, rfl⟩
  | onward fuel act callers M chain N step ih =>
    rcases m.step_withLimit act callers more with ⟨P, exhausted⟩ | ⟨same, calls⟩
    · exact .inl ⟨P, run_error exhausted⟩
    · rw [step] at same
      -- A step keeps the limit, so that what follows is again compared with the same higher one.
      have options : N.store.options = M.store.options :=
        ((m.step_built act callers).changes.ok .refl step).kept.options
      have later := ih (show N.store.options.maxCallDepth ≤ limit by rwa [options])
      rw [options] at later
      rw [run_ok step, run_ok same, hostCalls, hostCalls, step, same, M.store_withLimit, calls]
      rcases later with exhausted | ⟨ends, calls⟩
      · exact .inl exhausted
      · exact .inr ⟨ends, congrArg _ calls⟩

theorem starts_withLimit (m : Module σ) (f : Function σ) (index : Nat) (arguments : Array Value)
    (more : M.store.options.maxCallDepth ≤ limit) :
    (∃ N, m.starts f index arguments M = .error (.callStackExhausted M.store.options.maxCallDepth) N) ∨
      (m.starts f index arguments (M.withLimit limit) = mapState (Machine.withLimit limit) (m.starts f index arguments M) ∧
        f.hostCalls index M.store.stack.size
            { M.store.withLimit limit with stack := ⟨M.store.stack.values ++ arguments⟩ } =
          f.hostCalls index M.store.stack.size { M.store with stack := ⟨M.store.stack.values ++ arguments⟩ }) := by
  rcases (m.starts_built f index arguments).outlasts more with exhausted | same
  · exact .inl exhausted
  · let pushed : Machine σ := { M with store.stack := ⟨M.store.stack.values ++ arguments⟩ }
    have entered := m.enter_hostCalls_withLimit f index M.store.stack.size
      (show pushed.store.options.maxCallDepth ≤ limit from more)
    rcases entered with exhausted | calls
    · exact .inl exhausted
    · exact .inr ⟨same, calls⟩

theorem runToEnd_withLimit (m : Module σ) (fuel : Nat) (accepted : m.accept index arguments = .ok f)
    (more : M.store.options.maxCallDepth ≤ limit) :
    (∃ N, m.runToEnd fuel f index arguments M = .trapped (.callStackExhausted M.store.options.maxCallDepth) N) ∨
      (m.runToEnd fuel f index arguments (M.withLimit limit) = (m.runToEnd fuel f index arguments M).withLimit limit ∧
        m.invokeCalls fuel index arguments (M.withLimit limit) = m.invokeCalls fuel index arguments M) := by
  unfold invokeCalls
  rw [accepted, runToEnd_eq, runToEnd_eq]
  dsimp only
  rcases m.starts_withLimit f index arguments more with ⟨N, exhausted⟩ | ⟨same, first⟩
  · rw [exhausted]
    exact .inl ⟨N, rfl⟩
  · rw [same]
    cases begun : m.starts f index arguments M with
    | error e N => exact .inr ⟨rfl, congrArg (· ++ []) first⟩
    | ok r N =>
      cases r with
      | none => exact .inr ⟨rfl, congrArg (· ++ []) first⟩
      | some act =>
        have options : N.store.options = M.store.options :=
          ((m.starts_built f index arguments).changes.ok .refl begun).kept.options
        have later := m.run_withLimit fuel [act] (show N.store.options.maxCallDepth ≤ limit by rwa [options])
        rw [options] at later
        rcases later with exhausted | ⟨ends, calls⟩
        · exact .inl exhausted
        · exact .inr ⟨ends, congrArg₂ (· ++ ·) first calls⟩

end Module

/-! ### How many activations there are -/

theorem Function.length_hostCalls_le {f : Function σ} {index offset : Nat} {s : Store} :
    (f.hostCalls index offset s).length ≤ 1 := by
  unfold hostCalls
  split
  · dsimp only
    split <;> simp
  · simp

/-- A host function that is called is one activation more. -/
theorem Function.depth_add_hostCalls {f : Function σ} {index offset : Nat} {s : Store}
    (within : s.depth ≤ s.options.maxCallDepth) :
    s.depth + (f.hostCalls index offset s).length ≤ s.options.maxCallDepth := by
  by_cases calls : f.hostCalls index offset s = []
  · rw [calls]
    exact within
  · obtain ⟨_, _, _, -, shallow, -⟩ := hostCalls_ne_nil calls
    have one : (f.hostCalls index offset s).length ≤ 1 := length_hostCalls_le
    omega

theorem Activation.depth_add_hostCalls {m : Module σ} {act : Activation} {s : Store}
    (within : s.depth ≤ s.options.maxCallDepth) : s.depth + (act.hostCalls m s).length ≤ s.options.maxCallDepth := by
  unfold hostCalls
  split
  · split
    · dsimp only
      split
      · exact Function.depth_add_hostCalls within
      · exact within
    · exact within
  · exact within

namespace Module

/-- The activations at work, and the host function that is called next. -/
def atWork (m : Module σ) : List Activation → Machine σ → Nat
  | act :: callers, M => (act :: callers).length + (act.hostCalls m M.store).length
  | [], _ => 0

theorem atWork_le {m : Module σ} {chain : List Activation} {M : Machine σ} {base : Nat}
    (counted : M.store.depth = base + chain.length) (within : M.Within) :
    m.atWork chain M ≤ M.store.options.maxCallDepth := by
  cases chain with
  | nil => exact Nat.zero_le _
  | cons act callers =>
    have deeper := act.depth_add_hostCalls (m := m) within
    have counted' : M.store.depth = base + (callers.length + 1) := counted
    show callers.length + 1 + (act.hostCalls m M.store).length ≤ _
    omega

/-- A call that does not run out of depth ends the same with a higher limit, with the same on the machine and after the
    same calls of host functions. There are never more activations at work than the limit allows, host functions among
    them. -/
theorem invokeIndex_withLimit (m : Module σ) (M : Machine σ) (fuel index : Nat) (arguments : Array Value) :
    (∀ limit, M.store.options.maxCallDepth ≤ limit →
      (∀ N, m.invokeIndex fuel index arguments M ≠
        .error (.trap (.callStackExhausted M.store.options.maxCallDepth)) N) →
      m.invokeIndex fuel index arguments (M.withLimit limit) =
          mapState (Machine.withLimit limit) (m.invokeIndex fuel index arguments M) ∧
        m.invokeCalls fuel index arguments (M.withLimit limit) = m.invokeCalls fuel index arguments M) ∧
    (∀ f, m.function index = .ok f →
      (f.hostCalls index M.store.stack.size { M.store with stack := ⟨M.store.stack.values ++ arguments⟩ }).length ≤
        M.store.options.maxCallDepth) ∧
    ∀ f act N chain N', m.starts f index arguments M = .ok (some act) N → m.Visits [act] N chain N' →
      m.atWork chain N' ≤ M.store.options.maxCallDepth := by
  refine ⟨fun limit more enough => ?_, fun f _ => ?_, fun f act N chain N' begun visits => ?_⟩
  · cases accepted : m.accept index arguments with
    | error e =>
      unfold invokeIndex invokeCalls
      rw [accepted]
      exact ⟨rfl, rfl⟩
    | ok f =>
      rcases m.runToEnd_withLimit fuel accepted more with ⟨N, exhausted⟩ | ⟨ends, calls⟩
      · refine absurd ?_ (enough { N with
          store.stack := ⟨N.store.stack.values.shrink M.store.stack.size⟩
          store.depth := M.store.depth })
        unfold invokeIndex
        rw [accepted]
        dsimp only
        rw [exhausted]
      · refine ⟨?_, calls⟩
        unfold invokeIndex
        rw [accepted]
        dsimp only
        rw [ends]
        cases m.runToEnd fuel f index arguments M <;> rfl
  · by_cases calls : f.hostCalls index M.store.stack.size
        { M.store with stack := ⟨M.store.stack.values ++ arguments⟩ } = []
    · rw [calls]
      exact Nat.zero_le _
    · obtain ⟨_, _, _, -, shallow, -⟩ := Function.hostCalls_ne_nil calls
      exact Nat.le_trans Function.length_hostCalls_le (Nat.lt_of_le_of_lt (Nat.zero_le _) shallow)
  · have entered := begun
    rw [starts_eq] at entered
    obtain ⟨_, _, -, -, shallow, -, -, rfl⟩ := enter_eq_some entered
    -- The depth counts the activations, and one more is at work only where there was still room for it.
    have counted := visits_depth visits (show M.store.depth + 1 = M.store.depth + [act].length from rfl)
    have within := visits_within visits (show Machine.Within _ from shallow)
    have options : N'.store.options = M.store.options := (visits_changes visits).kept.options
    rw [← options]
    exact atWork_le counted within

/-- A function calls another one, and that one the host: three activations at once, as many as there may be. -/
theorem invokeIndex_withLimit_nested :
    let outer : Function Nat := { signature := ⟨[], []⟩, body := .code ⟨#[0x10, 0x01, 0x0B]⟩ }
    let inner : Function Nat := { signature := ⟨[], []⟩, body := .code ⟨#[0x10, 0x02, 0x0B]⟩ }
    let tick : Function Nat := {
      signature := ⟨[], []⟩
      body := .host "host" "tick" (some fun _ ticks => .ok #[] (ticks + 1)) }
    let m := ({ functions := #[outer, inner, tick] } : Module Nat).withJumps {}
    let M : Machine Nat := ⟨{ options := { maxCallDepth := 3 } }, 0, #[]⟩
    (m.invokeIndex 4 0 #[] (M.withLimit 1000) = mapState (Machine.withLimit 1000) (m.invokeIndex 4 0 #[] M) ∧
      m.invokeCalls 4 0 #[] (M.withLimit 1000) = m.invokeCalls 4 0 #[] M) ∧
    ∃ act N chain N', m.starts outer 0 #[] M = .ok (some act) N ∧ m.Visits [act] N chain N' ∧
      m.atWork chain N' = 3 ∧ m.atWork chain N' ≤ M.store.options.maxCallDepth := by
  intro outer inner tick m M
  have ⟨ends, _, working⟩ := invokeIndex_withLimit m M 4 0 #[]
  refine ⟨ends 1000 (by decide) fun N exhausted => ?_, ?_⟩
  · have returns : (match m.invokeIndex 4 0 #[] M with
      | .ok _ _ => true
      | .error _ _ => false) = true := by decide +kernel
    rw [exhausted] at returns
    cases returns
  · let op : Run Nat Nat := m.starts outer 0 #[] >>= fun r => r.elim (pure 0) fun act =>
      m.step act [] >>= fun chain N => .ok (m.atWork chain N) N
    have three : op.run' M = some 3 := by decide +kernel
    obtain ⟨N', done⟩ : ∃ N', op M = .ok 3 N' := by
      unfold EStateM.run' at three
      split at three <;> cases three
      exact ⟨_, ‹_›⟩
    obtain ⟨r, N, begun, rest⟩ := bind_eq_ok.mp done
    cases r with
    | none => cases rest
    | some act =>
      obtain ⟨chain, _, stepped, working'⟩ := bind_eq_ok.mp rest
      obtain ⟨three, rfl⟩ := EStateM.Result.ok.inj working'
      have visits : m.Visits [act] N chain _ := .onward stepped .here
      exact ⟨act, N, chain, _, begun, visits, three, working outer act N chain _ begun visits⟩

end Module
end Wasm
