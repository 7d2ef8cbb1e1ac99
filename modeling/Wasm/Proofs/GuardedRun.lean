import Wasm.Proofs.GuardedActivation
import Wasm.Proofs.Course

/-! Calls and runs under guard. The depth is counted up when a function is entered and down again when it is left, also
    where it fails: a trap goes through all activations, and each of them counts down as it goes. -/

namespace Wasm
variable {σ α β : Type}

open Run

/-! ### Calls under guard -/

namespace Run

/-- A call of a host function counts as an effect, whatever it comes to. -/
def callHost! (f : HostFunc σ) (arguments : Array Value) : GuardedRun σ (Array Value) := fun M => do
  let _ ← Checked.count M.store.effects
  return callHost f arguments M

def leaveDepth! : GuardedRun σ Unit := fun M => do
  let depth ← Checked.sub M.store.depth 1
  return .ok () { M with store.depth := depth }

end Run

namespace Module

/-- The arguments are noted if the recursion guard will ask for them. -/
def noted! (s : Store) (first last : Nat) : Checked (Array Value) :=
  if s.options.recursionGuard then Checked.slice s.stack.values first last else return #[]

/-- A host function takes its arguments off the stack, and is over at once. -/
def runHost! (f : Function σ) (function : HostFunc σ) (offset : Nat) : GuardedRun σ (Option Activation) := do
  let arguments ← onStack! (Stack.popMany! f.signature.params.length)
  let results ← callHost! function arguments
  (ofExcept (checkResults f.signature.results results) : Run σ Unit)
  (Run.onStack (Stack.truncate offset) : Run σ Unit)
  (Run.onStack (Stack.pushMany results) : Run σ Unit)
  leaveDepth!
  return none

/-- The jump table is built on the store that there is. -/
def activate! (m : Module σ) (f : Function σ) (index offset : Nat) (body : ByteArray) (s : Store) :
    GuardedRun σ (Option Activation) := do
  let _ ← Checked.size body.size
  let table ← JumpTable.build! m.signatures f.signature f.locals body s
  let jumps ← (ofExcept table : Run σ _)
  let arguments ← noted! s offset (offset + f.signature.params.length)
  let locals ← Checked.size f.locals.length
  let slots ← Checked.add 64 f.signature.params.length locals
  let _ ← Checked.size (s.stack.size + locals)
  (Run.onStack (Stack.pushMany (zeros f.locals)) : Run σ Unit)
  return some {
    index, body, jumps, arguments
    frame := ⟨offset, slots⟩
    results := f.signature.results
    effects := s.effects }

/-- What a function does once it has been counted. -/
def begin! (m : Module σ) (f : Function σ) (index offset : Nat) (s : Store) : GuardedRun σ (Option Activation) := do
  let size ← Checked.size s.stack.size
  let params ← Checked.size f.signature.params.length
  let top ← Checked.add 64 offset params
  if size < top then (throw .stackUnderflow : Run σ Unit)
  match f.body with
  | .pending => (throw (.missingBody index) : Run σ _)
  | .host moduleName name none => (throw (.unboundImport moduleName name) : Run σ _)
  | .host _ _ (some function) => runHost! f function offset
  | .code body => m.activate! f index offset body s

/-- A function that fails is left, too. -/
def enter! (m : Module σ) (f : Function σ) (index offset : Nat) : GuardedRun σ (Option Activation) := fun M =>
  let limit := M.store.options.maxCallDepth
  if limit ≤ M.store.depth then
    return .error (.callStackExhausted limit) { M with notices := M.notices.push (.depthLimit index limit) }
  else do
    let depth ← Checked.add 64 M.store.depth 1
    match ← m.begin! f index offset M.store { M with store.depth := depth } with
    | .ok r N => return .ok r N
    | .error e N => do
      let depth ← Checked.sub N.store.depth 1
      return .error e { N with store.depth := depth }

/-- The arguments of a call are compared where they are on the stack. -/
def isRepeated! (act : Activation) (callee params : Nat) (s : Store) : Checked (Except Trap Bool) :=
  if callee = act.index ∧ s.options.recursionGuard = true ∧ s.effects = act.effects then
    if params ≤ s.stack.size then do
      let vs ← Checked.slice s.stack.values (s.stack.size - params) s.stack.size
      return .ok (vs == act.arguments)
    else return .error .stackUnderflow
  else return .ok false

def callFrom! (m : Module σ) (act : Activation) (callee : Nat) : GuardedRun σ (Option Activation) := do
  let f ← (ofExcept (m.function callee) : Run σ _)
  let params := f.signature.params.length
  let again ← isRepeated! act callee params (← (store : Run σ _))
  if ← (ofExcept again : Run σ _) then
    (notify (.repeatedCall callee) : Run σ _)
    let _ ← onStack! (Stack.popMany! params)
    (Run.onStack (Stack.pushMany (zeros f.signature.results)) : Run σ Unit)
    return none
  let offset ← (Activation.heightBelow params : Run σ _)
  m.enter! f callee offset

def leave! (act : Activation) : GuardedRun σ Unit := do
  onStack! (Stack.settle! act.frame.offset act.results.length)
  leaveDepth!

def step! (m : Module σ) (act : Activation) (callers : List Activation) : GuardedRun σ (List Activation) := do
  match ← act.step! m.types with
  | .next act => return act :: callers
  | .ret =>
    leave! act
    return callers
  | .call act callee =>
    match ← m.callFrom! act callee with
    | some inner => return inner :: act :: callers
    | none => return act :: callers

/-- The depth once all of these activations have been left. -/
def unwind! : List Activation → (depth : Nat) → Checked Nat
  | [], depth => return depth
  | _ :: callers, depth => do unwind! callers (← Checked.sub depth 1)

def run! (m : Module σ) : (fuel : Nat) → List Activation → Machine σ → Checked (Outcome σ)
  | _, [], M => return .returned M
  | 0, _ :: _, M => return .unfinished M
  | fuel + 1, act :: callers, M => do
    match ← m.step! act callers M with
    | .ok chain M => m.run! fuel chain M
    | .error e M => do
      let depth ← unwind! (act :: callers) M.store.depth
      return .trapped e { M with store.depth := depth }

end Module

/-! ### Where the depth is set back -/

namespace Run

/-- A failure, with the depth set back. -/
def atDepth (depth : Nat) : EStateM.Result Trap (Machine σ) α → EStateM.Result Trap (Machine σ) α
  | .ok a N => .ok a N
  | .error e N => .error e { N with store.depth := depth }

/-- The operation, with the depth set back where it fails. -/
def settling (op : Run σ α) : Run σ α := fun M => atDepth M.store.depth (op M)

/-- The depth stays what it is, whatever the operation comes to. -/
def Level (op : Run σ α) : Prop := ∀ M, (stateAfter op M).store.depth = M.store.depth

theorem Level.built {op : Run σ α} (h : Built False op) : Level op := fun M =>
  (h.changes.after (s := M) .refl).depth

theorem Level.callHost (f : HostFunc σ) (arguments : Array Value) : Level (callHost f arguments) := by
  intro M
  unfold stateAfter Run.callHost
  dsimp only
  cases f arguments M.host <;> rfl

/-- What comes first does not change the depth. -/
theorem settling_bind {x : Run σ α} {k : α → Run σ β} (h : Level x) :
    settling (x >>= k) = x >>= fun a => settling (k a) := by
  funext M
  have level := h M
  show atDepth M.store.depth ((x >>= k) M) = (x >>= fun a => settling (k a)) M
  cases ran : x M with
  | ok a N =>
    rw [stateAfter_ok ran] at level
    rw [bind_ok ran, bind_ok ran, ← level]
    rfl
  | error e N =>
    rw [stateAfter_error ran] at level
    rw [bind_error ran, bind_error ran, ← level]
    rfl

/-- Where the operation fails, the depth is what it was. -/
def Settled (op : Run σ α) : Prop := settling op = op

namespace Settled

theorem of_level {op : Run σ α} (h : Level op) : Settled op := by
  funext M
  have level := h M
  unfold settling
  cases ran : op M with
  | ok a N => rfl
  | error e N =>
    rw [stateAfter_error ran] at level
    rw [← level]
    rfl

theorem built {op : Run σ α} (h : Built False op) : Settled op := of_level (.built h)

theorem bind {x : Run σ α} {k : α → Run σ β} (h : Level x) (hk : ∀ a, Settled (k a)) : Settled (x >>= k) := by
  unfold Settled
  rw [settling_bind h]
  exact congrArg _ (funext hk)

theorem depth {op : Run σ α} (h : Settled op) {M N : Machine σ} {e : Trap} (failed : op M = .error e N) :
    N.store.depth = M.store.depth := by
  have same : atDepth M.store.depth (op M) = op M := congrFun h M
  rw [failed] at same
  injection same with _ same
  rw [← same]

end Settled

end Run

/-- What comes first does not change the depth, and what comes next sets it back where it fails. -/
theorem GivesAt.settling_bind {Q : α → Prop} {R : β → Prop} {M : Machine σ} {g : GuardedRun σ α} {x : Run σ α}
    {k! : α → GuardedRun σ β} {k : α → Run σ β} (h : GivesAt Machine.Sturdy Q M g x) (level : Level x)
    (hk : ∀ a N, N.Sturdy → Q a → x M = .ok a N → GivesAt Machine.Sturdy R N (k! a) (settling (k a))) :
    GivesAt Machine.Sturdy R M (g >>= k!) (settling (x >>= k)) := by
  rw [Run.settling_bind level]
  exact h.bind hk

theorem GivesAt.settled {Q : α → Prop} {M : Machine σ} {g : GuardedRun σ α} {x : Run σ α}
    (h : GivesAt Machine.Sturdy Q M g x) (settled : Settled x) : GivesAt Machine.Sturdy Q M g (settling x) := by
  unfold Settled at settled
  rwa [settled]

/-- Nothing fails in what comes last. -/
theorem Run.settling_map (x : Run σ α) {k : α → Run σ β} {f : α → β} (h : ∀ a, k a = pure (f a)) :
    settling (x >>= k) = settling x >>= k := by
  funext M
  show atDepth M.store.depth ((x >>= k) M) = (settling x >>= k) M
  cases ran : x M with
  | ok a N =>
    have settled : settling x M = .ok a N := by
      unfold settling
      rw [ran]
      rfl
    rw [bind_ok ran, bind_ok settled, h]
    rfl
  | error e N =>
    have settled : settling x M = .error e { N with store.depth := M.store.depth } := by
      unfold settling
      rw [ran]
      rfl
    rw [bind_error ran, bind_error settled]
    rfl

namespace Module

/-! ### Entering functions -/

theorem callHost_guarded (function : HostFunc σ) (arguments : Array Value) :
    Yields Anything (callHost! function arguments) (callHost function arguments) := by
  refine fun M sturdy => .of_faultless ((Checked.count_faultless _).bind (.ok _)) ?_
  unfold stateAfter
  cases called : callHost function arguments M with
  | ok results N =>
    obtain ⟨host, -, rfl⟩ := callHost_eq_ok.mp called
    exact Store.Sturdy.congr sturdy rfl rfl
  | error e N =>
    obtain ⟨host, -, rfl⟩ := callHost_eq_error.mp called
    exact Store.Sturdy.congr sturdy rfl rfl

theorem leaveDepth_guarded {M : Machine σ} (sturdy : M.Sturdy) (entered : 0 < M.store.depth) :
    GivesAt Machine.Sturdy Anything M leaveDepth! leaveDepth := by
  refine .of_faultless (.of_eq ?_) (Store.Sturdy.congr sturdy rfl rfl)
  unfold leaveDepth!
  rw [Checked.sub_ok entered]
  rfl

def runHost (f : Function σ) (function : HostFunc σ) (offset : Nat) : Run σ (Option Activation) := do
  let arguments ← Run.onStack (Stack.popMany f.signature.params.length)
  let results ← callHost function arguments
  ofExcept (checkResults f.signature.results results)
  Run.onStack (Stack.truncate offset)
  Run.onStack (Stack.pushMany results)
  leaveDepth
  return none

def activate (m : Module σ) (f : Function σ) (index offset : Nat) (body : ByteArray) (s : Store) :
    Run σ (Option Activation) := do
  let jumps ← ofExcept (m.jumpTable index)
  let params := f.signature.params.length
  let arguments := if s.options.recursionGuard then s.stack.values.extract offset (offset + params) else #[]
  Run.onStack (Stack.pushMany (zeros f.locals))
  return some {
    index, body, jumps, arguments
    frame := ⟨offset, params + f.locals.length⟩
    results := f.signature.results
    effects := s.effects }

/-- What a function does once it has been counted. -/
def begin (m : Module σ) (f : Function σ) (index offset : Nat) (s : Store) : Run σ (Option Activation) := do
  if s.stack.size < offset + f.signature.params.length then throw .stackUnderflow
  match f.body with
  | .pending => throw (.missingBody index)
  | .host moduleName name none => throw (.unboundImport moduleName name)
  | .host _ _ (some function) => runHost f function offset
  | .code body => m.activate f index offset body s

theorem enter_eq (m : Module σ) (f : Function σ) (index offset : Nat) (M : Machine σ) :
    m.enter f index offset M =
      if M.store.options.maxCallDepth ≤ M.store.depth then
        .error (.callStackExhausted M.store.options.maxCallDepth)
          { M with notices := M.notices.push (.depthLimit index M.store.options.maxCallDepth) }
      else m.begin f index offset M.store { M with store.depth := M.store.depth + 1 } := by
  refine (bind_ok (store_eq M)).trans ?_
  dsimp only
  split
  · rfl
  · rfl

/-- The activations that there are now. -/
def AllSturdy (acts : List Activation) : Prop := ∀ act ∈ acts, act.Sturdy

section Enter
variable {m : Module σ} {f : Function σ} {index offset : Nat} {s : Store} {M N : Machine σ}

theorem runHost_guarded (function : HostFunc σ) (sturdy : M.Sturdy) (entered : 0 < M.store.depth) :
    GivesAt Machine.Sturdy (fun r => AllSturdy r.toList) M (runHost! f function offset) (runHost f function offset) := by
  refine (onStack_guarded (Stack.popMany_guarded _) M sturdy).bind fun arguments M₁ sturdy _ popped => ?_
  refine (callHost_guarded function arguments M₁ sturdy).bind fun results M₂ sturdy _ called => ?_
  refine (ofExcept_guarded _ M₂ sturdy).bind fun _ M₃ sturdy _ checked => ?_
  refine (stack_guarded _ M₃ sturdy).bind fun _ M₄ sturdy _ cut => ?_
  refine (stack_guarded _ M₄ sturdy).bind fun _ M₅ sturdy _ pushed => ?_
  -- Up to here, the function is still counted.
  have counted : M₅.store.depth = M.store.depth := by
    obtain ⟨_, -, rfl⟩ := Run.onStack_eq_ok.mp pushed
    obtain ⟨_, -, rfl⟩ := Run.onStack_eq_ok.mp cut
    obtain ⟨-, rfl⟩ := ofExcept_eq_ok.mp checked
    obtain ⟨_, -, rfl⟩ := callHost_eq_ok.mp called
    obtain ⟨_, -, rfl⟩ := Run.onStack_eq_ok.mp popped
    rfl
  exact (leaveDepth_guarded sturdy (counted ▸ entered)).bind fun _ N sturdy _ _ => Gives.pure nofun N sturdy

/-- The jump table of a function is the same on whatever store it is found. -/
theorem jumpTable_eq (tabled : m.Tabled) (index : Nat) (s : Store) :
    m.jumpTable index = m.function index >>= Function.jumpTable m.signatures s index := by
  obtain ⟨live, tabled⟩ := tabled
  cases found : m.functions[index]? with
  | none =>
    rw [← tabled]
    unfold jumpTable function withJumps
    dsimp only
    rw [Array.getElem?_mapIdx, found]
    rfl
  | some f =>
    rw [function_eq_ok.mpr found, ← tabled, m.jumpTable_withJumps live found, tabled]
    show f.jumpTable m.signatures live index = f.jumpTable m.signatures s index
    unfold Function.jumpTable
    cases f.body with
    | code body => exact (JumpTable.build_eq_look ..).trans (JumpTable.build_eq_look ..).symm
    | _ => rfl

theorem table_eq (tabled : m.Tabled) (found : m.function index = .ok f) {body : ByteArray}
    (code : f.body = .code body) (s : Store) :
    m.jumpTable index = JumpTable.build m.signatures f.signature f.locals body s := by
  rw [jumpTable_eq tabled index s, found]
  show f.jumpTable m.signatures s index = _
  unfold Function.jumpTable
  rw [code]

theorem activate_guarded (tabled : m.Tabled) (sturdy : s.Sturdy) (found : m.function index = .ok f) {body : ByteArray}
    (code : f.body = .code body) (enough : offset + f.signature.params.length ≤ s.stack.size)
    (params : f.signature.params.length < allocationLimit) :
    Yields (fun r => AllSturdy r.toList) (m.activate! f index offset body s) (m.activate f index offset body s) := by
  refine .size fun bounded => .check (JumpTable.build_faultless _ _ _ bounded sturdy) ?_
  unfold activate
  rw [table_eq tabled found code s]
  refine (ofExcept_guarded _).bind fun jumps built => ?_
  have arguments : noted! s offset (offset + f.signature.params.length) = .ok (if s.options.recursionGuard then
      s.stack.values.extract offset (offset + f.signature.params.length) else #[]) := by
    unfold noted!
    split
    · exact Checked.slice_ok ⟨Nat.le_add_right .., enough⟩
    · rfl
  refine .check (.of_eq arguments) (.size fun locals => .check (.of_eq (Checked.add_sizes params locals))
    (.size fun whole => (stack_guarded _).bind fun _ _ => .pure fun act own => ?_))
  obtain rfl := List.mem_singleton.mp own
  refine ⟨bounded, ?_, JumpTable.build_inside _ _ _ built, nofun, Nat.zero_le _⟩
  show offset + (f.signature.params.length + f.locals.length) < allocationLimit
  omega

theorem begin_guarded (tabled : m.Tabled) (found : m.function index = .ok f) (sturdy : s.Sturdy)
    (inside : offset ≤ s.stack.size) (sturdy' : M.Sturdy) (entered : 0 < M.store.depth) :
    GivesAt Machine.Sturdy (fun r => AllSturdy r.toList) M (m.begin! f index offset s) (m.begin f index offset s) := by
  refine .size fun size => .size fun params => .check (.of_eq (Checked.add_sizes (Nat.lt_of_le_of_lt inside size) params)) ?_
  unfold begin
  dsimp only
  by_cases short : s.stack.size < offset + f.signature.params.length
  · rw [if_pos short, if_pos short]
    exact Gives.bind (.throw (Q := fun _ => False) _) (fun _ none => none.elim) M sturdy'
  · rw [if_neg short, if_neg short]
    cases body : f.body with
    | pending => exact Gives.throw _ M sturdy'
    | code bytes => exact activate_guarded tabled sturdy found body (Nat.le_of_not_lt short) params M sturdy'
    | host moduleName name bound =>
      cases bound with
      | none => exact Gives.throw _ M sturdy'
      | some function => exact runHost_guarded function sturdy' entered

/-- A host function that fails is still counted. -/
theorem runHost_settled (f : Function σ) (function : HostFunc σ) (offset : Nat) : Settled (runHost f function offset) := by
  have stack : ∀ {α : Type} (op : Stack.Op α), Level (σ := σ) (Run.onStack op) := fun op => .built (.onStack op)
  exact .bind (stack _) fun arguments => .bind (.callHost function arguments) fun results =>
    .bind (.built (.ofExcept _)) fun _ => .bind (stack _) fun _ => .bind (stack _) fun _ => rfl

/-- A function that fails is still counted. -/
theorem begin_settled (m : Module σ) (f : Function σ) (index offset : Nat) (s : Store) :
    Settled (m.begin f index offset s) := by
  unfold begin
  dsimp only
  split
  · exact (Settled.built (.throw _) : Settled (throw _))
  · split
    · exact .built (.throw _)
    · exact .built (.throw _)
    · exact runHost_settled f _ offset
    · exact .built ((Built.ofExcept _).bind fun _ => (Built.onStack _).bind fun _ => .pure _)

/-- A function that fails has been counted, and counts down as it is left. -/
theorem enter_guarded (tabled : m.Tabled) (found : m.function index = .ok f) (sturdy : M.Sturdy)
    (inside : offset ≤ M.store.stack.size) :
    GivesAt Machine.Sturdy (fun r => AllSturdy r.toList) M (m.enter! f index offset) (settling (m.enter f index offset)) := by
  show Safely (fun _ => (stateAfter (settling (m.enter f index offset)) M).Sturdy ∧ _) (m.enter! f index offset M)
    (settling (m.enter f index offset) M)
  unfold stateAfter settling enter!
  rw [enter_eq]
  dsimp only
  by_cases deep : M.store.options.maxCallDepth ≤ M.store.depth
  · rw [if_pos deep, if_pos deep]
    exact .inr ⟨rfl, sturdy, nofun⟩
  · have limit : M.store.options.maxCallDepth < 1 <<< 64 := sturdy.limit
    rw [if_neg deep, if_neg deep, Checked.add_ok (by omega)]
    have begun := begin_guarded tabled found sturdy inside (M := { M with store.depth := M.store.depth + 1 })
      (Store.Sturdy.congr sturdy rfl rfl) (Nat.succ_pos _)
    show Safely _ (m.begin! f index offset M.store { M with store.depth := M.store.depth + 1 } >>= _) _
    refine begun.safely.bind fun ⟨after, given⟩ => ?_
    cases ran : m.begin f index offset M.store { M with store.depth := M.store.depth + 1 } with
    | ok r N =>
      rw [stateAfter_ok ran] at after
      refine .ok ⟨after, fun r' N' done => ?_⟩
      cases done
      exact given r N ran
    | error e N =>
      rw [stateAfter_error ran] at after
      -- A function that fails here leaves the depth as it was counted, whatever it has done before.
      have counted : N.store.depth = M.store.depth + 1 := (begin_settled m f index offset M.store).depth ran
      have left : Checked.sub N.store.depth 1 = .ok M.store.depth := by
        rw [Checked.sub_ok (by omega), counted]
        rfl
      dsimp only
      rw [left]
      exact .ok ⟨Store.Sturdy.congr after rfl rfl, nofun⟩

end Enter

/-! ### Steps and runs -/

section Steps
variable {m : Module σ} {act : Activation} {callers : List Activation} {M N : Machine σ}

theorem isRepeated_checked (act : Activation) (callee params : Nat) (s : Store) :
    isRepeated! act callee params s = .ok (isRepeated act callee params s) := by
  unfold isRepeated! isRepeated Stack.top?
  split
  · by_cases enough : params ≤ s.stack.size
    · have values : Checked.slice s.stack.values (s.stack.size - params) s.stack.size =
          .ok (s.stack.values.extract (s.stack.size - params) s.stack.size) :=
        Checked.slice_ok ⟨Nat.sub_le .., Nat.le_refl _⟩
      rw [if_pos enough, if_pos (show params ≤ s.stack.values.size from enough), values]
      rfl
    · rw [if_neg enough, if_neg (show ¬params ≤ s.stack.values.size from enough)]
      rfl
  · rfl

theorem callFrom_guarded (tabled : m.Tabled) (act : Activation) (callee : Nat) (sturdy : M.Sturdy) :
    GivesAt Machine.Sturdy (fun r => AllSturdy r.toList) M (m.callFrom! act callee) (settling (m.callFrom act callee)) := by
  refine GivesAt.settling_bind (ofExcept_guarded _ M sturdy) (.built (.ofExcept _)) fun f M₁ sturdy found _ => ?_
  refine GivesAt.settling_bind (store_guarded M₁ sturdy) (fun _ => rfl) fun s M₂ sturdy _ _ => ?_
  refine .check (.of_eq (isRepeated_checked ..)) ?_
  refine GivesAt.settling_bind (ofExcept_guarded _ M₂ sturdy) (.built (.ofExcept _)) fun again M₃ sturdy _ _ => ?_
  cases again with
  | true =>
    refine GivesAt.settled ?_ (.built ((Built.notify _).bind fun _ => (Built.onStack _).discard.bind fun _ =>
      (Built.onStack _).bind fun _ => .pure _))
    rw [discard_eq_bind]
    simp only [bind_assoc, pure_bind]
    exact (Gives.bind (notify_guarded _) fun _ _ => Gives.bind (onStack_guarded (Stack.popMany_guarded _)) fun _ _ =>
      Gives.bind (stack_guarded _) fun _ _ => .pure nofun) M₃ sturdy
  | false =>
    refine GivesAt.settling_bind (Activation.heightBelow_guarded _ M₃ sturdy) (.built (Activation.heightBelow_built _))
      fun offset M₄ sturdy _ below => ?_
    obtain ⟨whole, rfl⟩ := Activation.heightBelow_eq_ok.mp below
    exact enter_guarded tabled found sturdy (by unfold Stack.size; omega)

/-- An activation that cannot give its results is left by the trap. -/
theorem leave_guarded (act : Activation) (sturdy : M.Sturdy) (entered : 0 < M.store.depth) :
    GivesAt Machine.Sturdy Anything M (leave! act) (settling (leave act)) := by
  refine GivesAt.settling_bind (onStack_guarded (Stack.settle_guarded _ _) M sturdy) (.built (.onStack _))
    fun _ N sturdy _ settled => ?_
  obtain ⟨_, -, rfl⟩ := Run.onStack_eq_ok.mp settled
  exact GivesAt.settled (leaveDepth_guarded sturdy entered) rfl

theorem step_guarded (tabled : m.Tabled) (h : act.Sturdy) (outer : AllSturdy callers) (sturdy : M.Sturdy)
    (entered : 0 < M.store.depth) :
    GivesAt Machine.Sturdy AllSturdy M (m.step! act callers) (settling (m.step act callers)) := by
  have with_ : ∀ {act : Activation}, act.Sturdy → AllSturdy (act :: callers) := fun own act there => by
    rcases List.mem_cons.mp there with rfl | there
    · exact own
    · exact outer act there
  rw [step_eq]
  refine GivesAt.settling_bind (act.step_guarded m.types h M sturdy) (.built (act.step_built m.types))
    fun flow N sturdy own ran => ?_
  have unchanged : Maintains (M.Changes False) (act.step m.types) := (act.step_built m.types).changes
  have counted := (unchanged.ok .refl ran).depth
  cases flow with
  | next act => exact Gives.pure (with_ own) N sturdy
  | ret =>
    unfold proceed
    rw [settling_map _ (f := fun _ => callers) fun _ => rfl]
    exact (leave_guarded act sturdy (counted ▸ entered)).bind fun _ _ sturdy _ _ => Gives.pure outer _ sturdy
  | call act callee =>
    unfold proceed
    rw [settling_map _ (f := fun inner => inner.toList ++ act :: callers) fun inner => by cases inner <;> rfl]
    refine (callFrom_guarded tabled act callee sturdy).bind fun inner N sturdy started _ => ?_
    cases inner with
    | none => exact Gives.pure (with_ own) N sturdy
    | some inner =>
      refine Gives.pure (fun act' there => ?_) N sturdy
      rcases List.mem_cons.mp there with rfl | there
      · exact started _ List.mem_cons_self
      · exact with_ own act' there

/-- A trap goes through all activations. -/
theorem unwind_checked (chain : List Activation) (base : Nat) : unwind! chain (base + chain.length) = .ok base := by
  induction chain with
  | nil => rfl
  | cons act callers ih =>
    show (Checked.sub (base + (callers.length + 1)) 1 >>= fun depth => unwind! callers depth) = _
    rw [Checked.sub_ok (by omega)]
    exact ih

end Steps

end Module

/-- The outcome, with the depth set back after a trap. -/
def Outcome.settled (base : Nat) : Outcome σ → Outcome σ
  | trapped e M => trapped e { M with store.depth := base }
  | outcome => outcome

namespace Module
variable {m : Module σ} {M : Machine σ}

theorem run_guarded (tabled : m.Tabled) {base fuel : Nat} {chain : List Activation} (own : AllSturdy chain)
    (sturdy : M.Sturdy) (counted : M.store.depth = base + chain.length) :
    Safely (·.final.Sturdy) (m.run! fuel chain M) ((m.run fuel chain M).settled base) := by
  induction fuel generalizing chain M with
  | zero =>
    cases chain with
    | nil => exact .inr ⟨rfl, sturdy⟩
    | cons act callers => exact .inr ⟨rfl, sturdy⟩
  | succ fuel ih =>
    cases chain with
    | nil => exact .inr ⟨rfl, sturdy⟩
    | cons act callers =>
      obtain ⟨own, outer⟩ := List.forall_mem_cons.mp own
      rw [List.length_cons] at counted
      have stepped := step_guarded tabled own outer sturdy (counted ▸ Nat.succ_pos _)
      unfold run! run
      refine stepped.safely.bind fun kept => ?_
      obtain ⟨after, given⟩ := kept
      unfold stateAfter settling at after
      unfold settling at given
      unfold settling
      cases ran : m.step act callers M with
      | ok chain N =>
        rw [ran] at after
        exact ih (given chain N (by rw [ran]; rfl)) after (step_depth ran counted)
      | error e N =>
        rw [ran] at after
        -- A trap ends all activations at once, and each of them has been counted.
        have unwound : unwind! (act :: callers) M.store.depth = .ok base :=
          counted ▸ unwind_checked (act :: callers) base
        show Safely _ (unwind! (act :: callers) M.store.depth >>= _) _
        rw [unwound]
        exact .ok (Store.Sturdy.congr after rfl rfl)

end Module
end Wasm
