import Wasm.Proofs.GuardedLoad
import Wasm.Proofs.GuardedRun
import Wasm.Proofs.Persistence

/-! Sessions under guard. Whatever file is loaded, with whatever host, and whatever is asked of the module, of memories,
    stacks and cursors afterwards, there is no fault on the way. -/

namespace Wasm
variable {σ α : Type}

/-- What is done with a module under guard. -/
abbrev GuardedSession (σ : Type) : Type → Type := Guarded Failure (Machine σ)

/-! ### Modules under guard -/

namespace Module

/-- What comes of an operation on a part of the machine. A trap is a failure of the session. -/
def partResult {τ : Type} (put : τ → Machine σ) : EStateM.Result Trap τ α → EStateM.Result Failure (Machine σ) α
  | .ok a s => .ok a (put s)
  | .error e s => .error (.trap e) (put s)

def onStack! (op : Guarded Trap Stack α) : GuardedSession σ α := fun M => do
  let result ← Run.onStack! op M
  return partResult id result

/-- Pushes the arguments and enters a function. -/
def startAt! (m : Module σ) (f : Function σ) (index offset : Nat) (arguments : Array Value) :
    GuardedRun σ (Option Activation) := do
  (Run.onStack (Stack.pushMany arguments) : Run σ Unit)
  m.enter! f index offset

def runToEnd! (m : Module σ) (fuel : Nat) (f : Function σ) (index : Nat) (arguments : Array Value) (M : Machine σ) :
    Checked (Outcome σ) := do
  match ← m.startAt! f index M.store.stack.size arguments M with
  | .ok (some act) M => m.run! fuel [act] M
  | .ok none M => return .returned M
  | .error e M => return .trapped e M

/-- The depth is not put back after a trap, since each activation has counted down. -/
def invokeIndex! (m : Module σ) (fuel index : Nat) (arguments : Array Value) : GuardedSession σ Unit := fun M =>
  match m.accept index arguments with
  | .error e => return .error (.trap e) M
  | .ok f => do
    match ← m.runToEnd! fuel f index arguments M with
    | .returned N => return .ok () N
    | .trapped e N => return .error (.trap e) { N with store.stack := ⟨N.store.stack.values.shrink M.store.stack.size⟩ }
    | .unfinished N => return .error .unfinished N

def invoke! (m : Module σ) (fuel : Nat) (name : String) (arguments : Array Value) : GuardedSession σ Unit := do
  let index ← (ofExcept (m.lookup name) : Session σ Nat)
  m.invokeIndex! fuel index arguments

/-- The function is looked at once more to see how many results it has. -/
def call! (m : Module σ) (fuel : Nat) (name : String) (arguments : Array Value) : GuardedSession σ (Array Value) := do
  let index ← (ofExcept (m.lookup name) : Session σ Nat)
  m.invokeIndex! fuel index arguments
  let f ← Checked.index m.functions index
  onStack! (Stack.popMany! f.signature.results.length)

/-- The table is built on the store that there is. -/
def jumpTable! (m : Module σ) (index : Nat) (s : Store) : GuardedSession σ JumpTable := do
  let f ← (ofExcept ((m.function index).mapError .trap) : Session σ (Function σ))
  match f.body with
  | .code body => do
    let _ ← Checked.size body.size
    let table ← JumpTable.build! m.signatures f.signature f.locals body s
    (ofExcept (table.mapError .trap) : Session σ JumpTable)
  | _ => (throw (.trap (.missingBody index)) : Session σ JumpTable)

/-- Runs the start function of a module, if it has one. -/
def startUp (m : Module σ) (fuel : Nat) (M : Machine σ) : Loaded σ :=
  match m.start with
  | none => ⟨.ok m, M⟩
  | some index => match m.invokeIndex fuel index #[] M with
    | .ok _ M => ⟨.ok m, M⟩
    | .error e M => ⟨.error e, M⟩

def startUp! (m : Module σ) (fuel : Nat) (M : Machine σ) : Checked (Loaded σ) :=
  match m.start with
  | none => return ⟨.ok m, M⟩
  | some index => do
    match ← m.invokeIndex! fuel index #[] M with
    | .ok _ M => return ⟨.ok m, M⟩
    | .error e M => return ⟨.error e, M⟩

def load! (fuel : Nat) (bytes : ByteArray) (options : Options) (resolve : Resolver σ) (host : σ) : Checked (Loaded σ) := do
  match ← decode! bytes options resolve with
  | .error e l => return ⟨.error e, ⟨l.store, host, l.notices⟩⟩
  | .ok _ l => l.module.startUp! fuel ⟨l.store, host, l.notices⟩

/-- An operation on the memory that is exported under a name, if there is one. -/
def onMemory (name : String) (op : Memory.Op Unit) : Session σ Unit := fun M =>
  match M.store.findMemory? name with
  | none => .ok () M
  | some index => partResult (fun store => { M with store }) (Store.onMemory index op M.store)

def onMemory! (name : String) (op : Guarded Trap Memory Unit) : GuardedSession σ Unit := fun M =>
  match M.store.findMemory? name with
  | none => return .ok () M
  | some index => do
    let result ← Store.onMemory! index op M.store
    return partResult (fun store => { M with store }) result

end Module

def Request.perform! (m : Module σ) (fuel : Nat) : Request → GuardedSession σ Unit
  | start => match m.start with
    | some index => m.invokeIndex! fuel index #[]
    | none => return
  | invoke name arguments => m.invoke! fuel name arguments
  | call name arguments => do
    let _ ← m.call! fuel name arguments
    return
  | jumpTable index => do
    let _ ← m.jumpTable! index (← (get : Session σ (Machine σ))).store
    return
  | readResults n => do
    let _ ← Module.onStack! (Stack.top! n)
    return

/-- What may be done with a module that has been loaded. -/
inductive Use
  | request (r : Request)
  | memory (name : String) (call : Memory.Call)

def Use.perform (m : Module σ) (fuel : Nat) : Use → Session σ Unit
  | request r => r.perform m fuel
  | memory name call => Module.onMemory name call.perform

def Use.perform! (m : Module σ) (fuel : Nat) : Use → GuardedSession σ Unit
  | request r => r.perform! m fuel
  | memory name call => Module.onMemory! name call.perform!

namespace Module

/-- What comes of a module that is loaded and then used. -/
def session (fuel : Nat) (bytes : ByteArray) (options : Options) (resolve : Resolver σ) (host : σ) (uses : List Use) :
    Loaded σ × List (EStateM.Result Failure (Machine σ) Unit) :=
  let loaded := load fuel bytes options resolve host
  (loaded, match loaded.result with
    | .ok m => results (Use.perform m fuel) uses loaded.machine
    | .error _ => [])

def session! (fuel : Nat) (bytes : ByteArray) (options : Options) (resolve : Resolver σ) (host : σ) (uses : List Use) :
    Checked (Loaded σ × List (EStateM.Result Failure (Machine σ) Unit)) := do
  let loaded ← load! fuel bytes options resolve host
  match loaded.result with
  | .ok m => return (loaded, ← results! (Use.perform! m fuel) uses loaded.machine)
  | .error _ => return (loaded, [])

variable {m : Module σ} {f : Function σ} {fuel index : Nat} {arguments : Array Value} {M : Machine σ}

/-! ### Calls from outside -/

theorem startAt_guarded (tabled : m.Tabled) (found : m.function index = .ok f) (sturdy : M.Sturdy)
    (arguments : Array Value) :
    GivesAt Machine.Sturdy (fun r => AllSturdy r.toList) M (m.startAt! f index M.store.stack.size arguments)
      (Run.settling (m.starts f index arguments)) := by
  have pushed : GivesAt Machine.Sturdy (fun r => AllSturdy r.toList) M (m.startAt! f index M.store.stack.size arguments)
      (Run.settling (Run.onStack (Stack.pushMany arguments) >>= fun _ => m.enter f index M.store.stack.size)) := by
    refine GivesAt.settling_bind (Run.stack_guarded _ M sturdy) (.built (.onStack _)) fun _ N sturdy _ pushed => ?_
    refine enter_guarded tabled found sturdy ?_
    cases pushed
    show M.store.stack.values.size ≤ (M.store.stack.values ++ arguments).size
    rw [Array.size_append]
    exact Nat.le_add_right ..
  exact pushed.congr rfl rfl

theorem runToEnd_guarded (tabled : m.Tabled) (found : m.function index = .ok f) (sturdy : M.Sturdy) (fuel : Nat)
    (arguments : Array Value) :
    Safely (·.final.Sturdy) (m.runToEnd! fuel f index arguments M)
      ((m.runToEnd fuel f index arguments M).settled M.store.depth) := by
  unfold runToEnd!
  rw [runToEnd_eq]
  refine (startAt_guarded tabled found sturdy arguments).safely.bind fun ⟨after, given⟩ => ?_
  unfold stateAfter at after
  unfold Run.settling at after given ⊢
  cases begun : m.starts f index arguments M with
  | error e N =>
    rw [begun] at after
    exact .ok after
  | ok r N =>
    rw [begun] at after
    cases r with
    | none => exact .ok after
    | some act => exact run_guarded tabled (given (some act) N (by rw [begun]; rfl)) after (starts_depth begun)

theorem invokeIndex_guarded (tabled : m.Tabled) (fuel index : Nat) (arguments : Array Value) :
    Guards Machine.Sturdy (m.invokeIndex! fuel index arguments) (m.invokeIndex fuel index arguments) := by
  intro M sturdy
  show Safely (fun _ => (stateAfter (m.invokeIndex fuel index arguments) M).Sturdy ∧ _)
    (m.invokeIndex! fuel index arguments M) (m.invokeIndex fuel index arguments M)
  unfold stateAfter invokeIndex! invokeIndex
  cases accepted : m.accept index arguments with
  | error e => exact .ok ⟨sturdy, fun _ _ _ => trivial⟩
  | ok f =>
    dsimp only
    refine (runToEnd_guarded tabled (accept_eq_ok accepted).1 sturdy fuel arguments).bind fun after => ?_
    cases ended : m.runToEnd fuel f index arguments M with
    | returned N =>
      rw [ended] at after
      exact .ok ⟨after, fun _ _ _ => trivial⟩
    | trapped e N =>
      rw [ended] at after
      exact .ok ⟨Store.Sturdy.congr after rfl rfl, fun _ _ _ => trivial⟩
    | unfinished N =>
      rw [ended] at after
      exact .ok ⟨after, fun _ _ _ => trivial⟩

/-- What is given by a part of the machine is given by the machine. -/
theorem part_guarded {τ : Type} {I : τ → Prop} {s : τ} (put : τ → Machine σ) {g : Guarded Trap τ α}
    {op : EStateM Trap τ α} {g' : GuardedSession σ α} {op' : Session σ α} (h : GivesAt I Anything s g op)
    (guarded : g' M = do let result ← g s; return partResult put result) (unguarded : op' M = partResult put (op s))
    (kept : ∀ s, I s → (put s).Sturdy) : GivesAt Machine.Sturdy Anything M g' op' :=
  h.through (partResult put) guarded unguarded (fun _ s hs => ⟨_, rfl, kept s hs⟩) fun _ s hs => ⟨_, _, rfl, kept s hs⟩

theorem onStack_guarded {g : Guarded Trap Stack α} {op : Stack.Op α} (h : Guards Stack.Any g op) :
    Guards Machine.Sturdy (onStack! g : GuardedSession σ α) (onStack op) := by
  refine fun M sturdy => part_guarded id (Run.onStack_guarded h M sturdy) rfl ?_ fun _ sturdy => sturdy
  unfold onStack partResult
  cases Run.onStack op M <;> rfl

theorem onMemory_guarded (name : String) {g : Guarded Trap Memory Unit} {op : Memory.Op Unit}
    (h : Guards Memory.Whole g op) :
    Guards Machine.Sturdy (onMemory! name g : GuardedSession σ Unit) (onMemory name op) := by
  intro M sturdy
  cases found : M.store.findMemory? name with
  | none =>
    unfold GivesAt stateAfter onMemory! onMemory
    rw [found]
    exact .inr ⟨rfl, sturdy, fun _ _ _ => trivial⟩
  | some index =>
    have given : GivesAt Store.Sturdy Anything M.store (Store.onMemory! index g) (Store.onMemory index op) :=
      Store.onMemory_guarded h M.store sturdy
    refine part_guarded (fun store => { M with store }) given ?_ ?_ fun _ sturdy => sturdy
    · unfold onMemory!
      rw [found]
    · unfold onMemory
      rw [found]

theorem lookup_bound {name : String} (found : m.lookup name = .ok index) : index < m.functions.size := by
  unfold lookup find? at found
  split at found
  · cases found
    exact (Array.findIdx?_eq_some_iff_getElem.mp ‹_›).1
  · cases found

theorem ofExcept_given (x : Except Failure α) :
    Gives Machine.Sturdy (x = .ok ·) (liftM (ofExcept x : Session σ α)) (ofExcept x : Session σ α) := by
  cases x with
  | ok a => exact .pure rfl
  | error e => exact .throw e

theorem invoke_guarded (tabled : m.Tabled) (fuel : Nat) (name : String) (arguments : Array Value) :
    Guards Machine.Sturdy (m.invoke! fuel name arguments) (m.invoke fuel name arguments) :=
  Gives.bind (ofExcept_given _) fun index _ => invokeIndex_guarded tabled fuel index arguments

/-- A function that has been found is still there. -/
theorem call_guarded (tabled : m.Tabled) (fuel : Nat) (name : String) (arguments : Array Value) :
    Guards Machine.Sturdy (m.call! fuel name arguments) (m.call fuel name arguments) := by
  refine Gives.bind (ofExcept_given _) fun index found => ?_
  have inside := lookup_bound found
  refine Gives.bind (invokeIndex_guarded tabled fuel index arguments) fun _ _ => ?_
  refine .check (.of_eq (Checked.index_ok inside)) ?_
  dsimp only
  rw [Array.getElem?_eq_getElem inside]
  exact onStack_guarded (Stack.popMany_guarded _)

theorem ofExcept_bind {β : Type} (x : Except Trap α) (k : α → Except Trap β) :
    (ofExcept ((x >>= k).mapError .trap) : Session σ β) =
      ofExcept (x.mapError .trap) >>= fun a => ofExcept ((k a).mapError .trap) := by
  cases x <;> rfl

theorem jumpTable_guarded (tabled : m.Tabled) (index : Nat) {s : Store} (sturdy : s.Sturdy) :
    Guards Machine.Sturdy (m.jumpTable! index s) (ofExcept ((m.jumpTable index).mapError .trap)) := by
  rw [jumpTable_eq tabled index s, ofExcept_bind]
  refine Gives.bind (ofExcept_given _) fun f _ => ?_
  unfold Function.jumpTable
  cases f.body with
  | code body =>
    refine Gives.size fun bounded => .check (JumpTable.build_faultless _ _ _ bounded sturdy) ?_
    exact Guards.lift (.ofExcept _)
  | _ => exact Gives.throw _

theorem Request.guarded (tabled : m.Tabled) (fuel : Nat) (r : Request) :
    Guards Machine.Sturdy (r.perform! m fuel) (r.perform m fuel) := by
  cases r with
  | start =>
    unfold Request.perform! Request.perform
    cases m.start with
    | none => exact .pure _
    | some index => exact invokeIndex_guarded tabled fuel index #[]
  | invoke name arguments => exact invoke_guarded tabled fuel name arguments
  | call name arguments => exact (call_guarded tabled fuel name arguments).discard
  | jumpTable index =>
    exact fun M sturdy => ((jumpTable_guarded tabled index sturdy).discard M sturdy).congr rfl rfl
  | readResults n => exact (onStack_guarded (Stack.top_guarded n)).discard

theorem Use.guarded (tabled : m.Tabled) (fuel : Nat) (u : Use) :
    Guards Machine.Sturdy (u.perform! m fuel) (u.perform m fuel) := by
  cases u with
  | request r => exact Request.guarded tabled fuel r
  | memory name call => exact onMemory_guarded name call.guarded

theorem startUp_guarded (tabled : m.Tabled) (sturdy : M.Sturdy) (fuel : Nat) :
    Safely (fun loaded => loaded.machine.Sturdy ∧ ∀ m', loaded.result = .ok m' → m' = m) (m.startUp! fuel M)
      (m.startUp fuel M) := by
  unfold startUp! startUp
  cases m.start with
  | none => exact .ok ⟨sturdy, fun _ same => (Except.ok.inj same).symm⟩
  | some index =>
    dsimp only
    refine (invokeIndex_guarded tabled fuel index #[] M sturdy).safely.bind fun ⟨after, _⟩ => ?_
    cases ran : m.invokeIndex fuel index #[] M with
    | ok u N =>
      rw [stateAfter_ok ran] at after
      exact .ok ⟨after, fun _ same => (Except.ok.inj same).symm⟩
    | error e N =>
      rw [stateAfter_error ran] at after
      exact .ok ⟨after, nofun⟩

theorem load_eq (fuel : Nat) (bytes : ByteArray) (options : Options) (resolve : Resolver σ) (host : σ) :
    load fuel bytes options resolve host = match decode bytes options resolve with
      | .error e l => ⟨.error e, ⟨l.store, host, l.notices⟩⟩
      | .ok _ l => l.module.startUp fuel ⟨l.store, host, l.notices⟩ := by
  unfold load startUp
  cases decode bytes options resolve with
  | error e l => rfl
  | ok u l =>
    dsimp only
    cases l.module.start with
    | none => rfl
    | some index =>
      dsimp only
      cases l.module.invokeIndex fuel index #[] ⟨l.store, host, l.notices⟩ <;> rfl

/-- A module that has been loaded has its jump tables. -/
theorem load_guarded {bytes : ByteArray} {options : Options} (small : bytes.size < allocationLimit)
    (limit : options.maxCallDepth < addressLimit) (resolve : Resolver σ) (host : σ) (fuel : Nat) :
    Safely (fun loaded => loaded.machine.Sturdy ∧ ∀ m, loaded.result = .ok m → m.Tabled)
      (load! fuel bytes options resolve host) (load fuel bytes options resolve host) := by
  unfold load!
  rw [load_eq]
  refine (decode_guarded small limit resolve).bind fun sturdy => ?_
  cases accepted : decode bytes options resolve with
  | error e l =>
    rw [stateAfter_error accepted] at sturdy
    exact .ok ⟨sturdy, nofun⟩
  | ok u l =>
    rw [stateAfter_ok accepted] at sturdy
    obtain ⟨sections, -, -, -, given⟩ := decode_sound accepted
    have tabled : l.module.Tabled := given.module ▸ withJumps_tabled _ _
    have started := startUp_guarded (M := ⟨l.store, host, l.notices⟩) tabled sturdy fuel
    exact started.imp fun ⟨after, own⟩ => ⟨after, fun m given => own m given ▸ tabled⟩

end Module

/-! ### Cursors -/

namespace Reader

/-- What may be asked of a cursor. -/
inductive Call
  | peek
  | byte
  | peekBytes (n : Nat)
  | bytes (n : Nat)
  | skip (n : Nat)
  | fixed (n : Nat)
  | ascii (n : Nat)
  | seek (delta : Int)
  | seekTo (offset : Nat)
  | unsigned (w : Width)
  | signed (w : Width)

def Call.perform : Call → Reader Unit
  | peek => discard Reader.peek
  | byte => discard Reader.byte
  | peekBytes n => discard (Reader.peekBytes n)
  | bytes n => discard (Reader.bytes n)
  | skip n => Reader.skip n
  | fixed n => discard (Reader.fixed n)
  | ascii n => discard (Reader.ascii n)
  | seek delta => Reader.seek delta
  | seekTo offset => Reader.seekTo offset
  | unsigned w => discard (Leb128.unsigned w.bits)
  | signed w => discard (Leb128.signed w.bits)

def Call.perform! : Call → GuardedReader Unit
  | byte => do
    let _ ← Reader.byte!
    return
  | bytes n => do
    let _ ← Reader.bytes! n
    return
  | skip n => Reader.skip! n
  | fixed n => do
    let _ ← Reader.fixed! n
    return
  | ascii n => do
    let _ ← Reader.ascii! n
    return
  | unsigned w => do
    let _ ← Leb128.unsigned! w.bits
    return
  | signed w => do
    let _ ← Leb128.signed! w.bits
    return
  -- The others look for what they want where it would be, and do not take it if it is not there.
  | call => call.perform

section Moves
variable {data : ByteArray}

theorem peek_maintains : Maintains (· ≤ data.size) (peek data) := by
  refine .of_after fun pos inside => ?_
  unfold stateAfter peek
  by_cases h : pos < data.size
  · rw [dif_pos h]
    exact inside
  · rw [dif_neg h]
    exact inside

theorem peekBytes_maintains (n : Nat) : Maintains (· ≤ data.size) (peekBytes n data) := by
  refine .of_after fun pos inside => ?_
  have stays : stateAfter (peekBytes n data) pos = pos := by
    unfold stateAfter peekBytes
    by_cases wide : addressLimit ≤ pos + n
    · rw [if_pos wide]
    · by_cases fits : pos + n ≤ data.size
      · rw [if_neg wide, if_pos fits]
      · rw [if_neg wide, if_neg fits]
  rwa [stays]

theorem seekTo_maintains (offset : Nat) : Maintains (· ≤ data.size) (seekTo offset data) := by
  refine .of_after fun pos inside => ?_
  unfold stateAfter seekTo
  by_cases h : data.size < offset
  · rw [if_pos h]
    exact inside
  · rw [if_neg h]
    exact Nat.le_of_not_lt h

theorem seek_maintains (delta : Int) : Maintains (· ≤ data.size) (seek delta data) := by
  show Maintains _ (position data >>= fun pos =>
    (if (pos : Int) + delta < 0 then reject .seekBeforeStart pos else seekTo (pos + delta).toNat : Reader Unit) data)
  refine Maintains.bind (fun _ h => h) fun pos => ?_
  split
  · exact .throw _
  · exact seekTo_maintains _

end Moves

/-- The position is always in the input. -/
theorem Call.guarded {data : ByteArray} (small : data.size < allocationLimit) (call : Call) :
    Guards (· ≤ data.size) (call.perform! data) (call.perform data) := by
  cases call with
  | byte => exact (byte_faithful small).map.guards
  | bytes n => exact (bytes_faithful n).map.guards
  | skip n => exact (skip_faithful n).guards
  | fixed n => exact (fixed_faithful n).map.guards
  | ascii n => exact (ascii_faithful n).map.guards
  | unsigned w => exact (Leb128.unsigned_faithful small w.bits (by cases w <;> decide)).map.guards
  | signed w => exact (Leb128.signed_faithful small (by cases w <;> decide)).map.guards
  | peek => exact .lift peek_maintains.discard
  | peekBytes n => exact .lift (peekBytes_maintains n).discard
  | seek delta => exact .lift (seek_maintains delta)
  | seekTo offset => exact .lift (seekTo_maintains offset)

end Reader

/-! ### No faults -/

/-- Whatever file is loaded, and whatever is asked of the module and its memories afterwards, of other memories, of
    stacks and of cursors, there is no fault. -/
theorem Module.session_faultless {bytes : ByteArray} {options : Options} (small : bytes.size < allocationLimit)
    (limit : options.maxCallDepth < addressLimit) (resolve : Resolver σ) (host : σ) (fuel : Nat) (uses : List Use) :
    Faultless (session! fuel bytes options resolve host uses) (session fuel bytes options resolve host uses) ∧
      (∀ limits calls, Faultless (do results! Memory.Call.perform! calls (← Memory.new! limits))
        (results Memory.Call.perform calls (Memory.new limits))) ∧
      (∀ stack calls, Faultless (results! Stack.Call.perform! calls stack) (results Stack.Call.perform calls stack)) ∧
      ∀ (data : ByteArray) calls, data.size < allocationLimit →
        Faultless (results! (Reader.Call.perform! · data) calls 0) (results (Reader.Call.perform · data) calls 0) := by
  refine ⟨?_, fun limits calls => ?_, fun stack calls => ?_, fun data calls small => ?_⟩
  · unfold session! session
    refine (load_guarded small limit resolve host fuel).bind_faultless fun ⟨sturdy, tabled⟩ => ?_
    dsimp only
    cases given : (load fuel bytes options resolve host).result with
    | error e => exact .ok _
    | ok m => exact (Guards.results (Use.guarded (tabled m given) fuel) uses sturdy).bind (.ok _)
  · rw [Memory.new_checked]
    exact Guards.results Memory.Call.guarded calls (Memory.new_whole limits)
  · exact Guards.results Stack.Call.guarded calls trivial
  · exact Guards.results (Reader.Call.guarded small) calls (Nat.zero_le _)

/-- What the sample is asked for: what is there, and what is not. -/
def Aliased.uses : List Use :=
  [.request (.call "b" #[]), .request (.invoke "a" #[]), .request (.invoke "b" #[.i32 1]), .request (.jumpTable 0),
    .request (.readResults 1), .memory "m" (.grow 1)]

/-- Nothing is refused there, so what comes of it under guard is what comes of it without. -/
theorem Module.session_faultless_aliased :
    session! 5 Aliased.bytes {} Resolver.none () Aliased.uses =
      .ok (session 5 Aliased.bytes {} Resolver.none () Aliased.uses) := by
  have guarded := session_faultless (show Aliased.bytes.size < allocationLimit by decide)
    (show ({} : Options).maxCallDepth < addressLimit by decide) Resolver.none () 5 Aliased.uses
  have given : (session! 5 Aliased.bytes {} Resolver.none () Aliased.uses).isOk = true := by decide +kernel
  rcases guarded.1 with same | refused
  · exact same
  · rw [refused] at given
    cases given

end Wasm
