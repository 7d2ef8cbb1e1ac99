import Wasm.Proofs.Waiting

/-! Calls of valid functions. They find their arguments, and give results of the declared types, whether they run, are
    host functions, or are skipped. -/

namespace Wasm
variable {σ : Type}

open Run

/-- The types of the parameters and of the other locals. -/
def Function.slots (f : Function σ) : List ValType := f.signature.params ++ f.locals

namespace Module

/-- On arguments of their parameter types, host functions give results of their result types, if any. -/
def HostsTyped (m : Module σ) : Prop :=
  ∀ index f moduleName name function arguments host results host', m.function index = .ok f →
    f.body = .host moduleName name (some function) → Value.types arguments = f.signature.params →
    function arguments host = .ok results host' → Value.types results = f.signature.results

/-- A host function fails with the trap itself, on arguments of its parameter types. -/
def HostRaises (m : Module σ) (e : Trap) : Prop :=
  ∃ index f moduleName name function arguments host host', m.function index = .ok f ∧
    f.body = .host moduleName name (some function) ∧ Value.types arguments = f.signature.params ∧
    function arguments host = .error e host'

/-- Traps that a call of a valid function may lead to. -/
def Allows (m : Module σ) (e : Trap) : Prop := e.IsRegular ∨ m.HostRaises e

variable {m : Module σ} {f : Function σ} {index callee : Nat} {shape : Shape} {under : Array Value} {ts : List ValType}
  {M : Machine σ}

theorem checkResults_ok {declared : List ValType} {results : Array Value} (h : Value.types results = declared) :
    checkResults declared results = .ok () := by
  unfold checkResults
  rw [if_neg (by simp [← h]), Value.find?_mismatch h]

theorem callHost_holds (hosts : m.HostsTyped) (function : m.function index = .ok f) {moduleName name : String}
    {host : HostFunc σ} (body : f.body = .host moduleName name (some host)) {arguments : Array Value}
    (typed : Value.types arguments = f.signature.params) : Ensures (Machine.Holds shape under ts) (callHost host arguments)
      (fun results M => Value.types results = f.signature.results ∧ M.Holds shape under ts) m.Allows := by
  refine .of_cases (fun M results N holds done => ?_) fun M e N holds failed => ?_
  · obtain ⟨host', ran, rfl⟩ := callHost_eq_ok.mp done
    exact ⟨hosts index f moduleName name host arguments M.host results host' function body typed ran, holds⟩
  · unfold callHost at failed
    dsimp only at failed
    split at failed <;> cases failed
    exact .inr ⟨index, f, moduleName, name, host, arguments, M.host, _, function, body, typed, ‹_›⟩

theorem setDepth_holds {E : Trap → Prop} (g : Nat → Nat) : Ensures (Machine.Holds (σ := σ) shape under ts)
    (onStore (modify fun s => { s with depth := g s.depth })) (fun _ => Machine.Holds shape under ts) E := fun _ h => h

/-- A function has been entered: above the operands that were below its arguments, the stack has its locals. -/
def Entered (m : Module σ) (shape : Shape) (f : Function σ) (index : Nat) (under : Array Value) (ts : List ValType)
    (act : Activation) (M : Machine σ) : Prop :=
  ∃ frame, Value.types frame = ts ∧ act.index = index ∧ act.Belongs (m.context shape f) (under ++ frame) ∧
    act.Stands (m.context shape f) act.pos act.labels [] ∧ M.Holds shape (under ++ frame) f.slots

/-- The jump table of a valid function has been found, and its code can be started. -/
theorem Valid.starts (valid : m.Valid shape) (tabled : m.Tabled) (function : m.function index = .ok f) {body : ByteArray}
    (code : f.body = .code body) : ∃ jumps, m.jumpTable index = .ok jumps ∧ ∀ act : Activation, act.body = body →
      act.jumps = jumps → act.Stands (m.context shape f) 0 [] [] := by
  obtain ⟨code', whole, typed⟩ := valid index f body function code
  obtain ⟨live, tabled⟩ := tabled
  have table : m.jumpTable index = .ok (.ofConstructs code'.constructs) := by
    rw [← tabled, m.jumpTable_withJumps live (function_eq_ok.mp function)]
    unfold Function.jumpTable
    rw [code]
    exact JumpTable.build_whole _ _ _ _ whole
  refine ⟨_, table, fun act same jumps => ?_⟩
  subst same
  have lists : act.jumps.Lists code'.constructs := jumps ▸ JumpTable.lists_of_whole whole
  obtain ⟨last, laid, close⟩ := whole
  exact ⟨_, _, [], [], rfl, .body, code', last, ⟨laid, _, lists, fun _ hc => hc⟩, .body close, typed⟩

theorem enter_typed (tabled : m.Tabled) (hosts : m.HostsTyped) (valid : m.Valid shape) (function : m.function index = .ok f) :
    Ensures (Machine.Holds shape under (ts ++ f.signature.params)) (m.enter f index (under.size + ts.length))
      (fun r M => match r with
        | none => M.Holds shape under (ts ++ f.signature.results)
        | some act => m.Entered shape f index under ts act M) m.Allows := by
  refine Ensures.bind (Q := fun s M => s.Holds shape under (ts ++ f.signature.params) ∧
    M.Holds shape under (ts ++ f.signature.params)) (fun M holds => ⟨holds, holds⟩) fun s => .given fun holds => ?_
  have size := holds.1.size
  dsimp only
  split
  · exact (notify_holds _).bind fun _ => .throw fun _ _ => .inl trivial
  · refine (setDepth_holds (· + 1)).bind fun _ => ?_
    rw [if_neg (by rw [Stack.size, size, List.length_append]; omega)]
    split
    · exact .throw fun _ _ => .inl trivial
    · exact .throw fun _ _ => .inl trivial
    · rename_i host body
      refine (onStack_gives (Stack.popMany_holds f.signature.params)).bind fun arguments => .given fun typed =>
        (callHost_holds hosts function body typed).bind fun results => .given fun given => ?_
      rw [Activation.ofExcept_holds (checkResults_ok given), pure_bind]
      -- The host function has the arguments already, so that nothing is cut off.
      have cut : Ensures (Stack.Holds under (ts ++ [])) _ _ m.Allows := Stack.truncate_holds ts []
      rw [List.append_nil] at cut
      exact (onStack_holds cut).bind fun _ => (onStack_holds (Stack.pushMany_holds given)).bind fun _ =>
        (setDepth_holds (· - 1)).bind fun _ => .pure fun M holds => holds
    · rename_i body code
      obtain ⟨jumps, table, starts⟩ := valid.starts tabled function code
      rw [Activation.ofExcept_holds table, pure_bind]
      refine (onStack_holds (Stack.pushMany_holds (Value.types_zeros _))).bind fun _ => .pure fun M holds => ?_
      obtain ⟨⟨values, whole, types⟩, declared⟩ := holds
      rw [List.append_assoc] at types
      -- The frame begins at the arguments, and what was below them is now under it.
      obtain ⟨frame, slots, rfl, rfl, slotted⟩ := Value.types_eq_append types
      refine ⟨frame, rfl, rfl, ⟨by simp, by simp [context], rfl⟩, starts _ rfl rfl, ⟨slots, ?_, slotted⟩, declared⟩
      rw [whole, Array.append_assoc]

/-- A call from an activation leaves the results of the function in place of the arguments, or leads to an activation of
    it. -/
theorem callFrom_typed (tabled : m.Tabled) (hosts : m.HostsTyped) (valid : m.Valid shape) (act : Activation)
    (function : m.function callee = .ok f) :
    Ensures (Machine.Holds shape under (ts ++ f.signature.params)) (m.callFrom act callee)
      (fun r M => match r with
        | none => M.Holds shape under (ts ++ f.signature.results)
        | some inner => m.Entered shape f callee under ts inner M) m.Allows := by
  unfold callFrom
  rw [Activation.ofExcept_holds function, pure_bind]
  refine Ensures.bind (Q := fun s M => s.Holds shape under (ts ++ f.signature.params) ∧
    M.Holds shape under (ts ++ f.signature.params)) (fun M holds => ⟨holds, holds⟩) fun s => .given fun holds => ?_
  have size := holds.1.size
  -- The arguments are there, so that comparing them with the last ones cannot fail.
  have known : ∃ again, isRepeated act callee f.signature.params.length s = .ok again := by
    unfold isRepeated Stack.top?
    split
    · rw [if_pos (by rw [size, List.length_append]; omega)]
      exact ⟨_, rfl⟩
    · exact ⟨_, rfl⟩
  obtain ⟨again, repeated⟩ := known
  rw [Activation.ofExcept_holds repeated, pure_bind]
  cases again with
  -- A call that is skipped has zeros for its results, which are of the declared types.
  | true =>
    refine (notify_holds _).bind fun _ => ?_
    refine Ensures.bind (Q := fun _ => Machine.Holds shape under ts)
      ((onStack_gives (Stack.popMany_holds f.signature.params)).discard fun _ _ h => h.2) fun _ => ?_
    exact (onStack_holds (Stack.pushMany_holds (Value.types_zeros _))).bind fun _ => .pure fun M holds => holds
  | false =>
    refine (Activation.heightBelow_holds _ _).bind fun height => .given fun high => ?_
    subst high
    exact enter_typed tabled hosts valid function

/-! ### Chains of activations -/

/-- Each activation waits for results of the one that it has called, the last one being called by nobody: the chain can go
    on when values of the types are put on what is below. -/
inductive Chain (m : Module σ) (shape : Shape) (bottom : Array Value) (final : List ValType) :
    List Activation → Array Value → List ValType → Prop
  | nil : Chain m shape bottom final [] bottom final
  | cons {act : Activation} {pos labels callers f under frame operands results} : m.function act.index = .ok f →
      act.Belongs (m.context shape f) under → act.Stands (m.context shape f) pos labels (operands ++ results) →
      Value.types frame = f.slots ++ operands → Chain m shape bottom final callers under f.signature.results →
      Chain m shape bottom final ({ act with pos, labels } :: callers) (under ++ frame) results

/-- The activations of the chain are well typed on the machine. -/
def Sound (m : Module σ) (shape : Shape) (bottom : Array Value) (final : List ValType) (chain : List Activation)
    (M : Machine σ) : Prop :=
  M.store.shape = shape ∧ ∃ below values, M.store.stack.values = below ++ values ∧
    m.Chain shape bottom final chain below (Value.types values)

variable {bottom : Array Value} {final operands results : List ValType} {act : Activation} {callers : List Activation}
  {pos : Nat} {labels : List Label}

theorem Sound.cons (function : m.function act.index = .ok f) (belongs : act.Belongs (m.context shape f) under)
    (stands : act.Stands (m.context shape f) pos labels operands) (holds : M.Holds shape under (f.slots ++ operands))
    (chain : m.Chain shape bottom final callers under f.signature.results) :
    m.Sound shape bottom final ({ act with pos, labels } :: callers) M := by
  obtain ⟨⟨frame, whole, types⟩, declared⟩ := holds
  refine ⟨declared, under ++ frame, #[], by simp [whole], .cons function belongs ?_ types chain⟩
  simpa using stands

/-- Where the innermost activation of a chain stands. -/
theorem Sound.innermost (sound : m.Sound shape bottom final (act :: callers) M) :
    ∃ (home : Activation) (f : Function σ) (under : Array Value) (pos : Nat) (labels : List Label) (operands : List ValType),
    act = { home with pos, labels } ∧ m.function home.index = .ok f ∧ home.Belongs (m.context shape f) under ∧
    home.Stands (m.context shape f) pos labels operands ∧ M.Holds shape under (f.slots ++ operands) ∧
    m.Chain shape bottom final callers under f.signature.results := by
  obtain ⟨declared, below, values, whole, chain⟩ := sound
  cases chain with
  | @cons home pos labels _ f under frame operands _ function belongs stands types chain =>
    refine ⟨home, f, under, pos, labels, _, rfl, function, belongs, stands, ⟨⟨frame ++ values, ?_, ?_⟩, declared⟩, chain⟩
    · rw [whole, Array.append_assoc]
    · rw [Value.types_append, types, List.append_assoc]

theorem Sound.entered {inner : Activation} (function : m.function index = .ok f)
    (entered : m.Entered shape f index under ts inner M)
    (chain : ∀ frame, Value.types frame = ts → m.Chain shape bottom final callers (under ++ frame) f.signature.results) :
    m.Sound shape bottom final (inner :: callers) M := by
  obtain ⟨frame, types, same, belongs, stands, holds⟩ := entered
  subst same
  exact Sound.cons function belongs stands (by simpa using holds) (chain frame types)

theorem proceed_sound (tabled : m.Tabled) (hosts : m.HostsTyped) (valid : m.Valid shape)
    (function : m.function act.index = .ok f) (belongs : act.Belongs (m.context shape f) under)
    (chain : m.Chain shape bottom final callers under f.signature.results) (pos : Nat) (labels : List Label) (flow : Flow) :
    Ensures (flow.Typed (m.context shape f) act under) (m.proceed { act with pos, labels } callers flow)
      (m.Sound shape bottom final) m.Allows := by
  cases flow with
  | next act' =>
    refine .pure fun M typed => ?_
    obtain ⟨pos, labels, operands, rfl, stands, holds⟩ := typed
    exact .cons function belongs stands holds chain
  | ret =>
    rintro M ⟨operands, holds⟩
    -- The locals and what is left above them go, and the results come down to where the frame began.
    have settle : Ensures (Stack.Holds under ([] ++ (f.slots ++ operands) ++ f.signature.results)) _ _ m.Allows :=
      Stack.settle_holds _ _ _
    refine Ensures.bind (?_ : Ensures (Machine.Holds shape under (f.slots ++ operands ++ f.signature.results)) (leave _)
      (fun _ => Machine.Holds shape under f.signature.results) m.Allows) (fun _ => .pure fun N holds => ?_) M holds
    · unfold leave
      dsimp only
      rw [belongs.offset, belongs.results]
      exact (onStack_holds settle).bind fun _ => setDepth_holds (· - 1)
    · obtain ⟨⟨values, whole, types⟩, declared⟩ := holds
      exact ⟨declared, under, values, whole, types ▸ chain⟩
  | call act' callee =>
    rintro M ⟨pos, labels, operands, t, rfl, found, stands, holds⟩
    obtain ⟨g, called, rfl⟩ : ∃ g, m.function callee = .ok g ∧ g.signature = t := by
      simp only [context, signatures, Array.getElem?_map, Option.map_eq_some_iff] at found
      obtain ⟨g, found, same⟩ := found
      exact ⟨g, function_eq_ok.mpr found, same⟩
    refine Ensures.bind (callFrom_typed tabled hosts valid { act with pos, labels } called) (fun r => ?_) M holds
    cases r with
    | none =>
      refine .pure fun N holds => .cons function belongs stands ?_ chain
      rwa [← List.append_assoc]
    | some inner =>
      refine .pure fun N entered => .entered called entered fun frame types => ?_
      exact .cons function belongs stands types chain

/-- A step of a well-typed chain leads to one, or to a trap that valid functions may lead to. -/
theorem step_sound (tabled : m.Tabled) (hosts : m.HostsTyped) (valid : m.Valid shape) (act : Activation)
    (callers : List Activation) : Ensures (m.Sound shape bottom final (act :: callers)) (m.step act callers)
      (m.Sound shape bottom final) m.Allows := by
  intro M sound
  obtain ⟨home, f, under, pos, labels, operands, rfl, function, belongs, stands, holds, chain⟩ := sound.innermost
  have progress : home.Progresses σ (m.context shape f) under pos labels operands := stands.progresses belongs
  rw [step_eq]
  exact (progress.raising fun _ => .inl).bind (proceed_sound tabled hosts valid function belongs chain pos labels) M holds

end Module
end Wasm
