import Wasm.Proofs.Isolation

/-! Runs that keep to their frames, as those of valid functions do. They take nothing off what was on the stack before. -/

namespace Wasm
variable {σ : Type}

open Run

/-! ### Instructions that keep to their frame -/

/-- Each operand is one value. -/
theorem Stack.le_lowest {base : Nat} {os : List Operand} {s : Stack} (enough : base + os.length ≤ s.values.size) :
    base ≤ s.lowest os := by
  induction os generalizing s with
  | nil => exact enough
  | cons o os ih =>
    rw [List.length_cons] at enough
    unfold lowest size
    split
    · omega
    · split
      · exact ih (by rw [Array.size_pop]; omega)
      · omega

theorem Plain.length_operands (p : Plain) : p.operands.length = p.pops := by
  cases p with
  | numeric op => cases op <;> rfl
  | _ => rfl

theorem Stack.SettlesAbove.le_lowest {base offset height arity : Nat} {s : Stack} (h : s.SettlesAbove offset height arity)
    (above : base ≤ offset) (low : base ≤ s.size) : base ≤ s.lowestSettling height arity := by
  unfold SettlesAbove at h
  unfold lowestSettling size at *
  split <;> omega

theorem Stack.le_lowestAssigning {base slot : Nat} {s : Stack} (inside : base ≤ slot) (enough : base + 1 ≤ s.values.size) :
    base ≤ s.lowestAssigning slot := by
  unfold lowestAssigning size
  split
  · split <;> omega
  · omega

/-- An instruction that runs straight on has its locals in the frame, too. -/
theorem Plain.le_lowest {base : Nat} {f : Frame} {s : Stack} (p : Plain) (above : base ≤ f.offset)
    (spares : f.offset + p.pops ≤ s.values.size) : base ≤ p.lowest f s := by
  have operands : base ≤ s.lowest p.operands := Stack.le_lowest (by rw [length_operands]; omega)
  have assigned : ∀ index, f.offset + 1 ≤ s.values.size → base ≤ (localSet index).lowest f s := by
    intro index taken
    unfold lowest
    dsimp only
    cases found : f.slot? index with
    | none => exact Nat.le_trans above (Nat.le_of_succ_le taken)
    | some slot =>
      unfold Frame.slot? at found
      split at found <;> cases found
      exact Stack.le_lowestAssigning (by omega) (by omega)
  cases p with
  | localSet index => exact assigned index spares
  | localTee index => exact assigned index spares
  | _ => exact operands

namespace Activation
variable {base : Nat} {m : Module σ} {act : Activation} {s : Store}

theorem le_lowestReturning (above : base ≤ act.frame.offset) {s : Stack} (low : base ≤ s.size) :
    base ≤ act.lowestReturning s :=
  Stack.SettlesAbove.le_lowest (.inl (Nat.le_refl _)) above low

theorem le_lowestBranching (above : base ≤ act.frame.offset) (low : base ≤ s.stack.size) {depth : Nat} (conditional : Bool)
    (spares : ∀ L, act.labels[depth]? = some L → s.stack.SettlesAbove act.frame.offset L.height L.arity) :
    base ≤ act.lowestBranching depth conditional s := by
  unfold lowestBranching
  split
  · exact le_lowestReturning above low
  cases found : act.labels[depth]? with
  | none => exact low
  | some L =>
    dsimp only
    split
    · rename_i idle
      split
      · exact low
      · -- A loop is idle only if its height is in the frame.
        exact Nat.le_trans above (reentersUnchanged_eq_true.mp (isIdle_eq_true.mp idle).2.2.2).1.1
    · exact (spares L found).le_lowest above low

/-- Where there is a target, the operand has been taken off. -/
theorem le_lowestChoosing (above : base ≤ act.frame.offset) (taken : act.frame.offset + 1 ≤ s.stack.values.size)
    {target : Option (Nat × Stack)} (conditional : Bool)
    (pops : ∀ depth t, target = some (depth, t) → ∃ v, s.stack.values = t.values.push v)
    (spares : ∀ depth t, target = some (depth, t) → ∀ L, act.labels[depth]? = some L →
      t.SettlesAbove act.frame.offset L.height L.arity) : base ≤ act.lowestChoosing target conditional s := by
  unfold lowestChoosing
  split
  · rename_i depth t
    obtain ⟨v, whole⟩ := pops depth t rfl
    refine le_lowestBranching above ?_ conditional (spares depth t rfl)
    rw [whole, Array.size_push] at taken
    dsimp only
    unfold Stack.size
    omega
  · exact Nat.le_trans above (Stack.le_lowest taken)

theorem le_lowestOf (above : base ≤ act.frame.offset) (low : base ≤ s.stack.size) (i : Instr)
    (spares : act.Spares m s.stack i) : base ≤ act.lowestOf m s i := by
  cases i with
  | plain p => exact p.le_lowest above spares
  | block type => exact low
  | loop type => exact low
  | ifThen type =>
    rw [lowestOf, lowestTesting]
    split
    · exact Nat.le_trans above (Stack.le_lowest spares)
    · exact low
  | elseMark => exact low
  | endMark =>
    rw [lowestOf, lowestLeaving]
    unfold Spares at spares
    cases labels : act.labels with
    | nil => exact le_lowestReturning above low
    | cons L outer =>
      rw [labels] at spares
      exact (spares L rfl).le_lowest above low
  | br depth => exact le_lowestBranching above low false spares
  | brIf depth =>
    refine le_lowestChoosing above spares.1 true (fun target stack found => ?_) spares.2
    unfold Instr.target? at found
    dsimp only at found
    split at found
    · split at found <;> cases found
      exact ⟨_, Stack.popInt_eq_ok.mp ‹_›⟩
    · cases found
  | brTable targets fallback =>
    refine le_lowestChoosing above spares.1 false (fun target stack found => ?_) spares.2
    unfold Instr.target? at found
    dsimp only at found
    split at found <;> cases found
    obtain ⟨x, whole, -⟩ := Stack.popAddress_eq_ok.mp ‹_›
    exact ⟨_, whole⟩
  | ret => exact le_lowestReturning above low
  | call callee =>
    rw [lowestOf, lowestCalling]
    unfold Spares at spares
    cases function : m.function callee with
    | error e => exact low
    | ok f =>
      have arguments := spares f function
      dsimp only
      split
      · exact low
      · unfold Stack.size at *
        split <;> omega

/-- An instruction that spares what is below its frame works nowhere below a height that the frame is above. -/
theorem le_lowest {M : Machine σ} (above : base ≤ act.frame.offset) (low : base ≤ M.store.stack.size)
    (keeps : act.KeepsToFrame m M) : base ≤ act.lowest m M.store := by
  unfold lowest
  cases read : Instr.read act.body act.pos with
  | error e next => exact low
  | ok i next => exact le_lowestOf above low i (keeps i next read)

end Activation

/-! ### Instructions of valid functions -/

theorem Plain.Typed.pops_eq {C : Context} {p : Plain} {params results : List ValType} (h : p.Typed C params results) :
    p.pops = params.length := by
  cases h with
  | @numeric op => cases op <;> rfl
  | _ => rfl

namespace Activation
variable {C : Context} {act : Activation} {labels : List Label} {types : List (List ValType)} {pos : Nat}
  {own below operands : List ValType} {under : Array Value} {m : Module σ}

/-- The constructs that an activation is in begin in its frame. -/
theorem Waits.le_height (h : act.Waits C labels types own below) : ∀ L ∈ labels, act.frame.offset ≤ L.height := by
  induction h with
  | body => exact nofun
  | construct _ height _ ih => exact List.forall_mem_cons.mpr ⟨by omega, ih⟩

/-- Where an activation stands, its next instruction takes off operands and nothing else. -/
theorem Stands.spares (stands : act.Stands C pos labels operands) (belongs : act.Belongs C under)
    (functions : C.functions = m.signatures) {s : Stack} (holds : s.Holds under (C.locals ++ operands)) {i : Instr} {next : Nat}
    (read : Instr.read act.body pos = .ok i next) : Spares m { act with pos, labels } s i := by
  have size := holds.size
  obtain ⟨types, out, below, current, rfl, waits, code, last, carries, ends, valid⟩ := stands
  have settles : ∀ depth (L : Label), labels[depth]? = some L → ∀ (s : Stack) (arity : Nat),
      s.SettlesAbove act.frame.offset L.height arity := fun _ L found _ _ =>
    .inl (waits.le_height L (List.mem_of_getElem? found))
  simp only [List.length_append] at size
  rw [← belongs.offset] at size
  cases code with
  | done =>
    obtain rfl := carries.done
    cases ends with
    | body read' =>
      cases read.symm.trans read'
      exact nofun
    | construct read' =>
      cases read.symm.trans read'
      rintro _ ⟨⟩
      exact settles 0 _ rfl s _
    | arm _ read' _ =>
      cases read.symm.trans read'
      trivial
  | block start stop type inner rest =>
    obtain ⟨-, _, _, read', -⟩ := carries.block
    cases read.symm.trans read'
    trivial
  | loop start stop type inner rest =>
    obtain ⟨-, _, _, read', -⟩ := carries.loop
    cases read.symm.trans read'
    trivial
  | ifThen start otherwise stop type first second rest =>
    obtain ⟨-, _, _, read', -⟩ := carries.ifThen
    obtain ⟨t, base, -, rfl, -⟩ := valid.ifThen_known
    cases read.symm.trans read'
    simp only [List.length_append, List.length_singleton] at size
    show act.frame.offset + 1 ≤ s.values.size
    omega
  | simple i rest =>
    obtain ⟨_, read', -⟩ := carries.simple
    cases read.symm.trans read'
    cases i with
    | plain p =>
      show act.frame.offset + p.pops ≤ s.values.size
      rcases valid.plain_known with rfl | ⟨params, results, base, typed, rfl, -⟩
      · rw [size]
        exact Nat.le_add_right _ _
      · rw [List.length_append] at size
        rw [typed.pops_eq]
        omega
    | br depth => exact fun L found => settles depth L found s _
    | brIf depth =>
      obtain ⟨_, base, -, rfl, -⟩ := valid.brIf_known
      simp only [List.length_append, List.length_singleton] at size
      exact ⟨show act.frame.offset + 1 ≤ s.values.size by omega, fun target s' _ L found => settles target L found s' _⟩
    | brTable targets fallback =>
      obtain ⟨below', rfl, -⟩ := valid.brTable_known
      simp only [List.length_append, List.length_singleton] at size
      exact ⟨show act.frame.offset + 1 ≤ s.values.size by omega, fun target s' _ L found => settles target L found s' _⟩
    | ret => trivial
    | call callee =>
      intro f function
      obtain ⟨t, base, found, rfl, -⟩ := valid.call_known
      -- The signature that the code has been checked with is that of the function.
      rw [functions, Module.signatures, Array.getElem?_map, Module.function_eq_ok.mp function] at found
      cases found
      rw [List.length_append] at size
      dsimp only at size ⊢
      omega

end Activation

namespace Module
variable {m : Module σ} {act : Activation} {callers chain : List Activation} {M N : Machine σ} {index fuel : Nat}
  {arguments : Array Value}

/-! ### Runs that keep to their frames -/

/-- The activations of a chain have their frames at a height or above it. -/
def FramesAbove (base : Nat) (chain : List Activation) : Prop := ∀ act ∈ chain, base ≤ act.frame.offset

/-- A function that is called has the arguments of its frame from the one that calls it. -/
theorem step_framesAbove {base : Nat} (above : FramesAbove base (act :: callers)) (keeps : act.KeepsToFrame m M)
    (stepped : m.step act callers M = .ok chain N) : FramesAbove base chain := by
  obtain ⟨own, others⟩ := List.forall_mem_cons.mp above
  rw [step_eq] at stepped
  obtain ⟨flow, M₁, ran, proceeded⟩ := bind_eq_ok.mp stepped
  obtain ⟨i, next, read, -, flows⟩ := Activation.step_flowsOn ran
  cases flow with
  | next a =>
    obtain ⟨pos, labels, rfl⟩ := Activation.GoesOn.same flows
    cases proceeded
    exact List.forall_mem_cons.mpr ⟨own, others⟩
  | ret =>
    obtain ⟨_, M₂, -, done⟩ := bind_eq_ok.mp proceeded
    cases done
    exact others
  | call a callee =>
    obtain ⟨rfl, rfl, rfl⟩ := flows
    have here : FramesAbove base ({ act with pos := next } :: callers) := List.forall_mem_cons.mpr ⟨own, others⟩
    obtain ⟨r, M₂, called, done⟩ := bind_eq_ok.mp proceeded
    cases r with
    | none =>
      cases done
      exact here
    | some inner =>
      cases done
      obtain ⟨f, offset, function, whole, entered⟩ := callFrom_eq_some called
      obtain ⟨_, _, -, -, -, -, rfl, -⟩ := enter_eq_some entered
      have spares := keeps _ _ read f function
      exact List.forall_mem_cons.mpr ⟨by dsimp only; omega, here⟩

/-- A run that keeps to its frames works nowhere below the lowest of them. -/
theorem le_lowest {base : Nat} (above : FramesAbove base chain) (low : base ≤ M.store.stack.size)
    (keeps : ∀ act callers N, m.Visits chain M (act :: callers) N → act.KeepsToFrame m N) :
    base ≤ m.lowest fuel chain M := by
  induction fuel, chain, M using m.run_induction with
  | ended fuel M => cases fuel <;> exact low
  | spent act callers M => exact low
  | fails fuel act callers M e N stepped =>
    rw [lowest, stepped]
    exact Activation.le_lowest (above act List.mem_cons_self) low (keeps act callers M .here)
  | onward fuel act callers M chain N stepped ih =>
    have here := keeps act callers M .here
    have step := Activation.le_lowest (above act List.mem_cons_self) low here
    rw [lowest, stepped]
    refine Nat.le_min.mpr ⟨step, ih (step_framesAbove above here stepped) ?_ fun act callers P visits =>
      keeps act callers P (.onward stepped visits)⟩
    -- The values below the frames are still there after the step.
    have rests : M.Rests (M.store.stack.values.extract 0 base) := .extract M.store.stack base
    have after := step_rests callers rests (Nat.le_trans (by rw [Array.size_extract]; omega) step)
    rw [stateAfter_ok stepped] at after
    have size := after.size
    rw [Array.size_extract] at size
    unfold Stack.size at *
    omega

/-- A call whose functions keep to their frames takes nothing off what was on the stack. -/
theorem invokeLowest_of_keepsToFrames (keeps : m.KeepsToFrames index arguments M) (fuel : Nat) :
    m.invokeLowest fuel index arguments M = M.store.stack.size := by
  unfold invokeLowest
  cases accepted : m.accept index arguments with
  | error e => rfl
  | ok f =>
    dsimp only
    cases started : m.starts f index arguments M with
    | error e N => rfl
    | ok r N =>
      cases r with
      | none => rfl
      | some act =>
        obtain ⟨_, _, -, -, -, enough, rfl, rfl⟩ := enter_eq_some (starts_eq m _ _ _ _ ▸ started)
        refine Nat.min_eq_left (le_lowest (List.forall_mem_cons.mpr ⟨Nat.le_refl _, nofun⟩) ?_ (keeps f _ _ accepted started))
        dsimp only
        unfold Stack.size
        dsimp only
        rw [Array.size_append, Array.size_append]
        omega

/-! ### Valid modules -/

section Valid
variable {shape : Shape} {bottom : Array Value} {final : List ValType} {f : Function σ}

theorem Sound.keepsToFrame (sound : m.Sound shape bottom final (act :: callers) M) : act.KeepsToFrame m M := by
  obtain ⟨home, f, under, pos, labels, operands, rfl, -, belongs, stands, holds, -⟩ := sound.innermost
  exact fun i next read => stands.spares belongs rfl holds.1 read

/-- In a valid module, whatever is called keeps to the frames. -/
theorem Valid.keepsToFrames (tabled : m.Tabled) (hosts : m.HostsTyped) (valid : m.Valid M.store.shape) (index : Nat)
    (arguments : Array Value) : m.KeepsToFrames index arguments M := by
  intro f act N accepted started act' callers N' visits
  have sound := starts_typed tabled hosts valid (accept_eq_ok accepted).1 (accept_types accepted) rfl
  rw [started] at sound
  exact (Sound.visits tabled hosts valid sound visits).keepsToFrame

/-- Valid functions are isolated from what was on the stack before, in whatever state of the module they are called. It is
    all there when the call has ended: with the results on top of it, or with nothing on top after a trap. -/
theorem Valid.isolated (tabled : m.Tabled) (hosts : m.HostsTyped) (valid : m.Valid M.store.shape) (reached : m.Reaches M N)
    (function : m.function index = .ok f) (fuel : Nat) (arguments : Array Value) :
    Isolated N.store.stack (fun _ => Topped N.store.stack f.signature.results.length)
      (m.invokeIndex fuel index arguments N) := by
  have valid : m.Valid N.store.shape := reached.declared ▸ valid
  exact invokeIndex_isolated function (invokeLowest_of_keepsToFrames (valid.keepsToFrames tabled hosts index arguments) fuel)

end Valid

end Module
end Wasm
