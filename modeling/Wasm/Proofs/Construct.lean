import Wasm.Proofs.Follow

/-! Constructs and calls in a run: which code the body of an activation has where, what one step into a construct leads
    to, and what becomes of a call. -/

namespace Wasm
variable {σ : Type}

open Run Activation

/-! ### Code in the body of an activation -/

/-- The body of an activation has the code between two positions, and the jump table its constructs. -/
structure Activation.Carries (act : Activation) (pos : Nat) (code : Code) (last : Nat) : Prop where
  laid : Laid act.body pos code last
  listed : ∃ cs, act.jumps.Lists cs ∧ code.constructs ⊆ cs

namespace Activation.Carries
variable {act : Activation} {pos last : Nat}

/-- It does not matter where the activation is and which constructs it is in. -/
theorem anywhere {code : Code} (h : act.Carries pos code last) (at_ : Nat) (labels : List Label) :
    { act with pos := at_, labels }.Carries pos code last := ⟨h.laid, h.listed⟩

theorem narrow {code part : Code} {first stop : Nat} (h : act.Carries pos code last) (laid : Laid act.body first part stop)
    (within : part.constructs ⊆ code.constructs) : act.Carries first part stop := by
  obtain ⟨_, cs, lists, all⟩ := h
  exact ⟨laid, cs, lists, fun c hc => all (within hc)⟩

theorem done (h : act.Carries pos .done last) : pos = last := by
  cases h.laid
  rfl

theorem simple {i : Simple} {rest : Code} (h : act.Carries pos (.simple i rest) last) :
    ∃ next, Instr.read act.body pos = .ok i.instr next ∧ act.Carries next rest last := by
  cases h.laid with
  | simple read laid => exact ⟨_, read, h.narrow laid fun _ hc => hc⟩

theorem block {start stop : Nat} {type : BlockType} {inner rest : Code}
    (h : act.Carries pos (.block start stop type inner rest) last) : start = pos ∧ ∃ inside next,
      Instr.read act.body pos = .ok (.block type) inside ∧ act.jumps.blockEnd pos = .ok stop ∧
      act.Carries inside inner stop ∧ Instr.read act.body stop = .ok .endMark next ∧ act.Carries next rest last := by
  obtain ⟨cs, lists, all⟩ := h.listed
  cases h.laid with
  | block read inside close after =>
    have entry := (lists.blocks pos stop).mpr ⟨⟨.block, pos, none, stop⟩, all (by simp [Code.constructs]), rfl⟩
    refine ⟨rfl, _, _, read, ?_, h.narrow inside ?_, close, h.narrow after ?_⟩
    · unfold JumpTable.blockEnd JumpTable.entry
      rw [entry]
    · exact fun c hc => List.mem_append_left _ hc
    · exact fun c hc => List.mem_append_right _ (List.mem_cons_of_mem _ hc)

theorem loop {start stop : Nat} {type : BlockType} {inner rest : Code}
    (h : act.Carries pos (.loop start stop type inner rest) last) : start = pos ∧ ∃ inside next,
      Instr.read act.body pos = .ok (.loop type) inside ∧ act.jumps.loopEnd pos = .ok stop ∧
      act.jumps.loopStart? stop = some pos ∧
      act.Carries inside inner stop ∧ Instr.read act.body stop = .ok .endMark next ∧ act.Carries next rest last := by
  obtain ⟨cs, lists, all⟩ := h.listed
  cases h.laid with
  | loop read inside close after =>
    have entry := (lists.loopEnds pos stop).mpr ⟨⟨.loop, pos, none, stop⟩, all (by simp [Code.constructs]), rfl⟩
    have back := (lists.loops_inverse pos stop).mp entry
    refine ⟨rfl, _, _, read, ?_, back, h.narrow inside ?_, close, h.narrow after ?_⟩
    · unfold JumpTable.loopEnd JumpTable.entry
      rw [entry]
    · exact fun c hc => List.mem_append_left _ hc
    · exact fun c hc => List.mem_append_right _ (List.mem_cons_of_mem _ hc)

/-- An if without an else has an empty second arm at its end. -/
theorem ifThen {start stop : Nat} {otherwise : Option Nat} {type : BlockType} {first second rest : Code}
    (h : act.Carries pos (.ifThen start otherwise stop type first second rest) last) : start = pos ∧ ∃ inside next,
      Instr.read act.body pos = .ok (.ifThen type) inside ∧
      act.jumps.ifTargets pos = .ok (otherwise.getD stop, stop) ∧
      ((otherwise = none ∧ second = .done ∧ act.Carries inside first stop) ∨
        ∃ other middle, otherwise = some other ∧ other ≠ stop ∧ act.Carries inside first other ∧
          Instr.read act.body other = .ok .elseMark middle ∧ act.Carries middle second stop) ∧
      Instr.read act.body stop = .ok .endMark next ∧ act.Carries next rest last := by
  obtain ⟨cs, lists, all⟩ := h.listed
  have targets : act.jumps.ifTargets start = .ok (otherwise.getD stop, stop) := by
    have entry := (lists.ifs start (otherwise.getD stop, stop)).mpr
      ⟨⟨.ifThen, start, otherwise, stop⟩, all (by simp [Code.constructs]), rfl⟩
    unfold JumpTable.ifTargets JumpTable.entry
    rw [entry]
  cases h.laid with
  | ifThen read inside close after =>
    refine ⟨rfl, _, _, read, targets, .inl ⟨rfl, rfl, h.narrow inside ?_⟩, close, h.narrow after ?_⟩
    · exact fun c hc => List.mem_append_left _ (List.mem_append_left _ hc)
    · exact fun c hc => List.mem_append_right _ (List.mem_cons_of_mem _ hc)
  | ifElse read inside mark inside' close after =>
    have apart := (Instr.read_bounds mark).1
    have between := inside'.le
    refine ⟨rfl, _, _, read, targets, .inr ⟨_, _, rfl, by omega, h.narrow inside ?_, mark, h.narrow inside' ?_⟩, close,
      h.narrow after ?_⟩
    · exact fun c hc => List.mem_append_left _ (List.mem_append_left _ hc)
    · exact fun c hc => List.mem_append_left _ (List.mem_append_right _ hc)
    · exact fun c hc => List.mem_append_right _ (List.mem_cons_of_mem _ hc)

end Activation.Carries

/-! ### Entering constructs -/

namespace Module
variable {m : Module σ} {act : Activation} {callers : List Activation} {pos last stop next : Nat} {M N : Machine σ}
  {x : Extent} {type : BlockType} {rest : Code}

/-- One step leads from a position into a construct, to the code inside. From where that code is left, the run goes on
    with what becomes of the construct. -/
def Enters (m : Module σ) (act : Activation) (callers : List Activation) (pos next : Nat) (kind : BlockKind) (x : Extent)
    (inner : Code) (M N : Machine σ) : Prop :=
  ∃ (L : Label) (first last : Nat), { act with labels := L :: act.labels }.Carries first inner last ∧
    (∀ fuel, m.run (fuel + 1) ({ act with pos } :: callers) M =
      m.run fuel ({ act with pos := first, labels := L :: act.labels } :: callers) N) ∧
    ∀ (y : Ending) (O : Machine σ), (∀ k, y = .branch k → k < act.labels.length + 1) →
      ((∀ e, y ≠ .trap e) → O.Unguarded) → ∃ steps, ∀ fuel,
        m.follow (fuel + steps) { act with pos := last, labels := L :: act.labels } callers y O =
          m.carryOn fuel act callers pos next (y.sequel kind x O)

theorem enters_block (callers : List Activation) {start : Nat} {inner : Code} (h : act.Carries pos (.block start stop type inner rest) last)
    (close : Instr.read act.body stop = .ok .endMark next) (opened : opens m.types type start M = .ok x N) :
    m.Enters act callers pos next .block x inner M N := by
  obtain ⟨rfl, inside, _, read, ends, inner, -, -⟩ := h.block
  obtain ⟨L, fits, entered⟩ := enterBlock_ok { act with pos := inside } opened ends
  exact ⟨L, inside, stop, ⟨inner.laid, inner.listed⟩, fun fuel => run_next read (exec_block_ok entered),
    fun y O bound quiet => follow_sequel fits close (by simp) bound quiet⟩

theorem enters_loop (callers : List Activation) {start : Nat} {inner : Code} (h : act.Carries pos (.loop start stop type inner rest) last)
    (close : Instr.read act.body stop = .ok .endMark next) (opened : opens m.types type start M = .ok x N) :
    m.Enters act callers pos next .loop x inner M N := by
  obtain ⟨rfl, inside, _, read, ends, back, inner, -, -⟩ := h.loop
  have bounds := Instr.read_bounds read
  obtain ⟨L, fits, entered⟩ := enterLoop_ok { act with pos := inside } opened ends
  exact ⟨L, inside, stop, ⟨inner.laid, inner.listed⟩, fun fuel => run_next read (exec_loop_ok entered),
    fun y O bound quiet => follow_sequel fits close (fun _ => ⟨back, by omega⟩) bound quiet⟩

/-- The else that ends the first arm leads to the end of the if. -/
theorem follow_elseMark (callers : List Activation) {L : Label} {other middle : Nat} (fits : L.Fits .ifThen stop x)
    (mark : Instr.read act.body other = .ok .elseMark middle) (inBody : stop ≤ act.body.size) {y : Ending}
    (inside : ∀ k, y = .branch k → k < act.labels.length + 1) (h : (∀ e, y ≠ .trap e) → M.Unguarded) :
    ∃ steps, ∀ fuel, m.follow (fuel + steps) { act with pos := other, labels := L :: act.labels } callers y M =
      m.follow fuel { act with pos := stop, labels := L :: act.labels } callers y M := by
  by_cases falls : y = .fall
  · subst falls
    refine ⟨1, fun fuel => (run_at mark).trans ?_⟩
    have left : (leaveArm { act with pos := middle, labels := L :: act.labels } other : Run σ Activation) =
        pure { act with pos := stop, labels := L :: act.labels } := by
      unfold leaveArm
      dsimp only
      rw [if_pos fits.isKind, fits.stop]
      exact goto_ok _ inBody
    show m.goOn fuel act callers ((leaveArm _ _ >>= _ : Run σ Flow) M) = _
    rw [left]
    rfl
  · refine ⟨0, fun fuel => ?_⟩
    by_cases traps : ∃ e, y = .trap e
    · obtain ⟨e, rfl⟩ := traps
      rfl
    · have quiet := h fun e eq => traps ⟨e, eq⟩
      rw [Nat.add_zero]
      exact follow_pos { act with pos := stop, labels := L :: act.labels } quiet falls inside other

theorem enters_if (callers : List Activation) {start : Nat} {otherwise : Option Nat} {first second : Code} {holds : Bool}
    (h : act.Carries pos (.ifThen start otherwise stop type first second rest) last)
    (close : Instr.read act.body stop = .ok .endMark next)
    (opened : opensIf m.types type start M = .ok (x, holds) N) :
    m.Enters act callers pos next .ifThen x (if holds then first else second) M N := by
  obtain ⟨rfl, inside, _, read, targets, arms, -, -⟩ := h.ifThen
  obtain ⟨L, fits, entered⟩ := enterIf_ok { act with pos := inside } opened targets
  have inBody : stop ≤ act.body.size := by have := Instr.read_bounds close; omega
  -- Wherever the machine goes, it is one step from there.
  have steps : ∀ {there : Nat}, (if holds then pure { act with pos := inside, labels := L :: act.labels }
      else if otherwise.getD stop = stop then goto { act with pos := inside, labels := L :: act.labels } stop
      else goto { act with pos := inside, labels := L :: act.labels } (otherwise.getD stop + 1) : Run σ Activation) N =
        .ok { act with pos := there, labels := L :: act.labels } N →
      ∀ fuel, m.run (fuel + 1) ({ act with pos := start } :: callers) M =
        m.run fuel ({ act with pos := there, labels := L :: act.labels } :: callers) N := by
    intro there lands fuel
    exact run_next read (exec_ifThen_ok (entered.trans lands))
  -- What an ending at the end mark comes to is known. The end of the first arm is one step more away.
  have atEnd : ∀ (y : Ending) (O : Machine σ), (∀ k, y = .branch k → k < act.labels.length + 1) →
      ((∀ e, y ≠ .trap e) → O.Unguarded) → ∃ steps, ∀ fuel,
        m.follow (fuel + steps) { act with pos := stop, labels := L :: act.labels } callers y O =
          m.carryOn fuel act callers start next (y.sequel .ifThen x O) :=
    fun y O bound quiet => follow_sequel fits close (by simp) bound quiet
  rcases arms with ⟨rfl, rfl, laid⟩ | ⟨other, middle, rfl, apart, laid, mark, laid'⟩
  · cases holds with
    | true => exact ⟨L, inside, stop, ⟨laid.laid, laid.listed⟩, steps rfl, atEnd⟩
    | false =>
      -- Without an else nothing is left to run but the end mark.
      have empty : act.Carries stop .done stop := h.narrow .done fun c hc => by cases hc
      refine ⟨L, stop, stop, ⟨empty.laid, empty.listed⟩, steps ?_, atEnd⟩
      rw [if_neg (by simp), if_pos Option.getD_none, goto_ok { act with pos := inside, labels := L :: act.labels } inBody]
      rfl
  · cases holds with
    | true =>
      refine ⟨L, inside, other, ⟨laid.laid, laid.listed⟩, steps rfl, fun y O bound quiet => ?_⟩
      obtain ⟨more, toEnd⟩ := follow_elseMark callers fits mark inBody bound quiet
      obtain ⟨few, left⟩ := atEnd y O bound quiet
      exact ⟨few + more, fun fuel => by rw [← Nat.add_assoc, toEnd, left]⟩
    | false =>
      refine ⟨L, middle, stop, ⟨laid'.laid, laid'.listed⟩, steps ?_, atEnd⟩
      have bounds := Instr.read_bounds mark
      have behind := Instr.read_elseMark mark
      rw [if_neg (by simp), Option.getD_some, if_neg apart, goto_ok _ (by dsimp only; omega), behind]
      rfl

/-! ### Calls -/

/-- A call starts a function, and runs on with it unless it is over at once. -/
theorem run_call (callers : List Activation) {callee : Nat} (read : Instr.read act.body pos = .ok (.call callee) next) (quiet : M.Unguarded)
    (fuel : Nat) : m.run (fuel + 1) ({ act with pos } :: callers) M =
      match m.begins callee M with
      | .ok (some inner) N => m.run fuel (inner :: { act with pos := next } :: callers) N
      | .ok none N => m.run fuel ({ act with pos := next } :: callers) N
      | .error e N => .trapped e N := by
  rw [run_at read]
  have call : ∀ other : Activation, m.callFrom other callee M = m.begins callee M := fun _ =>
    callFrom_awake fun _ _ => isRepeated_unguarded quiet
  show m.resume fuel ((m.callFrom _ callee >>= _ : Run σ (List Activation)) M) = _
  cases begun : m.begins callee M with
  | ok inner N =>
    rw [bind_ok ((call _).trans begun)]
    cases inner <;> rfl
  | error e N =>
    rw [bind_error ((call _).trans begun)]
    rfl

/-- From the end of the code of a function the run goes on in the caller. -/
theorem follow_finish (callers : List Activation) (close : Instr.read act.body last = .ok .endMark next) (labels : act.labels = []) {y : Ending}
    (bound : ∀ k, y ≠ .branch k) : ∃ steps, ∀ fuel, m.follow (fuel + steps) { act with pos := last } callers y M =
      match y.finish act M with
      | .ok () N => m.run fuel callers N
      | .error e N => .trapped e N := by
  cases y with
  | fall =>
    refine ⟨1, fun fuel => ?_⟩
    have ended : (Activation.leave { act with pos := next } : Run σ Flow) = pure .ret := by
      unfold Activation.leave
      dsimp only
      rw [labels]
    rw [← leave_eq_finish act (by simp), follow, run_at close]
    refine Eq.trans ?_ goOn_ret
    show m.goOn fuel act callers ((Activation.leave _ : Run σ Flow) M) = _
    rw [ended]
    rfl
  | branch k => exact absurd rfl (bound k)
  | ret =>
    refine ⟨0, fun fuel => ?_⟩
    rw [← leave_eq_finish act (by simp)]
    exact (goOn_congr rfl rfl).trans goOn_ret
  | trap e => exact ⟨0, fun fuel => rfl⟩

end Module

/-- An activation that is about to read its first instruction. -/
structure Activation.Fresh (act : Activation) : Prop where
  table : ∃ signatures signature locals live, JumpTable.build signatures signature locals act.body live = .ok act.jumps
  pos : act.pos = 0
  labels : act.labels = []

theorem Activation.Fresh.carries {act : Activation} (h : act.Fresh) {code : Code} (whole : Whole act.body code) :
    ∃ last, act.Carries 0 code last ∧ Instr.read act.body last = .ok .endMark act.body.size := by
  obtain ⟨signatures, signature, locals, live, table⟩ := h.table
  rw [JumpTable.build_whole signatures signature locals live whole] at table
  have lists : act.jumps.Lists code.constructs := Except.ok.inj table ▸ JumpTable.lists_of_whole whole
  obtain ⟨last, laid, close⟩ := whole
  exact ⟨last, ⟨laid, _, lists, fun _ hc => hc⟩, close⟩

theorem Activation.Fresh.whole {act : Activation} (h : act.Fresh) : ∃ code, Whole act.body code := by
  obtain ⟨signatures, signature, locals, live, table⟩ := h.table
  rw [JumpTable.build_eq_look] at table
  exact JumpTable.whole_of_look table

theorem Module.enter_fresh {m : Module σ} (tabled : m.Tabled) {f : Function σ} {index offset : Nat} {act : Activation}
    {M N : Machine σ} (function : m.function index = .ok f) (h : m.enter f index offset M = .ok (some act) N) : act.Fresh := by
  obtain ⟨body, jumps, code, table, -, -, rfl, -⟩ := enter_eq_some h
  obtain ⟨live, built⟩ := tabled.table function code table
  exact ⟨⟨_, _, _, live, built⟩, rfl, rfl⟩

theorem Module.begins_fresh {m : Module σ} (tabled : m.Tabled) {callee : Nat} {act : Activation} {M N : Machine σ}
    (h : m.begins callee M = .ok (some act) N) : act.Fresh := by
  obtain ⟨f, _, function, below⟩ := bind_eq_ok.mp h
  obtain ⟨offset, _, -, entered⟩ := bind_eq_ok.mp below
  exact enter_fresh tabled (ofExcept_eq_ok.mp function).1 entered

end Wasm
