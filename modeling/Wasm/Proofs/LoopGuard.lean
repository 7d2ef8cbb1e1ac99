import Wasm.Proofs.Placement

/-! What the loop guard finds. Where the stack holds what a branch to the loop takes along, above what is below the
    parameters of the loop, the branch would enter the loop as it was entered before. Where it holds less, the guard may
    take values for both, and leaves a loop that the branch would trap in. -/

namespace Wasm
variable {σ : Type}

open Run

namespace Activation
variable {L : Label} {frame : Frame} {s : Stack} {M : Machine σ} {act : Activation}

/-- What the guard compares is what settling would leave in the frame. -/
theorem settle_of_reenters (unchanged : reentersUnchanged L frame s = true) (enough : L.height + L.arity ≤ s.values.size) :
    ∃ t, Stack.settle L.height L.arity s = .ok () t ∧ t.values.extract frame.offset t.values.size = L.snapshot := by
  obtain ⟨⟨below, -⟩, -, snapshot⟩ := reentersUnchanged_eq_true.mp unchanged
  refine ⟨⟨_⟩, Stack.settle_eq_ok.mpr ⟨enough, rfl⟩, ?_⟩
  have size : (s.values.extract 0 L.height).size = L.height := by
    rw [Array.size_extract]
    omega
  rw [snapshot, Array.extract_append, Array.extract_extract, size, Nat.sub_eq_zero_of_le below, Array.size_append, size,
    Nat.add_sub_cancel_left, Array.extract_size, Nat.zero_add, Nat.zero_add, Nat.min_eq_right (Nat.le_add_right _ _)]

/-- The loop that a label belongs to is in the jump table, and starts within the body. -/
theorem Placed.loopStart? {code : Code} (h : act.Placed code) {depth : Nat} (found : act.labels[depth]? = some L)
    (kind : L.kind = .loop) : act.jumps.loopStart? L.stop = some L.start ∧ L.start ≤ act.body.size := by
  obtain ⟨c, hc, site, outer⟩ := h.label found
  have start : L.start = c.start := congrArg Site.start site
  have stop : L.stop = c.stop := congrArg Site.stop site
  rw [start, stop]
  exact ⟨h.lists.loopStart? hc ((congrArg Site.kind site).symm.trans kind), Nat.le_of_lt (h.back hc outer).scanned.2⟩

/-- A branch that the guard stops, if it were taken. -/
theorem branch_without_guard (act : Activation) {depth : Nat} (found : act.labels[depth]? = some L)
    (idle : isIdle L act.frame M.store = true) (back : act.jumps.loopStart? L.stop = some L.start) (inside : L.start ≤ act.body.size)
    (recursion conditional : Bool) :
    (L.height + L.arity ≤ M.store.stack.values.size → ∃ stack,
      stack.values.extract act.frame.offset stack.values.size = L.snapshot ∧
      act.branch depth conditional (M.withGuards recursion false) =
        .ok (.next { act with pos := L.start, labels := act.labels.drop (depth + 1) })
          { M.withGuards recursion false with store.stack := stack }) ∧
    (M.store.stack.values.size < L.height + L.arity →
      act.branch depth conditional (M.withGuards recursion false) = .error .stackUnderflow (M.withGuards recursion false)) := by
  obtain ⟨kind, -, -, unchanged⟩ := isIdle_eq_true.mp idle
  have awake : isIdle L act.frame (M.withGuards recursion false).store = false := by simp [isIdle, Machine.withGuards]
  rw [branch_awake found awake]
  refine ⟨fun enough => ?_, fun short => ?_⟩
  -- What is carried comes to where it was when the loop was entered, so that the whole frame is as it was then.
  · obtain ⟨stack, settled, same⟩ := settle_of_reenters unchanged enough
    have ran : onStack (Stack.settle L.height L.arity) (M.withGuards recursion false) =
        .ok () { M.withGuards recursion false with store.stack := stack } := onStack_eq_ok.mpr ⟨stack, settled, rfl⟩
    refine ⟨stack, same, (bind_ok ran).trans ?_⟩
    rw [land_loop kind back inside]
    rfl
  · have trapped : onStack (Stack.settle L.height L.arity) (M.withGuards recursion false) =
        .error .stackUnderflow (M.withGuards recursion false) :=
      onStack_eq_error.mpr ⟨_, Stack.settle_eq_error.mpr ⟨short, rfl, rfl⟩, rfl⟩
    exact bind_error trapped

end Activation

namespace Module
variable {m : Module σ} {f : Function σ} {index : Nat} {arguments : Array Value} {act : Activation}
  {chain : List Activation} {M N O : Machine σ}

/-- Where a run has come to, a branch to a loop that the guard stops would succeed without the guard and enter the loop
    just as it was entered, if the stack has as many values as the branch needs. If it has less, the branch would trap. -/
theorem branch_of_idle (tabled : m.Tabled) (function : m.function index = .ok f)
    (started : m.starts f index arguments M = .ok (some act) N) (visits : m.Visits [act] N chain O) :
    ∀ a ∈ chain, ∀ (P : Machine σ) next depth L, a.labels[depth]? = some L →
      Activation.isIdle L a.frame P.store = true → ∀ recursion conditional,
      (L.height + L.arity ≤ P.store.stack.values.size → ∃ stack,
        stack.values.extract a.frame.offset stack.values.size = L.snapshot ∧
        Activation.branch { a with pos := next } depth conditional (P.withGuards recursion false) =
          .ok (.next { a with pos := L.start, labels := a.labels.drop (depth + 1) })
            { P.withGuards recursion false with store.stack := stack }) ∧
      (P.store.stack.values.size < L.height + L.arity →
        Activation.branch { a with pos := next } depth conditional (P.withGuards recursion false) =
          .error .stackUnderflow (P.withGuards recursion false)) := by
  intro a ha P next depth L found idle recursion conditional
  have fresh : ∀ a ∈ [act], ∃ code, a.Placed code :=
    List.forall_mem_cons.mpr ⟨(enter_fresh tabled function started).placed, nofun⟩
  obtain ⟨code, placed⟩ := visits.placed tabled fresh a ha
  obtain ⟨kind, -, -, -⟩ := Activation.isIdle_eq_true.mp idle
  obtain ⟨back, inside⟩ := placed.loopStart? found kind
  exact Activation.branch_without_guard { a with pos := next } found idle back inside recursion conditional

/-! ### A loop that is left in place of a trap -/

namespace Overlap

/-- A loop with a parameter, which drops it and branches back. -/
def body : ByteArray := ⟨#[0x41, 0x00, 0x03, 0x01, 0x1A, 0x0C, 0x00, 0x0B, 0x0B]⟩

def function : Function Unit := { signature := ⟨[], []⟩, locals := [.i32], body := .code body }

def bare : Module Unit := { functions := #[function], types := #[⟨[], []⟩, ⟨[.i32], []⟩] }

def module : Module Unit := bare.withJumps {}

/-- The label of the loop, which was entered with a local and its parameter. -/
def label : Label := ⟨.loop, 2, 7, 1, 1, [], #[.i32 0, .i32 0], 0⟩

def entered : Activation := {
  index := 0, body, jumps := .ofConstructs [⟨.loop, 2, none, 7⟩], frame := ⟨0, 1⟩, results := [], arguments := #[],
  effects := 0 }

/-- The parameter has been dropped, and the branch comes next. -/
def dropped : Activation := { entered with pos := 5, labels := [label] }

def machine : Machine Unit := ⟨{}, (), #[]⟩

/-- The local is all that there is on the stack. -/
def running : Machine Unit := { machine with store.depth := 1, store.stack := ⟨#[.i32 0]⟩ }

theorem reads :
    Instr.read body 0 = .ok (.plain (.const (.i32 0))) 2 ∧ Instr.read body 2 = .ok (.loop (.signature 1)) 4 ∧
      Instr.read body 4 = .ok (.plain .drop) 5 ∧ Instr.read body 5 = .ok (.br 0) 7 ∧
      Instr.read body 7 = .ok .endMark 8 ∧ Instr.read body 8 = .ok .endMark 9 := by
  refine ⟨?_, ?_, ?_, ?_, ?_, ?_⟩ <;> exact Instr.read_of_find? (by decide) rfl rfl

theorem whole : Whole body (.simple (.plain (.const (.i32 0)))
    (.loop 2 7 (.signature 1) (.simple (.plain .drop) (.simple (.br 0) .done)) .done)) := by
  obtain ⟨const, opens, drops, branches, ends, last⟩ := reads
  exact ⟨8, .simple const (.loop opens (.simple drops (.simple branches .done)) ends .done), last⟩

theorem started : module.starts function 0 #[] machine = .ok (some entered) running := by
  have built : function.jumpTable bare.signatures {} 0 = .ok entered.jumps := by
    unfold Function.jumpTable
    exact JumpTable.build_whole _ _ _ _ whole
  have found : bare.functions[0]? = some function := rfl
  have table : module.jumpTable 0 = .ok entered.jumps := (jumpTable_withJumps bare {} found).trans built
  rw [starts_eq]
  have shallow : machine.store.depth < machine.store.options.maxCallDepth := by decide
  exact enter_code (Eq.refl function.body) table shallow (show 0 + 0 ≤ 0 by decide)

/-- A step of the activation, as the instruction that it reads tells. -/
theorem onward {act : Activation} {i : Instr} {next : Nat} {chain chain' : List Activation} {M N N' : Machine Unit}
    (read : Instr.read act.body act.pos = .ok i next)
    (step : (Activation.exec module.types { act with pos := next } act.pos i >>= module.proceed act []) M = .ok chain N)
    (rest : module.Visits chain N chain' N') : module.Visits [act] M chain' N' := by
  refine .onward ?_ rest
  rw [step_eq, Activation.step_read read]
  exact step

theorem visits : module.Visits [entered] running [dropped] running := by
  obtain ⟨const, opens, drops, -, -, -⟩ := reads
  let pushed : Machine Unit := { running with store.stack := ⟨#[.i32 0, .i32 0]⟩ }
  have third : module.Visits [{ entered with pos := 4, labels := [label] }] pushed [dropped] running :=
    onward drops rfl .here
  have second : module.Visits [{ entered with pos := 2 }] pushed [dropped] running := onward opens rfl third
  exact onward const rfl second

end Overlap

/-- With the parameter of the loop still there the branch would lead back, and without it the branch would trap. -/
theorem branch_of_idle_overlap :
    (∃ stack, stack.values = #[.i32 0, .i32 0] ∧
      Activation.branch { Overlap.dropped with pos := 7 } 0 false
        (Machine.withGuards { Overlap.running with store.stack := ⟨#[.i32 0, .i32 0]⟩ } true false) =
        .ok (.next { Overlap.entered with pos := 2 })
          { Machine.withGuards Overlap.running true false with store.stack := stack }) ∧
    Activation.branch { Overlap.dropped with pos := 7 } 0 false (Overlap.running.withGuards true false) =
      .error .stackUnderflow (Overlap.running.withGuards true false) := by
  have outcome := branch_of_idle (withJumps_tabled Overlap.bare {}) (function_eq_ok.mpr rfl) Overlap.started Overlap.visits
    Overlap.dropped List.mem_cons_self
  obtain ⟨stack, same, branched⟩ := (outcome { Overlap.running with store.stack := ⟨#[.i32 0, .i32 0]⟩ } 7 0 Overlap.label rfl
    (by decide) true false).1 (by decide)
  rw [show Overlap.dropped.frame.offset = 0 from rfl, Array.extract_size] at same
  exact ⟨⟨stack, same, branched⟩, (outcome Overlap.running 7 0 Overlap.label rfl (by decide) true false).2 (by decide)⟩

/-- A run comes to a branch that would trap for want of a value. The guard takes the local for the parameter as well, and
    leaves the loop, so that the call returns. -/
theorem idle_branch_masks_underflow :
    Overlap.module.starts Overlap.function 0 #[] Overlap.machine = .ok (some Overlap.entered) Overlap.running ∧
    Overlap.module.Visits [Overlap.entered] Overlap.running [Overlap.dropped] Overlap.running ∧
    Instr.read Overlap.dropped.body Overlap.dropped.pos = .ok (.br 0) 7 ∧
    Overlap.dropped.labels[0]? = some Overlap.label ∧
    Activation.isIdle Overlap.label Overlap.dropped.frame Overlap.running.store = true ∧
    Stack.settle Overlap.label.height Overlap.label.arity Overlap.running.store.stack =
      .error .stackUnderflow Overlap.running.store.stack ∧
    (∃ N, Overlap.module.invokeIndex 6 0 #[] Overlap.machine = .ok () N ∧ N.notices = #[.repeatedLoop 0 2]) ∧
    ∃ N, Overlap.module.invokeIndex 6 0 #[] (Overlap.machine.withGuards true false) = .error (.trap .stackUnderflow) N := by
  refine ⟨Overlap.started, Overlap.visits, Overlap.reads.2.2.2.1, rfl, by decide,
    Stack.settle_eq_error.mpr ⟨by decide, rfl, rfl⟩, ?_, ?_⟩
  · have returned : (match Overlap.module.invokeIndex 6 0 #[] Overlap.machine with
        | .ok () N => some N.notices
        | .error _ _ => none) = some #[.repeatedLoop 0 2] := by
      decide +kernel
    cases ended : Overlap.module.invokeIndex 6 0 #[] Overlap.machine with
    | ok u N => exact ⟨N, rfl, by simpa [ended] using returned⟩
    | error e N => simp [ended] at returned
  · have trapped : (match Overlap.module.invokeIndex 6 0 #[] (Overlap.machine.withGuards true false) with
        | .ok () _ => none
        | .error e _ => some e) = some (.trap .stackUnderflow) := by
      decide +kernel
    cases ended : Overlap.module.invokeIndex 6 0 #[] (Overlap.machine.withGuards true false) with
    | ok u N => simp [ended] at trapped
    | error e N =>
      obtain rfl : e = .trap .stackUnderflow := by simpa [ended] using trapped
      exact ⟨N, rfl⟩

end Module
end Wasm
