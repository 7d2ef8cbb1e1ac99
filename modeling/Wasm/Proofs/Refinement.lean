import Wasm.Proofs.Construct

/-! A flat run does what the structured semantics of the code tells, and nothing else: from where the code begins, the
    run comes to where the code is left, and what a run comes to is told by a derivation. -/

namespace Wasm
variable {σ : Type}

open Run Activation

/-! ### From a derivation to a run -/

namespace Module

section Entered
variable {m : Module σ} {act : Activation} {callers : List Activation} {pos next : Nat} {M N : Machine σ} {x : Extent}

/-- A run goes through code and comes to where the code is left. -/
def GoesThrough (m : Module σ) (frame : Frame) (depth : Nat) (code : Code) (M : Machine σ) (y : Ending) (N : Machine σ) :
    Prop :=
  ∀ (act : Activation) (pos last : Nat) (callers : List Activation), act.frame = frame → act.labels.length = depth →
    act.Carries pos code last → M.Unguarded →
    ∃ steps, ∀ fuel, m.run (fuel + steps) ({ act with pos } :: callers) M =
      m.follow fuel { act with pos := last } callers y N

/-- From a construct that is entered and gone through, the run goes on with what becomes of the construct. -/
theorem Enters.carryOn {kind : BlockKind} {inner : Code} (entered : m.Enters act callers pos next kind x inner M N)
    {y : Ending} {O : Machine σ} (inside : m.GoesThrough act.frame (act.labels.length + 1) inner N y O)
    (quiet : N.Unguarded) (bound : ∀ k, y = .branch k → k < act.labels.length + 1)
    (kept : (∀ e, y ≠ .trap e) → N.Kept O) :
    ∃ steps, ∀ fuel, m.run (fuel + steps) ({ act with pos } :: callers) M =
      m.carryOn fuel act callers pos next (y.sequel kind x O) := by
  obtain ⟨L, first, last, carries, enters, left⟩ := entered
  obtain ⟨few, through⟩ := inside { act with labels := L :: act.labels } first last callers rfl rfl carries quiet
  obtain ⟨more, sequel⟩ := left y O bound fun goes => quiet.kept (kept goes)
  refine ⟨more + few + 1, fun fuel => ?_⟩
  rw [← Nat.add_assoc, ← Nat.add_assoc, enters, through, sequel]

end Entered

section Derivation
variable {m : Module σ} {frame : Frame} {depth : Nat} {rest : Code} {M N O : Machine σ} {y : Ending}

/-- A step that runs straight on comes before the rest. -/
theorem GoesThrough.after {i : Simple} (later : m.GoesThrough frame depth rest N y O) (kept : M.Kept N)
    (step : ∀ (act : Activation) (pos next : Nat) (callers : List Activation) (fuel : Nat), act.frame = frame →
      Instr.read act.body pos = .ok i.instr next → M.Unguarded →
      m.run (fuel + 1) ({ act with pos } :: callers) M = m.run fuel ({ act with pos := next } :: callers) N) :
    m.GoesThrough frame depth (.simple i rest) M y O := by
  intro act pos last callers isFrame length carries quiet
  obtain ⟨next, read, carries⟩ := carries.simple
  obtain ⟨steps, through⟩ := later act next last callers isFrame length carries (quiet.kept kept)
  exact ⟨steps + 1, fun fuel => by rw [← Nat.add_assoc, step act pos next callers _ isFrame read quiet, through]⟩

/-- The last step in some code leaves it. -/
theorem GoesThrough.leaving {i : Simple}
    (step : ∀ (act : Activation) (pos next last : Nat) (callers : List Activation) (fuel : Nat), act.frame = frame →
      act.labels.length = depth → Instr.read act.body pos = .ok i.instr next → M.Unguarded →
      m.run (fuel + 1) ({ act with pos } :: callers) M = m.follow fuel { act with pos := last } callers y O) :
    m.GoesThrough frame depth (.simple i rest) M y O := by
  intro act pos last callers isFrame length carries quiet
  obtain ⟨next, read, -⟩ := carries.simple
  exact ⟨1, fun fuel => step act pos next last callers fuel isFrame length read quiet⟩

/-- What a branch does to a run. -/
theorem goOn_branch {act : Activation} {target fuel : Nat} {callers : List Activation} (quiet : M.Unguarded)
    (conditional : Bool) (pos last : Nat) :
    m.goOn fuel act callers ({ act with pos }.branch target conditional M) =
      m.follow fuel { act with pos := last } callers (.ofBranch act.labels.length target) M := by
  unfold Ending.ofBranch
  by_cases inside : target < act.labels.length
  · have found := List.getElem?_eq_getElem inside
    have foundHere : { act with pos }.labels[target]? = some _ := found
    have foundLast : { act with pos := last }.labels[target]? = some _ := found
    rw [if_pos inside, follow_branch quiet foundLast, branch_unguarded quiet foundHere]
    rw [settle_eq_keep]
    exact goOn_congr rfl rfl
  · rw [if_neg inside]
    by_cases out : target = act.labels.length
    · rw [if_pos out, branch, if_pos out]
      exact goOn_congr rfl rfl
    -- Further out than the function there is nothing to branch to.
    · have missing : act.labels[target]? = none := List.getElem?_eq_none (by omega)
      rw [if_neg out, branch, if_neg out]
      dsimp only
      rw [missing]
      rfl

/-- A construct that is over is followed by the rest. -/
theorem GoesThrough.ended {code inner : Code} {kind : BlockKind} {x : Extent} {P Q : Machine σ} {z : Ending}
    (enters : ∀ (act : Activation) (pos last : Nat) (callers : List Activation), act.Carries pos code last →
      ∃ next, act.Carries next rest last ∧ m.Enters act callers pos next kind x inner M N)
    (kept : M.Kept N) (inside : m.GoesThrough frame (depth + 1) inner N y O) (left : Eval m frame (depth + 1) inner N y O)
    (sequel : y.sequel kind x O = (.ended, P)) (later : m.GoesThrough frame depth rest P z Q) :
    m.GoesThrough frame depth code M z Q := by
  intro act pos last callers isFrame length carries quiet
  subst isFrame length
  obtain ⟨next, after, entered⟩ := enters act pos last callers carries
  obtain ⟨few, through⟩ := entered.carryOn inside (quiet.kept kept) left.branch_lt left.kept
  have goes := (kept.construct left.kept sequel (by simp))
  obtain ⟨more, on⟩ := later act next last callers rfl rfl after (quiet.kept goes)
  refine ⟨more + few, fun fuel => ?_⟩
  rw [← Nat.add_assoc, through, sequel]
  exact on fuel

/-- A construct that is left further out leaves the code that it is in. -/
theorem GoesThrough.left {code inner : Code} {kind : BlockKind} {x : Extent} {P : Machine σ} {z : Ending}
    (enters : ∀ (act : Activation) (pos last : Nat) (callers : List Activation), act.Carries pos code last →
      ∃ next, m.Enters act callers pos next kind x inner M N)
    (kept : M.Kept N) (inside : m.GoesThrough frame (depth + 1) inner N y O) (left : Eval m frame (depth + 1) inner N y O)
    (sequel : y.sequel kind x O = (.left z, P)) : m.GoesThrough frame depth code M z P := by
  intro act pos last callers isFrame length carries quiet
  subst isFrame length
  -- The activation stands where the code ends, so that the way the code is left is told from there.
  obtain ⟨next, entered⟩ := enters { act with pos := last } pos last callers ⟨carries.laid, carries.listed⟩
  obtain ⟨few, through⟩ := entered.carryOn inside (quiet.kept kept) left.branch_lt left.kept
  refine ⟨few, fun fuel => ?_⟩
  exact (through fuel).trans (by rw [sequel]; rfl)

/-- A loop that is entered again runs from its opcode. -/
theorem GoesThrough.again {code inner : Code} {kind : BlockKind} {x : Extent} {P Q : Machine σ} {z : Ending}
    (enters : ∀ (act : Activation) (pos last : Nat) (callers : List Activation), act.Carries pos code last →
      ∃ next, m.Enters act callers pos next kind x inner M N)
    (kept : M.Kept N) (inside : m.GoesThrough frame (depth + 1) inner N y O) (left : Eval m frame (depth + 1) inner N y O)
    (sequel : y.sequel kind x O = (.again, P)) (later : m.GoesThrough frame depth code P z Q) :
    m.GoesThrough frame depth code M z Q := by
  intro act pos last callers isFrame length carries quiet
  subst isFrame length
  obtain ⟨next, entered⟩ := enters act pos last callers carries
  obtain ⟨few, through⟩ := entered.carryOn inside (quiet.kept kept) left.branch_lt left.kept
  have goes := (kept.construct left.kept sequel (by simp))
  obtain ⟨more, on⟩ := later act pos last callers rfl rfl carries (quiet.kept goes)
  refine ⟨more + few, fun fuel => ?_⟩
  rw [← Nat.add_assoc, through, sequel]
  exact on fuel

/-- A function that has been called runs to its end, and then the run goes on in the caller. -/
theorem GoesThrough.called {callee : Nat} {inner : Activation} {code : Code} (tabled : m.Tabled)
    (begun : m.begins callee M = .ok (some inner) N) (whole : Whole inner.body code)
    (inside : m.GoesThrough inner.frame 0 code N y O) (left : Eval m inner.frame 0 code N y O) {act : Activation}
    {pos next : Nat} (callers : List Activation) (read : Instr.read act.body pos = .ok (.call callee) next)
    (quiet : M.Unguarded) : ∃ steps, ∀ fuel, m.run (fuel + steps) ({ act with pos } :: callers) M =
      match y.finish inner O with
      | .ok () P => m.run fuel ({ act with pos := next } :: callers) P
      | .error e P => .trapped e P := by
  have fresh := begins_fresh tabled begun
  obtain ⟨stop, carries, close⟩ := fresh.carries whole
  have start : { inner with pos := 0 } = inner := by rw [← fresh.pos]
  have length : inner.labels.length = 0 := by rw [fresh.labels]; rfl
  have stays := (m.begins_kept callee).ok (.refl M) begun
  obtain ⟨few, through⟩ := inside inner 0 stop ({ act with pos := next } :: callers) rfl length carries (quiet.kept stays)
  -- No branch goes out of the code, as there is no construct around it.
  obtain ⟨more, finish⟩ := follow_finish (m := m) (M := O) ({ act with pos := next } :: callers) close
    fresh.labels fun k eq => Nat.not_lt_zero k (left.branch_lt k eq)
  rw [start] at through
  refine ⟨more + few + 1, fun fuel => ?_⟩
  rw [← Nat.add_assoc, ← Nat.add_assoc, run_call callers read quiet, begun]
  exact (through _).trans (finish fuel)

/-- From a derivation to a run. -/
theorem goesThrough_of_eval (tabled : m.Tabled) {code : Code} (h : Eval m frame depth code M y N) :
    m.GoesThrough frame depth code M y N := by
  -- Over the derivation. Each rule that has a rest uses the hypothesis for it where its own step has led to.
  induction h with
  | done =>
    intro act pos last callers _ _ carries _
    cases carries.laid
    exact ⟨0, fun fuel => rfl⟩
  | @plain _ _ p _ M M₁ _ _ ran _ ih =>
    refine ih.after ((p.exec_kept _).ok (.refl M) ran) ?_
    rintro act pos next callers fuel rfl read -
    exact run_next read (exec_plain_ok ran)
  | @plain_traps _ _ p _ M _ M₁ failed =>
    refine .leaving ?_
    rintro act pos next last callers fuel rfl - read -
    exact run_trap read (exec_plain_error failed)
  | @br _ _ target _ M =>
    refine .leaving ?_
    rintro act pos next last callers fuel - rfl read quiet
    rw [run_at read]
    exact goOn_branch quiet false next last
  | @brIf_taken _ _ target _ M c M₁ popped holds =>
    refine .leaving ?_
    rintro act pos next last callers fuel - rfl read quiet
    -- The condition is popped before the branch, which starts from the stack without it.
    have quiet := quiet.kept ((onStack_kept _).ok (.refl M) popped)
    exact (run_of_exec read (exec_brIf_taken popped holds)).trans (goOn_branch quiet true next last)
  | @brIf_passed _ _ target _ M c M₁ _ _ popped zero _ ih =>
    refine ih.after ((onStack_kept _).ok (.refl M) popped) ?_
    rintro act pos next callers fuel - read -
    exact run_next read (exec_brIf_passed popped zero)
  | @brIf_traps _ _ target _ M _ M₁ failed =>
    refine .leaving ?_
    rintro act pos next last callers fuel - - read -
    exact run_trap read (exec_brIf_error failed)
  | @brTable _ _ targets fallback _ M index M₁ popped =>
    refine .leaving ?_
    rintro act pos next last callers fuel - rfl read quiet
    have quiet := quiet.kept ((onStack_kept _).ok (.refl M) popped)
    exact (run_of_exec read (exec_brTable_ok popped)).trans (goOn_branch quiet false next last)
  | @brTable_traps _ _ targets fallback _ M _ M₁ failed =>
    refine .leaving ?_
    rintro act pos next last callers fuel - - read -
    exact run_trap read (exec_brTable_error failed)
  | @ret _ _ _ M =>
    refine .leaving ?_
    rintro act pos next last callers fuel - - read -
    rw [run_at read]
    exact goOn_congr rfl rfl
  | @call_fails _ _ callee _ M _ M₁ failed =>
    refine .leaving ?_
    rintro act pos next last callers fuel - - read quiet
    rw [run_call callers read quiet, failed]
    rfl
  | @call_host _ _ callee _ M M₁ _ _ begun _ ih =>
    refine ih.after ((m.begins_kept _).ok (.refl M) begun) ?_
    rintro act pos next callers fuel - read quiet
    rw [run_call callers read quiet, begun]
  | @call_returns _ _ callee _ M inner M₁ _ x M₂ M₃ _ _ begun whole called finished _ ih₁ ih₂ =>
    intro act pos last callers isFrame length carries quiet
    obtain ⟨next, read, after⟩ := carries.simple
    -- Two runs in a row: that of the function with this activation as its caller, and then that of the rest.
    obtain ⟨few, through⟩ := GoesThrough.called tabled begun whole ih₁ called callers read quiet
    have entered := (m.begins_kept callee).ok (.refl M) begun
    have inside := called.kept fun e eq => by
      subst eq
      cases finished
    have goes := (entered.trans inside).trans ((x.finish_kept inner).ok (.refl M₂) finished)
    obtain ⟨more, on⟩ := ih₂ act next last callers isFrame length after (quiet.kept goes)
    refine ⟨more + few, fun fuel => ?_⟩
    rw [← Nat.add_assoc, through, finished]
    exact on fuel
  | @call_traps _ _ callee _ M inner M₁ _ x M₂ _ M₃ begun whole called failed ih =>
    intro act pos last callers isFrame length carries quiet
    obtain ⟨next, read, -⟩ := carries.simple
    obtain ⟨few, through⟩ := GoesThrough.called tabled begun whole ih called callers read quiet
    exact ⟨few, fun fuel => by rw [through, failed]; rfl⟩
  | @block_fails _ _ _ _ type _ _ M _ M₁ failed =>
    intro act pos last callers _ _ carries _
    obtain ⟨rfl, inside, next, read, -⟩ := carries.block
    exact ⟨1, fun fuel => run_trap read (exec_block_error (enterBlock_error failed))⟩
  | @block_ended _ _ _ _ _ _ _ M _ _ _ _ _ _ _ opened inside ends _ ih₁ ih₂ =>
    refine GoesThrough.ended (fun act pos last callers carries => ?_) ((opens_kept _ _ _).ok (.refl M) opened) ih₁ inside
      ends ih₂
    obtain ⟨-, _, next, -, -, -, close, after⟩ := carries.block
    exact ⟨next, after, enters_block callers carries close opened⟩
  | @block_left _ _ _ _ _ _ _ M _ _ _ _ _ _ opened inside left ih =>
    refine GoesThrough.left (fun act pos last callers carries => ?_) ((opens_kept _ _ _).ok (.refl M) opened) ih inside left
    obtain ⟨-, _, next, -, -, -, close, -⟩ := carries.block
    exact ⟨next, enters_block callers carries close opened⟩
  | @loop_fails _ _ _ _ type _ _ M _ M₁ failed =>
    intro act pos last callers _ _ carries _
    obtain ⟨rfl, inside, next, read, -⟩ := carries.loop
    exact ⟨1, fun fuel => run_trap read (exec_loop_error (enterLoop_error failed))⟩
  | @loop_ended _ _ _ _ _ _ _ M _ _ _ _ _ _ _ opened inside ends _ ih₁ ih₂ =>
    refine GoesThrough.ended (fun act pos last callers carries => ?_) ((opens_kept _ _ _).ok (.refl M) opened) ih₁ inside
      ends ih₂
    obtain ⟨-, _, next, -, -, -, -, close, after⟩ := carries.loop
    exact ⟨next, after, enters_loop callers carries close opened⟩
  | @loop_again _ _ _ _ _ _ _ M _ _ _ _ _ _ _ opened inside again _ ih₁ ih₂ =>
    -- The hypothesis for the second derivation is about the same loop, from the machine after one turn.
    refine GoesThrough.again (fun act pos last callers carries => ?_) ((opens_kept _ _ _).ok (.refl M) opened) ih₁ inside
      again ih₂
    obtain ⟨-, _, next, -, -, -, -, close, -⟩ := carries.loop
    exact ⟨next, enters_loop callers carries close opened⟩
  | @loop_left _ _ _ _ _ _ _ M _ _ _ _ _ _ opened inside left ih =>
    refine GoesThrough.left (fun act pos last callers carries => ?_) ((opens_kept _ _ _).ok (.refl M) opened) ih inside left
    obtain ⟨-, _, next, -, -, -, -, close, -⟩ := carries.loop
    exact ⟨next, enters_loop callers carries close opened⟩
  | @if_fails _ _ _ _ _ type _ _ _ M _ M₁ failed =>
    intro act pos last callers _ _ carries _
    obtain ⟨rfl, inside, next, read, targets, -⟩ := carries.ifThen
    -- The targets of an if that has been scanned are found, so that entering it fails as opening it does.
    have failed := enterIf_error { act with pos := inside } failed targets
    exact ⟨1, fun fuel => run_trap read (exec_ifThen_error failed)⟩
  | @if_ended _ _ _ _ _ _ _ _ _ M _ _ _ _ _ _ _ _ opened inside ends _ ih₁ ih₂ =>
    refine GoesThrough.ended (fun act pos last callers carries => ?_) ((opensIf_kept _ _ _).ok (.refl M) opened) ih₁ inside
      ends ih₂
    obtain ⟨-, _, next, -, -, -, close, after⟩ := carries.ifThen
    exact ⟨next, after, enters_if callers carries close opened⟩
  | @if_left _ _ _ _ _ _ _ _ _ M _ _ _ _ _ _ _ opened inside left ih =>
    refine GoesThrough.left (fun act pos last callers carries => ?_) ((opensIf_kept _ _ _).ok (.refl M) opened) ih inside left
    obtain ⟨-, _, next, -, -, -, close, -⟩ := carries.ifThen
    exact ⟨next, enters_if callers carries close opened⟩

end Derivation

/-! ### From a run to a derivation -/

variable {m : Module σ}

/-- A derivation tells how code is left, and the run comes to its outcome from there. -/
def ToldBy (m : Module σ) (fuel : Nat) (act : Activation) (last : Nat) (callers : List Activation) (code : Code)
    (M : Machine σ) (o : Outcome σ) : Prop :=
  ∃ y N left, left ≤ fuel ∧ Eval m act.frame act.labels.length code M y N ∧
    m.follow left { act with pos := last } callers y N = o

/-- Within as much fuel, what a run through code comes to is told by a derivation. -/
def Told (m : Module σ) (fuel : Nat) : Prop :=
  ∀ (code : Code) (act : Activation) (pos last : Nat) (callers : List Activation) (M : Machine σ) (o : Outcome σ),
    act.Carries pos code last → M.Unguarded → m.run fuel ({ act with pos } :: callers) M = o → o.Final →
    m.ToldBy fuel act last callers code M o

section Told
variable {act : Activation} {callers : List Activation} {pos last next fuel : Nat} {code : Code} {M N : Machine σ}
  {o : Outcome σ}

theorem ToldBy.after {rest : Code} {fewer : Nat} (h : m.ToldBy fewer act last callers rest N o) (less : fewer ≤ fuel)
    (wrap : ∀ y O, Eval m act.frame act.labels.length rest N y O → Eval m act.frame act.labels.length code M y O) :
    m.ToldBy fuel act last callers code M o := by
  obtain ⟨y, O, left, enough, eval, follow⟩ := h
  exact ⟨y, O, left, Nat.le_trans enough less, wrap y O eval, follow⟩

/-- The last step in some code leaves it. -/
theorem ToldBy.leaving {y : Ending} (eval : Eval m act.frame act.labels.length code M y N)
    (step : m.run (fuel + 1) ({ act with pos } :: callers) M = m.follow fuel { act with pos := last } callers y N)
    (run : m.run (fuel + 1) ({ act with pos } :: callers) M = o) : m.ToldBy (fuel + 1) act last callers code M o :=
  ⟨y, N, fuel, Nat.le_succ _, eval, step.symm.trans run⟩

/-- What a run does inside of a construct is told by a derivation, and so is how it goes on. -/
theorem Enters.told {kind : BlockKind} {x : Extent} {inner : Code}
    (entered : m.Enters act callers pos next kind x inner M N)
    (told : m.Told fuel) (quiet : N.Unguarded) (run : m.run (fuel + 1) ({ act with pos } :: callers) M = o)
    (final : o.Final) : ∃ y O left, left ≤ fuel ∧ Eval m act.frame (act.labels.length + 1) inner N y O ∧
      m.carryOn left act callers pos next (y.sequel kind x O) = o := by
  obtain ⟨L, first, last, carries, enters, sequel⟩ := entered
  rw [enters] at run
  obtain ⟨y, O, left, enough, eval, follow⟩ := told inner _ first last callers N o carries quiet run final
  obtain ⟨steps, carryOn⟩ := sequel y O eval.branch_lt fun goes => quiet.kept (eval.kept goes)
  -- Following takes some steps more than the hypothesis has left, but what is final does not depend on them.
  have more := follow_mono follow final steps
  rw [carryOn] at more
  exact ⟨y, O, left, enough, eval, more⟩

/-- A function that has been called, and what comes behind the call. -/
theorem told_call {callee : Nat} {inner : Activation} {rest : Code} (tabled : m.Tabled)
    (here : ∀ fewer, fewer ≤ fuel → m.Told fewer) (after : act.Carries next rest last) (quiet : M.Unguarded)
    (begun : m.begins callee M = .ok (some inner) N)
    (run : m.run fuel (inner :: { act with pos := next } :: callers) N = o) (final : o.Final) :
    m.ToldBy (fuel + 1) act last callers (.simple (.call callee) rest) M o := by
  have kept := (m.begins_kept callee).ok (.refl M) begun
  have fresh := begins_fresh tabled begun
  obtain ⟨inside, whole⟩ := fresh.whole
  obtain ⟨stop, carried, close⟩ := fresh.carries whole
  have start : { inner with pos := 0 } = inner := by rw [← fresh.pos]
  have length : inner.labels.length = 0 := by rw [fresh.labels]; rfl
  have ran : m.run fuel ({ inner with pos := 0 } :: { act with pos := next } :: callers) N = o := by rw [start, run]
  obtain ⟨y, O, left, enough, eval, follow⟩ :=
    here fuel (Nat.le_refl _) inside inner 0 stop _ N o carried (quiet.kept kept) ran final
  rw [length] at eval
  obtain ⟨steps, finish⟩ := follow_finish (m := m) (M := O) ({ act with pos := next } :: callers) close
    fresh.labels fun k eq => Nat.not_lt_zero k (eval.branch_lt k eq)
  have more := (finish left).symm.trans (follow_mono follow final steps)
  -- The results settle or they do not, and only if they do there is a rest.
  cases finished : y.finish inner O with
  | error e P =>
    rw [finished] at more
    exact ⟨.trap e, P, 0, Nat.zero_le _, .call_traps begun whole eval finished, more⟩
  | ok u P =>
    rw [finished] at more
    have stays := eval.kept fun e eq => by
      subst eq
      cases finished
    have goes := (kept.trans stays).trans ((y.finish_kept inner).ok (.refl O) finished)
    exact (here left enough rest act next last callers P o after (quiet.kept goes) more final).after
      (Nat.le_succ_of_le enough) fun z Q => .call_returns begun whole eval finished

/-- Straight instructions, branches and calls. -/
theorem told_simple (tabled : m.Tabled) (here : ∀ fewer, fewer ≤ fuel → m.Told fewer) {i : Simple} {rest : Code}
    (carries : act.Carries pos (.simple i rest) last) (quiet : M.Unguarded)
    (run : m.run (fuel + 1) ({ act with pos } :: callers) M = o) (final : o.Final) :
    m.ToldBy (fuel + 1) act last callers (.simple i rest) M o := by
  obtain ⟨next, read, after⟩ := carries.simple
  -- What comes behind an instruction that goes straight on has one step less.
  have later : ∀ {N : Machine σ}, M.Kept N →
      m.run (fuel + 1) ({ act with pos } :: callers) M = m.run fuel ({ act with pos := next } :: callers) N →
      m.ToldBy fuel act last callers rest N o := fun kept step =>
    here fuel (Nat.le_refl _) rest act next last callers _ o after (quiet.kept kept) (step.symm.trans run) final
  cases i with
  | plain p =>
    cases ran : onStore (p.exec act.frame) M with
    | ok u N =>
      have step := later ((p.exec_kept _).ok (.refl M) ran) (run_next read (exec_plain_ok ran))
      exact step.after (Nat.le_succ _) fun y O => .plain ran
    | error e N =>
      exact .leaving (.plain_traps ran) (run_trap read (exec_plain_error ran)) run
  | br target =>
    refine .leaving .br ?_ run
    rw [run_at read]
    exact goOn_branch quiet false next last
  | brIf target =>
    cases popped : onStack (Stack.popInt .w32) M with
    | ok c N =>
      have kept := (onStack_kept _).ok (.refl M) popped
      by_cases zero : c = 0
      · have step := later kept (run_next read (exec_brIf_passed popped zero))
        exact step.after (Nat.le_succ _) fun y O => .brIf_passed popped zero
      · refine .leaving (.brIf_taken popped zero) ?_ run
        exact (run_of_exec read (exec_brIf_taken popped zero)).trans (goOn_branch (quiet.kept kept) true next last)
    | error e N =>
      exact .leaving (.brIf_traps popped) (run_trap read (exec_brIf_error popped)) run
  | brTable targets fallback =>
    cases popped : onStack Stack.popAddress M with
    | ok index N =>
      have kept := (onStack_kept _).ok (.refl M) popped
      refine .leaving (.brTable popped) ?_ run
      exact (run_of_exec read (exec_brTable_ok popped)).trans (goOn_branch (quiet.kept kept) false next last)
    | error e N =>
      exact .leaving (.brTable_traps popped) (run_trap read (exec_brTable_error popped)) run
  | ret =>
    refine .leaving .ret ?_ run
    rw [run_at read]
    exact goOn_congr rfl rfl
  | call callee =>
    have step := run_call (m := m) callers read quiet fuel
    cases begun : m.begins callee M with
    | error e N =>
      rw [begun] at step
      exact .leaving (.call_fails begun) step run
    | ok called N =>
      have kept := (m.begins_kept callee).ok (.refl M) begun
      rw [begun] at step
      cases called with
      | none => exact (later kept step).after (Nat.le_succ _) fun y O => .call_host begun
      | some inner => exact told_call tabled here after quiet begun (step.symm.trans run) final

/-- A construct, from what becomes of it. -/
theorem told_construct {inner rest : Code} {kind : BlockKind} {x : Extent} (here : ∀ fewer, fewer ≤ fuel → m.Told fewer)
    (carries : act.Carries pos code last) (after : act.Carries next rest last) (quiet : M.Unguarded) (kept : M.Kept N)
    (entered : m.Enters { act with pos := last } callers pos next kind x inner M N)
    (ends : ∀ {y O P z Q}, Eval m act.frame (act.labels.length + 1) inner N y O → y.sequel kind x O = (.ended, P) →
      Eval m act.frame act.labels.length rest P z Q → Eval m act.frame act.labels.length code M z Q)
    (again : ∀ {y O P z Q}, Eval m act.frame (act.labels.length + 1) inner N y O → y.sequel kind x O = (.again, P) →
      Eval m act.frame act.labels.length code P z Q → Eval m act.frame act.labels.length code M z Q)
    (left : ∀ {y O z P}, Eval m act.frame (act.labels.length + 1) inner N y O → y.sequel kind x O = (.left z, P) →
      Eval m act.frame act.labels.length code M z P)
    (run : m.run (fuel + 1) ({ act with pos } :: callers) M = o) (final : o.Final) :
    m.ToldBy (fuel + 1) act last callers code M o := by
  obtain ⟨y, O, fewer, less, eval, on⟩ := entered.told (here fuel (Nat.le_refl _)) (quiet.kept kept) run final
  cases sequel : y.sequel kind x O with
  | mk s P =>
    rw [sequel] at on
    have goes : (∀ e, s ≠ .left (.trap e)) → P.Unguarded := fun goes => quiet.kept (kept.construct eval.kept sequel goes)
    cases s with
    | ended =>
      exact (here fewer less rest act next last callers P o after (goes (by simp)) on final).after
        (Nat.le_succ_of_le less) fun z Q => ends eval sequel
    | again =>
      exact (here fewer less code act pos last callers P o carries (goes (by simp)) on final).after
        (Nat.le_succ_of_le less) fun z Q => again eval sequel
    | left z => exact ⟨z, P, fewer, Nat.le_succ_of_le less, left eval sequel, on⟩

end Told

theorem told (tabled : m.Tabled) (fuel : Nat) : m.Told fuel := by
  -- Not over the code: a loop that is entered again runs the same code with less fuel.
  induction fuel using Nat.strongRecOn with
  | ind fuel ih =>
    intro code act pos last callers M o carries quiet run final
    obtain ⟨fuel, rfl⟩ := run_final (by rw [run]; exact final)
    have here : ∀ fewer, fewer ≤ fuel → m.Told fewer := fun fewer less => ih fewer (Nat.lt_succ_of_le less)
    cases code with
    | done =>
      cases carries.laid
      exact ⟨.fall, M, fuel + 1, Nat.le_refl _, .done, run⟩
    | simple i rest => exact told_simple tabled here carries quiet run final
    | block start stop type inner rest =>
      obtain ⟨rfl, inside, next, read, -, -, close, after⟩ := carries.block
      cases opened : opens m.types type start M with
      | error e N =>
        exact .leaving (.block_fails opened) (run_trap read (exec_block_error (enterBlock_error opened))) run
      | ok x N =>
        have kept := (opens_kept _ _ _).ok (.refl M) opened
        -- The activation stands where the code ends, so that the way the code is left is told from there.
        have entered := enters_block callers (carries.anywhere last act.labels) close opened
        exact told_construct here carries after quiet kept entered (.block_ended opened)
          (fun _ again => absurd (Ending.sequel_again again) (by simp)) (.block_left opened) run final
    | loop start stop type inner rest =>
      obtain ⟨rfl, inside, next, read, -, -, -, close, after⟩ := carries.loop
      cases opened : opens m.types type start M with
      | error e N =>
        exact .leaving (.loop_fails opened) (run_trap read (exec_loop_error (enterLoop_error opened))) run
      | ok x N =>
        have kept := (opens_kept _ _ _).ok (.refl M) opened
        have entered := enters_loop callers (carries.anywhere last act.labels) close opened
        exact told_construct here carries after quiet kept entered (.loop_ended opened) (.loop_again opened)
          (.loop_left opened) run final
    | ifThen start otherwise stop type first second rest =>
      obtain ⟨rfl, inside, next, read, targets, -, close, after⟩ := carries.ifThen
      cases opened : opensIf m.types type start M with
      | error e N =>
        have failed := enterIf_error { act with pos := inside } opened targets
        exact .leaving (.if_fails opened) (run_trap read (exec_ifThen_error failed)) run
      | ok pair N =>
        obtain ⟨x, holds⟩ := pair
        have kept := (opensIf_kept _ _ _).ok (.refl M) opened
        have entered := enters_if callers (carries.anywhere last act.labels) close opened
        exact told_construct here carries after quiet kept entered (.if_ended opened)
          (fun _ again => absurd (Ending.sequel_again again) (by simp)) (.if_left opened) run final

/-- With both guards off, a run of a function comes to just the outcomes that the structured semantics of its code has:
    the final machine, or a trap and the machine at the trap. -/
theorem run_iff_finishes (tabled : m.Tabled) {act : Activation} (fresh : act.Fresh) {code : Code}
    (whole : Whole act.body code) {M : Machine σ} (quiet : M.Unguarded) {o : Outcome σ} (final : o.Final) :
    (∃ fuel, m.run fuel [act] M = o) ↔ Finishes m act code M o := by
  obtain ⟨last, carries, close⟩ := fresh.carries whole
  have start : { act with pos := 0 } = act := by rw [← fresh.pos]
  have length : act.labels.length = 0 := by rw [fresh.labels]; rfl
  constructor
  · rintro ⟨fuel, run⟩
    -- From the run to a derivation, with no callers below.
    obtain ⟨y, N, left, -, eval, follow⟩ := told tabled fuel code act 0 last [] M o carries quiet (by rw [start, run]) final
    rw [length] at eval
    obtain ⟨steps, finish⟩ := follow_finish (m := m) (M := N) [] close fresh.labels fun k eq =>
      Nat.not_lt_zero k (eval.branch_lt k eq)
    have more := (finish left).symm.trans (follow_mono follow final steps)
    refine ⟨y, N, eval, ?_⟩
    cases finished : y.finish act N with
    | ok u P =>
      rw [finished] at more
      cases left <;> exact more.symm
    | error e P =>
      rw [finished] at more
      exact more.symm
  · rintro ⟨y, N, eval, outcome⟩
    -- From a derivation to as much fuel as its run and the return take.
    obtain ⟨few, through⟩ := goesThrough_of_eval tabled eval act 0 last [] rfl length carries quiet
    obtain ⟨more, finish⟩ := follow_finish (m := m) (M := N) [] close fresh.labels fun k eq =>
      Nat.not_lt_zero k (eval.branch_lt k eq)
    rw [start] at through
    refine ⟨0 + more + few, (through _).trans ((finish 0).trans ?_)⟩
    cases finished : y.finish act N with
    | ok u P =>
      rw [finished] at outcome
      exact outcome.symm
    | error e P =>
      rw [finished] at outcome
      exact outcome.symm

/-- A block that is left by a branch with its result, in a function that gives it on. -/
theorem run_iff_finishes_block :
    let code : Code := .block 0 6 (.result .i32) (.simple (.plain (.const (.i32 7))) (.simple (.br 0) .done)) .done
    let act : Activation := {
      index := 0, body := ⟨#[0x02, 0x7F, 0x41, 0x07, 0x0C, 0x00, 0x0B, 0x0B]⟩
      jumps := .ofConstructs code.constructs
      frame := ⟨0, 0⟩, results := [.i32], arguments := #[], effects := 0 }
    let store : Store := { depth := 1, options := { recursionGuard := false, loopGuard := false } }
    ∃ fuel, (({} : Module Unit).withJumps {}).run fuel [act] ⟨store, (), #[]⟩ =
      .returned ⟨{ store with stack := ⟨#[.i32 7]⟩, depth := 0 }, (), #[]⟩ := by
  intro code act store
  have whole : Whole act.body code := by
    have block : Instr.read act.body 0 = .ok (.block (.result .i32)) 2 := Instr.read_of_find? (by decide) rfl rfl
    have const : Instr.read act.body 2 = .ok (.plain (.const (.i32 7))) 4 := by
      refine Instr.read_of_find? (by decide) rfl ?_
      dsimp only [act]
      rfl
    have br : Instr.read act.body 4 = .ok (.br 0) 6 := Instr.read_of_find? (by decide) rfl rfl
    have ends : Instr.read act.body 6 = .ok .endMark 7 := Instr.read_of_find? (by decide) rfl rfl
    have last : Instr.read act.body 7 = .ok .endMark 8 := Instr.read_of_find? (by decide) rfl rfl
    exact ⟨7, .block block (.simple const (.simple br .done)) ends .done, last⟩
  have fresh : act.Fresh := ⟨⟨#[], ⟨[], []⟩, [], {}, JumpTable.build_whole _ _ _ _ whole⟩, rfl, rfl⟩
  refine (run_iff_finishes (o := .returned _) (withJumps_tabled {} {}) fresh whole ⟨rfl, rfl⟩ trivial).mpr ?_
  let before : Machine Unit := ⟨store, (), #[]⟩
  let after : Machine Unit := ⟨{ store with stack := ⟨#[.i32 7]⟩ }, (), #[]⟩
  have entered : opens #[] (.result .i32) 0 before = .ok ⟨0, 0, 1⟩ before := rfl
  have pushed : onStore (Plain.exec ⟨0, 0⟩ (.const (.i32 7))) before = .ok () after := rfl
  have ends : (Ending.branch 0).sequel .block ⟨0, 0, 1⟩ after = (.ended, after) := rfl
  have finished : Ending.fall.finish act after = .ok () ⟨{ after.store with depth := 0 }, (), #[]⟩ := rfl
  refine ⟨.fall, after, .block_ended entered (.plain pushed .br) ends .done, ?_⟩
  rw [finished]

end Module
end Wasm
