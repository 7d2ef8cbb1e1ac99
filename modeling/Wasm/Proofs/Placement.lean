import Wasm.Proofs.Scanning
import Wasm.Proofs.Labels
import Wasm.Proofs.Construct
import Wasm.Proofs.Transparency

/-! Where a run is: at an instruction that the look through the body has come by, in just the constructs that are open
    there. -/

namespace Wasm
variable {σ : Type}

open Run Construct

/-- The kind of a construct, and where it starts and ends. -/
structure Site where
  kind : BlockKind
  start : Nat
  stop : Nat
deriving DecidableEq, Repr

def Label.site (L : Label) : Site := ⟨L.kind, L.start, L.stop⟩

def Construct.site (c : Construct) : Site := ⟨c.kind, c.start, c.stop⟩

/-! ### Entries of a table -/

namespace JumpTable.Lists
variable {t : JumpTable} {cs : List Construct} {c : Construct}

theorem blockEnd (h : t.Lists cs) (hc : c ∈ cs) (kind : c.kind = .block) : t.blockEnd c.start = .ok c.stop := by
  have entry := (h.blocks c.start c.stop).mpr ⟨c, hc, by obtain ⟨_, _, _, _⟩ := c; cases kind; rfl⟩
  unfold JumpTable.blockEnd JumpTable.entry
  rw [entry]

theorem loopEnd (h : t.Lists cs) (hc : c ∈ cs) (kind : c.kind = .loop) : t.loopEnd c.start = .ok c.stop := by
  have entry := (h.loopEnds c.start c.stop).mpr ⟨c, hc, by obtain ⟨_, _, _, _⟩ := c; cases kind; rfl⟩
  unfold JumpTable.loopEnd JumpTable.entry
  rw [entry]

theorem loopStart? (h : t.Lists cs) (hc : c ∈ cs) (kind : c.kind = .loop) : t.loopStart? c.stop = some c.start :=
  (h.loops c.stop c.start).mpr ⟨c, hc, by obtain ⟨_, _, _, _⟩ := c; cases kind; rfl⟩

theorem ifTargets (h : t.Lists cs) (hc : c ∈ cs) (kind : c.kind = .ifThen) :
    t.ifTargets c.start = .ok (c.otherwise.getD c.stop, c.stop) := by
  have entry := (h.ifs c.start (c.otherwise.getD c.stop, c.stop)).mpr
    ⟨c, hc, by obtain ⟨_, _, _, _⟩ := c; cases kind; rfl⟩
  unfold JumpTable.ifTargets JumpTable.entry
  rw [entry]

end JumpTable.Lists

/-! ### Placed activations -/

/-- An activation is at an instruction that the look comes by, and in just the constructs that are open there. -/
structure Activation.Placed (act : Activation) (code : Code) : Prop where
  whole : Whole act.body code
  lists : act.jumps.Lists code.constructs
  scanned : Scanned act.body act.pos
  labels : act.labels.map Label.site = (openAt code.constructs act.pos).map Construct.site

/-- A trap that an instruction may lead to in code that has a jump table. -/
def Trap.MayArise (start : Nat) (e : Trap) : Prop := e.IsDynamic ∨ e = .binary (.malformed .blockTypeIndex start)

namespace Activation

/-- What an instruction leads to is placed, too. -/
def FlowsPlaced (code : Code) : Flow → Prop
  | .next a => a.Placed code
  | .call a _ => a.Placed code
  | .ret => True

namespace Placed
variable {act : Activation} {code : Code} {i : Instr} {next : Nat} {c : Construct} {L : Label}

theorem moved (h : act.Placed code) (read : Instr.read act.body act.pos = .ok i next) (simple : i.opens? = none)
    (within : i ≠ .endMark) : { act with pos := next }.Placed code := by
  obtain ⟨last, laid, close⟩ := h.whole
  have before := h.scanned.lt_last laid close read within
  refine ⟨h.whole, h.lists, h.scanned.next_of_lt before laid close read, ?_⟩
  dsimp only
  rw [h.labels, laid.openAt_next h.scanned.1 read simple within]

/-- An activation is in one construct more where that one is the innermost one that is open. -/
theorem inside (h : act.Placed code) (site : L.site = c.site) {labels : List Label} {pos : Nat}
    (outer : labels.map Label.site = (openAt code.constructs c.start).map Construct.site) (scanned : Scanned act.body pos)
    (innermost : openAt code.constructs pos = c :: openAt code.constructs c.start) :
    { act with pos, labels := L :: labels }.Placed code := by
  refine ⟨h.whole, h.lists, scanned, ?_⟩
  dsimp only
  rw [innermost, List.map_cons, List.map_cons, site, outer]

/-- Behind a construct, an activation is in those around it. -/
theorem behind (h : act.Placed code) (hc : c ∈ code.constructs) {labels : List Label}
    (outer : labels.map Label.site = (openAt code.constructs c.start).map Construct.site) :
    { act with pos := c.stop + 1, labels }.Placed code := by
  obtain ⟨last, laid, close⟩ := h.whole
  have seen := laid.constructs_seen c hc
  obtain ⟨next, closes⟩ := seen.closes
  have here := Scanned.of_read seen.stop closes
  obtain rfl := Instr.read_endMark closes
  refine ⟨h.whole, h.lists, here.next_of_lt (laid.construct_bounds c hc).2.2 laid close closes, ?_⟩
  rw [laid.nested.openAt_behind hc]
  exact outer

/-- At the start of a construct, an activation is in those around it. -/
theorem back (h : act.Placed code) (hc : c ∈ code.constructs) {labels : List Label}
    (outer : labels.map Label.site = (openAt code.constructs c.start).map Construct.site) :
    { act with pos := c.start, labels }.Placed code := by
  obtain ⟨last, laid, close⟩ := h.whole
  obtain ⟨opening, next, opens, -⟩ := (laid.constructs_seen c hc).opens
  exact ⟨h.whole, h.lists, .of_read (laid.constructs_seen c hc).start opens, outer⟩

theorem stop_scanned (h : act.Placed code) (hc : c ∈ code.constructs) : Scanned act.body c.stop := by
  obtain ⟨last, laid, -⟩ := h.whole
  obtain ⟨next, closes⟩ := (laid.constructs_seen c hc).closes
  exact .of_read (laid.constructs_seen c hc).stop closes

theorem nested (h : act.Placed code) : Nested code.constructs := by
  obtain ⟨last, laid, -⟩ := h.whole
  exact laid.nested

theorem reads (h : act.Placed code) : ∃ i next, Instr.read act.body act.pos = .ok i next := by
  obtain ⟨last, laid, close⟩ := h.whole
  exact h.scanned.reads laid close

/-- The construct that an opening opens. -/
theorem opening (h : act.Placed code) (read : Instr.read act.body act.pos = .ok i next) {kind : BlockKind}
    (opens : i.opens? = some kind) : ∃ c ∈ code.constructs, c.kind = kind ∧ c.start = act.pos ∧
      Scanned act.body next ∧ openAt code.constructs next = c :: openAt code.constructs c.start := by
  obtain ⟨last, laid, close⟩ := h.whole
  have within : i ≠ .endMark := by
    rintro rfl
    cases opens
  have before := h.scanned.lt_last laid close read within
  obtain ⟨c, hc, ofKind, start⟩ := (laid.constructs_account h.scanned.1 before read).opens kind opens
  refine ⟨c, hc, ofKind, start, h.scanned.next_of_lt before laid close read, laid.openAt_opening (i := i) hc ?_⟩
  rw [start, read]

/-- The if that an else belongs to. -/
theorem otherwise (h : act.Placed code) (read : Instr.read act.body act.pos = .ok .elseMark next) :
    ∃ c ∈ code.constructs, c.kind = .ifThen ∧ openAt code.constructs act.pos = c :: openAt code.constructs c.start := by
  obtain ⟨last, laid, close⟩ := h.whole
  have before := h.scanned.lt_last laid close read (by simp)
  obtain ⟨c, hc, other⟩ := (laid.constructs_account h.scanned.1 before read).otherwise rfl
  obtain ⟨kind, after, before, -, -⟩ := (laid.constructs_seen c hc).otherwise act.pos other
  exact ⟨c, hc, kind, (laid.nested.openAt_else hc other after before).1⟩

/-- Behind its else, an if is open as it was inside of its first arm. -/
theorem second_arm (h : act.Placed code) (hc : c ∈ code.constructs) {other : Nat} (otherwise : c.otherwise = some other) :
    Scanned act.body (other + 1) ∧ openAt code.constructs (other + 1) = c :: openAt code.constructs c.start := by
  obtain ⟨last, laid, close⟩ := h.whole
  obtain ⟨-, after, before, reached, next, read⟩ := (laid.constructs_seen c hc).otherwise other otherwise
  obtain rfl := Instr.read_elseMark read
  have inCode : other < last := Nat.lt_trans before (laid.construct_bounds c hc).2.2
  exact ⟨(Scanned.of_read reached read).next_of_lt inCode laid close read,
    (laid.nested.openAt_else hc otherwise after before).2⟩

/-- An end closes the innermost construct. -/
theorem ended (h : act.Placed code) (read : Instr.read act.body act.pos = .ok .endMark next) {outer : List Label}
    (labels : act.labels = L :: outer) : { act with pos := next, labels := outer }.Placed code := by
  obtain ⟨last, laid, close⟩ := h.whole
  have sites := h.labels
  rw [labels, List.map_cons] at sites
  have before : act.pos < last := by
    refine Nat.lt_of_le_of_ne (h.scanned.le_last laid close) fun same => ?_
    rw [same, laid.openAt_last] at sites
    cases sites
  obtain ⟨c, hc, stop⟩ := (laid.constructs_account h.scanned.1 before read).closes rfl
  obtain rfl := Instr.read_endMark read
  rw [← stop, laid.nested.openAt_stop hc] at sites
  rw [← stop]
  exact h.behind hc (List.cons.inj sites).2

/-- The construct that a label belongs to, and those around it. -/
theorem label (h : act.Placed code) {depth : Nat} (found : act.labels[depth]? = some L) :
    ∃ c ∈ code.constructs, L.site = c.site ∧
      (act.labels.drop (depth + 1)).map Label.site = (openAt code.constructs c.start).map Construct.site := by
  have at_ : (openAt code.constructs act.pos)[depth]?.map Construct.site = some L.site := by
    rw [← List.getElem?_map, ← h.labels, List.getElem?_map, found]
    rfl
  obtain ⟨c, hc, site⟩ := Option.map_eq_some_iff.mp at_
  obtain ⟨inside, own⟩ := List.getElem?_eq_some_iff.mp hc
  have split : openAt code.constructs act.pos =
      (openAt code.constructs act.pos).take depth ++ c :: (openAt code.constructs act.pos).drop (depth + 1) := by
    rw [← own, ← List.drop_eq_getElem_cons inside, List.take_append_drop]
  refine ⟨c, (mem_openAt.mp (List.mem_of_getElem? hc)).1, site.symm, ?_⟩
  rw [h.nested.openAt_outer split, List.map_drop, h.labels, List.map_drop]

end Placed

/-! ### What an instruction does -/

section Exec
variable {act : Activation} {code : Code} {i : Instr} {next start : Nat} {E : Trap → Prop} {P : Machine σ → Prop}

theorem onStore_raises {α : Type} {op : Exec α} (h : Raises E op) : Raises E (onStore op : Run σ α) := by
  refine .of_error fun M e N failed => ?_
  obtain ⟨store, failed, -⟩ := onStore_eq_error.mp failed
  exact h.error trivial failed

/-- An operation on the stack, whose result does not matter. -/
theorem onStack_mayArise {α : Type} {op : Stack.Op α} (h : Raises Trap.IsPlain op) :
    Ensures P (onStack op) (fun _ _ => True) (Trap.MayArise start) :=
  ((onStore_raises (Store.onStack_raises h)).raising fun _ plain => .inl plain.isDynamic).weaken (fun _ _ => trivial)
    fun _ _ h => h

theorem settle_mayArise (height arity : Nat) :
    Ensures P (onStack (Stack.settle height arity)) (fun _ _ => True) (Trap.MayArise start) := by
  refine onStack_mayArise (.of_error fun s e t failed => ?_)
  obtain ⟨-, rfl, -⟩ := Stack.settle_eq_error.mp failed
  exact ⟨rfl, nofun⟩

theorem store_mayArise : Ensures P store (fun _ _ => True) (Trap.MayArise start) := fun _ _ => trivial

theorem heightBelow_mayArise (count : Nat) :
    Ensures P (heightBelow count) (fun _ _ => True) (Trap.MayArise start) := by
  refine store_mayArise.bind fun s => ?_
  split
  · exact .pure fun _ _ => trivial
  · exact .throw fun _ _ => .inl rfl

theorem blockSignature_mayArise (types : Array FuncType) (t : BlockType) :
    Ensures P (blockSignature types t start) (fun _ _ => True) (Trap.MayArise start) := by
  unfold blockSignature
  split
  · exact .pure fun _ _ => trivial
  · exact .throw fun _ _ => .inr rfl

theorem goto_placed {a : Activation} {pos : Nat} (h : { a with pos }.Placed code) :
    Ensures P (goto a pos) (fun a _ => a.Placed code) E := by
  rw [goto_ok a (Nat.le_of_lt h.scanned.2)]
  exact .pure fun _ _ => h

/-- An entry that is known to be in the table. -/
theorem ofExcept_entry {α : Type} {x : Except Trap α} {a : α} (h : x = .ok a) :
    Ensures P (ofExcept x : Run σ α) (fun b N => b = a ∧ P N) E := by
  rw [h]
  exact .pure fun _ holds => ⟨rfl, holds⟩

variable (types : Array FuncType) (t : BlockType)

theorem enterBlock_placed (h : act.Placed code) (read : Instr.read act.body act.pos = .ok (.block t) next) :
    Ensures P (enterBlock { act with pos := next } types t act.pos) (fun a _ => a.Placed code) (Trap.MayArise act.pos) := by
  obtain ⟨c, hc, kind, start, scanned, innermost⟩ := h.opening read rfl
  refine (blockSignature_mayArise types t).bind fun signature => (heightBelow_mayArise _).bind fun height =>
    (ofExcept_entry (start ▸ h.lists.blockEnd hc kind)).bind fun stop => .given fun ends =>
      store_mayArise.bind fun s => .pure fun _ _ => ?_
  exact h.inside (by rw [Construct.site, kind, start, ends]; rfl) (start ▸ h.labels) scanned innermost

theorem enterLoop_placed (h : act.Placed code) (read : Instr.read act.body act.pos = .ok (.loop t) next) :
    Ensures P (enterLoop { act with pos := next } types t act.pos) (fun a _ => a.Placed code) (Trap.MayArise act.pos) := by
  obtain ⟨c, hc, kind, start, scanned, innermost⟩ := h.opening read rfl
  refine (blockSignature_mayArise types t).bind fun signature => (heightBelow_mayArise _).bind fun height =>
    (ofExcept_entry (start ▸ h.lists.loopEnd hc kind)).bind fun stop => .given fun ends =>
      store_mayArise.bind fun s => .pure fun _ _ => ?_
  exact h.inside (by rw [Construct.site, kind, start, ends]; rfl) (start ▸ h.labels) scanned innermost

/-- Both arms of an if, and its end, are in the if and in what is around it. -/
theorem enterIf_placed (h : act.Placed code) (read : Instr.read act.body act.pos = .ok (.ifThen t) next) :
    Ensures P (enterIf { act with pos := next } types t act.pos) (fun a _ => a.Placed code) (Trap.MayArise act.pos) := by
  obtain ⟨c, hc, kind, start, scanned, innermost⟩ := h.opening read rfl
  refine (blockSignature_mayArise types t).bind fun signature => (onStack_mayArise (Stack.popInt_raises .w32)).bind
    fun condition => (ofExcept_entry (start ▸ h.lists.ifTargets hc kind)).bind fun targets => .given fun ends =>
      (heightBelow_mayArise _).bind fun height => store_mayArise.bind fun s => ?_
  obtain ⟨other, stop⟩ := targets
  cases ends
  have within : ∀ {pos}, Scanned act.body pos → openAt code.constructs pos = c :: openAt code.constructs c.start →
      { act with pos, labels := ⟨.ifThen, act.pos, c.stop, height, signature.2.length, signature.2, #[], s.effects⟩ ::
        act.labels }.Placed code :=
    h.inside (by rw [Construct.site, kind, start]; rfl) (start ▸ h.labels)
  dsimp only
  split
  · exact .pure fun _ _ => within scanned innermost
  split
  · exact goto_placed (within (h.stop_scanned hc) (h.nested.openAt_stop hc))
  -- It goes elsewhere than to its end, so that there is another arm.
  · cases other : c.otherwise with
    | none =>
      rename_i apart
      rw [other] at apart
      exact absurd rfl apart
    | some other' =>
      obtain ⟨scanned, innermost⟩ := h.second_arm hc other
      exact goto_placed (within scanned innermost)

theorem leaveArm_placed (h : act.Placed code) (read : Instr.read act.body act.pos = .ok .elseMark next) :
    Ensures P (leaveArm { act with pos := next } act.pos) (fun a _ => a.Placed code) E := by
  obtain ⟨c, hc, kind, innermost⟩ := h.otherwise read
  have labels := h.labels
  rw [innermost, List.map_cons] at labels
  obtain ⟨L, outer, split, site, rest⟩ := List.map_eq_cons_iff.mp labels
  have kinds : L.kind = .ifThen := (congrArg Site.kind site).trans kind
  have stops : L.stop = c.stop := congrArg Site.stop site
  unfold leaveArm
  dsimp only
  rw [split]
  dsimp only
  rw [if_pos kinds, stops]
  exact goto_placed (h.inside site rest (h.stop_scanned hc) (h.nested.openAt_stop hc))

theorem leave_placed (h : act.Placed code) (read : Instr.read act.body act.pos = .ok .endMark next) :
    Ensures P (leave { act with pos := next }) (fun flow _ => FlowsPlaced code flow) (Trap.MayArise act.pos) := by
  unfold leave
  dsimp only
  split
  · exact .pure fun _ _ => trivial
  · rename_i L outer labels
    refine (settle_mayArise _ _).bind fun _ => .pure fun _ _ => ?_
    exact h.ended read labels

/-- A branch leads back to the start of a loop, or behind the end of another construct. -/
theorem branch_placed (h : act.Placed code) (depth : Nat) (conditional : Bool) :
    Ensures P (branch act depth conditional) (fun flow _ => FlowsPlaced code flow) (Trap.MayArise start) := by
  have goes : ∀ {pos P}, { act with pos, labels := act.labels.drop (depth + 1) }.Placed code →
      Ensures P (do return .next (← goto { act with labels := act.labels.drop (depth + 1) } pos) : Run σ Flow)
        (fun flow _ => FlowsPlaced code flow) (Trap.MayArise start) :=
    fun there => Ensures.bind (goto_placed there) fun _ => .pure fun _ placed => placed
  unfold branch
  split
  · exact .pure fun _ _ => trivial
  split
  · exact .throw fun _ _ => .inl rfl
  · rename_i L found
    obtain ⟨c, hc, site, outer⟩ := h.label found
    have stops : L.stop = c.stop := congrArg Site.stop site
    have behind := h.behind hc outer
    rw [stops]
    refine store_mayArise.bind fun s => ?_
    split
    -- An idle branch goes on behind itself, or behind the end of its loop.
    · refine Ensures.bind (Q := fun _ _ => True) (fun _ _ => trivial) fun _ => ?_
      split
      · exact .pure fun _ _ => h
      · exact (onStack_mayArise (.of_error fun _ _ _ failed => by cases failed)).bind fun _ =>
          (onStack_mayArise (.of_error fun _ _ _ failed => by cases failed)).bind fun _ => goes behind
    · refine (settle_mayArise _ _).bind fun _ => ?_
      dsimp only
      split
      · rename_i isLoop
        rw [h.lists.loopStart? hc ((congrArg Site.kind site).symm.trans isLoop)]
        exact goes (h.back hc outer)
      · exact goes behind

theorem exec_placed (h : act.Placed code) (read : Instr.read act.body act.pos = .ok i next) :
    Ensures P (exec types { act with pos := next } act.pos i) (fun flow _ => FlowsPlaced code flow)
      (Trap.MayArise act.pos) := by
  have follows : ∀ {op : Run σ Activation}, Ensures P op (fun a _ => a.Placed code) (Trap.MayArise act.pos) →
      Ensures P (do return .next (← op) : Run σ Flow) (fun flow _ => FlowsPlaced code flow) (Trap.MayArise act.pos) :=
    fun placed => placed.bind fun _ => .pure fun _ placed => placed
  cases i with
  | plain p =>
    exact (((onStore_raises (Plain.exec_raises _ p)).raising fun _ plain => .inl plain.isDynamic).weaken (fun _ _ => trivial)
      fun _ _ h => h).bind fun _ => .pure fun _ _ => h.moved read rfl (by simp)
  | block t => exact follows (enterBlock_placed types t h read)
  | loop t => exact follows (enterLoop_placed types t h read)
  | ifThen t => exact follows (enterIf_placed types t h read)
  | elseMark => exact follows (leaveArm_placed h read)
  | endMark => exact leave_placed h read
  | br depth => exact branch_placed (h.moved read rfl (by simp)) depth false
  | brIf depth =>
    refine (onStack_mayArise (Stack.popInt_raises .w32)).bind fun condition => ?_
    have onward := h.moved read rfl (by simp)
    split
    · exact branch_placed onward depth true
    · exact .pure fun _ _ => onward
  | brTable targets fallback =>
    exact (onStack_mayArise Stack.popAddress_raises).bind fun index => branch_placed (h.moved read rfl (by simp)) _ false
  | ret => exact .pure fun _ _ => trivial
  | call callee => exact .pure fun _ _ => h.moved read rfl (by simp)

/-- A step of its own leads an activation from an instruction that the look comes by to another one, and into or out of
    the constructs that this takes. -/
theorem step_placed (h : act.Placed code) :
    Ensures P (act.step types) (fun flow _ => FlowsPlaced code flow) (Trap.MayArise act.pos) := by
  obtain ⟨i, next, read⟩ := h.reads
  rw [step_read read]
  exact exec_placed types h read

end Exec
end Activation

/-! ### Runs -/

/-- An activation about to read its first instruction is in no construct. -/
theorem Activation.Fresh.placed {act : Activation} (h : act.Fresh) : ∃ code, act.Placed code := by
  obtain ⟨code, whole⟩ := h.whole
  obtain ⟨last, carries, close⟩ := h.carries whole
  obtain ⟨signatures, signature, locals, live, built⟩ := h.table
  rw [JumpTable.build_whole signatures signature locals live whole] at built
  refine ⟨code, whole, Except.ok.inj built ▸ JumpTable.lists_of_whole whole, ?_, ?_⟩
  · rw [h.pos]
    have := Instr.read_bounds close
    exact ⟨.refl, by omega⟩
  · rw [h.labels, h.pos, openAt_zero]
    rfl

namespace Module
variable {m : Module σ} {act : Activation} {callers chain : List Activation} {M N : Machine σ}

/-- A step leads from placed activations to placed ones. -/
theorem step_placed (tabled : m.Tabled) (placed : ∀ a ∈ act :: callers, ∃ code, a.Placed code)
    (h : m.step act callers M = .ok chain N) : ∀ a ∈ chain, ∃ code, a.Placed code := by
  obtain ⟨code, here⟩ := placed act List.mem_cons_self
  have waiting : ∀ a ∈ callers, ∃ code, a.Placed code := fun a ha => placed a (List.mem_cons_of_mem _ ha)
  rw [step_eq] at h
  obtain ⟨flow, N₁, stepped, proceeded⟩ := bind_eq_ok.mp h
  have flows := (Activation.step_placed (P := fun _ => True) m.types here).ok trivial stepped
  cases flow with
  | next a =>
    cases proceeded
    exact List.forall_mem_cons.mpr ⟨⟨code, flows⟩, waiting⟩
  | ret =>
    obtain ⟨_, N₂, -, done⟩ := bind_eq_ok.mp proceeded
    cases done
    exact waiting
  | call a callee =>
    obtain ⟨r, N₂, called, done⟩ := bind_eq_ok.mp proceeded
    cases r with
    | none =>
      cases done
      exact List.forall_mem_cons.mpr ⟨⟨code, flows⟩, waiting⟩
    | some inner =>
      cases done
      obtain ⟨f, offset, function, -, entered⟩ := callFrom_eq_some called
      exact List.forall_mem_cons.mpr ⟨(enter_fresh tabled function entered).placed,
        List.forall_mem_cons.mpr ⟨⟨code, flows⟩, waiting⟩⟩

theorem Visits.placed (tabled : m.Tabled) (visits : m.Visits callers M chain N)
    (h : ∀ a ∈ callers, ∃ code, a.Placed code) : ∀ a ∈ chain, ∃ code, a.Placed code := by
  induction visits with
  | here => exact h
  | onward stepped _ ih => exact ih (step_placed tabled h stepped)

/-- A step fails by its own instruction only as this one may, or else in the function that it calls. -/
theorem step_fails {code : Code} (h : act.Placed code) {e : Trap} (failed : m.step act callers M = .error e N) :
    e.MayArise act.pos ∨ ∃ callee next, Instr.read act.body act.pos = .ok (.call callee) next ∧
      m.callFrom { act with pos := next } callee M = .error e N := by
  rw [step_eq] at failed
  rcases bind_eq_error.mp failed with own | ⟨flow, N₁, stepped, later⟩
  · exact .inl ((Activation.step_placed (P := fun _ => True) m.types h).error trivial own)
  cases flow with
  | next a => cases later
  | ret =>
    rcases bind_eq_error.mp later with settled | ⟨_, _, -, done⟩
    · rcases bind_eq_error.mp settled with unsettled | ⟨_, _, -, shallower⟩
      · obtain ⟨stack, short, -⟩ := onStack_eq_error.mp unsettled
        obtain ⟨-, rfl, -⟩ := Stack.settle_eq_error.mp short
        exact .inl (.inl rfl)
      · cases shallower
    · cases done
  | call a callee =>
    obtain ⟨i, next, read, -, rfl, rfl, rfl⟩ := Activation.step_flowsOn stepped
    rcases bind_eq_error.mp later with called | ⟨r, _, -, done⟩
    · exact .inr ⟨callee, next, read, called⟩
    · cases r <;> cases done

/-- Wherever a run comes that starts with a function whose jump table has been built, all its activations are at
    instructions that the look through their bodies has come by, in just the constructs that were open to it there, with
    their kinds, starts and ends. So an instruction is read there that ends within the body, and it fails of its own only
    for the values it is run on or a block type that is out of range. -/
theorem visits_placed {signatures : Array FuncType} {signature : FuncType} {locals : List ValType} {live : Store}
    (tabled : m.Tabled) (built : JumpTable.build signatures signature locals act.body live = .ok act.jumps)
    (pos : act.pos = 0) (labels : act.labels = []) (visits : m.Visits [act] M chain N) :
    ∀ a ∈ chain, ∃ code, Whole a.body code ∧ a.jumps.Lists code.constructs ∧ Scanned a.body a.pos ∧
      (∀ signatures frame shadow, ∃ c, JumpTable.Comes signatures frame a.body shadow a.pos c ∧
        c.opened = (openAt code.constructs a.pos).map (Construct.opening a.pos)) ∧
      a.labels.map Label.site = (openAt code.constructs a.pos).map Construct.site ∧
      (∃ i next, Instr.read a.body a.pos = .ok i next ∧ next ≤ a.body.size) ∧
      (∀ (O O' : Machine σ) e, a.step m.types O = .error e O' → e.MayArise a.pos) ∧
      ∀ callers (O O' : Machine σ) e, m.step a callers O = .error e O' → e.MayArise a.pos ∨
        ∃ callee next, Instr.read a.body a.pos = .ok (.call callee) next ∧
          m.callFrom { a with pos := next } callee O = .error e O' := by
  have fresh : act.Fresh := ⟨⟨_, _, _, live, built⟩, pos, labels⟩
  intro a ha
  obtain ⟨code, placed⟩ := visits.placed tabled (List.forall_mem_cons.mpr ⟨fresh.placed, nofun⟩) a ha
  obtain ⟨last, laid, close⟩ := placed.whole
  obtain ⟨i, next, read⟩ := placed.reads
  refine ⟨code, placed.whole, placed.lists, placed.scanned, fun signatures frame shadow => ?_, placed.labels,
    ⟨i, next, read, (Instr.read_bounds read).2⟩, fun O O' e failed => ?_, fun callers O O' e => step_fails placed⟩
  · exact JumpTable.comes_open signatures frame shadow laid placed.scanned.1 (placed.scanned.le_last laid close)
  · exact (Activation.step_placed (P := fun _ => True) m.types placed).error trivial failed

/-- A block that a branch leaves, once it has been entered. -/
theorem visits_placed_block :
    let body : ByteArray := ⟨#[0x02, 0x40, 0x0C, 0x00, 0x0B, 0x0B]⟩
    let m := ({ functions := #[{ signature := ⟨[], []⟩, body := .code body }] } : Module Unit).withJumps {}
    let act : Activation := {
      index := 0, body, jumps := .ofConstructs [⟨.block, 0, none, 4⟩], frame := ⟨0, 0⟩, results := [], arguments := #[],
      effects := 0 }
    let inside : Activation := { act with pos := 2, labels := [⟨.block, 0, 4, 0, 0, [], #[], 0⟩] }
    m.Visits [act] ⟨{}, (), #[]⟩ [inside] ⟨{}, (), #[]⟩ ∧ ∃ code, Whole body code ∧ Scanned body 2 ∧
      inside.labels.map Label.site = (openAt code.constructs 2).map Construct.site := by
  intro body m act inside
  have opens : Instr.read body 0 = .ok (.block .empty) 2 := Instr.read_of_find? (by decide) rfl rfl
  have branches : Instr.read body 2 = .ok (.br 0) 4 := Instr.read_of_find? (by decide) rfl rfl
  have ends : Instr.read body 4 = .ok .endMark 5 := Instr.read_of_find? (by decide) rfl rfl
  have last : Instr.read body 5 = .ok .endMark 6 := Instr.read_of_find? (by decide) rfl rfl
  have whole : Whole body (.block 0 4 .empty (.simple (.br 0) .done) .done) :=
    ⟨5, .block opens (.simple branches .done) ends .done, last⟩
  have built : JumpTable.build #[] ⟨[], []⟩ [] act.body {} = .ok act.jumps := JumpTable.build_whole _ _ _ _ whole
  have stepped : m.step act [] ⟨{}, (), #[]⟩ = .ok [inside] ⟨{}, (), #[]⟩ := by
    rw [step_eq]
    unfold Activation.step
    rw [show Instr.read act.body act.pos = .ok (.block .empty) 2 from opens]
    rfl
  have visits : m.Visits [act] ⟨{}, (), #[]⟩ [inside] ⟨{}, (), #[]⟩ := .onward stepped .here
  obtain ⟨code, whole, -, scanned, -, labels, -⟩ :=
    visits_placed (withJumps_tabled _ _) built rfl rfl visits inside List.mem_cons_self
  exact ⟨visits, code, whole, scanned, labels⟩

end Module
end Wasm
