import Wasm.Proofs.Nesting
import Wasm.Proofs.Look

/-! The positions that the look through a body comes by. It has just the constructs open that are open there. -/

namespace Wasm

/-- The look through a body reads an instruction at this position. -/
def Scanned (body : ByteArray) (pos : Nat) : Prop := ReadsTo body 0 pos ∧ pos < body.size

namespace Scanned
variable {body : ByteArray} {pos last next : Nat} {code : Code} {i : Instr}

theorem le_last (h : Scanned body pos) (laid : Laid body 0 code last) (close : Instr.read body last = .ok .endMark body.size) :
    pos ≤ last := by
  have := h.2
  have := laid.readsTo.skips close h.1
  omega

/-- An instruction is read wherever the look comes. -/
theorem reads (h : Scanned body pos) (laid : Laid body 0 code last) (close : Instr.read body last = .ok .endMark body.size) :
    ∃ i next, Instr.read body pos = .ok i next := by
  rcases (h.1.between laid.readsTo (h.le_last laid close)).cases_head with rfl | ⟨next, ⟨i, read⟩, -⟩
  · exact ⟨_, _, close⟩
  · exact ⟨i, next, read⟩

theorem of_read (h : ReadsTo body 0 pos) (read : Instr.read body pos = .ok i next) : Scanned body pos :=
  ⟨h, by have := Instr.read_bounds read; omega⟩

theorem next_of_lt (h : Scanned body pos) (before : pos < last) (laid : Laid body 0 code last)
    (close : Instr.read body last = .ok .endMark body.size) (read : Instr.read body pos = .ok i next) : Scanned body next := by
  refine ⟨h.1.onward read, ?_⟩
  have := Instr.read_bounds close
  have := h.1.skips read laid.readsTo
  omega

/-- Only the end of the function is the last instruction. -/
theorem lt_last (h : Scanned body pos) (laid : Laid body 0 code last) (close : Instr.read body last = .ok .endMark body.size)
    (read : Instr.read body pos = .ok i next) (within : i ≠ .endMark) : pos < last := by
  refine Nat.lt_of_le_of_ne (h.le_last laid close) ?_
  rintro rfl
  rw [close] at read
  cases read
  exact within rfl

end Scanned

/-! ### What the look has open -/

/-- A construct as the look has it open at a position. -/
def Construct.opening (pos : Nat) (c : Construct) : JumpTable.Opening :=
  ⟨c.kind, c.start, c.otherwise.filter fun other => other < pos⟩

namespace JumpTable
open Construct

/-- The look through a body comes to a position, with what it has found and with its shadow. -/
inductive Comes (signatures : Array FuncType) (frame : Frame) (body : ByteArray) (shadow : Store) : Nat → Scan → Prop
  | first : Comes signatures frame body shadow 0 { shadow }
  | onward {pos c i next c'} : Comes signatures frame body shadow pos c → Instr.read body pos = .ok i next →
      c.step signatures frame pos i = .ok c' → Comes signatures frame body shadow next c'

variable {signatures : Array FuncType} {frame : Frame} {body : ByteArray} {shadow : Store} {pos next last : Nat}
  {code : Code} {i : Instr} {c : Scan}

/-- The look goes on with what an instruction adds to what has been found. -/
theorem Comes.add (h : Comes signatures frame body shadow pos c) (read : Instr.read body pos = .ok i next) {f : Found}
    (added : c.found.add pos i = .ok f) : ∃ c', Comes signatures frame body shadow next c' ∧ c'.found = f := by
  have found := Scan.step_found signatures frame pos c i
  rw [added] at found
  cases stepped : c.step signatures frame pos i with
  | ok c' =>
    rw [stepped] at found
    exact ⟨c', h.onward read stepped, Except.ok.inj found⟩
  | error e =>
    rw [stepped] at found
    cases found

/-- Only at its else does a construct come to be open otherwise. -/
theorem opening_next (laid : Laid body 0 code last) (reached : ReadsTo body 0 pos)
    (read : Instr.read body pos = .ok i next) {d : Construct} (hd : d ∈ code.constructs) (own : d.otherwise ≠ some pos) :
    d.opening next = d.opening pos := by
  refine congrArg (Opening.mk d.kind d.start) ?_
  cases otherwise : d.otherwise with
  | none => rfl
  | some other =>
    obtain ⟨-, -, -, there, -⟩ := (laid.constructs_seen d hd).otherwise other otherwise
    have apart : other ≠ pos := fun same => own (same ▸ otherwise)
    have skips := reached.skips read there
    have bounds := Instr.read_bounds read
    simp only [Option.filter_some]
    congr 2
    exact decide_eq_decide.mpr (by omega)

/-- An instruction adds just the constructs that it opens, and takes away those that it ends. -/
theorem add_open (laid : Laid body 0 code last) (reached : ReadsTo body 0 pos) (before : pos < last)
    (read : Instr.read body pos = .ok i next) (table : JumpTable) : ∃ table',
      Found.add ⟨table, (openAt code.constructs pos).map (Construct.opening pos)⟩ pos i =
        .ok ⟨table', (openAt code.constructs next).map (Construct.opening next)⟩ := by
  have accounts := laid.constructs_account reached before read
  have all : ∀ {p}, openAt code.constructs p ⊆ code.constructs := fun hd => (mem_openAt.mp hd).1
  have same : ∀ {cs : List Construct}, cs ⊆ code.constructs → (∀ d ∈ cs, d.otherwise ≠ some pos) →
      cs.map (Construct.opening next) = cs.map (Construct.opening pos) :=
    fun within own => List.map_congr_left fun d hd => opening_next laid reached read (within hd) (own d hd)
  have notElse : i ≠ .elseMark → ∀ d ∈ code.constructs, d.otherwise ≠ some pos := by
    intro notElse d hd own
    obtain ⟨-, -, -, -, _, mark⟩ := (laid.constructs_seen d hd).otherwise pos own
    rw [read] at mark
    cases mark
    exact notElse rfl
  have opens : ∀ kind, i.opens? = some kind →
      (⟨kind, pos, none⟩ : Opening) :: (openAt code.constructs pos).map (Construct.opening pos) =
        (openAt code.constructs next).map (Construct.opening next) := by
    intro kind opens
    obtain ⟨d, hd, rfl, rfl⟩ := accounts.opens kind opens
    have apart : i ≠ .elseMark := by
      rintro rfl
      cases opens
    -- Its else, if it has one, is still to come.
    have fresh : d.opening d.start = ⟨d.kind, d.start, none⟩ := by
      refine congrArg (Opening.mk d.kind d.start) ?_
      rw [Option.filter_eq_none_iff]
      intro other own
      obtain ⟨-, after, -⟩ := (laid.constructs_seen d hd).otherwise other own
      simp
      omega
    have within : d :: openAt code.constructs d.start ⊆ code.constructs := List.cons_subset.mpr ⟨hd, all⟩
    rw [laid.openAt_opening hd read, same within fun e he => notElse apart e (within he), List.map_cons, fresh]
  rcases i.shape with ⟨s, rfl⟩ | ⟨type, rfl⟩ | ⟨type, rfl⟩ | ⟨type, rfl⟩ | rfl | rfl
  · have stays := laid.openAt_next reached read (by cases s <;> rfl) (by cases s <;> nofun)
    rw [stays, same all fun d hd => notElse (by cases s <;> nofun) d (all hd)]
    exact ⟨table, by cases s <;> rfl⟩
  · exact ⟨table, by rw [← opens .block rfl]; rfl⟩
  · exact ⟨table, by rw [← opens .loop rfl]; rfl⟩
  · exact ⟨table, by rw [← opens .ifThen rfl]; rfl⟩
  · obtain ⟨d, hd, own⟩ := accounts.otherwise rfl
    obtain ⟨kind, after, inside, -, -⟩ := (laid.constructs_seen d hd).otherwise pos own
    obtain ⟨here, behind⟩ := laid.nested.openAt_else hd own after inside
    obtain rfl := Instr.read_elseMark read
    -- The constructs around have their else elsewhere: a mark is that of the innermost one.
    have others : ∀ e ∈ openAt code.constructs d.start, e.otherwise ≠ some pos := by
      intro e he other
      obtain ⟨he', isOpen⟩ := mem_openAt.mp he
      obtain ⟨-, after', inside', -, -⟩ := (laid.constructs_seen e he').otherwise pos other
      have heads := (laid.nested.openAt_else he' other after' inside').1
      rw [here] at heads
      obtain rfl := (List.cons.inj heads).1
      exact Nat.lt_irrefl _ isOpen.1
    rw [here, behind, List.map_cons, List.map_cons, same all others]
    have first : d.opening pos = ⟨.ifThen, d.start, none⟩ := by simp [Construct.opening, kind, own]
    have second : d.opening (pos + 1) = ⟨.ifThen, d.start, some pos⟩ := by simp [Construct.opening, kind, own]
    rw [first, second]
    exact ⟨table, rfl⟩
  · obtain ⟨d, hd, rfl⟩ := accounts.closes rfl
    obtain rfl := Instr.read_endMark read
    rw [laid.nested.openAt_stop hd, laid.nested.openAt_behind hd, List.map_cons,
      same all fun e he => notElse (by simp) e (all he)]
    exact ⟨_, rfl⟩

/-- At every position that the look comes by, it has just those constructs open that are open there. -/
theorem comes_open (signatures : Array FuncType) (frame : Frame) (shadow : Store) (laid : Laid body 0 code last)
    (reached : ReadsTo body 0 pos) (within : pos ≤ last) : ∃ c, Comes signatures frame body shadow pos c ∧
      c.opened = (openAt code.constructs pos).map (Construct.opening pos) := by
  induction reached with
  | refl => exact ⟨_, .first, by rw [openAt_zero]; rfl⟩
  | @tail pos next reached step ih =>
    obtain ⟨i, read⟩ := step
    have before : pos < last := Nat.lt_of_lt_of_le (Instr.read_bounds read).1 within
    obtain ⟨⟨table, opened, shadow'⟩, comes, rfl⟩ := ih (Nat.le_of_lt before)
    obtain ⟨table', added⟩ := add_open laid reached before read table
    obtain ⟨c', comes', found⟩ := comes.add read added
    exact ⟨c', comes', congrArg Found.opened found⟩

end JumpTable
end Wasm
