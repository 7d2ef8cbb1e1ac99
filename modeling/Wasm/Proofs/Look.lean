import Wasm.Proofs.Code
import Wasm.Proofs.Structural

/-! The look through a body without its shadow. What it finds follows from the bytes alone: the shadow is run, but
    nothing that happens on it shows. -/

namespace Wasm.JumpTable

/-- What the look through a body has found so far. -/
structure Found where
  table : JumpTable := {}
  /-- The open constructs, innermost first. -/
  opened : List Opening := []

def Scan.found (c : Scan) : Found := ⟨c.table, c.opened⟩

namespace Found

/-- Opens a construct. -/
def enter (f : Found) (kind : BlockKind) (start : Nat) : Found := { f with opened := { kind, start } :: f.opened }

/-- What the instruction at a position adds, if it is not the last one. -/
def add (f : Found) (pos : Nat) : Instr → Except Trap Found
  | .block _ => .ok (f.enter .block pos)
  | .loop _ => .ok (f.enter .loop pos)
  | .ifThen _ => .ok (f.enter .ifThen pos)
  | .elseMark =>
    match f.opened with
    | ⟨.ifThen, start, none⟩ :: rest => .ok { f with opened := ⟨.ifThen, start, some pos⟩ :: rest }
    | _ => .error (.unbalancedBlock pos)
  | .endMark =>
    match f.opened with
    | o :: rest => .ok { table := f.table.close o pos, opened := rest }
    | [] => .error (.unbalancedBlock pos)
  | _ => .ok f

end Found

/-- Looks through a body from a position on, with no shadow. -/
def look (body : ByteArray) (pos : Nat) (f : Found) : Except Trap JumpTable :=
  if body.size ≤ pos then .error (.unbalancedBlock pos)
  else match _h : Instr.read body pos with
    | .error e _ => .error e
    | .ok i next =>
      if i = .endMark ∧ f.opened = [] ∧ body.size ≤ next then .ok f.table
      else match f.add pos i with
        | .ok f => look body next f
        | .error e => .error e
termination_by body.size - pos
decreasing_by
  have := Instr.read_bounds ‹_›
  omega

/-! ### The shadow does not show -/

namespace Scan

theorem found_attempt {α : Type} (c : Scan) (op : Exec α) : (c.attempt op).found = c.found := rfl

theorem found_pops (params : List ValType) (c : Scan) :
    (params.foldl (fun c _ => c.attempt (Store.onStack Stack.pop)) c).found = c.found := by
  induction params generalizing c with
  | nil => rfl
  | cons t params ih => rw [List.foldl_cons, ih, found_attempt]

theorem found_call (c : Scan) (callee : FuncType) : (c.call callee).found = c.found := by
  unfold call
  rw [found_attempt, found_pops]

/-- What an instruction adds does not depend on the shadow, nor on what the code is run with. -/
theorem step_found (signatures : Array FuncType) (frame : Frame) (pos : Nat) (c : Scan) (i : Instr) :
    (c.step signatures frame pos i).map found = c.found.add pos i := by
  cases i with
  | block type => rfl
  | loop type => rfl
  | ifThen type => rfl
  | elseMark =>
    obtain ⟨table, opened, shadow⟩ := c
    rcases opened with _ | ⟨⟨kind, start, otherwise⟩, rest⟩
    · rfl
    · cases kind <;> cases otherwise <;> rfl
  | endMark =>
    obtain ⟨table, opened, shadow⟩ := c
    cases opened <;> rfl
  | br depth => rfl
  | brIf depth => rfl
  | brTable targets fallback => rfl
  | ret => rfl
  | call f =>
    simp only [step]
    cases signatures[f]? with
    | some callee => exact congrArg Except.ok (found_call c callee)
    | none => rfl
  | plain p =>
    unfold step
    dsimp only
    split
    · rfl
    · -- The instruction fails on the shadow, but never because of its own bytes.
      rw [Plain.exec_isDynamic ‹_›]
      rfl

end Scan

/-- Enough fuel for all bytes is as good as any. -/
theorem scanFrom_eq_look {body : ByteArray} (signatures : Array FuncType) (frame : Frame) {fuel pos : Nat}
    (enough : body.size < fuel + pos) (c : Scan) :
    scanFrom signatures frame body fuel pos c = look body pos c.found := by
  induction fuel generalizing pos c with
  | zero =>
    rw [look, if_pos (by omega)]
    rfl
  | succ fuel ih =>
    rw [look, scanFrom]
    by_cases past : body.size ≤ pos
    · rw [if_pos past, if_pos past]
    · rw [if_neg past, if_neg past]
      cases read : Instr.read body pos with
      | error e next => rfl
      | ok i next =>
        -- Every instruction has a byte of its own, so that the fuel lasts as long as there are bytes.
        have bounds := Instr.read_bounds read
        dsimp only
        by_cases last : i = .endMark ∧ c.opened = [] ∧ body.size ≤ next
        · rw [if_pos last, if_pos (show i = .endMark ∧ c.found.opened = [] ∧ _ from last)]
          rfl
        · rw [if_neg last, if_neg (show ¬(i = .endMark ∧ c.found.opened = [] ∧ _) from last),
            ← c.step_found signatures frame pos i]
          cases c.step signatures frame pos i with
          | error e => rfl
          | ok c => exact ih (by omega) c

/-- The jump table of a body follows from its bytes. -/
theorem build_eq_look (signatures : Array FuncType) (signature : FuncType) (locals : List ValType) (body : ByteArray)
    (live : Store) : build signatures signature locals body live = look body 0 {} :=
  scanFrom_eq_look _ _ (by omega) _

/-! ### One instruction after another -/

section Look
variable {body : ByteArray} {pos next : Nat} {f : Found}

theorem look_past (h : body.size ≤ pos) : look body pos f = .error (.unbalancedBlock pos) := by
  rw [look, if_pos h]

theorem look_read {i : Instr} (read : Instr.read body pos = .ok i next) :
    look body pos f =
      if i = .endMark ∧ f.opened = [] ∧ body.size ≤ next then .ok f.table
      else match f.add pos i with
        | .ok f => look body next f
        | .error e => .error e := by
  have bounds := Instr.read_bounds read
  rw [look, if_neg (by omega)]
  split
  · rename_i h
    rw [read] at h
    cases h
  · rename_i h
    rw [read] at h
    cases h
    rfl

theorem look_unread {e : Trap} (inside : pos < body.size) (read : Instr.read body pos = .error e next) :
    look body pos f = .error e := by
  rw [look, if_neg (by omega)]
  split
  · rename_i h
    rw [read] at h
    cases h
    rfl
  · rename_i h
    rw [read] at h
    cases h

theorem look_simple {i : Simple} (read : Instr.read body pos = .ok i.instr next) : look body pos f = look body next f := by
  rw [look_read read, if_neg (by cases i <;> simp [Simple.instr])]
  cases i <;> rfl

theorem look_block {type : BlockType} (read : Instr.read body pos = .ok (.block type) next) :
    look body pos f = look body next (f.enter .block pos) := by
  rw [look_read read, if_neg (by simp)]
  rfl

theorem look_loop {type : BlockType} (read : Instr.read body pos = .ok (.loop type) next) :
    look body pos f = look body next (f.enter .loop pos) := by
  rw [look_read read, if_neg (by simp)]
  rfl

theorem look_ifThen {type : BlockType} (read : Instr.read body pos = .ok (.ifThen type) next) :
    look body pos f = look body next (f.enter .ifThen pos) := by
  rw [look_read read, if_neg (by simp)]
  rfl

theorem look_elseMark {t : JumpTable} {opened : List Opening} {start : Nat}
    (read : Instr.read body pos = .ok .elseMark next) :
    look body pos ⟨t, ⟨.ifThen, start, none⟩ :: opened⟩ = look body next ⟨t, ⟨.ifThen, start, some pos⟩ :: opened⟩ := by
  rw [look_read read, if_neg (by simp)]
  rfl

theorem look_endMark {t : JumpTable} {opened : List Opening} {o : Opening} (read : Instr.read body pos = .ok .endMark next) :
    look body pos ⟨t, o :: opened⟩ = look body next ⟨t.close o pos, opened⟩ := by
  rw [look_read read, if_neg (by simp)]
  rfl

theorem look_last {t : JumpTable} (read : Instr.read body pos = .ok .endMark body.size) :
    look body pos ⟨t, []⟩ = .ok t := by
  rw [look_read read, if_pos ⟨rfl, rfl, Nat.le_refl _⟩]

end Look
end Wasm.JumpTable
