import Wasm.Proofs.Instructions
import Wasm.Proofs.IntegerArithmetic
import Wasm.Proofs.Operations

/-! The instructions on integers do what is defined: they take their operands from the stack, the right one first, and
    push the number that the definition gives, or trap where it gives none. -/

namespace Wasm
open Store

namespace Numeric

/-! ### What is defined -/

/-- The instruction, wherever it is executed, takes the operands, of which the last one is on top, and pushes a value. -/
def Pushes (op : Numeric) (operands : List Value) (v : Value) : Prop :=
  ∀ (f : Frame) (s : Store) (below : Array Value), s.stack.values = below ++ operands.toArray →
    (Plain.numeric op).exec f s = .ok () { s with stack := ⟨below.push v⟩ }

/-- The instruction, wherever it is executed, takes the operands, of which the last one is on top, and traps. -/
def Traps (op : Numeric) (operands : List Value) (e : Trap) : Prop :=
  ∀ (f : Frame) (s : Store) (below : Array Value), s.stack.values = below ++ operands.toArray →
    (Plain.numeric op).exec f s = .error e { s with stack := ⟨below⟩ }

/-- The instructions that take two integers of a width. -/
inductive TakesTwo (w : Width) : Numeric → Prop
  | binary (op : IntBinary) : TakesTwo w (.intBinary w op)
  | compare (op : IntCompare) : TakesTwo w (.intCompare w op)

/-- The instructions on integers as the definition has them. -/
structure IntegersAsDefined : Prop where
  code {op : Numeric} {b : UInt8} : op.code? = some b → ∀ (body : ByteArray) (pos : Nat) (h : pos < body.size),
    body[pos] = b → Instr.read body pos = .ok (.plain (.numeric op)) (pos + 1)
  eqz (w : Width) (v : BitVec w.bits) : (eqz w).Pushes [.int w v] (.ofBool (v.toNat == 0))
  unary (w : Width) (op : IntUnary) (v : BitVec w.bits) : ∃ x : BitVec w.bits, x.toNat = op.define w.bits v.toNat ∧
    (intUnary w op).Pushes [.int w v] (.int w x)
  binary (w : Width) (op : IntBinary) (a b : BitVec w.bits) :
    match op.define w.bits a.toNat b.toNat with
    | .ok n => ∃ x : BitVec w.bits, x.toNat = n ∧ (intBinary w op).Pushes [.int w a, .int w b] (.int w x)
    | .error e => (intBinary w op).Traps [.int w a, .int w b] e
  divideByZero (w : Width) (op : IntBinary) (a b : BitVec w.bits) :
    (intBinary w op).Traps [.int w a, .int w b] .divideByZero ↔ op ∈ [.divS, .divU, .remS, .remU] ∧ b.toNat = 0
  integerOverflow (w : Width) (op : IntBinary) (a b : BitVec w.bits) :
    (intBinary w op).Traps [.int w a, .int w b] .integerOverflow ↔
      op = .divS ∧ Signedness.signed.number w.bits a.toNat = -2 ^ (w.bits - 1) ∧
        Signedness.signed.number w.bits b.toNat = -1
  compare (w : Width) (op : IntCompare) (a b : BitVec w.bits) :
    (intCompare w op).Pushes [.int w a, .int w b] (.ofBool (op.define w.bits a.toNat b.toNat))
  wrap (v : BitVec 64) : ∃ x : BitVec 32, x.toNat = v.toNat % 2 ^ 32 ∧ wrap.Pushes [.i64 v] (.i32 x)
  extend (sign : Signedness) (v : BitVec 32) : ∃ x : BitVec 64, x.toNat = residue 64 (sign.number 32 v.toNat) ∧
    (extend sign).Pushes [.i32 v] (.i64 x)
  /-- A right operand of another type is refused, with the left one still on the stack. -/
  right {w : Width} {op : Numeric} {v : Value} : TakesTwo w op → v.type ≠ w.int →
    op.Traps [v] (.typeMismatch w.int v.type)
  left {w : Width} {op : Numeric} {v : Value} {b : BitVec w.bits} : TakesTwo w op → v.type ≠ w.int →
    op.Traps [v, .int w b] (.typeMismatch w.int v.type)

/-! ### On the stack -/

variable {op : Numeric} {w : Width} {below : Array Value}

theorem pushes_of_exec {operands : List Value} {v : Value}
    (h : ∀ below, op.exec ⟨below ++ operands.toArray⟩ = .ok () ⟨below.push v⟩) : op.Pushes operands v := by
  intro f s below taken
  refine onStack_eq_ok.mpr ⟨_, ?_, rfl⟩
  rw [← h below, ← taken]

theorem traps_of_exec {operands : List Value} {e : Trap}
    (h : ∀ below, op.exec ⟨below ++ operands.toArray⟩ = .error e ⟨below⟩) : op.Traps operands e := by
  intro f s below taken
  refine onStack_eq_error.mpr ⟨_, ?_, rfl⟩
  rw [← h below, ← taken]

/-- An instruction that pushes does not trap. -/
theorem Pushes.not_traps {operands : List Value} {v : Value} (pushes : op.Pushes operands v) (e : Trap) :
    ¬op.Traps operands e := by
  intro traps
  have pushed := pushes ⟨0, 0⟩ { stack := ⟨operands.toArray⟩ } #[] (by simp)
  have trapped := traps ⟨0, 0⟩ { stack := ⟨operands.toArray⟩ } #[] (by simp)
  cases pushed.symm.trans trapped

theorem Traps.unique {operands : List Value} {e e' : Trap} (h : op.Traps operands e) (h' : op.Traps operands e') :
    e = e' := by
  have first := h ⟨0, 0⟩ { stack := ⟨operands.toArray⟩ } #[] (by simp)
  have second := h' ⟨0, 0⟩ { stack := ⟨operands.toArray⟩ } #[] (by simp)
  cases first.symm.trans second
  rfl

theorem popInt_top (v : BitVec w.bits) (below : Array Value) :
    Stack.popInt w ⟨below.push (.int w v)⟩ = .ok v ⟨below⟩ := Stack.popInt_eq_ok.mpr rfl

theorem popInt_other {v : Value} (other : v.type ≠ w.int) (below : Array Value) :
    Stack.popInt w ⟨below.push v⟩ = .error (.typeMismatch w.int v.type) ⟨below⟩ := by
  have popped : Stack.pop ⟨below.push v⟩ = .ok v ⟨below⟩ := Stack.pop_eq_ok.mpr rfl
  have none : v.int? w = none := by
    refine Option.eq_none_iff_forall_ne_some.mpr fun x found => other ?_
    rw [Value.int?_eq_some.mp found, Value.type_int]
  refine (bind_ok popped).trans ?_
  rw [none]
  rfl

theorem exec_eqz (v : BitVec w.bits) (below : Array Value) :
    (eqz w).exec ⟨below.push (.int w v)⟩ = .ok () ⟨below.push (.ofBool (v == 0))⟩ := bind_ok (popInt_top v below)

theorem exec_unary (op : IntUnary) (v : BitVec w.bits) (below : Array Value) :
    (intUnary w op).exec ⟨below.push (.int w v)⟩ = .ok () ⟨below.push (.int w (op.apply v))⟩ :=
  bind_ok (popInt_top v below)

theorem append_pair (below : Array Value) (a b : Value) : below ++ [a, b].toArray = (below.push a).push b := by
  exact Array.ext' (by simp)

/-- The operands are popped, the right one first, before anything else is done. -/
theorem exec_binary (op : IntBinary) (a b : BitVec w.bits) (below : Array Value) :
    (intBinary w op).exec ⟨(below.push (.int w a)).push (.int w b)⟩ =
      match op.apply a b with
      | .ok x => .ok () ⟨below.push (.int w x)⟩
      | .error e => .error e ⟨below⟩ := by
  rw [exec, bind_ok (popInt_top b _), bind_ok (popInt_top a below)]
  cases op.apply a b <;> rfl

theorem exec_compare (op : IntCompare) (a b : BitVec w.bits) (below : Array Value) :
    (intCompare w op).exec ⟨(below.push (.int w a)).push (.int w b)⟩ =
      .ok () ⟨below.push (.ofBool (op.apply a b))⟩ := by
  rw [exec, bind_ok (popInt_top b _), bind_ok (popInt_top a below)]
  rfl

theorem TakesTwo.exec_right (two : TakesTwo w op) {v : Value} (other : v.type ≠ w.int) (below : Array Value) :
    op.exec ⟨below.push v⟩ = .error (.typeMismatch w.int v.type) ⟨below⟩ := by
  cases two with
  | binary op => exact bind_error (popInt_other other below)
  | compare op => exact bind_error (popInt_other other below)

theorem TakesTwo.exec_left (two : TakesTwo w op) {v : Value} (other : v.type ≠ w.int) (b : BitVec w.bits)
    (below : Array Value) :
    op.exec ⟨(below.push v).push (.int w b)⟩ = .error (.typeMismatch w.int v.type) ⟨below⟩ := by
  cases two with
  | binary op => exact (bind_ok (popInt_top b _)).trans (bind_error (popInt_other other below))
  | compare op => exact (bind_ok (popInt_top b _)).trans (bind_error (popInt_other other below))

/-! ### As defined -/

theorem read_code {b : UInt8} (coded : op.code? = some b) (body : ByteArray) (pos : Nat) (h : pos < body.size)
    (there : body[pos] = b) : Instr.read body pos = .ok (.plain (.numeric op)) (pos + 1) := by
  have rest : Instr.readRest (.numeric op) body (pos + 1) = .ok (.plain (.numeric op)) (pos + 1) := rfl
  exact Instr.read_of_find? h (by rw [there, Opcode.find?_of_numeric coded]) rest

theorem binary_as_defined (w : Width) (op : IntBinary) (a b : BitVec w.bits) :
    match op.define w.bits a.toNat b.toNat with
    | .ok n => ∃ x : BitVec w.bits, x.toNat = n ∧ (intBinary w op).Pushes [.int w a, .int w b] (.int w x)
    | .error e => (intBinary w op).Traps [.int w a, .int w b] e := by
  have ran := exec_binary op a b
  rw [← op.apply_define w.bits_pos]
  cases applied : op.apply a b with
  | ok x =>
    rw [applied] at ran
    refine ⟨x, rfl, pushes_of_exec fun below => ?_⟩
    rw [append_pair]
    exact ran below
  | error e =>
    rw [applied] at ran
    refine traps_of_exec fun below => ?_
    rw [append_pair]
    exact ran below

theorem traps_iff (w : Width) (op : IntBinary) (a b : BitVec w.bits) (e : Trap) :
    (intBinary w op).Traps [.int w a, .int w b] e ↔ op.define w.bits a.toNat b.toNat = .error e := by
  have defined := binary_as_defined w op a b
  cases result : op.define w.bits a.toNat b.toNat with
  | ok n =>
    rw [result] at defined
    obtain ⟨x, -, pushes⟩ := defined
    exact ⟨fun traps => absurd traps (pushes.not_traps e), nofun⟩
  | error e' =>
    rw [result] at defined
    constructor
    · intro traps
      rw [defined.unique traps]
    · intro same
      cases same
      exact defined

/-- Every instruction on integers, executed in any frame and on any store, does what the definition says. -/
theorem integers_as_defined : IntegersAsDefined where
  code := read_code
  eqz w v := by
    have zero : (v == 0) = (v.toNat == 0) := by
      rw [Bool.eq_iff_iff, beq_iff_eq, beq_iff_eq, eq_zero_iff]
    rw [← zero]
    exact pushes_of_exec (exec_eqz v)
  unary w op v := ⟨op.apply v, op.apply_define v, pushes_of_exec (exec_unary op v)⟩
  binary := binary_as_defined
  divideByZero w op a b := (traps_iff w op a b _).trans (op.define_divideByZero ..)
  integerOverflow w op a b := (traps_iff w op a b _).trans (op.define_integerOverflow ..)
  compare w op a b := by
    refine pushes_of_exec fun below => ?_
    rw [append_pair, ← op.apply_define w.bits_pos]
    exact exec_compare op a b below
  wrap v := by
    refine ⟨v.setWidth 32, BitVec.toNat_setWidth 32 v, pushes_of_exec fun below => ?_⟩
    exact bind_ok (popInt_top (w := .w64) v below)
  extend sign v := by
    refine ⟨.ofInt 64 (sign.toInt v), ?_, pushes_of_exec fun below => ?_⟩
    · rw [residue_eq, Signedness.number_toNat (by decide)]
    · exact bind_ok (popInt_top (w := .w32) v below)
  right two other := traps_of_exec (two.exec_right other)
  left two other := by
    refine traps_of_exec fun below => ?_
    rw [append_pair]
    exact two.exec_left other _ below

end Numeric
end Wasm
