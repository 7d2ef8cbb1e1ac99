import Mathlib.Algebra.Group.Nat.Defs
import Mathlib.Algebra.Ring.Int.Defs
import Wasm.Numeric.Integer

/-! The integer instructions as they are defined on numbers. The operands are numbers below `2 ^ bits`, an instruction
    with a sign reads them in two's complement, and its result is the number that is left modulo `2 ^ bits`. The
    operations on words come to the same. -/

namespace Wasm

/-! ### The definition -/

/-- The integer that a number of some bits stands for, in two's complement if it has a sign. -/
def Signedness.number (bits n : Nat) : Signedness → Int
  | signed => if n < 2 ^ (bits - 1) then n else n - 2 ^ bits
  | unsigned => n

/-- The number of some bits that an integer leaves modulo `2 ^ bits`. -/
def residue (bits : Nat) (j : Int) : Nat := (j % 2 ^ bits).toNat

/-- The bits of a number, the least significant first. -/
def binary (bits n : Nat) : List Bool := (List.range bits).map n.testBit

/-- The number whose low bits, as many as are told, are read with a sign. -/
def extended (bits low i : Nat) : Nat := residue bits (Signedness.signed.number low (i % 2 ^ low))

/-- The number that an instruction makes of another one. -/
def IntUnary.define (bits i : Nat) : IntUnary → Nat
  | clz => (binary bits i).reverse.idxOf true
  | ctz => (binary bits i).idxOf true
  | popcnt => (binary bits i).count true
  | extend8 => extended bits 8 i
  | extend16 => extended bits 16 i
  | extend32 => extended bits 32 i

/-- The number that an instruction makes of two others, of which the right one is `j`. -/
def IntBinary.define (bits i j : Nat) : IntBinary → Except Trap Nat
  | add => .ok ((i + j) % 2 ^ bits)
  | sub => .ok (residue bits (i - j))
  | mul => .ok (i * j % 2 ^ bits)
  | divS =>
    let x := Signedness.signed.number bits i
    let y := Signedness.signed.number bits j
    if j = 0 then .error .divideByZero
    else if x = -2 ^ (bits - 1) ∧ y = -1 then .error .integerOverflow
    else .ok (residue bits (x.tdiv y))
  | divU => if j = 0 then .error .divideByZero else .ok (i / j)
  | remS =>
    if j = 0 then .error .divideByZero
    else .ok (residue bits ((Signedness.signed.number bits i).tmod (Signedness.signed.number bits j)))
  | remU => if j = 0 then .error .divideByZero else .ok (i % j)
  | and => .ok (i &&& j)
  | or => .ok (i ||| j)
  | xor => .ok (i ^^^ j)
  | shl => .ok (i * 2 ^ (j % bits) % 2 ^ bits)
  | shrS => .ok (residue bits (Signedness.signed.number bits i / 2 ^ (j % bits)))
  | shrU => .ok (i / 2 ^ (j % bits))
  | rotl => .ok (i * 2 ^ (j % bits) % 2 ^ bits + i / 2 ^ (bits - j % bits))
  | rotr => .ok (i / 2 ^ (j % bits) + i * 2 ^ (bits - j % bits) % 2 ^ bits)

/-- Whether the comparison of two numbers holds. -/
def IntCompare.define (bits i j : Nat) : IntCompare → Bool
  | eq => i = j
  | ne => i ≠ j
  | ltS => Signedness.signed.number bits i < Signedness.signed.number bits j
  | ltU => i < j
  | gtS => Signedness.signed.number bits j < Signedness.signed.number bits i
  | gtU => j < i
  | leS => Signedness.signed.number bits i ≤ Signedness.signed.number bits j
  | leU => i ≤ j
  | geS => Signedness.signed.number bits j ≤ Signedness.signed.number bits i
  | geU => j ≤ i

namespace IntBinary

/-- Nothing is defined where the divisor is zero, and for the one quotient that is too large. -/
theorem define_divideByZero (bits i j : Nat) (op : IntBinary) :
    op.define bits i j = .error .divideByZero ↔ op ∈ [.divS, .divU, .remS, .remU] ∧ j = 0 := by
  by_cases zero : j = 0
  · cases op <;> simp [define, zero]
  · cases op with
    | divS =>
      simp only [define, if_neg zero]
      split <;> simp [zero]
    | _ => simp [define, zero]

theorem define_integerOverflow (bits i j : Nat) (op : IntBinary) : op.define bits i j = .error .integerOverflow ↔
    op = .divS ∧ Signedness.signed.number bits i = -2 ^ (bits - 1) ∧ Signedness.signed.number bits j = -1 := by
  by_cases zero : j = 0
  · -- Zero is no negative number, so that the quotient by it is not the one that is too large.
    have number : Signedness.signed.number bits 0 = 0 := if_pos (Nat.two_pow_pos _)
    subst zero
    cases op <;> simp [define, number]
  · cases op with
    | divS =>
      by_cases largest : Signedness.signed.number bits i = -2 ^ (bits - 1) ∧ Signedness.signed.number bits j = -1
      · simp [define, zero, largest]
      · simp only [define, if_neg zero, if_neg largest]
        simp [largest]
    | _ => simp [define, zero]

end IntBinary

variable {n : Nat}

/-! ### Words and the integers they stand for -/

theorem Signedness.number_toNat (positive : 0 < n) (sign : Signedness) (v : BitVec n) :
    sign.number n v.toNat = sign.toInt v := by
  cases sign with
  | unsigned => rfl
  | signed =>
    have half : 2 ^ n = 2 * 2 ^ (n - 1) := by rw [Nat.mul_comm, Nat.two_pow_pred_mul_two positive]
    show (if v.toNat < 2 ^ (n - 1) then _ else _) = v.toInt
    rw [BitVec.toInt_eq_toNat_cond]
    by_cases low : v.toNat < 2 ^ (n - 1)
    · rw [if_pos low, if_pos (by omega)]
    · rw [if_neg low, if_neg (by omega), Int.natCast_pow]
      rfl

theorem number_signed (positive : 0 < n) (v : BitVec n) : Signedness.signed.number n v.toNat = v.toInt :=
  Signedness.number_toNat positive .signed v

theorem residue_eq (bits : Nat) (j : Int) : residue bits j = (BitVec.ofInt bits j).toNat := by
  rw [BitVec.toNat_ofInt, residue, Int.natCast_pow]
  rfl

/-- A word is the residue of an integer that it stands for. -/
theorem toNat_eq_residue {v : BitVec n} {j : Int} (stands : v.toInt = j.bmod (2 ^ n)) : v.toNat = residue n j := by
  rw [residue_eq]
  refine congrArg BitVec.toNat (BitVec.eq_of_toInt_eq ?_)
  rw [stands, BitVec.toInt_ofInt]

theorem toNat_eq_residue_toInt (v : BitVec n) : v.toNat = residue n v.toInt := by
  rw [residue_eq, BitVec.ofInt_toInt]

/-! ### Counting bits -/

theorem length_binary (bits i : Nat) : (binary bits i).length = bits := by
  rw [binary, List.length_map, List.length_range]

theorem getElem_binary {bits i k : Nat} (h : k < (binary bits i).length) : (binary bits i)[k] = i.testBit k := by
  simp only [binary, List.getElem_map, List.getElem_range]

theorem binary_toNat (v : BitVec n) {k : Nat} (h : k < (binary n v.toNat).length) :
    (binary n v.toNat)[k] = v.getLsbD k := by
  rw [getElem_binary, BitVec.testBit_toNat]

theorem binary_reverse (v : BitVec n) : (binary n v.toNat).reverse = binary n v.reverse.toNat := by
  refine List.ext_getElem (by rw [List.length_reverse, length_binary, length_binary]) fun k _ h => ?_
  rw [List.getElem_reverse, binary_toNat, binary_toNat, BitVec.getLsbD_reverse, length_binary, BitVec.getMsbD]
  rw [length_binary] at h
  rw [decide_eq_true h, Bool.true_and]

theorem toNat_ctz (v : BitVec n) : v.ctz.toNat = (binary n v.toNat).idxOf true := by
  by_cases zero : v = 0#n
  · have none : true ∉ binary n v.toNat := by
      simp [binary, zero]
    have all : v.ctz = n := by
      rw [BitVec.ctz, BitVec.clz_eq_iff_eq_zero, BitVec.reverse_eq_zero_iff]
      exact zero
    rw [List.idxOf_eq_length none, length_binary, all]
    simp
  · have inside : v.ctz.toNat < n := BitVec.lt_of_getLsbD (BitVec.getLsbD_true_ctz_of_ne_zero zero)
    have inside' : v.ctz.toNat < (binary n v.toNat).length := by rwa [length_binary]
    symm
    rw [List.idxOf, List.findIdx_eq inside', binary_toNat]
    refine ⟨by rw [BitVec.getLsbD_true_ctz_of_ne_zero zero]; rfl, fun j before => ?_⟩
    rw [binary_toNat, BitVec.getLsbD_false_of_lt_ctz before]
    rfl

theorem toNat_clz (v : BitVec n) : v.clz.toNat = (binary n v.toNat).reverse.idxOf true := by
  rw [BitVec.clz_eq_reverse_ctz, toNat_ctz, binary_reverse]

/-- The induction is on the bits that have been counted. -/
theorem cpopNatRec_eq_count (v : BitVec n) (bits : Nat) :
    v.cpopNatRec bits 0 = (binary bits v.toNat).count true := by
  induction bits with
  | zero => rfl
  | succ bits ih =>
    rw [BitVec.cpopNatRec_succ, BitVec.cpopNatRec_eq, ih, binary, binary, List.range_succ, List.map_append,
      List.count_append, List.map_singleton, BitVec.testBit_toNat]
    cases v.getLsbD bits <;> rfl

theorem toNat_cpop (v : BitVec n) : v.cpop.toNat = (binary n v.toNat).count true := by
  rw [BitVec.toNat_cpop, cpopNatRec_eq_count]

/-! ### The operations on words -/

theorem toNat_signExtend (v : BitVec n) {low : Nat} (positive : 0 < low) :
    ((v.setWidth low).signExtend n).toNat = extended n low v.toNat := by
  rw [extended, ← BitVec.toNat_setWidth, number_signed positive, residue_eq]
  rfl

theorem IntUnary.apply_define (op : IntUnary) (v : BitVec n) : (op.apply v).toNat = op.define n v.toNat := by
  cases op with
  | clz => exact toNat_clz v
  | ctz => exact toNat_ctz v
  | popcnt => exact toNat_cpop v
  | extend8 => exact toNat_signExtend v (by decide)
  | extend16 => exact toNat_signExtend v (by decide)
  | extend32 => exact toNat_signExtend v (by decide)

theorem eq_intMin_iff (positive : 0 < n) (v : BitVec n) : v = BitVec.intMin n ↔ v.toInt = -2 ^ (n - 1) := by
  rw [← BitVec.toInt_inj, BitVec.toInt_intMin_of_pos positive]

theorem eq_neg_one_iff (positive : 0 < n) (v : BitVec n) : v = -1 ↔ v.toInt = -1 := by
  rw [← BitVec.toInt_inj, show (-1 : BitVec n) = BitVec.allOnes n from BitVec.neg_one_eq_allOnes, BitVec.toInt_allOnes,
    if_pos positive]

/-- The bits that are rotated in come where a shift leaves zeros. -/
theorem shiftLeft_or_shiftRight (v : BitVec n) {k : Nat} (within : k ≤ n) :
    v.toNat <<< k % 2 ^ n ||| v.toNat >>> (n - k) = v.toNat * 2 ^ k % 2 ^ n + v.toNat / 2 ^ (n - k) := by
  have low : v.toNat / 2 ^ (n - k) < 2 ^ k := by
    refine Nat.div_lt_of_lt_mul ?_
    rw [← Nat.pow_add, Nat.sub_add_cancel within]
    exact v.isLt
  have high : v.toNat * 2 ^ k % 2 ^ n = 2 ^ k * (v.toNat % 2 ^ (n - k)) := by
    rw [Nat.mul_comm, ← Nat.mul_mod_mul_left, ← Nat.pow_add, Nat.add_sub_cancel' within]
  rw [Nat.shiftLeft_eq, Nat.shiftRight_eq_div_pow, high, Nat.two_pow_add_eq_or_of_lt low]

theorem eq_zero_iff (v : BitVec n) : v = 0 ↔ v.toNat = 0 := BitVec.toNat_eq

theorem unlessZero_define (b result : BitVec n) :
    (unlessZero b result).map BitVec.toNat = if b.toNat = 0 then .error .divideByZero else .ok result.toNat := by
  simp only [unlessZero, eq_zero_iff, apply_ite (Except.map BitVec.toNat)]
  rfl

theorem signedQuotient_define (positive : 0 < n) (a b : BitVec n) :
    (signedQuotient a b).map BitVec.toNat = IntBinary.divS.define n a.toNat b.toNat := by
  simp only [signedQuotient, IntBinary.define, number_signed positive, eq_intMin_iff positive, eq_neg_one_iff positive,
    eq_zero_iff, ← toNat_eq_residue (BitVec.toInt_sdiv a b)]
  by_cases zero : b.toNat = 0
  · rw [if_pos zero, if_pos zero]
    rfl
  · rw [if_neg zero, if_neg zero, apply_ite (Except.map BitVec.toNat)]
    rfl

theorem IntBinary.apply_define (positive : 0 < n) (op : IntBinary) (a b : BitVec n) :
    (op.apply a b).map BitVec.toNat = op.define n a.toNat b.toNat := by
  have count : b.toNat % n < n := Nat.mod_lt _ positive
  cases op with
  | add => exact congrArg Except.ok (BitVec.toNat_add a b)
  | sub =>
    refine congrArg Except.ok (toNat_eq_residue ?_)
    rw [BitVec.toInt_sub, BitVec.toInt_eq_toNat_bmod, BitVec.toInt_eq_toNat_bmod, Int.bmod_sub_bmod, Int.sub_bmod_bmod]
  | mul => exact congrArg Except.ok (BitVec.toNat_mul a b)
  | divS => exact signedQuotient_define positive a b
  | divU => exact unlessZero_define b (a / b)
  | remS =>
    refine (unlessZero_define b (a.srem b)).trans ?_
    rw [IntBinary.define, number_signed positive, number_signed positive, ← BitVec.toInt_srem, ← toNat_eq_residue_toInt]
  | remU => exact unlessZero_define b (a % b)
  | and => exact congrArg Except.ok (BitVec.toNat_and a b)
  | or => exact congrArg Except.ok (BitVec.toNat_or a b)
  | xor => exact congrArg Except.ok (BitVec.toNat_xor a b)
  | shl =>
    refine congrArg Except.ok ?_
    rw [BitVec.toNat_shiftLeft, Nat.shiftLeft_eq]
  | shrS =>
    refine congrArg Except.ok ?_
    rw [toNat_eq_residue_toInt, BitVec.toInt_sshiftRight, Int.shiftRight_eq_div_pow, number_signed positive,
      Int.natCast_pow]
    rfl
  | shrU =>
    refine congrArg Except.ok ?_
    rw [BitVec.toNat_ushiftRight, Nat.shiftRight_eq_div_pow]
  | rotl =>
    refine congrArg Except.ok ?_
    rw [BitVec.toNat_rotateLeft, Nat.mod_mod, shiftLeft_or_shiftRight a (Nat.le_of_lt count)]
  | rotr =>
    refine congrArg Except.ok ?_
    have within : n - b.toNat % n ≤ n := Nat.sub_le ..
    rw [BitVec.toNat_rotateRight, Nat.mod_mod, Nat.or_comm, Nat.add_comm]
    -- Rotating to the right is rotating to the left by what is missing to the whole width.
    have both := shiftLeft_or_shiftRight a within
    rwa [Nat.sub_sub_self (Nat.le_of_lt count)] at both

/-- The high bits of a count do not matter, and the remainder is zero where the quotient is too large. -/
example : IntBinary.shl.define 64 3 0xFFFFFFFFFFFFFFC1 = .ok 6 ∧
    IntBinary.remS.define 32 0x80000000 0xFFFFFFFF = .ok 0 := ⟨rfl, rfl⟩

theorem IntCompare.apply_define (positive : 0 < n) (op : IntCompare) (a b : BitVec n) :
    op.apply a b = op.define n a.toNat b.toNat := by
  rw [Bool.eq_iff_iff]
  cases op <;> simp only [apply, define, number_signed positive, beq_iff_eq, bne_iff_ne, ne_eq, BitVec.toNat_eq,
    BitVec.slt_iff_toInt_lt, BitVec.ult_iff_lt, BitVec.sle_iff_toInt_le, BitVec.ule_iff_le, BitVec.lt_def, BitVec.le_def,
    decide_eq_true_iff]

end Wasm
