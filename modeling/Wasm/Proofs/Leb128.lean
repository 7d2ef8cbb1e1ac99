import Wasm.Proofs.Spelling
import Mathlib.Tactic.Ring

/-! Spellings of numbers in groups of seven bits. The readers take just those that end in time and whose number is in
    range; groups that add nothing may follow, as long as the last one comes in time. -/

namespace Wasm
namespace Leb128

/-- The number that groups of seven bits give, of which only the last has none behind it. -/
inductive Unsigned : Nat → List UInt8 → Prop
  | last {b} : continues b = false → Unsigned (payload b) [b]
  | more {b n word} : continues b = true → Unsigned n word → Unsigned (payload b + 128 * n) (b :: word)

/-- The last group of a number with a sign, which its highest bit tells. -/
def lastSigned (b : UInt8) : Int := if 64 ≤ payload b then payload b - 128 else payload b

/-- The number that groups of seven bits give, the last of which tells the sign. -/
inductive Signed : Int → List UInt8 → Prop
  | last {b} : continues b = false → Signed (lastSigned b) [b]
  | more {b n word} : continues b = true → Signed n word → Signed (payload b + 128 * n) (b :: word)

/-- The spellings of a natural number of `bits` bits. -/
structure SpelledUnsigned (bits n : Nat) (word : List UInt8) : Prop where
  groups : Unsigned n word
  inTime : word.length ≤ maxBytes bits
  fits : n < 2 ^ bits

/-- The spellings of an integer of `bits` bits. -/
structure SpelledSigned (bits : Nat) (n : Int) (word : List UInt8) : Prop where
  groups : Signed n word
  inTime : word.length ≤ maxBytes bits
  least : -2 ^ (bits - 1) ≤ n
  fits : n < 2 ^ (bits - 1)

section Groups
variable {b : UInt8} {word : List UInt8}

theorem unsigned_last (h : continues b = false) {n : Nat} : Unsigned n (b :: word) ↔ payload b = n ∧ word = [] := by
  constructor
  · intro groups
    cases groups with
    | last => exact ⟨rfl, rfl⟩
    | more continues => rw [h] at continues; cases continues
  · rintro ⟨rfl, rfl⟩
    exact .last h

theorem unsigned_more (h : continues b = true) {n : Nat} :
    Unsigned n (b :: word) ↔ ∃ m, payload b + 128 * m = n ∧ Unsigned m word := by
  constructor
  · intro groups
    cases groups with
    | last last => rw [h] at last; cases last
    | more _ groups => exact ⟨_, rfl, groups⟩
  · rintro ⟨m, rfl, groups⟩
    exact .more h groups

theorem signed_last (h : continues b = false) {n : Int} : Signed n (b :: word) ↔ lastSigned b = n ∧ word = [] := by
  constructor
  · intro groups
    cases groups with
    | last => exact ⟨rfl, rfl⟩
    | more continues => rw [h] at continues; cases continues
  · rintro ⟨rfl, rfl⟩
    exact .last h

theorem signed_more (h : continues b = true) {n : Int} :
    Signed n (b :: word) ↔ ∃ m, payload b + 128 * m = n ∧ Signed m word := by
  constructor
  · intro groups
    cases groups with
    | last last => rw [h] at last; cases last
    | more _ groups => exact ⟨_, rfl, groups⟩
  · rintro ⟨m, rfl, groups⟩
    exact .more h groups

theorem payload_le {n : Nat} (groups : Unsigned n (b :: word)) : payload b ≤ n := by
  cases groups with
  | last => exact Nat.le_refl _
  | more => exact Nat.le_add_right _ _

end Groups

/-! ### Readers -/

section Readers
variable {α : Type} {L : Spelling α}

theorem overflow_recognizes (bits : Nat) (h : ∀ a word, ¬L a word) : (overflow bits : Reader α).Recognizes L :=
  .fails (fun _ _ _ _ done => by cases done) h

theorem tooLong_recognizes (bits : Nat) (h : ∀ a word, ¬L a word) : (tooLong bits : Reader α).Recognizes L :=
  .fails (fun _ _ _ _ done => by cases done) h

/-- What the groups from bit `shift` on add. -/
theorem unsignedFrom_recognizes {bits : Nat} (narrow : bits ≤ 64) : ∀ budget shift sum,
    (unsignedFrom bits budget shift sum).Recognizes fun total word =>
      ∃ n, Unsigned n word ∧ word.length ≤ budget ∧ sum + n * 2 ^ shift = total ∧ total < 2 ^ bits
  | 0, _, _ => by
    refine tooLong_recognizes bits fun total word ⟨n, groups, short, _⟩ => ?_
    cases groups <;> simp at short
  | budget + 1, shift, sum => by
    have limit : 2 ^ bits ≤ registerLimit := by
      rw [registerLimit, Nat.one_shiftLeft]
      exact Nat.pow_le_pow_right (by decide) narrow
    refine .byte (fun _ ⟨_, groups, _⟩ => nomatch groups) fun b => ?_
    dsimp only
    rw [Nat.shiftLeft_eq, Nat.one_shiftLeft]
    split
    · refine overflow_recognizes bits fun total word ⟨n, groups, _, sums, fits⟩ => ?_
      -- Groups that follow can only add, so that a number that is too large already stays so.
      have := Nat.mul_le_mul_right (2 ^ shift) (payload_le groups)
      omega
    cases closed : continues b
    · rw [if_neg nofun]
      split
      · refine overflow_recognizes bits fun total word ⟨n, groups, _, sums, fits⟩ => ?_
        have := Nat.mul_le_mul_right (2 ^ shift) (payload_le groups)
        omega
      · refine (Decoder.Recognizes.pure _).congr fun total word => ?_
        constructor
        · rintro ⟨n, groups, -, rfl, -⟩
          obtain ⟨rfl, rfl⟩ := (unsigned_last closed).mp groups
          exact ⟨rfl, rfl⟩
        · rintro ⟨rfl, rfl⟩
          exact ⟨_, .last closed, by simp, rfl, by omega⟩
    · rw [if_pos rfl]
      have step (n : Nat) : sum + (payload b + 128 * n) * 2 ^ shift =
          sum + payload b * 2 ^ shift + n * 2 ^ (shift + 7) := by ring
      refine (unsignedFrom_recognizes narrow budget (shift + 7) _).congr fun total word => ?_
      constructor
      · rintro ⟨n, groups, short, rfl, fits⟩
        obtain ⟨m, rfl, above⟩ := (unsigned_more closed).mp groups
        exact ⟨m, above, Nat.le_of_succ_le_succ short, (step m).symm, fits⟩
      · rintro ⟨m, groups, short, rfl, fits⟩
        exact ⟨_, .more closed groups, Nat.succ_le_succ short, step m, fits⟩

theorem unsigned_recognizes {bits : Nat} (narrow : bits ≤ 64) : (unsigned bits).Recognizes (SpelledUnsigned bits) :=
  (unsignedFrom_recognizes narrow _ 0 0).congr fun n word => by
    constructor
    · rintro ⟨groups, inTime, fits⟩
      exact ⟨n, groups, inTime, by simp, fits⟩
    · rintro ⟨n, groups, inTime, rfl, fits⟩
      simp only [pow_zero, mul_one, zero_add] at fits ⊢
      exact ⟨groups, inTime, fits⟩

/-- What the groups from bit `shift` on add. -/
theorem signedFrom_recognizes (bits : Nat) : ∀ budget shift sum,
    (signedFrom bits budget shift sum).Recognizes fun total word =>
      ∃ n, Signed n word ∧ word.length ≤ budget ∧ sum + n * 2 ^ shift = total ∧
        -2 ^ (bits - 1) ≤ total ∧ total < 2 ^ (bits - 1)
  | 0, _, _ => by
    refine tooLong_recognizes bits fun total word ⟨n, groups, short, _⟩ => ?_
    cases groups <;> simp at short
  | budget + 1, shift, sum => by
    refine .byte (fun _ ⟨_, groups, _⟩ => nomatch groups) fun b => ?_
    dsimp only
    rw [Nat.shiftLeft_eq, Nat.one_shiftLeft, Nat.one_shiftLeft]
    cases closed : continues b
    · rw [if_neg nofun]
      -- With the sign bit set, one unit of the next group is taken off.
      have value : (if 64 ≤ payload b then ((sum + payload b * 2 ^ shift : Nat) : Int) - (2 ^ (shift + 7) : Nat)
          else (sum + payload b * 2 ^ shift : Nat)) = sum + lastSigned b * 2 ^ shift := by
        unfold lastSigned
        split <;> push_cast <;> ring
      rw [value]
      have half : ((2 ^ (bits - 1) : Nat) : Int) = 2 ^ (bits - 1) := by push_cast; rfl
      rw [half]
      -- There is just one number and nothing behind it, in range or not.
      have only {total : Int} {word : List UInt8} : (∃ n, Signed n (b :: word) ∧ (b :: word).length ≤ budget + 1 ∧
          sum + n * 2 ^ shift = total ∧ -2 ^ (bits - 1) ≤ total ∧ total < 2 ^ (bits - 1)) ↔
          (sum + lastSigned b * 2 ^ shift = total ∧ word = []) ∧ -2 ^ (bits - 1) ≤ total ∧ total < 2 ^ (bits - 1) := by
        constructor
        · rintro ⟨n, groups, -, rfl, fits⟩
          obtain ⟨rfl, rfl⟩ := (signed_last closed).mp groups
          exact ⟨⟨rfl, rfl⟩, fits⟩
        · rintro ⟨⟨rfl, rfl⟩, fits⟩
          exact ⟨_, .last closed, by simp, rfl, fits⟩
      split
      · rename_i fits
        exact (Decoder.Recognizes.pure _).congr fun total word =>
          only.trans ⟨And.left, fun h => ⟨h, h.1 ▸ fits⟩⟩
      · rename_i unfit
        exact overflow_recognizes bits fun total word h => unfit ((only.mp h).1.1 ▸ (only.mp h).2)
    · rw [if_pos rfl]
      have step (n : Int) : (sum : Int) + (payload b + 128 * n) * 2 ^ shift =
          (sum + payload b * 2 ^ shift : Nat) + n * 2 ^ (shift + 7) := by
        push_cast
        ring
      refine (signedFrom_recognizes bits budget (shift + 7) _).congr fun total word => ?_
      constructor
      · rintro ⟨n, groups, short, rfl, fits⟩
        obtain ⟨m, rfl, above⟩ := (signed_more closed).mp groups
        exact ⟨m, above, Nat.le_of_succ_le_succ short, (step m).symm, fits⟩
      · rintro ⟨m, groups, short, rfl, fits⟩
        exact ⟨_, .more closed groups, Nat.succ_le_succ short, step m, fits⟩

theorem signed_recognizes (bits : Nat) : (signed bits).Recognizes (SpelledSigned bits) :=
  (signedFrom_recognizes bits _ 0 0).congr fun n word => by
    constructor
    · rintro ⟨groups, inTime, least, fits⟩
      exact ⟨n, groups, inTime, by simp, least, fits⟩
    · rintro ⟨n, groups, inTime, rfl, least, fits⟩
      simp only [Nat.cast_zero, pow_zero, mul_one, zero_add] at least fits ⊢
      exact ⟨groups, inTime, least, fits⟩

end Readers
end Leb128
end Wasm
