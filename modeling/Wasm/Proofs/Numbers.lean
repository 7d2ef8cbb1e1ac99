import Mathlib.Data.Nat.Digits.Defs
import Wasm.Proofs.Leb128

/-! What the readers of numbers do on any bytes. The groups are read up to the first byte that no other one follows. If it
    comes in time and the number is in range, the number is given, and the reader stands behind that byte. Else the reader
    fails, and it tells an input that ends too soon from groups that are too many or too large. -/

namespace Wasm

theorem Decoder.bind_of_ok {ε α β : Type} {r : Decoder ε α} {f : α → Decoder ε β} {data : ByteArray} {pos mid : Nat} {a : α}
    (h : r data pos = .ok a mid) : (r >>= f) data pos = f a data mid := bind_ok h

theorem Decoder.bind_of_error {ε α β : Type} {r : Decoder ε α} {f : α → Decoder ε β} {data : ByteArray} {pos next : Nat}
    {e : ε} (h : r data pos = .error e next) : (r >>= f) data pos = .error e next := bind_error h

namespace Leb128
variable {α : Type} {bits budget shift sum : Nat} {data : ByteArray} {pos : Nat} {b : UInt8} {word : List UInt8}

/-! ### What words denote -/

/-- All bytes of a word but the last one have another one behind them. -/
def Terminated (word : List UInt8) : Prop :=
  ∃ more last, word = more ++ [last] ∧ (∀ b ∈ more, continues b = true) ∧ continues last = false

/-- The sum of the groups of seven bits. -/
def unsignedOf (word : List UInt8) : Nat := Nat.ofDigits 128 (word.map payload)

/-- Bit 6 of the last byte tells the sign. -/
def isNegative (word : List UInt8) : Bool := word.getLast?.any fun last => last.toNat.testBit 6

/-- The sum of the groups, less what one bit more would stand for if the sign is minus. -/
def signedOf (word : List UInt8) : Int :=
  if isNegative word then unsignedOf word - 2 ^ (7 * word.length) else unsignedOf word

theorem terminated_last (h : continues b = false) : Terminated (b :: word) ↔ word = [] := by
  constructor
  · rintro ⟨_ | ⟨c, more⟩, last, same, others, -⟩
    · exact (List.cons.inj same).2
    · obtain ⟨rfl, -⟩ := List.cons.inj same
      have := others b List.mem_cons_self
      rw [h] at this
      cases this
  · rintro rfl
    exact ⟨[], b, rfl, by simp, h⟩

theorem terminated_more (h : continues b = true) : Terminated (b :: word) ↔ Terminated word := by
  constructor
  · rintro ⟨_ | ⟨c, more⟩, last, same, others, closed⟩
    · obtain ⟨rfl, -⟩ := List.cons.inj same
      rw [h] at closed
      cases closed
    · exact ⟨more, last, (List.cons.inj same).2, fun b member => others b (List.mem_cons_of_mem _ member), closed⟩
  · rintro ⟨more, last, rfl, others, closed⟩
    exact ⟨b :: more, last, rfl, List.forall_mem_cons.mpr ⟨h, others⟩, closed⟩

theorem Terminated.ne_nil (h : Terminated word) : word ≠ [] := by
  obtain ⟨more, last, rfl, -⟩ := h
  simp

theorem unsignedOf_cons : unsignedOf (b :: word) = payload b + 128 * unsignedOf word := by
  simp [unsignedOf, Nat.ofDigits_cons]

theorem testBit_sign (b : UInt8) : b.toNat.testBit 6 = true ↔ 64 ≤ payload b := by
  rw [Nat.testBit_eq_decide_div_mod_eq, decide_eq_true_iff, payload]
  omega

theorem signedOf_last : signedOf [b] = lastSigned b := by
  simp [signedOf, isNegative, lastSigned, testBit_sign, unsignedOf]

theorem signedOf_more (some : word ≠ []) : signedOf (b :: word) = payload b + 128 * signedOf word := by
  have sign : isNegative (b :: word) = isNegative word := by
    rw [isNegative, List.getLast?_cons_of_ne_nil some, isNegative]
  have wider : (2 : Int) ^ (7 * (b :: word).length) = 128 * 2 ^ (7 * word.length) := by
    rw [List.length_cons, Nat.mul_succ, pow_add]
    ring
  rw [signedOf, sign, unsignedOf_cons, wider, signedOf]
  split
  · push_cast
    ring
  · push_cast
    rfl

theorem unsigned_iff {n : Nat} : Unsigned n word ↔ Terminated word ∧ unsignedOf word = n := by
  induction word generalizing n with
  | nil => exact ⟨nofun, fun h => absurd rfl h.1.ne_nil⟩
  | cons b word ih =>
    cases closed : continues b with
    | false =>
      rw [unsigned_last closed, terminated_last closed, and_comm]
      refine and_congr_right ?_
      rintro rfl
      simp [unsignedOf]
    | true =>
      rw [unsigned_more closed, terminated_more closed, unsignedOf_cons]
      constructor
      · rintro ⟨m, rfl, groups⟩
        obtain ⟨terminated, rfl⟩ := ih.mp groups
        exact ⟨terminated, rfl⟩
      · rintro ⟨terminated, rfl⟩
        exact ⟨_, rfl, ih.mpr ⟨terminated, rfl⟩⟩

theorem signed_iff {n : Int} : Signed n word ↔ Terminated word ∧ signedOf word = n := by
  induction word generalizing n with
  | nil => exact ⟨nofun, fun h => absurd rfl h.1.ne_nil⟩
  | cons b word ih =>
    cases closed : continues b with
    | false =>
      rw [signed_last closed, terminated_last closed, and_comm]
      refine and_congr_right ?_
      rintro rfl
      rw [signedOf_last]
    | true =>
      rw [signed_more closed, terminated_more closed]
      constructor
      · rintro ⟨m, rfl, groups⟩
        obtain ⟨terminated, rfl⟩ := ih.mp groups
        exact ⟨terminated, signedOf_more terminated.ne_nil⟩
      · rintro ⟨terminated, rfl⟩
        exact ⟨_, (signedOf_more terminated.ne_nil).symm, ih.mpr ⟨terminated, rfl⟩⟩

/-! ### What stands at a position -/

/-- The input ends before a byte that no other one follows, and before there are `limit` bytes. -/
def CutShort (limit : Nat) (data : ByteArray) (pos : Nat) : Prop :=
  data.size - pos < limit ∧ ∀ i (inside : i < data.size), pos ≤ i → continues data[i] = true

/-- There are `limit` bytes, each of which has another one behind it. -/
def Endless (limit : Nat) (data : ByteArray) (pos : Nat) : Prop :=
  ∃ word, word.length = limit ∧ (∀ b ∈ word, continues b = true) ∧ Occurs word data pos

theorem CutShort.next {limit : Nat} (h : CutShort (limit + 1) data pos) (inside : pos < data.size) :
    continues data[pos] = true ∧ CutShort limit data (pos + 1) := by
  refine ⟨h.2 pos inside (Nat.le_refl _), ?_, fun i within above => h.2 i within (Nat.le_of_succ_le above)⟩
  have := h.1
  omega

/-- Groups come to their end in time, or the input ends, or there are too many. -/
theorem word_cases (limit : Nat) (inside : pos ≤ data.size) :
    (∃ word, Terminated word ∧ Occurs word data pos ∧ word.length ≤ limit) ∨ CutShort limit data pos ∨
      Endless limit data pos := by
  induction limit generalizing pos with
  | zero => exact .inr (.inr ⟨[], rfl, by simp, .nil inside⟩)
  | succ limit ih =>
    rcases Nat.eq_or_lt_of_le inside with rfl | inside
    · refine .inr (.inl ⟨?_, fun i within above => absurd within (Nat.not_lt.mpr above)⟩)
      rw [Nat.sub_self]
      exact Nat.succ_pos limit
    have first : Occurs [data[pos]] data pos := Occurs.singleton.mpr ⟨inside, rfl⟩
    cases closed : continues data[pos] with
    | false => exact .inl ⟨_, (terminated_last closed).mpr rfl, first, by simp⟩
    | true =>
      rcases ih inside with ⟨word, terminated, occurs, short⟩ | ⟨left, others⟩ | ⟨word, long, others, occurs⟩
      · exact .inl ⟨data[pos] :: word, (terminated_more closed).mpr terminated, Occurs.cons.mpr ⟨first, occurs⟩,
          Nat.succ_le_succ short⟩
      · refine .inr (.inl ⟨by omega, fun i within above => ?_⟩)
        rcases Nat.eq_or_lt_of_le above with rfl | above
        · exact closed
        · exact others i within above
      · exact .inr (.inr ⟨data[pos] :: word, by simp [long], List.forall_mem_cons.mpr ⟨closed, others⟩,
          Occurs.cons.mpr ⟨first, occurs⟩⟩)

/-! ### The readers -/

/-- A failure that is due to the bytes and not to the end of the input. -/
def IsRefusal (bits : Nat) (e : ReadError) (offset : Nat) : Prop :=
  e = .lebOverflow bits offset ∨ e = .lebTooLong (maxBytes bits) offset

theorem byte_at (h : Occurs (b :: word) data pos) : Reader.byte data pos = .ok b (pos + 1) ∧ Occurs word data (pos + 1) := by
  obtain ⟨first, rest⟩ := Occurs.cons.mp h
  obtain ⟨inside, rfl⟩ := Occurs.singleton.mp first
  exact ⟨Reader.byte_eq_ok.mpr ⟨inside, rfl, rfl⟩, rest⟩

theorem byte_end (h : data.size ≤ pos) : Reader.byte data pos = .error (.unexpectedEnd pos) pos :=
  dif_neg (Nat.not_lt.mpr h)

theorem payload_lt (b : UInt8) : payload b < 128 := Nat.mod_lt _ (by decide)

/-- One group more. -/
theorem sum_lt (small : sum < 2 ^ shift) (b : UInt8) : sum + payload b <<< shift < 2 ^ (shift + 7) := by
  have group : payload b * 2 ^ shift ≤ 127 * 2 ^ shift := Nat.mul_le_mul_right _ (Nat.le_of_lt_succ (payload_lt b))
  rw [Nat.shiftLeft_eq, pow_add]
  omega

/-- Nine groups fit in a register. -/
theorem sum_lt_registerLimit (small : sum < 2 ^ shift) (b : UInt8) (room : shift + 14 ≤ 70) :
    ¬registerLimit ≤ sum + payload b <<< shift := by
  have most : 2 ^ (shift + 7) ≤ registerLimit := by
    rw [registerLimit, Nat.one_shiftLeft]
    exact Nat.pow_le_pow_right (by decide) (by omega)
  exact Nat.not_le.mpr (Nat.lt_of_lt_of_le (sum_lt small b) most)

theorem unsignedFrom_word {n : Nat} (narrow : bits ≤ 64) (groups : Unsigned n word) (occurs : Occurs word data pos)
    (inTime : word.length ≤ budget) (room : shift + 7 * budget ≤ 70) (small : sum < 2 ^ shift) :
    unsignedFrom bits budget shift sum data pos =
      if sum + n * 2 ^ shift < 2 ^ bits then .ok (sum + n * 2 ^ shift) (pos + word.length)
      else .error (.lebOverflow bits (pos + word.length)) (pos + word.length) := by
  have limit : 2 ^ bits ≤ registerLimit := by
    rw [registerLimit, Nat.one_shiftLeft]
    exact Nat.pow_le_pow_right (by decide) narrow
  induction groups generalizing pos budget shift sum with
  | @last b closed =>
    obtain _ | budget := budget
    · simp at inTime
    rw [unsignedFrom, Decoder.bind_of_ok (byte_at occurs).1]
    simp only [closed, Nat.shiftLeft_eq, Nat.one_mul, Bool.false_eq_true, if_false]
    by_cases fits : sum + payload b * 2 ^ shift < 2 ^ bits
    · rw [if_pos fits, if_neg (by omega), if_neg (by omega)]
      rfl
    · rw [if_neg fits, if_pos (Nat.not_lt.mp fits), ite_self]
      rfl
  | @more b n word closed groups ih =>
    obtain _ | budget := budget
    · simp at inTime
    obtain ⟨first, rest⟩ := byte_at occurs
    have some : 0 < word.length := List.length_pos_iff.mpr (unsigned_iff.mp groups).1.ne_nil
    rw [List.length_cons] at inTime
    -- With a group still to follow, there is room in the register for this one.
    have early := sum_lt_registerLimit small b (by omega)
    rw [unsignedFrom, Decoder.bind_of_ok first]
    simp only [closed, if_neg early, if_true]
    rw [ih rest (by omega) (by omega) (sum_lt small b), Nat.shiftLeft_eq]
    have step : sum + payload b * 2 ^ shift + n * 2 ^ (shift + 7) = sum + (payload b + 128 * n) * 2 ^ shift := by ring
    rw [step, List.length_cons, Nat.add_assoc pos, Nat.add_comm 1]

theorem unsignedFrom_cut (cut : CutShort budget data pos) (room : shift + 7 * budget ≤ 70) (small : sum < 2 ^ shift) :
    unsignedFrom bits budget shift sum data pos =
      .error (.unexpectedEnd (max pos data.size)) (max pos data.size) := by
  induction budget generalizing pos shift sum with
  | zero => exact absurd cut.1 (Nat.not_lt_zero _)
  | succ budget ih =>
    rw [unsignedFrom]
    rcases Nat.lt_or_ge pos data.size with inside | outside
    · obtain ⟨closed, later⟩ := cut.next inside
      have left := later.1
      have early := sum_lt_registerLimit small data[pos] (by omega)
      rw [Decoder.bind_of_ok (Reader.byte_eq_ok.mpr ⟨inside, rfl, rfl⟩)]
      simp only [closed, if_neg early, if_true]
      rw [ih later (by omega) (sum_lt small _), Nat.max_eq_right inside, Nat.max_eq_right (Nat.le_of_lt inside)]
    · rw [Decoder.bind_of_error (byte_end outside), Nat.max_eq_left outside]

theorem unsignedFrom_endless (endless : Endless budget data pos) :
    ∃ e next, unsignedFrom bits budget shift sum data pos = .error e next ∧ IsRefusal bits e next := by
  obtain ⟨word, rfl, others, occurs⟩ := endless
  induction word generalizing pos shift sum with
  | nil => exact ⟨_, _, rfl, .inr rfl⟩
  | cons b word ih =>
    obtain ⟨first, rest⟩ := byte_at occurs
    obtain ⟨closed, others⟩ := List.forall_mem_cons.mp others
    rw [List.length_cons, unsignedFrom, Decoder.bind_of_ok first]
    simp only [closed, if_true]
    split
    · exact ⟨_, _, rfl, .inl rfl⟩
    · exact ih others rest

theorem signedFrom_word {n : Int} (groups : Signed n word) (occurs : Occurs word data pos)
    (inTime : word.length ≤ budget) : signedFrom bits budget shift sum data pos =
      if -2 ^ (bits - 1) ≤ sum + n * 2 ^ shift ∧ sum + n * 2 ^ shift < 2 ^ (bits - 1) then
        .ok (sum + n * 2 ^ shift) (pos + word.length)
      else .error (.lebOverflow bits (pos + word.length)) (pos + word.length) := by
  induction groups generalizing pos budget shift sum with
  | @last b closed =>
    obtain _ | budget := budget
    · simp at inTime
    rw [signedFrom, Decoder.bind_of_ok (byte_at occurs).1]
    have value : (if 64 ≤ payload b then ((sum + payload b * 2 ^ shift : Nat) : Int) - (2 ^ (shift + 7) : Nat)
        else (sum + payload b * 2 ^ shift : Nat)) = sum + lastSigned b * 2 ^ shift := by
      unfold lastSigned
      split <;> push_cast <;> ring
    have half : ((2 ^ (bits - 1) : Nat) : Int) = 2 ^ (bits - 1) := by push_cast; rfl
    simp only [closed, Nat.shiftLeft_eq, Nat.one_mul, Bool.false_eq_true, if_false]
    rw [value, half]
    split <;> rfl
  | @more b n word closed groups ih =>
    obtain _ | budget := budget
    · simp at inTime
    obtain ⟨first, rest⟩ := byte_at occurs
    rw [signedFrom, Decoder.bind_of_ok first]
    simp only [closed, if_true]
    have step : ((sum + payload b <<< shift : Nat) : Int) + n * 2 ^ (shift + 7) =
        sum + (payload b + 128 * n) * 2 ^ shift := by
      rw [Nat.shiftLeft_eq]
      push_cast
      ring
    rw [ih rest (Nat.le_of_succ_le_succ inTime), step, List.length_cons, Nat.add_assoc pos, Nat.add_comm 1]

theorem signedFrom_cut (cut : CutShort budget data pos) : signedFrom bits budget shift sum data pos =
      .error (.unexpectedEnd (max pos data.size)) (max pos data.size) := by
  induction budget generalizing pos shift sum with
  | zero => exact absurd cut.1 (Nat.not_lt_zero _)
  | succ budget ih =>
    rw [signedFrom]
    rcases Nat.lt_or_ge pos data.size with inside | outside
    · obtain ⟨closed, later⟩ := cut.next inside
      rw [Decoder.bind_of_ok (Reader.byte_eq_ok.mpr ⟨inside, rfl, rfl⟩)]
      simp only [closed, if_true]
      rw [ih later, Nat.max_eq_right inside, Nat.max_eq_right (Nat.le_of_lt inside)]
    · rw [Decoder.bind_of_error (byte_end outside), Nat.max_eq_left outside]

theorem signedFrom_endless (endless : Endless budget data pos) :
    ∃ e next, signedFrom bits budget shift sum data pos = .error e next ∧ IsRefusal bits e next := by
  obtain ⟨word, rfl, others, occurs⟩ := endless
  induction word generalizing pos shift sum with
  | nil => exact ⟨_, _, rfl, .inr rfl⟩
  | cons b word ih =>
    obtain ⟨first, rest⟩ := byte_at occurs
    obtain ⟨closed, others⟩ := List.forall_mem_cons.mp others
    rw [List.length_cons, signedFrom, Decoder.bind_of_ok first]
    simp only [closed, if_true]
    exact ih others rest

/-! ### Any bytes -/

/-- What a reader of numbers of `bits` bits does at a position, where a word denotes `number word`, and the numbers in
    range are those that `Fits` tells. -/
structure ReadsNumber (r : Reader α) (bits : Nat) (number : List UInt8 → α) (Fits : α → Prop) (data : ByteArray)
    (pos : Nat) : Prop where
  /-- A number is given if a word denotes it that is there and ends in time, and if it is in range. -/
  given : ∀ n next, r data pos = .ok n next ↔ ∃ word, Terminated word ∧ Occurs word data pos ∧
    word.length ≤ maxBytes bits ∧ number word = n ∧ Fits n ∧ next = pos + word.length
  /-- The end of the input is reported if it comes before the word ends and before the word is too long. -/
  cut : ∀ offset next, r data pos = .error (.unexpectedEnd offset) next ↔
    CutShort (maxBytes bits) data pos ∧ offset = max pos data.size ∧ next = max pos data.size
  /-- A number out of range is reported behind its last byte. -/
  unfit : ∀ word, Terminated word → Occurs word data pos → word.length ≤ maxBytes bits → ¬Fits (number word) →
    r data pos = .error (.lebOverflow bits (pos + word.length)) (pos + word.length)
  /-- Any other failure is that of a word that is too large or too long. -/
  refused : ∀ e next, r data pos = .error e next → ¬CutShort (maxBytes bits) data pos → IsRefusal bits e next

/-- The cases are those of `word_cases`. -/
theorem ReadsNumber.of_cases {r : Reader α} {number : List UInt8 → α} {Fits : α → Prop} [DecidablePred Fits]
    (some : 0 < maxBytes bits)
    (ended : ∀ word, Terminated word → Occurs word data pos → word.length ≤ maxBytes bits → r data pos =
      if Fits (number word) then .ok (number word) (pos + word.length)
      else .error (.lebOverflow bits (pos + word.length)) (pos + word.length))
    (short : CutShort (maxBytes bits) data pos →
      r data pos = .error (.unexpectedEnd (max pos data.size)) (max pos data.size))
    (endless : Endless (maxBytes bits) data pos → ∃ e next, r data pos = .error e next ∧ IsRefusal bits e next) :
    ReadsNumber r bits number Fits data pos := by
  -- Behind the end of the input the bytes have run out as well.
  have cases : (∃ word, Terminated word ∧ Occurs word data pos ∧ word.length ≤ maxBytes bits) ∨
      CutShort (maxBytes bits) data pos ∨ Endless (maxBytes bits) data pos := by
    rcases Nat.le_total pos data.size with inside | outside
    · exact word_cases _ inside
    · refine .inr (.inl ⟨?_, fun i within above => absurd (Nat.lt_of_le_of_lt above within) (Nat.not_lt.mpr outside)⟩)
      rwa [Nat.sub_eq_zero_of_le outside]
  constructor
  case given =>
    intro n next
    constructor
    · intro done
      rcases cases with ⟨word, terminated, occurs, inTime⟩ | cut | refused
      · rw [ended word terminated occurs inTime] at done
        split at done <;> cases done
        exact ⟨word, terminated, occurs, inTime, rfl, ‹_›, rfl⟩
      · rw [short cut] at done
        cases done
      · obtain ⟨e, at_, failed, -⟩ := endless refused
        rw [failed] at done
        cases done
    · rintro ⟨word, terminated, occurs, inTime, rfl, fits, rfl⟩
      rw [ended word terminated occurs inTime, if_pos fits]
  case cut =>
    intro offset next
    constructor
    · intro failed
      rcases cases with ⟨word, terminated, occurs, inTime⟩ | cut | refused
      · rw [ended word terminated occurs inTime] at failed
        split at failed <;> cases failed
      · rw [short cut] at failed
        cases failed
        exact ⟨cut, rfl, rfl⟩
      · obtain ⟨e, at_, other, refusal⟩ := endless refused
        rw [other] at failed
        cases failed
        rcases refusal with refusal | refusal <;> cases refusal
    · rintro ⟨cut, rfl, rfl⟩
      exact short cut
  case unfit =>
    intro word terminated occurs inTime unfit
    rw [ended word terminated occurs inTime, if_neg unfit]
  case refused =>
    intro e next failed uncut
    rcases cases with ⟨word, terminated, occurs, inTime⟩ | cut | refused
    · rw [ended word terminated occurs inTime] at failed
      split at failed <;> cases failed
      exact .inl rfl
    · exact absurd cut uncut
    · obtain ⟨e', at_, other, refusal⟩ := endless refused
      rw [other] at failed
      cases failed
      exact refusal

/-- The readers of both widths take just the words that end in time and denote a number in range. -/
theorem numbers_read (w : Width) (data : ByteArray) (pos : Nat) :
    ReadsNumber (unsigned w.bits) w.bits unsignedOf (· < 2 ^ w.bits) data pos ∧
      ReadsNumber (signed w.bits) w.bits signedOf (fun n => -2 ^ (w.bits - 1) ≤ n ∧ n < 2 ^ (w.bits - 1)) data pos := by
  have narrow : w.bits ≤ 64 := by cases w <;> decide
  have room : 0 + 7 * maxBytes w.bits ≤ 70 := by cases w <;> decide
  have some : 0 < maxBytes w.bits := by cases w <;> decide
  constructor
  · refine .of_cases some (fun word terminated occurs inTime => ?_) (unsignedFrom_cut · room Nat.one_pos)
      unsignedFrom_endless
    have read := unsignedFrom_word narrow (unsigned_iff.mpr ⟨terminated, rfl⟩) occurs inTime room Nat.one_pos
    simpa [unsigned] using read
  · refine .of_cases some (fun word terminated occurs inTime => ?_) signedFrom_cut signedFrom_endless
    have read : signedFrom w.bits (maxBytes w.bits) 0 0 data pos = _ :=
      signedFrom_word (signed_iff.mpr ⟨terminated, rfl⟩) occurs inTime
    simpa [signed] using read

/-- The sign may be spelled out up to the last byte that there may be. -/
example : signed 32 ⟨#[0xFF, 0xFF, 0xFF, 0xFF, 0x7F]⟩ 0 = .ok (-1) 5 := rfl

end Leb128
end Wasm
