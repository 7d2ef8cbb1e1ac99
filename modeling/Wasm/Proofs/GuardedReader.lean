import Wasm.Proofs.Guarded
import Wasm.Proofs.Leb128

/-! Readers under guard: cursors over their input, LEB128 in registers of 64 bits, and all that is read by them. None
    comes to a fault, on whatever input, and errors are told at offsets in the input. -/

namespace Wasm

/-- A reader under guard. -/
def GuardedDecoder (ε α : Type) : Type := ByteArray → Guarded ε Nat α

/-- A reader of the binary format under guard. -/
abbrev GuardedReader : Type → Type := GuardedDecoder ReadError

namespace GuardedDecoder
variable {ε : Type}

instance : Monad (GuardedDecoder ε) where
  pure a := fun _ => pure a
  bind r k := fun data => r data >>= fun a => k a data

instance : MonadLift (Decoder ε) (GuardedDecoder ε) := ⟨fun r data => liftM (r data)⟩

instance : MonadLift Checked (GuardedDecoder ε) := ⟨fun c _ => liftM c⟩

end GuardedDecoder

/-! ### Readers and LEB128 under guard -/

namespace Reader
variable {α : Type}

def byte! : GuardedReader UInt8 := fun data pos =>
  if h : pos < data.size then do
    let next ← Checked.add 64 pos 1
    return .ok data[pos] next
  else return .error (.unexpectedEnd pos) pos

def bytes! (n : Nat) : GuardedReader ByteArray := fun data pos =>
  if addressLimit ≤ pos + n then return .error (.malformed .positionOverflow pos) pos
  else if pos + n ≤ data.size then do
    let part ← Checked.sliceBytes data pos (pos + n)
    return .ok part (pos + n)
  else return .error (.unexpectedEnd pos) pos

def skip! (n : Nat) : GuardedReader Unit := do
  let _ ← bytes! n
  return

/-- The bytes are copied to an array of `n`. -/
def fixed! (n : Nat) : GuardedReader Nat := do
  let part ← bytes! n
  Checked.require (part.size = n)
  return littleEndian part

def ascii! (n : Nat) : GuardedReader String := do
  let start ← position
  let part ← bytes! n
  if part.data.all (· < 128) then return String.ofList (part.data.toList.map fun b => Char.ofNat b.toNat)
  else (throw (.invalidUtf8 start) : Reader String)

def items! (item : GuardedReader α) : Nat → Array α → GuardedReader (Array α)
  | 0, done => pure done
  | n + 1, done => do items! item n (done.push (← item))

end Reader

/-- The same error further on, at an offset that has to fit. -/
def ReadError.shift! (base : Nat) (e : ReadError) : Checked ReadError := do
  let _ ← Checked.add 64 e.offset base
  return e.shift base

namespace Leb128

/-- The groups so far are in a register. A group that loses bits where it is shifted to does not fit. -/
def unsignedFrom! (bits : Nat) : (budget shift : Nat) → (result : BitVec 64) → GuardedReader Nat
  | 0, _, _ => (tooLong bits : Reader Nat)
  | budget + 1, shift, result => do
    let b ← Reader.byte!
    let low := BitVec.ofNat 64 (payload b)
    if 64 ≤ shift then (overflow bits : Reader Nat)
    else
      let moved ← Checked.shiftLeft low shift
      let back ← Checked.shiftRight moved shift
      if back ≠ low then (overflow bits : Reader Nat)
      else if continues b then
        let shift ← Checked.add 32 shift 7
        unsignedFrom! bits budget shift (result ||| moved)
      else if 64 ≤ bits then return (result ||| moved).toNat
      else
        let beyond ← Checked.shiftRight (result ||| moved) bits
        if beyond ≠ 0 then (overflow bits : Reader Nat) else return (result ||| moved).toNat

/-- Puts a group in its place in a register, if it has one there. -/
def place! (p : Prop) [Decidable p] (result group : BitVec 64) (shift : Nat) : Checked (BitVec 64) :=
  if p then do
    let moved ← Checked.shiftLeft group shift
    return result ||| moved
  else return result

/-- The last group of a signed number: its second highest bit fills the register from `shift` on. -/
def signedLast! (bits shift payload : Nat) (result : BitVec 64) : GuardedReader Int := do
  let result ← place! (64 ≤ payload ∧ shift < 64) result (~~~0) shift
  if bits < 64 then
    let top ← Checked.sub bits 1
    let half ← Checked.shiftLeft (1 : BitVec 64) top
    let least ← Checked.signed 64 (-half.toInt)
    let greatest ← Checked.signed 64 (half.toInt - 1)
    if result.toInt < least ∨ greatest < result.toInt then (overflow bits : Reader Int) else return result.toInt
  else if 64 < shift ∧ payload ≠ 0 ∧ payload ≠ 0x7F then (overflow bits : Reader Int)
  else return result.toInt

/-- The groups so far are in a register, as far as it goes. -/
def signedFrom! (bits : Nat) : (budget shift : Nat) → (result : BitVec 64) → GuardedReader Int
  | 0, _, _ => (tooLong bits : Reader Int)
  | budget + 1, shift, result => do
    let b ← Reader.byte!
    let low := BitVec.ofNat 64 (payload b)
    let result ← place! (shift < 64) result low shift
    let shift ← Checked.add 32 shift 7
    if continues b then signedFrom! bits budget shift result else signedLast! bits shift (payload b) result

def unsigned! (bits : Nat) : GuardedReader Nat := unsignedFrom! bits (maxBytes bits) 0 0

def signed! (bits : Nat) : GuardedReader Int := signedFrom! bits (maxBytes bits) 0 0

end Leb128

/-! ### What is read through them -/

/-- Under guard, the reader of an input does what it does without. It stays in the input, and its errors have `E`. -/
def Decoder.Faithful {ε α : Type} (data : ByteArray) (E : ε → Prop) (g : GuardedDecoder ε α) (r : Decoder ε α) : Prop :=
  ∀ pos ≤ data.size, g data pos = .ok (r data pos) ∧ match r data pos with
    | .ok _ next => next ≤ data.size
    | .error e last => E e ∧ last ≤ data.size

/-- The errors are told at offsets in the input. -/
abbrev Reader.Faithful {α : Type} (data : ByteArray) (g : GuardedReader α) (r : Reader α) : Prop :=
  Decoder.Faithful data (fun e => e.offset ≤ data.size) g r

theorem Decoder.map_eq_bind {ε α β : Type} (f : α → β) (r : Decoder ε α) : f <$> r = r >>= fun a => pure (f a) := by
  funext data
  exact map_eq_pure_bind f (r data)

namespace Decoder.Faithful
variable {ε α β : Type} {data : ByteArray} {E : ε → Prop} {g : GuardedDecoder ε α} {r : Decoder ε α}

theorem of_ok {pos : Nat} (h : Faithful data E g r) (inside : pos ≤ data.size) {a : α} {next : Nat}
    (done : r data pos = .ok a next) : g data pos = .ok (.ok a next) ∧ next ≤ data.size := by
  have := h pos inside
  rwa [done] at this

theorem of_error {pos : Nat} (h : Faithful data E g r) (inside : pos ≤ data.size) {e : ε} {last : Nat}
    (failed : r data pos = .error e last) : g data pos = .ok (.error e last) ∧ E e ∧ last ≤ data.size := by
  have := h pos inside
  rwa [failed] at this

theorem pure (a : α) : Faithful data E (Pure.pure a) (Pure.pure a : Decoder ε α) := fun _ inside => ⟨rfl, inside⟩

theorem throw {e : ε} (h : E e) : Faithful data E (liftM (MonadExcept.throw e : Decoder ε α)) (MonadExcept.throw e) :=
  fun _ inside => ⟨rfl, h, inside⟩

/-- What was read first may be used of what is read next. -/
theorem bind_of {k! : α → GuardedDecoder ε β} {k : α → Decoder ε β} (h : Faithful data E g r)
    (hk : ∀ a pos next, pos ≤ data.size → r data pos = .ok a next → Faithful data E (k! a) (k a)) :
    Faithful data E (g >>= k!) (r >>= k) := by
  intro pos inside
  show Guarded.bind (g data) (fun a => k! a data) pos = _ ∧ _
  unfold Guarded.bind
  cases ran : r data pos with
  | ok a next =>
    obtain ⟨same, inside'⟩ := h.of_ok inside ran
    rw [same, show (r >>= k) data pos = k a data next from bind_ok ran]
    exact hk a pos next inside ran next inside'
  | error e last =>
    obtain ⟨same, right, inside'⟩ := h.of_error inside ran
    rw [same, show (r >>= k) data pos = .error e last from bind_error ran]
    exact ⟨rfl, right, inside'⟩

theorem bind {k! : α → GuardedDecoder ε β} {k : α → Decoder ε β} (h : Faithful data E g r)
    (hk : ∀ a, Faithful data E (k! a) (k a)) : Faithful data E (g >>= k!) (r >>= k) :=
  h.bind_of fun a _ _ _ _ => hk a

theorem map {f : α → β} (h : Faithful data E g r) : Faithful data E (g >>= fun a => Pure.pure (f a)) (f <$> r) := by
  rw [map_eq_bind]
  exact h.bind fun _ => .pure _

/-- What is read first is not used. -/
theorem discard_bind {k! : α → GuardedDecoder ε β} {r' : Decoder ε β} (h : Faithful data E g r)
    (hk : ∀ a, Faithful data E (k! a) r') : Faithful data E (g >>= k!) (Functor.discard r >>= fun _ => r') := by
  have same : (Functor.discard r >>= fun _ => r') = r >>= fun _ => r' := by
    show (_ <$> r) >>= _ = _
    rw [map_eq_bind, bind_assoc]
    rfl
  rw [same]
  exact h.bind hk

/-- Reading is an operation on the position, which stays in the input. -/
theorem guards (h : Faithful data E g r) : Guards (· ≤ data.size) (g data) (r data) := by
  intro pos inside
  obtain ⟨same, after⟩ := h pos inside
  refine .of_faultless (.of_eq same) ?_
  unfold stateAfter
  cases ran : r data pos with
  | ok a next =>
    rw [ran] at after
    exact after
  | error e last =>
    rw [ran] at after
    exact after.2

/-- A step on the way that is no fault. -/
theorem check {c : Checked α} {a : α} (h : c = .ok a) {k! : α → GuardedDecoder ε β} {r : Decoder ε β}
    (hk : Faithful data E (k! a) r) : Faithful data E (liftM c >>= k!) r := by
  subst h
  exact hk

end Decoder.Faithful

namespace Reader
open Decoder
variable {α β : Type} {data : ByteArray}

/-- The position may be told in an error later on. -/
theorem position_faithful {k! : Nat → GuardedReader β} {k : Nat → Reader β}
    (hk : ∀ first ≤ data.size, Faithful data (k! first) (k first)) :
    Faithful data (liftM position >>= k!) (position >>= k) := by
  refine Decoder.Faithful.bind_of (fun pos inside => ⟨rfl, inside⟩) fun first pos next inside read => ?_
  cases read
  exact hk _ inside

theorem remaining_faithful : Faithful data (liftM remaining) remaining := fun _ inside => ⟨rfl, inside⟩

theorem reject_faithful {rule : FormatRule} {offset : Nat} (h : offset ≤ data.size) :
    Faithful data (liftM (reject rule offset : Reader α)) (reject rule offset) := Decoder.Faithful.throw h

theorem peek_faithful : Faithful data (liftM peek) peek := by
  refine fun pos inside => ⟨rfl, ?_⟩
  unfold peek
  split <;> rename_i read
  · split at read <;> cases read
    exact inside
  · split at read <;> cases read
    exact ⟨inside, inside⟩

variable (small : data.size < allocationLimit)
include small

theorem byte_faithful : Faithful data byte! byte := by
  intro pos inside
  unfold byte! byte
  by_cases h : pos < data.size
  · rw [dif_pos h, dif_pos h, Checked.add_ok (by unfold allocationLimit at small; omega)]
    exact ⟨rfl, h⟩
  · rw [dif_neg h, dif_neg h]
    exact ⟨rfl, inside, inside⟩

omit small in
theorem bytes_faithful (n : Nat) : Faithful data (bytes! n) (bytes n) := by
  intro pos inside
  unfold bytes! bytes peekBytes
  by_cases wide : addressLimit ≤ pos + n
  · rw [if_pos wide, if_pos wide]
    exact ⟨rfl, inside, inside⟩
  · rw [if_neg wide, if_neg wide]
    by_cases fits : pos + n ≤ data.size
    · rw [if_pos fits, if_pos fits, Checked.sliceBytes_ok ⟨Nat.le_add_right .., fits⟩]
      exact ⟨rfl, fits⟩
    · rw [if_neg fits, if_neg fits]
      exact ⟨rfl, inside, inside⟩

omit small in
theorem skip_faithful (n : Nat) : Faithful data (skip! n) (skip n) := (bytes_faithful n).map

end Reader

namespace Leb128
open Reader

/-! ### Registers -/

/-- A number that is added from a bit on where the register ends before has no bits below that. -/
theorem fits_above {k p sum : Nat} (hk : k ≤ 64) (low : sum < 2 ^ k) : sum + p * 2 ^ k < 2 ^ 64 ↔ p * 2 ^ k < 2 ^ 64 := by
  refine ⟨fun h => Nat.lt_of_le_of_lt (Nat.le_add_left ..) h, fun h => ?_⟩
  have split : 2 ^ 64 = 2 ^ (64 - k) * 2 ^ k := by rw [← Nat.pow_add, Nat.sub_add_cancel hk]
  rw [split] at h ⊢
  have next : (p + 1) * 2 ^ k ≤ 2 ^ (64 - k) * 2 ^ k :=
    Nat.mul_le_mul_right _ (Nat.lt_of_mul_lt_mul_right h)
  rw [Nat.succ_mul] at next
  omega

/-- Nothing is lost when a group is shifted if and only if it fits where it is shifted to. -/
theorem shifted_back {k p : Nat} (hk : k < 64) (hp : p < 2 ^ 64) :
    (BitVec.ofNat 64 p <<< k) >>> k = BitVec.ofNat 64 p ↔ p * 2 ^ k < 2 ^ 64 := by
  rw [← BitVec.toNat_inj, BitVec.toNat_ushiftRight, BitVec.toNat_shiftLeft, BitVec.toNat_ofNat, Nat.mod_eq_of_lt hp,
    Nat.shiftLeft_eq, Nat.shiftRight_eq_div_pow]
  constructor
  · intro same
    by_contra beyond
    have small : p * 2 ^ k % 2 ^ 64 / 2 ^ k < 2 ^ (64 - k) := by
      rw [Nat.div_lt_iff_lt_mul (Nat.two_pow_pos k), ← Nat.pow_add, Nat.sub_add_cancel (Nat.le_of_lt hk)]
      exact Nat.mod_lt _ (Nat.two_pow_pos 64)
    rw [same] at small
    have : p * 2 ^ k < 2 ^ (64 - k) * 2 ^ k := Nat.mul_lt_mul_of_pos_right small (Nat.two_pow_pos k)
    rw [← Nat.pow_add, Nat.sub_add_cancel (Nat.le_of_lt hk)] at this
    exact beyond this
  · intro fits
    rw [Nat.mod_eq_of_lt fits, Nat.mul_div_cancel _ (Nat.two_pow_pos k)]

/-- Groups in one register are a sum. -/
theorem toNat_or_shiftLeft {k p : Nat} {result : BitVec 64} (low : result.toNat < 2 ^ k) (fits : p * 2 ^ k < 2 ^ 64) :
    (result ||| BitVec.ofNat 64 p <<< k).toNat = result.toNat + p * 2 ^ k := by
  have hp : p < 2 ^ 64 := Nat.lt_of_le_of_lt (Nat.le_mul_of_pos_right _ (Nat.two_pow_pos k)) fits
  rw [BitVec.toNat_or, BitVec.toNat_shiftLeft, BitVec.toNat_ofNat, Nat.mod_eq_of_lt hp, Nat.shiftLeft_eq,
    Nat.mod_eq_of_lt fits, ← Nat.shiftLeft_eq, Nat.or_comm, ← Nat.shiftLeft_add_eq_or_of_lt low, Nat.shiftLeft_eq]
  omega

/-- All bits from one on stand for a number below zero. -/
theorem toInt_or_filled {k : Nat} {result : BitVec 64} (hk : k < 64) (low : result.toNat < 2 ^ k) :
    (result ||| (~~~0 : BitVec 64) <<< k).toInt = result.toNat - (2 ^ k : Nat) := by
  have split : 2 ^ 64 = 2 ^ (64 - k) * 2 ^ k := by rw [← Nat.pow_add, Nat.sub_add_cancel (Nat.le_of_lt hk)]
  have half : 2 ^ k ≤ 2 ^ 63 := Nat.pow_le_pow_right (by decide) (by omega)
  have top : (2 ^ (64 - k) - 1) * 2 ^ k = 2 ^ 64 - 2 ^ k := by rw [Nat.sub_mul, ← split, Nat.one_mul]
  have same : (~~~0 : BitVec 64) <<< k = BitVec.ofNat 64 (2 ^ (64 - k) - 1) <<< k := by
    apply BitVec.eq_of_getLsbD_eq
    intro i hi
    rw [BitVec.getLsbD_shiftLeft, BitVec.getLsbD_shiftLeft, BitVec.getLsbD_not, BitVec.getLsbD_ofNat,
      Nat.testBit_two_pow_sub_one]
    by_cases below : i < k
    · simp [below]
    · have : i - k < 64 := by omega
      have : i - k < 64 - k := by omega
      simp [*]
  have positive := Nat.two_pow_pos k
  have sum := toNat_or_shiftLeft low (p := 2 ^ (64 - k) - 1) (by omega)
  rw [same, BitVec.toInt_eq_toNat_cond, sum, top]
  rw [if_neg (by omega)]
  omega

variable {data : ByteArray}

theorem overflow_faithful {α : Type} (bits : Nat) : Faithful data (liftM (overflow bits : Reader α)) (overflow bits) :=
  fun _ inside => ⟨rfl, inside, inside⟩

theorem tooLong_faithful {α : Type} (bits : Nat) : Faithful data (liftM (tooLong bits : Reader α)) (tooLong bits) :=
  fun _ inside => ⟨rfl, inside, inside⟩

variable (small : data.size < allocationLimit)
include small

/-- Shifts stay within the register, because there are never more groups to come than may lie in it. -/
theorem unsignedFrom_faithful (bits : Nat) {budget shift sum : Nat} {result : BitVec 64} (room : shift + 7 * budget ≤ 70)
    (held : 0 < budget → result.toNat = sum) (low : sum < 2 ^ shift) :
    Faithful data (unsignedFrom! bits budget shift result) (unsignedFrom bits budget shift sum) := by
  induction budget generalizing shift sum result with
  | zero => exact tooLong_faithful bits
  | succ budget ih =>
    obtain rfl := held (Nat.succ_pos _)
    refine Decoder.Faithful.bind (byte_faithful small) fun b => ?_
    have inside : shift < 64 := by omega
    have seven : payload b < 128 := Nat.mod_lt _ (by decide)
    dsimp only
    rw [if_neg (by omega), Nat.shiftLeft_eq]
    refine Decoder.Faithful.check (Checked.shiftLeft_ok inside) (Decoder.Faithful.check (Checked.shiftRight_ok inside) ?_)
    -- The register keeps the group just if shifting it back gives the group again.
    have back := shifted_back inside (p := payload b) (by omega)
    have above := fits_above (p := payload b) (Nat.le_of_lt inside) low
    have limit : registerLimit = 2 ^ 64 := by decide
    by_cases fits : payload b * 2 ^ shift < 2 ^ 64
    · have sum := toNat_or_shiftLeft low fits
      have below := above.mpr fits
      have room : ¬registerLimit ≤ result.toNat + payload b * 2 ^ shift := by omega
      rw [if_neg (not_not.mpr (back.mpr fits)), if_neg room]
      by_cases more : continues b = true
      · rw [if_pos more, if_pos more]
        refine Decoder.Faithful.check (Checked.add_ok (by omega)) (ih (by omega) (fun _ => sum) ?_)
        rw [Nat.pow_add]
        have : payload b * 2 ^ shift ≤ 127 * 2 ^ shift := Nat.mul_le_mul_right _ (by omega)
        omega
      · rw [if_neg more, if_neg more]
        -- With 64 bits there is nothing left to test, and the register cannot be shifted by so many.
        by_cases wide : 64 ≤ bits
        · have : (2 : Nat) ^ 64 ≤ 2 ^ bits := Nat.pow_le_pow_right (by decide) wide
          rw [if_pos wide, if_neg (by rw [Nat.shiftLeft_eq]; omega), sum]
          exact .pure _
        · rw [if_neg wide]
          refine Decoder.Faithful.check (Checked.shiftRight_ok (by omega)) ?_
          -- What is left of the register behind the bits of the type tells whether the number is too large.
          have beyond : (result ||| BitVec.ofNat 64 (payload b) <<< shift) >>> bits = 0 ↔
              result.toNat + payload b * 2 ^ shift < 2 ^ bits := by
            rw [← BitVec.toNat_inj, BitVec.toNat_ushiftRight, sum, Nat.shiftRight_eq_div_pow]
            exact Nat.div_eq_zero_iff.trans (or_iff_right (Nat.two_pow_pos bits).ne')
          by_cases done : result.toNat + payload b * 2 ^ shift < 2 ^ bits
          · rw [if_neg (not_not.mpr (beyond.mpr done)), if_neg (by rw [Nat.shiftLeft_eq]; omega), sum]
            exact .pure _
          · rw [if_pos (mt beyond.mp done), if_pos (by rw [Nat.shiftLeft_eq]; omega)]
            exact overflow_faithful bits
    · have beyond : registerLimit ≤ result.toNat + payload b * 2 ^ shift := by omega
      rw [if_pos (mt back.mp fits), if_pos beyond]
      exact overflow_faithful bits

omit small in
theorem place!_ok {p : Prop} [Decidable p] {result group : BitVec 64} {shift : Nat} (h : p → shift < 64) :
    place! p result group shift = .ok (if p then result ||| group <<< shift else result) := by
  unfold place!
  split
  · rw [Checked.shiftLeft_ok (h ‹_›)]
    rfl
  · rfl

omit small in
/-- Where the register has bits left, it holds the number with its sign. -/
theorem signedLast_faithful {bits shift p : Nat} {result : BitVec 64} (width : bits = 32 ∨ bits = 64)
    (inside : shift < 64) (low : result.toNat < 2 ^ shift) :
    Faithful data (signedLast! bits shift p result)
      (let value : Int := if 64 ≤ p then result.toNat - (2 ^ shift : Nat) else result.toNat
       if -(2 ^ (bits - 1) : Nat) ≤ value ∧ value < (2 ^ (bits - 1) : Nat) then pure value else overflow bits) := by
  have half : 2 ^ shift ≤ 2 ^ 63 := Nat.pow_le_pow_right (by decide) (by omega)
  have held : (if 64 ≤ p ∧ shift < 64 then result ||| (~~~0 : BitVec 64) <<< shift else result).toInt =
      if 64 ≤ p then (result.toNat : Int) - (2 ^ shift : Nat) else result.toNat := by
    by_cases negative : 64 ≤ p
    · rw [if_pos ⟨negative, inside⟩, if_pos negative, toInt_or_filled inside low]
    · rw [if_neg (fun h => negative h.1), if_neg negative, BitVec.toInt_eq_toNat_cond, if_pos (by omega)]
  unfold signedLast!
  refine Decoder.Faithful.check (place!_ok fun h => h.2) ?_
  rw [held]
  generalize value : (if 64 ≤ p then (result.toNat : Int) - (2 ^ shift : Nat) else result.toNat) = v
  rcases width with rfl | rfl
  · rw [if_pos (by decide)]
    refine Decoder.Faithful.check (a := 31) rfl (Decoder.Faithful.check (a := 2147483648) rfl
      (Decoder.Faithful.check (a := -2147483648) (by decide) (Decoder.Faithful.check (a := 2147483647) (by decide) ?_)))
    by_cases fits : -(2 ^ 31 : Nat) ≤ v ∧ v < (2 ^ 31 : Nat)
    · rw [if_neg (by omega), if_pos fits]
      exact .pure _
    · rw [if_pos (by omega), if_neg fits]
      exact overflow_faithful 32
  -- The register itself is as wide as the type, so that every number in it is in range.
  · have fits : -(2 ^ 63 : Nat) ≤ v ∧ v < (2 ^ 63 : Nat) := by
      split at value <;> omega
    rw [if_neg (by decide), if_neg (by omega), if_pos fits]
    exact .pure _

omit small in
/-- The tenth byte has one bit left in the register, and the others have to be the same. -/
theorem signedLast_faithful_top {p : Nat} {result : BitVec 64} (hp : p < 128) (low : result.toNat < 2 ^ 63) :
    Faithful data (signedLast! 64 70 p (result ||| BitVec.ofNat 64 p <<< 63))
      (let value : Int :=
         if 64 ≤ p then (result.toNat + p * 2 ^ 63 : Nat) - (2 ^ 70 : Nat) else (result.toNat + p * 2 ^ 63 : Nat)
       if -(2 ^ 63 : Nat) ≤ value ∧ value < (2 ^ 63 : Nat) then pure value else overflow 64) := by
  have unfilled : ¬(64 ≤ p ∧ 70 < 64) := by omega
  unfold signedLast!
  refine Decoder.Faithful.check (place!_ok fun h => h.2) ?_
  rw [if_neg unfilled, if_neg (Nat.lt_irrefl 64)]
  dsimp only
  generalize value : (if 64 ≤ p then ((result.toNat + p * 2 ^ 63 : Nat) : Int) - (2 ^ 70 : Nat)
    else (result.toNat + p * 2 ^ 63 : Nat)) = v
  have held : p = 0 ∨ p = 127 → (result ||| BitVec.ofNat 64 p <<< 63).toInt = v := by
    rintro (rfl | rfl)
    · rw [BitVec.toInt_eq_toNat_cond, toNat_or_shiftLeft low (by decide), if_pos (by omega), ← value, if_neg (by decide)]
    · have same : BitVec.ofNat 64 127 <<< 63 = BitVec.ofNat 64 1 <<< 63 := by decide
      rw [same, BitVec.toInt_eq_toNat_cond, toNat_or_shiftLeft low (by decide), if_neg (by omega), ← value, if_pos (by decide)]
      omega
  by_cases same : p = 0 ∨ p = 127
  · have fits : -(2 ^ 63 : Nat) ≤ v ∧ v < (2 ^ 63 : Nat) := by
      split at value <;> omega
    rw [if_neg (by omega), held same, if_pos fits]
    exact .pure _
  · have beyond : ¬(-(2 ^ 63 : Nat) ≤ v ∧ v < (2 ^ 63 : Nat)) := by
      split at value <;> omega
    rw [if_pos (by omega), if_neg beyond]
    exact overflow_faithful 64

/-- Shifts stay within the register here, too, since there are as many groups to come as it takes to fill it. -/
theorem signedFrom_faithful {bits : Nat} (width : bits = 32 ∨ bits = 64) {budget shift sum : Nat} {result : BitVec 64}
    (room : shift + 7 * budget = 7 * maxBytes bits) (held : 0 < budget → result.toNat = sum) (low : sum < 2 ^ shift) :
    Faithful data (signedFrom! bits budget shift result) (signedFrom bits budget shift sum) := by
  have most : maxBytes bits ≤ 10 := by rcases width with rfl | rfl <;> decide
  induction budget generalizing shift sum result with
  | zero => exact tooLong_faithful bits
  | succ budget ih =>
    obtain rfl := held (Nat.succ_pos _)
    refine Decoder.Faithful.bind (byte_faithful small) fun b => ?_
    have seven : payload b < 128 := Nat.mod_lt _ (by decide)
    have inside : shift < 64 := by omega
    have more : payload b * 2 ^ shift ≤ 127 * 2 ^ shift := Nat.mul_le_mul_right _ (by omega)
    have below : result.toNat + payload b * 2 ^ shift < 2 ^ (shift + 7) := by
      rw [Nat.pow_add]
      omega
    refine Decoder.Faithful.check (place!_ok id) (Decoder.Faithful.check (Checked.add_ok (by omega)) ?_)
    rw [if_pos inside]
    simp only [Nat.shiftLeft_eq, Nat.one_mul]
    have sum : shift + 7 < 64 →
        (result ||| BitVec.ofNat 64 (payload b) <<< shift).toNat = result.toNat + payload b * 2 ^ shift := by
      intro last
      have : 2 ^ (shift + 7) ≤ 2 ^ 63 := Nat.pow_le_pow_right (by decide) (by omega)
      exact toNat_or_shiftLeft low (by omega)
    by_cases last : continues b = true
    · rw [if_pos last, if_pos last]
      exact ih (by omega) (fun _ => sum (by omega)) below
    · rw [if_neg last, if_neg last]
      by_cases room' : shift + 7 < 64
      · rw [← sum room'] at below ⊢
        exact signedLast_faithful width room' below
      -- Only the tenth group of a number of 64 bits goes past the end of the register.
      · obtain rfl : shift = 63 := by omega
        obtain rfl : bits = 64 := by
          rcases width with rfl | rfl
          · have : maxBytes 32 = 5 := by decide
            omega
          · rfl
        exact signedLast_faithful_top seven low

end Leb128

/-! ### Readers made of these -/

namespace Leb128
variable {data : ByteArray} (small : data.size < allocationLimit)
include small

theorem unsigned_faithful (bits : Nat) (narrow : bits ≤ 64) : Reader.Faithful data (unsigned! bits) (unsigned bits) := by
  refine unsignedFrom_faithful small bits ?_ (fun _ => rfl) (show 0 < 2 ^ 0 by decide)
  unfold maxBytes
  omega

theorem signed_faithful {bits : Nat} (width : bits = 32 ∨ bits = 64) : Reader.Faithful data (signed! bits) (signed bits) :=
  signedFrom_faithful small width (by omega) (fun _ => rfl) (show 0 < 2 ^ 0 by decide)

end Leb128
end Wasm
