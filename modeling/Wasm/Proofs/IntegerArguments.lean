import Mathlib.Data.List.DropRight
import Mathlib.Data.List.Forall2
import Mathlib.Data.Nat.Digits.Defs
import Mathlib.Data.Int.ModEq
import Wasm.CommandLine.Argument

/-! Integers on the command line. The texts that are read as an integer are those that denote one, and those that have a
    sign too many: a minus sign and `0x` are taken off first, and what is behind them may have a sign of its own. -/

namespace Wasm

/-! ### White space -/

theorem trimBlanks_eq (cs : List Char) : trimBlanks cs = (cs.dropWhile isBlank).rdropWhile isBlank := rfl

/-- The text has the characters in it, and else white space around them. -/
def Surrounds (s : String) (cs : List Char) : Prop :=
  ∃ l r, s.toList = l ++ cs ++ r ∧ (∀ c ∈ l, isBlank c = true) ∧ ∀ c ∈ r, isBlank c = true

theorem surrounds_trimBlanks (s : String) : Surrounds s (trimBlanks s.toList) := by
  refine ⟨s.toList.takeWhile isBlank, (s.toList.dropWhile isBlank).rtakeWhile isBlank, ?_, ?_, ?_⟩
  · rw [trimBlanks_eq, List.append_assoc, List.rdropWhile_append_rtakeWhile, List.takeWhile_append_dropWhile]
  · exact fun c member => List.mem_takeWhile_imp member
  · exact fun c member => List.mem_rtakeWhile_imp member

theorem rdropWhile_append_of_pos {α : Type} {p : α → Bool} {u v : List α} (h : ∀ a ∈ v, p a = true) :
    (u ++ v).rdropWhile p = u.rdropWhile p := by
  have reversed : ∀ a ∈ v.reverse, p a = true := fun a member => h a (List.mem_reverse.mp member)
  rw [List.rdropWhile, List.reverse_append, List.dropWhile_append_of_pos reversed, List.rdropWhile]

theorem Surrounds.trimmed {s : String} {cs : List Char} (h : Surrounds s cs) (some : cs ≠ [])
    (legible : ∀ c ∈ cs, isBlank c = false) : trimBlanks s.toList = cs := by
  obtain ⟨l, r, whole, left, right⟩ := h
  obtain ⟨first, rest, rfl⟩ := List.exists_cons_of_ne_nil some
  have front : (first :: rest ++ r).dropWhile isBlank = first :: rest ++ r :=
    List.dropWhile_cons_of_neg (by simp [legible])
  have last : (first :: rest).rdropWhile isBlank = first :: rest := by
    rw [List.rdropWhile_eq_self_iff]
    intro some
    simp [legible _ (List.getLast_mem some)]
  rw [trimBlanks_eq, whole, List.append_assoc, List.dropWhile_append_of_pos left, front, rdropWhile_append_of_pos right, last]

/-! ### Digits -/

namespace Numeral
variable {radix limit sum n d : Nat} {least greatest i : Int} {excess : NumeralError} {c : Char} {cs : List Char}

/-- The character stands for a digit to a radix. Letters of either case follow on the ten digits. -/
def IsDigit (radix : Nat) (c : Char) (d : Nat) : Prop := d < radix ∧ (c = d.digitChar ∨ c = d.digitChar.toUpper)

/-- The characters are digits to a radix, one at least, and stand for a number. -/
def Digits (radix : Nat) (cs : List Char) (n : Nat) : Prop :=
  cs ≠ [] ∧ ∃ ds, List.Forall₂ (IsDigit radix) cs ds ∧ n = Nat.ofDigits radix ds.reverse

/-- Digits behind a sign, and the integer that they stand for. -/
inductive Signed (radix : Nat) : List Char → Int → Prop
  | plus {cs : List Char} {n : Nat} : Digits radix cs n → Signed radix ('+' :: cs) n
  | minus {cs : List Char} {n : Nat} : Digits radix cs n → Signed radix ('-' :: cs) (-n)

theorem digitValue?_digitChar (small : d < 16) :
    digitValue? d.digitChar = some d ∧ digitValue? d.digitChar.toUpper = some d := by
  have all : ∀ e ∈ List.range 16, digitValue? e.digitChar = some e ∧ digitValue? e.digitChar.toUpper = some e := by decide
  exact all d (List.mem_range.mpr small)

theorem ofNat_eq_digitChar : (∀ d < 10, Char.ofNat (48 + d) = d.digitChar) ∧
    (∀ d < 6, Char.ofNat (97 + d) = (d + 10).digitChar) ∧
    ∀ d < 6, Char.ofNat (65 + d) = (d + 10).digitChar.toUpper := by decide

theorem isLower_bounds (h : c.isLower = true) : 97 ≤ c.toNat ∧ c.toNat ≤ 122 := by
  obtain ⟨low, high⟩ := Bool.and_eq_true_iff.mp h
  exact ⟨of_decide_eq_true low, of_decide_eq_true high⟩

theorem isUpper_bounds (h : c.isUpper = true) : 65 ≤ c.toNat ∧ c.toNat ≤ 90 := of_decide_eq_true h

theorem eq_ofNat {base : Nat} (above : base ≤ c.toNat) : c = Char.ofNat (base + (c.toNat - base)) := by
  rw [Nat.add_sub_cancel' above, Char.ofNat_toNat]

theorem isDigit_iff (small : radix ≤ 16) : IsDigit radix c d ↔ digitValue? c = some d ∧ d < radix := by
  constructor
  · rintro ⟨below, rfl | rfl⟩
    · exact ⟨(digitValue?_digitChar (Nat.lt_of_lt_of_le below small)).1, below⟩
    · exact ⟨(digitValue?_digitChar (Nat.lt_of_lt_of_le below small)).2, below⟩
  · rintro ⟨value, below⟩
    refine ⟨below, ?_⟩
    obtain ⟨tens, lower, upper⟩ := ofNat_eq_digitChar
    rw [digitValue?] at value
    split at value
    · rename_i digit
      have bounds : 48 ≤ c.toNat ∧ c.toNat ≤ 57 := Char.isDigit_iff_toNat.mp digit
      obtain rfl : c.toNat - 48 = d := Option.some.inj value
      exact .inl ((eq_ofNat bounds.1).trans (tens _ (by omega)))
    split at value
    · rename_i letter
      have bounds := isLower_bounds letter
      obtain rfl : c.toNat - 97 + 10 = d := Option.some.inj value
      exact .inl ((eq_ofNat bounds.1).trans (lower _ (by omega)))
    split at value
    · rename_i letter
      have bounds := isUpper_bounds letter
      obtain rfl : c.toNat - 65 + 10 = d := Option.some.inj value
      exact .inr ((eq_ofNat bounds.1).trans (upper _ (by omega)))
    · cases value

theorem magnitude_cons : magnitude radix limit excess sum (c :: cs) = .ok n ↔
    ∃ d, digitValue? c = some d ∧ d < radix ∧ sum * radix + d ≤ limit ∧
      magnitude radix limit excess (sum * radix + d) cs = .ok n := by
  rw [magnitude]
  cases digitValue? c with
  | none => simp
  | some d =>
    dsimp only
    split
    · rename_i high
      simp [Nat.not_lt.mpr high]
    split
    · rename_i excessive
      simp [Nat.not_le.mpr excessive]
    · rename_i low little
      simp [Nat.not_le.mp low, Nat.not_lt.mp little]

/-- Digits behind others that have given `sum`. -/
theorem magnitude_eq_ok (small : radix ≤ 16) (fits : sum ≤ limit) : magnitude radix limit excess sum cs = .ok n ↔
    n ≤ limit ∧ ∃ ds, List.Forall₂ (IsDigit radix) cs ds ∧
      n = Nat.ofDigits radix ds.reverse + radix ^ ds.length * sum := by
  induction cs generalizing sum with
  | nil =>
    rw [magnitude]
    constructor
    · rintro ⟨⟩
      exact ⟨fits, [], .nil, by simp⟩
    · rintro ⟨-, _, ⟨⟩, rfl⟩
      simp
  | cons c cs ih =>
    have value (d : Nat) (ds : List Nat) : Nat.ofDigits radix (d :: ds).reverse + radix ^ (d :: ds).length * sum =
        Nat.ofDigits radix ds.reverse + radix ^ ds.length * (sum * radix + d) := by
      rw [List.reverse_cons, Nat.ofDigits_append, Nat.ofDigits_singleton, List.length_reverse, List.length_cons]
      ring
    rw [magnitude_cons]
    constructor
    · rintro ⟨d, digit, below, little, rest⟩
      obtain ⟨enough, ds, digits, rfl⟩ := (ih little).mp rest
      exact ⟨enough, d :: ds, .cons ((isDigit_iff small).mpr ⟨digit, below⟩) digits, (value d ds).symm⟩
    · rintro ⟨enough, _, _ | ⟨digit, digits⟩, rfl⟩
      rename_i d ds
      obtain ⟨digit, below⟩ := (isDigit_iff small).mp digit
      -- What is read so far only grows with every digit, so that it has been within the limit all along.
      have little : sum * radix + d ≤ limit := by
        rw [value] at enough
        refine Nat.le_trans ?_ (Nat.le_trans (Nat.le_add_left _ _) enough)
        exact Nat.le_mul_of_pos_left _ (Nat.pow_pos (Nat.zero_lt_of_lt below))
      exact ⟨d, digit, below, little, (ih little).mpr ⟨enough, ds, digits, value d ds⟩⟩

/-- The number of digits, one at least. -/
theorem digits_iff (small : radix ≤ 16) (some : cs ≠ []) :
    magnitude radix limit excess 0 cs = .ok n ↔ n ≤ limit ∧ Digits radix cs n := by
  rw [magnitude_eq_ok small (Nat.zero_le limit), Digits]
  simp [some]

theorem map_eq_ok {ε α β : Type} {f : α → β} {e : Except ε α} {b : β} : f <$> e = .ok b ↔ ∃ a, e = .ok a ∧ f a = b := by
  cases e with
  | error e => simp
  | ok a => simp

theorem Digits.digit (h : Digits radix (c :: cs) n) (small : radix ≤ 16) : ∃ d, digitValue? c = some d := by
  obtain ⟨-, _, digits, -⟩ := h
  cases digits with
  | cons digit _ => exact ⟨_, ((isDigit_iff small).mp digit).1⟩

theorem Digits.unsigned (h : Digits radix (c :: cs) n) (small : radix ≤ 16) : c ≠ '+' ∧ c ≠ '-' := by
  obtain ⟨d, digit⟩ := h.digit small
  constructor
  · rintro rfl
    cases digit
  · rintro rfl
    cases digit

/-- A numeral: digits, with one sign at most. -/
inductive Stands (radix : Nat) : List Char → Int → Prop
  | bare {cs : List Char} {n : Nat} : Digits radix cs n → Stands radix cs n
  | signed {cs : List Char} {i : Int} : Signed radix cs i → Stands radix cs i

theorem not_stands_nil : ¬Stands radix [] i := by
  rintro (⟨some, -⟩ | ⟨⟨⟩⟩)
  exact some rfl

theorem stands_plus (small : radix ≤ 16) : Stands radix ('+' :: cs) i ↔ ∃ n : Nat, (n : Int) = i ∧ Digits radix cs n := by
  constructor
  · rintro (digits | (digits | digits))
    · exact absurd rfl (digits.unsigned small).1
    · exact ⟨_, rfl, digits⟩
  · rintro ⟨n, rfl, digits⟩
    exact .signed (.plus digits)

theorem stands_minus (small : radix ≤ 16) : Stands radix ('-' :: cs) i ↔ ∃ n : Nat, -(n : Int) = i ∧ Digits radix cs n := by
  constructor
  · rintro (digits | (digits | digits))
    · exact absurd rfl (digits.unsigned small).2
    · exact ⟨_, rfl, digits⟩
  · rintro ⟨n, rfl, digits⟩
    exact .signed (.minus digits)

theorem stands_bare (plus : ∀ rest, cs ≠ '+' :: rest) (minus : ∀ rest, cs ≠ '-' :: rest) :
    Stands radix cs i ↔ ∃ n : Nat, (n : Int) = i ∧ Digits radix cs n := by
  constructor
  · rintro (digits | (digits | digits))
    · exact ⟨_, rfl, digits⟩
    · exact absurd rfl (plus _)
    · exact absurd rfl (minus _)
  · rintro ⟨n, rfl, digits⟩
    exact .bare digits

/-- The limit of the digits is the range of what is made of them. -/
theorem map_magnitude_eq_ok {f : Nat → Int} (small : radix ≤ 16) (some : cs ≠ [])
    (range : ∀ n, n ≤ limit ↔ least ≤ f n ∧ f n ≤ greatest) :
    f <$> magnitude radix limit excess 0 cs = .ok i ↔
      (∃ n, f n = i ∧ Digits radix cs n) ∧ least ≤ i ∧ i ≤ greatest := by
  rw [map_eq_ok]
  constructor
  · rintro ⟨n, found, rfl⟩
    obtain ⟨inside, digits⟩ := (digits_iff small some).mp found
    exact ⟨⟨n, rfl, digits⟩, (range n).mp inside⟩
  · rintro ⟨⟨n, rfl, digits⟩, inside⟩
    exact ⟨n, (digits_iff small some).mpr ⟨(range n).mpr inside, digits⟩, rfl⟩

theorem parse_eq_ok (small : radix ≤ 16) (below : least < 0) (above : 0 ≤ greatest) :
    parse radix least greatest cs = .ok i ↔ Stands radix cs i ∧ least ≤ i ∧ i ≤ greatest := by
  have positive (n : Nat) : n ≤ greatest.toNat ↔ least ≤ (n : Int) ∧ (n : Int) ≤ greatest := by omega
  fun_cases parse radix least greatest cs with
  | case1 => simp [not_stands_nil]
  | case2 => simp [stands_plus small, Digits]
  | case3 => simp [stands_minus small, Digits]
  | case4 cs some => rw [stands_plus small, map_magnitude_eq_ok small some positive]
  | case5 cs some =>
    have negative (n : Nat) : n ≤ (-least).toNat ↔ least ≤ -(n : Int) ∧ -(n : Int) ≤ greatest := by omega
    rw [stands_minus small, map_magnitude_eq_ok small some negative]
  | case6 cs some high => exact absurd below high
  | case7 cs some _ _ plus minus =>
    have bare : Stands radix cs i ↔ ∃ n : Nat, (n : Int) = i ∧ Digits radix cs n := stands_bare plus minus
    rw [bare, map_magnitude_eq_ok small some positive]

theorem IsDigit.legible (h : IsDigit radix c d) (small : radix ≤ 16) : isBlank c = false := by
  have all : ∀ e ∈ List.range 16, isBlank e.digitChar = false ∧ isBlank e.digitChar.toUpper = false := by decide
  have legible := all d (List.mem_range.mpr (Nat.lt_of_lt_of_le h.1 small))
  rcases h.2 with rfl | rfl
  · exact legible.1
  · exact legible.2

theorem Digits.legible (h : Digits radix cs n) (small : radix ≤ 16) : ∀ c ∈ cs, isBlank c = false := by
  obtain ⟨-, ds, digits, -⟩ := h
  induction digits with
  | nil => exact List.forall_mem_nil _
  | cons digit _ ih => exact List.forall_mem_cons.mpr ⟨digit.legible small, ih⟩

theorem Stands.legible (h : Stands radix cs i) (small : radix ≤ 16) : cs ≠ [] ∧ ∀ c ∈ cs, isBlank c = false := by
  rcases h with digits | (digits | digits)
  · exact ⟨digits.1, digits.legible small⟩
  · exact ⟨List.cons_ne_nil _ _, List.forall_mem_cons.mpr ⟨rfl, digits.legible small⟩⟩
  · exact ⟨List.cons_ne_nil _ _, List.forall_mem_cons.mpr ⟨rfl, digits.legible small⟩⟩

end Numeral

/-! ### Arguments -/

namespace Argument
open Numeral
variable {cs rest : List Char} {c : Char} {i j : Int}

/-- The letter of hexadecimal numerals. -/
def IsMark (c : Char) : Prop := c = 'x' ∨ c = 'X'

/-- The text denotes an integer: decimal digits with one sign at most, or hexadecimal ones behind `0x`, before which a
    minus sign may stand. -/
inductive Denotes : List Char → Int → Prop
  | decimal {cs : List Char} {n : Nat} : Digits 10 cs n → Denotes cs n
  | signed {cs : List Char} {i : Int} : Signed 10 cs i → Denotes cs i
  | hex {c : Char} {cs : List Char} {n : Nat} : IsMark c → Digits 16 cs n → Denotes ('0' :: c :: cs) n
  | negativeHex {c : Char} {cs : List Char} {n : Nat} : IsMark c → Digits 16 cs n → Denotes ('-' :: '0' :: c :: cs) (-n)

/-- The text has a sign too many: behind a minus sign there is another sign, or there is one behind `0x`. Each minus
    sign turns the integer. -/
inductive Oversigned : List Char → Int → Prop
  | decimal {cs : List Char} {i : Int} : Signed 10 cs i → Oversigned ('-' :: cs) (-i)
  | hex {c : Char} {cs : List Char} {i : Int} : IsMark c → Signed 16 cs i → Oversigned ('0' :: c :: cs) i
  | negativeHex {c : Char} {cs : List Char} {i : Int} : IsMark c → Signed 16 cs i → Oversigned ('-' :: '0' :: c :: cs) (-i)

/-- What is read behind the minus sign of an argument, or where there is none. -/
def unsigned : List Char → Except NumeralError Int
  | '0' :: 'x' :: hex => Numeral.parse 16 widest.1 widest.2 hex
  | '0' :: 'X' :: hex => Numeral.parse 16 widest.1 widest.2 hex
  | digits => Numeral.parse 10 widest.1 widest.2 digits

theorem integer_minus (rest : List Char) : integer ('-' :: rest) = (fun i => -i) <$> unsigned rest := rfl

theorem integer_bare (bare : ∀ rest, cs ≠ '-' :: rest) : integer cs = unsigned cs := by
  rw [integer.eq_2 cs bare]
  rfl

/-- The numerals that are read there. -/
inductive Measures : List Char → Int → Prop
  | hex {c : Char} {cs : List Char} {i : Int} : IsMark c → Stands 16 cs i → Measures ('0' :: c :: cs) i
  | decimal {cs : List Char} {i : Int} : Stands 10 cs i → Measures cs i

theorem IsMark.legible (mark : IsMark c) : isBlank c = false := by
  rcases mark with rfl | rfl <;> rfl

/-- No decimal digit is an `x`. -/
theorem not_stands_marked (mark : IsMark c) : ¬Stands 10 ('0' :: c :: cs) i := by
  rintro (⟨-, _, digits, -⟩ | ⟨⟨⟩⟩)
  obtain - | ⟨-, - | ⟨digit, -⟩⟩ := digits
  obtain ⟨value, below⟩ := (isDigit_iff (by decide)).mp digit
  rcases mark with rfl | rfl
  · cases value
    contradiction
  · cases value
    contradiction

theorem measures_marked (mark : IsMark c) : Measures ('0' :: c :: cs) i ↔ Stands 16 cs i := by
  constructor
  · rintro (⟨-, hex⟩ | decimal)
    · exact hex
    · exact absurd decimal (not_stands_marked mark)
  · exact .hex mark

theorem unsigned_eq_ok : unsigned cs = .ok i ↔ Measures cs i ∧ widest.1 ≤ i ∧ i ≤ widest.2 := by
  fun_cases unsigned cs with
  | case1 hex => rw [Numeral.parse_eq_ok (by decide) (by decide) (by decide), measures_marked (.inl rfl)]
  | case2 hex => rw [Numeral.parse_eq_ok (by decide) (by decide) (by decide), measures_marked (.inr rfl)]
  | case3 _ lower upper =>
    have unmarked : Measures cs i ↔ Stands 10 cs i := by
      constructor
      · rintro (⟨rfl | rfl, -⟩ | decimal)
        · exact absurd rfl (lower _)
        · exact absurd rfl (upper _)
        · exact decimal
      · exact .decimal
    rw [Numeral.parse_eq_ok (by decide) (by decide) (by decide), unmarked]

/-- Behind a minus sign there is a numeral. -/
theorem reads_minus : Denotes ('-' :: rest) i ∨ Oversigned ('-' :: rest) i ↔ ∃ j, -j = i ∧ Measures rest j := by
  constructor
  · rintro (denotes | oversigned)
    · cases denotes with
      | decimal digits => exact absurd rfl (digits.unsigned (by decide)).2
      | signed signed =>
        cases signed with
        | minus digits => exact ⟨_, rfl, .decimal (.bare digits)⟩
      | negativeHex mark digits => exact ⟨_, rfl, .hex mark (.bare digits)⟩
    · cases oversigned with
      | decimal signed => exact ⟨_, rfl, .decimal (.signed signed)⟩
      | negativeHex mark signed => exact ⟨_, rfl, .hex mark (.signed signed)⟩
  · rintro ⟨j, rfl, (⟨mark, digits | signed⟩ | (digits | signed))⟩
    · exact .inl (.negativeHex mark digits)
    · exact .inr (.negativeHex mark signed)
    · exact .inl (.signed (.minus digits))
    · exact .inr (.decimal signed)

theorem reads_bare (bare : ∀ rest, cs ≠ '-' :: rest) : Denotes cs i ∨ Oversigned cs i ↔ Measures cs i := by
  constructor
  · rintro (denotes | oversigned)
    · cases denotes with
      | decimal digits => exact .decimal (.bare digits)
      | signed signed => exact .decimal (.signed signed)
      | hex mark digits => exact .hex mark (.bare digits)
      | negativeHex => exact absurd rfl (bare _)
    · cases oversigned with
      | decimal => exact absurd rfl (bare _)
      | hex mark signed => exact .hex mark (.signed signed)
      | negativeHex => exact absurd rfl (bare _)
  · rintro (⟨mark, digits | signed⟩ | (digits | signed))
    · exact .inl (.hex mark digits)
    · exact .inr (.hex mark signed)
    · exact .inl (.decimal digits)
    · exact .inl (.signed signed)

theorem minus_or_bare (cs : List Char) : (∃ rest, cs = '-' :: rest) ∨ ∀ rest, cs ≠ '-' :: rest := by
  rcases Classical.em (∃ rest, cs = '-' :: rest) with minus | bare
  · exact .inl minus
  · exact .inr (not_exists.mp bare)

/-- The numeral behind the minus sign, or the one without, is in the range that numerals are read in. -/
def Held (cs : List Char) (i : Int) : Prop :=
  if cs.head? = some '-' then widest.1 ≤ -i ∧ -i ≤ widest.2 else widest.1 ≤ i ∧ i ≤ widest.2

theorem held_bare (bare : ∀ rest, cs ≠ '-' :: rest) : Held cs i ↔ widest.1 ≤ i ∧ i ≤ widest.2 := by
  cases cs with
  | nil => exact Iff.rfl
  | cons c cs =>
    have other : c ≠ '-' := fun same => bare cs (by rw [same])
    simp [Held, other]

theorem integer_eq_ok : integer cs = .ok i ↔ (Denotes cs i ∨ Oversigned cs i) ∧ Held cs i := by
  rcases minus_or_bare cs with ⟨rest, rfl⟩ | bare
  · rw [integer_minus, map_eq_ok, reads_minus]
    constructor
    · rintro ⟨j, done, rfl⟩
      obtain ⟨measures, bounds⟩ := unsigned_eq_ok.mp done
      exact ⟨⟨j, rfl, measures⟩, by simpa [Held] using bounds⟩
    · rintro ⟨⟨j, rfl, measures⟩, held⟩
      exact ⟨j, unsigned_eq_ok.mpr ⟨measures, by simpa [Held] using held⟩, rfl⟩
  · rw [integer_bare bare, unsigned_eq_ok, reads_bare bare, held_bare bare]

theorem Measures.legible (h : Measures cs i) : cs ≠ [] ∧ ∀ c ∈ cs, isBlank c = false := by
  rcases h with ⟨mark, hex⟩ | decimal
  · exact ⟨List.cons_ne_nil _ _, List.forall_mem_cons.mpr ⟨rfl, List.forall_mem_cons.mpr
      ⟨mark.legible, (hex.legible (by decide)).2⟩⟩⟩
  · exact decimal.legible (by decide)

theorem legible (h : Denotes cs i ∨ Oversigned cs i) : cs ≠ [] ∧ ∀ c ∈ cs, isBlank c = false := by
  rcases minus_or_bare cs with ⟨rest, rfl⟩ | bare
  · obtain ⟨j, -, measures⟩ := reads_minus.mp h
    exact ⟨List.cons_ne_nil _ _, List.forall_mem_cons.mpr ⟨rfl, measures.legible.2⟩⟩
  · exact ((reads_bare bare).mp h).legible

/-- An integer that is denoted with a minus sign is not positive. -/
theorem Denotes.nonpos (h : Denotes ('-' :: rest) i) : i ≤ 0 := by
  cases h with
  | decimal digits => exact absurd rfl (digits.unsigned (by decide)).2
  | signed signed =>
    cases signed with
    | minus digits => exact Int.neg_nonpos_of_nonneg (Int.natCast_nonneg _)
  | negativeHex mark digits => exact Int.neg_nonpos_of_nonneg (Int.natCast_nonneg _)

/-- The least integer is turned only where there is a sign too many. -/
theorem integer_bounds (h : integer cs = .ok i) :
    (widest.1 ≤ i ∧ i ≤ widest.2) ∨ (i = widest.2 + 1 ∧ Oversigned cs i) := by
  obtain ⟨reads, held⟩ := integer_eq_ok.mp h
  rcases minus_or_bare cs with ⟨rest, rfl⟩ | bare
  · have bounds : widest.1 ≤ -i ∧ -i ≤ widest.2 := by simpa [Held] using held
    have range : widest.1 = -(widest.2 + 1) := rfl
    have top : 0 < widest.2 := by decide
    rcases Int.lt_or_le widest.2 i with beyond | inside
    · refine .inr ⟨by omega, reads.resolve_left fun denotes => ?_⟩
      have := denotes.nonpos
      omega
    · exact .inl ⟨by omega, inside⟩
  · exact .inl ((held_bare bare).mp held)

/-- The integers of both widths are held. -/
theorem held_of_width {w : Width} (low : -2 ^ (w.bits - 1) ≤ i) (high : i < 2 ^ w.bits) : Held cs i := by
  have bounds : -2 ^ 63 ≤ i ∧ i < 2 ^ 64 := by
    cases w with
    | w32 => exact ⟨le_trans (by decide) low, lt_trans high (by decide)⟩
    | w64 => exact ⟨low, high⟩
  have least : widest.1 = -2 ^ 127 := rfl
  have greatest : widest.2 = 2 ^ 127 - 1 := rfl
  rw [Held, least, greatest]
  split
  · omega
  · omega

/-! ### Values -/

theorem parse_int (w : Width) (s : String) : parse w.int s = Value.int w <$> parseInt w (trimBlanks s.toList) := by
  cases w <;> rfl

theorem parseInt_eq_ok {w : Width} {b : BitVec w.bits} : parseInt w cs = .ok b ↔
    ∃ i, integer cs = .ok i ∧ (-2 ^ (w.bits - 1) ≤ i ∧ i < 2 ^ w.bits) ∧ b = .ofInt w.bits i := by
  rw [parseInt]
  cases integer cs with
  | error why => simp
  | ok i =>
    have range : (-((1 <<< (w.bits - 1) : Nat) : Int) ≤ i ∧ i < ((1 <<< w.bits : Nat) : Int)) ↔
        -2 ^ (w.bits - 1) ≤ i ∧ i < 2 ^ w.bits := by
      simp [Nat.one_shiftLeft]
    simp only [range]
    split
    · rename_i inside
      simp [inside, eq_comm]
    · rename_i outside
      simp [outside]

theorem eq_ofInt_iff {w : Nat} {b : BitVec w} : b = .ofInt w i ↔ b.toInt ≡ i [ZMOD 2 ^ w] := by
  have power : ((2 ^ w : Nat) : Int) = 2 ^ w := by norm_cast
  rw [← BitVec.toInt_inj, BitVec.toInt_ofInt, ← power]
  constructor
  · intro same
    rw [same]
    exact Int.bmod_emod
  · intro congruent
    calc
      b.toInt = b.toInt.bmod (2 ^ w) := (BitVec.toInt_bmod_cancel b).symm
      _ = (b.toInt % (2 ^ w : Nat)).bmod (2 ^ w) := (Int.emod_bmod _ _).symm
      _ = (i % (2 ^ w : Nat)).bmod (2 ^ w) := by rw [congruent]
      _ = i.bmod (2 ^ w) := Int.emod_bmod _ _

/-- A text is read as an integer of a width if the characters in it denote an integer from the least one with sign to the
    greatest one without, or do so but for a sign too many. The value has the same remainder to the width. Only a sign too
    many makes an integer that does not fit in the 128 bits it is computed in. -/
theorem parse_int_iff (w : Width) (s : String) :
    (∀ v, parse w.int s = .ok v ↔ ∃ cs i, Surrounds s cs ∧ (Denotes cs i ∨ Oversigned cs i) ∧
      (-2 ^ (w.bits - 1) ≤ i ∧ i < 2 ^ w.bits) ∧
      ∃ b : BitVec w.bits, v = .int w b ∧ b.toInt ≡ i [ZMOD 2 ^ w.bits]) ∧
    ∀ i, integer (trimBlanks s.toList) = .ok i →
      (widest.1 ≤ i ∧ i ≤ widest.2) ∨ (i = widest.2 + 1 ∧ Oversigned (trimBlanks s.toList) i) := by
  refine ⟨fun v => ?_, fun i => integer_bounds⟩
  rw [parse_int, map_eq_ok]
  constructor
  · rintro ⟨b, done, rfl⟩
    obtain ⟨i, found, bounds, value⟩ := parseInt_eq_ok.mp done
    exact ⟨_, i, surrounds_trimBlanks s, (integer_eq_ok.mp found).1, bounds, b, rfl, eq_ofInt_iff.mp value⟩
  · rintro ⟨cs, i, surrounds, reads, bounds, b, rfl, congruent⟩
    have trimmed : trimBlanks s.toList = cs := surrounds.trimmed (legible reads).1 (legible reads).2
    have found : integer cs = .ok i := integer_eq_ok.mpr ⟨reads, held_of_width bounds.1 bounds.2⟩
    exact ⟨b, by rw [trimmed]; exact parseInt_eq_ok.mpr ⟨i, found, bounds, eq_ofInt_iff.mpr congruent⟩, rfl⟩

/-- Two minus signs denote nothing, and are read. So is the one integer whose negative is not held. -/
theorem doubled_minus_read : parse .i32 "--5" = .ok (.int .w32 5) ∧
    (∀ cs i, Surrounds "--5" cs → ¬Denotes cs i) ∧
    integer "--170141183460469231731687303715884105728".toList = .ok (widest.2 + 1) := by
  refine ⟨by rfl, ?_, by rfl⟩
  intro cs i surrounds denotes
  obtain ⟨some, clear⟩ := legible (.inl denotes)
  obtain rfl : ['-', '-', '5'] = cs := surrounds.trimmed some clear
  cases denotes with
  | decimal digits => exact (digits.unsigned (by decide)).2 rfl
  | signed signed =>
    cases signed with
    | minus digits => exact (digits.unsigned (by decide)).2 rfl

end Argument
end Wasm
