import Wasm.Proofs.Records

/-! What has been written is read back. Each reader stops where the writer did, whatever comes behind, so that items
    written in a row are read one after another. No item has a shorter spelling than the one that is written. -/

namespace Wasm

/-! ### The shortest spellings of numbers -/

namespace Leb128
variable {word : List UInt8}

theorem toNat_group {k : Nat} (small : k < 256) : k.toUInt8.toNat = k := by
  rw [Nat.toUInt8_eq, UInt8.toNat_ofNat', Nat.mod_eq_of_lt small]

theorem encodeUnsigned_groups (n : Nat) : Unsigned n (encodeUnsigned n) := by
  fun_induction encodeUnsigned n with
  | case1 n small =>
    have group := toNat_group (show n < 256 by omega)
    refine (unsigned_last ?_).mpr ⟨?_, rfl⟩
    · simp [continues, group, small]
    · rw [payload, group, Nat.mod_eq_of_lt small]
  | case2 n large ih =>
    have group := toNat_group (show n % 128 + 128 < 256 by omega)
    refine (unsigned_more ?_).mpr ⟨n / 128, ?_, ih⟩
    · simp only [continues, group, decide_eq_true_iff]
      omega
    · rw [payload, group]
      omega

theorem encodeSigned_groups (n : Int) : Signed n (encodeSigned n) := by
  fun_induction encodeSigned n with
  | case1 n small =>
    have group := toNat_group (show (n % 128).toNat < 256 by omega)
    refine (signed_last ?_).mpr ⟨?_, rfl⟩
    · simp only [continues, group, decide_eq_false_iff_not]
      omega
    · rw [lastSigned, payload, group]
      split <;> omega
  | case2 n large ih =>
    have group := toNat_group (show (n % 128 + 128).toNat < 256 by omega)
    refine (signed_more ?_).mpr ⟨n / 128, ?_, ih⟩
    · simp only [continues, group, decide_eq_true_iff]
      omega
    · rw [payload, group]
      omega

theorem encodeUnsigned_shortest {n : Nat} (groups : Unsigned n word) : (encodeUnsigned n).length ≤ word.length := by
  induction groups with
  | @last b closed =>
    have small : payload b < 128 := Nat.mod_lt _ (by decide)
    rw [encodeUnsigned, if_pos small]
    exact Nat.le_refl 1
  | @more b n word closed groups ih =>
    have small : payload b < 128 := Nat.mod_lt _ (by decide)
    rw [encodeUnsigned]
    split
    · exact Nat.succ_pos _
    · have rest : (payload b + 128 * n) / 128 = n := by omega
      rw [rest]
      exact Nat.succ_le_succ ih

theorem lastSigned_bounds (b : UInt8) : -64 ≤ lastSigned b ∧ lastSigned b < 64 := by
  have small : payload b < 128 := Nat.mod_lt _ (by decide)
  unfold lastSigned
  split <;> omega

theorem encodeSigned_shortest {n : Int} (groups : Signed n word) : (encodeSigned n).length ≤ word.length := by
  induction groups with
  | @last b closed =>
    rw [encodeSigned, if_pos (lastSigned_bounds b)]
    exact Nat.le_refl 1
  | @more b n word closed groups ih =>
    have small : payload b < 128 := Nat.mod_lt _ (by decide)
    rw [encodeSigned]
    split
    · exact Nat.succ_pos _
    · have rest : (payload b + 128 * n) / 128 = n := by omega
      rw [rest]
      exact Nat.succ_le_succ ih

theorem encodeUnsigned_inTime {n k : Nat} (small : n < 128 * 128 ^ k) : (encodeUnsigned n).length ≤ k + 1 := by
  induction k generalizing n with
  | zero =>
    rw [encodeUnsigned, if_pos (by simpa using small)]
    exact Nat.le_refl 1
  | succ k ih =>
    rw [encodeUnsigned]
    split
    · exact Nat.succ_pos _
    · refine Nat.succ_le_succ (ih (Nat.div_lt_of_lt_mul ?_))
      rwa [Nat.pow_succ, Nat.mul_comm (128 ^ k)] at small

theorem encodeSigned_inTime {n : Int} {k : Nat} (least : -(64 * 128 ^ k) ≤ n) (small : n < 64 * 128 ^ k) :
    (encodeSigned n).length ≤ k + 1 := by
  induction k generalizing n with
  | zero =>
    rw [encodeSigned, if_pos (by simpa using ⟨least, small⟩)]
    exact Nat.le_refl 1
  | succ k ih =>
    rw [encodeSigned]
    split
    · exact Nat.succ_pos _
    · rw [pow_succ] at least small
      exact Nat.succ_le_succ (ih (by omega) (by omega))

theorem spelled_encodeUnsigned (w : Width) {n : Nat} (fits : n < 2 ^ w.bits) :
    SpelledUnsigned w.bits n (encodeUnsigned n) where
  groups := encodeUnsigned_groups n
  inTime := by
    cases w with
    | w32 => exact encodeUnsigned_inTime (k := 4) (Nat.lt_trans fits (by decide))
    | w64 => exact encodeUnsigned_inTime (k := 9) (Nat.lt_trans fits (by decide))
  fits := fits

theorem spelled_encodeSigned (w : Width) (n : BitVec w.bits) : SpelledSigned w.bits n.toInt (encodeSigned n.toInt) where
  groups := encodeSigned_groups _
  inTime := by
    have least := n.le_toInt
    have most : n.toInt < 2 ^ (w.bits - 1) := BitVec.toInt_lt
    cases w with
    | w32 => exact encodeSigned_inTime (k := 4) (Int.le_trans (by decide) least) (Int.lt_of_lt_of_le most (by decide))
    | w64 => exact encodeSigned_inTime (k := 9) (Int.le_trans (by decide) least) (Int.lt_of_lt_of_le most (by decide))
  least := n.le_toInt
  fits := BitVec.toInt_lt

end Leb128

/-! ### Items -/

/-- What may be written: bytes as they are, numbers with and without a sign, the bits of floats, and names. -/
inductive Item
  | byte (b : UInt8)
  | bytes (part : ByteArray)
  | unsigned (w : Width) (n : BitVec w.bits)
  | signed (w : Width) (n : BitVec w.bits)
  | float (w : Width) (bits : BitVec w.bits)
  | name (s : String)

/-- What a reader of an item has to know of it. -/
inductive Item.Kind
  | byte
  | bytes (n : Nat)
  | unsigned (w : Width)
  | signed (w : Width)
  | float (w : Width)
  | name

namespace Item

def kind : Item → Kind
  | byte _ => .byte
  | bytes part => .bytes part.size
  | unsigned w _ => .unsigned w
  | signed w _ => .signed w
  | float w _ => .float w
  | name _ => .name

def Kind.read : Kind → Reader Item
  | byte => return .byte (← Reader.byte)
  | bytes n => return .bytes (← Reader.bytes n)
  | unsigned w => return .unsigned w (.ofNat w.bits (← Leb128.unsigned w.bits))
  | signed w => return .signed w (.ofInt w.bits (← Leb128.signed w.bits))
  | float w => return .float w (.ofNat w.bits (← Reader.fixed w.float.size))
  | name => return .name (← Reader.name)

end Item

/-- Appends an item. -/
def Writer.put (w : Writer) : Item → Writer
  | .byte b => w.byte b
  | .bytes part => w.append part
  | .unsigned _ n => w.unsigned n.toNat
  | .signed _ n => w.signed n.toInt
  | .float width bits => w.fixed width.float.size bits.toNat
  | .name s => w.name s

namespace Item
open Leb128

/-- The bytes that are written for an item. -/
def word : Item → List UInt8
  | byte b => [b]
  | bytes part => part.data.toList
  | unsigned _ n => encodeUnsigned n.toNat
  | signed _ n => encodeSigned n.toInt
  | float w bits => Writer.littleEndian w.float.size bits.toNat
  | name s => encodeUnsigned (s.utf8ByteSize % 1 <<< 32) ++ s.toUTF8.data.toList

/-- The lengths of names are 32-bit numbers. -/
def Fits : Item → Prop
  | name s => s.utf8ByteSize < 2 ^ 32
  | _ => True

theorem bytes_put (w : Writer) (item : Item) : (w.put item).bytes = w.bytes ++ item.word.toByteArray := by
  cases item with
  | byte b => exact ByteArray.ext (by simp [Writer.put, Writer.byte, word])
  | bytes part => simp only [Writer.put, Writer.append, word, toByteArray_toList]
  | unsigned _ n => rfl
  | signed _ n => rfl
  | float _ bits => rfl
  | name s =>
    simp only [Writer.put, Writer.name, Writer.unsigned, Writer.append, word, List.toByteArray_append, toByteArray_toList,
      ByteArray.append_assoc]

theorem bytes_puts (w : Writer) (items : List Item) :
    (items.foldl Writer.put w).bytes = w.bytes ++ (items.flatMap word).toByteArray := by
  induction items generalizing w with
  | nil => exact ByteArray.ext (by simp)
  | cons item items ih =>
    rw [List.foldl_cons, ih, bytes_put, List.flatMap_cons, List.toByteArray_append, ByteArray.append_assoc]

/-! ### Reading them -/

/-- The spellings of the items of a kind. -/
def Kind.Spelled : Kind → Spelling Item
  | byte => fun item word => ∃ b, .byte b = item ∧ word = [b]
  | bytes n => fun item word => ∃ part, .bytes part = item ∧ word.length = n ∧ part = word.toByteArray
  | unsigned w => fun item word => ∃ n, .unsigned w (.ofNat w.bits n) = item ∧ SpelledUnsigned w.bits n word
  | signed w => fun item word => ∃ n, .signed w (.ofInt w.bits n) = item ∧ SpelledSigned w.bits n word
  | float w => fun item word =>
    ∃ n, .float w (.ofNat w.bits n) = item ∧ n < 256 ^ w.float.size ∧ word = Writer.littleEndian w.float.size n
  | name => fun item word => ∃ s, .name s = item ∧ Spelling.name s word

theorem Kind.read_recognizes (k : Kind) : k.read.Recognizes k.Spelled := by
  cases k with
  | byte =>
    refine Decoder.Recognizes.byte (L := Kind.byte.Spelled) (f := fun b => pure (Item.byte b)) ?_ fun b =>
      (Decoder.Recognizes.pure (Item.byte b)).congr fun item word => ?_
    · rintro _ ⟨_, -, ⟨⟩⟩
    · constructor
      · rintro ⟨c, rfl, same⟩
        obtain ⟨rfl, rfl⟩ := List.cons.inj same
        exact ⟨rfl, rfl⟩
      · rintro ⟨rfl, rfl⟩
        exact ⟨b, rfl, rfl⟩
  | bytes n => exact (Reader.bytes_recognizes n).map Item.bytes
  | unsigned w =>
    have narrow : w.bits ≤ 64 := by cases w <;> decide
    exact (unsigned_recognizes narrow).map fun n => Item.unsigned w (.ofNat w.bits n)
  | signed w => exact (signed_recognizes w.bits).map fun n => Item.signed w (.ofInt w.bits n)
  | float w => exact (Reader.fixed_recognizes w.float.size).map fun n => Item.float w (.ofNat w.bits n)
  | name => exact Reader.name_recognizes.map Item.name

theorem lt_float_size {w : Width} (bits : BitVec w.bits) : bits.toNat < 256 ^ w.float.size := by
  cases w with
  | w32 => exact Nat.lt_of_lt_of_le bits.isLt (by decide)
  | w64 => exact Nat.lt_of_lt_of_le bits.isLt (by decide)

/-- What is written for an item is one of its spellings. -/
theorem spelled_word {item : Item} (fits : item.Fits) : item.kind.Spelled item item.word := by
  cases item with
  | byte b => exact ⟨b, rfl, rfl⟩
  | bytes part => exact ⟨part, rfl, by simp [word], (toByteArray_toList part).symm⟩
  | unsigned w n => exact ⟨n.toNat, by rw [BitVec.ofNat_toNat, BitVec.setWidth_eq], spelled_encodeUnsigned w n.isLt⟩
  | signed w n => exact ⟨n.toInt, by rw [BitVec.ofInt_toInt], spelled_encodeSigned w n⟩
  | float w bits => exact ⟨bits.toNat, by rw [BitVec.ofNat_toNat, BitVec.setWidth_eq], lt_float_size bits, rfl⟩
  | name s =>
    have small : s.toUTF8.size < 2 ^ 32 := fits
    have length : s.utf8ByteSize % 1 <<< 32 = s.toUTF8.size := by
      rw [Nat.one_shiftLeft]
      exact Nat.mod_eq_of_lt small
    refine ⟨s, rfl, ?_⟩
    rw [word, length]
    exact .mk (spelled_encodeUnsigned .w32 small)

/-- No spelling of an item is shorter than the one that is written. -/
theorem length_word_le {item : Item} {u : List UInt8} (spelled : item.kind.Spelled item u) :
    item.word.length ≤ u.length := by
  cases item with
  | byte b =>
    obtain ⟨_, -, rfl⟩ := spelled
    exact Nat.le_refl 1
  | bytes part =>
    obtain ⟨_, -, length, -⟩ := spelled
    simp [word, length]
  | unsigned w n =>
    obtain ⟨m, same, number⟩ := spelled
    cases same
    rw [word, BitVec.toNat_ofNat, Nat.mod_eq_of_lt number.fits]
    exact encodeUnsigned_shortest number.groups
  | signed w n =>
    obtain ⟨m, same, number⟩ := spelled
    cases same
    rw [word, BitVec.toInt_ofInt_eq_self w.bits_pos number.least number.fits]
    exact encodeSigned_shortest number.groups
  | float w bits =>
    obtain ⟨_, -, -, rfl⟩ := spelled
    simp [word, Writer.length_littleEndian]
  | name s =>
    obtain ⟨_, same, counted⟩ := spelled
    cases same
    generalize text : s.toUTF8 = part at counted
    obtain ⟨count⟩ := counted
    subst text
    -- A name that is spelled is short enough for its count.
    have size : s.utf8ByteSize % 1 <<< 32 = s.toUTF8.size := by
      rw [Nat.one_shiftLeft]
      exact Nat.mod_eq_of_lt count.fits
    rw [word, size, List.length_append, List.length_append]
    exact Nat.add_le_add_right (encodeUnsigned_shortest count.groups) _

theorem read_words {items : List Item} {data : ByteArray} {pos : Nat} (small : data.size < addressLimit)
    (fits : ∀ item ∈ items, item.Fits) (occurs : Occurs (items.flatMap word) data pos) :
    (items.map kind).mapM Kind.read data pos = .ok items (pos + (items.flatMap word).length) := by
  induction items generalizing pos with
  | nil => rfl
  | cons item items ih =>
    rw [List.flatMap_cons] at occurs ⊢
    obtain ⟨here, there⟩ := Occurs.append.mp occurs
    have first := item.kind.read_recognizes.complete small (spelled_word (fits item List.mem_cons_self)) here
    have rest := ih (fun other among => fits other (List.mem_cons_of_mem _ among)) there
    rw [List.map_cons, List.mapM_cons, List.length_append, ← Nat.add_assoc]
    exact Decoder.bind_ok_iff.mpr ⟨item, _, first, Decoder.bind_ok_iff.mpr ⟨items, _, rest, rfl⟩⟩

/-- Items that are written one after another are read back one after another, whatever is written behind them, if there
    are no more bytes than can be addressed. Nothing that is read as one of them is shorter than what is written for
    it. -/
theorem items_read_back (w : Writer) (items : List Item) (behind : ByteArray) (fits : ∀ item ∈ items, item.Fits)
    (small : ((items.foldl Writer.put w).bytes ++ behind).size < addressLimit) :
    (items.map kind).mapM Kind.read ((items.foldl Writer.put w).bytes ++ behind) w.bytes.size =
        .ok items (items.foldl Writer.put w).bytes.size ∧
      ∀ (item : Item) (code : ByteArray), item.kind.read code 0 = .ok item code.size →
        (Writer.empty.put item).bytes.size ≤ code.size := by
  constructor
  · have occurs : Occurs (items.flatMap word) ((items.foldl Writer.put w).bytes ++ behind) w.bytes.size :=
      ⟨w.bytes.data.toList, behind.data.toList, by simp [bytes_puts], by simp⟩
    have read := read_words small fits occurs
    have stop : (items.foldl Writer.put w).bytes.size = w.bytes.size + (items.flatMap word).length := by
      simp [bytes_puts]
    rwa [← stop] at read
  · intro item code done
    obtain ⟨u, spelled, -, stop⟩ := item.kind.read_recognizes.sound done (Nat.zero_le _)
    have shortest := length_word_le spelled
    rw [bytes_put, ByteArray.size_append, List.size_toByteArray, stop, Nat.zero_add]
    exact (Nat.zero_add _).trans_le shortest

/-- An item of each kind, numbers at the ends of their ranges and a float that is not a number among them. -/
def mixed : List Item :=
  [.byte 0x80, .signed .w32 (-7), .unsigned .w64 (-1), .signed .w64 (BitVec.intMin 64), .bytes ⟨#[0xFF, 0x00]⟩,
    .float .w32 0x7FC00001, .name "mé"]

/-- They are read back although a byte behind them could continue the last one. -/
theorem items_read_back_mixed : (∀ item ∈ mixed, item.Fits) ∧
    (mixed.foldl Writer.put .empty).bytes.size = 32 ∧
    (mixed.map kind).mapM Kind.read ((mixed.foldl Writer.put .empty).bytes ++ ⟨#[0x80]⟩) 0 = .ok mixed 32 := by
  have short : "mé".utf8ByteSize < 2 ^ 32 := by decide
  have fits : ∀ item ∈ mixed, item.Fits := by simpa [mixed, Fits] using short
  have size : (mixed.foldl Writer.put .empty).bytes.size = 32 := by decide +kernel
  have read := (items_read_back .empty mixed ⟨#[0x80]⟩ fits (by rw [ByteArray.size_append, size]; decide)).1
  rw [size] at read
  exact ⟨fits, size, read⟩

end Item
end Wasm
