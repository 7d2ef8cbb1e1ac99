import Wasm.Proofs.Reading

/-! Spellings: which bytes stand for a value. A reader recognizes a spelling if it succeeds on just the bytes that stand
    for a value, gives that value, and stops behind them. -/

namespace Wasm

/-- Which bytes stand for a value. -/
abbrev Spelling (α : Type) : Type := α → List UInt8 → Prop

theorem toByteArray_toList (data : ByteArray) : data.data.toList.toByteArray = data :=
  ByteArray.ext (by simp)

/-! ### Bytes in an input -/

/-- The input has the given bytes from a position on. -/
def Occurs (word : List UInt8) (data : ByteArray) (pos : Nat) : Prop :=
  ∃ before after, data.data.toList = before ++ word ++ after ∧ before.length = pos

namespace Occurs
variable {u v word : List UInt8} {data : ByteArray} {pos : Nat} {b : UInt8}

theorem bound (h : Occurs word data pos) : pos + word.length ≤ data.size := by
  obtain ⟨before, after, whole, rfl⟩ := h
  have := congrArg List.length whole
  simp only [Array.length_toList, ByteArray.size_data, List.length_append] at this
  omega

theorem length_take (h : pos ≤ data.size) : (data.data.toList.take pos).length = pos := by
  simpa using Nat.min_eq_left h

theorem nil (h : pos ≤ data.size) : Occurs [] data pos :=
  ⟨data.data.toList.take pos, data.data.toList.drop pos, by simp, length_take h⟩

theorem all (data : ByteArray) : Occurs data.data.toList data 0 := ⟨[], [], by simp, rfl⟩

theorem append : Occurs (u ++ v) data pos ↔ Occurs u data pos ∧ Occurs v data (pos + u.length) := by
  constructor
  · rintro ⟨before, after, whole, rfl⟩
    exact ⟨⟨before, v ++ after, by simp [whole], rfl⟩, ⟨before ++ u, after, by simp [whole], by simp⟩⟩
  · rintro ⟨⟨before, after, whole, rfl⟩, before', after', whole', length⟩
    rw [whole, List.append_assoc before'] at whole'
    obtain ⟨rfl, rfl⟩ := List.append_inj whole' (by simp [length])
    exact ⟨before, after', by simp [whole], rfl⟩

theorem singleton : Occurs [b] data pos ↔ ∃ h : pos < data.size, data[pos] = b := by
  constructor
  · rintro ⟨before, after, whole, rfl⟩
    have inside := bound ⟨before, after, whole, rfl⟩
    refine ⟨inside, ?_⟩
    have there : data.data.toList[before.length]? = some b := by simp [whole]
    rw [Array.getElem?_toList, Array.getElem?_eq_getElem inside] at there
    exact Option.some.inj there
  · rintro ⟨inside, rfl⟩
    refine ⟨data.data.toList.take pos, data.data.toList.drop (pos + 1), ?_, length_take (Nat.le_of_lt inside)⟩
    rw [ByteArray.getElem_eq_getElem_data, ← Array.getElem_toList, List.append_assoc, List.singleton_append,
      ← List.drop_eq_getElem_cons, List.take_append_drop]

theorem cons : Occurs (b :: word) data pos ↔ Occurs [b] data pos ∧ Occurs word data (pos + 1) :=
  append (u := [b])

/-- A byte between two words. -/
theorem mark : Occurs (u ++ b :: v) data pos ↔
    Occurs u data pos ∧ Occurs [b] data (pos + u.length) ∧ Occurs v data (pos + u.length + 1) := by
  rw [append, cons]

/-- A part of the input occurs where it was taken from. -/
theorem of_extract {n : Nat} (h : pos + n ≤ data.size) : Occurs (data.extract pos (pos + n)).data.toList data pos := by
  refine ⟨data.data.toList.take pos, data.data.toList.drop (pos + n), ?_, length_take (by omega)⟩
  rw [ByteArray.data_extract, Array.toList_extract, List.extract_eq_take_drop, List.append_assoc,
    Nat.add_sub_cancel_left, ← List.drop_drop, List.take_append_drop, List.take_append_drop]

theorem extract (h : Occurs word data pos) : data.extract pos (pos + word.length) = word.toByteArray := by
  obtain ⟨before, after, whole, rfl⟩ := h
  rw [← toByteArray_toList data, whole, List.toByteArray_append, List.toByteArray_append, ByteArray.append_assoc,
    ← ByteArray.append_assoc]
  apply ByteArray.ext
  apply Array.toList_inj.mp
  simp [List.extract_eq_take_drop]

/-- Bytes that fill the input are the input. -/
theorem eq_of_size (h : Occurs word data 0) (size : word.length = data.size) : data = word.toByteArray := by
  rw [← h.extract, Nat.zero_add, size, ByteArray.extract_zero_size]

end Occurs

/-! ### Readers of spellings -/

/-- The reader succeeds on just the bytes that stand for a value, gives that value, and stops behind them. -/
structure Decoder.Recognizes {ε α : Type} (r : Decoder ε α) (L : Spelling α) : Prop where
  sound : ∀ {data : ByteArray} {pos next : Nat} {a : α}, r data pos = .ok a next → pos ≤ data.size →
    ∃ word, L a word ∧ Occurs word data pos ∧ next = pos + word.length
  complete : ∀ {data : ByteArray} {pos : Nat} {a : α} {word : List UInt8}, data.size < addressLimit → L a word →
    Occurs word data pos → r data pos = .ok a (pos + word.length)

namespace Decoder.Recognizes
variable {ε α β : Type} {r : Decoder ε α} {L L' : Spelling α}

/-- Where a reader fails on no bytes, no bytes stand for nothing. -/
theorem proper (h : r.Recognizes L) {e : ε} {pos : Nat} (empty : r .empty 0 = .error e pos) (a : α) : ¬L a [] := by
  intro spelled
  have done := h.complete (by decide) spelled (.nil (Nat.zero_le (ByteArray.size .empty)))
  rw [empty] at done
  cases done

theorem congr (h : r.Recognizes L) (same : ∀ a word, L' a word ↔ L a word) : r.Recognizes L' where
  sound done inside := by
    obtain ⟨word, spelled, rest⟩ := h.sound done inside
    exact ⟨word, (same _ _).mpr spelled, rest⟩
  complete small spelled := h.complete small ((same _ _).mp spelled)

theorem pure (a : α) : (Pure.pure a : Decoder ε α).Recognizes fun b word => a = b ∧ word = [] where
  sound done inside := by
    cases done
    exact ⟨[], ⟨rfl, rfl⟩, .nil inside, rfl⟩
  complete := by
    rintro data pos _ _ - ⟨rfl, rfl⟩ -
    rfl

/-- One value behind the other. -/
theorem bind {f : α → Decoder ε β} {M : α → Spelling β} (hr : r.Recognizes L) (hf : ∀ a, (f a).Recognizes (M a)) :
    (r >>= f).Recognizes fun b word => ∃ a u v, L a u ∧ M a b v ∧ word = u ++ v where
  sound done inside := by
    obtain ⟨a, mid, first, second⟩ := bind_ok_iff.mp done
    obtain ⟨u, hu, here, rfl⟩ := hr.sound first inside
    obtain ⟨v, hv, there, rfl⟩ := (hf a).sound second here.bound
    exact ⟨u ++ v, ⟨a, u, v, hu, hv, rfl⟩, Occurs.append.mpr ⟨here, there⟩, by rw [List.length_append, Nat.add_assoc]⟩
  complete := by
    rintro data pos b _ small ⟨a, u, v, hu, hv, rfl⟩ occurs
    obtain ⟨here, there⟩ := Occurs.append.mp occurs
    rw [List.length_append, ← Nat.add_assoc]
    exact bind_ok_iff.mpr ⟨a, _, hr.complete small hu here, (hf a).complete small hv there⟩

/-- A value made from another. -/
theorem map (hr : r.Recognizes L) (f : α → β) :
    (do return f (← r) : Decoder ε β).Recognizes fun b word => ∃ a, f a = b ∧ L a word :=
  (hr.bind fun a => pure (f a)).congr fun b word => by
    constructor
    · rintro ⟨a, rfl, h⟩
      exact ⟨a, word, [], h, ⟨rfl, rfl⟩, by simp⟩
    · rintro ⟨a, u, _, h, ⟨rfl, rfl⟩, rfl⟩
      exact ⟨a, rfl, by simpa using h⟩

/-- A value that is spelled by no bytes, and is the only one. -/
theorem of_pure {a : α} (spelled : L a []) (only : ∀ {b word}, L b word → a = b ∧ word = []) :
    (Pure.pure a : Decoder ε α).Recognizes L :=
  (pure a).congr fun b word => ⟨only, by rintro ⟨rfl, rfl⟩; exact spelled⟩

/-- The values made from others, if they are spelled as these are. -/
theorem of_map {M : Spelling β} (hr : r.Recognizes L) {f : α → β} (spelled : ∀ {a word}, L a word → M (f a) word)
    (only : ∀ {b word}, M b word → ∃ a, f a = b ∧ L a word) : (do return f (← r) : Decoder ε β).Recognizes M :=
  (hr.map f).congr fun b word => ⟨only, by rintro ⟨a, rfl, h⟩; exact spelled h⟩

theorem fails (h : ∀ data pos a next, r data pos ≠ .ok a next) (none : ∀ a word, ¬L a word) : r.Recognizes L where
  sound done := absurd done (h _ _ _ _)
  complete _ spelled := absurd spelled (none _ _)

/-- The position does not matter. -/
theorem position {f : Nat → Reader α} (h : ∀ pos, (f pos).Recognizes L) : (Reader.position >>= f).Recognizes L where
  sound done := (h _).sound done
  complete small := (h _).complete small

theorem reject {rule : FormatRule} {offset : Nat} (h : ∀ a word, ¬L a word) : (Reader.reject rule offset).Recognizes L :=
  fails (fun _ _ _ _ done => by cases done) h

/-- A value, unless something is wrong with it. -/
theorem guard {c : Prop} [Decidable c] {rule : FormatRule} {offset : Nat} (a : α) :
    (if c then Reader.reject rule offset else Pure.pure a).Recognizes fun b word => ¬c ∧ a = b ∧ word = [] := by
  split
  · rename_i wrong
    exact .reject fun _ _ h => h.1 wrong
  · rename_i right
    exact (Recognizes.pure a).congr fun b word => and_iff_right right

/-- A byte, and what stands for a value behind it. -/
theorem byte {f : UInt8 → Reader α} (proper : ∀ a, ¬L a [])
    (h : ∀ b, (f b).Recognizes fun a word => L a (b :: word)) : (Reader.byte >>= f).Recognizes L where
  sound done inside := by
    obtain ⟨b, mid, first, second⟩ := bind_ok_iff.mp done
    obtain ⟨here, rfl, rfl⟩ := Reader.byte_eq_ok.mp first
    obtain ⟨word, spelled, there, rfl⟩ := (h _).sound second here
    exact ⟨_ :: word, spelled, Occurs.cons.mpr ⟨Occurs.singleton.mpr ⟨here, rfl⟩, there⟩, by simp; omega⟩
  complete := by
    rintro data pos a (_ | ⟨b, word⟩) small spelled occurs
    · exact absurd spelled (proper a)
    · obtain ⟨first, there⟩ := Occurs.cons.mp occurs
      obtain ⟨here, rfl⟩ := Occurs.singleton.mp first
      rw [List.length_cons, Nat.add_comm word.length, ← Nat.add_assoc]
      exact bind_ok_iff.mpr ⟨_, _, Reader.byte_eq_ok.mpr ⟨here, rfl, rfl⟩, (h _).complete small spelled there⟩

end Decoder.Recognizes

namespace Reader

theorem bytes_eq_ok {n : Nat} {data part : ByteArray} {pos next : Nat} :
    bytes n data pos = .ok part next ↔
      pos + n < addressLimit ∧ pos + n ≤ data.size ∧ data.extract pos (pos + n) = part ∧ next = pos + n := by
  unfold bytes peekBytes
  split <;> rename_i h
  · split at h
    · cases h
    · split at h <;> cases h
      grind
  · split at h
    · grind
    · split at h <;> cases h
      grind

/-- As many bytes stand for themselves. -/
theorem bytes_recognizes (n : Nat) : (bytes n).Recognizes fun part word => word.length = n ∧ part = word.toByteArray where
  sound {data pos _ _} done _ := by
    obtain ⟨-, inside, rfl, rfl⟩ := bytes_eq_ok.mp done
    have length : (data.extract pos (pos + n)).data.toList.length = n := by
      rw [Array.length_toList, ByteArray.size_data, ByteArray.size_extract]
      omega
    exact ⟨_, ⟨length, (toByteArray_toList _).symm⟩, .of_extract inside, by rw [length]⟩
  complete := by
    rintro data pos _ word small ⟨rfl, rfl⟩ occurs
    have inside := occurs.bound
    exact bytes_eq_ok.mpr ⟨by omega, inside, occurs.extract, rfl⟩

end Reader

/-! ### Values in a row -/

/-- The values one behind the other. -/
inductive Spelling.Items {α : Type} (L : Spelling α) : Spelling (List α)
  | nil : Items L [] []
  | cons {a as u v} : L a u → Items L as v → Items L (a :: as) (u ++ v)

namespace Spelling.Items
variable {α : Type} {L : Spelling α} {as : List α} {word : List UInt8}

theorem mem (h : L.Items as word) {a : α} (ha : a ∈ as) : ∃ u, L a u := by
  induction h with
  | nil => cases ha
  | cons first _ ih =>
    rcases List.mem_cons.mp ha with rfl | ha
    · exact ⟨_, first⟩
    · exact ih ha

/-- Values that take a byte at least are not more than the bytes. -/
theorem length_le (proper : ∀ a, ¬L a []) (h : L.Items as word) : as.length ≤ word.length := by
  induction h with
  | nil => exact Nat.le_refl _
  | @cons a as u v first _ ih =>
    have some : u ≠ [] := fun empty => proper a (empty ▸ first)
    have := List.length_pos_iff.mpr some
    rw [List.length_cons, List.length_append]
    omega

end Spelling.Items

namespace Reader
variable {α : Type} {item : Reader α} {L : Spelling α}

theorem items_recognizes (h : item.Recognizes L) : ∀ n done, (items item n done).Recognizes fun all word =>
    ∃ as, as.length = n ∧ done ++ as.toArray = all ∧ L.Items as word
  | 0, done => (Decoder.Recognizes.pure done).congr fun all word => by
    constructor
    · rintro ⟨as, empty, rfl, spelled⟩
      obtain rfl := List.length_eq_zero_iff.mp empty
      cases spelled
      simp
    · rintro ⟨rfl, rfl⟩
      exact ⟨[], rfl, by simp, .nil⟩
  | n + 1, done => (h.bind fun a => items_recognizes h n (done.push a)).congr fun all word => by
    constructor
    · rintro ⟨as, length, rfl, spelled⟩
      cases spelled with
      | nil => cases length
      | cons first rest => exact ⟨_, _, _, first, ⟨_, Nat.succ.inj length, by simp, rest⟩, rfl⟩
    · rintro ⟨a, u, v, first, ⟨as, rfl, rfl, rest⟩, rfl⟩
      exact ⟨a :: as, rfl, by simp, .cons first rest⟩

end Reader
end Wasm
