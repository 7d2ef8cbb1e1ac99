import Wasm.Proofs.Operations
import Wasm.Exec.Activation

/-! Stacks whose values above a certain part have known types. What lies under them stays as it is. -/

namespace Wasm
namespace Value

/-- The types of values, in order. -/
def types (vs : Array Value) : List ValType := vs.toList.map type

@[simp] theorem types_empty : types #[] = [] := rfl

@[simp] theorem types_append (vs ws : Array Value) : types (vs ++ ws) = types vs ++ types ws := by simp [types]

@[simp] theorem types_push (vs : Array Value) (v : Value) : types (vs.push v) = types vs ++ [v.type] := by simp [types]

@[simp] theorem length_types (vs : Array Value) : (types vs).length = vs.size := by simp [types]

@[simp] theorem types_zeros (ts : List ValType) : types (zeros ts) = ts := by
  induction ts with
  | nil => rfl
  | cons t ts ih => simpa [types, zeros] using ih

theorem types_getElem? (vs : Array Value) (i : Nat) : (types vs)[i]? = vs[i]?.map type := by simp [types]

theorem extract_below (vs ws : Array Value) : (vs ++ ws).extract 0 vs.size = vs := by simp

theorem extract_above (vs ws : Array Value) : (vs ++ ws).extract vs.size (vs ++ ws).size = ws := by simp

theorem types_eq_append {vs : Array Value} {ts us : List ValType} (h : types vs = ts ++ us) :
    ∃ below above, vs = below ++ above ∧ types below = ts ∧ types above = us := by
  obtain ⟨below, above, split, rfl, rfl⟩ := List.map_eq_append_iff.mp h
  refine ⟨below.toArray, above.toArray, Array.ext' ?_, rfl, rfl⟩
  simpa using split

theorem types_eq_concat {vs : Array Value} {ts : List ValType} {t : ValType} (h : types vs = ts ++ [t]) :
    ∃ below v, vs = below.push v ∧ types below = ts ∧ v.type = t := by
  obtain ⟨below, above, rfl, lower, upper⟩ := types_eq_append h
  obtain ⟨v, rfl⟩ := Array.size_eq_one_iff.mp (show above.size = 1 by rw [← length_types, upper]; rfl)
  exact ⟨below, v, by simp, lower, by simpa [types] using upper⟩

/-- No value is found to be of another type than expected. -/
theorem find?_mismatch {vs : Array Value} {ts : List ValType} (h : types vs = ts) :
    (vs.toList.zip ts).find? (fun (v, t) => v.type ≠ t) = none := by
  subst h
  unfold types
  induction vs.toList with
  | nil => rfl
  | cons v vs ih => simpa using ih

theorem eq_int_of_type {v : Value} {w : Width} (h : v.type = w.int) : ∃ x, v = int w x := by
  cases w <;> cases v <;> first | exact ⟨_, rfl⟩ | cases h

theorem eq_float_of_type {v : Value} {w : Width} (h : v.type = w.float) : ∃ x, v = float w x := by
  cases w <;> cases v <;> first | exact ⟨_, rfl⟩ | cases h

end Value

namespace Stack

/-- Above some values there are values of the types. -/
def Holds (under : Array Value) (ts : List ValType) (s : Stack) : Prop :=
  ∃ frame, s.values = under ++ frame ∧ Value.types frame = ts

variable {under : Array Value} {ts us vs : List ValType} {t : ValType} {s : Stack} {E : Trap → Prop}

theorem Holds.size (h : s.Holds under ts) : s.values.size = under.size + ts.length := by
  obtain ⟨frame, whole, rfl⟩ := h
  simp [whole]

theorem Holds.split (h : s.Holds under (ts ++ us)) : ∃ frame values, s.values = under ++ frame ++ values ∧
    Value.types frame = ts ∧ Value.types values = us := by
  obtain ⟨frame, whole, types⟩ := h
  obtain ⟨below, above, rfl, lower, upper⟩ := Value.types_eq_append types
  exact ⟨below, above, by rw [whole, Array.append_assoc], lower, upper⟩

theorem Holds.get (h : s.Holds under ts) {i : Nat} (found : ts[i]? = some t) :
    ∃ v, s.values[under.size + i]? = some v ∧ v.type = t := by
  obtain ⟨frame, whole, rfl⟩ := h
  rw [Value.types_getElem?, Option.map_eq_some_iff] at found
  obtain ⟨v, found, rfl⟩ := found
  exact ⟨v, by simp [whole, Array.getElem?_append, found], rfl⟩

theorem pop_holds : Ensures (Holds under (ts ++ [t])) pop (fun v s => v.type = t ∧ s.Holds under ts) E := by
  refine .of_ok fun s ⟨frame, whole, types⟩ => ?_
  obtain ⟨below, v, rfl, lower, rfl⟩ := Value.types_eq_concat types
  exact ⟨v, ⟨under ++ below⟩, pop_eq_ok.mpr (by simp [whole]), rfl, below, rfl, lower⟩

theorem popInt_holds (w : Width) : Ensures (Holds under (ts ++ [w.int])) (popInt w) (fun _ => Holds under ts) E := by
  refine .of_ok fun s ⟨frame, whole, types⟩ => ?_
  obtain ⟨below, v, rfl, lower, int⟩ := Value.types_eq_concat types
  obtain ⟨x, rfl⟩ := Value.eq_int_of_type int
  exact ⟨x, ⟨under ++ below⟩, popInt_eq_ok.mpr (by simp [whole]), below, rfl, lower⟩

theorem popFloat_holds (w : Width) : Ensures (Holds under (ts ++ [w.float])) (popFloat w) (fun _ => Holds under ts) E := by
  refine .of_ok fun s ⟨frame, whole, types⟩ => ?_
  obtain ⟨below, v, rfl, lower, float⟩ := Value.types_eq_concat types
  obtain ⟨x, rfl⟩ := Value.eq_float_of_type float
  exact ⟨x, ⟨under ++ below⟩, popFloat_eq_ok.mpr (by simp [whole]), below, rfl, lower⟩

theorem popType_holds (t : ValType) : Ensures (Holds under (ts ++ [t])) (popType t) (fun _ => Holds under ts) E := by
  refine .of_ok fun s ⟨frame, whole, types⟩ => ?_
  obtain ⟨below, v, rfl, lower, type⟩ := Value.types_eq_concat types
  exact ⟨v, ⟨under ++ below⟩, popType_eq_ok.mpr ⟨by simp [whole], type⟩, below, rfl, lower⟩

theorem popAddress_holds : Ensures (Holds under (ts ++ [.i32])) popAddress (fun _ => Holds under ts) E :=
  (popInt_holds .w32).bind fun _ => .pure fun _ h => h

theorem push_holds {v : Value} (type : v.type = t) :
    Ensures (Holds under ts) (push v) (fun _ => Holds under (ts ++ [t])) E := by
  refine .of_ok fun s ⟨frame, whole, types⟩ => ⟨(), ⟨s.values.push v⟩, rfl, frame.push v, ?_, ?_⟩
  · simp [whole]
  · simp [types, type]

theorem pushMany_holds {values : Array Value} (pushed : Value.types values = us) :
    Ensures (Holds under ts) (pushMany values) (fun _ => Holds under (ts ++ us)) E := by
  refine .of_ok fun s ⟨frame, whole, types⟩ => ⟨(), ⟨s.values ++ values⟩, rfl, frame ++ values, ?_, ?_⟩
  · simp [whole]
  · simp [types, pushed]

theorem get_holds {i : Nat} (found : ts[i]? = some t) :
    Ensures (Holds under ts) (get (under.size + i)) (fun v s => v.type = t ∧ s.Holds under ts) E := by
  refine .of_ok fun s h => ?_
  obtain ⟨v, read, type⟩ := h.get found
  exact ⟨v, s, get_eq_ok.mpr ⟨read, rfl⟩, type, h⟩

theorem set_holds {i : Nat} {v : Value} (found : ts[i]? = some v.type) :
    Ensures (Holds under ts) (set (under.size + i) v) (fun _ => Holds under ts) E := by
  refine .of_ok fun s h => ?_
  obtain ⟨old, read, -⟩ := h.get found
  obtain ⟨frame, whole, rfl⟩ := h
  have inside := (Array.getElem?_eq_some_iff.mp read).1
  refine ⟨(), ⟨s.values.setIfInBounds (under.size + i) v⟩, set_eq_ok.mpr ⟨inside, rfl⟩, frame.setIfInBounds i v, ?_, ?_⟩
  · simp [whole, Array.setIfInBounds_append_right]
  · apply List.ext_getElem?
    intro j
    rw [Value.types_getElem?, Array.getElem?_setIfInBounds]
    split
    · rename_i same
      subst same
      rw [found]
      simp [whole] at inside
      simp [inside]
    · rw [Value.types_getElem?]

theorem popMany_holds (us : List ValType) : Ensures (Holds under (ts ++ us)) (popMany us.length)
    (fun vs s => Value.types vs = us ∧ s.Holds under ts) E := by
  refine .of_ok fun s h => ?_
  obtain ⟨frame, values, whole, lower, upper⟩ := h.split
  exact ⟨values, ⟨under ++ frame⟩, popMany_eq_ok.mpr ⟨whole, by rw [← Value.length_types, upper]⟩, upper, frame, rfl, lower⟩

theorem truncate_holds (ts us : List ValType) :
    Ensures (Holds under (ts ++ us)) (truncate (under.size + ts.length)) (fun _ => Holds under ts) E := by
  refine .of_ok fun s h => ?_
  obtain ⟨frame, values, whole, rfl, -⟩ := h.split
  refine ⟨(), _, rfl, frame, ?_, rfl⟩
  have height : under.size + (Value.types frame).length = (under ++ frame).size := by simp
  rw [whole, height, Array.shrink_eq_take, Array.take_eq_extract, Value.extract_below]

/-- Settling takes out the values between those at the bottom and those on top. -/
theorem settle_holds (ts us vs : List ValType) : Ensures (Holds under (ts ++ us ++ vs))
    (settle (under.size + ts.length) vs.length) (fun _ => Holds under (ts ++ vs)) E := by
  refine .of_ok fun s h => ?_
  have size := h.size
  obtain ⟨rest, values, whole, both, rfl⟩ := h.split
  obtain ⟨frame, between, rfl, rfl, rfl⟩ := Value.types_eq_append both
  refine ⟨(), _, settle_eq_ok.mpr ⟨?_, rfl⟩, frame ++ values, ?_, by simp⟩
  · simp [size]
    omega
  · have height : under.size + (Value.types frame).length = (under ++ frame).size := by simp
    have lower : s.values = under ++ frame ++ (between ++ values) := by simp [whole]
    have upper : s.values = under ++ frame ++ between ++ values := by simp [whole]
    have above : s.values.size - (Value.types values).length = (under ++ frame ++ between).size := by
      simp [whole]
      omega
    have kept : s.values.extract 0 (under ++ frame).size = under ++ frame := by rw [lower, Value.extract_below]
    have taken : s.values.extract (under ++ frame ++ between).size s.values.size = values := by rw [upper, Value.extract_above]
    rw [height, above, kept, taken, Array.append_assoc]

end Stack
end Wasm
