import Wasm.Proofs.Result
import Wasm.Exec.Plain

/-! When the operations on the stack and on the store succeed, and what they leave. -/

namespace Wasm

/-! ### The stack -/

namespace Stack
variable {s t : Stack}

theorem pop_eq_ok {v : Value} : pop s = .ok v t ↔ s.values = t.values.push v := by
  obtain ⟨values⟩ := s
  obtain ⟨values'⟩ := t
  unfold pop
  dsimp only
  constructor
  · intro h
    cases last : values.back? with
    | none => rw [last] at h; cases h
    | some w =>
      rw [last] at h
      cases h
      obtain ⟨ys, rfl⟩ := Array.back?_eq_some_iff.mp last
      rw [Array.pop_push]
  · rintro rfl
    rw [Array.back?_push, Array.pop_push]

theorem popInt_eq_ok {w : Width} {x : BitVec w.bits} : popInt w s = .ok x t ↔ s.values = t.values.push (.int w x) := by
  unfold popInt
  rw [bind_eq_ok]
  constructor
  · rintro ⟨v, u, popped, h⟩
    cases found : v.int? w with
    | none => rw [found] at h; cases h
    | some y =>
      rw [found] at h
      cases h
      rw [pop_eq_ok.mp popped, Value.int?_eq_some.mp found]
  · intro h
    refine ⟨_, t, pop_eq_ok.mpr h, ?_⟩
    rw [Value.int?_eq_some.mpr rfl]
    rfl

theorem popFloat_eq_ok {w : Width} {x : BitVec w.bits} :
    popFloat w s = .ok x t ↔ s.values = t.values.push (.float w x) := by
  unfold popFloat
  rw [bind_eq_ok]
  constructor
  · rintro ⟨v, u, popped, h⟩
    cases found : v.float? w with
    | none => rw [found] at h; cases h
    | some y =>
      rw [found] at h
      cases h
      rw [pop_eq_ok.mp popped, Value.float?_eq_some.mp found]
  · intro h
    refine ⟨_, t, pop_eq_ok.mpr h, ?_⟩
    rw [Value.float?_eq_some.mpr rfl]
    rfl

theorem popType_eq_ok {type : ValType} {v : Value} :
    popType type s = .ok v t ↔ s.values = t.values.push v ∧ v.type = type := by
  unfold popType
  rw [bind_eq_ok]
  constructor
  · rintro ⟨u, middle, popped, h⟩
    by_cases same : u.type = type
    · rw [if_pos same] at h
      cases h
      exact ⟨pop_eq_ok.mp popped, same⟩
    · rw [if_neg same] at h
      cases h
  · rintro ⟨h, same⟩
    refine ⟨v, t, pop_eq_ok.mpr h, ?_⟩
    rw [if_pos same]
    rfl

theorem popAddress_eq_ok {n : Nat} :
    popAddress s = .ok n t ↔ ∃ x : BitVec 32, s.values = t.values.push (.i32 x) ∧ x.toNat = n := by
  unfold popAddress
  rw [bind_eq_ok]
  constructor
  · rintro ⟨x, u, popped, h⟩
    cases h
    exact ⟨x, popInt_eq_ok.mp popped, rfl⟩
  · rintro ⟨x, h, rfl⟩
    exact ⟨x, t, popInt_eq_ok.mpr h, rfl⟩

theorem get_eq_ok {index : Nat} {v : Value} : get index s = .ok v t ↔ s.values[index]? = some v ∧ t = s := by
  unfold get
  constructor
  · intro h
    split at h <;> cases h
    exact ⟨‹_›, rfl⟩
  · rintro ⟨h, rfl⟩
    rw [h]

theorem set_eq_ok {index : Nat} {v : Value} :
    set index v s = .ok () t ↔ index < s.values.size ∧ t.values = s.values.setIfInBounds index v := by
  obtain ⟨values⟩ := s
  obtain ⟨values'⟩ := t
  unfold set Array.setIfInBounds
  by_cases inside : index < values.size
  · simp [inside, eq_comm]
  · simp [inside]

theorem popMany_eq_ok {n : Nat} {vs : Array Value} :
    popMany n s = .ok vs t ↔ s.values = t.values ++ vs ∧ vs.size = n := by
  obtain ⟨values⟩ := s
  obtain ⟨values'⟩ := t
  unfold popMany
  dsimp only
  constructor
  · intro h
    by_cases enough : n ≤ values.size
    · rw [if_pos enough] at h
      cases h
      refine ⟨?_, ?_⟩
      · simp
      · simp
        omega
    · rw [if_neg enough] at h
      cases h
  · rintro ⟨rfl, rfl⟩
    rw [if_pos (by simp)]
    simp

theorem popMany_of_le {n : Nat} (h : n ≤ s.values.size) : popMany n s =
    .ok (s.values.extract (s.values.size - n) s.values.size) ⟨s.values.shrink (s.values.size - n)⟩ := by
  obtain ⟨values⟩ := s
  exact if_pos h

/-- Settling keeps what is below the height and the top values, and takes out what is between. -/
theorem settle_eq_ok {height arity : Nat} :
    settle height arity s = .ok () t ↔ height + arity ≤ s.values.size ∧
      t.values = s.values.extract 0 height ++ s.values.extract (s.values.size - arity) s.values.size := by
  obtain ⟨values⟩ := s
  obtain ⟨values'⟩ := t
  unfold settle remove
  by_cases enough : height + arity ≤ values.size
  · simp only [if_pos enough]
    rw [if_pos (by omega)]
    simp [enough, eq_comm]
  · simp [enough]

theorem settle_eq_error {height arity : Nat} {e : Trap} :
    settle height arity s = .error e t ↔ s.values.size < height + arity ∧ e = .stackUnderflow ∧ t = s := by
  obtain ⟨values⟩ := s
  unfold settle remove
  by_cases enough : height + arity ≤ values.size
  · simp only [if_pos enough]
    rw [if_pos (by omega)]
    simp
    omega
  · simp only [if_neg enough]
    constructor
    · intro h
      cases h
      exact ⟨Nat.lt_of_not_le enough, rfl, rfl⟩
    · rintro ⟨-, rfl, rfl⟩
      rfl

end Stack

/-! ### The store -/

namespace Store
variable {α : Type} {s t : Store}

theorem onStack_eq_ok {op : Stack.Op α} {a : α} :
    onStack op s = .ok a t ↔ ∃ stack, op s.stack = .ok a stack ∧ t = { s with stack } := by
  unfold onStack
  dsimp only
  constructor
  · intro h
    split at h <;> cases h
    exact ⟨_, ‹_›, rfl⟩
  · rintro ⟨stack, h, rfl⟩
    rw [h]

theorem onStack_eq_error {op : Stack.Op α} {e : Trap} :
    onStack op s = .error e t ↔ ∃ stack, op s.stack = .error e stack ∧ t = { s with stack } := by
  unfold onStack
  dsimp only
  constructor
  · intro h
    split at h <;> cases h
    exact ⟨_, ‹_›, rfl⟩
  · rintro ⟨stack, h, rfl⟩
    rw [h]

/-- While a memory is out of the table, nothing looks for it there. -/
theorem onMemory_eq {index : Nat} {m : Memory} (found : s.memories[index]? = some m) (op : Memory.Op α) :
    onMemory index op s = mapState (fun m => { s with memories := s.memories.setIfInBounds index m }) (op m) := by
  unfold onMemory
  rw [found]
  dsimp only
  cases op m <;> simp only [Array.setIfInBounds_setIfInBounds, mapState]

theorem onMemory_missing {index : Nat} (op : Memory.Op α) (missing : s.memories[index]? = none) :
    onMemory index op s = .error (.missingMemory index) s := by
  unfold onMemory
  rw [missing]

theorem onMemory_eq_ok {index : Nat} {op : Memory.Op α} {a : α} :
    onMemory index op s = .ok a t ↔ ∃ m m', s.memories[index]? = some m ∧ op m = .ok a m' ∧
      t = { s with memories := s.memories.setIfInBounds index m' } := by
  cases found : s.memories[index]? with
  | none => simp [onMemory_missing op found]
  | some m =>
    rw [onMemory_eq found]
    constructor
    · intro h
      unfold mapState at h
      split at h <;> cases h
      exact ⟨m, _, rfl, ‹_›, rfl⟩
    · rintro ⟨_, m', same, h, rfl⟩
      cases same
      rw [h]
      rfl

/-- An operation on a memory that fails changes that memory at most. -/
theorem onMemory_eq_error {index : Nat} {op : Memory.Op α} {e : Trap} (h : onMemory index op s = .error e t) :
    t = s ∨ ∃ m m', s.memories[index]? = some m ∧ op m = .error e m' ∧
      t = { s with memories := s.memories.setIfInBounds index m' } := by
  cases found : s.memories[index]? with
  | none =>
    rw [onMemory_missing op found] at h
    cases h
    exact .inl rfl
  | some m =>
    rw [onMemory_eq found] at h
    unfold mapState at h
    split at h <;> cases h
    exact .inr ⟨m, _, rfl, ‹_›, rfl⟩

theorem global_eq_ok {index : Nat} {v : Value} :
    global index s = .ok v t ↔ (∃ g, s.globals[index]? = some g ∧ g.value = v) ∧ t = s := by
  unfold global
  constructor
  · intro h
    split at h <;> cases h
    exact ⟨⟨_, ‹_›, rfl⟩, rfl⟩
  · rintro ⟨⟨g, found, rfl⟩, rfl⟩
    rw [found]

theorem global_eq_error {index : Nat} {e : Trap} (h : global index s = .error e t) : t = s := by
  unfold global at h
  split at h <;> cases h
  rfl

theorem setGlobal_eq_ok {index : Nat} {v : Value} :
    setGlobal index v s = .ok () t ↔ ∃ g, s.globals[index]? = some g ∧ g.isConstant = false ∧ g.value.type = v.type ∧
      t = { s with
        globals := s.globals.setIfInBounds index { g with value := v }
        effects := s.effects + 1 } := by
  unfold setGlobal
  cases s.globals[index]? with
  | none => simp
  | some g =>
    dsimp only
    constructor
    · intro h
      split at h
      · cases h
      · rename_i isVariable
        split at h
        · cases h
        · rename_i sameType
          cases h
          exact ⟨g, rfl, by simpa using isVariable, Decidable.not_not.mp sameType, rfl⟩
    · rintro ⟨_, found, isVariable, sameType, rfl⟩
      cases found
      rw [isVariable, if_neg (by simp), if_neg (by simp [sameType])]

/-- A global that cannot be given a value stays as it is. -/
theorem setGlobal_eq_error {index : Nat} {v : Value} {e : Trap} (h : setGlobal index v s = .error e t) : t = s := by
  unfold setGlobal at h
  repeat' split at h
  all_goals cases h
  all_goals rfl

theorem segment_eq_ok {index offset n : Nat} {bytes : ByteArray} :
    segment index offset n s = .ok bytes t ↔ (∃ part, s.data[index]? = some part ∧ offset + n ≤ part.size ∧
      part.extract offset (offset + n) = bytes) ∧ t = s := by
  unfold segment
  cases s.data[index]? with
  | none => simp
  | some part =>
    dsimp only
    by_cases inside : offset + n ≤ part.size
    · rw [if_pos inside]
      simp [inside, eq_comm]
    · rw [if_neg inside]
      simp [inside]

theorem segment_eq_error {index offset n : Nat} {e : Trap} (h : segment index offset n s = .error e t) : t = s := by
  unfold segment at h
  repeat' split at h
  all_goals cases h
  all_goals rfl

theorem dropSegment_eq_ok {index : Nat} : dropSegment index s = .ok () t ↔
    index < s.data.size ∧ t = { s with data := s.data.setIfInBounds index .empty } := by
  unfold dropSegment
  by_cases inside : index < s.data.size
  · rw [if_pos inside]
    simp [inside, eq_comm]
  · rw [if_neg inside]
    simp [inside]

theorem dropSegment_eq_error {index : Nat} {e : Trap} (h : dropSegment index s = .error e t) : t = s := by
  unfold dropSegment at h
  split at h <;> cases h
  rfl

end Store
end Wasm
