import Wasm.Proofs.Sparing
import Wasm.Proofs.Kept

/-! Two stores that are alike above a height: what instructions do to one of them they do to the other, as long as they
    spare what is below. -/

namespace Wasm

/-! ### The stack -/

/-- Above a height, both stacks have the same values, `n` at least. The second one has `k` more below. -/
structure Stack.Alike (o k n : Nat) (s t : Stack) : Prop where
  enough : o + n ≤ s.values.size
  size : t.values.size = s.values.size + k
  get : ∀ i, o ≤ i → t.values[i + k]? = s.values[i]?

namespace Stack
variable {F : Prop} {o k n : Nat} {s t : Stack}

theorem Alike.refl (s : Stack) : Alike 0 0 0 s s := ⟨by omega, rfl, fun _ _ => rfl⟩

theorem Alike.fewer {n' : Nat} (h : Alike o k n s t) (fewer : n' ≤ n) : Alike o k n' s t :=
  ⟨by have := h.enough; omega, h.size, h.get⟩

theorem Alike.more {n' : Nat} (h : Alike o k n s t) (enough : o + n' ≤ s.values.size) : Alike o k n' s t :=
  ⟨enough, h.size, h.get⟩

theorem Alike.trans {k' : Nat} {u : Stack} (h : Alike o k n s t) (h' : Alike o k' 0 t u) : Alike o (k + k') n s u := by
  refine ⟨h.enough, ?_, fun i above => ?_⟩
  · rw [h'.size, h.size, Nat.add_assoc]
  · rw [← Nat.add_assoc, h'.get (i + k) (by omega), h.get i above]

theorem pop_alike : Mirrors F (Alike o k (n + 1)) pop pop (Alike o k n) := by
  intro s t alike v s' popped
  have whole := pop_eq_ok.mp popped
  have enough := alike.enough
  have size := alike.size
  have filled : 0 < t.values.size := by omega
  obtain ⟨rest, w, ht⟩ := Array.exists_push_of_size_pos filled
  have top := alike.get s'.values.size
  rw [whole, Array.size_push] at enough
  rw [whole, ht, Array.size_push, Array.size_push] at size
  rw [whole, ht, Array.getElem?_push_size, show s'.values.size + k = rest.size by omega, Array.getElem?_push_size] at top
  have same : w = v := Option.some.inj (top (by omega))
  subst same
  rw [show pop t = .ok w ⟨rest⟩ from pop_eq_ok.mpr ht]
  refine ⟨rfl, by omega, by dsimp only; omega, fun i above => ?_⟩
  have get := alike.get i above
  rw [whole, ht, Array.getElem?_push, Array.getElem?_push] at get
  by_cases last : i = s'.values.size
  · rw [Array.getElem?_eq_none (by dsimp only; omega), Array.getElem?_eq_none (by omega)]
  · rw [if_neg (by omega), if_neg last] at get
    exact get

theorem popInt_alike (w : Width) : Mirrors F (Alike o k (n + 1)) (popInt w) (popInt w) (Alike o k n) := by
  refine pop_alike.bind fun v => ?_
  cases v.int? w with
  | some x => exact .pure
  | none => exact Simulates.throw

theorem popFloat_alike (w : Width) : Mirrors F (Alike o k (n + 1)) (popFloat w) (popFloat w) (Alike o k n) := by
  refine pop_alike.bind fun v => ?_
  cases v.float? w with
  | some x => exact .pure
  | none => exact Simulates.throw

theorem popType_alike (type : ValType) : Mirrors F (Alike o k (n + 1)) (popType type) (popType type) (Alike o k n) := by
  refine pop_alike.bind fun v => ?_
  by_cases same : v.type = type
  · rw [if_pos same]
    exact .pure
  · rw [if_neg same]
    exact Simulates.throw

theorem popAddress_alike : Mirrors F (Alike o k (n + 1)) popAddress popAddress (Alike o k n) :=
  (popInt_alike .w32).bind fun _ => .pure

theorem pushMany_alike (vs : Array Value) : Mirrors F (Alike o k n) (pushMany vs) (pushMany vs) (Alike o k n) := by
  rintro ⟨values⟩ ⟨values'⟩ ⟨enough, size, get⟩ _ _ pushed
  cases pushed
  dsimp only at enough size get
  refine ⟨rfl, ?_, ?_, fun i above => ?_⟩
  · dsimp only
    rw [Array.size_append]
    omega
  · dsimp only
    rw [Array.size_append, Array.size_append]
    omega
  · dsimp only
    rw [Array.getElem?_append, Array.getElem?_append]
    by_cases inside : i < values.size
    · rw [if_pos inside, if_pos (by omega), get i above]
    · rw [if_neg inside, if_neg (by omega), show i + k - values'.size = i - values.size by omega]

theorem push_alike (v : Value) : Mirrors F (Alike o k n) (push v) (push v) (Alike o k n) := by
  intro s t alike _ _ pushed
  cases pushed
  exact pushMany_alike (F := F) #[v] s t alike _ _ rfl

/-- The values of the second stack are found as much further up. -/
theorem get_alike {i : Nat} (above : o ≤ i) : Mirrors F (Alike o k n) (get i) (get (i + k)) (Alike o k n) := by
  intro s t alike v s' got
  obtain ⟨found, rfl⟩ := get_eq_ok.mp got
  rw [show get (i + k) t = .ok v t from get_eq_ok.mpr ⟨(alike.get i above).trans found, rfl⟩]
  exact ⟨rfl, alike⟩

theorem set_alike (i : Nat) (v : Value) :
    Mirrors F (Alike o k n) (set i v) (set (i + k) v) (Alike o k n) := by
  rintro s t ⟨enough, size, get⟩ _ s' done
  obtain ⟨inside, changed⟩ := set_eq_ok.mp done
  rw [show set (i + k) v t = .ok () ⟨t.values.setIfInBounds (i + k) v⟩ from set_eq_ok.mpr ⟨by omega, rfl⟩]
  refine ⟨rfl, ?_, ?_, fun j above => ?_⟩
  · rw [changed, Array.size_setIfInBounds]
    exact enough
  · rw [changed, Array.size_setIfInBounds, Array.size_setIfInBounds]
    exact size
  · dsimp only
    rw [changed, Array.getElem?_setIfInBounds, Array.getElem?_setIfInBounds]
    by_cases same : i = j
    · rw [if_pos same, if_pos (by omega), if_pos inside, if_pos (by omega)]
    · rw [if_neg same, if_neg (by omega), get j above]

theorem popMany_alike (count : Nat) :
    Mirrors F (Alike o k (count + n)) (popMany count) (popMany count) (Alike o k n) := by
  rintro s t ⟨enough, size, get⟩ vs s' popped
  obtain ⟨whole, rfl⟩ := popMany_eq_ok.mp popped
  rw [whole, Array.size_append] at enough size
  -- The values on top of the first stack are on top of the other one too, where it is as much higher.
  have parts : t.values = t.values.extract 0 (s'.values.size + k) ++ vs := by
    apply Array.ext_getElem?
    intro i
    rw [Array.getElem?_append, Array.size_extract, Array.getElem?_extract]
    by_cases low : i < s'.values.size + k
    · rw [if_pos (by omega), if_pos (by omega), Nat.zero_add]
    · have found := get (i - k) (by omega)
      rw [Nat.sub_add_cancel (by omega), whole, Array.getElem?_append_right (by omega)] at found
      rw [if_neg (by omega), found]
      congr 1
      omega
  rw [show popMany vs.size t = .ok vs ⟨t.values.extract 0 (s'.values.size + k)⟩ from popMany_eq_ok.mpr ⟨parts, rfl⟩]
  refine ⟨rfl, by omega, ?_, fun i above => ?_⟩
  · dsimp only
    rw [Array.size_extract]
    omega
  · have found := get i above
    dsimp only
    rw [Array.getElem?_extract]
    by_cases low : i < s'.values.size
    · rw [whole, Array.getElem?_append_left low] at found
      rw [if_pos (by omega), Nat.zero_add, found]
    · rw [if_neg (by omega), Array.getElem?_eq_none (by omega)]

theorem truncate_alike {height : Nat} (above : o + n ≤ height) :
    Mirrors F (Alike o k n) (truncate height) (truncate (height + k)) (Alike o k n) := by
  rintro ⟨values⟩ ⟨values'⟩ ⟨enough, size, get⟩ _ _ done
  cases done
  dsimp only at enough size get
  refine ⟨rfl, ?_, ?_, fun i above => ?_⟩
  · simp
    omega
  · simp
    omega
  · dsimp only
    rw [Array.shrink_eq_take, Array.shrink_eq_take, Array.take_eq_extract, Array.take_eq_extract,
      Array.getElem?_extract, Array.getElem?_extract]
    by_cases low : i < min height values.size - 0
    · rw [if_pos low, if_pos (by omega), Nat.zero_add, Nat.zero_add, get i above]
    · rw [if_neg low, if_neg (by omega)]

/-- Where the values of a settled stack come from. -/
theorem settled_getElem? {values : Array Value} {height arity : Nat} (fits : height + arity ≤ values.size) (i : Nat) :
    (values.extract 0 height ++ values.extract (values.size - arity) values.size)[i]? =
      if i < height then values[i]?
      else if i < height + arity then values[values.size - arity + (i - height)]? else none := by
  rw [Array.getElem?_append, Array.getElem?_extract, Array.getElem?_extract, Array.size_extract]
  by_cases low : i < height
  · rw [if_pos (by omega), if_pos (by omega), if_pos low, Nat.zero_add]
  · rw [if_neg (by omega), if_neg low]
    by_cases inside : i < height + arity
    · rw [if_pos (by omega), if_pos inside]
      congr 2
      omega
    · rw [if_neg (by omega), if_neg inside]

/-- Settling, at a height that is as much further up in the second stack. -/
theorem settle_alike {height arity : Nat} {s' : Stack} (alike : Alike o k 0 s t) (spares : s.SettlesAbove o height arity)
    (done : settle height arity s = .ok () s') : ∃ t', settle (height + k) arity t = .ok () t' ∧ Alike o k 0 s' t' := by
  obtain ⟨enough, size, get⟩ := alike
  obtain ⟨fits, settled⟩ := settle_eq_ok.mp done
  unfold SettlesAbove at spares
  refine ⟨⟨_⟩, settle_eq_ok.mpr ⟨by omega, rfl⟩, ?_, ?_, fun i above => ?_⟩
  · rw [settled, Array.size_append, Array.size_extract, Array.size_extract]
    omega
  · rw [settled]
    simp only [Array.size_append, Array.size_extract]
    omega
  · rw [settled, settled_getElem? fits i, settled_getElem? (by omega) (i + k)]
    by_cases low : i < height
    · rw [if_pos low, if_pos (by omega), get i above]
    · rw [if_neg low, if_neg (by omega)]
      by_cases inside : i < height + arity
      · rw [if_pos inside, if_pos (by omega), ← get (s.values.size - arity + (i - height)) (by omega)]
        congr 1
        omega
      · rw [if_neg inside, if_neg (by omega)]

end Stack

/-! ### Numbers -/

theorem Numeric.exec_alike {F : Prop} {o k : Nat} (op : Numeric) :
    Mirrors F (Stack.Alike o k op.pops) op.exec op.exec (Stack.Alike o k 0) := by
  have push := fun v => Stack.push_alike (F := F) (o := o) (k := k) (n := 0) v
  have int := fun w => Stack.popInt_alike (F := F) (o := o) (k := k) (n := 0) w
  have int' := fun w => Stack.popInt_alike (F := F) (o := o) (k := k) (n := 1) w
  have float := fun w => Stack.popFloat_alike (F := F) (o := o) (k := k) (n := 0) w
  have float' := fun w => Stack.popFloat_alike (F := F) (o := o) (k := k) (n := 1) w
  cases op with
  | eqz w => exact (int w).bind fun _ => push _
  | intUnary w op => exact (int w).bind fun _ => push _
  | intBinary w op =>
    exact (int' w).bind fun _ => (int w).bind fun _ => (Mirrors.ofExcept _).bind fun _ => push _
  | intCompare w op => exact (int' w).bind fun _ => (int w).bind fun _ => push _
  | floatUnary w op => exact (float w).bind fun _ => push _
  | floatBinary w op => exact (float' w).bind fun _ => (float w).bind fun _ => push _
  | floatCompare w op => exact (float' w).bind fun _ => (float w).bind fun _ => push _
  | wrap => exact (int .w64).bind fun _ => push _
  | extend sign => exact (int .w32).bind fun _ => push _
  | truncate target source sign => exact (float source).bind fun _ => (Mirrors.ofExcept _).bind fun _ => push _
  | truncateSat target source sign => exact (float source).bind fun _ => push _
  | convert target source sign => exact (int source).bind fun _ => push _
  | demote => exact (float .w64).bind fun _ => push _
  | promote => exact (float .w32).bind fun _ => push _
  | toBits w => exact (float w).bind fun _ => push _
  | ofBits w => exact (int w).bind fun _ => push _

/-! ### The store -/

/-- Above a height of the stack, the stores are alike. They may have other data segments and depths, unless they have
    to be alike exactly. -/
structure Store.Alike (E : Prop) (o k n : Nat) (s t : Store) : Prop where
  stack : Stack.Alike o k n s.stack t.stack
  memories : t.memories = s.memories
  globals : t.globals = s.globals
  effects : t.effects = s.effects
  shadow : t.shadow = s.shadow
  data : E → t.data = s.data
  depth : E → t.depth = s.depth
  limit : E → t.options.maxCallDepth = s.options.maxCallDepth

namespace Store
variable {E F : Prop} {o k n n' : Nat} {s t : Store} {α : Type}

theorem Alike.fewer (h : Alike E o k n s t) (fewer : n' ≤ n) : Alike E o k n' s t :=
  { h with stack := h.stack.fewer fewer }

theorem Alike.more (h : Alike E o k n s t) (enough : o + n' ≤ s.stack.values.size) : Alike E o k n' s t :=
  { h with stack := h.stack.more enough }

theorem onStack_alike {op op' : Stack.Op α} (h : Mirrors F (Stack.Alike o k n) op op' (Stack.Alike o k n')) :
    Mirrors F (Alike E o k n) (onStack op) (onStack op') (Alike E o k n') := by
  intro s t alike a s' done
  obtain ⟨stack, ran, rfl⟩ := onStack_eq_ok.mp done
  have after := h s.stack t.stack alike.stack a stack ran
  cases other : op' t.stack with
  | ok b stack' =>
    rw [other] at after
    rw [onStack_eq_ok.mpr ⟨stack', other, rfl⟩]
    exact ⟨after.1, { alike with stack := after.2 }⟩
  | error e stack' =>
    rw [other] at after
    rw [onStack_eq_error.mpr ⟨stack', other, rfl⟩]
    exact after

theorem onMemory_alike (index : Nat) (op : Memory.Op α) :
    Mirrors F (Alike E o k n) (onMemory index op) (onMemory index op) (Alike E o k n) := by
  intro s t alike a s' done
  obtain ⟨m, m', found, ran, rfl⟩ := onMemory_eq_ok.mp done
  rw [onMemory_eq_ok.mpr ⟨m, m', by rw [alike.memories, found], ran, rfl⟩]
  refine ⟨rfl, { alike with memories := ?_ }⟩
  dsimp only
  rw [alike.memories]

theorem countEffect_alike : Mirrors F (Alike E o k n) countEffect countEffect (Alike E o k n) := by
  intro s t alike _ _ done
  cases done
  exact ⟨rfl, { alike with effects := congrArg (· + 1) alike.effects }⟩

theorem global_alike (index : Nat) : Mirrors F (Alike E o k n) (global index) (global index) (Alike E o k n) := by
  intro s t alike v s' done
  obtain ⟨⟨g, found, value⟩, rfl⟩ := global_eq_ok.mp done
  rw [global_eq_ok.mpr ⟨⟨g, by rw [alike.globals, found], value⟩, rfl⟩]
  exact ⟨rfl, alike⟩

theorem setGlobal_alike (index : Nat) (v : Value) :
    Mirrors F (Alike E o k n) (setGlobal index v) (setGlobal index v) (Alike E o k n) := by
  intro s t alike _ s' done
  obtain ⟨g, found, isVariable, sameType, rfl⟩ := setGlobal_eq_ok.mp done
  rw [setGlobal_eq_ok.mpr ⟨g, by rw [alike.globals, found], isVariable, sameType, rfl⟩]
  refine ⟨rfl, { alike with globals := ?_, effects := congrArg (· + 1) alike.effects }⟩
  dsimp only
  rw [alike.globals]

theorem segment_alike (same : E) (index offset count : Nat) :
    Mirrors F (Alike E o k n) (segment index offset count) (segment index offset count) (Alike E o k n) := by
  intro s t alike bytes s' done
  obtain ⟨⟨part, found, inside, bytes⟩, rfl⟩ := segment_eq_ok.mp done
  rw [segment_eq_ok.mpr ⟨⟨part, by rw [alike.data same, found], inside, bytes⟩, rfl⟩]
  exact ⟨rfl, alike⟩

/-- A segment that one store has another one may not have. -/
theorem dropSegment_alike (index : Nat) :
    Mirrors (¬E) (Alike E o k n) (dropSegment index) (dropSegment index) (Alike E o k n) := by
  intro s t alike _ s' done
  obtain ⟨inside, rfl⟩ := dropSegment_eq_ok.mp done
  by_cases inside' : index < t.data.size
  · rw [dropSegment_eq_ok.mpr ⟨inside', rfl⟩]
    refine ⟨rfl, { alike with data := fun same => ?_ }⟩
    dsimp only
    rw [alike.data same]
  · have failed : dropSegment index t = .error (.outOfBounds .dataSegment index) t := by
      unfold dropSegment
      rw [if_neg inside']
    rw [failed]
    intro same
    rw [alike.data same] at inside'
    exact inside' inside

/-- Stores that are alike are both shadows, or neither is. -/
theorem unlessShadow_alike {x x' y y' : Exec α} {Q : Store → Store → Prop} (hx : Mirrors F (Alike E o k n) x x' Q)
    (hy : Mirrors F (Alike E o k n) y y' Q) :
    Mirrors F (Alike E o k n) (get >>= fun s : Store => if s.shadow then x else y)
      (get >>= fun s : Store => if s.shadow then x' else y') Q := by
  intro s t alike a s' done
  rw [bind_ok (get_apply s)] at done
  rw [bind_ok (get_apply t), alike.shadow]
  cases shadow : s.shadow with
  | true =>
    rw [shadow, if_pos rfl] at done
    rw [if_pos rfl]
    exact hx s t alike a s' done
  | false =>
    rw [shadow, if_neg (by decide)] at done
    rw [if_neg (by decide)]
    exact hy s t alike a s' done

end Store

/-! ### Plain instructions -/

namespace Plain
open Store
variable {E F : Prop} {o k n : Nat} {f f' : Frame} {s t s' : Store}

/-- The frame of one activation as it is in another one, which has as much more below. -/
structure Shifted (o k : Nat) (f f' : Frame) : Prop where
  above : o ≤ f.offset
  offset : f'.offset = f.offset + k
  locals : f'.locals = f.locals

theorem slot_alike (frames : Shifted o k f f') (index : Nat) :
    Simulates F (Alike E o k n) (slot f index) (slot f' index)
      fun i i' s t => (i' = i + k ∧ o ≤ i) ∧ Alike E o k n s t := by
  unfold slot Frame.slot?
  rw [frames.offset, frames.locals]
  by_cases inside : index < f.locals
  · rw [if_pos inside, if_pos inside]
    exact .pure fun s t alike => ⟨⟨by omega, by have := frames.above; omega⟩, alike⟩
  · rw [if_neg inside]
    exact .throw

theorem popTarget_alike (arg : MemArg) :
    Mirrors F (Alike E o k (n + 1)) (popTarget arg) (popTarget arg) (Alike E o k n) :=
  (onStack_alike Stack.popAddress_alike).bind fun _ => .pure

theorem writeMemory_alike (op : Memory.Op Unit) :
    Mirrors F (Alike E o k n) (writeMemory op) (writeMemory op) (Alike E o k n) :=
  unlessShadow_alike .pure ((onMemory_alike 0 op).bind fun _ => countEffect_alike)

theorem assign_alike (frames : Shifted o k f f') (index : Nat) :
    Mirrors F (Alike E o k (n + 1)) (assign f index) (assign f' index) (Alike E o k n) := by
  refine (slot_alike frames index).bind fun i i' => .given ?_
  rintro ⟨rfl, above⟩
  refine (onStack_alike Stack.pop_alike).bind fun v => (onStack_alike (Stack.get_alike above)).bind fun old => ?_
  by_cases differ : old.type ≠ v.type
  · rw [if_pos differ]
    exact Simulates.throw
  · rw [if_neg differ, if_neg differ]
    exact (onStack_alike (Stack.set_alike i v)).bind fun _ => .pure

theorem growMemory_alike (delta : Nat) :
    Mirrors F (Alike E o k n) (growMemory delta) (growMemory delta) (Alike E o k n) := by
  refine unlessShadow_alike .pure ((onMemory_alike 0 _).bind fun before => ?_)
  cases before with
  | some pages => exact countEffect_alike.bind fun _ => .pure
  | none => exact .pure

/-- A write counts as an effect. -/
theorem writeMemory_counts {op : Memory.Op Unit} (live : s.shadow = false) (done : writeMemory op s = .ok () s') :
    s'.effects = s.effects + 1 := by
  unfold writeMemory at done
  rw [bind_ok (get_apply s), live, if_neg (by decide)] at done
  obtain ⟨_, u, wrote, counted⟩ := bind_eq_ok.mp done
  obtain ⟨m, m', -, -, rfl⟩ := onMemory_eq_ok.mp wrote
  cases counted
  rfl

/-- Data segments are read by an instruction that writes to a memory, so that stores with others are still alike as
    long as nothing has been written. -/
theorem memoryInit_alike (f' : Frame) (index : Nat) (alike : Alike E o k 3 s t)
    (done : (memoryInit index).exec f s = .ok () s') (quiet : s'.effects = s.effects) :
    ∃ t', (memoryInit index).exec f' t = .ok () t' ∧ Alike E o k 0 s' t' := by
  obtain ⟨count, s₁, popped₁, done⟩ := bind_eq_ok.mp done
  obtain ⟨source, s₂, popped₂, done⟩ := bind_eq_ok.mp done
  obtain ⟨target, s₃, popped₃, done⟩ := bind_eq_ok.mp done
  obtain ⟨t₁, popped₁', alike₁⟩ := (onStack_alike Stack.popAddress_alike).ok alike popped₁
  obtain ⟨t₂, popped₂', alike₂⟩ := (onStack_alike Stack.popAddress_alike).ok alike₁ popped₂
  obtain ⟨t₃, popped₃', alike₃⟩ := (onStack_alike Stack.popAddress_alike).ok alike₂ popped₃
  have effects : s₃.effects = s.effects := by
    obtain ⟨_, -, rfl⟩ := onStack_eq_ok.mp popped₃
    obtain ⟨_, -, rfl⟩ := onStack_eq_ok.mp popped₂
    obtain ⟨_, -, rfl⟩ := onStack_eq_ok.mp popped₁
    rfl
  rw [bind_ok (get_apply s₃)] at done
  cases shadow : s₃.shadow with
  -- Nothing is copied.
  | true =>
    rw [shadow, if_pos rfl] at done
    cases done
    refine ⟨t₃, (bind_ok popped₁').trans ((bind_ok popped₂').trans ((bind_ok popped₃').trans ?_)), alike₃⟩
    rw [bind_ok (get_apply t₃), alike₃.shadow, shadow, if_pos rfl]
    rfl
  -- A write would have counted an effect, so that it does not matter what the other segments hold.
  | false =>
    rw [shadow, if_neg (by decide)] at done
    obtain ⟨part, s₄, read, wrote⟩ := bind_eq_ok.mp done
    obtain ⟨-, rfl⟩ := segment_eq_ok.mp read
    have counted := writeMemory_counts shadow wrote
    omega

theorem exec_mirrors (frames : Shifted o k f f') (p : Plain) (readsData : E ∨ ∀ index, p ≠ memoryInit index) :
    Mirrors (¬E) (Alike E o k p.pops) (p.exec f) (p.exec f') (Alike E o k 0) := by
  have pop := fun n => onStack_alike (E := E) (Stack.pop_alike (F := ¬E) (o := o) (k := k) (n := n))
  have address := fun n => onStack_alike (E := E) (Stack.popAddress_alike (F := ¬E) (o := o) (k := k) (n := n))
  have int := fun n => onStack_alike (E := E) (Stack.popInt_alike (F := ¬E) (o := o) (k := k) (n := n) .w32)
  have push := fun v => onStack_alike (E := E) (Stack.push_alike (F := ¬E) (o := o) (k := k) (n := 0) v)
  cases p with
  | unreachable => exact Simulates.throw
  | nop => exact .pure
  | drop => exact (pop 0).discard
  | select => exact (int 2).bind fun _ => (pop 1).bind fun _ => (pop 0).bind fun _ => push _
  | localGet index =>
    refine (slot_alike frames index).bind fun i i' => .given ?_
    rintro ⟨rfl, above⟩
    exact (onStack_alike (Stack.get_alike above)).bind fun _ => push _
  | localSet index => exact (assign_alike frames index).discard
  | localTee index => exact (assign_alike frames index).bind fun _ => push _
  | globalGet index => exact (global_alike index).bind fun _ => push _
  | globalSet index => exact (pop 0).bind fun v => setGlobal_alike index v
  | load op arg => exact (popTarget_alike arg).bind fun _ => (onMemory_alike 0 _).bind fun _ => push _
  | store op arg =>
    exact (onStack_alike (Stack.popType_alike _)).bind fun _ => (popTarget_alike arg).bind fun _ => writeMemory_alike _
  | memorySize => exact (onMemory_alike 0 _).bind fun _ => push _
  | memoryGrow => exact (address 0).bind fun delta => (growMemory_alike delta).bind fun _ => push _
  | const v => exact push v
  | numeric op => exact onStack_alike op.exec_alike
  -- The segments need not be the same unless the stores are alike exactly.
  | memoryInit index =>
    rcases readsData with same | none
    · exact (address 2).bind fun _ => (address 1).bind fun source => (address 0).bind fun _ =>
        unlessShadow_alike .pure ((segment_alike same index source _).bind fun _ => writeMemory_alike _)
    · exact absurd rfl (none index)
  | dataDrop index => exact unlessShadow_alike .pure (dropSegment_alike index)
  | memoryCopy => exact (address 2).bind fun _ => (address 1).bind fun _ => (address 0).bind fun _ => writeMemory_alike _
  | memoryFill => exact (address 2).bind fun _ => (int 1).bind fun _ => (address 0).bind fun _ => writeMemory_alike _

/-- What an instruction does to a store it does to one that is alike. If the stores do not have to be alike exactly, no
    effect may be counted, and the other one may trap. -/
theorem exec_alike (frames : Shifted o k f f') (p : Plain) (alike : Alike E o k p.pops s t)
    (done : p.exec f s = .ok () s') (quiet : E ∨ s'.effects = s.effects) :
    match p.exec f' t with
    | .ok _ t' => Alike E o k 0 s' t'
    | .error _ _ => ¬E := by
  by_cases readsData : E ∨ ∀ index, p ≠ memoryInit index
  · have after := exec_mirrors frames p readsData s t alike () s' done
    cases other : p.exec f' t with
    | ok _ t' =>
      rw [other] at after
      exact after.2
    | error _ _ =>
      rw [other] at after
      exact after
  · obtain ⟨inexact, index, rfl⟩ : ¬E ∧ ∃ index, p = memoryInit index := by simpa using readsData
    obtain ⟨t', done', after⟩ := memoryInit_alike f' index alike done (quiet.resolve_left inexact)
    rw [done']
    exact after

end Plain
end Wasm
