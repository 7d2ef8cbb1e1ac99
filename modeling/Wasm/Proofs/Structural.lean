import Wasm.Proofs.Result
import Wasm.Exec.Plain

/-! What runs on values and memories never finds fault with the code itself: none of its traps is structural. -/

namespace Wasm

/-- A trap that tells of values, memories or calls, and not of the code. -/
def Trap.IsDynamic (e : Trap) : Prop := e.isStructural = false

/-- A trap that valid code may lead to. All others tell that operands, locals, labels or indices are not as the code
    takes them to be. -/
def Trap.IsRegular : Trap → Prop
  | unreachable | divideByZero | integerOverflow | invalidConversion | callStackExhausted _ | missingBody _
  | unboundImport _ _ | host _ => True
  | outOfBounds region _ => region ≠ .stack
  | _ => False

/-- A trap of a computation, or of an access to memory. -/
def Trap.IsFault : Trap → Prop
  | divideByZero | integerOverflow | invalidConversion => True
  | outOfBounds region _ => region ≠ .stack
  | _ => False

/-- A trap of an instruction that runs straight on: it tells of values or memories, and not of functions either. -/
structure Trap.IsPlain (e : Trap) : Prop where
  isDynamic : e.IsDynamic
  bodied : ∀ index, e ≠ .missingBody index

theorem Trap.IsFault.isRegular {e : Trap} (h : e.IsFault) : e.IsRegular := by
  cases e <;> first | exact h.elim | exact h

theorem Trap.IsFault.isPlain {e : Trap} (h : e.IsFault) : e.IsPlain := by
  cases e <;> first | exact h.elim | exact ⟨rfl, nofun⟩

section Numbers
variable {n : Nat} {e : Trap}

theorem unlessZero_isFault {b result : BitVec n} (h : unlessZero b result = .error e) : e.IsFault := by
  unfold unlessZero at h
  split at h <;> cases h
  trivial

theorem signedQuotient_isFault {a b : BitVec n} (h : signedQuotient a b = .error e) : e.IsFault := by
  unfold signedQuotient at h
  split at h
  · cases h; trivial
  · split at h <;> cases h
    trivial

theorem IntBinary.apply_isFault {a b : BitVec n} {op : IntBinary} (h : op.apply a b = .error e) : e.IsFault := by
  cases op with
  | divS => exact signedQuotient_isFault h
  | divU => exact unlessZero_isFault h
  | remS => exact unlessZero_isFault h
  | remU => exact unlessZero_isFault h
  | _ => cases h

theorem FloatClass.truncate_isFault {sign : Signedness} {c : FloatClass} (h : c.truncate n sign = .error e) :
    e.IsFault := by
  cases c with
  | nan => cases h; trivial
  | infinite negative => cases h; trivial
  | finite negative significand scale =>
    unfold truncate at h
    dsimp only at h
    split at h <;> cases h
    trivial

end Numbers

/-! ### The stack -/

namespace Stack

theorem push_raises (v : Value) : Raises Trap.IsPlain (push v) := .of_error fun _ _ _ h => by cases h

theorem pop_raises : Raises Trap.IsPlain pop := by
  refine .of_error fun s e t h => ?_
  unfold pop at h
  dsimp only at h
  split at h <;> cases h
  exact ⟨rfl, nofun⟩

theorem popInt_raises (w : Width) : Raises Trap.IsPlain (popInt w) := by
  refine pop_raises.bind fun v => ?_
  cases v.int? w with
  | some x => exact .pure x
  | none => exact .throw ⟨rfl, nofun⟩

theorem popFloat_raises (w : Width) : Raises Trap.IsPlain (popFloat w) := by
  refine pop_raises.bind fun v => ?_
  cases v.float? w with
  | some x => exact .pure x
  | none => exact .throw ⟨rfl, nofun⟩

theorem popType_raises (t : ValType) : Raises Trap.IsPlain (popType t) := by
  refine pop_raises.bind fun v => ?_
  split
  · exact .pure v
  · exact .throw ⟨rfl, nofun⟩

theorem popAddress_raises : Raises Trap.IsPlain popAddress := (popInt_raises .w32).bind fun _ => .pure _

theorem get_raises (index : Nat) : Raises Trap.IsPlain (get index) := by
  refine .of_error fun s e t h => ?_
  unfold get at h
  split at h <;> cases h
  exact ⟨rfl, nofun⟩

theorem set_raises (index : Nat) (v : Value) : Raises Trap.IsPlain (set index v) := by
  refine .of_error fun s e t h => ?_
  unfold set at h
  dsimp only at h
  split at h <;> cases h
  exact ⟨rfl, nofun⟩

end Stack

theorem Numeric.exec_raises (op : Numeric) : Raises Trap.IsPlain op.exec := by
  have int := Stack.popInt_raises
  have float := Stack.popFloat_raises
  have push := Stack.push_raises
  cases op with
  | eqz w => exact (int w).bind fun _ => push _
  | intUnary w op => exact (int w).bind fun _ => push _
  | intBinary w op =>
    exact (int w).bind fun _ => (int w).bind fun _ =>
      (Raises.ofExcept fun _ h => (IntBinary.apply_isFault h).isPlain).bind fun _ => push _
  | intCompare w op => exact (int w).bind fun _ => (int w).bind fun _ => push _
  | floatUnary w op => exact (float w).bind fun _ => push _
  | floatBinary w op => exact (float w).bind fun _ => (float w).bind fun _ => push _
  | floatCompare w op => exact (float w).bind fun _ => (float w).bind fun _ => push _
  | wrap => exact (int .w64).bind fun _ => push _
  | extend sign => exact (int .w32).bind fun _ => push _
  | truncate target source sign =>
    exact (float source).bind fun _ =>
      (Raises.ofExcept fun _ h => (FloatClass.truncate_isFault h).isPlain).bind fun _ => push _
  | truncateSat target source sign => exact (float source).bind fun _ => push _
  | convert target source sign => exact (int source).bind fun _ => push _
  | demote => exact (float .w64).bind fun _ => push _
  | promote => exact (float .w32).bind fun _ => push _
  | toBits w => exact (float w).bind fun _ => push _
  | ofBits w => exact (int w).bind fun _ => push _

/-! ### Memories -/

namespace Memory

theorem reserve_raises (address n : Nat) : Raises Trap.IsFault (reserve address n) := by
  refine .of_error fun m e m' h => ?_
  unfold reserve at h
  repeat' split at h
  all_goals cases h
  all_goals exact nofun

theorem read_raises (address n : Nat) : Raises Trap.IsFault (read address n) := by
  refine .of_error fun m e m' h => ?_
  unfold read at h
  split at h <;> cases h
  exact nofun

theorem load_raises (address n : Nat) : Raises Trap.IsFault (load address n) :=
  (read_raises address n).bind fun _ => .pure _

theorem write_raises (address : Nat) (part : ByteArray) : Raises Trap.IsFault (write address part) := by
  refine .of_error fun m e m' h => ?_
  unfold write at h
  split at h <;> cases h
  exact (reserve_raises address part.size).error trivial ‹_›

theorem fill_raises (address : Nat) (b : UInt8) (n : Nat) : Raises Trap.IsFault (fill address b n) := by
  refine .of_error fun m e m' h => ?_
  unfold fill at h
  split at h <;> cases h
  exact (reserve_raises address n).error trivial ‹_›

theorem copy_raises (target source n : Nat) : Raises Trap.IsFault (copy target source n) :=
  (read_raises source n).bind fun part => write_raises target part

end Memory

/-! ### The store -/

namespace Store
variable {α : Type}

theorem onStack_raises {op : Stack.Op α} {E : Trap → Prop} (h : Raises E op) : Raises E (onStack op) := by
  refine .of_error fun s e t hs => ?_
  unfold onStack at hs
  dsimp only at hs
  split at hs <;> cases hs
  exact h.error trivial ‹_›

theorem onMemory_raises {index : Nat} {op : Memory.Op α} (h : Raises Trap.IsFault op) :
    Raises Trap.IsPlain (onMemory index op) := by
  refine .of_error fun s e t hs => ?_
  unfold onMemory at hs
  split at hs
  · cases hs
    exact ⟨rfl, nofun⟩
  · dsimp only at hs
    split at hs <;> cases hs
    exact (h.error trivial ‹_›).isPlain

theorem global_raises (index : Nat) : Raises Trap.IsPlain (global index) := by
  refine .of_error fun s e t h => ?_
  unfold global at h
  split at h <;> cases h
  exact ⟨rfl, nofun⟩

theorem setGlobal_raises (index : Nat) (v : Value) : Raises Trap.IsPlain (setGlobal index v) := by
  refine .of_error fun s e t h => ?_
  unfold setGlobal at h
  repeat' split at h
  all_goals cases h
  all_goals exact ⟨rfl, nofun⟩

theorem segment_raises (index offset n : Nat) : Raises Trap.IsPlain (segment index offset n) := by
  refine .of_error fun s e t h => ?_
  unfold segment at h
  repeat' split at h
  all_goals cases h
  all_goals exact ⟨rfl, nofun⟩

theorem dropSegment_raises (index : Nat) : Raises Trap.IsPlain (dropSegment index) := by
  refine .of_error fun s e t h => ?_
  unfold dropSegment at h
  split at h <;> cases h
  exact ⟨rfl, nofun⟩

end Store

namespace Plain
open Store

theorem slot_raises (f : Frame) (index : Nat) : Raises Trap.IsPlain (slot f index) := by
  unfold slot
  cases f.slot? index with
  | some i => exact .pure i
  | none => exact .throw ⟨rfl, nofun⟩

theorem get_raises : Raises Trap.IsPlain (get : Exec Store) := fun _ _ => trivial

theorem popTarget_raises (arg : MemArg) : Raises Trap.IsPlain (popTarget arg) :=
  (onStack_raises Stack.popAddress_raises).bind fun _ => .pure _

theorem writeMemory_raises {op : Memory.Op Unit} (h : Raises Trap.IsFault op) :
    Raises Trap.IsPlain (writeMemory op) := by
  refine get_raises.bind fun s => ?_
  split
  · exact .pure _
  · exact (onMemory_raises h).bind fun _ _ _ => trivial

theorem assign_raises (f : Frame) (index : Nat) : Raises Trap.IsPlain (assign f index) := by
  refine (slot_raises f index).bind fun i => (onStack_raises Stack.pop_raises).bind fun v =>
    (onStack_raises (Stack.get_raises i)).bind fun old => ?_
  split
  · exact .throw ⟨rfl, nofun⟩
  · exact (onStack_raises (Stack.set_raises i v)).bind fun _ => .pure v

theorem growMemory_raises (delta : Nat) : Raises Trap.IsPlain (growMemory delta) := by
  refine get_raises.bind fun s => ?_
  split
  · exact .pure _
  · refine (onMemory_raises (.of_error fun m e m' h => ?_)).bind fun before => ?_
    · split at h
      cases h
    · cases before with
      | some n => exact Raises.bind (.of_error fun _ _ _ h => by cases h) fun _ => .pure _
      | none => exact .pure _

/-- An instruction that runs straight on is never at fault itself, whatever it runs on. -/
theorem exec_raises (f : Frame) (p : Plain) : Raises Trap.IsPlain (p.exec f) := by
  have pop := onStack_raises Stack.pop_raises
  have address := onStack_raises Stack.popAddress_raises
  have push := fun v => onStack_raises (Stack.push_raises v)
  cases p with
  | unreachable => exact .throw ⟨rfl, nofun⟩
  | nop => exact .pure _
  | drop => exact pop.discard
  | select => exact (onStack_raises (Stack.popInt_raises .w32)).bind fun _ => pop.bind fun _ => pop.bind fun _ => push _
  | localGet index =>
    exact (slot_raises f index).bind fun i => (onStack_raises (Stack.get_raises i)).bind fun _ => push _
  | localSet index => exact (assign_raises f index).discard
  | localTee index => exact (assign_raises f index).bind fun _ => push _
  | globalGet index => exact (global_raises index).bind fun _ => push _
  | globalSet index => exact pop.bind fun v => setGlobal_raises index v
  | load op arg =>
    exact (popTarget_raises arg).bind fun a => (onMemory_raises (Memory.load_raises a op.size)).bind fun _ => push _
  | store op arg =>
    exact (onStack_raises (Stack.popType_raises op.type)).bind fun _ => (popTarget_raises arg).bind fun _ =>
      writeMemory_raises (Memory.write_raises _ _)
  | memorySize => exact (onMemory_raises fun _ _ => trivial).bind fun _ => push _
  | memoryGrow => exact address.bind fun delta => (growMemory_raises delta).bind fun _ => push _
  | const v => exact push v
  | numeric op => exact onStack_raises op.exec_raises
  | memoryInit index =>
    refine address.bind fun n => address.bind fun source => address.bind fun target => get_raises.bind fun s => ?_
    split
    · exact .pure _
    · exact (segment_raises index source n).bind fun part => writeMemory_raises (Memory.write_raises target part)
  | dataDrop index =>
    refine get_raises.bind fun s => ?_
    split
    · exact .pure _
    · exact dropSegment_raises index
  | memoryCopy =>
    exact address.bind fun n => address.bind fun source => address.bind fun target =>
      writeMemory_raises (Memory.copy_raises target source n)
  | memoryFill =>
    exact address.bind fun n => (onStack_raises (Stack.popInt_raises .w32)).bind fun b => address.bind fun target =>
      writeMemory_raises (Memory.fill_raises target _ n)

theorem exec_isDynamic {f : Frame} {p : Plain} {s t : Store} {e : Trap} (h : p.exec f s = .error e t) :
    e.isStructural = false :=
  ((exec_raises f p).error trivial h).isDynamic

end Plain
end Wasm
