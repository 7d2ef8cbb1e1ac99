import Wasm.Proofs.GuardedStore

/-! The instructions that run straight on to the next one under guard. What may go wrong in them is arithmetic on
    numbers that come from the stack, and on indices and addresses. -/

namespace Wasm
variable {α : Type}

/-! ### Numbers -/

namespace Checked
variable {n : Nat}

/-- A number to divide by. -/
def divisor (b : BitVec n) : Checked Unit := require (b ≠ 0)

/-- A count of places to shift or turn by. -/
def places (n k : Nat) : Checked Nat := if k < n then .ok k else .error .fault

theorem places_mod (positive : 0 < n) (k : Nat) : places n (k % n) = .ok (k % n) := if_pos (Nat.mod_lt k positive)

end Checked

section Integers
variable {n : Nat}

/-- The quotient has to fit. -/
def signedQuotient! (a b : BitVec n) : Checked (Except Trap (BitVec n)) :=
  if b = 0 then return .error .divideByZero
  else if a = BitVec.intMin n ∧ b = -1 then return .error .integerOverflow
  else do
    Checked.divisor b
    let _ ← Checked.signed n (a.toInt.tdiv b.toInt)
    return .ok (a.sdiv b)

def unlessZero! (b result : BitVec n) : Checked (Except Trap (BitVec n)) :=
  if b = 0 then return .error .divideByZero
  else do
    Checked.divisor b
    return .ok result

def IntBinary.apply! (a b : BitVec n) : IntBinary → Checked (Except Trap (BitVec n))
  | divS => signedQuotient! a b
  | divU => unlessZero! b (a / b)
  | remS => unlessZero! b (a.srem b)
  | remU => unlessZero! b (a % b)
  | shl => do return .ok (a <<< (← Checked.places n (b.toNat % n)))
  | shrS => do return .ok (a.sshiftRight (← Checked.places n (b.toNat % n)))
  | shrU => do return .ok (a >>> (← Checked.places n (b.toNat % n)))
  | rotl => do return .ok (a.rotateLeft (← Checked.places n (b.toNat % n)))
  | rotr => do return .ok (a.rotateRight (← Checked.places n (b.toNat % n)))
  | op => return op.apply a b

theorem signedQuotient_checked (a b : BitVec n) : signedQuotient! a b = .ok (signedQuotient a b) := by
  unfold signedQuotient! signedQuotient
  split
  · rfl
  · rename_i nonzero
    split
    · rfl
    · rename_i fits
      have quotient : (a.sdiv b).toInt = a.toInt.tdiv b.toInt :=
        BitVec.toInt_sdiv_of_ne_or_ne a b (Decidable.not_and_iff_not_or_not.mp fits)
      have register : Checked.signed n (a.toInt.tdiv b.toInt) = .ok (a.toInt.tdiv b.toInt) := by
        rw [← quotient]
        refine if_pos ?_
        have low := BitVec.le_toInt (a.sdiv b)
        have high := BitVec.toInt_lt (x := a.sdiv b)
        rw [Nat.one_shiftLeft]
        exact ⟨by exact_mod_cast low, by exact_mod_cast high⟩
      unfold Checked.divisor
      rw [Checked.require_ok nonzero, register]
      rfl

theorem unlessZero_checked (b result : BitVec n) : unlessZero! b result = .ok (unlessZero b result) := by
  unfold unlessZero! unlessZero
  split
  · rfl
  · unfold Checked.divisor
    rw [Checked.require_ok ‹_›]
    rfl

theorem IntBinary.apply_checked (positive : 0 < n) (a b : BitVec n) (op : IntBinary) :
    op.apply! a b = .ok (op.apply a b) := by
  have places := Checked.places_mod positive b.toNat
  cases op with
  | divS => exact signedQuotient_checked a b
  | divU | remS | remU => exact unlessZero_checked b _
  | shl | shrS | shrU | rotl | rotr =>
    unfold apply!
    rw [places]
    rfl
  | _ => rfl

end Integers

namespace Numeric
open Stack

def exec! : Numeric → Guarded Trap Stack Unit
  | intBinary w op => do
    let b ← popInt w
    let a ← popInt w
    let result ← (op.apply! a b : Checked _)
    let c ← (ofExcept result : Op _)
    push (.int w c)
  -- The others are total on their operands.
  | op => op.exec

theorem exec_guarded (op : Numeric) : Guards Any op.exec! op.exec := by
  have total := fun {β : Type} (op : Op β) => Guards.lift (any_maintained op)
  cases op with
  | intBinary w op =>
    refine (total _).bind fun b => (total _).bind fun a => ?_
    have applied := op.apply_checked (n := w.bits) (by cases w <;> decide) a b
    exact Gives.check (.of_eq applied) ((total _).bind fun c => total _)
  | _ => exact total _

end Numeric

/-! ### Everything else -/

/-- The locals have indices on the stack. -/
def Frame.Sturdy (f : Frame) : Prop := f.offset + f.locals < allocationLimit

/-- Offsets are 32-bit numbers. -/
def Plain.Small : Plain → Prop
  | load _ arg => arg.offset < 1 <<< 32
  | store _ arg => arg.offset < 1 <<< 32
  | _ => True

namespace Plain
open Store

def slot! (f : Frame) (index : Nat) : Guarded Trap Store Nat :=
  if index < f.locals then liftM (Checked.add 64 f.offset index)
  else (throw (.unknownLocal index) : Exec Nat)

def popTarget! (arg : MemArg) : Guarded Trap Store Nat := do
  let base ← onStack Stack.popAddress
  Checked.add 64 base arg.offset

def writeMemory! (op : Guarded Trap Memory Unit) : Guarded Trap Store Unit := do
  if (← (get : Exec Store)).shadow then return
  onMemory! 0 op
  countEffect!

def assign! (f : Frame) (index : Nat) : Guarded Trap Store Value := do
  let i ← slot! f index
  let v ← onStack Stack.pop
  let old ← onStack (Stack.get i)
  if old.type ≠ v.type then (throw (.typeMismatch old.type v.type) : Exec Unit)
  onStack (Stack.set i v)
  return v

def growMemory! (delta : Nat) : Guarded Trap Store (BitVec 32) := do
  if (← (get : Exec Store)).shadow then return -1
  let before ← onMemory! 0 (Memory.grow! delta)
  match before with
  | some n => do
    countEffect!
    return .ofNat 32 n
  | none => return -1

def exec! (f : Frame) : Plain → Guarded Trap Store Unit
  | localGet index => do
    let i ← slot! f index
    let v ← onStack (Stack.get i)
    onStack (Stack.push v)
  | localSet index => do
    let _ ← assign! f index
    return
  | localTee index => do
    let v ← assign! f index
    onStack (Stack.push v)
  | globalSet index => do
    let v ← onStack Stack.pop
    setGlobal! index v
  | load op arg => do
    let address ← popTarget! arg
    let n ← onMemory! 0 (Memory.load! address op.size)
    onStack (Stack.push (loaded op n))
  | store op arg => do
    let v ← onStack (Stack.popType op.type)
    let address ← popTarget! arg
    writeMemory! (Memory.store! address op.size v.toNat)
  | memorySize => do
    let pages ← onMemory! 0 fun m => return .ok m.pages m
    onStack (Stack.push (.i32 (.ofNat 32 pages)))
  | memoryGrow => do
    let delta ← onStack Stack.popAddress
    let before ← growMemory! delta
    onStack (Stack.push (.i32 before))
  | numeric op => onStack! op.exec!
  | memoryInit index => do
    let n ← onStack Stack.popAddress
    let source ← onStack Stack.popAddress
    let target ← onStack Stack.popAddress
    if (← (get : Exec Store)).shadow then return
    let part ← segment index source n
    writeMemory! (Memory.write! target part)
  | memoryCopy => do
    let n ← onStack Stack.popAddress
    let source ← onStack Stack.popAddress
    let target ← onStack Stack.popAddress
    writeMemory! (Memory.copy! target source n)
  | memoryFill => do
    let n ← onStack Stack.popAddress
    let b ← onStack (Stack.popInt .w32)
    let target ← onStack Stack.popAddress
    writeMemory! (Memory.fill! target (UInt8.ofNat b.toNat) n)
  | p => p.exec f

theorem slot_guarded {f : Frame} (sturdy : f.Sturdy) (index : Nat) : Guards Sturdy (slot! f index) (slot f index) := by
  unfold slot! slot Frame.slot?
  split
  · unfold Frame.Sturdy allocationLimit at sturdy
    exact .checked (.of_eq (Checked.add_ok (by omega)))
  · exact .throw _

/-- The number that is popped has 32 bits. -/
theorem popTarget_guarded {arg : MemArg} (small : arg.offset < 1 <<< 32) :
    Guards Sturdy (popTarget! arg) (popTarget arg) := by
  refine fun s sturdy => (stack_guarded Stack.popAddress s sturdy).bind fun base t sturdy _ popped => ?_
  obtain ⟨stack, took, rfl⟩ := onStack_eq_ok.mp popped
  obtain ⟨x, -, rfl⟩ := Stack.popAddress_eq_ok.mp took
  have bounded := x.isLt
  exact Guards.checked (.of_eq (Checked.add_ok (by omega))) _ sturdy

theorem writeMemory_guarded {g : Guarded Trap Memory Unit} {op : Memory.Op Unit} (h : Guards Memory.Whole g op) :
    Guards Sturdy (writeMemory! g) (writeMemory op) := by
  refine (Guards.lift get_maintains).bind fun s => ?_
  split
  · exact .pure _
  · exact (onMemory_guarded h).bind fun _ => countEffect_guarded

theorem assign_guarded {f : Frame} (sturdy : f.Sturdy) (index : Nat) :
    Guards Sturdy (assign! f index) (assign f index) := by
  refine (slot_guarded sturdy index).bind fun i => (stack_guarded _).bind fun v => (stack_guarded _).bind fun old => ?_
  split
  · exact .throw _
  · exact (stack_guarded _).bind fun _ => .pure v

theorem growMemory_guarded (delta : Nat) : Guards Sturdy (growMemory! delta) (growMemory delta) := by
  unfold growMemory
  refine (Guards.lift get_maintains).bind fun s => ?_
  split
  · exact .pure _
  · refine (onMemory_guarded (Memory.grow_guarded fun m => ?_)).bind fun before => ?_
    · rcases m.grow delta with ⟨before, m'⟩
      rfl
    split
    · exact countEffect_guarded.bind fun _ => .pure _
    · exact .pure _

theorem exec_guarded {f : Frame} (sturdy : f.Sturdy) {p : Plain} (small : p.Small) :
    Guards Sturdy (p.exec! f) (p.exec f) := by
  have pop := stack_guarded Stack.pop
  have address := stack_guarded Stack.popAddress
  have push := fun v => stack_guarded (Stack.push v)
  cases p with
  | unreachable => exact .throw _
  | nop => exact .pure _
  | drop => exact .lift (onStack_maintains _).discard
  | select =>
    exact .lift ((onStack_maintains _).bind fun _ => (onStack_maintains _).bind fun _ => (onStack_maintains _).bind fun _ =>
      onStack_maintains _)
  | localGet index => exact (slot_guarded sturdy index).bind fun i => (stack_guarded _).bind fun _ => push _
  | localSet index => exact (assign_guarded sturdy index).discard
  | localTee index => exact (assign_guarded sturdy index).bind fun _ => push _
  | globalGet index => exact .lift ((global_maintains index).bind fun _ => onStack_maintains _)
  | globalSet index => exact pop.bind fun v => setGlobal_guarded index v
  | load op arg =>
    exact (popTarget_guarded small).bind fun a => (onMemory_guarded (Memory.load_guarded _ _)).bind fun _ => push _
  | store op arg =>
    exact (stack_guarded _).bind fun _ => (popTarget_guarded small).bind fun _ =>
      writeMemory_guarded (Memory.store_guarded _ _ _)
  | memorySize =>
    -- The length of a memory is a whole number of pages, which stays so.
    have pages : Maintains Memory.Whole (fun m => .ok m.pages m : Memory.Op Nat) := fun _ h => h
    exact (onMemory_guarded (.lift pages)).bind fun _ => push _
  | memoryGrow => exact address.bind fun delta => (growMemory_guarded delta).bind fun _ => push _
  | const v => exact push v
  | numeric op => exact onStack_guarded op.exec_guarded
  | memoryInit index =>
    refine address.bind fun n => address.bind fun source => address.bind fun target =>
      (Guards.lift get_maintains).bind fun s => ?_
    split
    · exact .pure _
    · exact (Guards.lift (segment_maintains index source n)).bind fun part =>
        writeMemory_guarded (Memory.write_guarded _ _)
  | dataDrop index =>
    refine .lift (get_maintains.bind fun s => ?_)
    split
    · exact .pure _
    · exact dropSegment_maintains index
  | memoryCopy =>
    exact address.bind fun n => address.bind fun source => address.bind fun target =>
      writeMemory_guarded (Memory.copy_guarded _ _ _)
  | memoryFill =>
    exact address.bind fun n => (stack_guarded _).bind fun b => address.bind fun target =>
      writeMemory_guarded (Memory.fill_guarded _ _ _)

end Plain
end Wasm
