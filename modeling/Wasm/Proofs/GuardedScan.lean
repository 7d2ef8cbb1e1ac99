import Wasm.Proofs.GuardedPlain
import Wasm.Proofs.GuardedRecords
import Wasm.Proofs.JumpTable
import Wasm.Proofs.Nesting

/-! Jump tables built under guard. The look through a body runs code for its shape only, on whatever stack there is, so
    there is nothing that this code could rely on. -/

namespace Wasm

/-! ### What instructions are read -/

/-- Offsets in memory and depths of branches are 32-bit numbers. -/
def Instr.Small : Instr → Prop
  | plain p => p.Small
  | br depth => depth < 1 <<< 32
  | brIf depth => depth < 1 <<< 32
  | brTable targets fallback => (∀ depth ∈ targets, depth < 1 <<< 32) ∧ fallback < 1 <<< 32
  | _ => True

section Reading
open Decoder
variable {data : ByteArray} {pos next : Nat}

theorem Leb128.unsignedFrom_small {bits n : Nat} : ∀ {budget shift sum pos : Nat},
    unsignedFrom bits budget shift sum data pos = .ok n next → n < 1 <<< bits
  | 0, _, _, _, h => by
    obtain ⟨_, _, -, h⟩ := bind_ok_iff.mp h
    cases h
  | budget + 1, shift, sum, pos, h => by
    obtain ⟨b, mid, -, h⟩ := bind_ok_iff.mp h
    split at h
    · obtain ⟨_, _, -, h⟩ := bind_ok_iff.mp h
      cases h
    · split at h
      · exact unsignedFrom_small h
      · split at h
        · obtain ⟨_, _, -, h⟩ := bind_ok_iff.mp h
          cases h
        · cases h
          exact Nat.not_le.mp ‹_›

theorem Reader.u32_small {n : Nat} (h : Reader.u32 data pos = .ok n next) : n < 1 <<< 32 := Leb128.unsignedFrom_small h

theorem Reader.items_each {α : Type} {item : Reader α} {p : α → Prop}
    (each : ∀ {pos next a}, item data pos = .ok a next → p a) {all : Array α} :
    ∀ {n : Nat} {done : Array α} {pos : Nat}, (∀ a ∈ done, p a) → items item n done data pos = .ok all next → ∀ a ∈ all, p a
  | 0, done, pos, before, h => by
    cases h
    exact before
  | n + 1, done, pos, before, h => by
    obtain ⟨a, mid, read, h⟩ := bind_ok_iff.mp h
    refine items_each each (fun b there => ?_) h
    rcases Array.mem_push.mp there with there | rfl
    · exact before b there
    · exact each read

theorem Reader.vector_each {α : Type} {item : Reader α} {p : α → Prop}
    (each : ∀ {pos next a}, item data pos = .ok a next → p a) {all : Array α}
    (h : vector item data pos = .ok all next) : ∀ a ∈ all, p a := by
  obtain ⟨n, mid, -, h⟩ := bind_ok_iff.mp h
  exact items_each each (by simp) h

theorem Reader.memArg_small {arg : MemArg} (h : memArg data pos = .ok arg next) : arg.offset < 1 <<< 32 := by
  obtain ⟨align, _, -, h⟩ := bind_ok_iff.mp h
  obtain ⟨offset, _, read, h⟩ := bind_ok_iff.mp h
  cases h
  exact u32_small read

namespace Instr

theorem readExtended_small {p : Plain} (h : readExtended data pos = .ok p next) : p.Small := by
  obtain ⟨n, _, -, h⟩ := bind_ok_iff.mp h
  cases found : ExtendedOp.ofNumber? n with
  | none =>
    rw [found] at h
    cases h
  | some op =>
    rw [found] at h
    cases op <;> simp only [bind_ok_iff] at h
    case truncateSat =>
      cases h
      trivial
    case dataDrop | memoryFill =>
      obtain ⟨_, _, -, h⟩ := h
      cases h
      trivial
    case memoryInit | memoryCopy =>
      obtain ⟨_, _, -, _, _, -, h⟩ := h
      cases h
      trivial

theorem readRest_small {op : Opcode} {i : Instr} (h : readRest op data pos = .ok i next) : i.Small := by
  cases op <;> simp only [readRest, bind_ok_iff] at h
  case br | brIf =>
    obtain ⟨_, _, read, h⟩ := h
    cases h
    exact Reader.u32_small (immediate_eq_ok.mp read)
  case load | store =>
    obtain ⟨_, _, read, h⟩ := h
    cases h
    exact Reader.memArg_small (immediate_eq_ok.mp read)
  case brTable =>
    obtain ⟨_, _, read, _, _, last, h⟩ := h
    cases h
    exact ⟨Reader.vector_each Reader.u32_small (immediate_eq_ok.mp read), Reader.u32_small (immediate_eq_ok.mp last)⟩
  case extended =>
    obtain ⟨_, _, read, h⟩ := h
    cases h
    exact readExtended_small read
  -- The others have no such numbers.
  all_goals first
    | cases h; trivial
    | obtain ⟨_, _, _, h⟩ := h; cases h; trivial

theorem read_small {i : Instr} (h : read data pos = .ok i next) : i.Small := by
  obtain ⟨_, _, -, h⟩ := read_eq_ok.mp h
  exact readRest_small h

end Instr
end Reading

/-! ### Building tables -/

namespace JumpTable
open Store
variable {signatures : Array FuncType} {frame : Frame} {body : ByteArray}

def Scan.step! (signatures : Array FuncType) (frame : Frame) (pos : Nat) (c : Scan) : Instr → Checked (Except Trap Scan)
  | .plain p => do
    match ← p.exec! frame c.shadow with
    | .ok _ shadow => return .ok { c with shadow }
    | .error e shadow => return if e.isStructural then .error e else .ok { c with shadow }
  | i => return c.step signatures frame pos i

def scanFrom! (signatures : Array FuncType) (frame : Frame) (body : ByteArray) :
    (fuel : Nat) → (pos : Nat) → Scan → Checked (Except Trap JumpTable)
  | 0, pos, _ => return .error (.unbalancedBlock pos)
  | fuel + 1, pos, c =>
    if body.size ≤ pos then return .error (.unbalancedBlock pos)
    else do
      match ← Instr.read! body pos with
      | .error e _ => return .error e
      | .ok i next =>
        if i = .endMark ∧ c.opened = [] ∧ body.size ≤ next then return .ok c.table
        else do
          match ← c.step! signatures frame pos i with
          | .ok c => scanFrom! signatures frame body fuel next c
          | .error e => return .error e

/-- The types of the slots are in vectors, and so is the stack with the slots on it. -/
def build! (signatures : Array FuncType) (signature : FuncType) (locals : List ValType) (body : ByteArray)
    (live : Store) : Checked (Except Trap JumpTable) := do
  let shadow := live.shadowCopy
  let params ← Checked.size signature.params.length
  let locals' ← Checked.size locals.length
  let slots ← Checked.add 64 params locals'
  let frame : Frame := ⟨shadow.stack.size, slots⟩
  let shadow := after (onStack (Stack.pushMany ((signature.params ++ locals).map Value.zero).toArray)) shadow
  let _ ← Checked.size shadow.stack.size
  scanFrom! signatures frame body (body.size + 1) 0 { shadow }

namespace Scan
variable {c : Scan}

theorem attempt_sturdy {α : Type} {op : Exec α} (h : c.shadow.Sturdy) (maintains : Maintains Sturdy op) :
    (c.attempt op).shadow.Sturdy := by
  have kept := maintains c.shadow h
  unfold attempt after
  cases ran : op c.shadow <;> rwa [ran] at kept

theorem popInt_sturdy (h : c.shadow.Sturdy) : c.popInt.shadow.Sturdy := attempt_sturdy h (onStack_maintains _)

theorem call_sturdy (h : c.shadow.Sturdy) (callee : FuncType) : (c.call callee).shadow.Sturdy := by
  have popped : ∀ (params : List ValType) (c : Scan), c.shadow.Sturdy →
      (params.foldl (fun c _ => c.attempt (onStack Stack.pop)) c).shadow.Sturdy := by
    intro params
    induction params with
    | nil => exact fun _ h => h
    | cons _ params ih => exact fun c h => ih _ (attempt_sturdy h (onStack_maintains _))
  exact attempt_sturdy (popped callee.params c h) (onStack_maintains _)

/-- Whatever the instruction does, the look goes on with a shadow that is as sturdy as before. -/
theorem step_guarded (h : c.shadow.Sturdy) (sturdy : frame.Sturdy) (pos : Nat) {i : Instr} (small : i.Small) :
    Safely (fun r => ∀ c', r = .ok c' → c'.shadow.Sturdy) (c.step! signatures frame pos i)
      (c.step signatures frame pos i) := by
  cases i with
  | plain p =>
    unfold step! step
    dsimp only
    refine (Plain.exec_guarded sturdy small c.shadow h).safely.bind fun ⟨after, _⟩ => ?_
    cases ran : p.exec frame c.shadow with
    | ok u shadow =>
      rw [stateAfter_ok ran] at after
      refine .ok fun c' stepped => ?_
      cases stepped
      exact after
    -- Only a structural trap ends the look. After any other one it goes on with what the shadow has become.
    | error e shadow =>
      rw [stateAfter_error ran] at after
      refine .ok fun c' stepped => ?_
      split at stepped <;> cases stepped
      exact after
  | block | loop | br | ret =>
    refine .inr ⟨rfl, fun c' stepped => ?_⟩
    cases stepped
    exact h
  | ifThen | brIf | brTable =>
    refine .inr ⟨rfl, fun c' stepped => ?_⟩
    cases stepped
    exact popInt_sturdy h
  | elseMark | endMark =>
    refine .inr ⟨rfl, fun c' stepped => ?_⟩
    unfold step at stepped
    dsimp only at stepped
    split at stepped <;> cases stepped
    exact h
  | call f =>
    refine .inr ⟨rfl, fun c' stepped => ?_⟩
    unfold step at stepped
    dsimp only at stepped
    split at stepped <;> cases stepped
    · exact call_sturdy h _
    · exact h

end Scan

theorem scanFrom_faultless (bounded : body.size < allocationLimit) (sturdy : frame.Sturdy) :
    ∀ {fuel pos : Nat} {c : Scan}, c.shadow.Sturdy →
    Faultless (scanFrom! signatures frame body fuel pos c) (scanFrom signatures frame body fuel pos c)
  | 0, _, _, _ => .ok _
  | fuel + 1, pos, c, h => by
    unfold scanFrom! scanFrom
    split
    · exact .ok _
    · rename_i inside
      have read := (Instr.read_faithful bounded pos (Nat.le_of_not_le inside)).1
      refine (Faultless.of_eq read).bind ?_
      cases found : Instr.read body pos with
      | error e next => exact .ok _
      | ok i next =>
        dsimp only
        split
        · exact .ok _
        · refine (c.step_guarded h sturdy pos (Instr.read_small found)).bind_faultless fun after => ?_
          cases stepped : c.step signatures frame pos i with
          | error e => exact .ok _
          | ok c' => exact scanFrom_faultless bounded sturdy (after c' stepped)

theorem build_faultless (signatures : Array FuncType) (signature : FuncType) (locals : List ValType)
    (bounded : body.size < allocationLimit) {live : Store} (h : live.Sturdy) :
    Faultless (build! signatures signature locals body live) (build signatures signature locals body live) := by
  have shadow : live.shadowCopy.Sturdy := h.congr rfl rfl
  refine .size_bind fun params => .size_bind fun locals' => ?_
  refine (Faultless.of_eq (Checked.add_sizes params locals')).bind (.size_bind fun stack => ?_)
  -- The stack with the slots on it is as long as the frame reaches.
  have sturdy : Frame.Sturdy ⟨live.shadowCopy.stack.size, signature.params.length + locals.length⟩ := by
    have size : ((live.shadowCopy.stack.values ++ ((signature.params ++ locals).map Value.zero).toArray).size) <
        allocationLimit := stack
    simp only [Array.size_append, List.size_toArray, List.length_map, List.length_append] at size
    exact size
  unfold build
  dsimp only
  rw [List.length_append]
  refine scanFrom_faultless bounded sturdy (Scan.attempt_sturdy (c := ⟨{}, [], live.shadowCopy⟩) shadow ?_)
  exact onStack_maintains _

theorem entry_eq_ok {α : Type} {map : Std.TreeMap Nat α} {pos : Nat} {a : α} :
    entry map pos = .ok a ↔ map[pos]? = some a := by
  unfold entry
  cases map[pos]? <;> simp

/-- The targets of jumps lie in a body. -/
structure Inside (t : JumpTable) (n : Nat) : Prop where
  ifs : ∀ pos otherwise stop : Nat, t.ifs[pos]? = some (otherwise, stop) → otherwise < n ∧ stop < n
  blocks : ∀ pos stop : Nat, t.blocks[pos]? = some stop → stop < n
  loopEnds : ∀ pos stop : Nat, t.loopEnds[pos]? = some stop → stop < n

theorem build_inside (signature : FuncType) (locals : List ValType) (live : Store) {t : JumpTable}
    (h : build signatures signature locals body live = .ok t) : t.Inside body.size := by
  rw [build_eq_look] at h
  obtain ⟨code, whole⟩ := whole_of_look h
  rw [look_whole whole] at h
  cases h
  have lists := lists_of_whole whole
  obtain ⟨last, laid, close⟩ := whole
  have bounds := laid.construct_bounds
  have ends := Instr.read_bounds close
  have stop_inside : ∀ c ∈ code.constructs, c.stop < body.size := fun c hc => by
    have := (bounds c hc).2.2
    omega
  refine ⟨fun pos otherwise stop entry => ?_, fun pos stop entry => ?_, fun pos stop entry => ?_⟩
  · obtain ⟨⟨kind, start, other, stop'⟩, hc, own⟩ := (lists.ifs pos (otherwise, stop)).mp entry
    have inside := stop_inside _ hc
    have mark := (laid.constructs_seen _ hc).otherwise
    cases kind <;> cases own
    cases other with
    | none => exact ⟨inside, inside⟩
    | some other => exact ⟨Nat.lt_trans (mark other rfl).2.2.1 inside, inside⟩
  · obtain ⟨⟨kind, start, other, stop'⟩, hc, own⟩ := (lists.blocks pos stop).mp entry
    cases kind <;> cases own
    exact stop_inside _ hc
  · obtain ⟨⟨kind, start, other, stop'⟩, hc, own⟩ := (lists.loopEnds pos stop).mp entry
    cases kind <;> cases own
    exact stop_inside _ hc

end JumpTable
end Wasm
