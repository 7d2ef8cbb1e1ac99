import Mathlib.Logic.Relation
import Wasm.Proofs.Composition

/-! What operations can do to a store and to a machine. All that a run does, whether it comes to an end or to a trap, is
    a sequence of few kinds of changes, so that what each of these keeps is kept by every run. -/

namespace Wasm
variable {σ α : Type}

/-! ### Stores -/

namespace Store

/-- The changes that operations make to a store. Those of memories and globals are counted. -/
inductive Change : Store → Store → Prop
  | stack {s} (stack : Stack) : Change s { s with stack }
  | memory {s m m'} : s.memories[0]? = some m → m.Extends m' →
    Change s { s with memories := s.memories.setIfInBounds 0 m', effects := s.effects + 1 }
  | global {s g index v} : s.globals[index]? = some g → g.isConstant = false → g.value.type = v.type →
    Change s { s with globals := s.globals.setIfInBounds index { g with value := v }, effects := s.effects + 1 }
  | segment {s} (index : Nat) : Change s { s with data := s.data.setIfInBounds index .empty }

/-- One change after another. -/
abbrev Changes : Store → Store → Prop := Relation.ReflTransGen Change

variable {r : Store}

theorem onStack_changes (op : Stack.Op α) : Maintains r.Changes (onStack op) := by
  refine .of_cases (fun s a t before done => ?_) fun s e t before failed => ?_
  · obtain ⟨stack, -, rfl⟩ := onStack_eq_ok.mp done
    exact before.tail (.stack stack)
  · obtain ⟨stack, -, rfl⟩ := onStack_eq_error.mp failed
    exact before.tail (.stack stack)

theorem setIfInBounds_getElem? {β : Type} {xs : Array β} {i : Nat} {x : β} (h : xs[i]? = some x) :
    xs.setIfInBounds i x = xs := by
  apply Array.ext_getElem?
  intro j
  rw [Array.getElem?_setIfInBounds]
  by_cases same : i = j
  · subst same
    have inside : i < xs.size := (Array.getElem?_eq_some_iff.mp h).1
    rw [if_pos rfl, if_pos inside, h]
  · rw [if_neg same]

/-- A memory that is only looked at stays as it is. -/
theorem onMemory_changes {index : Nat} {op : Memory.Op α} (reads : Memory.Reads op) :
    Maintains r.Changes (onMemory index op) := by
  refine .of_cases (fun s a t before done => ?_) fun s e t before failed => ?_
  · obtain ⟨m, m', found, looked, rfl⟩ := onMemory_eq_ok.mp done
    rwa [reads.ok looked, setIfInBounds_getElem? found]
  · rcases onMemory_eq_error failed with rfl | ⟨m, m', found, looked, rfl⟩
    · exact before
    · rwa [reads.error looked, setIfInBounds_getElem? found]

theorem global_changes (index : Nat) : Maintains r.Changes (global index) := by
  refine .of_cases (fun s v t before done => ?_) fun s e t before failed => ?_
  · rwa [(global_eq_ok.mp done).2]
  · rwa [global_eq_error failed]

theorem setGlobal_changes (index : Nat) (v : Value) : Maintains r.Changes (setGlobal index v) := by
  refine .of_cases (fun s u t before done => ?_) fun s e t before failed => ?_
  · obtain ⟨g, found, isVariable, type, rfl⟩ := setGlobal_eq_ok.mp done
    exact before.tail (.global found isVariable type)
  · rwa [setGlobal_eq_error failed]

theorem segment_changes (index offset n : Nat) : Maintains r.Changes (segment index offset n) := by
  refine .of_cases (fun s bytes t before done => ?_) fun s e t before failed => ?_
  · rwa [(segment_eq_ok.mp done).2]
  · rwa [segment_eq_error failed]

theorem dropSegment_changes (index : Nat) : Maintains r.Changes (dropSegment index) := by
  refine .of_cases (fun s u t before done => ?_) fun s e t before failed => ?_
  · obtain ⟨-, rfl⟩ := dropSegment_eq_ok.mp done
    exact before.tail (.segment index)
  · rwa [dropSegment_eq_error failed]

/-- A memory changes and the effect is counted, or nothing happens. -/
theorem writeMemory_changes {op : Memory.Op Unit} (writes : Memory.Writes op) :
    Maintains r.Changes (Plain.writeMemory op) := by
  refine .bind (fun _ before => before) fun s => ?_
  split
  · exact .pure _
  refine .of_cases (fun s u t before done => ?_) fun s e t before failed => ?_
  · obtain ⟨_, s', changed, counted⟩ := bind_eq_ok.mp done
    obtain ⟨m, m', found, wrote, rfl⟩ := onMemory_eq_ok.mp changed
    cases counted
    have extended := writes m
    rw [wrote] at extended
    exact before.tail (.memory found extended)
  · rcases bind_eq_error.mp failed with failed | ⟨_, s', -, counted⟩
    · rcases onMemory_eq_error failed with rfl | ⟨m, m', found, refused, rfl⟩
      · exact before
      · have same := writes m
        rw [refused] at same
        rwa [show m' = m from same, setIfInBounds_getElem? found]
    · cases counted

theorem growMemory_changes (delta : Nat) : Maintains r.Changes (Plain.growMemory delta) := by
  refine .bind (fun _ before => before) fun s => ?_
  split
  · exact .pure _
  refine .of_cases (fun s u t before done => ?_) fun s e t before failed => ?_
  · obtain ⟨grown, s', changed, counted⟩ := bind_eq_ok.mp done
    obtain ⟨m, m', found, grew, rfl⟩ := onMemory_eq_ok.mp changed
    split at grew
    rename_i pages after pair
    cases grew
    cases grown with
    | some n =>
      cases counted
      exact before.tail (.memory found (Memory.grow_extends pair))
    | none =>
      cases counted
      rwa [Memory.grow_eq_none pair, setIfInBounds_getElem? found]
  · rcases bind_eq_error.mp failed with failed | ⟨grown, s', -, counted⟩
    · rcases onMemory_eq_error failed with rfl | ⟨m, m', -, refused, -⟩
      · exact before
      -- A memory that cannot grow gives an answer, and no failure.
      · split at refused
        cases refused
    · cases grown <;> cases counted

end Store

theorem Exec.Built.changes {op : Exec α} (h : Built op) {r : Store} : Maintains r.Changes op := by
  induction h with
  | pure a => exact .pure a
  | throw e => exact .throw e
  | bind _ _ first second => exact first.bind second
  | look _ _ then_ => exact .bind (fun _ before => before) then_
  | stack op => exact Store.onStack_changes op
  | read index reads => exact Store.onMemory_changes reads
  | write writes => exact Store.writeMemory_changes writes
  | grow delta => exact Store.growMemory_changes delta
  | global index => exact Store.global_changes index
  | setGlobal index v => exact Store.setGlobal_changes index v
  | segment index offset n => exact Store.segment_changes index offset n
  | dropSegment index => exact Store.dropSegment_changes index

/-! ### Machines -/

/-- The changes that a run makes to a machine. Only calls change the depth and the host. -/
inductive Machine.Change (calls : Prop) : Machine σ → Machine σ → Prop
  | store {M store} : M.store.Change store → Change calls M { M with store }
  | notice {M} (n : Notice) : Change calls M { M with notices := M.notices.push n }
  | depth {M} (depth : Nat) : calls → Change calls M { M with store.depth := depth }
  | host {M} (host : σ) : calls → Change calls M { M with store.effects := M.store.effects + 1, host }

/-- One change after another. -/
abbrev Machine.Changes (calls : Prop) : Machine σ → Machine σ → Prop := Relation.ReflTransGen (Machine.Change calls)

theorem Store.Changes.machine {calls : Prop} {M : Machine σ} {store : Store} (h : M.store.Changes store) :
    M.Changes calls { M with store } := by
  induction h with
  | refl => exact .refl
  | tail _ change ih => exact ih.tail (.store change)

namespace Run
variable {calls : Prop} {l : Machine σ}

theorem onStore_changes {op : Exec α} (h : ∀ r, Maintains (Store.Changes r) op) :
    Maintains (l.Changes calls) (onStore op) := by
  refine .of_cases (fun M a N before done => ?_) fun M e N before failed => ?_
  · obtain ⟨store, ran, rfl⟩ := onStore_eq_ok.mp done
    exact before.trans (Store.Changes.machine ((h M.store).ok .refl ran))
  · obtain ⟨store, stopped, rfl⟩ := onStore_eq_error.mp failed
    exact before.trans (Store.Changes.machine ((h M.store).error .refl stopped))

theorem callHost_changes (f : HostFunc σ) (arguments : Array Value) (called : calls) :
    Maintains (l.Changes calls) (callHost f arguments) := by
  refine .of_cases (fun M results N before done => ?_) fun M e N before failed => ?_
  · obtain ⟨host, -, rfl⟩ := callHost_eq_ok.mp done
    exact before.tail (.host host called)
  · obtain ⟨host, -, rfl⟩ := callHost_eq_error.mp failed
    exact before.tail (.host host called)

theorem Built.changes {op : Run σ α} (h : Built calls op) : Maintains (l.Changes calls) op := by
  induction h with
  | pure a => exact .pure a
  | throw e => exact .throw e
  | bind _ _ first second => exact first.bind second
  | look _ _ then_ => exact .bind (fun _ before => before) then_
  | onStore built => exact onStore_changes fun _ => built.changes
  | notify n => exact fun _ before => before.tail (.notice n)
  | deepen index called _ _ then_ =>
    refine .bind (fun _ before => before) fun s => ?_
    split
    · exact .bind (fun _ before => before.tail (.notice _)) fun _ => .throw _
    · exact .bind (fun _ before => before.tail (.depth _ called)) fun _ => then_ s
  | leaveDepth called => exact fun _ before => before.tail (.depth _ called)
  | callHost f arguments called => exact callHost_changes f arguments called

end Run
end Wasm
