import Wasm.Proofs.Course
import Wasm.Proofs.Exports
import Wasm.Proofs.RoundTrip

/-! What persists while a module is in use. From the loading on, through any requests and all that runs for them, what
    has been declared stays declared, memories only grow, dropped segments stay dropped, and the depth tells how many
    activations there are. -/

namespace Wasm
variable {σ α : Type}

open Run

/-! ### How stores evolve -/

/-- Both tables have as many entries, and those at the same index are related. -/
structure Entrywise (R : Nat → α → α → Prop) (xs ys : Array α) : Prop where
  size : ys.size = xs.size
  entry : ∀ i x, xs[i]? = some x → ∃ y, ys[i]? = some y ∧ R i x y

namespace Entrywise
variable {R : Nat → α → α → Prop} {xs ys zs : Array α}

theorem refl (h : ∀ i x, R i x x) (xs : Array α) : Entrywise R xs xs := ⟨rfl, fun i x found => ⟨x, found, h i x⟩⟩

theorem trans (h : ∀ i x y z, R i x y → R i y z → R i x z) (first : Entrywise R xs ys) (second : Entrywise R ys zs) :
    Entrywise R xs zs := by
  refine ⟨second.size.trans first.size, fun i x found => ?_⟩
  obtain ⟨y, found, related⟩ := first.entry i x found
  obtain ⟨z, found, related'⟩ := second.entry i y found
  exact ⟨z, found, h i x y z related related'⟩

/-- One entry is replaced. -/
theorem set (h : ∀ i x, R i x x) {i : Nat} {y : α} (related : ∀ x, xs[i]? = some x → R i x y) :
    Entrywise R xs (xs.setIfInBounds i y) := by
  refine ⟨Array.size_setIfInBounds, fun j x found => ?_⟩
  rw [Array.getElem?_setIfInBounds]
  by_cases same : i = j
  · subst same
    rw [if_pos rfl, if_pos (Array.getElem?_eq_some_iff.mp found).1]
    exact ⟨y, rfl, related x found⟩
  · rw [if_neg same]
    exact ⟨x, found, h j x⟩

end Entrywise

/-- What becomes of a store. All memories but the first one stay as they are, and this one keeps its limits and does not
    shrink. Globals keep their types, and constants their values. A data segment stays as it is or is dropped. -/
structure Store.Evolves (s t : Store) : Prop where
  memories : Entrywise (fun i m m' => m.Extends m' ∧ (i ≠ 0 → m' = m)) s.memories t.memories
  globals : Entrywise (fun _ g g' => g'.isConstant = g.isConstant ∧ g'.value.type = g.value.type ∧
    (g.isConstant = true → g' = g)) s.globals t.globals
  data : Entrywise (fun _ part part' => part' = part ∨ part' = .empty) s.data t.data
  effects : s.effects ≤ t.effects
  shadow : t.shadow = s.shadow
  options : t.options = s.options

namespace Store

theorem Evolves.refl (s : Store) : s.Evolves s where
  memories := .refl (fun _ m => ⟨.refl m, fun _ => rfl⟩) _
  globals := .refl (fun _ _ => ⟨rfl, rfl, fun _ => rfl⟩) _
  data := .refl (fun _ _ => .inl rfl) _
  effects := Nat.le_refl _
  shadow := rfl
  options := rfl

theorem Evolves.trans {r s t : Store} (h : r.Evolves s) (h' : s.Evolves t) : r.Evolves t where
  memories := .trans (fun _ _ _ _ first second =>
    ⟨first.1.trans second.1, fun other => (second.2 other).trans (first.2 other)⟩) h.memories h'.memories
  globals := by
    refine .trans (fun _ g g' g'' first second => ⟨second.1.trans first.1, second.2.1.trans first.2.1, fun constant => ?_⟩)
      h.globals h'.globals
    rw [second.2.2 (first.1.trans constant), first.2.2 constant]
  data := by
    refine .trans (fun _ part part' part'' first second => ?_) h.data h'.data
    rcases second with rfl | rfl
    · exact first
    · exact .inr rfl
  effects := Nat.le_trans h.effects h'.effects
  shadow := h'.shadow.trans h.shadow
  options := h'.options.trans h.options

theorem Change.evolves {s t : Store} (h : s.Change t) : s.Evolves t := by
  have same := Evolves.refl s
  cases h with
  | stack stack => exact { same with }
  | @memory m m' found extended =>
    have grown : Entrywise (fun i m m' => m.Extends m' ∧ (i ≠ 0 → m' = m)) s.memories
        (s.memories.setIfInBounds 0 m') := by
      refine .set (fun _ m => ⟨.refl m, fun _ => rfl⟩) fun x here => ?_
      obtain rfl : m = x := Option.some.inj (found.symm.trans here)
      exact ⟨extended, fun other => absurd rfl other⟩
    exact { same with memories := grown, effects := Nat.le_succ _ }
  | @global g index v found isVariable type =>
    have assigned : Entrywise (fun _ g g' => g'.isConstant = g.isConstant ∧ g'.value.type = g.value.type ∧
        (g.isConstant = true → g' = g)) s.globals (s.globals.setIfInBounds index { g with value := v }) := by
      refine .set (fun _ _ => ⟨rfl, rfl, fun _ => rfl⟩) fun x here => ?_
      obtain rfl : g = x := Option.some.inj (found.symm.trans here)
      exact ⟨rfl, type.symm, fun constant => absurd constant (by simp [isVariable])⟩
    exact { same with globals := assigned, effects := Nat.le_succ _ }
  | segment index => exact { same with data := .set (fun _ _ => .inl rfl) fun _ _ => .inr rfl }

end Store

theorem Machine.Changes.evolves {calls : Prop} {M N : Machine σ} (h : M.Changes calls N) : M.store.Evolves N.store := by
  induction h with
  | refl => exact .refl _
  | @tail N O _ change ih =>
    refine ih.trans ?_
    have same := Store.Evolves.refl N.store
    cases change with
    | store change => exact change.evolves
    | notice n => exact same
    | depth depth _ => exact { same with }
    | host host _ => exact { same with effects := Nat.le_succ _ }

/-- The memories consist of whole pages within their limits, the store is no shadow, and the settings are as told. -/
structure Store.Regular (options : Options) (s : Store) : Prop where
  memories : ∀ m ∈ s.memories, m.Sized
  shadow : s.shadow = false
  options : s.options = options

theorem Store.Evolves.regular {s t : Store} {options : Options} (h : s.Evolves t) (regular : s.Regular options) :
    t.Regular options where
  memories := by
    intro m' there
    obtain ⟨i, inside, rfl⟩ := Array.mem_iff_getElem.mp there
    have inside' : i < s.memories.size := by
      rw [← h.memories.size]
      exact inside
    obtain ⟨m', found, extended, -⟩ := h.memories.entry i s.memories[i] (Array.getElem?_eq_getElem inside')
    rw [Array.getElem?_eq_getElem inside] at found
    cases found
    exact extended.sized (regular.memories _ (Array.getElem_mem inside'))
  shadow := h.shadow.trans regular.shadow
  options := h.options.trans regular.options

/-- The store that a module starts with. -/
theorem Outline.store_regular {A : Outline} (right : A.WellFormed) (options : Options) :
    (A.store options).Regular options where
  memories := by
    intro m there
    obtain ⟨i, inside, rfl⟩ := Array.mem_mapIdx.mp there
    have declared : A.memoryLimits.toArray[i] ∈ A.memoryLimits := by simp
    have valid := memoryLimits_valid (right .imports) (right .memories) _ declared
    have fit : ∀ s ∈ A.segments i, s.stop ≤ Memory.mostPages A.memoryLimits.toArray[i] * pageSize := by
      intro s placed
      obtain ⟨d, member, same⟩ := List.mem_filterMap.mp placed
      have fits := right .data d member
      unfold segment? at same
      unfold Fits at fits
      split at same
      · rename_i memory place mode
        rw [mode] at fits
        obtain ⟨-, limits, found, fits⟩ := fits
        split at same
        · rename_i here
          cases same
          subst here
          have : A.memoryLimits.toArray[memory] = limits := by simpa using List.getElem?_eq_some_iff.mp found |>.2
          rwa [this]
        · cases same
      · cases same
    refine ⟨?_, ?_⟩
    · rw [Memory.size_holding]
      exact Nat.dvd_mul_left _ _
    · rw [Memory.size_holding]
      exact Nat.mul_le_mul_right _ (Segment.pagesWith_le (Memory.leastPages_le valid) fit)
  shadow := rfl
  options := rfl

/-! ### Requests, and the moments that they come by -/

/-- What may be asked of a module that has been read. -/
inductive Request
  /-- Running the start function, if there is one. -/
  | start
  | invoke (name : String) (arguments : Array Value)
  | call (name : String) (arguments : Array Value)
  | jumpTable (index : Nat)
  | readResults (n : Nat)

/-- What comes of a request. -/
def Request.perform (m : Module σ) (fuel : Nat) : Request → Session σ Unit
  | start => match m.start with
    | some index => m.invokeIndex fuel index #[]
    | none => return
  | invoke name arguments => m.invoke fuel name arguments
  | call name arguments => discard (m.call fuel name arguments)
  | jumpTable index => discard (ofExcept ((m.jumpTable index).mapError .trap) : Session σ JumpTable)
  | readResults n => discard (Module.readResults n)

/-- Where a module in use stands. -/
inductive Moment (σ : Type)
  /-- No request is under way. -/
  | rest (M : Machine σ)
  /-- Activations are at work, the innermost first. -/
  | running (chain : List Activation) (M : Machine σ)
  /-- A trap has come up, and nothing has been put back so far. -/
  | trapped (M : Machine σ)

def Moment.machine : Moment σ → Machine σ
  | rest M => M
  | running _ M => M
  | trapped M => M

/-- The depth tells how many activations there are, and there are no more than there may be. -/
def Moment.Counted : Moment σ → Prop
  | rest M => M.store.depth = 0
  | running chain M => M.store.depth = chain.length ∧ M.Within
  | trapped M => M.Within

namespace Module

/-- The moments that a run comes by, one before each step and one at its end. -/
def runMoments (m : Module σ) : (fuel : Nat) → List Activation → Machine σ → List (Moment σ)
  | fuel + 1, act :: callers, M => .running (act :: callers) M :: match m.step act callers M with
    | .ok chain N => m.runMoments fuel chain N
    | .error _ N => [.trapped N]
  | _, chain, M => [.running chain M]

/-- The moments that a call from outside comes by. -/
def callMoments (m : Module σ) (fuel index : Nat) (arguments : Array Value) (M : Machine σ) : List (Moment σ) :=
  match m.accept index arguments with
  | .error _ => []
  | .ok f => match m.starts f index arguments M with
    | .ok (some act) N => m.runMoments fuel [act] N
    | .ok none N => [.running [] N]
    | .error _ N => [.trapped N]

end Module

/-- The call that a request makes, if it makes one. -/
def Request.call? (m : Module σ) : Request → Option (Nat × Array Value)
  | start => m.start.map (·, #[])
  | invoke name arguments => (m.find? name).map (·, arguments)
  | call name arguments => (m.find? name).map (·, arguments)
  | jumpTable _ => none
  | readResults _ => none

/-- The moments that a request comes by. -/
def Request.moments (m : Module σ) (fuel : Nat) (r : Request) (M : Machine σ) : List (Moment σ) :=
  match r.call? m with
  | some (index, arguments) => m.callMoments fuel index arguments M
  | none => []

/-- All moments while requests are made one after another. A request that is not over is the last one. -/
def Module.moments (m : Module σ) (fuel : Nat) : List Request → Machine σ → List (Moment σ)
  | [], M => [.rest M]
  | r :: requests, M => .rest M :: r.moments m fuel M ++ match r.perform m fuel M with
    | .ok _ N => m.moments fuel requests N
    | .error .unfinished _ => []
    | .error _ N => m.moments fuel requests N

/-! ### From one moment to the next -/

/-- A machine changes into another one, and comes by moments in the order given. -/
inductive Passes : Machine σ → List (Moment σ) → Machine σ → Prop
  | done {M N} : M.Changes True N → Passes M [] N
  | comes {M A moments N} : M.Changes True A.machine → Passes A.machine moments N → Passes M (A :: moments) N

namespace Passes
variable {L M N O : Machine σ} {before after moments : List (Moment σ)}

theorem first (h : Passes M moments N) (changes : L.Changes True M) : Passes L moments N := by
  cases h with
  | done later => exact .done (changes.trans later)
  | comes next later => exact .comes (changes.trans next) later

theorem append (h : Passes M before N) (h' : Passes N after O) : Passes M (before ++ after) O := by
  induction h with
  | done changes => exact h'.first changes
  | comes next _ ih => exact .comes next (ih h')

theorem last (h : Passes M moments N) (changes : N.Changes True O) : Passes M moments O := by
  have := h.append (.done changes)
  rwa [List.append_nil] at this

theorem changes (h : Passes M moments N) : ∀ A ∈ moments, M.Changes True A.machine := by
  induction h with
  | done _ => simp
  | comes next _ ih =>
    intro B member
    rcases List.mem_cons.mp member with rfl | member
    · exact next
    · exact next.trans (ih B member)

theorem pairwise (h : Passes M moments N) : moments.Pairwise fun A B => A.machine.Changes True B.machine := by
  induction h with
  | done _ => exact .nil
  | comes _ later ih => exact .cons later.changes ih

end Passes

/-! ### Calls -/

namespace Module
variable {m : Module σ} {chain : List Activation} {M : Machine σ} {fuel index : Nat} {arguments : Array Value}

theorem runMoments_passes (m : Module σ) (fuel : Nat) (chain : List Activation) (M : Machine σ) :
    Passes M (m.runMoments fuel chain M) (m.run fuel chain M).final := by
  induction fuel generalizing chain M with
  | zero => cases chain <;> exact .comes .refl (.done .refl)
  | succ fuel ih =>
    cases chain with
    | nil => exact .comes .refl (.done .refl)
    | cons act callers =>
      rw [run_succ, runMoments]
      cases stepped : m.step act callers M with
      | ok chain N => exact .comes .refl ((ih chain N).first ((m.step_built act callers).changes.ok .refl stepped))
      | error e N => exact .comes .refl (.comes ((m.step_built act callers).changes.error .refl stepped) (.done .refl))

/-- No chain that a run visits is left out. -/
theorem visits_moment {chain' : List Activation} {N : Machine σ} (visits : m.Visits chain M chain' N) :
    ∃ fuel, .running chain' N ∈ m.runMoments fuel chain M := by
  induction visits with
  | @here chain M => exact ⟨0, by cases chain <;> exact .head _⟩
  | onward stepped _ ih =>
    obtain ⟨fuel, member⟩ := ih
    refine ⟨fuel + 1, ?_⟩
    rw [runMoments, stepped]
    exact .tail _ member

theorem callMoments_passes (m : Module σ) (fuel index : Nat) (arguments : Array Value) (M : Machine σ) :
    Passes M (m.callMoments fuel index arguments M) (stateAfter (m.invokeIndex fuel index arguments) M) := by
  unfold callMoments
  cases accepted : m.accept index arguments with
  | error e =>
    rw [stateAfter_error (invokeIndex_refused accepted fuel)]
    exact .done .refl
  | ok f =>
    refine Passes.last ?_ (runToEnd_restored accepted)
    rw [runToEnd_eq]
    dsimp only
    cases begun : m.starts f index arguments M with
    | error e N => exact .comes ((m.starts_built f index arguments).changes.error .refl begun) (.done .refl)
    | ok r N =>
      have started := (m.starts_built f index arguments).changes.ok .refl begun
      cases r with
      | none => exact .comes started (.done .refl)
      | some act => exact (m.runMoments_passes fuel [act] N).first started

theorem runMoments_counted (counted : M.store.depth = chain.length) (within : M.Within) :
    ∀ A ∈ m.runMoments fuel chain M, A.Counted := by
  induction fuel generalizing chain M with
  | zero => cases chain <;> exact List.forall_mem_singleton.mpr ⟨counted, within⟩
  | succ fuel ih =>
    cases chain with
    | nil => exact List.forall_mem_singleton.mpr ⟨counted, within⟩
    | cons act callers =>
      rw [runMoments, List.forall_mem_cons]
      refine ⟨⟨counted, within⟩, ?_⟩
      cases stepped : m.step act callers M with
      | ok chain N =>
        have counted' : N.store.depth = 0 + chain.length := step_depth stepped (counted.trans (Nat.zero_add _).symm)
        exact ih (counted'.trans (Nat.zero_add _)) ((m.step_built act callers).within.ok within stepped)
      | error e N => exact List.forall_mem_singleton.mpr ((m.step_built act callers).within.error within stepped)

theorem callMoments_counted (resting : M.store.depth = 0) : ∀ A ∈ m.callMoments fuel index arguments M, A.Counted := by
  have within : M.Within := by
    unfold Machine.Within
    omega
  unfold callMoments
  cases m.accept index arguments with
  | error e => exact fun _ => nofun
  | ok f =>
    dsimp only
    cases begun : m.starts f index arguments M with
    | error e N =>
      exact List.forall_mem_singleton.mpr ((m.starts_built f index arguments).within.error within begun)
    | ok r N =>
      have started := (m.starts_built f index arguments).within.ok within begun
      have counted := starts_depth begun
      rw [resting, Nat.zero_add] at counted
      cases r with
      | none => exact List.forall_mem_singleton.mpr ⟨counted, started⟩
      | some act => exact runMoments_counted counted started

theorem onStack_changes {calls : Prop} (op : Stack.Op α) : Maintains (M.Changes calls) (Module.onStack op : Session σ α) := by
  intro N before
  unfold Module.onStack
  cases done : Run.onStack op N with
  | ok a O => exact (Built.onStack op).changes.ok before done
  | error e O => exact (Built.onStack op).changes.error before done

theorem onStack_restores (op : Stack.Op α) : Restores (Module.onStack op : Session σ α) := by
  intro M
  have same := onStack_changes op M (.refl : M.Changes False M)
  cases done : (Module.onStack op : Session σ α) M with
  | ok a N =>
    rw [done] at same
    exact same.depth
  | error e N =>
    rw [done] at same
    exact .inr same.depth

end Module

/-! ### Requests -/

namespace Request
variable {m : Module σ} {M : Machine σ} {fuel : Nat}

theorem perform_restores (m : Module σ) (fuel : Nat) (r : Request) : Restores (r.perform m fuel) := by
  cases r with
  | start =>
    unfold perform
    cases m.start with
    | none => exact .pure _
    | some index => exact m.invokeIndex_restores fuel index #[]
  | invoke name arguments => exact (Restores.ofExcept _).bind fun index => m.invokeIndex_restores fuel index arguments
  | call name arguments =>
    exact ((Restores.ofExcept _).bind fun index => (m.invokeIndex_restores fuel index arguments).bind fun _ =>
      Module.onStack_restores _).discard
  | jumpTable index => exact (Restores.ofExcept _).discard
  | readResults n => exact (Module.onStack_restores _).discard

/-- A request that calls a function does so first. -/
theorem perform_calls {r : Request} {index : Nat} {arguments : Array Value} (h : r.call? m = some (index, arguments)) :
    (stateAfter (m.invokeIndex fuel index arguments) M).Changes True (stateAfter (r.perform m fuel) M) := by
  cases r with
  | start =>
    obtain ⟨_, found, same⟩ := Option.map_eq_some_iff.mp h
    cases same
    unfold perform
    rw [found]
  | invoke name arguments =>
    obtain ⟨_, found, same⟩ := Option.map_eq_some_iff.mp h
    cases same
    show Machine.Changes _ _ (stateAfter (_ >>= _) M)
    rw [Module.lookup_found found, stateAfter_bind (ofExcept_apply_ok _ M)]
  | call name arguments =>
    obtain ⟨_, found, same⟩ := Option.map_eq_some_iff.mp h
    cases same
    show Machine.Changes _ _ (stateAfter (discard (_ >>= _)) M)
    rw [discard_eq_bind]
    refine Maintains.after_bind ?_ fun _ => .pure _
    rw [Module.lookup_found found, stateAfter_bind (ofExcept_apply_ok _ M)]
    exact Maintains.after_bind .refl fun _ => Module.onStack_changes _
  | jumpTable index => cases h
  | readResults n => cases h

theorem perform_rests {r : Request} (h : r.call? m = none) : M.Changes True (stateAfter (r.perform m fuel) M) := by
  cases r with
  | start =>
    unfold perform
    rw [Option.map_eq_none_iff.mp h]
    exact .refl
  | invoke name arguments =>
    show M.Changes True (stateAfter (_ >>= _) M)
    rw [Module.lookup_missing (Option.map_eq_none_iff.mp h)]
    exact .refl
  | call name arguments =>
    show M.Changes True (stateAfter (discard (_ >>= _)) M)
    rw [discard_eq_bind]
    refine Maintains.after_bind ?_ fun _ => .pure _
    rw [Module.lookup_missing (Option.map_eq_none_iff.mp h)]
    exact .refl
  | jumpTable index =>
    show M.Changes True (stateAfter (discard (ofExcept ((m.jumpTable index).mapError .trap) : Session σ JumpTable)) M)
    cases m.jumpTable index <;> exact .refl
  | readResults n =>
    show M.Changes True (stateAfter (discard (Module.readResults n)) M)
    rw [discard_eq_bind]
    exact Maintains.after_bind ((Module.onStack_changes _).after .refl) fun _ => .pure _

/-- The moments of a request lead to the machine that it leaves. -/
theorem moments_passes (m : Module σ) (fuel : Nat) (r : Request) (M : Machine σ) :
    Passes M (r.moments m fuel M) (stateAfter (r.perform m fuel) M) := by
  unfold moments
  cases h : r.call? m with
  | none => exact .done (perform_rests h)
  | some call => exact (m.callMoments_passes fuel call.1 call.2 M).last (perform_calls h)

theorem moments_counted {r : Request} (resting : M.store.depth = 0) : ∀ A ∈ r.moments m fuel M, A.Counted := by
  unfold moments
  cases r.call? m with
  | none => exact fun _ => nofun
  | some call => exact Module.callMoments_counted resting

end Request

/-! ### Whole sessions -/

namespace Module
variable {m : Module σ} {M : Machine σ} {fuel : Nat} {requests : List Request}

theorem moments_passes (m : Module σ) (fuel : Nat) (requests : List Request) (M : Machine σ) :
    ∃ N, Passes M (m.moments fuel requests M) N := by
  induction requests generalizing M with
  | nil => exact ⟨M, .comes .refl (.done .refl)⟩
  | cons r requests ih =>
    have here := r.moments_passes m fuel M
    have onward : ∀ N, stateAfter (r.perform m fuel) M = N →
        ∃ O, Passes M (.rest M :: r.moments m fuel M ++ m.moments fuel requests N) O := fun N left =>
      have ⟨O, later⟩ := ih N
      ⟨O, .comes .refl ((left ▸ here).append later)⟩
    unfold moments
    cases done : r.perform m fuel M with
    | ok _ N => exact onward N (stateAfter_ok done)
    | error e N =>
      cases e with
      | unfinished => exact ⟨_, .comes .refl (here.append (.done .refl))⟩
      | _ => exact onward N (stateAfter_error done)

theorem moments_counted (resting : M.store.depth = 0) : ∀ A ∈ m.moments fuel requests M, A.Counted := by
  induction requests generalizing M with
  | nil => exact List.forall_mem_singleton.mpr resting
  | cons r requests ih =>
    have restored := r.perform_restores m fuel M
    unfold moments
    rw [List.cons_append, List.forall_mem_cons]
    refine ⟨resting, fun A member => ?_⟩
    rcases List.mem_append.mp member with member | member
    · exact r.moments_counted resting A member
    · cases done : r.perform m fuel M with
      | ok _ N =>
        rw [done] at restored member
        exact ih (restored.trans resting) A member
      | error e N =>
        rw [done] at restored member
        cases e with
        | unfinished => cases member
        | _ => exact ih ((restored.resolve_left nofun).trans resting) A member

/-- Whatever is asked of a module that has been accepted, its store evolves from moment to moment, and at each of them
    the memories are within their limits and the depth tells how many activations there are. -/
theorem moments_persist {bytes : ByteArray} {options : Options} {resolve : Resolver σ} {l : Loading σ}
    (accepted : decode bytes options resolve = .ok () l) (host : σ) (notices : Array Notice)
    (fuel : Nat) (requests : List Request) :
    (l.module.moments fuel requests ⟨l.store, host, notices⟩).Pairwise
        (fun A B => A.machine.store.Evolves B.machine.store) ∧
      ∀ A ∈ l.module.moments fuel requests ⟨l.store, host, notices⟩,
        l.store.Evolves A.machine.store ∧ A.machine.store.Regular options ∧ A.Counted := by
  obtain ⟨sections, -, -, right, given⟩ := decode_sound accepted
  obtain ⟨_, passes⟩ := l.module.moments_passes fuel requests ⟨l.store, host, notices⟩
  have regular : l.store.Regular options := by
    rw [given.store]
    exact Outline.store_regular right options
  have resting : l.store.depth = 0 := by
    rw [given.store]
    rfl
  refine ⟨passes.pairwise.imp Machine.Changes.evolves, fun A member => ?_⟩
  have evolves := (passes.changes A member).evolves
  exact ⟨evolves, evolves.regular regular, moments_counted resting A member⟩

/-- The sample is asked to call what is there and what is not, with arguments that are right and wrong. -/
theorem moments_persist_sample : ∃ l, decode Sample.bytes {} (Resolver.none (σ := Unit)) = .ok () l ∧
    ∃ moments, moments = l.module.moments 5 [.start, .call "f" #[], .invoke "g" #[], .invoke "f" #[.i32 1],
        .invoke "f" #[], .jumpTable 0, .readResults 1] ⟨l.store, (), #[]⟩ ∧
      (moments.map fun A => A.machine.store.depth) = [0, 0, 1, 1, 0, 0, 0, 0, 1, 1, 0, 0, 0, 0] ∧
      moments.Pairwise (fun A B => A.machine.store.Evolves B.machine.store) ∧
      ∀ A ∈ moments, l.store.Evolves A.machine.store ∧ A.machine.store.Regular {} ∧ A.Counted := by
  obtain ⟨l, done, loaded⟩ : ∃ l, decode Sample.bytes {} (Resolver.none (σ := Unit)) = .ok () l ∧
      (Outline.of Sample.sections).Gives Resolver.none {} l :=
    decode_complete (by decide) Sample.spelled (by decide) Sample.right
  refine ⟨l, done, _, rfl, ?_, moments_persist done () #[] 5 _⟩
  rw [loaded.module, loaded.store]
  decide +kernel

end Module
end Wasm
