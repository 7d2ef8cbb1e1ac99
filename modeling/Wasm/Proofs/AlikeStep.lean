import Mathlib.Data.List.Forall2
import Wasm.Proofs.Alike
import Wasm.Proofs.Labels
import Wasm.Proofs.FlatStep

/-! Two machines that are alike above a height: a step of one is a step of the other, as long as it spares what is below
    and no guard stops it. -/

namespace Wasm
variable {σ : Type}

open Run

/-- Above a height of the stack, the machines are alike. If they have to be alike exactly, the hosts and the notices are
    the same, too. -/
structure Machine.Alike (E : Prop) (o k n : Nat) (M N : Machine σ) : Prop where
  store : M.store.Alike E o k n N.store
  host : E → N.host = M.host
  notices : E → N.notices = M.notices

/-- The same construct, further up the stack. -/
structure Label.Alike (k : Nat) (L L' : Label) : Prop where
  kind : L'.kind = L.kind
  start : L'.start = L.start
  stop : L'.stop = L.stop
  height : L'.height = L.height + k
  arity : L'.arity = L.arity
  results : L'.results = L.results

/-- The same function in the same place, further up the stack. What has been noted for the guards may differ. -/
structure Activation.Alike (k : Nat) (act act' : Activation) : Prop where
  index : act'.index = act.index
  body : act'.body = act.body
  jumps : act'.jumps = act.jumps
  offset : act'.frame.offset = act.frame.offset + k
  locals : act'.frame.locals = act.frame.locals
  results : act'.results = act.results
  pos : act'.pos = act.pos
  labels : List.Forall₂ (Label.Alike k) act.labels act'.labels

inductive Flow.Alike (k : Nat) : Flow → Flow → Prop
  | next {act act'} : act.Alike k act' → Alike k (.next act) (.next act')
  | call {act act'} (callee : Nat) : act.Alike k act' → Alike k (.call act callee) (.call act' callee)
  | ret : Alike k .ret .ret

/-- The guards do not stop an instruction: a construct that it branches to is not idle, and a call is not repeated. -/
def Activation.Calm (m : Module σ) (act : Activation) (M : Machine σ) : Instr → Prop
  | .call callee => ∀ f, m.function callee = .ok f →
    Module.isRepeated act callee f.signature.params.length M.store = .ok false
  | i => ∀ depth stack, i.target? M.store.stack = some (depth, stack) → ∀ L, act.labels[depth]? = some L →
    isIdle L act.frame { M.store with stack } = false

/-! ### Operations -/

namespace Run
variable {E F : Prop} {o k n n' : Nat} {α : Type}

theorem onStack_alike {op op' : Stack.Op α} (h : Mirrors F (Stack.Alike o k n) op op' (Stack.Alike o k n')) :
    Mirrors F (Machine.Alike (σ := σ) E o k n) (onStack op) (onStack op') (Machine.Alike E o k n') := by
  intro M N alike a M' done
  obtain ⟨stack, ran, rfl⟩ := onStack_eq_ok.mp done
  have after := h M.store.stack N.store.stack alike.store.stack a stack ran
  cases other : op' N.store.stack with
  | ok b stack' =>
    rw [other] at after
    rw [onStack_eq_ok.mpr ⟨stack', other, rfl⟩]
    exact ⟨after.1, { alike with store := { alike.store with stack := after.2 } }⟩
  | error e stack' =>
    rw [other] at after
    rw [onStack_eq_error.mpr ⟨stack', other, rfl⟩]
    exact after

theorem store_alike : Simulates F (Machine.Alike (σ := σ) E o k n) store store
    fun s t M N => s.Alike E o k n t ∧ Machine.Alike E o k n M N := by
  intro M N alike s M' done
  cases done
  exact ⟨alike.store, alike⟩

theorem setDepth_alike (f : Nat → Nat) : Mirrors F (Machine.Alike (σ := σ) E o k n)
    (onStore (modify fun s => { s with depth := f s.depth })) (onStore (modify fun s => { s with depth := f s.depth }))
    (Machine.Alike E o k n) := by
  intro M N alike _ M' done
  cases done
  exact ⟨rfl, { alike with store := { alike.store with depth := fun same => congrArg f (alike.store.depth same) } }⟩

theorem callHost_alike (same : E) (f : HostFunc σ) (arguments : Array Value) :
    Mirrors F (Machine.Alike E o k n) (callHost f arguments) (callHost f arguments) (Machine.Alike E o k n) := by
  intro M N alike results M' done
  obtain ⟨host, ran, rfl⟩ := callHost_eq_ok.mp done
  rw [callHost_eq_ok.mpr ⟨host, by rw [alike.host same, ran], rfl⟩]
  refine ⟨rfl, { alike with store := { alike.store with effects := ?_ }, host := fun _ => rfl }⟩
  exact congrArg (· + 1) alike.store.effects

end Run

namespace Activation
variable {E F : Prop} {o k n : Nat} {R : Machine σ → Machine σ → Prop} {act act' : Activation}

theorem goto_alike (twins : act.Alike k act') (pos : Nat) : Simulates F R (goto act pos : Run σ Activation) (goto act' pos)
    fun a b M N => a.Alike k b ∧ R M N := by
  unfold goto
  by_cases inside : pos ≤ act.body.size
  · rw [if_pos inside, if_pos (twins.body ▸ inside)]
    exact .pure fun M N related => ⟨{ twins with pos := rfl }, related⟩
  · rw [if_neg inside]
    exact .throw

theorem blockSignature_alike (types : Array FuncType) (t : BlockType) (start : Nat) :
    Mirrors F R (blockSignature types t start : Run σ _) (blockSignature types t start) R := by
  unfold blockSignature
  cases t.arity types with
  | ok signature => exact .pure
  | error e => exact Simulates.throw

theorem heightBelow_alike (count : Nat) : Simulates F (Machine.Alike (σ := σ) E o k n) (heightBelow count)
    (heightBelow count) fun height height' M N => height' = height + k ∧ Machine.Alike E o k n M N := by
  intro M N alike height M' done
  obtain ⟨whole, rfl⟩ := heightBelow_eq_ok.mp done
  have size := alike.store.stack.size
  rw [show heightBelow count N = .ok (height + k) N from heightBelow_eq_ok.mpr ⟨by omega, rfl⟩]
  exact ⟨rfl, alike⟩

/-- Both activations enter the same construct. -/
theorem Alike.entered (twins : act.Alike k act') {L L' : Label} (labels : L.Alike k L') :
    Activation.Alike k { act with labels := L :: act.labels } { act' with labels := L' :: act'.labels } :=
  { twins with labels := .cons labels twins.labels }

theorem Alike.within (twins : act.Alike k act') {labels labels' : List Label}
    (h : List.Forall₂ (Label.Alike k) labels labels') :
    Activation.Alike k { act with labels } { act' with labels := labels' } := { twins with labels := h }

/-- The constructs at the same depth correspond to each other. -/
theorem Alike.label (twins : act.Alike k act') {depth : Nat} {L : Label} (found : act.labels[depth]? = some L) :
    ∃ L', act'.labels[depth]? = some L' ∧ L.Alike k L' := by
  obtain ⟨inside, rfl⟩ := List.getElem?_eq_some_iff.mp found
  obtain ⟨length, get⟩ := List.forall₂_iff_get.mp twins.labels
  exact ⟨_, List.getElem?_eq_getElem (length ▸ inside), get depth inside (length ▸ inside)⟩

theorem Alike.label_of (twins : act.Alike k act') {depth : Nat} {L' : Label} (found : act'.labels[depth]? = some L') :
    ∃ L, act.labels[depth]? = some L ∧ L.Alike k L' := by
  obtain ⟨inside, rfl⟩ := List.getElem?_eq_some_iff.mp found
  obtain ⟨length, get⟩ := List.forall₂_iff_get.mp twins.labels
  exact ⟨_, List.getElem?_eq_getElem (length ▸ inside), get depth (length ▸ inside) inside⟩

theorem Alike.refl (act : Activation) : act.Alike 0 act :=
  ⟨rfl, rfl, rfl, rfl, rfl, rfl, rfl, List.forall₂_same.mpr fun _ _ => ⟨rfl, rfl, rfl, rfl, rfl, rfl⟩⟩

/-- Both are in no construct, or in constructs that correspond. -/
theorem Alike.innermost (twins : act.Alike k act') : (act.labels = [] ∧ act'.labels = []) ∨
    ∃ L outer L' outer', act.labels = L :: outer ∧ act'.labels = L' :: outer' ∧ L.Alike k L' ∧
      List.Forall₂ (Label.Alike k) outer outer' := by
  have labels := twins.labels
  generalize act.labels = ls, act'.labels = ls' at labels
  cases labels with
  | nil => exact .inl ⟨rfl, rfl⟩
  | cons first others => exact .inr ⟨_, _, _, _, rfl, rfl, first, others⟩

section Enter
variable (types : Array FuncType) (t : BlockType) (start : Nat)

theorem enterBlock_alike (twins : act.Alike k act') :
    Simulates F (Machine.Alike (σ := σ) E o k n) (enterBlock act types t start) (enterBlock act' types t start)
      fun a b M N => a.Alike k b ∧ Machine.Alike E o k n M N := by
  refine (blockSignature_alike types t start).bind_simulates fun signature => ?_
  refine (heightBelow_alike signature.1).bind fun height height' => .given ?_
  rintro rfl
  rw [show act'.jumps.blockEnd start = act.jumps.blockEnd start by rw [twins.jumps]]
  refine (Mirrors.ofExcept (act.jumps.blockEnd start)).bind_simulates fun stop => ?_
  refine store_alike.bind fun s s' => .pure fun M N related => ⟨twins.entered ?_, related.2⟩
  exact ⟨rfl, rfl, rfl, rfl, rfl, rfl⟩

theorem enterLoop_alike (twins : act.Alike k act') :
    Simulates F (Machine.Alike (σ := σ) E o k n) (enterLoop act types t start) (enterLoop act' types t start)
      fun a b M N => a.Alike k b ∧ Machine.Alike E o k n M N := by
  refine (blockSignature_alike types t start).bind_simulates fun signature => ?_
  refine (heightBelow_alike signature.1).bind fun height height' => .given ?_
  rintro rfl
  rw [show act'.jumps.loopEnd start = act.jumps.loopEnd start by rw [twins.jumps]]
  refine (Mirrors.ofExcept (act.jumps.loopEnd start)).bind_simulates fun stop => ?_
  refine store_alike.bind fun s s' => .pure fun M N related => ⟨twins.entered ?_, related.2⟩
  exact ⟨rfl, rfl, rfl, rfl, rfl, rfl⟩

theorem enterIf_alike (twins : act.Alike k act') :
    Simulates F (Machine.Alike (σ := σ) E o k (n + 1)) (enterIf act types t start) (enterIf act' types t start)
      fun a b M N => a.Alike k b ∧ Machine.Alike E o k n M N := by
  refine (blockSignature_alike types t start).bind_simulates fun signature => ?_
  refine (onStack_alike (Stack.popInt_alike .w32)).bind_simulates fun condition => ?_
  rw [show act'.jumps.ifTargets start = act.jumps.ifTargets start by rw [twins.jumps]]
  refine (Mirrors.ofExcept (act.jumps.ifTargets start)).bind_simulates fun targets => ?_
  refine (heightBelow_alike signature.1).bind fun height height' => .given ?_
  rintro rfl
  refine store_alike.bind fun s s' => .given fun _ => ?_
  have labels : Label.Alike k ⟨.ifThen, start, targets.2, height, signature.2.length, signature.2, #[], s.effects⟩
    ⟨.ifThen, start, targets.2, height + k, signature.2.length, signature.2, #[], s'.effects⟩ :=
    ⟨rfl, rfl, rfl, rfl, rfl, rfl⟩
  have inside := twins.entered labels
  dsimp only
  by_cases holds : condition ≠ 0
  · rw [if_pos holds, if_pos holds]
    exact .pure fun M N alike => ⟨inside, alike⟩
  · rw [if_neg holds, if_neg holds]
    -- Without an else both go behind the end mark, else both to the other arm.
    by_cases alone : targets.1 = targets.2
    · rw [if_pos alone, if_pos alone]
      exact goto_alike inside _
    · rw [if_neg alone, if_neg alone]
      exact goto_alike inside _

end Enter

theorem leaveArm_alike (twins : act.Alike k act') (start : Nat) :
    Simulates F R (leaveArm act start : Run σ Activation) (leaveArm act' start) fun a b M N => a.Alike k b ∧ R M N := by
  unfold leaveArm
  rcases twins.innermost with ⟨none, none'⟩ | ⟨L, outer, L', outer', some, some', labels, -⟩
  · rw [none]
    exact .throw
  · rw [some, some']
    dsimp only
    rw [labels.kind, labels.stop]
    by_cases isIf : L.kind = .ifThen
    · rw [if_pos isIf, if_pos isIf]
      exact goto_alike twins _
    · rw [if_neg isIf]
      exact .throw

theorem land_alike (twins : act.Alike k act') {L L' : Label} (labels : L.Alike k L') {outer outer' : List Label}
    (outside : List.Forall₂ (Label.Alike k) outer outer') :
    Simulates F R (land act L outer : Run σ Flow) (land act' L' outer') fun a b M N => a.Alike k b ∧ R M N := by
  have goes : ∀ pos, Simulates F R (do return .next (← goto { act with labels := outer } pos) : Run σ Flow)
      (do return .next (← goto { act' with labels := outer' } pos)) fun a b M N => a.Alike k b ∧ R M N := fun pos =>
    (goto_alike (twins.within outside) pos).bind fun a b => .pure fun M N related => ⟨.next related.1, related.2⟩
  unfold land
  rw [labels.kind, labels.stop, show act'.jumps.loopStart? L.stop = act.jumps.loopStart? L.stop by rw [twins.jumps]]
  split
  · split
    · exact goes _
    · exact .throw
  · exact goes _

/-- Settling the stack for constructs that correspond. -/
theorem settle_alike {M M' N : Machine σ} {height arity : Nat} (alike : M.Alike E o k 0 N)
    (spares : M.store.stack.SettlesAbove o height arity) (done : onStack (Stack.settle height arity) M = .ok () M') :
    ∃ N', onStack (Stack.settle (height + k) arity) N = .ok () N' ∧ M'.Alike E o k 0 N' := by
  obtain ⟨stack, settled, rfl⟩ := onStack_eq_ok.mp done
  obtain ⟨stack', settled', after⟩ := Stack.settle_alike alike.store.stack spares settled
  exact ⟨_, onStack_eq_ok.mpr ⟨stack', settled', rfl⟩, { alike with store := { alike.store with stack := after } }⟩

/-- What an operation does with one machine and what another one does with the other are alike. -/
def Meets (E : Prop) (o k : Nat) (flow : Flow) (M' : Machine σ) : EStateM.Result Trap (Machine σ) Flow → Prop
  | .ok flow' N' => flow.Alike k flow' ∧ M'.Alike E o k 0 N'
  | .error _ _ => ¬E

theorem leave_alike (twins : act.Alike k act') {M M' N : Machine σ} {flow : Flow} (alike : M.Alike E o k 0 N)
    (spares : ∀ L ∈ act.labels.head?, M.store.stack.SettlesAbove o L.height L.results.length)
    (done : leave act M = .ok flow M') : Meets E o k flow M' (leave act' N) := by
  unfold leave at done ⊢
  rcases twins.innermost with ⟨none, none'⟩ | ⟨L, outer, L', outer', some, some', labels, outside⟩
  · rw [none] at done
    rw [none']
    cases done
    exact ⟨.ret, alike⟩
  · rw [some] at done spares
    rw [some']
    obtain ⟨_, M₁, settled, ended⟩ := bind_eq_ok.mp done
    cases ended
    obtain ⟨N₁, settled', after⟩ := settle_alike alike (spares L rfl) settled
    dsimp only
    rw [labels.height, labels.results, bind_ok settled']
    exact ⟨.next (twins.within outside), after⟩

theorem branch_alike (twins : act.Alike k act') {M M' N : Machine σ} {flow : Flow} (alike : M.Alike E o k 0 N)
    {depth : Nat} (conditional : Bool)
    (spares : ∀ L, act.labels[depth]? = some L → M.store.stack.SettlesAbove o L.height L.arity)
    (awake : ∀ L, act.labels[depth]? = some L → isIdle L act.frame M.store = false)
    (awake' : ∀ L, act'.labels[depth]? = some L → isIdle L act'.frame N.store = false)
    (done : branch act depth conditional M = .ok flow M') :
    Meets E o k flow M' (branch act' depth conditional N) := by
  -- A branch out of the function only ends it. Any other one settles the stack for its target and goes there.
  by_cases out : depth = act.labels.length
  · have out' : depth = act'.labels.length := out.trans twins.labels.length_eq
    unfold branch at done ⊢
    rw [if_pos out] at done
    rw [if_pos out']
    cases done
    exact ⟨.ret, alike⟩
  · cases found : act.labels[depth]? with
    | none =>
      unfold branch at done
      rw [if_neg out, found] at done
      cases done
    | some L =>
      obtain ⟨L', found', labels⟩ := twins.label found
      rw [branch_awake found (awake L found)] at done
      rw [branch_awake found' (awake' L' found'), labels.height, labels.arity]
      obtain ⟨_, M₁, settled, landed⟩ := bind_eq_ok.mp done
      obtain ⟨N₁, settled', after⟩ := settle_alike alike (spares L found) settled
      rw [bind_ok settled']
      have lands := land_alike (F := ¬E) (R := Machine.Alike E o k 0) twins labels
        (List.forall₂_drop (depth + 1) twins.labels) M₁ N₁ after flow M' landed
      cases other : land act' L' (act'.labels.drop (depth + 1)) N₁ with
      | ok flow' N' =>
        rw [other] at lands
        exact lands
      | error e N' =>
        rw [other] at lands
        exact lands

theorem SettlesAbove.lower {s : Stack} {offset height arity : Nat} (h : s.SettlesAbove offset height arity)
    (below : o ≤ offset) : s.SettlesAbove o height arity := h.imp_left (Nat.le_trans below)

theorem meets_next {x x' : Run σ Activation} {M M' N : Machine σ} {flow : Flow}
    (h : Simulates (¬E) R x x' fun a b M N => a.Alike k b ∧ M.Alike E o k 0 N) (related : R M N)
    (done : (do return .next (← x) : Run σ Flow) M = .ok flow M') :
    Meets E o k flow M' ((do return .next (← x') : Run σ Flow) N) := by
  obtain ⟨a, M₁, first, ended⟩ := bind_eq_ok.mp done
  cases ended
  have after := h M N related a _ first
  cases other : x' N with
  | ok b N₁ =>
    rw [other] at after
    rw [bind_ok other]
    exact ⟨.next after.1, after.2⟩
  | error e N₁ =>
    rw [other] at after
    rw [bind_error other]
    exact after

/-- An instruction that spares what is below, and that no guard stops. -/
theorem exec_alike {m : Module σ} (twins : act.Alike k act') (above : o ≤ act.frame.offset) {M M' N : Machine σ}
    (alike : M.Alike E o k 0 N) {i : Instr} {flow : Flow} (spares : act.Spares m M.store.stack i)
    (calm : act.Calm m M i) (calm' : act'.Calm m N i) (start : Nat)
    (done : exec m.types act start i M = .ok flow M') (quiet : E ∨ M'.store.effects = M.store.effects) :
    Meets E o k flow M' (exec m.types act' start i N) := by
  cases i with
  | plain p =>
    obtain ⟨_, M₁, worked, ended⟩ := bind_eq_ok.mp done
    cases ended
    obtain ⟨s', ran, rfl⟩ := onStore_eq_ok.mp worked
    have enough : o + p.pops ≤ M.store.stack.values.size := Nat.le_trans (Nat.add_le_add_right above _) spares
    have after := Plain.exec_alike ⟨above, twins.offset, twins.locals⟩ p (alike.store.more enough) ran quiet
    cases other : p.exec act'.frame N.store with
    | ok _ t' =>
      rw [other] at after
      rw [exec_plain_ok (onStore_eq_ok.mpr ⟨t', other, rfl⟩)]
      exact ⟨.next twins, { alike with store := after }⟩
    | error e t' =>
      rw [other] at after
      rw [exec_plain_error (onStore_eq_error.mpr ⟨t', other, rfl⟩)]
      exact after
  | block t => exact meets_next (enterBlock_alike m.types t start twins) alike done
  | loop t => exact meets_next (enterLoop_alike m.types t start twins) alike done
  | ifThen t =>
    have enough : o + 1 ≤ M.store.stack.values.size := Nat.le_trans (Nat.add_le_add_right above _) spares
    refine meets_next (enterIf_alike (n := 0) m.types t start twins) ?_ done
    exact { alike with store := alike.store.more enough }
  | elseMark => exact meets_next (leaveArm_alike twins start) alike done
  | endMark => exact leave_alike twins alike (fun L h => SettlesAbove.lower (spares L h) above) done
  | br depth =>
    exact branch_alike twins alike false (fun L h => SettlesAbove.lower (spares L h) above)
      (fun L h => calm depth _ rfl L h) (fun L h => calm' depth _ rfl L h) done
  -- The condition is above both frames, and the branch then starts from stacks that are alike.
  | brIf depth =>
    obtain ⟨condition, M₁, popped, done⟩ := bind_eq_ok.mp done
    have enough : o + 1 ≤ M.store.stack.values.size := Nat.le_trans (Nat.add_le_add_right above _) spares.1
    have ready : M.Alike E o k 1 N := { alike with store := alike.store.more enough }
    obtain ⟨N₁, popped', alike₁⟩ := (onStack_alike (Stack.popInt_alike .w32)).ok ready popped
    by_cases holds : condition ≠ 0
    · rw [if_pos holds] at done
      rw [exec_brIf_taken popped' holds]
      obtain ⟨stack, ran, rfl⟩ := onStack_eq_ok.mp popped
      obtain ⟨stack', ran', rfl⟩ := onStack_eq_ok.mp popped'
      have target : (Instr.brIf depth).target? M.store.stack = _ := Instr.target?_brIf ran holds
      exact branch_alike twins alike₁ true (fun L h => SettlesAbove.lower (spares.2 depth stack target L h) above)
        (calm depth stack target) (calm' depth stack' (Instr.target?_brIf ran' holds)) done
    · rw [if_neg holds] at done
      rw [exec_brIf_passed popped' (Decidable.not_not.mp holds)]
      cases done
      exact ⟨.next twins, alike₁⟩
  | brTable targets fallback =>
    obtain ⟨index, M₁, popped, done⟩ := bind_eq_ok.mp done
    have enough : o + 1 ≤ M.store.stack.values.size := Nat.le_trans (Nat.add_le_add_right above _) spares.1
    have ready : M.Alike E o k 1 N := { alike with store := alike.store.more enough }
    obtain ⟨N₁, popped', alike₁⟩ := (onStack_alike Stack.popAddress_alike).ok ready popped
    rw [exec_brTable_ok popped']
    obtain ⟨stack, ran, rfl⟩ := onStack_eq_ok.mp popped
    obtain ⟨stack', ran', rfl⟩ := onStack_eq_ok.mp popped'
    have target : (Instr.brTable targets fallback).target? M.store.stack = _ := Instr.target?_brTable ran
    exact branch_alike twins alike₁ false (fun L h => SettlesAbove.lower (spares.2 _ stack target L h) above)
      (calm _ stack target) (calm' _ stack' (Instr.target?_brTable ran')) done
  | ret =>
    cases done
    exact ⟨.ret, alike⟩
  | call callee =>
    cases done
    exact ⟨.call callee twins, alike⟩

end Activation

/-! ### Steps -/

/-- No guard stops the next instruction. -/
def Activation.Unstopped (m : Module σ) (act : Activation) (M : Machine σ) : Prop :=
  ∀ i next, Instr.read act.body act.pos = .ok i next → act.Calm m M i

namespace Module
variable {E : Prop} {o k : Nat} {m : Module σ} {M M' N : Machine σ}

/-- A function is entered, or is over at once. If the machines do not have to be alike exactly, it is no host function. -/
theorem enter_alike {f : Function σ} {index offset : Nat} (above : o ≤ offset)
    (inside : E ∨ ∀ moduleName name function, f.body ≠ .host moduleName name (some function)) :
    Simulates (¬E) (Machine.Alike E o k f.signature.params.length) (m.enter f index offset)
      (m.enter f index (offset + k)) fun r r' M N => Option.Rel (Activation.Alike k) r r' ∧ M.Alike E o k 0 N := by
  refine store_alike.bind fun s t => .given fun stores => ?_
  have size := stores.stack.size
  dsimp only
  by_cases deep : s.options.maxCallDepth ≤ s.depth
  · rw [if_pos deep]
    intro M N _ r M' done
    obtain ⟨_, _, -, done⟩ := bind_eq_ok.mp done
    cases done
  rw [if_neg deep]
  -- Only the other one may be too deep, and only if the depths need not be the same.
  by_cases deep' : t.options.maxCallDepth ≤ t.depth
  · rw [if_pos deep']
    intro M N _ r M' done same
    exact deep (stores.limit same ▸ stores.depth same ▸ deep')
  rw [if_neg deep']
  refine (setDepth_alike (· + 1)).bind_simulates fun _ => ?_
  by_cases short : s.stack.size < offset + f.signature.params.length
  · rw [if_pos short]
    exact .throw
  have short' : ¬t.stack.size < offset + k + f.signature.params.length := by
    unfold Stack.size at short ⊢
    omega
  rw [if_neg short, if_neg short']
  cases body : f.body with
  | pending => exact .throw
  | host moduleName name bound =>
    cases bound with
    | none => exact .throw
    | some function =>
      -- A host function sees its state, and what it gives back depends on it.
      have same : E := inside.resolve_right fun none => none moduleName name function body
      refine (onStack_alike (Stack.popMany_alike (n := 0) _)).bind_simulates fun arguments => ?_
      refine (callHost_alike same function arguments).bind_simulates fun results => ?_
      refine (Mirrors.ofExcept _).bind_simulates fun _ => ?_
      refine (onStack_alike (Stack.truncate_alike above)).bind_simulates fun _ => ?_
      refine (onStack_alike (Stack.pushMany_alike results)).bind_simulates fun _ => ?_
      refine (setDepth_alike (· - 1)).bind_simulates fun _ => ?_
      exact .pure fun M N alike => ⟨.none, alike⟩
  | code bytes =>
    refine (Mirrors.ofExcept _).bind_simulates fun jumps => ?_
    refine (onStack_alike (Stack.pushMany_alike _)).bind_simulates fun _ => ?_
    refine .pure fun M N alike => ⟨.some ⟨rfl, rfl, rfl, rfl, rfl, rfl, rfl, .nil⟩, ?_⟩
    exact { alike with store := alike.store.fewer (Nat.zero_le _) }

theorem begins_alike {callee : Nat} {r : Option Activation} (alike : M.Alike E o k 0 N)
    (spares : ∀ f, m.function callee = .ok f → o + f.signature.params.length ≤ M.store.stack.values.size)
    (done : m.begins callee M = .ok r M') (quiet : E ∨ M'.store.effects = M.store.effects) :
    (∀ act, r = some act → o ≤ act.frame.offset) ∧ match m.begins callee N with
      | .ok r' N' => Option.Rel (Activation.Alike k) r r' ∧ M'.Alike E o k 0 N'
      | .error _ _ => ¬E := by
  rw [begins_eq] at done ⊢
  obtain ⟨f, M₁, found, rest⟩ := bind_eq_ok.mp done
  obtain ⟨offset, M₂, below, entered⟩ := bind_eq_ok.mp rest
  obtain ⟨function, same⟩ := ofExcept_eq_ok.mp found
  subst M₁
  obtain ⟨whole, same⟩ := Activation.heightBelow_eq_ok.mp below
  subst M₂
  have enough := spares f function
  have above : o ≤ offset := by omega
  refine ⟨fun act some => ?_, ?_⟩
  · subst some
    obtain ⟨body, jumps, -, -, -, -, rfl, -⟩ := enter_eq_some entered
    exact above
  -- A call that ends at once has been one of a host function, which counts as an effect.
  have inside : E ∨ ∀ moduleName name function, f.body ≠ .host moduleName name (some function) := by
    refine quiet.imp_right fun quiet moduleName name function body => ?_
    cases r with
    | none =>
      obtain ⟨_, _, _, _, _, _, _, -, -, -, -, -, -, -, rfl⟩ := enter_eq_none entered
      exact absurd quiet (Nat.succ_ne_self _)
    | some act =>
      obtain ⟨_, _, code, -⟩ := enter_eq_some entered
      rw [code] at body
      cases body
  have ready : M.Alike E o k f.signature.params.length N := { alike with store := alike.store.more enough }
  have size := alike.store.stack.size
  have after := enter_alike above inside M N ready r M' entered
  rw [bind_ok (ofExcept_eq_ok.mpr ⟨function, rfl⟩),
    bind_ok (Activation.heightBelow_eq_ok.mpr ⟨show _ + (offset + k) = _ by omega, rfl⟩)]
  cases other : m.enter f callee (offset + k) N with
  | ok r' N' =>
    rw [other] at after
    exact after
  | error e N' =>
    rw [other] at after
    exact after

/-- A function is left. -/
theorem leave_alike {act act' : Activation} (twins : act.Alike k act') (above : o ≤ act.frame.offset)
    (alike : M.Alike E o k 0 N) (done : leave act M = .ok () M') :
    ∃ N', leave act' N = .ok () N' ∧ M'.Alike E o k 0 N' := by
  obtain ⟨_, M₁, settled, ended⟩ := bind_eq_ok.mp done
  obtain ⟨N₁, settled', alike₁⟩ := Activation.settle_alike alike (.inl above) settled
  obtain ⟨N', ended', after⟩ := (setDepth_alike (· - 1)).ok alike₁ ended
  refine ⟨N', ?_, after⟩
  show (onStack (Stack.settle act'.frame.offset act'.results.length) >>= fun _ => leaveDepth : Run σ Unit) N = _
  rw [twins.offset, twins.results, bind_ok settled']
  exact ended'

/-- What a step makes of the innermost activation, and what the same step makes of its counterpart. -/
def StepMeets (E : Prop) (o k : Nat) (new : List Activation) (M' : Machine σ) (callers' : List Activation) :
    EStateM.Result Trap (Machine σ) (List Activation) → Prop
  | .ok chain' N' => ∃ new', chain' = new' ++ callers' ∧ List.Forall₂ (Activation.Alike k) new new' ∧
      M'.Alike E o k 0 N'
  | .error _ _ => ¬E

/-- A step that fails at its first part only where it may, and meets the other one if it goes on. -/
theorem StepMeets.bind {α : Type} {new callers' : List Activation} {x : Run σ α} {f : α → Run σ (List Activation)}
    (fails : ∀ e N', x N = .error e N' → ¬E)
    (goes : ∀ a N', x N = .ok a N' → StepMeets E o k new M' callers' (f a N')) :
    StepMeets E o k new M' callers' ((x >>= f) N) := by
  cases first : x N with
  | error e N' =>
    rw [bind_error first]
    exact fails e N' first
  | ok a N' =>
    rw [bind_ok first]
    exact goes a N' first

/-- A function is called, and no guard skips the call. -/
theorem call_alike {before act act' : Activation} {callee : Nat} {new : List Activation} (before' : Activation)
    (callers' : List Activation) (twins : act.Alike k act') (above : o ≤ act.frame.offset) (alike : M.Alike E o k 0 N)
    (spares : ∀ f, m.function callee = .ok f → o + f.signature.params.length ≤ M.store.stack.values.size)
    (awake : m.callFrom act callee M = m.begins callee M) (awake' : m.callFrom act' callee N = m.begins callee N)
    (done : m.proceed before [] (.call act callee) M = .ok new M') (quiet : E ∨ M'.store.effects = M.store.effects) :
    (∀ a ∈ new, o ≤ a.frame.offset) ∧ StepMeets E o k new M' callers' (m.proceed before' callers' (.call act' callee) N) := by
  obtain ⟨r, M₁, called, ended⟩ := bind_eq_ok.mp done
  have same : M₁ = M' := by cases r <;> cases ended <;> rfl
  subst M₁
  obtain ⟨inside, begins⟩ := begins_alike alike spares (awake.symm.trans called) quiet
  refine ⟨fun b member => ?_, StepMeets.bind (fun e N' failed => ?_) fun r' N' called' => ?_⟩
  · cases r with
    | none =>
      cases ended
      obtain rfl := List.mem_singleton.mp member
      exact above
    | some inner =>
      cases ended
      rcases List.mem_cons.mp member with rfl | member
      · exact inside _ rfl
      · obtain rfl := List.mem_singleton.mp member
        exact above
  · rw [awake'.symm.trans failed] at begins
    exact begins
  · rw [awake'.symm.trans called'] at begins
    obtain ⟨related, after⟩ := begins
    cases related with
    | none =>
      cases ended
      exact ⟨[_], rfl, .cons twins .nil, after⟩
    | some same =>
      cases ended
      exact ⟨[_, _], rfl, .cons same (.cons twins .nil), after⟩

/-- A step that spares what is below the frame and that no guard stops. The callers have no part in it. -/
theorem step_alike {act act' : Activation} {new : List Activation} (callers' : List Activation)
    (twins : act.Alike k act') (above : o ≤ act.frame.offset) (alike : M.Alike E o k 0 N)
    (spares : act.KeepsToFrame m M) (calm : act.Unstopped m M) (calm' : act'.Unstopped m N)
    (done : m.step act [] M = .ok new M') (quiet : E ∨ M'.store.effects = M.store.effects) :
    (∀ a ∈ new, o ≤ a.frame.offset) ∧ StepMeets E o k new M' callers' (m.step act' callers' N) := by
  rw [step_eq] at done ⊢
  obtain ⟨flow, M₁, ran, proceeded⟩ := bind_eq_ok.mp done
  -- The count never falls, so that if the step leaves it as it was both parts of the step do.
  have first : Machine.Kept M M₁ := (act.step_built m.types).kept.ok (Machine.Kept.refl M) ran
  have second : Machine.Kept M₁ M' := (m.proceed_built act [] flow).kept.ok (Machine.Kept.refl M₁) proceeded
  have effects := first.effects
  have effects' := second.effects
  obtain ⟨i, next, read, ran, flows⟩ := Activation.step_flowsOn ran
  have read' : Instr.read act'.body act'.pos = .ok i next := by rw [twins.body, twins.pos, read]
  rw [Activation.step_read read', twins.pos]
  have twins₁ : Activation.Alike k { act with pos := next } { act' with pos := next } := { twins with pos := rfl }
  have meets := Activation.exec_alike twins₁ above alike (spares i next read) (calm i next read)
    (calm' i next read') act.pos ran (quiet.imp_right fun quiet => by omega)
  -- Either the other one traps, or it flows on alike.
  have goes : (∀ flow' N₁, Activation.exec m.types { act' with pos := next } act.pos i N = .ok flow' N₁ →
      flow.Alike k flow' → M₁.Alike E o k 0 N₁ →
      StepMeets E o k new M' callers' (m.proceed act' callers' flow' N₁)) →
        StepMeets E o k new M' callers'
          ((Activation.exec m.types { act' with pos := next } act.pos i >>= m.proceed act' callers') N) := by
    intro proceeds
    refine .bind (fun e N' failed => ?_) fun flow' N₁ other => ?_
    · rw [failed] at meets
      exact meets
    · rw [other] at meets
      exact proceeds flow' N₁ other meets.1 meets.2
  cases flow with
  | next a =>
    cases proceeded
    refine ⟨by simpa [flows.frame] using above, goes fun flow' N₁ _ same alike₁ => ?_⟩
    cases same with
    | next same => exact ⟨[_], rfl, .cons same .nil, alike₁⟩
  | ret =>
    obtain ⟨_, M₂, left, ended⟩ := bind_eq_ok.mp proceeded
    cases ended
    refine ⟨by simp, goes fun flow' N₁ _ same alike₁ => ?_⟩
    cases same
    obtain ⟨N', left', after⟩ := leave_alike twins above alike₁ left
    show StepMeets E o k [] _ callers' ((leave act' >>= fun _ => pure callers') N₁)
    rw [bind_ok left']
    exact ⟨[], rfl, .nil, after⟩
  | call a callee =>
    obtain ⟨rfl, rfl, rfl⟩ := flows
    have enough : ∀ f, m.function callee = .ok f → o + f.signature.params.length ≤ M₁.store.stack.values.size :=
      fun f found => Nat.le_trans (Nat.add_le_add_right above _) (spares _ _ read f found)
    have called := call_alike act' callers' twins₁ above alike enough (callFrom_awake (calm _ _ read))
      (callFrom_awake (calm' _ _ read')) proceeded (quiet.imp_right fun quiet => by omega)
    refine ⟨called.1, goes fun flow' N₁ called' _ _ => ?_⟩
    cases called'
    exact called.2

end Module
end Wasm
