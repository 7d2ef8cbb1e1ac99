import Wasm.Proofs.Replay
import Wasm.Proofs.JumpTable

/-! What has been noted for the guards, in a run that they watch, and the stretches that lead from there to the present
    in the same run without them. A guard that finds that nothing has changed since has found a run that recurs. -/

namespace Wasm
variable {σ : Type}

open Run

/-- The machine with the guards set as told. -/
def Machine.withGuards (M : Machine σ) (recursion loop : Bool) : Machine σ :=
  { M with store.options.recursionGuard := recursion, store.options.loopGuard := loop }

/-! ### What a step leads to -/

namespace Module
variable {m : Module σ} {M N : Machine σ}

/-- What a step makes of the innermost activation: it goes on, or is over, or waits for another one. -/
inductive Turns (m : Module σ) (act : Activation) (M : Machine σ) : List Activation → Machine σ → Prop
  | goesOn {a N'} : act.GoesOn act.pos M a → Turns m act M [a] N'
  | over {N'} : Turns m act M [] N'
  | waits {a inner f callee offset N'} : act.GoesOn act.pos M a → m.function callee = .ok f →
    f.signature.params.length + offset = M.store.stack.values.size → m.enter f callee offset M = .ok (some inner) N' →
    Turns m act M [inner, a] N'

theorem turns_of_step {act : Activation} {new : List Activation} (h : m.step act [] M = .ok new N) : m.Turns act M new N := by
  rw [step_eq] at h
  obtain ⟨flow, M₁, ran, proceeded⟩ := bind_eq_ok.mp h
  obtain ⟨i, next, read, ran, flows⟩ := Activation.step_flowsOn ran
  cases flow with
  | next a =>
    cases proceeded
    exact .goesOn flows.ofMoved
  | ret =>
    obtain ⟨_, M₂, left, ended⟩ := bind_eq_ok.mp proceeded
    cases ended
    exact .over
  | call a callee =>
    obtain ⟨rfl, rfl, rfl⟩ := flows
    obtain ⟨r, M₂, called, ended⟩ := bind_eq_ok.mp proceeded
    have waiting : act.GoesOn act.pos M₁ { act with pos := next } := .leaves next 0
    cases r with
    | none =>
      cases ended
      exact .goesOn waiting
    | some inner =>
      cases ended
      obtain ⟨f, offset, function, whole, entered⟩ := callFrom_eq_some called
      exact .waits waiting function whole entered

/-- A call without guards enters the function with the arguments on top of the stack. -/
theorem step_call {act : Activation} {callee next : Nat} {new : List Activation} (unguarded : M.Unguarded)
    (read : Instr.read act.body act.pos = .ok (.call callee) next) (h : m.step act [] M = .ok new N) :
    ∃ f offset, m.function callee = .ok f ∧ f.signature.params.length + offset = M.store.stack.values.size ∧
      ((m.enter f callee offset M = .ok none N ∧ new = [{ act with pos := next }]) ∨
        ∃ inner, m.enter f callee offset M = .ok (some inner) N ∧ new = [inner, { act with pos := next }]) := by
  rw [step_eq] at h
  obtain ⟨flow, M₁, ran, proceeded⟩ := bind_eq_ok.mp h
  rw [Activation.step_read read] at ran
  cases ran
  obtain ⟨r, M₂, called, ended⟩ := bind_eq_ok.mp proceeded
  rw [callFrom_awake fun _ _ => isRepeated_unguarded unguarded, begins_eq] at called
  obtain ⟨f, M₃, found, called⟩ := bind_eq_ok.mp called
  obtain ⟨function, same⟩ := ofExcept_eq_ok.mp found
  subst M₃
  obtain ⟨offset, M₃, below, entered⟩ := bind_eq_ok.mp called
  obtain ⟨whole, same⟩ := Activation.heightBelow_eq_ok.mp below
  subst M₃
  refine ⟨f, offset, function, whole, ?_⟩
  cases r with
  | none =>
    cases ended
    exact .inl ⟨entered, rfl⟩
  | some inner =>
    cases ended
    exact .inr ⟨inner, entered, rfl⟩

end Module

/-! ### What has been noted -/

section
variable (m : Module σ) (recursion loop : Bool)

/-- An activation `a` of a run without guards and its counterpart `g` in the run that they watch. For the entry of the
    function, and for each loop that it is in, there is a stretch from there to the present `inner`, the chain up to this
    activation, and what has been noted is what was the case there. -/
structure Recorded (inner : List Activation) (M : Machine σ) (a g : Activation) : Prop where
  alike : a.Alike 0 g
  entry : ∃ f offset E₀ E count, m.function a.index = .ok f ∧
    f.signature.params.length + offset = E₀.store.stack.values.size ∧
    m.enter f a.index offset E₀ = .ok (some { a with pos := 0, labels := [] }) E ∧
    m.Leads [{ a with pos := 0, labels := [] }] E count inner M ∧ g.effects = E₀.store.effects ∧
    (recursion = true → g.arguments = E₀.store.stack.values.extract offset E₀.store.stack.values.size)
  loops : ∀ depth L, g.labels[depth]? = some L → L.kind = .loop → ∃ E count,
    L.Noted a L.start (E.withGuards recursion loop) ∧
    m.Leads [{ a with pos := L.start, labels := a.labels.drop (depth + 1) }] E count inner M

/-- All of two chains, from the activation that `inner` have been called from. -/
inductive Histories (M : Machine σ) : List Activation → List Activation → List Activation → Prop
  | none {inner} : Histories M inner [] []
  | more {inner a g as gs} : Recorded m recursion loop (inner ++ [a]) M a g → Histories M (inner ++ [a]) as gs →
    Histories M inner (a :: as) (g :: gs)

end

variable {m : Module σ} {recursion loop : Bool} {M N : Machine σ} {act a a' g g' : Activation}
  {inner new as gs : List Activation}

/-- A step extends the stretches that lead to the callers. -/
theorem Recorded.extend (h : Recorded m recursion loop (act :: inner) M a g) (keeps : act.KeepsToFrame m M)
    (step : m.step act [] M = .ok new N) : Recorded m recursion loop (new ++ inner) N a g where
  alike := h.alike
  entry := by
    obtain ⟨f, offset, E₀, E, count, function, whole, entered, leads, noted⟩ := h.entry
    exact ⟨f, offset, E₀, E, count + 1, function, whole, entered, leads.onward keeps step, noted⟩
  loops depth L found isLoop := by
    obtain ⟨E, count, noted, leads⟩ := h.loops depth L found isLoop
    exact ⟨E, count + 1, noted, leads.onward keeps step⟩

theorem Histories.extend (h : Histories m recursion loop M (act :: inner) as gs) (keeps : act.KeepsToFrame m M)
    (step : m.step act [] M = .ok new N) : Histories m recursion loop N (new ++ inner) as gs := by
  induction as generalizing inner gs with
  | nil =>
    cases h
    exact .none
  | cons a as ih =>
    cases h with
    | more record others =>
      refine .more ?_ ?_
      · rw [List.append_assoc]
        exact record.extend keeps step
      · rw [List.append_assoc]
        exact ih others

/-- Activations that go on alike leave as many constructs, or enter one each. -/
theorem goesOn_pair (alike : a.Alike 0 g) (alike' : a'.Alike 0 g') (turn : a.GoesOn a.pos M a')
    (turn' : g.GoesOn g.pos (M.withGuards recursion loop) g') :
    (∃ count, a'.labels = a.labels.drop count ∧ g'.labels = g.labels.drop count) ∨
      ∃ L L', a'.labels = L :: a.labels ∧ g'.labels = L' :: g.labels ∧
        (L'.kind = .loop → L'.Noted g g.pos (M.withGuards recursion loop)) := by
  have length := alike.labels.length_eq
  have length' := alike'.labels.length_eq
  cases turn with
  | leaves pos count =>
    cases turn' with
    | leaves pos' count' =>
      rw [List.length_drop, List.length_drop] at length'
      by_cases all : a.labels.length ≤ count
      · exact .inl ⟨count, rfl, by rw [List.drop_eq_nil_of_le (by omega), List.drop_eq_nil_of_le (by omega)]⟩
      · obtain rfl : count' = count := by omega
        exact .inl ⟨count', rfl, rfl⟩
    | enters pos' L' noted =>
      rw [List.length_drop, List.length_cons] at length'
      omega
  | enters pos L _ =>
    cases turn' with
    | leaves pos' count' =>
      rw [List.length_drop, List.length_cons] at length'
      omega
    | enters pos' L' noted => exact .inr ⟨L, L', rfl, rfl, noted⟩

/-- What is noted of a loop does not depend on where its activation is. -/
theorem Label.Noted.anywhere {L : Label} {start : Nat} (h : L.Noted a start M) (pos : Nat) (labels : List Label) :
    L.Noted { a with pos, labels } start M := ⟨h.start, h.stop, h.size, h.effects, h.snapshot⟩

theorem Label.Noted.ofAlike {L : Label} {start : Nat} (h : L.Noted g start M) (alike : a.Alike 0 g) : L.Noted a start M :=
  ⟨h.start, by rw [← alike.jumps, h.stop], h.size, h.effects, fun guarded => by rw [h.snapshot guarded, alike.offset]; rfl⟩

/-- What has been noted of an activation that goes on. -/
theorem Recorded.goesOn (h : Recorded m recursion loop [a] M a g) (keeps : a.KeepsToFrame m M)
    (step : m.step a [] M = .ok new N) (alike : a'.Alike 0 g') (turn : a.GoesOn a.pos M a')
    (turn' : g.GoesOn g.pos (M.withGuards recursion loop) g') : Recorded m recursion loop new N a' g' := by
  have constructs := goesOn_pair h.alike alike turn turn'
  obtain ⟨pos, labels, rfl⟩ := turn.same
  obtain ⟨pos', labels', rfl⟩ := turn'.same
  have extended : ∀ {e : Activation} {E : Machine σ} {count : Nat}, m.Leads [e] E count [a] M →
      m.Leads [e] E (count + 1) new N := by
    intro e E count leads
    have longer := leads.onward keeps step
    rwa [List.append_nil] at longer
  refine ⟨alike, ?_, fun depth L found isLoop => ?_⟩
  · obtain ⟨f, offset, E₀, E, count, function, whole, entered, leads, noted⟩ := h.entry
    exact ⟨f, offset, E₀, E, count + 1, function, whole, entered, extended leads, noted⟩
  · dsimp only at found constructs ⊢
    obtain ⟨count, rfl, rfl⟩ | ⟨L₁, L₂, rfl, rfl, noted⟩ := constructs
    -- Constructs have been left, and of those that are still open it has been noted before.
    · rw [List.getElem?_drop] at found
      obtain ⟨E, steps, noted, leads⟩ := h.loops (count + depth) L found isLoop
      refine ⟨E, steps + 1, noted.anywhere pos _, ?_⟩
      rw [List.drop_drop, ← Nat.add_assoc]
      exact extended leads
    -- One has been entered, and if it is a loop this is the machine at its start.
    · cases depth with
      | zero =>
        cases found
        have here := noted isLoop
        refine ⟨M, 1, ?_, ?_⟩
        · rw [here.start]
          exact (here.ofAlike h.alike).anywhere pos _
        · have origin : ({ a with pos := L.start, labels := (L₁ :: a.labels).drop 1 } : Activation) = a := by
            rw [here.start, h.alike.pos]
            rfl
          rw [Nat.zero_add, origin]
          exact extended .here
      | succ depth =>
        obtain ⟨E, steps, noted, leads⟩ := h.loops depth L found isLoop
        exact ⟨E, steps + 1, noted.anywhere pos _, extended leads⟩

/-- What has been noted of an activation that has just been entered. -/
theorem Recorded.entered {f : Function σ} {index offset : Nat} {N' : Machine σ} (function : m.function index = .ok f)
    (whole : f.signature.params.length + offset = M.store.stack.values.size)
    (entered : m.enter f index offset M = .ok (some a) N)
    (entered' : m.enter f index offset (M.withGuards recursion loop) = .ok (some g) N') (alike : a.Alike 0 g) :
    Recorded m recursion loop [a] N a g := by
  obtain ⟨_, _, -, -, -, -, fresh, -⟩ := Module.enter_eq_some entered
  obtain ⟨_, _, -, -, -, -, fresh', -⟩ := Module.enter_eq_some entered'
  refine ⟨alike, ⟨f, offset, M, N, 0, ?_, whole, ?_, ?_, ?_, fun guarded => ?_⟩, fun depth L found _ => ?_⟩
  · rw [fresh]
    exact function
  · rw [fresh] at entered ⊢
    exact entered
  · rw [fresh]
    exact .here
  · rw [fresh']
    rfl
  · rw [fresh', ← whole, Nat.add_comm f.signature.params.length offset]
    exact if_pos guarded
  · rw [fresh'] at found
    cases found

/-- What has been noted of a chain, after a step of both runs. -/
theorem Histories.step {new' : List Activation} {N' : Machine σ} (h : Histories m recursion loop M [] (a :: as) (g :: gs))
    (keeps : a.KeepsToFrame m M) (step : m.step a [] M = .ok new N)
    (step' : m.step g [] (M.withGuards recursion loop) = .ok new' N') (alike : List.Forall₂ (Activation.Alike 0) new new') :
    Histories m recursion loop N [] (new ++ as) (new' ++ gs) := by
  cases h with
  | more record others =>
    have later := others.extend keeps step
    rw [List.append_nil] at later
    have turns := Module.turns_of_step step
    have turns' := Module.turns_of_step step'
    cases alike with
    | nil => exact later
    | cons first rest =>
      -- One activation means that it goes on, two that it waits for the other one.
      cases rest with
      | nil =>
        cases turns with
        | goesOn turn =>
          cases turns' with
          | goesOn turn' => exact .more (record.goesOn keeps step first turn turn') later
      | cons second rest =>
        cases turns with
        | waits turn function whole entered =>
          cases turns' with
          | waits turn' function' whole' entered' =>
            obtain ⟨_, _, -, -, -, -, fresh, -⟩ := Module.enter_eq_some entered
            obtain ⟨_, _, -, -, -, -, fresh', -⟩ := Module.enter_eq_some entered'
            have index := first.index
            have offset := first.offset
            rw [fresh, fresh'] at index offset
            dsimp only at index offset
            subst index
            rw [function] at function'
            cases function'
            rw [Nat.add_zero] at offset
            subst offset
            exact .more (.entered function whole entered entered' first)
              (.more (record.goesOn keeps step second turn turn') later)

end Wasm
