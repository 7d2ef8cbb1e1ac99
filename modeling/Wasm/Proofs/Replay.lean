import Wasm.Proofs.AlikeStep

/-! A run without guards that comes back to where it was, with no effect in between, does so again and again: it never
    returns. -/

namespace Wasm
variable {σ : Type}

open Run

/-! ### What is alike in turn -/

theorem Label.Alike.trans {k k' : Nat} {L L' L'' : Label} (h : L.Alike k L') (h' : L'.Alike k' L'') :
    L.Alike (k + k') L'' :=
  ⟨h'.kind.trans h.kind, h'.start.trans h.start, h'.stop.trans h.stop,
    by rw [h'.height, h.height, Nat.add_assoc], h'.arity.trans h.arity, h'.results.trans h.results⟩

theorem Activation.Alike.trans {k k' : Nat} {a b c : Activation} (h : a.Alike k b) (h' : b.Alike k' c) :
    a.Alike (k + k') c := by
  refine ⟨h'.index.trans h.index, h'.body.trans h.body, h'.jumps.trans h.jumps,
    by rw [h'.offset, h.offset, Nat.add_assoc], h'.locals.trans h.locals, h'.results.trans h.results,
    h'.pos.trans h.pos, ?_⟩
  have first := h.labels
  have second := h'.labels
  generalize a.labels = ls, b.labels = ls', c.labels = ls'' at first second
  induction first generalizing ls'' with
  | nil =>
    cases second
    exact .nil
  | cons same _ ih =>
    cases second with
    | cons same' others => exact .cons (same.trans same') (ih _ others)

theorem Machine.Alike.trans {E : Prop} {o k k' n : Nat} {M N P : Machine σ} (h : M.Alike E o k n N)
    (h' : N.Alike E o k' 0 P) : M.Alike E o (k + k') n P where
  store := {
    stack := h.store.stack.trans h'.store.stack
    memories := h'.store.memories.trans h.store.memories
    globals := h'.store.globals.trans h.store.globals
    effects := h'.store.effects.trans h.store.effects
    shadow := h'.store.shadow.trans h.store.shadow
    data := fun e => (h'.store.data e).trans (h.store.data e)
    depth := fun e => (h'.store.depth e).trans (h.store.depth e)
    limit := fun e => (h'.store.limit e).trans (h.store.limit e) }
  host e := (h'.host e).trans (h.host e)
  notices e := (h'.notices e).trans (h.notices e)

/-! ### Stretches of a run -/

namespace Module
variable {m : Module σ}

/-- The callers have no part in how an activation goes on. -/
theorem proceed_callers (m : Module σ) (act : Activation) (callers : List Activation) (flow : Flow) :
    m.proceed act callers flow = m.proceed act [] flow >>= fun chain => pure (chain ++ callers) := by
  cases flow with
  | next act => rfl
  | ret =>
    show (leave act >>= fun _ => _ : Run σ _) = (leave act >>= fun _ => _) >>= _
    rw [bind_assoc]
    rfl
  | call act callee =>
    show (m.callFrom act callee >>= fun _ => _) = (m.callFrom act callee >>= fun _ => _) >>= _
    rw [bind_assoc]
    refine congrArg _ (funext fun inner => ?_)
    cases inner <;> rfl

/-- They have no part in a step. -/
theorem step_callers (m : Module σ) (act : Activation) (callers : List Activation) :
    m.step act callers = m.step act [] >>= fun chain => pure (chain ++ callers) := by
  rw [step_eq, step_eq, bind_assoc]
  exact congrArg _ (funext fun flow => m.proceed_callers act callers flow)

theorem step_append {act : Activation} {callers chain : List Activation} {M N : Machine σ}
    (h : m.step act callers M = .ok chain N) :
    ∃ new, chain = new ++ callers ∧ ∀ others, m.step act others M = .ok (new ++ others) N := by
  rw [step_callers] at h
  obtain ⟨new, M₁, alone, ended⟩ := bind_eq_ok.mp h
  cases ended
  refine ⟨new, rfl, fun others => ?_⟩
  rw [step_callers, bind_ok alone]
  rfl

/-- As many steps lead from a chain to another one, and each of them keeps to the frame of its activation. -/
inductive Leads (m : Module σ) (chain : List Activation) (M : Machine σ) : Nat → List Activation → Machine σ → Prop
  | here : Leads m chain M 0 chain M
  | onward {count act callers N new N'} : Leads m chain M count (act :: callers) N → act.KeepsToFrame m N →
    m.step act [] N = .ok new N' → Leads m chain M (count + 1) (new ++ callers) N'

variable {chain top : List Activation} {M N P : Machine σ} {count : Nat}

theorem Leads.kept (h : m.Leads chain M count top N) : Machine.Kept M N := by
  induction h with
  | here => exact .refl M
  | onward _ _ step kept => exact (step_kept m _ _).ok kept step

theorem unstopped_unguarded {act : Activation} (h : M.Unguarded) : act.Unstopped m M := by
  intro i next _
  cases i with
  | call callee => exact fun f _ => isRepeated_unguarded h
  | _ => exact fun depth stack _ L _ => isIdle_unguarded (M := { M with store.stack := stack }) ⟨h.recursion, h.loop⟩

/-- A stretch of a run is gone through again from a machine that is alike, if it counts no effect. -/
theorem Leads.replayed {e e' : Activation} {k fuel : Nat} {callers : List Activation} {F : Machine σ}
    (h : m.Leads [e] M count top N) (quiet : N.store.effects = M.store.effects) (unguarded : M.Unguarded)
    (twins : e.Alike k e') (alike : M.Alike False e.frame.offset k 0 P) (unguarded' : P.Unguarded)
    (run : m.run fuel (e' :: callers) P = .returned F) :
    (∀ a ∈ top, e.frame.offset ≤ a.frame.offset) ∧ ∃ fuel' top' P', fuel = fuel' + count ∧
      List.Forall₂ (Activation.Alike k) top top' ∧ N.Alike False e.frame.offset k 0 P' ∧ P'.Unguarded ∧
      m.run fuel' (top' ++ callers) P' = .returned F := by
  induction h with
  | here => exact ⟨by simp, fuel, [e'], P, rfl, .cons twins .nil, alike, unguarded', run⟩
  | @onward count act rest N new N' led keeps step ih =>
    have before := led.kept
    have after : Machine.Kept N N' := (step_kept m act []).ok (Machine.Kept.refl N) step
    -- The count never falls, so that no step of the stretch has raised it.
    have effects := before.effects
    have effects' := after.effects
    obtain ⟨above, fuel', top', P', rfl, tops, alike', quiet', run'⟩ := ih (by omega)
    obtain ⟨act', rest', same, outer, rfl⟩ := List.forall₂_cons_left_iff.mp tops
    have final : (m.run fuel' (act' :: (rest' ++ callers)) P').Final := by
      rw [show act' :: (rest' ++ callers) = act' :: rest' ++ callers from rfl, run']
      trivial
    obtain ⟨left, rfl⟩ := run_final final
    obtain ⟨inside, meets⟩ := step_alike (rest' ++ callers) same (above act (List.mem_cons_self ..)) alike' keeps
      (unstopped_unguarded (unguarded.kept before)) (unstopped_unguarded quiet') step (.inr (by omega))
    rw [List.cons_append, run_succ] at run'
    cases other : m.step act' (rest' ++ callers) P' with
    | error trap P'' =>
      rw [other] at run'
      cases run'
    | ok chain' P'' =>
      rw [other] at meets run'
      obtain ⟨new', rfl, news, alike''⟩ := meets
      refine ⟨?_, left, new' ++ rest', P'', by omega, List.rel_append news outer, alike'', ?_, ?_⟩
      · intro a member
        rcases List.mem_append.mp member with member | member
        · exact inside a member
        · exact above a (List.mem_cons_of_mem _ member)
      · exact quiet'.kept ((step_kept m act' _).ok (Machine.Kept.refl P') other)
      · rw [List.append_assoc]
        exact run'

/-- From an activation and a machine, a stretch that counts no effect leads to an activation and a machine that are alike,
    as much further up the stack. -/
structure Recurs (m : Module σ) (e : Activation) (M : Machine σ) (k : Nat) (inner : Activation) (N : Machine σ) : Prop where
  leads : ∃ count rest, m.Leads [e] M (count + 1) (inner :: rest) N
  quiet : N.store.effects = M.store.effects
  unguarded : M.Unguarded
  twins : e.Alike k inner
  alike : M.Alike False e.frame.offset k 0 N

/-- A run that comes back to where it was does not return, for every time it has come back it does so once more. -/
theorem Recurs.never_returns {e inner : Activation} {k : Nat} (h : m.Recurs e M k inner N) (fuel : Nat)
    (callers : List Activation) (F : Machine σ) : m.run fuel (inner :: callers) N ≠ .returned F := by
  obtain ⟨count, rest, leads⟩ := h.leads
  have again : ∀ fuel k' e' callers P, e.Alike k' e' → M.Alike False e.frame.offset k' 0 P → P.Unguarded →
      m.run fuel (e' :: callers) P ≠ .returned F := by
    intro fuel
    induction fuel using Nat.strongRecOn with
    | ind fuel ih =>
      intro k' e' callers P twins alike unguarded run
      obtain ⟨-, fuel', top', P', rfl, tops, alike', unguarded', run'⟩ :=
        leads.replayed h.quiet h.unguarded twins alike unguarded run
      obtain ⟨inner', rest', same, -, rfl⟩ := List.forall₂_cons_left_iff.mp tops
      exact ih fuel' (by omega) (k + k') inner' (rest' ++ callers) P' (h.twins.trans same) (h.alike.trans alike')
        unguarded' run'
  exact again fuel k inner callers N h.twins h.alike (h.unguarded.kept leads.kept)

end Module
end Wasm
