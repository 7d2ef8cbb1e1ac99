import Wasm.Binary.Reader

/-! How operations in sequence end: well if each of them does, and else as the first one that fails. A chain of
    operations is taken apart by `bind_eq_ok` and `bind_eq_error`, or put together by the rules of `Ensures`. -/

namespace Wasm

section Sequence
variable {ε σ α β : Type}

theorem bind_eq_ok {x : EStateM ε σ α} {f : α → EStateM ε σ β} {s t : σ} {b : β} :
    (x >>= f) s = .ok b t ↔ ∃ a u, x s = .ok a u ∧ f a u = .ok b t := by
  show EStateM.bind x f s = _ ↔ _
  unfold EStateM.bind
  cases x s with
  | ok a u => exact ⟨fun h => ⟨a, u, rfl, h⟩, fun ⟨_, _, h, h'⟩ => by cases h; exact h'⟩
  | error e u => simp

theorem bind_eq_error {x : EStateM ε σ α} {f : α → EStateM ε σ β} {s t : σ} {e : ε} :
    (x >>= f) s = .error e t ↔ x s = .error e t ∨ ∃ a u, x s = .ok a u ∧ f a u = .error e t := by
  show EStateM.bind x f s = _ ↔ _
  unfold EStateM.bind
  cases x s with
  | ok a u => exact ⟨fun h => .inr ⟨a, u, rfl, h⟩, by rintro (h | ⟨_, _, h, h'⟩) <;> cases h; exact h'⟩
  | error e u => simp

theorem bind_ok {x : EStateM ε σ α} {f : α → EStateM ε σ β} {s t : σ} {a : α} (h : x s = .ok a t) :
    (x >>= f) s = f a t := by
  show EStateM.bind x f s = _
  unfold EStateM.bind
  rw [h]

theorem bind_error {x : EStateM ε σ α} {f : α → EStateM ε σ β} {s t : σ} {e : ε} (h : x s = .error e t) :
    (x >>= f) s = .error e t := by
  show EStateM.bind x f s = _
  unfold EStateM.bind
  rw [h]

@[simp] theorem pure_apply (a : α) (s : σ) : (pure a : EStateM ε σ α) s = .ok a s := rfl

@[simp] theorem throw_apply (e : ε) (s : σ) : (throw e : EStateM ε σ α) s = .error e s := rfl

@[simp] theorem get_apply (s : σ) : (get : EStateM ε σ σ) s = .ok s s := rfl

@[simp] theorem set_apply (s t : σ) : (set t : EStateM ε σ PUnit) s = .ok ⟨⟩ t := rfl

@[simp] theorem modify_apply (f : σ → σ) (s : σ) : (modify f : EStateM ε σ PUnit) s = .ok ⟨⟩ (f s) := rfl

@[simp] theorem ofExcept_apply_ok (a : α) (s : σ) : (ofExcept (.ok a : Except ε α) : EStateM ε σ α) s = .ok a s := rfl

@[simp] theorem ofExcept_apply_error (e : ε) (s : σ) :
    (ofExcept (.error e : Except ε α) : EStateM ε σ α) s = .error e s := rfl

theorem discard_eq_ok {x : EStateM ε σ α} {s t : σ} {u : PUnit} :
    (discard x : EStateM ε σ PUnit) s = .ok u t ↔ ∃ a, x s = .ok a t := by
  show EStateM.map _ x s = _ ↔ _
  unfold EStateM.map
  cases x s <;> simp

theorem discard_eq_error {x : EStateM ε σ α} {s t : σ} {e : ε} :
    (discard x : EStateM ε σ PUnit) s = .error e t ↔ x s = .error e t := by
  show EStateM.map _ x s = _ ↔ _
  unfold EStateM.map
  cases x s <;> simp

end Sequence

/-- From a state with `P`, the operation gives a result with `Q` or fails with `E`. -/
def Ensures {ε σ α : Type} (P : σ → Prop) (op : EStateM ε σ α) (Q : α → σ → Prop) (E : ε → Prop) : Prop :=
  ∀ s, P s → match op s with
    | .ok a t => Q a t
    | .error e _ => E e

namespace Ensures
variable {ε σ α β : Type} {P P' : σ → Prop} {Q Q' : α → σ → Prop} {E : ε → Prop}

theorem ok {op : EStateM ε σ α} (h : Ensures P op Q E) {s t : σ} {a : α} (hs : P s) (ho : op s = .ok a t) : Q a t := by
  have := h s hs
  rwa [ho] at this

theorem error {op : EStateM ε σ α} (h : Ensures P op Q E) {s t : σ} {e : ε} (hs : P s) (ho : op s = .error e t) : E e := by
  have := h s hs
  rwa [ho] at this

/-- An operation that cannot fail gives a result. -/
theorem runs {op : EStateM ε σ α} (h : Ensures P op Q E) {s : σ} (hs : P s) (sure : ∀ e, ¬E e) :
    ∃ a t, op s = .ok a t ∧ Q a t := by
  cases ho : op s with
  | ok a t => exact ⟨a, t, rfl, h.ok hs ho⟩
  | error e t => exact absurd (h.error hs ho) (sure e)

theorem of_cases {op : EStateM ε σ α} (ok : ∀ s a t, P s → op s = .ok a t → Q a t)
    (error : ∀ s e t, P s → op s = .error e t → E e) : Ensures P op Q E := by
  intro s hs
  cases ho : op s with
  | ok a t => exact ok s a t hs ho
  | error e t => exact error s e t hs ho

theorem any {op : EStateM ε σ α} : Ensures P op (fun _ _ => True) fun _ => True :=
  of_cases (fun _ _ _ _ _ => trivial) fun _ _ _ _ _ => trivial

theorem pure {a : α} (h : ∀ s, P s → Q a s) : Ensures P (Pure.pure a) Q E := fun s hs => h s hs

theorem throw {e : ε} (h : ∀ s, P s → E e) : Ensures P (MonadExcept.throw e) Q E := fun s hs => h s hs

theorem bind {x : EStateM ε σ α} {f : α → EStateM ε σ β} {R : β → σ → Prop} (hx : Ensures P x Q E)
    (hf : ∀ a, Ensures (Q a) (f a) R E) : Ensures P (x >>= f) R E := by
  intro s hs
  cases ho : x s with
  | ok a t => rw [bind_ok ho]; exact hf a t (hx.ok hs ho)
  | error e t => rw [bind_error ho]; exact hx.error hs ho

theorem discard {x : EStateM ε σ α} {R : PUnit → σ → Prop} (hx : Ensures P x Q E) (h : ∀ a s, Q a s → R ⟨⟩ s) :
    Ensures P (Functor.discard x) R E := by
  intro s hs
  cases ho : x s with
  | ok a t => rw [discard_eq_ok.mpr ⟨a, ho⟩]; exact h a t (hx.ok hs ho)
  | error e t => rw [discard_eq_error.mpr ho]; exact hx.error hs ho

theorem of_ok {op : EStateM ε σ α} (h : ∀ s, P s → ∃ a t, op s = .ok a t ∧ Q a t) : Ensures P op Q E := by
  intro s hs
  obtain ⟨a, t, ho, ht⟩ := h s hs
  rw [ho]
  exact ht

/-- What holds of the items done so far holds of all of them in the end. -/
theorem forM {es : List α} {f : α → EStateM ε σ PUnit} {I : List α → σ → Prop}
    (h : ∀ done a rest, es = done ++ a :: rest → Ensures (I done) (f a) (fun _ => I (done ++ [a])) E) :
    Ensures (I []) (es.forM f) (fun _ => I es) E := by
  suffices ∀ rest done, es = done ++ rest → Ensures (I done) (rest.forM f) (fun _ => I es) E from this es [] rfl
  intro rest
  induction rest with
  | nil =>
    rintro done rfl
    exact Ensures.pure fun s hs => by rwa [List.append_nil]
  | cons a rest ih =>
    intro done same
    exact Ensures.bind (h done a rest same) fun _ => ih (done ++ [a]) (by simp [same])

/-- A fact about the result before may be used. -/
theorem given {p : Prop} {op : EStateM ε σ α} (h : p → Ensures P op Q E) : Ensures (fun s => p ∧ P s) op Q E :=
  fun s hs => h hs.1 s hs.2

theorem weaken {op : EStateM ε σ α} (h : Ensures P op Q E) (hP : ∀ s, P' s → P s) (hQ : ∀ a s, Q a s → Q' a s) :
    Ensures P' op Q' E := by
  intro s hs
  have := h s (hP s hs)
  cases ho : op s with
  | ok a t => rw [ho] at this; exact hQ a t this
  | error e t => rw [ho] at this; exact this

theorem raising {op : EStateM ε σ α} {E' : ε → Prop} (h : Ensures P op Q E) (hE : ∀ e, E e → E' e) : Ensures P op Q E' :=
  of_cases (fun _ _ _ hs ho => h.ok hs ho) fun _ _ _ hs ho => hE _ (h.error hs ho)

/-- From one state to the next with each item, as long as the items are right where they stand. -/
theorem forM_along (es : List α) (f : α → EStateM ε σ PUnit) (state : List α → σ) {c : List α → α → Prop}
    (h : ∀ done a rest, es = done ++ a :: rest → (∀ before b after, done = before ++ b :: after → c before b) →
      Ensures (fun s => s = state done) (f a) (fun _ s => c done a ∧ s = state (done ++ [a])) fun _ => ¬c done a) :
    Ensures (fun s => s = state []) (es.forM f)
      (fun _ s => (∀ before b after, es = before ++ b :: after → c before b) ∧ s = state es)
      fun _ => ¬∀ before b after, es = before ++ b :: after → c before b := by
  refine (forM (I := fun done s => (∀ before b after, done = before ++ b :: after → c before b) ∧ s = state done)
    fun done a rest same => .given fun right => ?_).weaken (fun s hs => ⟨by simp, hs⟩) fun _ _ h => h
  refine ((h done a rest same right).raising fun _ wrong all => wrong (all done a rest same)).weaken (fun _ h => h) ?_
  rintro _ s ⟨here, rfl⟩
  refine ⟨fun before b after split => ?_, rfl⟩
  rcases List.eq_nil_or_concat after with rfl | ⟨after, last, rfl⟩
  · obtain ⟨rfl, last⟩ := List.append_inj' split rfl
    cases last
    exact here
  · rw [List.concat_eq_append, ← List.cons_append, ← List.append_assoc] at split
    exact right before b after (List.append_inj_left' split rfl)

/-- The same for items that are right wherever they stand. -/
theorem forM_all (es : List α) (f : α → EStateM ε σ PUnit) (state : List α → σ) {c : α → Prop}
    (h : ∀ done a, (∀ b ∈ done, c b) →
      Ensures (fun s => s = state done) (f a) (fun _ s => c a ∧ s = state (done ++ [a])) fun _ => ¬c a) :
    Ensures (fun s => s = state []) (es.forM f) (fun _ s => (∀ a ∈ es, c a) ∧ s = state es) fun _ => ¬∀ a ∈ es, c a := by
  have along : ∀ {as : List α}, (∀ before b after, as = before ++ b :: after → c b) ↔ ∀ a ∈ as, c a := by
    intro as
    constructor
    · intro right a ha
      obtain ⟨before, after, same⟩ := List.append_of_mem ha
      exact right before a after same
    · rintro right before b after rfl
      exact right b (by simp)
  simpa only [along] using forM_along es f state (c := fun _ => c) fun done a _ _ right =>
    h done a (along.mp right)

end Ensures

/-- An operation fails with `E` only, from any state. -/
def Raises {ε σ α : Type} (E : ε → Prop) (op : EStateM ε σ α) : Prop :=
  Ensures (fun _ => True) op (fun _ _ => True) E

namespace Raises
variable {ε σ α β : Type} {E : ε → Prop}

theorem of_error {op : EStateM ε σ α} (h : ∀ s e t, op s = .error e t → E e) : Raises E op :=
  Ensures.of_cases (fun _ _ _ _ _ => trivial) fun s e t _ => h s e t

theorem pure (a : α) : Raises (σ := σ) E (Pure.pure a) := Ensures.pure fun _ _ => trivial

theorem throw {e : ε} (h : E e) : Raises (σ := σ) (α := α) E (MonadExcept.throw e) := Ensures.throw fun _ _ => h

theorem bind {x : EStateM ε σ α} {f : α → EStateM ε σ β} (hx : Raises E x) (hf : ∀ a, Raises E (f a)) :
    Raises E (x >>= f) := Ensures.bind hx hf

theorem discard {x : EStateM ε σ α} (hx : Raises E x) : Raises E (Functor.discard x) :=
  Ensures.discard hx fun _ _ _ => trivial

theorem ofExcept {x : Except ε α} (h : ∀ e, x = .error e → E e) :
    Raises (σ := σ) E (MonadExcept.ofExcept x : EStateM ε σ α) := by
  cases x with
  | ok a => exact .pure a
  | error e => exact .throw (h e rfl)

end Raises
/-- What holds of the state before an operation holds after it, unless it fails. -/
def Preserves {ε σ α : Type} (I : σ → Prop) (op : EStateM ε σ α) : Prop :=
  Ensures I op (fun _ => I) (fun _ => True)

namespace Preserves
variable {ε σ α β : Type} {I : σ → Prop}

theorem of_ok {op : EStateM ε σ α} (h : ∀ s a t, I s → op s = .ok a t → I t) : Preserves I op :=
  Ensures.of_cases h fun _ _ _ _ _ => trivial

theorem pure (a : α) : Preserves I (Pure.pure a : EStateM ε σ α) := Ensures.pure fun _ h => h

theorem throw (e : ε) : Preserves I (MonadExcept.throw e : EStateM ε σ α) := Ensures.throw fun _ _ => trivial

theorem bind {x : EStateM ε σ α} {f : α → EStateM ε σ β} (hx : Preserves I x) (hf : ∀ a, Preserves I (f a)) :
    Preserves I (x >>= f) := Ensures.bind hx hf

end Preserves

/-- The state that an operation leaves, whether it gives a result or fails. -/
def stateAfter {ε σ α : Type} (op : EStateM ε σ α) (s : σ) : σ := match op s with
  | .ok _ t => t
  | .error _ t => t

theorem stateAfter_ok {ε σ α : Type} {op : EStateM ε σ α} {s t : σ} {a : α} (h : op s = .ok a t) : stateAfter op s = t := by
  unfold stateAfter
  rw [h]

theorem stateAfter_error {ε σ α : Type} {op : EStateM ε σ α} {s t : σ} {e : ε} (h : op s = .error e t) :
    stateAfter op s = t := by
  unfold stateAfter
  rw [h]

theorem stateAfter_bind {ε σ α β : Type} {x : EStateM ε σ α} {k : α → EStateM ε σ β} {s t : σ} {a : α}
    (h : x s = .ok a t) : stateAfter (x >>= k) s = stateAfter (k a) t := by
  unfold stateAfter
  rw [bind_ok h]

/-- What holds after a first operation, and after what follows wherever the first one leads to, holds after both. -/
theorem stateAfter_bind_of {ε σ α β : Type} {I : σ → Prop} {x : EStateM ε σ α} {k : α → EStateM ε σ β} {s : σ}
    (h : I (stateAfter x s)) (hk : ∀ a t, x s = .ok a t → I t → I (stateAfter (k a) t)) : I (stateAfter (x >>= k) s) := by
  cases done : x s with
  | ok a t =>
    rw [stateAfter_ok done] at h
    rw [stateAfter_bind done]
    exact hk a t done h
  | error e t =>
    rw [stateAfter_error done] at h
    rw [stateAfter_error (bind_error done)]
    exact h

/-- What holds of the state before an operation holds after it, also if it fails. -/
def Maintains {ε σ α : Type} (I : σ → Prop) (op : EStateM ε σ α) : Prop :=
  ∀ s, I s → match op s with
    | .ok _ t => I t
    | .error _ t => I t

namespace Maintains
variable {ε σ α β : Type} {I : σ → Prop}

theorem ok {op : EStateM ε σ α} (h : Maintains I op) {s t : σ} {a : α} (hs : I s) (ho : op s = .ok a t) : I t := by
  have := h s hs
  rwa [ho] at this

theorem error {op : EStateM ε σ α} (h : Maintains I op) {s t : σ} {e : ε} (hs : I s) (ho : op s = .error e t) : I t := by
  have := h s hs
  rwa [ho] at this

theorem after {op : EStateM ε σ α} (h : Maintains I op) {s : σ} (hs : I s) : I (stateAfter op s) := by
  have := h s hs
  unfold stateAfter
  cases done : op s <;> rwa [done] at this

theorem of_after {op : EStateM ε σ α} (h : ∀ s, I s → I (stateAfter op s)) : Maintains I op := by
  intro s hs
  have := h s hs
  unfold stateAfter at this
  cases done : op s <;> rwa [done] at this

/-- What holds after a first operation holds after the following ones that maintain it, also if it fails. -/
theorem after_bind {x : EStateM ε σ α} {k : α → EStateM ε σ β} {s : σ} (h : I (stateAfter x s))
    (hk : ∀ a, Maintains I (k a)) : I (stateAfter (x >>= k) s) :=
  stateAfter_bind_of h fun a _ _ h => (hk a).after h

theorem of_cases {op : EStateM ε σ α} (ok : ∀ s a t, I s → op s = .ok a t → I t)
    (error : ∀ s e t, I s → op s = .error e t → I t) : Maintains I op := by
  intro s h
  cases done : op s with
  | ok a t => exact ok s a t h done
  | error e t => exact error s e t h done

theorem pure (a : α) : Maintains I (Pure.pure a : EStateM ε σ α) := fun _ h => h

theorem throw (e : ε) : Maintains I (MonadExcept.throw e : EStateM ε σ α) := fun _ h => h

theorem ofExcept (x : Except ε α) : Maintains I (MonadExcept.ofExcept x : EStateM ε σ α) := by
  cases x with
  | ok a => exact .pure a
  | error e => exact .throw e

theorem bind {x : EStateM ε σ α} {f : α → EStateM ε σ β} (hx : Maintains I x) (hf : ∀ a, Maintains I (f a)) :
    Maintains I (x >>= f) := by
  refine of_cases (fun s b t h done => ?_) fun s e t h failed => ?_
  · obtain ⟨a, u, first, second⟩ := bind_eq_ok.mp done
    exact (hf a).ok (hx.ok h first) second
  · rcases bind_eq_error.mp failed with first | ⟨a, u, first, second⟩
    · exact hx.error h first
    · exact (hf a).error (hx.ok h first) second

theorem map {x : EStateM ε σ α} (hx : Maintains I x) (f : α → β) : Maintains I (f <$> x) := by
  intro s h
  have after := hx s h
  show match EStateM.map f x s with
    | .ok _ t => I t
    | .error _ t => I t
  unfold EStateM.map
  cases done : x s <;> rwa [done] at after

theorem discard {x : EStateM ε σ α} (hx : Maintains I x) : Maintains I (Functor.discard x : EStateM ε σ PUnit) :=
  hx.map _

end Maintains

/-! ### Side by side -/

/-- The same result with another state. -/
def mapState {ε σ τ α : Type} (f : σ → τ) : EStateM.Result ε σ α → EStateM.Result ε τ α
  | .ok a s => .ok a (f s)
  | .error e s => .error e (f s)

theorem stateAfter_of_mapState {ε σ τ α : Type} {f : σ → τ} {op : EStateM ε σ α} {op' : EStateM ε τ α} {s : σ}
    (h : mapState f (op s) = op' (f s)) : stateAfter op' (f s) = f (stateAfter op s) := by
  unfold stateAfter
  rw [← h]
  cases op s <;> rfl

/-- Changing the state first comes to the same as changing it afterwards. -/
def Commutes {ε σ α : Type} (f : σ → σ) (op : EStateM ε σ α) : Prop := ∀ s, op (f s) = mapState f (op s)

namespace Commutes
variable {ε σ α β : Type} {f : σ → σ}

theorem of_cases {op : EStateM ε σ α} (ok : ∀ s a t, op s = .ok a t → op (f s) = .ok a (f t))
    (error : ∀ s e t, op s = .error e t → op (f s) = .error e (f t)) : Commutes f op := by
  intro s
  cases done : op s with
  | ok a t => exact ok s a t done
  | error e t => exact error s e t done

theorem pure (a : α) : Commutes f (Pure.pure a : EStateM ε σ α) := fun _ => rfl

theorem throw (e : ε) : Commutes f (MonadExcept.throw e : EStateM ε σ α) := fun _ => rfl

theorem bind {x : EStateM ε σ α} {k : α → EStateM ε σ β} (hx : Commutes f x) (hk : ∀ a, Commutes f (k a)) :
    Commutes f (x >>= k) := by
  intro s
  have first := hx s
  cases ran : x s with
  | ok a t =>
    rw [ran] at first
    rw [bind_ok ran, bind_ok first]
    exact hk a t
  | error e t =>
    rw [ran] at first
    rw [bind_error ran, bind_error first]
    rfl

end Commutes

/-- From related states, the second operation gives a related result wherever the first one gives one, unless it may
    fail there. -/
def Simulates {ε σ τ α β : Type} (mayFail : Prop) (R : σ → τ → Prop) (op : EStateM ε σ α) (op' : EStateM ε τ β)
    (Q : α → β → σ → τ → Prop) : Prop :=
  ∀ s t, R s t → ∀ a s', op s = .ok a s' → match op' t with
    | .ok b t' => Q a b s' t'
    | .error _ _ => mayFail

/-- The same, where both give the same result. -/
def Mirrors {ε σ τ α : Type} (mayFail : Prop) (R : σ → τ → Prop) (op : EStateM ε σ α) (op' : EStateM ε τ α)
    (R' : σ → τ → Prop) : Prop :=
  Simulates mayFail R op op' fun a b s t => b = a ∧ R' s t

namespace Simulates
variable {ε σ τ α β γ δ : Type} {F : Prop} {R R' : σ → τ → Prop} {Q Q' : α → β → σ → τ → Prop}

theorem pure {a : α} {b : β} (h : ∀ s t, R s t → Q a b s t) :
    Simulates (ε := ε) F R (Pure.pure a) (Pure.pure b) Q := by
  intro s t related _ _ done
  cases done
  exact h s t related

theorem throw {e : ε} {op' : EStateM ε τ β} : Simulates F R (MonadExcept.throw e : EStateM ε σ α) op' Q := by
  intro s t _ _ _ done
  cases done

theorem bind {x : EStateM ε σ α} {x' : EStateM ε τ β} {f : α → EStateM ε σ γ} {f' : β → EStateM ε τ δ}
    {P : γ → δ → σ → τ → Prop} (hx : Simulates F R x x' Q) (hf : ∀ a b, Simulates F (Q a b) (f a) (f' b) P) :
    Simulates F R (x >>= f) (x' >>= f') P := by
  intro s t related c u done
  obtain ⟨a, s₁, first, second⟩ := bind_eq_ok.mp done
  have after := hx s t related a s₁ first
  cases other : x' t with
  | ok b t₁ =>
    rw [other] at after
    rw [bind_ok other]
    exact hf a b s₁ t₁ after c u second
  | error e t₁ =>
    rw [other] at after
    rw [bind_error other]
    exact after

theorem weaken {x : EStateM ε σ α} {x' : EStateM ε τ β} (h : Simulates F R x x' Q) (hR : ∀ s t, R' s t → R s t)
    (hQ : ∀ a b s t, Q a b s t → Q' a b s t) : Simulates F R' x x' Q' := by
  intro s t related a s' done
  have after := h s t (hR s t related) a s' done
  cases other : x' t with
  | ok b t' =>
    rw [other] at after
    exact hQ a b s' t' after
  | error e t' =>
    rw [other] at after
    exact after

/-- A fact about the results before may be used. -/
theorem given {p : Prop} {x : EStateM ε σ α} {x' : EStateM ε τ β} (h : p → Simulates F R x x' Q) :
    Simulates F (fun s t => p ∧ R s t) x x' Q := fun s t related => h related.1 s t related.2

end Simulates

namespace Mirrors
variable {ε σ τ α β γ : Type} {F : Prop} {R R' R'' : σ → τ → Prop}

theorem pure {a : α} : Mirrors (ε := ε) F R (Pure.pure a) (Pure.pure a) R := Simulates.pure fun _ _ h => ⟨rfl, h⟩

theorem bind_simulates {x : EStateM ε σ α} {x' : EStateM ε τ α} {f : α → EStateM ε σ β} {f' : α → EStateM ε τ γ}
    {Q : β → γ → σ → τ → Prop} (hx : Mirrors F R x x' R') (hf : ∀ a, Simulates F R' (f a) (f' a) Q) :
    Simulates F R (x >>= f) (x' >>= f') Q := by
  refine Simulates.bind hx fun a b s t related c u done => ?_
  obtain ⟨rfl, related⟩ := related
  exact hf b s t related c u done

theorem bind {x : EStateM ε σ α} {x' : EStateM ε τ α} {f : α → EStateM ε σ β} {f' : α → EStateM ε τ β}
    (hx : Mirrors F R x x' R') (hf : ∀ a, Mirrors F R' (f a) (f' a) R'') : Mirrors F R (x >>= f) (x' >>= f') R'' :=
  hx.bind_simulates hf

theorem discard {x : EStateM ε σ α} {x' : EStateM ε τ α} (hx : Mirrors F R x x' R') :
    Mirrors F R (Functor.discard x) (Functor.discard x') R' := by
  intro s t related _ u done
  obtain ⟨a, first⟩ := discard_eq_ok.mp done
  have after := hx s t related a u first
  cases other : x' t with
  | ok b t' =>
    rw [other] at after
    rw [discard_eq_ok.mpr ⟨b, other⟩]
    exact ⟨rfl, after.2⟩
  | error e t' =>
    rw [other] at after
    rw [discard_eq_error.mpr other]
    exact after

theorem ofExcept (x : Except ε α) : Mirrors F R (MonadExcept.ofExcept x : EStateM ε σ α) (MonadExcept.ofExcept x) R := by
  cases x with
  | ok a => exact pure
  | error e => exact Simulates.throw

theorem ok {x : EStateM ε σ α} {x' : EStateM ε τ α} (h : Mirrors False R x x' R') {s s' : σ} {t : τ} {a : α}
    (related : R s t) (done : x s = .ok a s') : ∃ t', x' t = .ok a t' ∧ R' s' t' := by
  have after := h s t related a s' done
  cases other : x' t with
  | ok b t' =>
    rw [other] at after
    obtain ⟨rfl, related⟩ := after
    exact ⟨t', rfl, related⟩
  | error e t' =>
    rw [other] at after
    exact after.elim

end Mirrors
end Wasm
