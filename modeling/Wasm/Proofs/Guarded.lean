import Wasm.Proofs.Result

/-! Operations under guard. A guarded operation does what its namesake without the mark `!` does, and on the way it asks
    of every index, range, shift, copy, sum and difference whether it is within its bounds. One that is not is a fault,
    and the operation stops there. It also stops where memory would have to be given that no allocator gives, or where
    effects have been counted as far as the count goes; this is no fault. -/

namespace Wasm

/-- Why a guarded operation stops. -/
inductive Stop
  /-- Something is out of its bounds. -/
  | fault
  /-- What is asked for cannot be given. -/
  | refused
deriving DecidableEq, Repr

/-- What an operation comes to under guard. -/
abbrev Checked : Type → Type := Except Stop

/-- No vector or slice is as long as this. -/
def allocationLimit : Nat := 1 <<< 63

/-! ### What is asked of single steps -/

namespace Checked
variable {α : Type}

/-- A condition without which there is a fault. -/
def require (p : Prop) [Decidable p] : Checked Unit := if p then .ok () else .error .fault

/-- A sum in a register of `bits` bits. -/
def add (bits a b : Nat) : Checked Nat := if a + b < 1 <<< bits then .ok (a + b) else .error .fault

/-- A product in a register of `bits` bits. -/
def mul (bits a b : Nat) : Checked Nat := if a * b < 1 <<< bits then .ok (a * b) else .error .fault

/-- A difference of numbers without sign. -/
def sub (a b : Nat) : Checked Nat := if b ≤ a then .ok (a - b) else .error .fault

/-- A number that a register of `bits` bits holds with its sign. -/
def signed (bits : Nat) (v : Int) : Checked Int :=
  if -(1 <<< (bits - 1) : Nat) ≤ v ∧ v < (1 <<< (bits - 1) : Nat) then .ok v else .error .fault

def shiftLeft {n : Nat} (v : BitVec n) (k : Nat) : Checked (BitVec n) :=
  if k < n then .ok (v <<< k) else .error .fault

def shiftRight {n : Nat} (v : BitVec n) (k : Nat) : Checked (BitVec n) :=
  if k < n then .ok (v >>> k) else .error .fault

/-- The entry at an index. -/
def index (xs : Array α) (i : Nat) : Checked α := if h : i < xs.size then .ok xs[i] else .error .fault

/-- The entries from `first` up to `last`. -/
def slice (xs : Array α) (first last : Nat) : Checked (Array α) :=
  if first ≤ last ∧ last ≤ xs.size then .ok (xs.extract first last) else .error .fault

/-- The bytes from `first` up to `last`. -/
def sliceBytes (bytes : ByteArray) (first last : Nat) : Checked ByteArray :=
  if first ≤ last ∧ last ≤ bytes.size then .ok (bytes.extract first last) else .error .fault

/-- The length of a vector or slice. Longer ones are not to be had. -/
def size (n : Nat) : Checked Nat := if n < allocationLimit then .ok n else .error .refused

variable {bits a b n k i first last : Nat}

theorem require_ok {p : Prop} [Decidable p] (h : p) : require p = .ok () := if_pos h

theorem add_ok (h : a + b < 1 <<< bits) : add bits a b = .ok (a + b) := if_pos h

theorem mul_ok (h : a * b < 1 <<< bits) : mul bits a b = .ok (a * b) := if_pos h

theorem sub_ok (h : b ≤ a) : sub a b = .ok (a - b) := if_pos h

theorem shiftLeft_ok {v : BitVec n} (h : k < n) : shiftLeft v k = .ok (v <<< k) := if_pos h

theorem shiftRight_ok {v : BitVec n} (h : k < n) : shiftRight v k = .ok (v >>> k) := if_pos h

theorem index_ok {xs : Array α} (h : i < xs.size) : index xs i = .ok xs[i] := dif_pos h

theorem slice_ok {xs : Array α} (h : first ≤ last ∧ last ≤ xs.size) :
    slice xs first last = .ok (xs.extract first last) := if_pos h

theorem sliceBytes_ok {bytes : ByteArray} (h : first ≤ last ∧ last ≤ bytes.size) :
    sliceBytes bytes first last = .ok (bytes.extract first last) := if_pos h

/-- Sums of two lengths are no fault. -/
theorem add_sizes (ha : a < allocationLimit) (hb : b < allocationLimit) : add 64 a b = .ok (a + b) := by
  refine add_ok ?_
  unfold allocationLimit at *
  omega

end Checked

/-- Under guard there is no fault: the computation comes to `a`, unless something is refused. -/
def Faultless {α : Type} (c : Checked α) (a : α) : Prop := c = .ok a ∨ c = .error .refused

namespace Faultless
variable {α β : Type}

theorem ok (a : α) : Faultless (.ok a) a := .inl rfl

theorem of_eq {c : Checked α} {a : α} (h : c = .ok a) : Faultless c a := .inl h

theorem bind {c : Checked α} {k : α → Checked β} {a : α} {b : β} (h : Faultless c a) (hk : Faultless (k a) b) :
    Faultless (c >>= k) b := by
  rcases h with rfl | rfl
  · exact hk
  · exact .inr rfl

/-- The length is within its limit from then on. -/
theorem size_bind {n : Nat} {k : Nat → Checked β} {b : β} (hk : n < allocationLimit → Faultless (k n) b) :
    Faultless (Checked.size n >>= k) b := by
  unfold Checked.size
  split
  · rename_i fits
    exact hk fits
  · exact .inr rfl

end Faultless

/-- Under guard there is no fault, and `P` holds of what the computation comes to. -/
def Safely {α : Type} (P : α → Prop) (c : Checked α) (a : α) : Prop := c = .error .refused ∨ c = .ok a ∧ P a

namespace Safely
variable {α β : Type} {P : α → Prop} {Q : β → Prop} {c : Checked α} {k : α → Checked β} {a : α} {b : β}

theorem ok (h : P a) : Safely P (.ok a) a := .inr ⟨rfl, h⟩

theorem bind (h : Safely P c a) (hk : P a → Safely Q (k a) b) : Safely Q (c >>= k) b := by
  rcases h with rfl | ⟨rfl, given⟩
  · exact .inl rfl
  · exact hk given

theorem bind_faultless (h : Safely P c a) (hk : P a → Faultless (k a) b) : Faultless (c >>= k) b := by
  rcases h with rfl | ⟨rfl, given⟩
  · exact .inr rfl
  · exact hk given

theorem imp {P' : α → Prop} (h : Safely P c a) (hp : P a → P' a) : Safely P' c a :=
  h.imp_right fun ⟨same, given⟩ => ⟨same, hp given⟩

end Safely

/-! ### Operations on a state -/

/-- An operation under guard. -/
def Guarded (ε σ α : Type) : Type := σ → Checked (EStateM.Result ε σ α)

namespace Guarded
variable {ε σ α β : Type}

def pure (a : α) : Guarded ε σ α := fun s => .ok (.ok a s)

def bind (x : Guarded ε σ α) (k : α → Guarded ε σ β) : Guarded ε σ β := fun s =>
  match x s with
  | .ok (.ok a s) => k a s
  | .ok (.error e s) => .ok (.error e s)
  | .error stop => .error stop

instance : Monad (Guarded ε σ) where
  pure := pure
  bind := bind

/-- An operation in which there is nothing to guard. -/
instance : MonadLift (EStateM ε σ) (Guarded ε σ) := ⟨fun op s => .ok (op s)⟩

/-- A step that does not look at the state. -/
instance : MonadLift Checked (Guarded ε σ) := ⟨fun c s => c.map (.ok · s)⟩

theorem lift_bind (op : EStateM ε σ α) (k : α → EStateM ε σ β) :
    (liftM (op >>= k) : Guarded ε σ β) = liftM op >>= fun a => liftM (k a) := by
  funext s
  show Except.ok ((op >>= k) s) = Guarded.bind (fun s => .ok (op s)) (fun a s => .ok (k a s)) s
  unfold Guarded.bind
  dsimp only
  cases ran : op s with
  | ok a t => rw [bind_ok ran]
  | error e t => rw [bind_error ran]

end Guarded

/-- Any result will do. -/
abbrev Anything {α : Type} (_ : α) : Prop := True

/-- From a state on, the guarded operation does what the other one does, unless something is refused. It leaves a state
    with `I`, and what it gives has `Q`. -/
def GivesAt {ε σ α : Type} (I : σ → Prop) (Q : α → Prop) (s : σ) (g : Guarded ε σ α) (op : EStateM ε σ α) : Prop :=
  g s = .error .refused ∨ g s = .ok (op s) ∧ I (stateAfter op s) ∧ ∀ a t, op s = .ok a t → Q a

/-- The same from all states with `I`. -/
def Gives {ε σ α : Type} (I : σ → Prop) (Q : α → Prop) (g : Guarded ε σ α) (op : EStateM ε σ α) : Prop :=
  ∀ s, I s → GivesAt I Q s g op

/-- The same, whatever is given. -/
abbrev Guards {ε σ α : Type} (I : σ → Prop) (g : Guarded ε σ α) (op : EStateM ε σ α) : Prop := Gives I Anything g op

namespace GivesAt
variable {ε σ α β : Type} {I : σ → Prop} {Q : α → Prop} {R : β → Prop} {s : σ} {g : Guarded ε σ α} {op : EStateM ε σ α}

theorem of_faultless (h : Faultless (g s) (op s)) (after : I (stateAfter op s)) : GivesAt I Anything s g op := by
  rcases h with same | refused
  · exact .inr ⟨same, after, fun _ _ _ => trivial⟩
  · exact .inl refused

theorem safely (h : GivesAt I Q s g op) :
    Safely (fun _ => I (stateAfter op s) ∧ ∀ a t, op s = .ok a t → Q a) (g s) (op s) := h

theorem faultless (h : GivesAt I Q s g op) : Faultless (g s) (op s) := by
  rcases h with refused | ⟨same, -⟩
  · exact .inr refused
  · exact .inl same

/-- Only what is done from this state on counts. -/
theorem congr {g' : Guarded ε σ α} {op' : EStateM ε σ α} (h : GivesAt I Q s g op) (guarded : g' s = g s)
    (unguarded : op' s = op s) : GivesAt I Q s g' op' := by
  unfold GivesAt stateAfter at *
  rwa [guarded, unguarded]

/-- What the first operation comes to may be used of the second one. -/
theorem bind {k! : α → Guarded ε σ β} {k : α → EStateM ε σ β} (h : GivesAt I Q s g op)
    (hk : ∀ a t, I t → Q a → op s = .ok a t → GivesAt I R t (k! a) (k a)) : GivesAt I R s (g >>= k!) (op >>= k) := by
  show Guarded.bind g k! s = _ ∨ Guarded.bind g k! s = _ ∧ _
  unfold Guarded.bind
  rcases h with refused | ⟨same, after, given⟩
  · rw [refused]
    exact .inl rfl
  · rw [same]
    cases ran : op s with
    | ok a t =>
      rw [stateAfter_ok ran] at after
      rw [stateAfter_bind ran, bind_ok ran]
      exact hk a t after (given a t ran) ran
    | error e t =>
      rw [stateAfter_error ran] at after
      rw [stateAfter_error (bind_error ran), bind_error ran]
      exact .inr ⟨rfl, after, fun _ _ done => by cases done⟩

/-- A step on the way that is no fault. -/
theorem check {c : Checked α} {a : α} (h : Faultless c a) {k! : α → Guarded ε σ β} {op : EStateM ε σ β}
    (hk : GivesAt I R s (k! a) op) : GivesAt I R s (liftM c >>= k!) op := by
  rcases h with rfl | rfl
  · exact hk
  · exact .inl rfl

/-- A length on the way is within its limit from then on. -/
theorem size {n : Nat} {k! : Nat → Guarded ε σ β} {op : EStateM ε σ β}
    (hk : n < allocationLimit → GivesAt I R s (k! n) op) : GivesAt I R s (liftM (Checked.size n) >>= k!) op := by
  by_cases fits : n < allocationLimit
  · exact check (.of_eq (if_pos fits)) (hk fits)
  · refine .inl ?_
    show Guarded.bind _ _ s = _
    unfold Guarded.bind Checked.size
    rw [if_neg fits]
    rfl

/-- What is made of a result afterwards: what is given stays, and a failure is told as another one. -/
theorem through {δ τ : Type} {J : τ → Prop} {t : τ} {g' : Guarded δ τ α} {op' : EStateM δ τ α}
    (h : GivesAt I Q s g op) (tell : EStateM.Result ε σ α → EStateM.Result δ τ α)
    (guarded : g' t = do let result ← g s; return tell result) (unguarded : op' t = tell (op s))
    (ok : ∀ a s, I s → ∃ t, tell (.ok a s) = .ok a t ∧ J t)
    (error : ∀ e s, I s → ∃ d t, tell (.error e s) = .error d t ∧ J t) : GivesAt J Q t g' op' := by
  unfold GivesAt stateAfter at *
  rw [guarded, unguarded]
  rcases h with refused | ⟨same, after, given⟩
  · rw [refused]
    exact .inl rfl
  · rw [same]
    refine .inr ⟨rfl, ?_⟩
    cases ran : op s with
    | ok a s' =>
      rw [ran] at after
      obtain ⟨t', told, kept⟩ := ok a s' after
      rw [told]
      refine ⟨kept, fun b t' done => ?_⟩
      cases done
      exact given a s' ran
    | error e s' =>
      rw [ran] at after
      obtain ⟨d, t', told, kept⟩ := error e s' after
      rw [told]
      exact ⟨kept, fun b t' done => by cases done⟩

/-- What works on a part of the state leaves the rest as it is. -/
theorem part {τ : Type} {J : τ → Prop} {t : τ} {g' : Guarded ε τ α} {op' : EStateM ε τ α} (put : σ → τ)
    (h : GivesAt I Q s g op) (guarded : g' t = do let result ← g s; return mapState put result)
    (unguarded : op' t = mapState put (op s)) (kept : ∀ s, I s → J (put s)) : GivesAt J Q t g' op' :=
  h.through (mapState put) guarded unguarded (fun _ s hs => ⟨put s, rfl, kept s hs⟩)
    fun e s hs => ⟨e, put s, rfl, kept s hs⟩

end GivesAt

namespace Gives
variable {ε σ α β : Type} {I : σ → Prop} {Q : α → Prop} {R : β → Prop} {g : Guarded ε σ α} {op : EStateM ε σ α}

theorem pure {a : α} (h : Q a) : Gives (ε := ε) I Q (Pure.pure a) (Pure.pure a) := by
  refine fun s hs => .inr ⟨rfl, hs, fun _ _ done => ?_⟩
  cases done
  exact h

theorem throw (e : ε) : Gives I Q (liftM (MonadExcept.throw e : EStateM ε σ α) : Guarded ε σ α) (MonadExcept.throw e) :=
  fun _ hs => .inr ⟨rfl, hs, fun _ _ done => by cases done⟩

theorem bind {k! : α → Guarded ε σ β} {k : α → EStateM ε σ β} (h : Gives I Q g op)
    (hk : ∀ a, Q a → Gives I R (k! a) (k a)) : Gives I R (g >>= k!) (op >>= k) :=
  fun s hs => (h s hs).bind fun a t ht given _ => hk a given t ht

/-- Operations with nothing to guard, one after the other. -/
theorem lift_bind {k : α → EStateM ε σ β} (h : Gives I Q (liftM op : Guarded ε σ α) op)
    (hk : ∀ a, Q a → Gives I R (liftM (k a) : Guarded ε σ β) (k a)) :
    Gives I R (liftM (op >>= k) : Guarded ε σ β) (op >>= k) := by
  rw [Guarded.lift_bind]
  exact h.bind hk

theorem lift_pure {a : α} (h : Q a) : Gives I Q (liftM (Pure.pure a : EStateM ε σ α) : Guarded ε σ α) (Pure.pure a) :=
  pure h

theorem check {c : Checked α} {a : α} (h : Faultless c a) {k! : α → Guarded ε σ β} {op : EStateM ε σ β}
    (hk : Gives I R (k! a) op) : Gives I R (liftM c >>= k!) op := fun s hs => .check h (hk s hs)

theorem size {n : Nat} {k! : Nat → Guarded ε σ β} {op : EStateM ε σ β}
    (hk : n < allocationLimit → Gives I R (k! n) op) : Gives I R (liftM (Checked.size n) >>= k!) op :=
  fun s hs => .size fun fits => hk fits s hs

end Gives

namespace Guards
variable {ε σ α β : Type} {I : σ → Prop} {g : Guarded ε σ α} {op : EStateM ε σ α}

theorem lift (h : Maintains I op) : Guards I (liftM op) op := fun _ hs => .of_faultless (.ok _) (h.after hs)

theorem pure (a : α) : Guards (ε := ε) I (Pure.pure a) (Pure.pure a) := Gives.pure trivial

theorem bind {k! : α → Guarded ε σ β} {k : α → EStateM ε σ β} (h : Guards I g op)
    (hk : ∀ a, Guards I (k! a) (k a)) : Guards I (g >>= k!) (op >>= k) := Gives.bind h fun a _ => hk a

theorem map (h : Guards I g op) (f : α → β) : Guards I (g >>= fun a => Pure.pure (f a)) (f <$> op) := by
  rw [map_eq_pure_bind]
  exact h.bind fun _ => .pure _

theorem discard (h : Guards I g op) : Guards I (g >>= fun _ => Pure.pure ⟨⟩) (Functor.discard op) := h.map _

theorem forM {k! : α → Guarded ε σ PUnit} {k : α → EStateM ε σ PUnit} (h : ∀ a, Guards I (k! a) (k a)) (as : List α) :
    Guards I (as.forM k!) (as.forM k) := by
  induction as with
  | nil => exact .pure _
  | cons a as ih => exact (h a).bind fun _ => ih

/-- A step at the end. -/
theorem checked {c : Checked α} {a : α} (h : Faultless c a) : Guards (ε := ε) I (liftM c) (Pure.pure a) :=
  fun _ hs => .of_faultless (h.bind (.ok _)) hs

end Guards

/-! ### One operation after another -/

/-- The results of operations one after another, each of them on the state that the one before left. -/
def results {ε σ α κ : Type} (perform : κ → EStateM ε σ α) : List κ → σ → List (EStateM.Result ε σ α)
  | [], _ => []
  | call :: calls, s => perform call s :: results perform calls (stateAfter (perform call) s)

/-- The same under guard. -/
def results! {ε σ α κ : Type} (perform : κ → Guarded ε σ α) : List κ → σ → Checked (List (EStateM.Result ε σ α))
  | [], _ => .ok []
  | call :: calls, s => do
    let result ← perform call s
    let later ← results! perform calls (match result with | .ok _ t => t | .error _ t => t)
    return result :: later

/-- What each of the operations guards, a sequence of them guards. -/
theorem Guards.results {ε σ α κ : Type} {I : σ → Prop} {perform! : κ → Guarded ε σ α} {perform : κ → EStateM ε σ α}
    (h : ∀ call, Guards I (perform! call) (perform call)) (calls : List κ) {s : σ} (hs : I s) :
    Faultless (results! perform! calls s) (results perform calls s) := by
  induction calls generalizing s with
  | nil => exact .ok _
  | cons call calls ih =>
    exact (h call s hs).safely.bind_faultless fun ⟨after, _⟩ => (ih after).bind (.ok _)

end Wasm
