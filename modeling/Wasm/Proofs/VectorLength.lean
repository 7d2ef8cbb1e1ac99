import Wasm.Proofs.Locality
import Wasm.Proofs.Numbers

/-! The length of a vector is compared with what remains before an item is read. Items take a byte at least, so a vector
    that could be read is never refused for that: the comparison only tells a failure early. -/

namespace Wasm
namespace Reader
open Decoder
variable {α : Type} {item : Reader α} {data : ByteArray} {pos next : Nat}

/-- A vector whose length is not compared with anything: its length, then as many items one after another. -/
def uncheckedVector (item : Reader α) : Reader (Array α) := do
  let n ← u32
  let as ← (List.replicate n item).mapM id
  return as.toArray

theorem items_eq_mapM (item : Reader α) (n : Nat) (done : Array α) :
    items item n done = do return done ++ (← (List.replicate n item).mapM id).toArray := by
  induction n generalizing done with
  | zero => simp [items]
  | succ n ih => simp [items, ih, List.replicate_succ]

theorem uncheckedVector_eq (item : Reader α) : uncheckedVector item = u32 >>= fun n => items item n #[] := by
  simp [uncheckedVector, items_eq_mapM]

theorem items_consume (consumes : item.Consumes) {n : Nat} {done as : Array α} (inside : pos ≤ data.size)
    (read : items item n done data pos = .ok as next) : pos + n ≤ next ∧ next ≤ data.size := by
  induction n generalizing pos done with
  | zero =>
    cases read
    exact ⟨Nat.le_refl _, inside⟩
  | succ n ih =>
    obtain ⟨a, mid, first, rest⟩ := bind_ok_iff.mp read
    obtain ⟨further, inside⟩ := consumes inside first
    obtain ⟨behind, inside⟩ := ih inside rest
    exact ⟨by omega, inside⟩

/-- The comparison, where the count has been read. -/
def compareWith (start n : Nat) : Reader Nat := do
  if (← remaining) < n then throw (.unexpectedEnd start) else return n

theorem count_eq : count data pos = (u32 >>= compareWith pos) data pos := rfl

theorem compareWith_eq {start n : Nat} : compareWith start n data pos =
    if data.size - pos < n then .error (.unexpectedEnd start) pos else .ok n pos := by
  show (if data.size - pos < n then throw (.unexpectedEnd start) else return n : Reader Nat) data pos = _
  split <;> rfl

theorem count_eq_error {e : ReadError} {stop : Nat} : count data pos = .error e stop ↔
    u32 data pos = .error e stop ∨ ∃ n, u32 data pos = .ok n stop ∧ data.size - stop < n ∧ e = .unexpectedEnd pos := by
  rw [count_eq]
  refine bind_eq_error.trans (or_congr_right ⟨?_, ?_⟩)
  · rintro ⟨n, mid, number, compared⟩
    have compared : compareWith pos n data mid = .error e stop := compared
    rw [compareWith_eq] at compared
    split at compared
    · rename_i more
      cases compared
      exact ⟨n, number, more, rfl⟩
    · cases compared
  · rintro ⟨n, number, more, rfl⟩
    have compared : compareWith pos n data stop = .error (.unexpectedEnd pos) stop := by rw [compareWith_eq, if_pos more]
    exact ⟨n, stop, number, compared⟩

/-! ### The comparison -/

/-- All readers of the format take a byte at least. A vector of items whose reader does is read just if it could be read
    without looking at what remains, with the same items and up to the same position. Where it is not read, the failure is
    the same, or else, before any item, the vector is found to be longer than what remains, and could not be read anyhow. -/
theorem vector_check_harmless :
    (∀ {α : Type} {item : Reader α}, InFormat item still → item.Consumes) ∧
    ∀ {α : Type} {item : Reader α}, item.Consumes → ∀ (data : ByteArray) (pos : Nat),
      (∀ as next, vector item data pos = .ok as next ↔ uncheckedVector item data pos = .ok as next) ∧
      ∀ e stop, vector item data pos = .error e stop → uncheckedVector item data pos = .error e stop ∨
        (∃ n, u32 data pos = .ok n stop ∧ data.size - stop < n ∧ e = .unexpectedEnd pos) ∧
          ∃ e' stop', uncheckedVector item data pos = .error e' stop' := by
  refine ⟨fun known => known.isLocal.consumes, fun {α item} consumes data pos => ?_⟩
  have same : ∀ as next, vector item data pos = .ok as next ↔ uncheckedVector item data pos = .ok as next := by
    intro as next
    rw [uncheckedVector_eq]
    constructor
    · intro read
      obtain ⟨n, mid, counted, rest⟩ := bind_ok_iff.mp read
      exact bind_ok_iff.mpr ⟨n, mid, (count_eq_ok.mp counted).1, rest⟩
    · intro read
      obtain ⟨n, mid, number, rest⟩ := bind_ok_iff.mp read
      -- As many bytes have been read as there are items, at least.
      obtain ⟨behind, inside⟩ := items_consume consumes (u32_inside number).2 rest
      have enough : n ≤ data.size - mid := by omega
      exact bind_ok_iff.mpr ⟨n, mid, count_eq_ok.mpr ⟨number, enough⟩, rest⟩
  refine ⟨same, fun e stop failed => ?_⟩
  rcases bind_eq_error.mp failed with early | ⟨n, mid, counted, rest⟩
  · rcases count_eq_error.mp early with number | long
    · rw [uncheckedVector_eq]
      exact .inl (bind_of_error number)
    · refine .inr ⟨long, ?_⟩
      cases read : uncheckedVector item data pos with
      | ok as next =>
        rw [(same as next).mpr read] at failed
        cases failed
      | error e' stop' => exact ⟨e', stop', rfl⟩
  · rw [uncheckedVector_eq]
    exact .inl (bind_eq_error.mpr (.inr ⟨n, mid, (count_eq_ok.mp counted).1, rest⟩))

/-- A row of value types is read up to its last one. Where one more is announced than there is, that is told at once. -/
theorem vector_check_harmless_types :
    vector valType ⟨#[0x02, 0x7F, 0x7E, 0x7D]⟩ 0 = .ok #[.i32, .i64] 3 ∧
      vector valType ⟨#[0x03, 0x7F, 0x7E]⟩ 0 = .error (.unexpectedEnd 0) 1 ∧
      ∃ e stop, uncheckedVector valType ⟨#[0x03, 0x7F, 0x7E]⟩ 0 = .error e stop := by
  have harmless := vector_check_harmless.2 (vector_check_harmless.1 .valType)
  have early : vector valType ⟨#[0x03, 0x7F, 0x7E]⟩ 0 = .error (.unexpectedEnd 0) 1 := rfl
  refine ⟨((harmless _ 0).1 _ _).mpr rfl, early, ?_⟩
  rcases (harmless _ 0).2 _ _ early with late | ⟨-, late⟩
  · exact ⟨_, _, late⟩
  · exact late

end Reader
end Wasm
