import Wasm.Proofs.Records
import Wasm.Proofs.Outline
import Mathlib.Data.List.Induction

/-! The sections of a module: how they are spelled, in which order they may stand, and what they say together. -/

namespace Wasm

/-- The bounds of a memory are spelled in order. -/
theorem Limits.Spelled.valid {limits : Limits} {word : List UInt8} (h : limits.Spelled word) : limits.Valid := by
  cases h with
  | least => nofun
  | both _ _ order =>
    rintro _ ⟨⟩
    exact order

theorem ImportEntry.Spelled.valid {e : ImportEntry} {word : List UInt8} (h : e.Spelled word) {limits : Limits}
    (memory : e.kind = .memory limits) : limits.Valid := by
  obtain ⟨-, -, kind⟩ := h
  cases memory
  cases kind with
  | memory spelled => exact spelled.valid

/-- What a section says. Nothing is kept of custom sections, tables, elements and the count of data segments. -/
inductive Section
  | custom
  | types (types : List FuncType)
  | imports (entries : List ImportEntry)
  | functions (indices : List Nat)
  | tables
  | memories (limits : List Limits)
  | globals (entries : List GlobalEntry)
  | exports (entries : List ExportEntry)
  | start (index : Nat)
  | elements
  | dataCount (n : Nat)
  | code (entries : List CodeEntry)
  | data (entries : List DataEntry)

namespace Section

def kind : Section → SectionKind
  | custom => .custom
  | types _ => .types
  | imports _ => .imports
  | functions _ => .functions
  | tables => .tables
  | memories _ => .memories
  | globals _ => .globals
  | exports _ => .exports
  | start _ => .start
  | elements => .elements
  | dataCount _ => .dataCount
  | code _ => .code
  | data _ => .data

/-- The spellings of what stands in a section. -/
def Contents : Spelling Section
  | types ts, word => Spelling.Vector FuncType.Spelled ts word
  | imports es, word => Spelling.Vector ImportEntry.Spelled es word
  | functions indices, word => Spelling.Vector Spelling.u32 indices word
  | memories limits, word => Spelling.Vector Limits.Spelled limits word
  | globals es, word => Spelling.Vector GlobalEntry.Spelled es word
  | exports es, word => Spelling.Vector ExportEntry.Spelled es word
  | start index, word => Spelling.u32 index word
  | dataCount n, word => Spelling.u32 n word
  | code es, word => Spelling.Vector CodeEntry.Spelled es word
  | data es, word => Spelling.Vector DataEntry.Spelled es word
  | custom, _ => True
  | tables, _ => True
  | elements, _ => True

/-- The identifier of a section, the size of its contents, and these. -/
inductive Spelled : Spelling Section
  | mk {s b u v} : SectionKind.ofId? b.toNat = some s.kind → Spelling.u32 v.length u → s.Contents v →
    Spelled s (b :: (u ++ v))

/-- The bytes that every module starts with, and then the sections. -/
inductive SpelledModule : Spelling (List Section)
  | mk {sections word} : Spelling.Items Spelled sections word →
    SpelledModule sections (Load.magic.data.toList ++ (Load.version.data.toList ++ word))

/-- All but custom sections stand in order, and once at most. -/
def Ordered (sections : List Section) : Prop :=
  (sections.filter fun s => s.kind ≠ .custom).Pairwise fun s t => s.kind.rank < t.kind.rank

instance (sections : List Section) : Decidable (Ordered sections) := inferInstanceAs (Decidable (List.Pairwise _ _))

end Section

namespace Outline

/-- An outline with what a section says. -/
def add (A : Outline) : Section → Outline
  | .types types => { A with types }
  | .imports imports => { A with imports }
  | .functions functions => { A with functions }
  | .memories memories => { A with memories }
  | .globals globals => { A with globals }
  | .exports exports => { A with exports }
  | .start index => { A with start := some index }
  | .code code => { A with code }
  | .data data => { A with data }
  | .custom | .tables | .elements | .dataCount _ => A

/-- What some sections say. -/
def of (sections : List Section) : Outline := sections.foldl add {}

/-- What the sections of lower rank say. -/
def below (A : Outline) (r : Nat) : Outline where
  types := if SectionKind.types.rank < r then A.types else []
  imports := if SectionKind.imports.rank < r then A.imports else []
  functions := if SectionKind.functions.rank < r then A.functions else []
  memories := if SectionKind.memories.rank < r then A.memories else []
  globals := if SectionKind.globals.rank < r then A.globals else []
  exports := if SectionKind.exports.rank < r then A.exports else []
  start := if SectionKind.start.rank < r then A.start else none
  code := if SectionKind.code.rank < r then A.code else []
  data := if SectionKind.data.rank < r then A.data else []

variable {A : Outline} {s : Section} {done : List Section} {r : Nat}

@[simp] theorem of_nil : of [] = {} := rfl

@[simp] theorem of_concat : of (done ++ [s]) = (of done).add s := by rw [of, List.foldl_append]; rfl

/-- A section says nothing of what has lower rank. -/
theorem below_add (h : r ≤ s.kind.rank) : (A.add s).below r = A.below r := by
  cases s <;> simp only [add, below, Section.kind] at h ⊢ <;> simp [Nat.not_lt.mpr h]

theorem add_below (h : s.kind.rank < r) : (A.add s).below r = (A.below r).add s := by
  cases s <;> simp only [add, below, Section.kind] at h ⊢ <;> simp [h]

/-- Sections say nothing of what has higher rank. -/
theorem of_below (h : ∀ s ∈ done, s.kind.rank < r) : (of done).below r = of done := by
  induction done using List.reverseRecOn with
  | nil => simp [below]
  | append_singleton done s ih =>
    rw [of_concat, add_below (h s (by simp)), ih fun t ht => h t (by simp [ht])]

/-- What a kind of section refers to has lower rank. -/
theorem right_below {kind : SectionKind} : (A.below (kind.rank + 1)).Right kind ↔ A.Right kind := by
  cases kind <;> exact Iff.rfl

theorem right_add {kind : SectionKind} (h : kind.rank < s.kind.rank) : (A.add s).Right kind ↔ A.Right kind := by
  rw [← right_below, below_add h, right_below]

/-- Where nothing is said, all is right. -/
theorem below_right {kind : SectionKind} (h : r ≤ kind.rank) (code : kind ≠ .code) : (A.below r).Right kind := by
  cases kind <;> simp_all [Right, below, Nat.not_lt.mpr h]

end Outline

namespace Section
variable {done : List Section} {s : Section}

theorem rank_pos {kind : SectionKind} : 0 < kind.rank ↔ kind ≠ .custom := by cases kind <;> decide

theorem ordered_concat :
    Ordered (done ++ [s]) ↔ Ordered done ∧ (s.kind ≠ .custom → ∀ t ∈ done, t.kind.rank < s.kind.rank) := by
  unfold Ordered
  by_cases custom : s.kind = .custom
  · simp [List.filter_append, custom]
  · rw [List.filter_append, List.filter_cons_of_pos (by simpa using custom), List.filter_nil, List.pairwise_append]
    simp only [List.pairwise_singleton, true_and, List.mem_singleton, forall_eq, List.mem_filter, decide_eq_true_iff,
      and_imp, custom, ne_eq, not_false_eq_true, forall_true_left]
    refine and_congr_right fun _ => ⟨fun h t ht => ?_, fun h t ht _ => h t ht⟩
    by_cases none : t.kind = .custom
    · rw [none]
      exact rank_pos.mpr custom
    · exact h t ht none

/-- The highest rank of some sections. -/
def lastRank (sections : List Section) : Nat := sections.foldl (fun r s => max r s.kind.rank) 0

@[simp] theorem lastRank_concat : lastRank (done ++ [s]) = max (lastRank done) s.kind.rank := by
  rw [lastRank, List.foldl_append]
  rfl

theorem lastRank_lt {r : Nat} (pos : 0 < r) : lastRank done < r ↔ ∀ s ∈ done, s.kind.rank < r := by
  induction done using List.reverseRecOn with
  | nil => simp [lastRank, pos]
  | append_singleton done s ih =>
    rw [lastRank_concat, Nat.max_lt, ih]
    simp [or_imp, forall_and]

/-- The sections stand in order, and what they refer to is there. -/
structure Fitting (sections : List Section) : Prop where
  ordered : Ordered sections
  right : ∀ s ∈ sections, (Outline.of sections).Right s.kind

theorem fitting_nil : Fitting [] := ⟨.nil, nofun⟩

theorem fitting_concat : Fitting (done ++ [s]) ↔
    Fitting done ∧ (s.kind ≠ .custom → ∀ t ∈ done, t.kind.rank < s.kind.rank) ∧ ((Outline.of done).add s).Right s.kind := by
  have same (order : s.kind ≠ .custom → ∀ t ∈ done, t.kind.rank < s.kind.rank) {t : Section} (ht : t ∈ done) :
      ((Outline.of done).add s).Right t.kind ↔ (Outline.of done).Right t.kind := by
    by_cases custom : s.kind = .custom
    · cases s <;> first | exact Iff.rfl | cases custom
    · exact Outline.right_add (order custom t ht)
  constructor
  · rintro ⟨ordered, right⟩
    rw [Outline.of_concat] at right
    obtain ⟨before, order⟩ := ordered_concat.mp ordered
    exact ⟨⟨before, fun t ht => (same order ht).mp (right t (by simp [ht]))⟩, order, right s (by simp)⟩
  · rintro ⟨⟨before, right⟩, order, last⟩
    refine ⟨ordered_concat.mpr ⟨before, order⟩, fun t ht => ?_⟩
    rw [Outline.of_concat]
    rcases List.mem_append.mp ht with ht | ht
    · exact (same order ht).mpr (right t ht)
    · rwa [List.mem_singleton.mp ht]

theorem Fitting.front {rest : List Section} (h : Fitting (done ++ rest)) : Fitting done := by
  induction rest using List.reverseRecOn with
  | nil => rwa [List.append_nil] at h
  | append_singleton rest s ih =>
    rw [← List.append_assoc] at h
    exact ih (fitting_concat.mp h).1

/-- Where all that is said is right, so is what is not said; only bodies may be missing. -/
theorem Fitting.all (h : Fitting done) {kind : SectionKind} (code : kind ≠ .code) : (Outline.of done).Right kind := by
  induction done using List.reverseRecOn with
  | nil => exact Outline.below_right (A := {}) (Nat.zero_le _) code
  | append_singleton done s ih =>
    obtain ⟨before, order, last⟩ := fitting_concat.mp h
    rw [Outline.of_concat]
    by_cases custom : s.kind = .custom
    · have := ih before
      cases s <;> first | exact this | cases custom
    rcases Nat.lt_trichotomy kind.rank s.kind.rank with earlier | here | later
    · exact (Outline.right_add earlier).mpr (ih before)
    · rwa [SectionKind.rank_injective here]
    · rw [← Outline.of_below fun t ht => Nat.lt_trans (order custom t ht) later, ← Outline.add_below later]
      exact Outline.below_right (Nat.le_refl _) code

end Section
end Wasm
