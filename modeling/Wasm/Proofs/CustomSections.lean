import Wasm.Proofs.Unambiguous
import Wasm.Proofs.RoundTrip
import Mathlib.Data.List.Forall2

/-! Custom sections say nothing: wherever they stand between the other sections of a file, and whatever is in them, the
    same module is loaded. -/

namespace Wasm

/-- A section as it stands in a file: its identifier, a spelling of its size, and its contents. -/
structure Chunk where
  id : UInt8
  size : List UInt8
  payload : List UInt8
  kind : SectionKind
  known : SectionKind.ofId? id.toNat = some kind
  spelled : Spelling.u32 payload.length size

namespace Chunk

def bytes (f : Chunk) : List UInt8 := f.id :: (f.size ++ f.payload)

/-- The bytes of the file that consists of some sections. -/
def file (chunks : List Chunk) : List UInt8 :=
  Load.magic.data.toList ++ (Load.version.data.toList ++ chunks.flatMap bytes)

/-- The sections that are not custom sections. -/
def standard (chunks : List Chunk) : List Chunk := chunks.filter fun f => f.kind ≠ .custom

def Tells (f : Chunk) (s : Section) : Prop := f.kind = s.kind ∧ s.Contents f.payload

variable {f : Chunk} {s : Section} {chunks chunks' : List Chunk} {sections : List Section} {word : List UInt8}

theorem Tells.spelled (h : f.Tells s) : s.Spelled f.bytes := .mk (h.1 ▸ f.known) f.spelled h.2

theorem exists_tells (h : s.Spelled word) : ∃ f : Chunk, f.bytes = word ∧ f.Tells s := by
  obtain ⟨known, spelled, contents⟩ := h
  exact ⟨⟨_, _, _, _, known, spelled⟩, rfl, rfl, contents⟩

/-! ### Files and their sections -/

theorem spelledModule_file (h : List.Forall₂ Tells chunks sections) : Section.SpelledModule sections (file chunks) := by
  refine .mk ?_
  induction h with
  | nil => exact .nil
  | cons tells _ ih => exact .cons tells.spelled ih

/-- What spells sections is a file of chunks that tell them. -/
theorem exists_file (h : Section.SpelledModule sections word) :
    ∃ chunks, file chunks = word ∧ List.Forall₂ Tells chunks sections := by
  obtain ⟨items⟩ := h
  suffices ∃ chunks, chunks.flatMap bytes = _ ∧ List.Forall₂ Tells chunks sections by
    obtain ⟨chunks, same, tells⟩ := this
    exact ⟨chunks, by rw [file, same], tells⟩
  induction items with
  | nil => exact ⟨[], rfl, .nil⟩
  | cons first _ ih =>
    obtain ⟨f, rfl, tells⟩ := exists_tells first
    obtain ⟨chunks, rfl, rest⟩ := ih
    exact ⟨f :: chunks, rfl, .cons tells rest⟩

/-- The size of a section tells where it ends. -/
theorem bytes_unambiguous : Spelling.Unambiguous fun (f : Chunk) word => f.bytes = word := by
  rintro ⟨_, _, _, kind, known, spelled⟩ ⟨_, _, _, kind', known', spelled'⟩ _ _ x y rfl rfl same
  simp only [bytes, List.cons_append, List.append_assoc] at same
  obtain ⟨rfl, rest⟩ := List.cons.inj same
  obtain ⟨length, rfl⟩ := Spelling.u32_unambiguous spelled spelled' rest
  obtain ⟨rfl, -⟩ := List.append_inj (List.append_cancel_left rest) length
  obtain rfl : kind = kind' := Option.some.inj (known.symm.trans known')
  exact ⟨rfl, rfl⟩

/-- A file can be taken apart in one way only. -/
theorem file_injective : Function.Injective file := by
  have items (chunks : List Chunk) : Spelling.Items (fun f word => bytes f = word) chunks (chunks.flatMap bytes) := by
    induction chunks with
    | nil => exact .nil
    | cons f chunks ih => exact .cons rfl ih
  intro chunks chunks' same
  have same := List.append_cancel_left (List.append_cancel_left same)
  exact (items chunks).unique bytes_unambiguous (fun _ => nofun) (same ▸ items chunks')

/-! ### What custom sections do not change -/

theorem standard_tells (h : List.Forall₂ Tells chunks sections) :
    List.Forall₂ Tells (standard chunks) (sections.filter fun s => s.kind ≠ .custom) :=
  List.rel_filter (fun _ _ tells => by simp [tells.1]) h

/-- Sections that differ in custom sections only say the same. -/
theorem tells_of_standard (same : standard chunks' = standard chunks) (h : List.Forall₂ Tells chunks sections) :
    ∃ sections', List.Forall₂ Tells chunks' sections' ∧
      (sections'.filter fun s => s.kind ≠ .custom) = sections.filter fun s => s.kind ≠ .custom := by
  have tells := standard_tells h
  rw [← same] at tells
  have all : ∀ s ∈ sections.filter fun s => s.kind ≠ .custom, s.kind ≠ .custom := fun s hs => by
    simpa using List.of_mem_filter hs
  -- The custom sections of the first file do not matter from here on.
  generalize (sections.filter fun s => s.kind ≠ .custom) = standards at tells all
  clear same h
  induction chunks' generalizing standards with
  | nil =>
    cases tells
    exact ⟨[], .nil, rfl⟩
  | cons f chunks ih =>
    by_cases custom : f.kind = .custom
    · rw [standard, List.filter_cons_of_neg (by simpa using custom)] at tells
      obtain ⟨sections', others, same⟩ := ih standards tells all
      exact ⟨.custom :: sections', .cons ⟨custom, trivial⟩ others, by simpa [Section.kind] using same⟩
    · rw [standard, List.filter_cons_of_pos (by simpa using custom)] at tells
      cases tells with
      | @cons _ s _ standards first rest =>
        obtain ⟨sections', others, same⟩ := ih standards rest fun s hs => all s (List.mem_cons_of_mem _ hs)
        refine ⟨s :: sections', .cons first others, ?_⟩
        rw [List.filter_cons_of_pos (by simpa using all s (List.mem_cons_self)), same]

end Chunk

/-- Custom sections add nothing to an outline. -/
theorem Outline.of_standard (sections : List Section) :
    of (sections.filter fun s => s.kind ≠ .custom) = of sections := by
  induction sections using List.reverseRecOn with
  | nil => rfl
  | append_singleton sections s ih =>
    rw [List.filter_append, of_concat]
    by_cases custom : s.kind = .custom
    · rw [List.filter_cons_of_neg (by simpa using custom), List.filter_nil, List.append_nil, ih]
      cases s <;> first | rfl | cases custom
    · rw [List.filter_cons_of_pos (by simpa using custom), List.filter_nil, of_concat, ih]

variable {σ : Type}

/-- A file that is accepted consists of sections in one way, and each file with the same sections but for custom sections,
    more of them or less, at any places, is accepted and gives the same functions, types, memories, globals, data, names
    and start. -/
theorem Module.decode_of_standard {bytes : ByteArray} {options : Options} {resolve : Resolver σ} {l : Loading σ}
    (h : decode bytes options resolve = .ok () l) :
    (∃! chunks, Chunk.file chunks = bytes.data.toList) ∧
    ∀ chunks chunks' (bytes' : ByteArray), Chunk.file chunks = bytes.data.toList →
      Chunk.standard chunks' = Chunk.standard chunks → bytes'.data.toList = Chunk.file chunks' →
      bytes'.size < addressLimit →
      ∃ l', decode bytes' options resolve = .ok () l' ∧ l'.module = l.module ∧ l'.store = l.store ∧
        l'.notices = l.notices := by
  obtain ⟨sections, spelled, ordered, right, gives⟩ := decode_sound h
  obtain ⟨chunks₀, whole₀, tells⟩ := Chunk.exists_file spelled
  have unique (chunks : List Chunk) (whole : Chunk.file chunks = bytes.data.toList) : chunks = chunks₀ :=
    Chunk.file_injective (whole.trans whole₀.symm)
  refine ⟨⟨chunks₀, whole₀, unique⟩, fun chunks chunks' bytes' whole same whole' small => ?_⟩
  obtain rfl := unique chunks whole
  obtain ⟨sections', tells', standards⟩ := Chunk.tells_of_standard same tells
  have outline : Outline.of sections' = Outline.of sections := by
    rw [← Outline.of_standard sections', standards, Outline.of_standard]
  have order : Section.Ordered sections' := by rwa [Section.Ordered, standards]
  obtain ⟨l', done, gives'⟩ : ∃ l', decode bytes' options resolve = .ok () l' ∧
      (Outline.of sections').Gives resolve options l' :=
    decode_complete small (whole' ▸ Chunk.spelledModule_file tells') order (outline ▸ right)
  rw [outline] at gives'
  exact ⟨l', done, gives'.module.trans gives.module.symm, gives'.store.trans gives.store.symm,
    gives'.notices.trans gives.notices.symm⟩

namespace Sample
open Spelling

/-- The sections of the sample. -/
def chunks : List Chunk :=
  [⟨1, [6], [0x81, 0x00, 0x60, 0, 1, 0x7F], .types, rfl, u32_single rfl rfl⟩,
    ⟨3, [2], [1, 0], .functions, rfl, u32_single rfl rfl⟩,
    ⟨5, [3], [1, 0, 1], .memories, rfl, u32_single rfl rfl⟩,
    ⟨6, [6], [1, 0x7F, 1, 0x41, 7, 0x0B], .globals, rfl, u32_single rfl rfl⟩,
    ⟨7, [5], [1, 1, 0x66, 0, 0], .exports, rfl, u32_single rfl rfl⟩,
    ⟨10, [8], [1, 6, 1, 2, 0x7E, 0x41, 0x2A, 0x0B], .code, rfl, u32_single rfl rfl⟩,
    ⟨11, [10], [2, 0, 0x41, 2, 0x0B, 1, 0x41, 1, 1, 0x42], .data, rfl, u32_single rfl rfl⟩]

/-- A custom section of two bytes, whose size is spelled in two bytes. -/
def custom : Chunk :=
  ⟨0, [0x82, 0x00], [0xFF, 0x41], .custom, rfl,
    ⟨.more (b := 0x82) (n := 0) rfl (.last (b := 0) rfl), by decide, by decide⟩⟩

/-- The sample with custom sections behind the header, between two sections, and at the end. -/
def padded : List Chunk := custom :: chunks.take 3 ++ custom :: custom :: chunks.drop 3 ++ [custom]

end Sample

theorem Module.decode_of_standard_sample : ∃ l l' : Loading Unit, decode Sample.bytes {} .none = .ok () l ∧
    decode (Chunk.file Sample.padded).toByteArray {} .none = .ok () l' ∧ l'.module = l.module ∧ l'.store = l.store := by
  obtain ⟨l, done, -⟩ : ∃ l : Loading Unit, decode Sample.bytes {} .none = .ok () l ∧ _ :=
    decode_complete (by decide) Sample.spelled (by decide) Sample.right
  obtain ⟨l', done', module, store, -⟩ := (decode_of_standard done).2 Sample.chunks Sample.padded _ (by decide) rfl
    (congrArg Array.toList List.data_toByteArray) (by rw [List.size_toByteArray]; decide)
  exact ⟨l, l', done, done', module, store⟩

end Wasm
