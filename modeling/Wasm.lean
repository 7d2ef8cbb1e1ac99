import Wasm.Main
import Wasm.Instr.Name
import Wasm.Proofs.Reading
import Wasm.Proofs.Structural
import Wasm.Proofs.Code
import Wasm.Proofs.Construct
import Wasm.Proofs.Refinement
import Wasm.Proofs.Alike
import Wasm.Proofs.AlikeStep
import Wasm.Proofs.History
import Wasm.Proofs.Transparency
import Wasm.Proofs.Calling
import Wasm.Proofs.Soundness
import Wasm.Proofs.Placement
import Wasm.Proofs.Frames
import Wasm.Proofs.RoundTrip
import Wasm.Proofs.Acceptance
import Wasm.Proofs.Effects
import Wasm.Proofs.CallDepth
import Wasm.Proofs.Persistence
import Wasm.Proofs.Exports
import Wasm.Proofs.CustomSections
import Wasm.Proofs.LoopGuard
import Wasm.Proofs.HostBoundary
import Wasm.Proofs.GuardedSession
import Wasm.Proofs.Completion
import Wasm.Proofs.Shadow
import Wasm.Proofs.WrittenPages
import Wasm.Proofs.Numbers
import Wasm.Proofs.ReadBack
import Wasm.Proofs.IntegerArithmetic
import Wasm.Proofs.IntegerInstructions
import Wasm.Proofs.LoadStore
import Wasm.Proofs.BlockTypes
import Wasm.Proofs.Locality
import Wasm.Proofs.Relocation
import Wasm.Proofs.VectorLength
import Wasm.Proofs.IntegerArguments
