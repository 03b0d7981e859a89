import DecoderForge.Main
import DecoderForge.Binary64.Shortest
import DecoderForge.Proofs.Config.SavedFile
import DecoderForge.Proofs.Generation.Failure
import DecoderForge.Proofs.Generation.Compared
import DecoderForge.Proofs.Generation.Concurrent
import DecoderForge.Proofs.Layout.Canonical
import DecoderForge.Proofs.Layout.Rendering
import DecoderForge.Proofs.Layout.StringLiterals
import DecoderForge.Proofs.Layout.Nesting
import DecoderForge.Proofs.Binary64.ShortestText
import DecoderForge.Proofs.Module.Engine
import DecoderForge.Proofs.Module.Run
import DecoderForge.Proofs.Plan.Degradation
import DecoderForge.Proofs.Registry.EngineRuns
import DecoderForge.Proofs.Schema.Claims
import DecoderForge.Proofs.Schema.Enumeration
import DecoderForge.Proofs.Schema.IdentifierLetters
import DecoderForge.Proofs.Schema.IdentifierNames
import DecoderForge.Proofs.Standalone.ClosedModule
import DecoderForge.Proofs.Standalone.Drafts
import DecoderForge.Proofs.Standalone.Malformed
import DecoderForge.Proofs.Standalone.SameText
import DecoderForge.Proofs.Standalone.Termination
import DecoderForge.Proofs.Types.Inlining
import DecoderForge.Proofs.Types.Interfaces
import DecoderForge.Proofs.Types.Block
import DecoderForge.Proofs.Types.Grouped
import DecoderForge.Proofs.Validation.Bound
import DecoderForge.Proofs.Validation.PercentEscapes
