import Highlight.Cache.Contention
import Highlight.Main
import Highlight.Config.Json
import Highlight.Environment.Guard
import Highlight.Proofs.Painting
import Highlight.Proofs.Rendering
import Highlight.Proofs.Cache.Resolve
import Highlight.Proofs.Cache.Runs
import Highlight.Proofs.Reconstruction
import Highlight.Proofs.Cache.Fresh
import Highlight.Proofs.Reachable
import Highlight.Proofs.FirstFailure
import Highlight.Proofs.Composition
import Highlight.Proofs.Transparency
import Highlight.Proofs.Cache.Moves
import Highlight.Proofs.Cache.Sound
import Highlight.Proofs.Cache.Progress
import Highlight.Proofs.Cache.Retention
import Highlight.Proofs.Cache.Faithful
import Highlight.Proofs.Cache.Interleaving
import Highlight.Proofs.Ansi.Text
import Highlight.Proofs.Fallback
import Highlight.Proofs.Ansi.Reading
import Highlight.Proofs.LineParser
import Highlight.Proofs.Printing
import Highlight.Proofs.Color
import Highlight.Proofs.Swatches
import Highlight.Proofs.Matching
import Highlight.Proofs.Text.Clamping
import Highlight.Proofs.Lexing
import Highlight.Proofs.Painting.Memory
import Highlight.Proofs.Painting.Line
import Highlight.Proofs.Matching.Order
import Highlight.Proofs.Swatches.FirstUse
import Highlight.Proofs.Color.Reading
import Highlight.Proofs.Style
import Highlight.Proofs.Appearances
import Highlight.Proofs.Tracing
import Highlight.Proofs.Scope
import Highlight.Proofs.Catalog
import Highlight.Proofs.ScopePaths
import Highlight.Proofs.Replay
import Highlight.Proofs.Guards
import Highlight.Proofs.CommandLine.StandIns
import Highlight.Proofs.Json.Items
