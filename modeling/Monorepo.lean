import Monorepo.CommandLine
import Monorepo.Main
import Monorepo.Toml.Printer
import Monorepo.Yaml.Printer
import Monorepo.Proofs.AppLoading
import Monorepo.Proofs.Extension
import Monorepo.Proofs.Loading
import Monorepo.Proofs.Resolution
import Monorepo.Proofs.Soundness
import Monorepo.Proofs.Validity
import Monorepo.Proofs.Inlining
import Monorepo.Proofs.Content
import Monorepo.Proofs.History
import Monorepo.Proofs.RoundTrip
import Monorepo.Proofs.TextBytes
import Monorepo.Proofs.Rendering
import Monorepo.Proofs.Following
import Monorepo.Proofs.Writing
import Monorepo.Proofs.SelfContained
import Monorepo.Proofs.Below
import Monorepo.Proofs.Walking
import Monorepo.Proofs.Acceptance
import Monorepo.Proofs.ElementPaths
import Monorepo.Proofs.Shape
import Monorepo.Proofs.Keeping
import Monorepo.Proofs.Precedence
import Monorepo.Proofs.Grouping
import Monorepo.AppLoader.Pool
import Monorepo.Proofs.Appending
import Monorepo.Proofs.References
import Monorepo.Proofs.Leftovers
import Monorepo.Proofs.Scheduling
import Monorepo.Proofs.Stages
import Monorepo.Proofs.Tracing
import Monorepo.Proofs.Spelling
import Monorepo.Proofs.Putting
import Monorepo.Proofs.Running
import Monorepo.Proofs.Initialising
import Monorepo.Proofs.Discovery
import Monorepo.Proofs.Opening
import Monorepo.Proofs.Accepting
import Monorepo.Proofs.Collisions
import Monorepo.Proofs.Stripping
import Monorepo.Proofs.Stopping
import Monorepo.Proofs.Deepening
import Monorepo.Proofs.LinkLoops
import Monorepo.Proofs.PathOrder
import Monorepo.Proofs.Reaching
import Monorepo.Proofs.Ancestors
import Monorepo.Proofs.NamedApp
import Monorepo.Proofs.Additions
import Monorepo.Proofs.Pruning
import Monorepo.Proofs.Saving
import Monorepo.Proofs.Unfinished
import Monorepo.Proofs.LineBreaks
import Monorepo.Proofs.OneLine
