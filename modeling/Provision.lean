import Provision.Text.Basic
import Provision.Text.Lowercase
import Provision.Text.Quoted
import Provision.OrderedMap
import Provision.Sha256
import Provision.Glob.Matching
import Provision.Semver.Range
import Provision.Requirement
import Provision.Configuration
import Provision.PackageId
import Provision.Graph.Basic
import Provision.Toml.Document
import Provision.Hook.Rule
import Provision.Recipe.Manifest
import Provision.BuildPolicy
import Provision.Profile
import Provision.GlobalConfig
import Provision.Index.Directory
import Provision.Store
import Provision.Graph.Search
import Provision.Graph.Layers
import Provision.Catalog
import Provision.Expansion.Build
import Provision.Resolution.Basic
import Provision.Proofs.CanonicalText
import Provision.Proofs.Graph.Reachability
import Provision.Proofs.Graph.Layering
import Provision.Proofs.Expansion.Underway
import Provision.Proofs.Expansion.Soundness
import Provision.Proofs.Graph.Pass
import Provision.Proofs.Resolution.Stages
import Provision.Proofs.Propagation
import Provision.Proofs.Resolution.History
import Provision.Proofs.Decision
import Provision.Proofs.Resolution.Invalidity
import Provision.Proofs.Store
import Provision.Proofs.Resolution.Growth
import Provision.Proofs.Graph.Closure
import Provision.Proofs.OrderedMap
import Provision.Proofs.Resolution.Plan
import Provision.Proofs.Compatibility
import Provision.Proofs.Resolution.Binaries
import Provision.Proofs.Resolution.Sensitivity
import Provision.Proofs.Resolution.Noninterference
import Provision.Proofs.Expansion.Pins
import Provision.Proofs.Expansion.Restarts
import Provision.Proofs.Graph.Arrows
import Provision.Proofs.Expansion.Parallel
import Provision.Proofs.Expansion.Consumer
import Provision.Proofs.Expansion.OverrideOrder
import Provision.Proofs.Resolution.Convergence
import Provision.Proofs.Resolution.Outage
import Provision.Proofs.Resolution.Coherence
import Provision.Proofs.Resolution.Rescue
import Provision.Proofs.Graph.Countdown
import Provision.Proofs.Graph.LongestPaths
import Provision.Proofs.Resolution.Fetching
import Provision.Proofs.Expansion.Provenance
import Provision.Proofs.Resolution.Events
import Provision.Proofs.Graph.Search
import Provision.Proofs.Index
import Provision.Proofs.Expansion.Failures
import Provision.Proofs.Resolution.Cycles
import Provision.Proofs.Skipping
import Provision.Proofs.Candidates
import Provision.Proofs.DecisionTable
import Provision.Proofs.Graph.NearestFirst
import Provision.Proofs.Expansion.Conflicts
import Provision.Proofs.Substitution
import Provision.Proofs.Resolution.StoreErrors
import Provision.Proofs.RoundTrip
import Provision.Proofs.Semver.Precedence
import Provision.Proofs.VersionOrder
import Provision.Proofs.Releases
import Provision.Proofs.FieldPaths
import Provision.Proofs.Contributions
import Provision.Proofs.BuildPolicy
import Provision.Proofs.SubSettings
