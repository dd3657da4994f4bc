import DepGraph.Graph.Reach
import DepGraph.Main
import DepGraph.Proofs.Command.Rejection
import DepGraph.Proofs.DepsFile.Normal
import DepGraph.Proofs.DepsFile.Sameness
import DepGraph.Proofs.DepsFile.Tolerance
import DepGraph.Proofs.Dot.ReadBack
import DepGraph.Proofs.Fingerprint
import DepGraph.Proofs.Graph.Diff
import DepGraph.Proofs.Manifest.Malformed
import DepGraph.Proofs.Manifest.RoundTrip
import DepGraph.Proofs.Yaml.RoundTrip
