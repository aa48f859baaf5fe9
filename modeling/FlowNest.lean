import FlowNest.Main
import FlowNest.Checkpoint
import FlowNest.Folder
import FlowNest.Proofs.Chains
import FlowNest.Proofs.Grouping.Minimal
import FlowNest.Proofs.Grouping.RoundTrip
import FlowNest.Proofs.Grouping.Wiring
import FlowNest.Proofs.Runs
import FlowNest.Proofs.Runtime.Agreement
import FlowNest.Proofs.Runtime.Delivery
import FlowNest.Proofs.Runtime.Obedience
import FlowNest.Proofs.Snapshot.RoundTrip
import FlowNest.Proofs.Grouping.Refusal
import FlowNest.Proofs.Gaps
import FlowNest.Proofs.Grouping.Conservation
import FlowNest.Proofs.Grouping.Release
import FlowNest.Proofs.Grouping.Success
import FlowNest.Proofs.Grouping.Command
import FlowNest.Proofs.Grouping.Independence
import FlowNest.Proofs.Spread
import FlowNest.Proofs.Lawful
import FlowNest.Proofs.Steering
import FlowNest.Proofs.Removal
import FlowNest.Proofs.Tallies
import FlowNest.Proofs.Rescoping
import FlowNest.Proofs.Ways
import FlowNest.Proofs.Grouping.Naming
