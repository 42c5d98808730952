import WitnessReplication.Text.Utf8
import WitnessReplication.Text.Blank
import WitnessReplication.Text.Record
import WitnessReplication.Decimal.Count
import WitnessReplication.Decimal.Quotient
import WitnessReplication.Decimal.Significand
import WitnessReplication.Json.Basic
import WitnessReplication.Json.Writer
import WitnessReplication.Json.Reader
import WitnessReplication.Json.Decode
import WitnessReplication.Identity
import WitnessReplication.Command
import WitnessReplication.Store
import WitnessReplication.Quorum.Threshold
import WitnessReplication.Quorum.Certificate
import WitnessReplication.Sharding
import WitnessReplication.Config
import WitnessReplication.Message
import WitnessReplication.Witness
import WitnessReplication.Command.Json
import WitnessReplication.Message.Json
import WitnessReplication.Store.Json
import WitnessReplication.Replica.Basic
import WitnessReplication.Replica.Speculation
import WitnessReplication.Replica.Delivery
import WitnessReplication.Replica.Handling
import WitnessReplication.Client
import WitnessReplication.Client.Awaited
import WitnessReplication.Network
import WitnessReplication.Sharding.Combiner
import WitnessReplication.Client.Json
import WitnessReplication.Clock
import WitnessReplication.Registry
import WitnessReplication.Registry.Waiters
import WitnessReplication.Batcher
import WitnessReplication.Batcher.Flushing
import WitnessReplication.Shutdown
import WitnessReplication.Hub
import WitnessReplication.Host.Basic
import WitnessReplication.Host.Slots
import WitnessReplication.Host.Weak
import WitnessReplication.Host.Running
import WitnessReplication.Text.Visible
import WitnessReplication.Text.Quoted
import WitnessReplication.Text.Lines
import WitnessReplication.Scenario
import WitnessReplication.Scenario.Json
import WitnessReplication.Scenario.Cluster
import WitnessReplication.Scenario.Transcript
import WitnessReplication.Main
import WitnessReplication.Proofs.Log
import WitnessReplication.Proofs.Backing
import WitnessReplication.Proofs.Tracking
import WitnessReplication.Proofs.Replica.Changes
import WitnessReplication.Proofs.Replica.Effects
import WitnessReplication.Proofs.Replica.Frames
import WitnessReplication.Proofs.Replica.Following
import WitnessReplication.Proofs.Replica.Leading
import WitnessReplication.Proofs.Replica.Responding
import WitnessReplication.Proofs.Replica.Keeping
import WitnessReplication.Proofs.Certificate
import WitnessReplication.Proofs.Replica.Certifying
import WitnessReplication.Proofs.Replica.Vouching
import WitnessReplication.Proofs.Client.Evidence
import WitnessReplication.Proofs.Client.Soundness
import WitnessReplication.Proofs.Network.History
import WitnessReplication.Proofs.Network.Soundness
import WitnessReplication.Proofs.Agreement
import WitnessReplication.Proofs.CommittedResults
import WitnessReplication.Proofs.Freshness
import WitnessReplication.Proofs.Replica.Carrying
import WitnessReplication.Proofs.Client.Tally
import WitnessReplication.Proofs.Network.Chronicle
import WitnessReplication.Proofs.Replica.Reporting
import WitnessReplication.Proofs.CommitQuorum
import WitnessReplication.Proofs.Durability
import WitnessReplication.Proofs.Network.Reporting
import WitnessReplication.Proofs.Integrity
import WitnessReplication.Proofs.Pending
import WitnessReplication.Proofs.Replica.Repeating
import WitnessReplication.Proofs.Network.Rules
import WitnessReplication.Proofs.Network.Copies
import WitnessReplication.Proofs.RepeatedWeak
import WitnessReplication.Proofs.Replica.Noting
import WitnessReplication.Proofs.Replica.Remembering
import WitnessReplication.Proofs.Network.Remembering
import WitnessReplication.Proofs.Overlay
import WitnessReplication.Proofs.Client.Awaiting
import WitnessReplication.Proofs.Network.Issuing
import WitnessReplication.Proofs.ReadYourWrites
import WitnessReplication.Proofs.Replica.Answering
import WitnessReplication.Proofs.Network.Answering
import WitnessReplication.Proofs.CausalReads
import WitnessReplication.Proofs.Client.Absorbing
import WitnessReplication.Proofs.Replica.Advancing
import WitnessReplication.Proofs.Replica.Taking
import WitnessReplication.Proofs.Tables
import WitnessReplication.Proofs.Replica.Uptake
import WitnessReplication.Proofs.Replica.Viewing
import WitnessReplication.Proofs.Replica.Commuting
import WitnessReplication.Proofs.Replica.Tracing
import WitnessReplication.Proofs.Replica.Planning
import WitnessReplication.Proofs.Host.Scheduling
import WitnessReplication.Proofs.Host.Settling
import WitnessReplication.Proofs.Replica.Owing
import WitnessReplication.Proofs.Replica.Waiting
import WitnessReplication.Proofs.Replica.Syncing
import WitnessReplication.Proofs.Replica.Witnessing
import WitnessReplication.Proofs.Replica.Replying
import WitnessReplication.Proofs.Network.Apart
import WitnessReplication.Proofs.Network.Owing
import WitnessReplication.Proofs.Network.Recording
import WitnessReplication.Proofs.Network.Heeding
import WitnessReplication.Proofs.Network.Delivering
import WitnessReplication.Proofs.Network.Draining
import WitnessReplication.Proofs.Quiescence
import WitnessReplication.Proofs.Network.Moments
import WitnessReplication.Proofs.Counting
import WitnessReplication.Proofs.Replica.Recording
import WitnessReplication.Proofs.Network.Witnessing
import WitnessReplication.Proofs.FollowerWitness
import WitnessReplication.Proofs.Surfacing
import WitnessReplication.Proofs.WeakDependencies
import WitnessReplication.Proofs.Mirroring
import WitnessReplication.Proofs.StagedWrites
import WitnessReplication.Proofs.Replica.Mirroring
import WitnessReplication.Proofs.LeaderWitness
import WitnessReplication.Proofs.Replica.Digesting
import WitnessReplication.Proofs.Replica.Ordering
import WitnessReplication.Proofs.Arrivals
import WitnessReplication.Proofs.OrderedAcks
import WitnessReplication.Proofs.Replica.Idling
import WitnessReplication.Proofs.Redelivery
import WitnessReplication.Proofs.Client.Reacting
import WitnessReplication.Proofs.Accounts
import WitnessReplication.Proofs.FirstVotes
import WitnessReplication.Proofs.Client.Concluding
import WitnessReplication.Proofs.Verdicts
import WitnessReplication.Proofs.Escalation
import WitnessReplication.Proofs.ClearReads
import WitnessReplication.Proofs.SyncAnswers
import WitnessReplication.Proofs.Clock
import WitnessReplication.Proofs.Registry.Looking
import WitnessReplication.Proofs.Host.Serving
import WitnessReplication.Proofs.Host.Receiving
import WitnessReplication.Proofs.Host.Journal
import WitnessReplication.Proofs.Host.Tending
import WitnessReplication.Proofs.Replica.Naming
import WitnessReplication.Proofs.Host.Ordering
import WitnessReplication.Proofs.Client.Chaining
import WitnessReplication.Proofs.CausalOrder
import WitnessReplication.Proofs.Replica.Notifying
import WitnessReplication.Proofs.Host.Notifying
import WitnessReplication.Proofs.Host.Answering
import WitnessReplication.Proofs.WeakReplies
import WitnessReplication.Proofs.Host.Inline
import WitnessReplication.Proofs.SlotTasks
import WitnessReplication.Proofs.Replica.Spending
import WitnessReplication.Proofs.Network.Spending
import WitnessReplication.Proofs.Traffic
import WitnessReplication.Proofs.Quorum.Completion
import WitnessReplication.Proofs.Quorum.Intersection
import WitnessReplication.Proofs.Batching
import WitnessReplication.Proofs.Alarms
import WitnessReplication.Proofs.Registry.Settling
import WitnessReplication.Proofs.Registry.Resting
import WitnessReplication.Proofs.BoundedWaits
import WitnessReplication.Proofs.ClosedChannels
import WitnessReplication.Proofs.SlotTable
import WitnessReplication.Proofs.DeliveryLoop
import WitnessReplication.Proofs.HubDelivery
import WitnessReplication.Proofs.StoreHistory
import WitnessReplication.Proofs.RoundTrip
import WitnessReplication.Proofs.Sharding
