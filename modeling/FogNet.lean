import FogNet.Action
import FogNet.Application
import FogNet.CommandLine.LogFilter
import FogNet.CommandLine.Options
import FogNet.CommandLine.Plan
import FogNet.Deployment
import FogNet.Directory
import FogNet.Drop
import FogNet.Duration
import FogNet.Endpoint
import FogNet.Event
import FogNet.Exposition.Registry
import FogNet.Exposition.Text
import FogNet.Identifier
import FogNet.Machine.Basic
import FogNet.Machine.Dispatch
import FogNet.Machine.Handle
import FogNet.Machine.Orchestrator
import FogNet.Main
import FogNet.Message
import FogNet.Metric
import FogNet.Network
import FogNet.Number.Binary64
import FogNet.Number.Fixed
import FogNet.Number.Shortest
import FogNet.Outbound
import FogNet.Placement.Edgeward
import FogNet.Placement.Ledger
import FogNet.Placement.Placer
import FogNet.Placement.Request
import FogNet.Placement.Shift
import FogNet.Proofs.Entries
import FogNet.Proofs.Folds
import FogNet.Proofs.Machine.Accounts
import FogNet.Proofs.Machine.Announcements
import FogNet.Proofs.Machine.Commands
import FogNet.Proofs.Machine.Effects
import FogNet.Proofs.Machine.Gateways
import FogNet.Proofs.Machine.Launches
import FogNet.Proofs.Machine.Lines
import FogNet.Proofs.Machine.Messages
import FogNet.Proofs.Machine.Notices
import FogNet.Proofs.Machine.Progress
import FogNet.Proofs.Machine.Requests
import FogNet.Proofs.Machine.Rounds
import FogNet.Proofs.Machine.Submissions
import FogNet.Proofs.Placement.Alone
import FogNet.Proofs.Placement.Answers
import FogNet.Proofs.Placement.Balance
import FogNet.Proofs.Placement.Batch
import FogNet.Proofs.Placement.Clients
import FogNet.Proofs.Placement.Closure
import FogNet.Proofs.Placement.Demands
import FogNet.Proofs.Placement.Dependants
import FogNet.Proofs.Placement.Foremost
import FogNet.Proofs.Placement.Hauls
import FogNet.Proofs.Placement.Hosts
import FogNet.Proofs.Placement.Moments
import FogNet.Proofs.Placement.Needs
import FogNet.Proofs.Placement.Outcome
import FogNet.Proofs.Placement.Settlement
import FogNet.Proofs.Placement.Shifts
import FogNet.Proofs.Placement.Slots
import FogNet.Proofs.Placement.Upward
import FogNet.Proofs.Placement.Whereabouts
import FogNet.Proofs.Scenario.Demo
import FogNet.Proofs.Scenario.Setup
import FogNet.Proofs.Simulation.Agenda
import FogNet.Proofs.Simulation.Attachment
import FogNet.Proofs.Simulation.Calls
import FogNet.Proofs.Simulation.Capacity
import FogNet.Proofs.Simulation.Decisions
import FogNet.Proofs.Simulation.Directories
import FogNet.Proofs.Simulation.Endings
import FogNet.Proofs.Simulation.History
import FogNet.Proofs.Simulation.Instances
import FogNet.Proofs.Simulation.Instant
import FogNet.Proofs.Simulation.Journeys
import FogNet.Proofs.Simulation.Links
import FogNet.Proofs.Simulation.Loads
import FogNet.Proofs.Simulation.Loops
import FogNet.Proofs.Simulation.Measurements
import FogNet.Proofs.Simulation.Messages
import FogNet.Proofs.Simulation.Periods
import FogNet.Proofs.Simulation.Range
import FogNet.Proofs.Simulation.Replies
import FogNet.Proofs.Simulation.Reseeding
import FogNet.Proofs.Simulation.Resolution
import FogNet.Proofs.Simulation.Roots
import FogNet.Proofs.Simulation.Runs
import FogNet.Proofs.Simulation.Samples
import FogNet.Proofs.Simulation.Scheduling
import FogNet.Proofs.Simulation.Slices
import FogNet.Proofs.Simulation.Tally
import FogNet.Proofs.Simulation.Timers
import FogNet.Proofs.Simulation.Tracking
import FogNet.Proofs.Simulation.Transmissions
import FogNet.Proofs.Topology.Adjacency
import FogNet.Proofs.Topology.Ancestors
import FogNet.Proofs.Topology.Declaration
import FogNet.Proofs.Topology.DepthFirst
import FogNet.Proofs.Topology.Distance
import FogNet.Proofs.Topology.Forest
import FogNet.Proofs.Topology.LeafPaths
import FogNet.Proofs.Topology.Leaves
import FogNet.Proofs.Topology.Nearest
import FogNet.Proofs.Topology.Path
import FogNet.Proofs.Topology.PathOrder
import FogNet.Proofs.Topology.Reach
import FogNet.Proofs.Topology.Relaxation
import FogNet.Proofs.Topology.TopDown
import FogNet.Proofs.Topology.Validity
import FogNet.Random
import FogNet.Remaining
import FogNet.Report
import FogNet.Scenario.Basic
import FogNet.Scenario.Demo
import FogNet.Scenario.Document
import FogNet.Simulation.Basic
import FogNet.Simulation.Perform
import FogNet.Simulation.Queue
import FogNet.Simulation.Run
import FogNet.Simulation.Statistics
import FogNet.SortedMap
import FogNet.Toml.Date
import FogNet.Toml.Decode
import FogNet.Toml.Document
import FogNet.Toml.Node
import FogNet.Toml.Number
import FogNet.Toml.Scan
import FogNet.Topology.Basic
import FogNet.Topology.Device
import FogNet.Topology.Domain
import FogNet.Topology.Layout
import FogNet.Topology.Route
import FogNet.Word
