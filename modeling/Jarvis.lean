import Jarvis.Lib.Steps
import Jarvis.Runtime.Rows
import Jarvis.Runtime.Ownership
import Jarvis.Runtime.Fencing
import Jarvis.Runtime.Recovery
import Jarvis.Runtime.Commands
import Jarvis.Runtime.Control
import Jarvis.Runtime.Cancellation
import Jarvis.Runtime.Interrupts
import Jarvis.Runtime.Effects
import Jarvis.Runtime.Dispatch
import Jarvis.Lib.Explore
import Jarvis.Lib.TopoSort
import Jarvis.Lib.Dict
import Jarvis.Lib.Keyed
import Jarvis.Lib.Json
import Jarvis.Workflows.Spec
import Jarvis.Workflows.State
import Jarvis.Workflows.Validation
import Jarvis.Workflows.ProtectedPaths
import Jarvis.Workflows.Compiler
import Jarvis.Workflows.Routing
import Jarvis.Workflows.Factories
import Jarvis.Workflows.Run
import Jarvis.Workflows.Regions
import Jarvis.Workflows.Supersteps
import Jarvis.Workflows.Trace
import Jarvis.Workflows.Evidence
import Jarvis.Workflows.Grants
import Jarvis.Workflows.Separation
import Jarvis.Workflows.Joins
import Jarvis.Lib.Decimal
import Jarvis.Missions.Resources
import Jarvis.Missions.Liability
import Jarvis.Missions.Controls
import Jarvis.Missions.Launch
import Jarvis.Missions.Manager
import Jarvis.Missions.Settle
import Jarvis.Missions.System
import Jarvis.Missions.Frames
import Jarvis.Missions.Identities
import Jarvis.Missions.Turns
import Jarvis.Missions.Reconcile
import Jarvis.Missions.Lifecycle
import Jarvis.Missions.Moves
import Jarvis.Missions.Acceptance
import Jarvis.Missions.Starts
import Jarvis.Missions.SingleRun
import Jarvis.Missions.Cancellation
import Jarvis.Missions.Wakeups
import Jarvis.Events.Log
import Jarvis.Events.Stream
import Jarvis.Events.Delivery
import Jarvis.Integration.Chain
import Jarvis.Integration.Integrator
import Jarvis.Integration.Blocking
import Jarvis.Missions.Concurrency
import Jarvis.Missions.TeamScopes
import Jarvis.Lib.Acyclic
import Jarvis.Missions.Dependencies
import Jarvis.Missions.Readiness
import Jarvis.Runtime.Resume
import Jarvis.Providers.Budget
import Jarvis.Providers.Runtime
import Jarvis.Providers.RunCap
import Jarvis.Missions.RunCalls
import Jarvis.Missions.InferenceCap
import Jarvis.Runtime.Ended
import Jarvis.Lib.Reduce
import Jarvis.Workflows.Reducers
import Jarvis.Workflows.Durable
import Jarvis.Workflows.Replay
import Jarvis.Workflows.Retries
import Jarvis.Workflows.RetryAccounts
import Jarvis.Workflows.RetryRuns
import Jarvis.Workflows.Failures
import Jarvis.Workflows.Continues
import Jarvis.Workers.Invocations
import Jarvis.Workers.Redispatch
import Jarvis.Repositories.Bindings
import Jarvis.Repositories.Scheduling
import Jarvis.Repositories.Composition
import Jarvis.Integration.Accepts
import Jarvis.Repositories.AcceptedHeads
import Jarvis.Events.Dedupe
import Jarvis.Lib.Greedy
import Jarvis.Workflows.TaskPlans
import Jarvis.Workflows.Iterators
import Jarvis.Workers.Capacity
import Jarvis.Workers.Exclusivity
import Jarvis.Workers.Leaks
import Jarvis.Integration.Reintegration
import Jarvis.Missions.Materialize
import Jarvis.Missions.Fairness
import Jarvis.Executors.Session
import Jarvis.Executors.Verification
import Jarvis.Executors.Workers
import Jarvis.Executors.Effects
import Jarvis.Executors.Nodes
import Jarvis.Executors.Service
import Jarvis.Executors.Authority
import Jarvis.Executors.Endings
import Jarvis.Providers.Circuit
import Jarvis.Providers.Estimates
import Jarvis.Providers.RoutePolicies
import Jarvis.Lib.Lines
import Jarvis.Lib.Utf8
import Jarvis.Runtime.CommandQueue
import Jarvis.Workers.Capture
import Jarvis.Workers.Collect
import Jarvis.Workers.Sentinel
import Jarvis.Events.Redaction
import Jarvis.Lib.JsonText
import Jarvis.Workflows.DepthGuard
import Jarvis.Auth.Login
import Jarvis.Lib.Levels
import Jarvis.Workflows.AcyclicNodes
import Jarvis.Lib.Contract
import Jarvis.Lib.Model
import Jarvis.Workflows.Contracts
import Jarvis.Workflows.Documents
import Jarvis.Workflows.Normalization
import Jarvis.Workflows.Views
import Jarvis.Workflows.Verdicts
import Jarvis.Lib.Collect
import Jarvis.Workflows.Resolution
import Jarvis.Workflows.Publication
import Jarvis.Lib.Once
import Jarvis.Workflows.Templates
import Jarvis.Workflows.TemplateRuns
import Jarvis.Auth.Sessions
import Jarvis.Lib.Checks
import Jarvis.Registry.Contracts
import Jarvis.Registry.Service
import Jarvis.Registry.Compatible
import Jarvis.Registry.Runs
