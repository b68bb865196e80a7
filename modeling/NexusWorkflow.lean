import NexusWorkflow.Lib.Checked
import NexusWorkflow.Lib.Interleaving
import NexusWorkflow.Model.Gateways
import NexusWorkflow.Model.Context
import NexusWorkflow.Model.Engine
import NexusWorkflow.Model.Store
import NexusWorkflow.Model.Persist
import NexusWorkflow.Model.Levels
import NexusWorkflow.Model.Parser
import NexusWorkflow.Model.Http
import NexusWorkflow.Model.Jobs
import NexusWorkflow.Model.Tenant
import NexusWorkflow.Game.Pool
import NexusWorkflow.Game.Spawning
import NexusWorkflow.Game.Play
import NexusWorkflow.Game.Helpers
import NexusWorkflow.Game.TurnRefinement
import NexusWorkflow.Game.CommandRefinement
import NexusWorkflow.Game.Frame
import NexusWorkflow.Game.Coherence
import NexusWorkflow.Game.Touch
import NexusWorkflow.Game.Effects
import NexusWorkflow.Game.HandlerEffects
import NexusWorkflow.Game.Ownership
import NexusWorkflow.Game.Acts
import NexusWorkflow.Game.Resumption
import NexusWorkflow.Game.Birth
import NexusWorkflow.Game.Fate
import NexusWorkflow.Game.Reports
import NexusWorkflow.Store.Tables
import NexusWorkflow.Store.Diff
import NexusWorkflow.Store.RoundTrip
import NexusWorkflow.Store.Requests
import NexusWorkflow.Run.Run
import NexusWorkflow.Run.Filing
import NexusWorkflow.Run.Reach
import NexusWorkflow.Run.Replay
import NexusWorkflow.Run.Diagram
import NexusWorkflow.Run.Alerts
import NexusWorkflow.Proof.ParallelJoin
import NexusWorkflow.Proof.TerminalSafety
import NexusWorkflow.Proof.Finality
import NexusWorkflow.Proof.Containment
import NexusWorkflow.Proof.Hosts
import NexusWorkflow.Proof.Liveness
import NexusWorkflow.Proof.Discipline
import NexusWorkflow.Proof.Serial
import NexusWorkflow.Proof.Writers
import NexusWorkflow.Proof.RoundTrip
import NexusWorkflow.Proof.Subscriptions
import NexusWorkflow.Proof.UserTasks
import NexusWorkflow.Proof.Suspension
import NexusWorkflow.Proof.RunLoop
import NexusWorkflow.Proof.Race
import NexusWorkflow.Proof.History
import NexusWorkflow.Proof.Announcements
import NexusWorkflow.Proof.Deployment
import NexusWorkflow.Proof.FlowRelation
import NexusWorkflow.Proof.FinalStatus
import NexusWorkflow.Proof.ServiceKeys
import NexusWorkflow.Proof.Onward
import NexusWorkflow.Proof.JobCommits
import NexusWorkflow.Proof.TaskStates
import NexusWorkflow.Proof.OneAdvance
import NexusWorkflow.Proof.Pinning
import NexusWorkflow.Proof.Messages
import NexusWorkflow.Proof.Signals
import NexusWorkflow.Lib.Processes
import NexusWorkflow.Model.Throttle
import NexusWorkflow.Model.People
import NexusWorkflow.Model.UserAdmin
import NexusWorkflow.Model.SignIn
import NexusWorkflow.Proof.Escalation
import NexusWorkflow.Proof.LastAdmin
import NexusWorkflow.Proof.Revocation
import NexusWorkflow.Proof.Invites
import NexusWorkflow.Proof.Throttle
import NexusWorkflow.Proof.Admission
import NexusWorkflow.Model.Tenants
import NexusWorkflow.Proof.Deletion
import NexusWorkflow.Model.Workers
import NexusWorkflow.Proof.WorkerSets
import NexusWorkflow.Model.Webhooks
import NexusWorkflow.Proof.WebhookTargets
import NexusWorkflow.Lib.Interference
import NexusWorkflow.Model.Migrations
import NexusWorkflow.Proof.Convergence
import NexusWorkflow.Proof.Compensation
import NexusWorkflow.Model.Scheduling
import NexusWorkflow.Proof.SchedulerLifecycle
import NexusWorkflow.Lib.Machines
import NexusWorkflow.Model.StreamConsumer
import NexusWorkflow.Proof.Redelivery
import NexusWorkflow.Lib.Indexed
import NexusWorkflow.Model.Organizations
import NexusWorkflow.Proof.Decisions
import NexusWorkflow.Lib.Text
import NexusWorkflow.Lib.Utf16
import NexusWorkflow.Lib.Base64
import NexusWorkflow.Lib.Double
import NexusWorkflow.Model.ClientAddress
import NexusWorkflow.Proof.ClientAddress
import NexusWorkflow.Model.TaskWorker
import NexusWorkflow.Proof.Attempts
import NexusWorkflow.Model.ResourceCache
import NexusWorkflow.Proof.ResourceCache
import NexusWorkflow.Model.InMemoryScheduler
import NexusWorkflow.Proof.Timeouts
import NexusWorkflow.Model.Receipts
import NexusWorkflow.Proof.Receipts
import NexusWorkflow.Model.PasswordHasher
import NexusWorkflow.Proof.Passwords
import NexusWorkflow.Model.Creation
import NexusWorkflow.Proof.Creation
import NexusWorkflow.Model.TimerExpression
import NexusWorkflow.Proof.TimerExpressions
import NexusWorkflow.Model.EventHub
import NexusWorkflow.Proof.Delivery
import NexusWorkflow.Lib.Sections
import NexusWorkflow.Model.Documents
import NexusWorkflow.Proof.Submission
import NexusWorkflow.Lib.Replica
import NexusWorkflow.Proof.Changes
import NexusWorkflow.Proof.Agreement
import NexusWorkflow.Lib.Ancestry
import NexusWorkflow.Game.Nesting
import NexusWorkflow.Model.Scopes
import NexusWorkflow.Proof.Scopes
import NexusWorkflow.Lib.Shares
import NexusWorkflow.Store.Shares
import NexusWorkflow.Proof.Isolation
import NexusWorkflow.Lib.Like
import NexusWorkflow.Lib.Pages
import NexusWorkflow.Model.Audit
import NexusWorkflow.Proof.Audit
import NexusWorkflow.Model.TenantCounts
import NexusWorkflow.Proof.TenantCounts
