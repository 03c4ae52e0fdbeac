import RiskApp.Server.Applied
import RiskApp.Server.Engine
import RiskApp.Server.Atomicity
import RiskApp.Server.ExactlyOnce
import RiskApp.Lib.Window
import RiskApp.Server.Feed
import RiskApp.Client.Pull
import RiskApp.Server.Rest
import RiskApp.Server.Transactions
import RiskApp.Server.ChangeFeed
import RiskApp.Server.Versions
import RiskApp.Client.Conversions
import RiskApp.Client.Outbox
import RiskApp.Client.ServerState
import RiskApp.Client.SentCreate
import RiskApp.Auth.Tokens
import RiskApp.Auth.Sessions
import RiskApp.Auth.Chains
import RiskApp.Auth.Families
import RiskApp.Auth.Rotation
import RiskApp.Auth.Passwords
import RiskApp.Server.Deletion
import RiskApp.Server.Session
import RiskApp.Server.Batching
import RiskApp.Client.Device
import RiskApp.Client.Conflicts
import RiskApp.Client.Cache
import RiskApp.Client.Exchange
import RiskApp.Client.Projection
import RiskApp.Client.UnitsOfWork
import RiskApp.Client.PullEffects
import RiskApp.Client.Acknowledgement
import RiskApp.Client.Superseded
import RiskApp.Client.Reflections
import RiskApp.Server.Scope
import RiskApp.Server.Reachable
import RiskApp.Server.Isolation
import RiskApp.Server.Serialize
import RiskApp.Client.Merge
import RiskApp.Client.MergeForms
import RiskApp.Server.Members
import RiskApp.Lib.Digits
import RiskApp.Server.Backfill
import RiskApp.Server.Written
import RiskApp.Server.Permanent
import RiskApp.Client.Receive
import RiskApp.Server.PushRoute
import RiskApp.Client.Push
import RiskApp.Client.PushBlocks
import RiskApp.Server.Assessing
import RiskApp.Client.OneAssessment
import RiskApp.Client.AssessmentRuns
import RiskApp.Client.WriteBlocks
import RiskApp.Client.Projects
import RiskApp.Client.ConflictCenter
import RiskApp.Client.Codes
import RiskApp.Server.Edits
import RiskApp.Server.Scores
import RiskApp.Server.Statuses
import RiskApp.Server.Auditing
import RiskApp.Lib.Patterns
import RiskApp.Lib.Tally
import RiskApp.Server.Reports
import RiskApp.Client.Reports
import RiskApp.Lib.Labels
import RiskApp.Client.CodeIndex
import RiskApp.Client.Reconciliation
import RiskApp.Server.RateLimit
import RiskApp.Auth.FamilySearch
import RiskApp.Client.AutomaticSync
import RiskApp.Server.Moments
import RiskApp.Client.Timestamps
import RiskApp.Client.SchemaMigration
import RiskApp.Lib.Interleaving
import RiskApp.Client.FacadeWrites
import RiskApp.Server.PayloadHashes
import RiskApp.Client.Payloads
import RiskApp.Client.Answers
import RiskApp.Client.Watermark
import RiskApp.Client.Replica
import RiskApp.Auth.Holders
import RiskApp.Client.ApiSession
import RiskApp.Client.BackgroundJobs
import RiskApp.Auth.ResetTokens
import RiskApp.Lib.Proc
import RiskApp.Server.Middleware
import RiskApp.Lib.Top
import RiskApp.Server.Snapshots
import RiskApp.Server.Matrix
import RiskApp.Lib.Disk
import RiskApp.Server.Backups
import RiskApp.Server.Staging
import RiskApp.Server.Publications
import RiskApp.Server.Restores
import RiskApp.Client.ProjectLists
import RiskApp.Client.Sidebar
import RiskApp.Client.AutomaticPass
import RiskApp.Lib.Csv
import RiskApp.CsvExport
import RiskApp.Server.Retention
