import Sotto.Library.Prog
import Sotto.Library.RelyGuarantee
import Sotto.Library.Threads
import Sotto.Library.Table
import Sotto.Library.Transaction
import Sotto.Library.Changes
import Sotto.Library.Sessions
import Sotto.Library.Solo
import Sotto.Library.Recorded
import Sotto.Library.Checked
import Sotto.Library.Intervals
import Sotto.Library.SortBy
import Sotto.Library.Json
import Sotto.Library.Digits
import Sotto.Library.Text
import Sotto.Library.Numbers
import Sotto.Library.Shell
import Sotto.Library.Overriding
import Sotto.Library.Interleaved
import Sotto.Library.Radix64
import Sotto.Library.WebText
import Sotto.Library.Watching
import Sotto.Library.Contracts
import Sotto.Library.Announced
import Sotto.Library.Knowledge
import Sotto.Library.Amid
import Sotto.Core.Bytes
import Sotto.Core.Vault
import Sotto.Core.Format
import Sotto.Core.Places
import Sotto.Core.Knowledge
import Sotto.Api
import Sotto.Server.Db
import Sotto.Server.Sync
import Sotto.Server.Requests
import Sotto.Server.Effects
import Sotto.Server.Admission
import Sotto.Server.Service
import Sotto.Server.Guarded
import Sotto.Cli.Store
import Sotto.Cli.Vault
import Sotto.Cli.Device
import Sotto.Cli.Statements
import Sotto.Cli.Sync
import Sotto.Cli.Errors
import Sotto.System
import Sotto.Rules
import Sotto.Answers
import Sotto.Rounds.Edit
import Sotto.Cli.Commands
import Sotto.Cli.Merge
import Sotto.Cli.Edits
import Sotto.Cli.Writes
import Sotto.Rounds.Pull
import Sotto.Rounds.Push
import Sotto.Rounds.Rotate
import Sotto.Rounds.Action
import Sotto.Base.Undisturbed
import Sotto.Team
import Sotto.Properties.Versions
import Sotto.Properties.Environments
import Sotto.Server.Onward
import Sotto.Cli.Batch
import Sotto.Cli.Lookup
import Sotto.Cli.Session
import Sotto.Cli.Reset
import Sotto.Cli.Setup
import Sotto.Cli.Export
import Sotto.Cli.Dotenv
import Sotto.Cli.Theme
import Sotto.Cli.Copy
import Sotto.Cli.Entries
import Sotto.Cli.Guarded
import Sotto.Cli.Discretion
import Sotto.Cli.Contest
import Sotto.Hostile
import Sotto.Alone.Site
import Sotto.Alone.Requests
import Sotto.Alone.Pull
import Sotto.Base.Evolution
import Sotto.Base.Batch
import Sotto.Base.Rekey
import Sotto.Base.Sound
import Sotto.Base.Effects
import Sotto.Base.Edits
import Sotto.Base.Outline
import Sotto.Base.Holder
import Sotto.Base.Layer
import Sotto.Billing.Provider
import Sotto.Billing.Db
import Sotto.Billing.Webhook
import Sotto.Billing.Effects
import Sotto.Billing.Deletion
import Sotto.Billing.Worker
import Sotto.Billing.Writes
import Sotto.Billing.Operations
import Sotto.Billing.Phases
import Sotto.Billing.Signature
import Sotto.Properties.Agreement
import Sotto.Properties.Keyed
import Sotto.Properties.Healing
import Sotto.Properties.Coherence
import Sotto.Properties.History
import Sotto.Properties.Isolation
import Sotto.Properties.Names
import Sotto.Properties.Refusal
import Sotto.Properties.Rollback
import Sotto.Properties.Settable
import Sotto.Properties.Unedited
import Sotto.Properties.CompareAndSwap
import Sotto.Properties.Subscriptions
import Sotto.Properties.Ordering
import Sotto.Properties.Purge
import Sotto.Properties.Constraints
import Sotto.Properties.Paid
import Sotto.Properties.Reading
import Sotto.Properties.SessionSetup
import Sotto.Properties.AccountReset
import Sotto.Properties.FiniteMap
import Sotto.Org.Db
import Sotto.Org.Access
import Sotto.Org.Members
import Sotto.Org.Resources
import Sotto.Org.Accounts
import Sotto.Org.Deletion
import Sotto.Org.Requests
import Sotto.Org.Fits
import Sotto.Org.Steps
import Sotto.Org.Guards
import Sotto.Org.Chains
import Sotto.Org.Discipline
import Sotto.Org.Parts
import Sotto.Org.MemberSteps
import Sotto.Org.FoundingSteps
import Sotto.Org.ResourceSteps
import Sotto.Org.SharingSteps
import Sotto.Org.SecretSteps
import Sotto.Org.AccountSteps
import Sotto.Org.DeletionSteps
import Sotto.Org.PurgeSteps
import Sotto.Org.Runs
import Sotto.Properties.Membership
import Sotto.Properties.Auditing
import Sotto.Properties.Leases
import Sotto.Properties.Lifecycle
import Sotto.Properties.DeadEnds
import Sotto.Properties.Watermarks
import Sotto.Properties.Recovery
import Sotto.Auth.Db
import Sotto.Auth.Routes
import Sotto.Auth.Alone
import Sotto.Auth.Traces
import Sotto.Auth.Books
import Sotto.Properties.Login
import Sotto.Properties.LoginOrigin
import Sotto.Coverage.Facts
import Sotto.Coverage.Normal
import Sotto.Coverage.Meaning
import Sotto.Properties.Coverage
import Sotto.Coverage.Observations
import Sotto.Coverage.Store
import Sotto.Properties.Collections
import Sotto.Properties.KeyText
import Sotto.Properties.Typos
import Sotto.Properties.Rotation
import Sotto.Properties.Reconstruction
import Sotto.Coverage.Attempts
import Sotto.Coverage.Reconciliation
import Sotto.Properties.Stored
import Sotto.Org.Timestamp
import Sotto.Properties.Timestamps
import Sotto.Properties.Webhooks
import Sotto.Properties.Dotenv
import Sotto.Properties.Exports
import Sotto.Properties.Colors
import Sotto.Properties.Themes
import Sotto.Properties.Places
import Sotto.Properties.Copies
import Sotto.Coverage.Steps
import Sotto.Properties.Sources
import Sotto.Properties.Replay
import Sotto.Coverage.Publications
import Sotto.Properties.Revisions
import Sotto.Properties.Covering
import Sotto.Properties.Quotas
import Sotto.Share.Links
import Sotto.Properties.Shares
import Sotto.Share.Page
import Sotto.Properties.SharedSecrets
import Sotto.Properties.Retained
import Sotto.Properties.Tokened
import Sotto.Machine.Requests
import Sotto.Machine.Client
import Sotto.Properties.MachineReads
import Sotto.Properties.Machines
import Sotto.Properties.ZeroKnowledge
import Sotto.Properties.Rewrapping
import Sotto.Properties.Regranting
import Sotto.Properties.Unpushed
