import ScopedState.Backing
import ScopedState.Backing.Faulty
import ScopedState.Backing.LocalFiles
import ScopedState.Backing.Memory
import ScopedState.Bindings
import ScopedState.Change
import ScopedState.Command
import ScopedState.CommandLine
import ScopedState.Component
import ScopedState.Decimal.Binary64
import ScopedState.Decimal.Shortest
import ScopedState.Digest
import ScopedState.Digest.Blake3
import ScopedState.Disk
import ScopedState.Failure
import ScopedState.Feed.Event
import ScopedState.Feed.Queue
import ScopedState.Feed.Tracker
import ScopedState.Json.Number
import ScopedState.Json.Reader
import ScopedState.Json.Value
import ScopedState.Json.Writer
import ScopedState.Log
import ScopedState.Macros
import ScopedState.Main
import ScopedState.Manifest
import ScopedState.Path
import ScopedState.Phase
import ScopedState.Pool
import ScopedState.Project
import ScopedState.Report
import ScopedState.Scope
import ScopedState.Session.Participant
import ScopedState.Session.Scope
import ScopedState.Session.Scripted
import ScopedState.Session.Tree
import ScopedState.Settings
import ScopedState.Storage
import ScopedState.Text.Blank
import ScopedState.Text.Emoji
import ScopedState.Text.Marks
import ScopedState.Text.Quoted
import ScopedState.Text.Ranges
import ScopedState.Text.Unassigned
import ScopedState.Text.Utf8
import ScopedState.Text.Width
import ScopedState.Toml.Reader
import ScopedState.Toml.Record
import ScopedState.Toml.Scalar
import ScopedState.Toml.Value
import ScopedState.Toml.Writer
import ScopedState.Vault
import ScopedState.Workspace
import ScopedState.Proofs.Backing
import ScopedState.Proofs.Backing.Atomic
import ScopedState.Proofs.Backing.Contract
import ScopedState.Proofs.Backing.Shelf
import ScopedState.Proofs.Bindings
import ScopedState.Proofs.Decimal.Rounding
import ScopedState.Proofs.Decimal.Shortest
import ScopedState.Proofs.Disk
import ScopedState.Proofs.Feed
import ScopedState.Proofs.Feed.Due
import ScopedState.Proofs.Json.Doubles
import ScopedState.Proofs.Json.Equality
import ScopedState.Proofs.Json.Layout
import ScopedState.Proofs.Json.Reading
import ScopedState.Proofs.Json.Regular
import ScopedState.Proofs.Macros
import ScopedState.Proofs.Path
import ScopedState.Proofs.Relocation
import ScopedState.Proofs.Session.Analysis
import ScopedState.Proofs.Session.Calls
import ScopedState.Proofs.Session.Carried
import ScopedState.Proofs.Session.Commit
import ScopedState.Proofs.Session.Reports
import ScopedState.Proofs.Storage.Coherence
import ScopedState.Proofs.Storage.Decoded
import ScopedState.Proofs.Storage.Document
import ScopedState.Proofs.Storage.Draft
import ScopedState.Proofs.Storage.Entry
import ScopedState.Proofs.Storage.Files
import ScopedState.Proofs.Storage.Interleaving
import ScopedState.Proofs.Storage.Merging
import ScopedState.Proofs.Storage.Names
import ScopedState.Proofs.Storage.Return
import ScopedState.Proofs.Storage.Settling
import ScopedState.Proofs.Storage.Tracking
import ScopedState.Proofs.Utf8
import ScopedState.Proofs.Vault
import ScopedState.Proofs.Workspace.Action
import ScopedState.Proofs.Workspace.Again
import ScopedState.Proofs.Workspace.Carried
import ScopedState.Proofs.Workspace.Closed
import ScopedState.Proofs.Workspace.Coherent
import ScopedState.Proofs.Workspace.Commit
import ScopedState.Proofs.Workspace.Effect
import ScopedState.Proofs.Workspace.Entered
import ScopedState.Proofs.Workspace.Exact
import ScopedState.Proofs.Workspace.Failures
import ScopedState.Proofs.Workspace.Foreign
import ScopedState.Proofs.Workspace.Gate
import ScopedState.Proofs.Workspace.Holders
import ScopedState.Proofs.Workspace.Kept
import ScopedState.Proofs.Workspace.Layout
import ScopedState.Proofs.Workspace.MadeGood
import ScopedState.Proofs.Workspace.Opening
import ScopedState.Proofs.Workspace.OwnWrites
import ScopedState.Proofs.Workspace.Partial
import ScopedState.Proofs.Workspace.Pooled
import ScopedState.Proofs.Workspace.Protocol
import ScopedState.Proofs.Workspace.ReadOnly
import ScopedState.Proofs.Workspace.Reconciled
import ScopedState.Proofs.Workspace.Reload
import ScopedState.Proofs.Workspace.Reopen
import ScopedState.Proofs.Workspace.Save
import ScopedState.Proofs.Workspace.Sourced
import ScopedState.Proofs.Workspace.Touched
import ScopedState.Proofs.Settings
import ScopedState.Proofs.Project.Addressed
import ScopedState.Proofs.Project.Attributed
import ScopedState.Proofs.Project.Discovered
import ScopedState.Proofs.Project.Faithful
import ScopedState.Proofs.Project.JustOpened
import ScopedState.Proofs.Project.Opened
import ScopedState.Proofs.Project.Recorded
import ScopedState.Proofs.Project.Reopened
import ScopedState.Proofs.Project.Request
import ScopedState.Proofs.Project.Untouched
