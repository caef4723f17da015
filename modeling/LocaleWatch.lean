import LocaleWatch.Cache.Category
import LocaleWatch.Cache.Error
import LocaleWatch.Cache.Folder
import LocaleWatch.Cache.Keyed
import LocaleWatch.Cache.Store
import LocaleWatch.CommandLine.Arguments
import LocaleWatch.CommandLine.Commands
import LocaleWatch.Commit
import LocaleWatch.Commit.Line
import LocaleWatch.Digest
import LocaleWatch.Fault
import LocaleWatch.FileTree
import LocaleWatch.FileTree.Access
import LocaleWatch.Git.Command
import LocaleWatch.Git.Library
import LocaleWatch.Git.Opening
import LocaleWatch.Git.RefName
import LocaleWatch.Git.Reference
import LocaleWatch.Git.Repository
import LocaleWatch.Git.Settings
import LocaleWatch.Git.Tracking
import LocaleWatch.History.Branches
import LocaleWatch.History.Error
import LocaleWatch.History.Files
import LocaleWatch.History.MainBranch
import LocaleWatch.History.Starts
import LocaleWatch.Host
import LocaleWatch.Json.Form
import LocaleWatch.Json.Lexer
import LocaleWatch.Json.Printer
import LocaleWatch.Json.Reader
import LocaleWatch.Json.Value
import LocaleWatch.Language
import LocaleWatch.Layout
import LocaleWatch.Listing
import LocaleWatch.LocalizedFile
import LocaleWatch.Lock
import LocaleWatch.Main
import LocaleWatch.Path
import LocaleWatch.Program
import LocaleWatch.Proofs.Json.Reading
import LocaleWatch.Refresh
import LocaleWatch.Refresh.State
import LocaleWatch.Rehearsal.Machine
import LocaleWatch.Rehearsal.Session
import LocaleWatch.Rehearsal.Tables
import LocaleWatch.Rehearsal.WorkingCopy
import LocaleWatch.Replacement
import LocaleWatch.Report
import LocaleWatch.Repository.Error
import LocaleWatch.Repository.Query
import LocaleWatch.Staleness
import LocaleWatch.Text.Blank
import LocaleWatch.Text.Quoted
import LocaleWatch.Text.Sorted
import LocaleWatch.Text.Split
import LocaleWatch.Text.Unseen
import LocaleWatch.Text.Utf8
import LocaleWatch.Tracking
import LocaleWatch.Watch
import LocaleWatch.Watch.Queue
import LocaleWatch.Watch.Run
import LocaleWatch.Proofs.Json.Faithful
import LocaleWatch.Proofs.Program.Triple
import LocaleWatch.Proofs.Surroundings
import LocaleWatch.Proofs.Cache.Keyed
import LocaleWatch.Proofs.Calls
import LocaleWatch.Proofs.History.Files
import LocaleWatch.Proofs.History.Branches
import LocaleWatch.Proofs.Refresh.Phases
import LocaleWatch.Proofs.Refresh.FileAnswers
import LocaleWatch.Proofs.Calm
import LocaleWatch.Proofs.Refresh.MainBranch
import LocaleWatch.Proofs.Refresh.Gathering
import LocaleWatch.Proofs.Refresh.ChangedFiles
import LocaleWatch.Proofs.History.Coherence
import LocaleWatch.Proofs.History.Lookups
import LocaleWatch.Proofs.Refresh.Failure
import LocaleWatch.Proofs.Staleness.Direct
import LocaleWatch.Proofs.Staleness.Repeated
import LocaleWatch.Proofs.Staleness.Contained
import LocaleWatch.Proofs.Refresh.Growth
import LocaleWatch.Proofs.Refresh.ForkCommits
import LocaleWatch.Proofs.Refresh.MergeCommits
import LocaleWatch.Proofs.Program.Transcript
import LocaleWatch.Proofs.Events
import LocaleWatch.Proofs.Cache.Memo
import LocaleWatch.Proofs.Refresh.Events
import LocaleWatch.Proofs.Refresh.Order
import LocaleWatch.Proofs.Refresh.Effect
import LocaleWatch.Proofs.Cancellation.Heeding
import LocaleWatch.Proofs.Cancellation.Halting
import LocaleWatch.Proofs.Cancellation.Git
import LocaleWatch.Proofs.Cancellation.Moments
import LocaleWatch.Proofs.History.Permanence
import LocaleWatch.Proofs.History.Names
import LocaleWatch.Proofs.History.Retained
import LocaleWatch.Proofs.Files.Endings
import LocaleWatch.Proofs.Files.Names
import LocaleWatch.Proofs.Files.Disk
import LocaleWatch.Proofs.Files.Tree
import LocaleWatch.Proofs.Files.Machine
import LocaleWatch.Proofs.Files.Attempts
import LocaleWatch.Proofs.Files.Replacement
import LocaleWatch.Proofs.Cache.StoreCalls
import LocaleWatch.Proofs.Cache.OnDisk
import LocaleWatch.Proofs.Program.Contract
import LocaleWatch.Proofs.Cache.Readable
import LocaleWatch.Proofs.Git.Arguments
import LocaleWatch.Proofs.Git.Ranges
import LocaleWatch.Proofs.Git.References
import LocaleWatch.Proofs.Cache.ReadableFiles
import LocaleWatch.Proofs.Git.Runs
import LocaleWatch.Proofs.Git.Outcomes
import LocaleWatch.Proofs.Files.TextPaths
import LocaleWatch.Proofs.Files.ByteOrder
import LocaleWatch.Proofs.Git.Trees
import LocaleWatch.Proofs.Git.QuotedNames
import LocaleWatch.Proofs.Staleness.Inside
import LocaleWatch.Proofs.Git.Listings
import LocaleWatch.Proofs.Json.Kept
import LocaleWatch.Proofs.Watch.Queue
import LocaleWatch.Proofs.Program.Runs
import LocaleWatch.Proofs.Cache.Confined
import LocaleWatch.Proofs.Watch.Reports
import LocaleWatch.Proofs.History.Attribution
import LocaleWatch.Proofs.Refresh.Prediction
import LocaleWatch.Proofs.History.StartPoints
import LocaleWatch.Proofs.Files.Keys
import LocaleWatch.Proofs.History.SharedEntries
import LocaleWatch.Proofs.Staleness.Keys
import LocaleWatch.Proofs.Git.Walks
