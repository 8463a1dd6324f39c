import Kahawai.Lib.Table
import Kahawai.Lib.Admission
import Kahawai.Lib.Replica
import Kahawai.Core.Text
import Kahawai.Core.Names
import Kahawai.Core.Episodes
import Kahawai.Proto
import Kahawai.MediaDb.Types
import Kahawai.MediaDb.Occurrence
import Kahawai.MediaDb.Parts
import Kahawai.MediaDb.Stored
import Kahawai.MediaDb.Slots
import Kahawai.Mediahost.Catalog.State
import Kahawai.Mediahost.Scheduler.State
import Kahawai.Mediahost.Scheduler.Effect
import Kahawai.Mediahost.Scheduler.Capacity
import Kahawai.Mediahost.Scheduler.Priority
import Kahawai.Mediahost.Scheduler.Preemption
import Kahawai.Mediahost.Scheduler.Fairness
import Kahawai.Mediahost.Scheduler.WaitBlocking
import Kahawai.Mediahost.Catalog.Effect
import Kahawai.Mediahost.Catalog.Step
import Kahawai.Mediahost.Catalog.Log
import Kahawai.Lib.Paging
import Kahawai.Mediahost.Catalog.Delta
import Kahawai.Mediahost.Catalog.Revision
import Kahawai.Mediahost.Catalog.Claims
import Kahawai.Hub.Leases.State
import Kahawai.Hub.Leases.Answer
import Kahawai.Hub.Leases.Invariant
import Kahawai.Hub.Leases.Exact
import Kahawai.Hub.Sessions.Admission
import Kahawai.Hub.Sessions.Seek
import Kahawai.Transcoder.Runner
import Kahawai.Transcoder.Supersede
import Kahawai.Hub.Sessions.Artifact
import Kahawai.Hub.Sessions.Slots
import Kahawai.Hub.Sessions.Dispatch.State
import Kahawai.Hub.Sessions.Dispatch.Invariant
import Kahawai.Hub.Sessions.Dispatch.Attempts
import Kahawai.Core.Media
import Kahawai.Media.Remux
import Kahawai.Media.Negotiate
import Kahawai.Media.Negotiate.Encodes
import Kahawai.Hub.Registry
import Kahawai.Hub.Sessions.Negotiation
import Kahawai.Lib.Programs
import Kahawai.Lib.Transactions
import Kahawai.Lib.Mirror
import Kahawai.Lib.Interactions
import Kahawai.Sqlite.Writer
import Kahawai.Sqlite.Lease
import Kahawai.Sqlite.Handoff
import Kahawai.Sqlite.Queue
import Kahawai.Sqlite.Nested
import Kahawai.Lib.Stable
import Kahawai.Media.Subindex.Ebml
import Kahawai.Media.Subindex.Reader
import Kahawai.Media.Subindex.Index
import Kahawai.Media.Subindex.Walk
import Kahawai.Media.Subindex.Extract
import Kahawai.Media.Subindex.Quiet
import Kahawai.Media.Subindex.Layout
import Kahawai.Media.Subindex.Headers
import Kahawai.Media.Subindex.FirstCluster
import Kahawai.Media.Subindex.Assembly
import Kahawai.Media.Subindex.Cues
import Kahawai.Mediahost.Ed2k
import Kahawai.Mediahost.Subtitles
import Kahawai.Hub.Auth.Families
import Kahawai.Hub.Auth.Reset
import Kahawai.Hub.Auth.Accounts
import Kahawai.Hub.DisplaySets
import Kahawai.Hub.Allowlist.State
import Kahawai.Hub.Allowlist.Exact
import Kahawai.Hub.TranscoderLink
import Kahawai.Hub.SubtitleWork.Step
import Kahawai.Hub.SubtitleWork.Leases
import Kahawai.MediaDb.Enrichment.State
import Kahawai.MediaDb.Enrichment.Functions
import Kahawai.MediaDb.Enrichment.Edits
import Kahawai.MediaDb.Enrichment.Checks
import Kahawai.MediaDb.Enrichment.Changes
import Kahawai.MediaDb.Enrichment.Candidates
import Kahawai.MediaDb.Enrichment.Decisions
import Kahawai.MediaDb.Enrichment.Waiting
import Kahawai.Hub.Enrich
import Kahawai.MediaDb.Enrichment.Requests
import Kahawai.MediaDb.SubtitleJobs.State
import Kahawai.MediaDb.SubtitleJobs.Dispatch
import Kahawai.Web.Grants.Panel
import Kahawai.Lib.Tickets
import Kahawai.Web.Grants.Versions
import Kahawai.Web.Grants.Shows
import Kahawai.Web.Settings.Prefs
import Kahawai.Web.Settings.Page
import Kahawai.Web.Settings.Converges
import Kahawai.Web.Session.State
import Kahawai.Web.Session.Sound
import Kahawai.Hub.Secrets
import Kahawai.Media.Negotiate.Burns
import Kahawai.Media.Negotiate.Playable
import Kahawai.Media.Negotiate.Verdicts
import Kahawai.Media.Negotiate.Choice
import Kahawai.Media.Negotiate.Limits
import Kahawai.Lib.Packing
import Kahawai.Media.Negotiate.Durations
import Kahawai.Media.Negotiate.Forced
import Kahawai.Lib.SortedMap
import Kahawai.Lib.Intervals
import Kahawai.MediaDb.Children.State
import Kahawai.MediaDb.Children.Listing
import Kahawai.MediaDb.Children.Pages
import Kahawai.MediaDb.Children.Ids
import Kahawai.Lib.Files
import Kahawai.Hub.Backup.State
import Kahawai.Hub.Backup.Staging
import Kahawai.Hub.Backup.Replacement
import Kahawai.Hub.Backup.Restore
import Kahawai.Hub.Backup.Rerun
import Kahawai.Hub.Backup.Snapshots
import Kahawai.Hub.Proxy
import Kahawai.Lib.Utf8
import Kahawai.Lib.Codec
import Kahawai.Media.Burnin.Sets
import Kahawai.Lib.Lexing
import Kahawai.Sqlite.Statements
import Kahawai.Lib.Schedule
import Kahawai.Media.VobsubFile
import Kahawai.Media.VobsubFile.Assembly
import Kahawai.Media.Burnin.Timeline
import Kahawai.Media.Burnin.Timeline
import Kahawai.Lib.Dedup
import Kahawai.Media.Subindex.Chapters
import Kahawai.Core.Decimal
import Kahawai.Core.Segments
import Kahawai.Core.Slices
import Kahawai.Core.Names.Slicing
import Kahawai.Core.Episodes.Slicing
import Kahawai.Core.Episodes.Fansub
import Kahawai.Core.Names.Revision
import Kahawai.Core.Episodes.Safety
import Kahawai.Lib.Probing
import Kahawai.Lib.Checked
import Kahawai.Lib.CommandLine
import Kahawai.Playback.Job
import Kahawai.Playback.Job
import Kahawai.Playback.Message
import Kahawai.Playback.Argv
import Kahawai.Playback.Travels
import Kahawai.Lib.RunTables
import Kahawai.Media.Subindex.Boxes
import Kahawai.Media.Subindex.SampleTable
import Kahawai.Media.Subindex.Samples
import Kahawai.Intro.BlackFrame
import Kahawai.Intro.Credits
import Kahawai.Intro.Credits
import Kahawai.Core.Episodes.Slicing
import Kahawai.Core.Episodes.Fansub
import Kahawai.Core.Names.Revision
import Kahawai.Core.Episodes.Safety
import Kahawai.Core.Episodes.Fansub
import Kahawai.Core.Episodes.Safety
import Kahawai.Media.ImageSubs.Vobsub
import Kahawai.Media.ImageSubs.Pgs
import Kahawai.Media.VobsubFile.Totality
import Kahawai.Media.ImageSubs.Totality
import Kahawai.Core.Lines
import Kahawai.Media.Subtitles.Clean
import Kahawai.Media.Subtitles.Vtt
import Kahawai.Media.Subtitles.VttRoundTrip
import Kahawai.Media.Subtitles.Shift
import Kahawai.Media.Subtitles.Script
import Kahawai.Media.Subtitles.ScriptRoundTrip
import Kahawai.Media.Subtitles.ScriptHeader
import Kahawai.Hub.Backup.DataDirs
import Kahawai.Hub.Backup.RoundTrip
import Kahawai.Hub.Backup.Exact
