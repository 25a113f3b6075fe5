import Regenic.Lib.Run
import Regenic.Lib.Table
import Regenic.Lib.Text
import Regenic.Sync.Contracts
import Regenic.Sync.Catalog
import Regenic.Sync.Planner
import Regenic.Sync.SqliteStore
import Regenic.Sync.MemoryStore
import Regenic.Sync.WorkSteps
import Regenic.Sync.MemorySteps
import Regenic.Sync.SqliteSteps
import Regenic.Sync.Ownership
import Regenic.Sync.Books
import Regenic.Sync.SqliteBooks
import Regenic.Sync.MemoryBooks
import Regenic.Sync.Accounting
import Regenic.Sync.Gaps
import Regenic.Sync.Owing
import Regenic.Sync.PhaseWrite
import Regenic.Ingest.Contracts
import Regenic.Sync.Phase
import Regenic.Sync.Poll
import Regenic.Sync.PhaseSafety
import Regenic.Ingest.Events
import Regenic.Sync.Lease
import Regenic.Sync.CursorSafety
import Regenic.Lib.Json
import Regenic.Lib.Utf8
import Regenic.Ingest.Content
import Regenic.Lib.Prog
import Regenic.Ingest.Service
import Regenic.Ingest.Reads
import Regenic.Sync.Naming
import Regenic.Sync.Release
import Regenic.Sync.DueIds
import Regenic.Lib.Pool
import Regenic.Reply.Attempts
import Regenic.Reply.Service
import Regenic.Reply.Protocol
import Regenic.Reply.Once
import Regenic.Work.Delivery
import Regenic.Work.Store
import Regenic.Work.Calls
import Regenic.Work.Flush
import Regenic.Work.Supervise
import Regenic.Work.Dispatch
import Regenic.Work.Service
import Regenic.Lib.History
import Regenic.Work.Discipline
import Regenic.Work.FlushDiscipline
import Regenic.Work.RunDiscipline
import Regenic.Work.ServiceDiscipline
import Regenic.Work.Effects
import Regenic.Work.SentOnce
import Regenic.Work.Acknowledged
import Regenic.Work.OneRun
import Regenic.Work.Capacity
import Regenic.Work.Dismissal
import Regenic.Ingest.Decisions
import Regenic.Ingest.Writes
import Regenic.Ingest.Deletion
import Regenic.Ingest.Calls
import Regenic.Ingest.Clients
import Regenic.Ingest.LostDelete
import Regenic.Lib.JsonText
import Regenic.Recipes.Contracts
import Regenic.Recipes.Normalize
import Regenic.Recipes.Store
import Regenic.Recipes.Columns
import Regenic.Recipes.Faithful
import Regenic.Recipes.Calls
import Regenic.Recipes.Pulls
import Regenic.Recipes.Edits
import Regenic.Recipes.LostEdits
import Regenic.Customer.Calls
import Regenic.Customer.Context
import Regenic.Customer.Drafts
import Regenic.Customer.Sending
import Regenic.Reply.Handed
import Regenic.Customer.Discipline
import Regenic.Customer.Requests
import Regenic.Customer.Books
import Regenic.Customer.Approved
import Regenic.Customer.LostPage
import Regenic.Customer.SentText
import Regenic.Customer.OldText
import Regenic.Embedding.Contracts
import Regenic.Ingest.AliasDelete
import Regenic.Inbox.Faces
import Regenic.Inbox.Folds
import Regenic.Lib.Checked
import Regenic.Standards.Contracts
import Regenic.Standards.Store
import Regenic.Standards.Writes
import Regenic.Standards.Line
import Regenic.Standards.Accountable
import Regenic.Feishu.Contracts
import Regenic.Feishu.Cursor
import Regenic.Feishu.MediaJobs
import Regenic.Feishu.Connector
import Regenic.Feishu.Attachments
import Regenic.Standards.Line
import Regenic.Feishu.Survival
import Regenic.Feishu.LiveWalk
import Regenic.Feishu.NoGap
import Regenic.Feishu.LiveGap
import Regenic.Context.AuthorityRead
import Regenic.Context.Lifecycle
import Regenic.Context.Retrieval
import Regenic.Context.Order
import Regenic.Context.Valid
import Regenic.Context.Selection
import Regenic.Context.TimeTravel
import Regenic.Context.Scoped
import Regenic.Sync.Census
import Regenic.Recipes.Selection
import Regenic.Sync.Slots
import Regenic.Work.Due
import Regenic.Ingest.Canonical
import Regenic.Ingest.Compaction
import Regenic.Ingest.CompactedParts
import Regenic.Lib.Zone
import Regenic.Recipes.LocalDays
import Regenic.Recipes.OncePerDay
import Regenic.Context.Budget
import Regenic.Lib.Greedy
import Regenic.Context.BudgetSound
import Regenic.Context.Replay
import Regenic.Customer.Threads
import Regenic.Customer.Windows
import Regenic.Customer.Reading
import Regenic.Customer.Continued
import Regenic.Customer.ReadThrough
import Regenic.Customer.Search
import Regenic.Customer.SearchAndRead
import Regenic.Desktop.InboxItem
import Regenic.Desktop.InboxReuse
import Regenic.Desktop.MessageWindow
import Regenic.Context.ArtifactDecoded
import Regenic.Context.ArtifactHistory
import Regenic.Context.ArtifactsLossless
import Regenic.Context.DiffExplained
import Regenic.Context.DigestDays
import Regenic.Context.Material
import Regenic.Context.Spans
import Regenic.Desktop.InboxListStore
import Regenic.Desktop.KeptHistory
import Regenic.Context.CanonicalValue
import Regenic.Context.RequestHash
import Regenic.Context.RequestsTold
import Regenic.Embedding.Searches
import Regenic.Embedding.Workers
