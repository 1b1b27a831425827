import Squrust.Foundation.Outcome
import Squrust.Foundation.Bytes
import Squrust.Foundation.SortedEntries
import Squrust.Foundation.FiniteMap
import Squrust.Foundation.Ownership
import Squrust.Foundation.Spans
import Squrust.Foundation.MachineIntegers
import Squrust.Core.Varint
import Squrust.Core.Page
import Squrust.Core.BTree.Node
import Squrust.Core.BTree.NodeCodec
import Squrust.Core.BTree.CellBounds
import Squrust.Core.BTree.Split
import Squrust.Core.BTree.Tree
import Squrust.Core.BTree.Audit
import Squrust.Core.BTree.MapSink
import Squrust.Core.BTree.Overflow
import Squrust.Core.BTree.Subtree
import Squrust.Core.BTree.Descent
import Squrust.Core.BTree.Insert
import Squrust.Core.BTree.Delete
import Squrust.Core.BTree.Lookup
import Squrust.Core.BTree.RowMap
import Squrust.Core.BTree.MemStore
import Squrust.Core.BTree.PageLayout
import Squrust.Core.BTree.LastKey
import Squrust.Core.Disk
import Squrust.Core.Wal.Frame
import Squrust.Core.Wal.Log
import Squrust.Core.Mvcc
import Squrust.Core.Storage.Cache
import Squrust.Core.Storage.Checkpoint
import Squrust.Core.Storage.Crash
import Squrust.Core.Storage.Interleaving
import Squrust.Core.Wal.FailedAppend
import Squrust.Core.Wal.Corruption
import Squrust.Async.Migrate
import Squrust.Core.Storage.Lifetimes
import Squrust.Ffi.Nesting
import Squrust.Foundation.ExactIntegers
import Squrust.Foundation.Pull
import Squrust.Foundation.StableSort
import Squrust.Foundation.Utf8
import Squrust.Sql.Records
import Squrust.Sql.Aggregate
import Squrust.Sql.ListSemantics
import Squrust.Sql.Locks
import Squrust.Sql.Optimizer
import Squrust.Sql.StatementAbort
import Squrust.Sql.ScanOrder
import Squrust.Core.BTree.Quiet
import Squrust.Core.BTree.Forest
import Squrust.Core.BTree.AnyCursors
import Squrust.Core.BTree.LongRecords
import Squrust.Sql.NotNull
import Squrust.Sql.Membership
import Squrust.Sql.Simultaneous
import Squrust.Sql.SumTotals
import Squrust.Sql.ValueOrder
import Squrust.Core.Storage.RecentPages
import Squrust.Sql.Grouping
import Squrust.Sql.RowidAlias
import Squrust.Ffi.Columns
import Squrust.Ffi.Prepare
import Squrust.Sql.Affinities
import Squrust.Core.BTree.Accounts
import Squrust.Sql.Like
import Squrust.Sql.Glob
import Squrust.Sql.Substrings
import Squrust.Sql.Literals
import Squrust.Sql.Printf
import Squrust.Sql.DateTimeRoundTrip
import Squrust.Sql.RealInstants
import Squrust.Sql.CurrentTime
import Squrust.Sql.DateTimePanics
import Squrust.Sql.PlanColumns
import Squrust.Sql.Queries
import Squrust.Sql.CatalogRuns
import Squrust.Sql.RowChanges
import Squrust.Sql.Tables
import Squrust.Sql.Conditions
