import Litestream.Lib.Cover
import Litestream.Lib.Run
import Litestream.Lib.Digits
import Litestream.Ltx.FileInfo
import Litestream.Plan.CalcRestorePlan
import Litestream.Plan.Cursor
import Litestream.Plan.Rounds
import Litestream.Plan.RestorePlan
import Litestream.Compaction.Store
import Litestream.Compaction.Compactor
import Litestream.Compaction.Levels
import Litestream.Compaction.Maintenance
import Litestream.Compaction.Steps
import Litestream.Compaction.Restorability
import Litestream.Compaction.Contiguity
import Litestream.Compaction.PointInTime
import Litestream.Compaction.Validation
import Litestream.Compaction.Retention
import Litestream.Client.Clients
import Litestream.Client.Contract
import Litestream.Client.Backends
import Litestream.Client.PageIndexData
import Litestream.Client.FileClient
import Litestream.Replica.Sync
import Litestream.Lib.Bytes
import Litestream.Wal.Reader
import Litestream.Wal.Image
import Litestream.Lib.Overlay
import Litestream.Wal.PageMap
import Litestream.Wal.Prefix
import Litestream.Wal.Committed
import Litestream.Wal.Total
import Litestream.Db.Verify
import Litestream.Db.Identity
import Litestream.Db.Sync
import Litestream.Lib.Paged
import Litestream.Db.Writes
import Litestream.Db.Outcomes
import Litestream.Db.Sqlite
import Litestream.Db.Generation
import Litestream.Db.Checkpoint
import Litestream.Db.OnDisk
import Litestream.Db.NoLoss
import Litestream.Db.Snapshot
import Litestream.Db.SnapshotHeader
import Litestream.Db.SyncSize
import Litestream.Db.Complete
import Litestream.Db.Init
import Litestream.Db.Position
import Litestream.Lib.Delta
import Litestream.Lib.File
import Litestream.Lib.Versions
import Litestream.Compaction.Contents
import Litestream.Compaction.Schedule
import Litestream.Compaction.Lag
import Litestream.Replica.EndToEnd
import Litestream.Replica.LocalFiles
import Litestream.Replica.Monitor
import Litestream.Replica.Shutdown
import Litestream.Follow.Apply
import Litestream.Follow.Poll
import Litestream.Follow.Effect
import Litestream.Follow.History
import Litestream.Follow.Landing
import Litestream.Follow.Loop
import Litestream.Follow.Progress
import Litestream.Follow.Resume
import Litestream.Lib.Directory
import Litestream.Follow.Sidecar
import Litestream.Follow.Publish
import Litestream.Restore.Artifacts
import Litestream.Restore.Concurrent
import Litestream.Restore.Legacy
import Litestream.Restore.Replan
import Litestream.Lib.Utf8
import Litestream.Lib.Json
import Litestream.Follow.Record
import Litestream.Follow.Commit
import Litestream.Follow.Artifacts
import Litestream.Follow.FailClosed
import Litestream.Reader.Resumable
import Litestream.Reader.Accounting
import Litestream.Lib.Conditional
import Litestream.Lease.Leaser
import Litestream.Lease.Exclusion
import Litestream.Lease.Generations
import Litestream.Vfs.PageIndex
import Litestream.Vfs.File
import Litestream.Vfs.Open
import Litestream.Vfs.Replication
import Litestream.Vfs.Contiguity
import Litestream.Lib.Resize
import Litestream.Vfs.Shrink
import Litestream.Vfs.Freshness
import Litestream.Vfs.Write
import Litestream.Vfs.Session
import Litestream.Lib.PageArray
import Litestream.Vfs.FlatFile
import Litestream.Vfs.Snapshot
import Litestream.Vfs.Buffer
import Litestream.Vfs.Connections
import Litestream.Vfs.SingleWriter
import Litestream.Vfs.Conflict
import Litestream.Vfs.TimeTravel
import Litestream.Store.Registration
import Litestream.Vfs.Expected
import Litestream.Vfs.Serial
import Litestream.Vfs.Hydrator
import Litestream.Vfs.Hydration
import Litestream.Vfs.Isolation
import Litestream.Lib.SlashPath
import Litestream.Lib.Percent
import Litestream.Config.URL
import Litestream.Config.Directory
