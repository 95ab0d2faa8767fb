import Rtfs.Lib.ByteBuf
import Rtfs.Lib.Bitmap
import Rtfs.Lib.Ring
import Rtfs.Lib.Updates
import Rtfs.Klib.Kbtree
import Rtfs.Klib.KbtreeOrder
import Rtfs.Klib.KbtreeIter
import Rtfs.Fs.Types
import Rtfs.Fs.SitEntry
import Rtfs.Fs.Layout
import Rtfs.Fs.Mkfs
import Rtfs.Fs.LayoutSound
import Rtfs.Fs.Format
import Rtfs.Fs.Tables
import Rtfs.Journal.Types
import Rtfs.Journal.Writer
import Rtfs.Journal.Framing
import Rtfs.Journal.OutputVector
import Rtfs.Journal.Processor
import Rtfs.Comm.Device
import Rtfs.Comm.Recovery
import Rtfs.Comm.Scan
import Rtfs.Comm.Replay
import Rtfs.Comm.Recover
import Rtfs.Journal.RoundTrip
import Rtfs.Journal.LastWriter
import Rtfs.Journal.Commit
import Rtfs.Journal.History
import Rtfs.Journal.CrashRecovery
import Rtfs.Journal.CrashAtomic
import Rtfs.Fs.Lifecycle
import Rtfs.Lib.FreeList
import Rtfs.Lib.EntryTable
import Rtfs.Fs.SuperManager
import Rtfs.Fs.SitRange
import Rtfs.Fs.MetaImage
import Rtfs.Fs.NidAlloc
import Rtfs.Fs.LpaAlloc
import Rtfs.Lib.BitCount
import Rtfs.Fs.SitCounts
import Rtfs.Fs.InitialImage
import Rtfs.Cache.GenericCacheManager
import Rtfs.Cache.SitNatCache
import Rtfs.Fs.CachedMeta
import Rtfs.Fs.CacheCoherence
import Rtfs.Fs.CacheLoss
import Rtfs.Fs.NidCrash
import Rtfs.Lib.ParentTree
import Rtfs.Fs.FsHandler
import Rtfs.Fs.NamespaceTree
import Rtfs.Fs.NamespaceOps
import Rtfs.Fs.NamespaceRename
import Rtfs.Fs.NamespaceRun
import Rtfs.Comm.Reclaim
import Rtfs.Journal.ReclaimHistory
import Rtfs.Fs.CowReclaimRegistry
import Rtfs.Fs.Remount
import Rtfs.Fs.IndexTree
import Rtfs.Fs.ReclaimLost
import Rtfs.Fs.ReclaimComplete
import Rtfs.Lib.Versions
import Rtfs.Fs.ReclaimOnce
import Rtfs.Journal.ProcessThread
import Rtfs.Journal.RingRun
import Rtfs.Journal.JournalSafety
import Rtfs.Journal.BlockCount
import Rtfs.Journal.MissedCompletion
import Rtfs.Fs.RegistryRun
import Rtfs.Comm.Parse
import Rtfs.Comm.Termination
import Rtfs.Comm.RecoveryWrites
import Rtfs.Comm.Restart
import Rtfs.Comm.Chain
import Rtfs.Comm.Restartable
import Rtfs.Comm.RecordTrace
import Rtfs.Comm.Checked
import Rtfs.Comm.Accepted
import Rtfs.Lib.Patch
import Rtfs.Lib.CallLog
import Rtfs.Cache.CacheCalls
import Rtfs.Cache.StuckBlocks
import Rtfs.Fs.CacheRun
import Rtfs.Fs.CacheTermination
import Rtfs.Journal.Progress
import Rtfs.Fs.SegmentFill
import Rtfs.Fs.TransactionRun
import Rtfs.Fs.TransactionSize
import Rtfs.Cache.NodeBlockCache
import Rtfs.Cache.NodeRefs
import Rtfs.Lib.SlotTree
import Rtfs.Inode.RtfsNode
import Rtfs.Inode.NodeStore
import Rtfs.Fs.SrmapUtils
import Rtfs.Inode.FileIndex
import Rtfs.Inode.DirIndex
import Rtfs.Fs.DataRoom
import Rtfs.Inode.WriteBack
import Rtfs.Fs.NodeReclaim
import Rtfs.Fs.NodeReclaimRun
import Rtfs.Fs.ReclaimShadow
import Rtfs.Lib.SlotRuns
import Rtfs.Inode.DentryArea
import Rtfs.Inode.DirEntries
import Rtfs.Inode.DirRepresentation
import Rtfs.Inode.DirReparse
import Rtfs.Lib.Lru
import Rtfs.Cache.CacheCode
import Rtfs.Cache.LruRefinement
import Rtfs.Cache.NodeCacheRun
import Rtfs.Cache.NodeWriteback
import Rtfs.Cache.NodeCreate
import Rtfs.Fs.Statvfs
import Rtfs.Fs.JournalPos
import Rtfs.Lib.Outcome
import Rtfs.Lib.GrowArray
import Rtfs.Fs.ReclaimPlan
import Rtfs.Fs.TwoDirCommit
import Rtfs.Inode.DirLookup
import Rtfs.Fs.CreatedName
import Rtfs.Lib.SlotWalk
import Rtfs.Fs.CollectPlan
import Rtfs.Inode.FilePages
import Rtfs.Inode.Truncate
import Rtfs.Lib.CursorScan
import Rtfs.Inode.DirListing
import Rtfs.Fs.DirRead
import Rtfs.Fs.DirScan
import Rtfs.Klib.KbtreeDel
import Rtfs.Klib.KbtreeRefill
import Rtfs.Klib.KbtreeErase
import Rtfs.Klib.KbtreeValid
import Rtfs.Cache.PageCache
import Rtfs.Cache.PageCacheRefs
import Rtfs.Cache.PageCacheDirty
import Rtfs.Cache.PageCacheRun
import Rtfs.Inode.PageCacheView
import Rtfs.Lib.Labelled
import Rtfs.Lib.ByteFile
import Rtfs.Inode.FileWrite
import Rtfs.Inode.FileCommit
import Rtfs.Inode.FileResize
import Rtfs.Inode.FileBytes
import Rtfs.Inode.FileLedger
import Rtfs.Inode.FileMapped
import Rtfs.Lib.Listing
import Rtfs.Inode.DirContent
import Rtfs.Inode.DirOnDemand
import Rtfs.Inode.DirCommit
import Rtfs.Fs.DirVolume
import Rtfs.Fs.DirNames
import Rtfs.Fs.DirNameRun
import Rtfs.Fs.NameRemoval
import Rtfs.Fs.NamespaceVolume
import Rtfs.Lib.OpenFile
import Rtfs.Inode.FileDurable
import Rtfs.Inode.FileHandler
import Rtfs.Inode.HandleRun
import Rtfs.Klib.KbtreeRun
