import Xmap.Lib.BlockCover
import Xmap.Lib.TrieWords
import Xmap.Target.Lemmas.Writes
import Xmap.Target.Lemmas.Allowed
import Xmap.Target.WblistTheorems
import Xmap.Lib.Walk
import Xmap.Target.Cyclic
import Xmap.Target.Lemmas.Shard
import Xmap.Target.Lemmas.Emit
import Xmap.Target.Lemmas.Numbering
import Xmap.Target.ShardTheorems
import Xmap.Lib.PrimeWalk
import Xmap.Target.Lemmas.Groups
import Xmap.Target.Lemmas.Ranges
import Xmap.Target.Scan
import Xmap.Target.Lemmas.Overflow
import Xmap.Target.Lemmas.Drawn
import Xmap.Target.CyclicTheorems
import Xmap.Target.ScanTheorems
import Xmap.Target.Lemmas.Senders
import Xmap.Target.WorkTheorems
import Xmap.Lib.CyclicRange
import Xmap.Target.Lemmas.Calls
import Xmap.Target.RangeTheorems
import Xmap.Target.WalkTheorems
import Xmap.Lib.Bytes
import Xmap.Lib.OnesSum
import Xmap.Lib.Reads
import Xmap.Lib.ChunkStream
import Xmap.Lib.Ring
import Xmap.Shm.BinFormat
import Xmap.Shm.Format
import Xmap.Shm.Stream
import Xmap.Shm.Lemmas.Encoding
import Xmap.Shm.Lemmas.Refines
import Xmap.Shm.Lemmas.WriterOps
import Xmap.Shm.Lemmas.ReaderOps
import Xmap.Shm.StreamTheorems
import Xmap.Shm.Count
import Xmap.Shm.CountTheorems
import Xmap.Lib.WriteBehind
import Xmap.Probe.Packet
import Xmap.Shm.Lemmas.Pending
import Xmap.Shm.PutTheorems
import Xmap.Task.Pbm
import Xmap.Probe.Probe
import Xmap.Task.RecvTask
import Xmap.Task.Lemmas.Store
import Xmap.Task.RecvTheorems
import Xmap.Lib.Window
import Xmap.Probe.Ports
import Xmap.Probe.Headers
import Xmap.Probe.TcpScan
import Xmap.Probe.TcpTheorems
import Xmap.Task.DedupTheorems
import Xmap.Probe.IcmpScan
import Xmap.Probe.IcmpTheorems
import Xmap.Probe.Modules
import Xmap.Probe.Lemmas.Checksum
import Xmap.Probe.ChecksumTheorems
import Xmap.Probe.Reads
import Xmap.Probe.Lemmas.Reads
import Xmap.Api.Entries
import Xmap.Api.EntryTheorems
import Xmap.Task.IcmpErrorTheorems
import Xmap.Task.RecvReads
import Xmap.Task.BoundsTheorems
import Xmap.Lib.Steps
import Xmap.Target.IpTreeTheorems
import Xmap.Task.SendTask
import Xmap.Task.Work
import Xmap.Task.Lemmas.Work
import Xmap.Task.LifeTheorems
import Xmap.Lib.Shares
import Xmap.Task.Lemmas.Quota
import Xmap.Task.QuotaTheorems
import Xmap.Thread.CorePool
import Xmap.Thread.Lemmas.CorePool
import Xmap.Thread.Lemmas.Stages
import Xmap.Thread.CorePoolTheorems
import Xmap.Shm.Mmap
import Xmap.Task.ProgressTheorems
import Xmap.Shm.Pointers
import Xmap.Shm.PointerTheorems
import Xmap.Api.EntryReader
import Xmap.Api.ReaderTheorems
import Xmap.Shm.CloseTheorems
import Xmap.Task.CapTheorems
import Xmap.Target.Lines
import Xmap.Task.PbmTheorems
import Xmap.Target.FileTheorems
import Xmap.Context.SourceIpTheorems
import Xmap.Target.PrefixTheorems
import Xmap.Thread.CoreMaskTheorems
import Xmap.Shm.RingTheorems
import Xmap.Shm.CodecTheorems
import Xmap.Context.Options
import Xmap.Context.OptionsTheorems
import Xmap.Task.ListTheorems
import Xmap.Lib.Gf256
import Xmap.Lib.KeyAlternating
import Xmap.Lib.WordBytes
import Xmap.Cipher.KeyTheorems
import Xmap.Cipher.Aesrand
import Xmap.Cipher.Validate
import Xmap.Lib.Heap
import Xmap.Lib.Arena
import Xmap.Mpool.PoolTheorems
import Xmap.Mpool.ChainTheorems
import Xmap.Lib.Wire
import Xmap.Scan.Answers
import Xmap.Scan.Lemmas.Network
import Xmap.Scan.Lemmas.Records
import Xmap.Scan.Lemmas.Store
import Xmap.Scan.RecordTheorems
import Xmap.Scan.StoreTheorems
import Xmap.Config.Command
import Xmap.Config.FnmatchTheorems
import Xmap.Config.IncludeTheorems
import Xmap.Config.WrittenTheorems
import Xmap.Config.PathTheorems
import Xmap.Config.DriverTheorems
