import Skyloft.Lib.Serial
import Skyloft.Lib.Run
import Skyloft.Lib.Slice
import Skyloft.Errno
import Skyloft.Net.Mbuf
import Skyloft.Net.Conn
import Skyloft.Net.RawMbuf
import Skyloft.Net.TcpOut
import Skyloft.Net.Retransmission
import Skyloft.Lib.Buckets
import Skyloft.Net.Transport
import Skyloft.Net.Ephemeral
import Skyloft.Net.NetError
import Skyloft.Net.Cksum
import Skyloft.Net.IpInput
import Skyloft.Net.UdpQueue
import Skyloft.Net.Arp
import Skyloft.Net.ArpInv
import Skyloft.Net.ArpTable
import Skyloft.Net.ArpAging
import Skyloft.Net.Tcp
import Skyloft.Net.TcpIn
import Skyloft.Net.System
import Skyloft.Net.Locality
import Skyloft.Net.Reassembly
import Skyloft.Net.Clipping
import Skyloft.Net.RxStep
import Skyloft.Net.ProcStep
import Skyloft.Net.Readers
import Skyloft.Net.RxSafety
import Skyloft.Net.OooBound
import Skyloft.Net.Window
import Skyloft.Net.FinOrder
import Skyloft.Net.Wake
import Skyloft.Net.Stream
import Skyloft.Net.Reads
import Skyloft.Net.Readv
import Skyloft.Lib.Tiling
import Skyloft.Net.TxSide
import Skyloft.Net.Writers
import Skyloft.Net.SendSide
import Skyloft.Net.InFlight
import Skyloft.Net.Tiles
import Skyloft.Net.Handshake
import Skyloft.Net.Reset
import Skyloft.Net.Life
import Skyloft.Net.Shutdown
import Skyloft.Net.CtlFailure
import Skyloft.Net.Parked
import Skyloft.Net.Frame
import Skyloft.Net.FastRetransmit
import Skyloft.Net.Timeouts
import Skyloft.Net.WorkerScan
import Skyloft.Net.CloseAck
import Skyloft.Net.Listener
import Skyloft.Net.Lifetime
import Skyloft.Sched.Lock
import Skyloft.Sched.Wakeup
import Skyloft.Sched.Fifo
import Skyloft.Sync.Rcu
import Skyloft.Sched.Sq
import Skyloft.Sched.Rr
import Skyloft.Sched.RrWrap
import Skyloft.Sched.Steal
import Skyloft.Sync.Join
import Skyloft.Sync.Mutex
import Skyloft.Sync.Barrier
import Skyloft.Lib.Circular
import Skyloft.Sync.Futex
import Skyloft.Lib.SearchTree
import Skyloft.Sched.Runqueue
import Skyloft.Sched.Cfs
import Skyloft.Sched.CfsPlacement
import Skyloft.Sched.Eevdf
import Skyloft.Sched.EevdfSums
import Skyloft.Sched.EevdfPick
import Skyloft.Sched.EevdfLag
import Skyloft.Sched.TaskCache
import Skyloft.Lib.Heap
import Skyloft.Sync.TimerSift
import Skyloft.Sync.TimerHeap
import Skyloft.Sync.TimerSoftirq
import Skyloft.Sync.Preempt
import Skyloft.Sched.Softirq
import Skyloft.Lib.Chain
import Skyloft.Lib.Ledger
import Skyloft.Mm.Tcache
import Skyloft.Mm.Slab
import Skyloft.Mm.SlabPages
import Skyloft.Mm.SlabCreate
import Skyloft.Mm.Smalloc
import Skyloft.Mm.Lgpage
import Skyloft.Mm.Mempool
import Skyloft.Mm.Numa
import Skyloft.Io.Lrpc
import Skyloft.Io.TxOrder
import Skyloft.Io.TxBurst
import Skyloft.Io.Completion
import Skyloft.Sync.HeapCheck
import Skyloft.Net.MbufBounds
import Skyloft.Lib.OnesComplement
import Skyloft.Net.CksumSum
import Skyloft.Lib.Reciprocal
import Skyloft.Sched.CalcDelta
import Skyloft.Sched.CfsSlice
import Skyloft.Lib.Mask
import Skyloft.Mm.PageMap
import Skyloft.Mm.Smpage
import Skyloft.Lib.Search
import Skyloft.Utils.Bitmap
import Skyloft.Lib.RedBlack
import Skyloft.Utils.Rbtree
import Skyloft.Utils.RbtreeRep
import Skyloft.Utils.RbtreeAugment
import Skyloft.Utils.RbtreeInsert
import Skyloft.Utils.RbtreeErase
import Skyloft.Utils.RbtreeWalk
import Skyloft.Utils.RbtreeUnlink
import Skyloft.Utils.RbtreeCached
import Skyloft.Utils.RbtreeCalls
import Skyloft.Sched.Timeline
import Skyloft.Sched.TimelineRun
import Skyloft.Sched.TimelinePick
