import Libtrace.OrderedFlush
import Libtrace.OrderedSorting
import Libtrace.CombinerUnordered
import Libtrace.SortedDelivery
import Libtrace.RingBufferFifo
import Libtrace.RingBulkSafety
import Libtrace.HasherDelivery
import Libtrace.RollbackRuns
import Libtrace.ControlLock
import Libtrace.HasherStop
import Libtrace.MessageAccounts
import Libtrace.BucketSafety
import Libtrace.CacheDestroy
import Libtrace.RegistryRuns
import Libtrace.FragmentOffset
import Libtrace.ChecksumVerifies
import Libtrace.EncapsulationStack
import Libtrace.BpfAgreement
import Libtrace.RtFraming
import Libtrace.CopyPreserves
import Libtrace.ErfSeekFirst
import Libtrace.AnonHistory
import Libtrace.ReuseLaw
import Libtrace.StripView
import Libtrace.FilterBatch
import Libtrace.PerpktRounds
import Libtrace.ErfExtensions
import Libtrace.HasherSetup
import Libtrace.OptionParser
import Libtrace.OspfLsa
import Libtrace.RadiotapFields
import Libtrace.PcapByteOrder
import Libtrace.PacketTruncation
import Libtrace.TimestampOrder
import Libtrace.NzixClock
import Libtrace.SllPromotion
import Libtrace.RtAck
import Libtrace.RingGeometry
import Libtrace.DpdkPools
import Libtrace.DpdkStamps
import Libtrace.AnonBounds
import Libtrace.TraceMergeRun
import Libtrace.SplayMap
import Libtrace.ErfIndex
import Libtrace.SlidingWindow
import Libtrace.BitBuffer
import Libtrace.TraceSplit
import Libtrace.VectorBytes
import Libtrace.LinkedDeque
import Libtrace.OdpPackets
