import Xdk.Nvme.Barrier
import Xdk.Nvme.CmdIdUnique
import Xdk.Nvme.Drained
import Xdk.Nvme.FlushFrame
import Xdk.Nvme.SyncIo
import Xdk.Nvme.AdminQueue
import Xdk.Parasite.Sharing
import Xdk.Parasite.Authority
import Xdk.Parasite.AllocOrder
import Xdk.Parasite.IrqMasking
import Xdk.Parasite.WaitIrq
import Xdk.Nvme.WakeUp
import Xdk.Shadow.Commands
import Xdk.Sync.ReentrantLock
import Xdk.Sync.TicketLock
import Xdk.Nbb.Exclusion
import Xdk.Avl.Reuse
import Xdk.Avl.HeapRuns
import Xdk.Avl.Validate
import Xdk.Channel.Alone
import Xdk.Numa.Delivery
import Xdk.Slab.SpanLayout
import Xdk.Slab.ForeignPointers
import Xdk.Lockfree.Linearizable
import Xdk.FastSlab.NumAvail
import Xdk.FastSlab.PhysAddr
import Xdk.NumaSlab.Quota
import Xdk.Ext2.Read
import Xdk.Ext2.Sparse
import Xdk.Ext2.Ownership
import Xdk.Ext2.Superblock
import Xdk.Ext2.CacheReads
import Xdk.Sysfs.AllocShow
import Xdk.Sysfs.Allocations
import Xdk.E1000.Send
import Xdk.X540.Release
import Xdk.X540.MultiSendSafety
import Xdk.X540.ReceiveOrder
import Xdk.Nvme.BatchIds
import Xdk.Nvme.RingBufferThreads
import Xdk.Nvme.BatchBooks
import Xdk.Parasite.Release
import Xdk.Parasite.MsiAlloc
import Xdk.Nvme.SlotBytes
import Xdk.Ahci.Fpdma
import Xdk.Ahci.SyncTransfer
import Xdk.E1000.ReceiveOrder
import Xdk.Pci.Config
import Xdk.Irq.CpuMask
import Xdk.Acpi.Srat
import Xdk.Component.Uuid
import Xdk.Memory.Pagemap
