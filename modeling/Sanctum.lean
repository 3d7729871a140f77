import Sanctum.Machine.Memory
import Sanctum.Machine.Prog
import Sanctum.Machine.Run
import Sanctum.Machine.MutualExclusion
import Sanctum.Machine.Bytes
import Sanctum.Util.Strings
import Sanctum.Util.Snprintf
import Sanctum.Util.CopyFill
import Sanctum.Arch.Machine
import Sanctum.Arch.BitMasking
import Sanctum.Arch.PageTables
import Sanctum.Arch.LockObjects
import Sanctum.Arch.BitmapBits
import Sanctum.Monitor.State
import Sanctum.Monitor.Layout
import Sanctum.Monitor.BootInit
import Sanctum.Monitor.Locks
import Sanctum.Monitor.Measurement
import Sanctum.Monitor.TlbFlush
import Sanctum.Monitor.OsBitmap
import Sanctum.Monitor.Dma
import Sanctum.Monitor.LiveEnclaves
import Sanctum.Monitor.PinnedPages
import Sanctum.Monitor.MetadataPages
import Sanctum.Monitor.Ownership
import Sanctum.Monitor.FailedCalls
import Sanctum.Monitor.DramClassification
import Sanctum.Monitor.VirtToPhys
import Sanctum.Monitor.PageWrites
import Sanctum.Monitor.EnclaveInfo
import Sanctum.Monitor.BzeroRegion
import Sanctum.Monitor.LockBalance
import Sanctum.Monitor.DmaStripes
import Sanctum.Monitor.MetadataLocks
import Sanctum.Monitor.MapEntries
import Sanctum.Monitor.ThreadAllocation
import Sanctum.Monitor.DebugCopies
import Sanctum.Monitor.DeleteEnclave
import Sanctum.Monitor.FlushStamps
import Sanctum.Monitor.OsRegions
import Sanctum.Monitor.Protection
import Sanctum.Monitor.BootArrays
import Sanctum.Monitor.LoadedPages
import Sanctum.Monitor.MetadataSlots
import Sanctum.Fdt.Scan
import Sanctum.Fdt.Tree
import Sanctum.Fdt.Walk
import Sanctum.Fdt.Frame
import Sanctum.Fdt.Preorder
import Sanctum.Fdt.Cells
import Sanctum.Fdt.FilterCompat
import Sanctum.Fdt.FilterHarts
import Sanctum.Fdt.HartMask
import Sanctum.Trap.Vector
import Sanctum.Trap.Registers
import Sanctum.Trap.Preservation
import Sanctum.Trap.Delegation
import Sanctum.Trap.Routing
import Sanctum.Trap.Misaligned
import Sanctum.Trap.Ipi
import Sanctum.Trap.Dispatch
import Sanctum.Hash.Sha3
import Sanctum.Boot.MeasuredBoot
import Sanctum.Devices.Console
