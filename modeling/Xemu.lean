import Xemu.Proofs.AccessedDirty
import Xemu.Proofs.AtomicUpdates
import Xemu.Proofs.Atomicity
import Xemu.Proofs.Blobs
import Xemu.Proofs.BlockRequests
import Xemu.Proofs.ByteMemory
import Xemu.Proofs.ChainRequests
import Xemu.Proofs.Claim
import Xemu.Proofs.Compression
import Xemu.Proofs.ControlRegisters
import Xemu.Proofs.Counter
import Xemu.Proofs.Coverage
import Xemu.Proofs.DecoderExact
import Xemu.Proofs.Decoding
import Xemu.Proofs.DeviceReset
import Xemu.Proofs.Disk
import Xemu.Proofs.Dispatch
import Xemu.Proofs.Divisions
import Xemu.Proofs.DivisorLatch
import Xemu.Proofs.FaultReports
import Xemu.Proofs.FetchFaults
import Xemu.Proofs.FlashImage
import Xemu.Proofs.FlashWrites
import Xemu.Proofs.FloatingState
import Xemu.Proofs.IndirectTables
import Xemu.Proofs.Interrupt
import Xemu.Proofs.InterruptIdent
import Xemu.Proofs.InterruptRegisters
import Xemu.Proofs.Mode
import Xemu.Proofs.Modules
import Xemu.Proofs.Nesting
import Xemu.Proofs.PendingBits
import Xemu.Proofs.Permission
import Xemu.Proofs.Privilege
import Xemu.Proofs.QueueOrder
import Xemu.Proofs.RamBounds
import Xemu.Proofs.RegisterFrame
import Xemu.Proofs.Reserved
import Xemu.Proofs.RingLayout
import Xemu.Proofs.RomImage
import Xemu.Proofs.SamePage
import Xemu.Proofs.SerialInput
import Xemu.Proofs.SourcePriority
import Xemu.Proofs.StoreWidth
import Xemu.Proofs.Timer
import Xemu.Proofs.Translation
import Xemu.Proofs.TransmitSessions
import Xemu.Proofs.TrapReturns
import Xemu.Proofs.TrapSentinel
import Xemu.Proofs.TrapVectors
import Xemu.Proofs.VirtioAccess
import Xemu.Boot.Bios
import Xemu.Lib.Copying
import Xemu.Lib.Interleaving
import Xemu.Machine.Content
import Xemu.Proofs.Assembly
import Xemu.Proofs.Relocation
import Xemu.Proofs.Startup
import Xemu.Proofs.FlashLoad
import Xemu.Proofs.Lists
