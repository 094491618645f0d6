import Avaria.Lib.Tally
import Avaria.Lib.Transition
import Avaria.Lib.StackMachine
import Avaria.Lib.LastWrite
import Avaria.Lib.PackedBits
import Avaria.Lib.Extent
import Avaria.Mm.Pages
import Avaria.Mm.Buddy
import Avaria.Mm.BuddyRuns
import Avaria.Mm.SlabPage
import Avaria.Mm.SlabCache
import Avaria.Mm.SlabAccounting
import Avaria.Mm.Slab
import Avaria.Mm.SlabLayout
import Avaria.Mm.SlabRuns
import Avaria.Mem.Kmalloc
import Avaria.Mem.Ownership
import Avaria.Lib.CyclicScan
import Avaria.Sched.Task
import Avaria.Sched.Scheduler
import Avaria.Sched.Starting
import Avaria.Sched.Kernel
import Avaria.Sched.ContextSwitch
import Avaria.Sched.RoundRobin
import Avaria.Sched.Preemption
import Avaria.Sched.Stacks
import Avaria.Kxvm.Syscall
import Avaria.Sched.System
import Avaria.Sched.Privilege
import Avaria.Sched.TaskEnd
import Avaria.Lib.ByteMap
import Avaria.Elf.Header
import Avaria.Elf.Loader
import Avaria.Elf.LoadImage
import Avaria.Elf.LoadSafety
import Avaria.Lib.ForLoop
import Avaria.Fs.Block
import Avaria.Fs.Inode
import Avaria.Fs.BlockMap
import Avaria.Fs.ReadData
import Avaria.Fs.ReadSafety
import Avaria.Lib.RingQueue
import Avaria.Ipc.Channel
import Avaria.Ipc.Capacity
import Avaria.Ipc.Interleaving
import Avaria.Kxvm.SerialWrite
import Avaria.Arch.Idt
import Avaria.Arch.InterruptEntry
import Avaria.Ring3.PageTables
import Avaria.Ring3.UserAccess
import Avaria.Ahci.Command
import Avaria.Fs.Dir
import Avaria.Fs.Ext3
import Avaria.Fs.Accounting
import Avaria.Lib.Checked
import Avaria.Fs.Arithmetic
import Avaria.Ahci.Port
import Avaria.Fs.Initrd
import Avaria.Fs.Archive
import Avaria.Lib.Census
import Avaria.Smp.Startup
import Avaria.Fs.Path
import Avaria.Lib.Cursor
import Avaria.Fs.DirScan
import Avaria.Fs.Listing
import Avaria.Ipc.Queries
import Avaria.Ipc.Creation
import Avaria.Ps2.KeyBuffer
import Avaria.Ps2.Scancode
import Avaria.Fs.InitrdSafety
import Avaria.Fs.InitrdLookup
import Avaria.Ring3.Translation
import Avaria.Mem.MakeExecutable
import Avaria.Ring3.TableTree
import Avaria.Mem.MapMmio
import Avaria.Smp.Accounting
import Avaria.Time.Conversion
import Avaria.Lib.Slice
import Avaria.Gfx.Psf
import Avaria.Gfx.UnicodeTable
import Avaria.Gfx.Layout
import Avaria.Shell.LineEditor
import Avaria.Mm.BuddyRegion
import Avaria.Mem.Exhaustion
import Avaria.Mem.Aligned
import Avaria.Elf.Stride
import Avaria.Arch.TaskSwitch
import Avaria.Arch.SystemCall
import Avaria.Arch.Pic
import Avaria.Pci.Config
import Avaria.Pci.Scan
import Avaria.Ahci.Structures
import Avaria.Ahci.Init
import Avaria.Ahci.Dispatch
import Avaria.Mem.PageSupply
import Avaria.Boot.Modules
import Avaria.Mem.MemoryMap
import Avaria.Arch.Lapic
import Avaria.Arch.Segments
import Avaria.Serial.Numbers
import Avaria.Gfx.Screen
import Avaria.Shell.Display
import Avaria.Shell.Console
import Avaria.Mem.Benchmark
import Avaria.Ipc.SpinLock
import Avaria.Ahci.AtomicReads
