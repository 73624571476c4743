import OsdiKernel.Lib.Dyadic
import OsdiKernel.Lib.Tiling
import OsdiKernel.Lib.LinkedList
import OsdiKernel.Lib.Agenda
import OsdiKernel.Mm.Model
import OsdiKernel.Mm.FreeList
import OsdiKernel.Mm.Invariant
import OsdiKernel.Mm.Alloc
import OsdiKernel.Mm.Free
import OsdiKernel.Mm.Reserve
import OsdiKernel.Mm.Boot
import OsdiKernel.Mm.Safety
import OsdiKernel.Mm.Conservation
import OsdiKernel.Mm.DoubleFree
import OsdiKernel.Kmem.Model
import OsdiKernel.Mm.Tags
import OsdiKernel.Kmem.Invariant
import OsdiKernel.Kmem.Safety
import OsdiKernel.Lib.ByteFile
import OsdiKernel.Tmpfs.Model
import OsdiKernel.Tmpfs.Refinement
import OsdiKernel.Tmpfs.Safety
import OsdiKernel.Kmem.Allocator
import OsdiKernel.Fs.Model
import OsdiKernel.Fs.Resolution
import OsdiKernel.Fs.Tree
import OsdiKernel.Fs.Growth
import OsdiKernel.Fs.Effects
import OsdiKernel.Fs.Invariant
import OsdiKernel.Fs.Operations
import OsdiKernel.Fs.Mounts
import OsdiKernel.Fs.Soundness
import OsdiKernel.Fs.Visible
import OsdiKernel.Fs.Start
import OsdiKernel.Fs.Marks
import OsdiKernel.Fs.System
import OsdiKernel.Fs.MountPoints
import OsdiKernel.Fs.Ascent
import OsdiKernel.Fs.Hiding
import OsdiKernel.Fs.Creation
import OsdiKernel.Lib.Queue
import OsdiKernel.Sched.Model
import OsdiKernel.Sched.Refinement
import OsdiKernel.Sched.Lifecycle
import OsdiKernel.Sched.Runs
import OsdiKernel.Sched.Order
import OsdiKernel.Sched.Exits
import OsdiKernel.Sched.Exec
import OsdiKernel.Sched.Fork
import OsdiKernel.Fs.Opening
import OsdiKernel.Lib.Ledger
import OsdiKernel.Fs.Sessions
import OsdiKernel.Fs.Transfer
import OsdiKernel.Fs.FailedCreation
import OsdiKernel.Fs.Atomicity
import OsdiKernel.Sched.Balance
import OsdiKernel.Sched.Lifetimes
import OsdiKernel.Sched.Descriptors
import OsdiKernel.Sched.Results
import OsdiKernel.Sched.Chdir
import OsdiKernel.Sched.Signals
import OsdiKernel.Sched.HandlerStacks
import OsdiKernel.Kmem.Statements
import OsdiKernel.Kmem.Linearization
import OsdiKernel.Kmem.Preemption
import OsdiKernel.Sched.QueueWalks
import OsdiKernel.Sched.Preemption
import OsdiKernel.Lib.Bytes
import OsdiKernel.Boot.Loader
import OsdiKernel.Boot.Strings
import OsdiKernel.Boot.Devicetree
import OsdiKernel.Archive.Model
import OsdiKernel.Archive.Format
import OsdiKernel.Archive.Walk
import OsdiKernel.Archive.Readers
import OsdiKernel.Archive.Initramfs
import OsdiKernel.Archive.Loading
import OsdiKernel.Archive.Serving
import OsdiKernel.Timers.Model
import OsdiKernel.Timers.Invariant
import OsdiKernel.Timers.Runs
import OsdiKernel.Timers.Correctness
import OsdiKernel.Fs.Targets
import OsdiKernel.Sched.Seeking
import OsdiKernel.Tmpfs.Termination
import OsdiKernel.Archive.Reading
import OsdiKernel.Archive.Bounds
import OsdiKernel.Tmpfs.Reading
import OsdiKernel.Tmpfs.TwoRuns
import OsdiKernel.Kmem.Chunks
import OsdiKernel.Lib.Parallel
import OsdiKernel.Fs.Twins
import OsdiKernel.Fs.Together
import OsdiKernel.Fs.StaleRoots
import OsdiKernel.Fs.StartTogether
import OsdiKernel.Archive.Location
import OsdiKernel.Boot.Containment
import OsdiKernel.Lib.Mailbox
import OsdiKernel.Sched.Untouched
import OsdiKernel.Sched.Pending
import OsdiKernel.Sched.Rotation
import OsdiKernel.Sched.Addressing
import OsdiKernel.Devices.Framebuffer
import OsdiKernel.Fs.Entries
import OsdiKernel.Fs.Directories
import OsdiKernel.Sched.Stacks
import OsdiKernel.Sched.KernelStack
import OsdiKernel.Sched.StackRuns
import OsdiKernel.Sched.Handling
import OsdiKernel.Sched.Exhaustion
import OsdiKernel.Archive.Twins
import OsdiKernel.Fs.RootTypes
import OsdiKernel.Archive.Requests
import OsdiKernel.Archive.StaleMemory
import OsdiKernel.Lib.Ring
import OsdiKernel.Devices.Uart
import OsdiKernel.Devices.UartRuns
import OsdiKernel.Devices.Output
import OsdiKernel.Lib.Words
import OsdiKernel.Shell.Commands
import OsdiKernel.Devices.RawRead
import OsdiKernel.Lib.Aarch64
import OsdiKernel.Boot.StartUp
import OsdiKernel.Boot.Bss
import OsdiKernel.Boot.Relocation
import OsdiKernel.Shell.Numbers
import OsdiKernel.Mm.Edits
import OsdiKernel.Mm.Shape
import OsdiKernel.Irq.Tasks
import OsdiKernel.Irq.Interrupts
import OsdiKernel.Timers.Heartbeat
import OsdiKernel.Trap.Outcomes
import OsdiKernel.Devices.Interleaving
