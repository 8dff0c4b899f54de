import PandOS.Lib.Run
import PandOS.Lib.Semaphore
import PandOS.Lib.Tlb
import PandOS.Lib.Forest
import PandOS.Lib.Ring
import PandOS.Lib.Priority
import PandOS.Headers.Const
import PandOS.Headers.Listx
import PandOS.Phase1.Pcb
import PandOS.Phase1.Asl
import PandOS.Phase2.Kernel
import PandOS.Phase2.Exception
import PandOS.Phase2.Interrupt
import PandOS.Phase3.Memory
import PandOS.Phase3.Pager
import PandOS.Phase3.PagerSteps
import PandOS.Phase3.Exclusion
import PandOS.Phase3.Isolation
import PandOS.Phase3.Consistency
import PandOS.Phase3.Transparency
import PandOS.Phase3.Coherence
import PandOS.Phase3.Support
import PandOS.Phase3.SupportSteps
import PandOS.Phase3.Sync
import PandOS.Phase3.SyncInv
import PandOS.Phase3.Refine
import PandOS.Phase3.SwapPool
import PandOS.Phase3.AddressSpaces
import PandOS.Phase3.FlatMemory
import PandOS.Phase3.Shell
import PandOS.Phase3.Mutexes
import PandOS.Phase2.Links
import PandOS.Phase2.Terminate
import PandOS.Phase2.Tree
import PandOS.Phase2.Acts
import PandOS.Phase2.Sound
import PandOS.Phase2.Allocation
import PandOS.Phase2.Pids
import PandOS.Phase2.Search
import PandOS.Phase2.Wrap
import PandOS.Phase2.Semaphores
import PandOS.Phase2.Idle
import PandOS.Phase2.Counting
import PandOS.Phase2.Completions
import PandOS.Phase2.Terminals
import PandOS.Phase2.Kept
import PandOS.Phase2.Commands
import PandOS.Phase2.Accounts
import PandOS.Phase2.Effects
import PandOS.Phase2.CpuTime
import PandOS.Phase2.Contexts
import PandOS.Phase2.DeviceIndex
import PandOS.Phase2.Tick
import PandOS.Lib.LockOrder
import PandOS.Phase3.Waiting
import PandOS.Phase3.Deadlock
import PandOS.Phase3.Script
import PandOS.Phase3.Traps
import PandOS.Phase3.Translation
import PandOS.Phase3.Transfers
import PandOS.Phase2.Subtree
import PandOS.Phase1.ProcQ
import PandOS.Phase1.AslLinks
import PandOS.Phase1.BlockMap
import PandOS.Phase1.Descriptors
import PandOS.Phase1.Arrivals
import PandOS.Phase1.AslRefine
import PandOS.Phase3.TerminalCalls
import PandOS.Phase3.TerminalSteps
import PandOS.Phase3.Execute
import PandOS.Phase3.Stranded
import PandOS.Phase2.Dispatch
import PandOS.Phase2.Mutex
import PandOS.Phase1.PcbLinks
import PandOS.Lib.Sheet
import PandOS.Phase2.Klog
import PandOS.Lib.Session
import PandOS.Phase3.Channels
import PandOS.Phase3.Progress
import PandOS.Lib.RoundRobin
import PandOS.Phase3.Fifo
import PandOS.Lib.Calls
import PandOS.Phase2.PcbCalls
import PandOS.Phase3.Jobs
import PandOS.Phase2.AslCalls
import PandOS.Phase3.UserSpace
