import TedkOS.Lib.Runs
import TedkOS.Lib.FreeList
import TedkOS.Lib.Checked
import TedkOS.Lib.Ledger
import TedkOS.Lib.ByteMemory
import TedkOS.Lib.RoundRobin
import TedkOS.Klibs.BitSet
import TedkOS.Klibs.DequeRuns
import TedkOS.Klibs.DequeCapacity
import TedkOS.Klibs.DequeCopy
import TedkOS.Klibs.RingBuf
import TedkOS.Klibs.Stack
import TedkOS.Klibs.KmallocRuns
import TedkOS.Klibs.KmallocTotal
import TedkOS.Klibs.ArrFileBuffer
import TedkOS.Palloc.PhysPagesRuns
import TedkOS.Palloc.PhysPagesMap
import TedkOS.Palloc.VirtRegion
import TedkOS.Palloc.OneToOne
import TedkOS.Palloc.MemMapManagerRuns
import TedkOS.Palloc.TinyMaps
import TedkOS.Fs.Dispatcher
import TedkOS.Proc.SchedInv
import TedkOS.Proc.SbrkAtomic
import TedkOS.Proc.SchedFair
import TedkOS.Drivers.LostWakeup
import TedkOS.Drivers.TerminalUndo
import TedkOS.Drivers.Vidmap
import TedkOS.Drivers.Rtc
import TedkOS.Drivers.RtcTicks
import TedkOS.Drivers.LostCompletion
import TedkOS.Drivers.DmaCommand
import TedkOS.Syscalls.UserStores
import TedkOS.Syscalls.ProcessRuns
import TedkOS.Pic.ListRuns
import TedkOS.Pic.I8259
import TedkOS.Syscalls.ExecArgs
import TedkOS.Syscalls.ExecuteFailure
import TedkOS.Syscalls.ExecLoader
import TedkOS.Syscalls.RunQueue
import TedkOS.Syscalls.SbrkRuns
import TedkOS.Syscalls.Switch
import TedkOS.Syscalls.Frames
import TedkOS.Syscalls.DescriptorRuns
import TedkOS.Fs.KissRead
import TedkOS.Fs.KissDir
import TedkOS.Klibs.PrefixTree
import TedkOS.Fs.OpenPath
import TedkOS.Fs.Seek
import TedkOS.Pic.ListStored
import TedkOS.Klibs.BitSetRuns
import TedkOS.Klibs.ArrFileCopy
import TedkOS.Drivers.Sb16
import TedkOS.Ui.Container
import TedkOS.Ui.Vbe
import TedkOS.Ui.Compositor
import TedkOS.Ui.Widgets
import TedkOS.Ui.Moves
import TedkOS.Ui.Repaints
import TedkOS.Ui.TitleBar
import TedkOS.Ui.VideoMode
import TedkOS.Ui.HitTest
import TedkOS.Ui.Mouse
import TedkOS.Drivers.Consoles
import TedkOS.Drivers.Typing
import TedkOS.Fs.CreateFs
import TedkOS.Fs.CreateFsNumbers
import TedkOS.Fs.CreateFsMount
import TedkOS.Fs.Cat
import TedkOS.Fs.Ls
