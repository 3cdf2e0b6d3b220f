import LacOS.Boot
import LacOS.FileSystem.NameLookup
import LacOS.FileSystem.ReadData.Overflow
import LacOS.Fish.Ends
import LacOS.Fish.Period
import LacOS.I8259.Service
import LacOS.IdtHandle
import LacOS.IdtHandle.Wrap
import LacOS.Keyboard.Critical
import LacOS.Keyboard.Erase
import LacOS.Keyboard.Modifiers
import LacOS.Keyboard.Position
import LacOS.Lib.Numbers
import LacOS.Mouse.Pointer
import LacOS.MultiTerm.Color
import LacOS.Pcb.Popcount
import LacOS.Rtc.Shadow
import LacOS.Syscalls.Allocation
import LacOS.Syscalls.Args
import LacOS.Syscalls.Buffers
import LacOS.Syscalls.Chunks
import LacOS.Syscalls.Execute.Failure
import LacOS.Syscalls.Execute.Header
import LacOS.Syscalls.Execute.Load
import LacOS.Syscalls.FdTable
import LacOS.Syscalls.KeyboardRead
import LacOS.Syscalls.Nesting
import LacOS.Syscalls.Open
import LacOS.System.Confinement
import LacOS.System.Isolation
import LacOS.System.ProgramPage
import LacOS.System.Reports
import LacOS.System.Vidmap
import LacOS.Terminal.Isolation
import LacOS.Terminal.KeyBounds
import LacOS.Terminal.LineEditor
import LacOS.Terminal.Lines
import LacOS.Terminal.Pending
import LacOS.Terminal.Recording
import LacOS.Timer
import LacOS.User.Cat
import LacOS.User.Grep.Main
import LacOS.User.Shell.Session
import LacOS.User.Syscall
