import Xv6Kernel.Console.Editor
import Xv6Kernel.Content.Fault
import Xv6Kernel.Content.Footprint
import Xv6Kernel.Dirs.Create
import Xv6Kernel.Exec.Stack
import Xv6Kernel.File.Offset
import Xv6Kernel.File.References
import Xv6Kernel.Fs.Orphan
import Xv6Kernel.Inode.Capacity
import Xv6Kernel.Lib.Format
import Xv6Kernel.Lib.Memmove
import Xv6Kernel.Lib.Printf
import Xv6Kernel.Log.Admission
import Xv6Kernel.Log.Capacity
import Xv6Kernel.Log.Crash
import Xv6Kernel.Log.Space
import Xv6Kernel.Malloc.Request
import Xv6Kernel.Malloc.Sound
import Xv6Kernel.Mkfs.Boot
import Xv6Kernel.Mkfs.Kernel
import Xv6Kernel.Pipe.Fifo
import Xv6Kernel.Process.ExitWait
import Xv6Kernel.Process.InterruptState
import Xv6Kernel.Process.Killed
import Xv6Kernel.Process.Switch
import Xv6Kernel.Process.Wakeup
import Xv6Kernel.Read.Count
import Xv6Kernel.Shell.Accept
import Xv6Kernel.Shell.Append
import Xv6Kernel.Shell.Redirect
import Xv6Kernel.Trap.Vectors
import Xv6Kernel.Uart.Transmit
import Xv6Kernel.User.Grep
import Xv6Kernel.Virtio.Bookkeeping
