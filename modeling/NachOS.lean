import NachOS.Lib.Machine
import NachOS.Library.List
import NachOS.Threads.SynchList
import NachOS.Threads.Scheduler
import NachOS.Lib.Memory
import NachOS.Machine.LoadDelay
import NachOS.Filesys.Consistency
import NachOS.Userprog.Usability
import NachOS.Filesys.SynchDisk
import NachOS.Userprog.ConsoleInput
import NachOS.Userprog.ConsoleOutput
import NachOS.Network.PostOffice
import NachOS.Userprog.Seeks
import NachOS.Userprog.ConsoleFiles
import NachOS.Userprog.ExceptionHandler
import NachOS.Coff2noff.RoundTrip
import NachOS.Machine.Multiply
import NachOS.Userprog.Numbers
import NachOS.Userprog.ReadString
import NachOS.Filesys.Bounds
import NachOS.Filesys.CopyPrint
import NachOS.Machine.Unaligned
import NachOS.Userprog.SpaceTranslate
import NachOS.Userprog.LoadBounds
import NachOS.Coff2noff.Bss
import NachOS.Network.Framing
import NachOS.Library.SortedList
import NachOS.Library.HashTable
import NachOS.Filesys.PersistentBitmap
import NachOS.Filesys.DirectoryList
import NachOS.Userprog.CopyPrograms
import NachOS.Library.HashIterator
import NachOS.Filesys.DiskLatency
import NachOS.Filesys.StoreRefines
import NachOS.Userprog.Stubs
import NachOS.Machine.Timer
import NachOS.Network.TestCompletes
import NachOS.Threads.ThreadRoot
import NachOS.Userprog.UserThreads
import NachOS.Machine.Encoding
import NachOS.Userprog.ConsoleTest
