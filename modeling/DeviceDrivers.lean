import DeviceDrivers.Kernel
import DeviceDrivers.Lib.Machine
import DeviceDrivers.Lib.Cyclic
import DeviceDrivers.Lib.Clock
import DeviceDrivers.Lib.Pages
import DeviceDrivers.Lib.Intervals
import DeviceDrivers.Lib.Pool
import DeviceDrivers.Lib.CString
import DeviceDrivers.Lib.Ledger
import DeviceDrivers.Lib.Held
import DeviceDrivers.Lib.Loading
import DeviceDrivers.Lib.Keyed
import DeviceDrivers.Lib.SafeWalk
import DeviceDrivers.Lib.ListHead
import DeviceDrivers.Lib.Sweep
import DeviceDrivers.Lib.RwLock
import DeviceDrivers.Lib.Inet
import DeviceDrivers.Lib.Strtol
import DeviceDrivers.Lib.Slot
import DeviceDrivers.Kbd.Ring
import DeviceDrivers.Kbd.Read
import DeviceDrivers.Kbd.Capacity
import DeviceDrivers.Kbd.Fifo
import DeviceDrivers.Kbd.Clear
import DeviceDrivers.Kbd.Readers
import DeviceDrivers.Kbd.Sections
import DeviceDrivers.Kbd.Statements
import DeviceDrivers.Kbd.Load
import DeviceDrivers.ListSync.List
import DeviceDrivers.ListSync.Interleave
import DeviceDrivers.ListSync.History
import DeviceDrivers.ListSync.Account
import DeviceDrivers.ListSync.Exit
import DeviceDrivers.ListSync.Expiry
import DeviceDrivers.ListSync.Usage
import DeviceDrivers.ListSync.Pressure
import DeviceDrivers.ListSync.OnHeap
import DeviceDrivers.ListSync.Locked
import DeviceDrivers.ListSync.Refine
import DeviceDrivers.ListSync.Bounded
import DeviceDrivers.ListFull.Garbage
import DeviceDrivers.ListFull.Lookup
import DeviceDrivers.ListFull.Agree
import DeviceDrivers.ListFull.OnHeap
import DeviceDrivers.KernelLists.OnHeap
import DeviceDrivers.So2.Device
import DeviceDrivers.So2.Exclusion
import DeviceDrivers.So2.Content
import DeviceDrivers.So2.Reads
import DeviceDrivers.So2.Buffer
import DeviceDrivers.So2.Length
import DeviceDrivers.So2.Threads
import DeviceDrivers.So2.Overlap
import DeviceDrivers.Timer.Device
import DeviceDrivers.Timer.References
import DeviceDrivers.Timer.Rescan
import DeviceDrivers.Timer.Arming
import DeviceDrivers.Timer.Early
import DeviceDrivers.Timer.Teardown
import DeviceDrivers.Timer.Rcu
import DeviceDrivers.Timer.OnHeap
import DeviceDrivers.Timer.Program
import DeviceDrivers.Deferred.Periodic
import DeviceDrivers.Packet.Filter
import DeviceDrivers.Packet.Session
import DeviceDrivers.Tcp.Load
import DeviceDrivers.Udp.Load
import DeviceDrivers.Net.Host
import DeviceDrivers.Mmap.Load
import DeviceDrivers.Mmap.Map
import DeviceDrivers.Mmap.Exposure
import DeviceDrivers.Mmap.AddressSpace
import DeviceDrivers.Mmap.Shared
import DeviceDrivers.Mmap.Unload
import DeviceDrivers.Chrdev.Register
import DeviceDrivers.Chrdev.Host
