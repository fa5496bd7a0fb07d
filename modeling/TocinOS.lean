import TocinOS.Allocators
import TocinOS.Arp
import TocinOS.BootElf
import TocinOS.BootMap
import TocinOS.Cfs
import TocinOS.Devfs
import TocinOS.ElfContext
import TocinOS.ElfLoadFile
import TocinOS.ElfSymbols
import TocinOS.Ext2Extents
import TocinOS.Ext2Geometry
import TocinOS.Ext2InodeTable
import TocinOS.Ext2Tree
import TocinOS.Ext4Files
import TocinOS.FatFaults
import TocinOS.FutexTimeouts
import TocinOS.Icmp
import TocinOS.IpcMutexes
import TocinOS.IpcQueuePages
import TocinOS.IpcSemaphores
import TocinOS.Jbd2Log
import TocinOS.MmClone
import TocinOS.MmapSearch
import TocinOS.PthreadKeys
import TocinOS.PthreadOnce
import TocinOS.ReadBounds
import TocinOS.SchedulerBoost
import TocinOS.SchedulerPick
import TocinOS.SwapFaults
import TocinOS.SyscallStores
import TocinOS.TaskStacks
import TocinOS.TcpAdvertised
import TocinOS.TcpFlow
import TocinOS.TmpfsLinks
import TocinOS.Usb
import TocinOS.UserMalloc
import TocinOS.VfsMounts
import TocinOS.VmaCounters
