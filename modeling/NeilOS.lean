import NeilOS.Kmalloc.Requests
import NeilOS.Kmalloc.FirstFit
import NeilOS.Paging.Tlb
import NeilOS.Paging.Translated
import NeilOS.Scheduler.Saved
import NeilOS.Scheduler.Calls
import NeilOS.Context.Runs
import NeilOS.Vga.Scrollback
import NeilOS.Vga.Bounds
import NeilOS.Vga.Chunks
import NeilOS.Output.Kernel
import NeilOS.Output.Stage2
import NeilOS.Disk.Chs
import NeilOS.Loader.Buffers
import NeilOS.Loader.Directory
import NeilOS.Loader.Table
import NeilOS.Devices.Interrupts
import NeilOS.Physical.Ranges
import NeilOS.Kernel.Areas
import NeilOS.Kernel.Footprint
import NeilOS.Kernel.Runs
import NeilOS.Disk.Bios
import NeilOS.Foundation.Refine
import NeilOS.Loader.Listing
import NeilOS.Loader.Main
import NeilOS.Arch.Delivery
import NeilOS.Devices.Controllers
import NeilOS.Foundation.Interference
import NeilOS.Kmalloc.Reentry
import NeilOS.Scheduler.Critical
import NeilOS.Devices.Console
import NeilOS.Kernel.Entry
import NeilOS.Boot.Stage1
import NeilOS.Boot.Handover
import NeilOS.Loader.Chain
