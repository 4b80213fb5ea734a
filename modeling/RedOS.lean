import RedOS.Paging.Reach
import RedOS.Paging.Rights
import RedOS.Paging.Spaces
import RedOS.Boot.BootLog
import RedOS.Paging.SoftwareWalk
import RedOS.Paging.AnyFree
import RedOS.Boot.Handoff
import RedOS.Boot.DeadUart
import RedOS.Boot.Order
import RedOS.Boot.EarlyReads
import RedOS.Boot.Windows
import RedOS.Boot.Output
import RedOS.Boot.SerialLog
import RedOS.Boot.Gdt
import RedOS.Console.Fault
import RedOS.Console.Engines
import RedOS.Console.Decimal
import RedOS.Console.HexDump
import RedOS.Console.Scroll
import RedOS.Multiboot.Bounds
import RedOS.Multiboot.Regions
