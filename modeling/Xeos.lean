import Xeos.Lib.Memory
import Xeos.Lib.Loop
import Xeos.Video.Console
import Xeos.Video.Scroll
import Xeos.Hal.Rtc
import Xeos.Hal.Clock
import Xeos.C99.Memcpy
import Xeos.C99.MemcpyCopy
import Xeos.C99.MemcpyStream
import Xeos.Lib.X86
import Xeos.C99.Memcpy64
import Xeos.C99.Memcpy64Copy
import Xeos.C99.Memcpy64Sse2
import Xeos.C99.Memcpy64Plain
import Xeos.C99.Memcpy64Dispatch
import Xeos.Video.Printf
import Xeos.Video.PrintfScan
import Xeos.Lib.Allocator
import Xeos.Lib.LinkedList
import Xeos.Mem.Initialize
import Xeos.Mem.Table
import Xeos.Mem.InitializeSafe
import Xeos.Mem.Pages
import Xeos.Mem.PagesSpec
import Xeos.Mem.Exclusive
import Xeos.Hal.Decode
import Xeos.Hal.Idt
import Xeos.Hal.Pic
import Xeos.Irq.Handlers
import Xeos.Irq.Dispatch
import Xeos.Hal.Stub
import Xeos.Hal.StubSpec
import Xeos.Hal.Transparent
import Xeos.Isr.SysCall
import Xeos.Boot.Proc
import Xeos.Boot.MemoryLayout
import Xeos.Boot.Stage2
import Xeos.Boot.Stage2Safe
import Xeos.Lib.PageTable
import Xeos.Boot.Paging
import Xeos.Boot.PagingTables
import Xeos.Boot.PagingSpec
import Xeos.Boot.Elf
import Xeos.Lib.Smp
import Xeos.Lib.Interleave
import Xeos.System.Atomic
import Xeos.System.AtomicAdd
import Xeos.System.AtomicAddI386
import Xeos.System.AtomicAddOrder
import Xeos.System.AtomicArithmetic
import Xeos.Lib.Mutex
import Xeos.System.SpinLock
import Xeos.Elf.Symbol
import Xeos.InitRD.Mkinitrd
import Xeos.InitRD.RoundTrip
import Xeos.C99.Dispatch
import Xeos.C99.Strlen
import Xeos.C99.Time
import Xeos.Hal.DateTimeTM
import Xeos.Mem.FirstFit
import Xeos.Mem.Mirror
import Xeos.Mem.Placement
import Xeos.Mem.Bounds
import Xeos.Vm.Entry
import Xeos.Vm.SystemMap
import Xeos.Vm.Sizing
import Xeos.Lib.Numeral
import Xeos.Video.Integer
import Xeos.C99.Memmove
import Xeos.Lib.Bytes
import Xeos.Video.DigitBuffer
import Xeos.Vm.Content
import Xeos.Vm.Tables
import Xeos.Vm.Identity
import Xeos.Vm.Coverage
import Xeos.Hal.Mask
import Xeos.System.Locale
import Xeos.Video.Cursor
import Xeos.Video.BufferBounds
import Xeos.Video.Compose
import Xeos.Video.Compositional
import Xeos.Boot.FindFile
import Xeos.Boot.Vesa
import Xeos.Boot.A20
import Xeos.Boot.ElfEntry
import Xeos.Boot.Video
import Xeos.Boot.VideoCursor
import Xeos.Video.Width
import Xeos.System.AtomicBits
import Xeos.Lib.StackCheck
import Xeos.System.AtomicFrame
import Xeos.Boot.NumberToString
import Xeos.Boot.NumberToString16
import Xeos.Lib.Flat
import Xeos.Debug.KernelTrace
import Xeos.Hal.BrandName
import Xeos.Hal.IdtTable
import Xeos.Irq.Bookkeeping
import Xeos.System.LocaleConv
import Xeos.C99.Portable
import Xeos.C99.String
import Xeos.Elf.Lookup
import Xeos.Elf.SymbolLookup
import Xeos.Video.Count
import Xeos.Boot.NumberToStringFlat
import Xeos.C99.Atoi
import Xeos.Elf.Hash
import Xeos.C99.Strstr
import Xeos.Vm.Accessors
import Xeos.C99.StrlenScan
import Xeos.C99.Strlen64
import Xeos.C99.Strlen32
import Xeos.C99.Frame
import Xeos.C99.Memchr
import Xeos.C99.MemchrSse2
import Xeos.Lib.Ledger
import Xeos.Mem.Concurrent
import Xeos.Mem.ConcurrentSafe
import Xeos.Boot.Fat12
import Xeos.Boot.ReadSectors
import Xeos.Boot.LoadFile
import Xeos.Lib.Division
import Xeos.System.Division
import Xeos.System.DivisionSpec
import Xeos.Dispatch.Object
import Xeos.Lib.Paper
import Xeos.Video.Terminal
import Xeos.Video.Prompt
import Xeos.Boot.Relocate
