import SimplyOs.Word
import SimplyOs.Library.Transition
import SimplyOs.Library.ByteMemory
import SimplyOs.Library.ByteCopy
import SimplyOs.Library.ByteBitmap
import SimplyOs.Library.BlockList
import SimplyOs.Library.LinkedBlocks
import SimplyOs.Library.PageTree
import SimplyOs.Library.RingBuffer
import SimplyOs.Library.TextPage
import SimplyOs.Library.WordBytes
import SimplyOs.Library.LastWriter
import SimplyOs.Library.StreamMachine
import SimplyOs.Library.LimitedCounter
import SimplyOs.Library.DigitReader
import SimplyOs.Library.CheckedRun
import SimplyOs.Library.WordStack
import SimplyOs.Library.PriorityLines
import SimplyOs.Multiboot
import SimplyOs.MultibootParsing
import SimplyOs.MultibootStatics
import SimplyOs.MultibootContainment
import SimplyOs.Pmm
import SimplyOs.PmmFrames
import SimplyOs.PmmOwnership
import SimplyOs.PmmMemoryMap
import SimplyOs.PmmMapOrder
import SimplyOs.PmmRegions
import SimplyOs.PmmCounter
import SimplyOs.Paging
import SimplyOs.PagingTables
import SimplyOs.PagingBoot
import SimplyOs.PageMaps
import SimplyOs.PageDirectory
import SimplyOs.PageRights
import SimplyOs.Kheap
import SimplyOs.KheapMemory
import SimplyOs.KheapBlocks
import SimplyOs.KheapOperations
import SimplyOs.KheapExtension
import SimplyOs.KheapCalls
import SimplyOs.KheapRuns
import SimplyOs.KheapIntegrity
import SimplyOs.FlatPlatform
import SimplyOs.MachineHeap
import SimplyOs.HeapBacking
import SimplyOs.FrameBudget
import SimplyOs.OversizedRequests
import SimplyOs.HeapRequests
import SimplyOs.HeapExhaustion
import SimplyOs.HeapSizes
import SimplyOs.FreeOrder
import SimplyOs.Tty
import SimplyOs.TtyBounds
import SimplyOs.TtyScreen
import SimplyOs.Keyboard
import SimplyOs.KeyboardDecoding
import SimplyOs.KeyboardStreams
import SimplyOs.KeyboardBuffer
import SimplyOs.Printf
import SimplyOs.PrintfNumerals
import SimplyOs.PrintfReading
import SimplyOs.PrintfOutput
import SimplyOs.PrintfCount
import SimplyOs.Shell
import SimplyOs.ShellEcho
import SimplyOs.ShellCommands
import SimplyOs.TtyTabs
import SimplyOs.Memmove
import SimplyOs.Pic
import SimplyOs.PicMasks
import SimplyOs.Gdt
import SimplyOs.GdtEncoding
import SimplyOs.Interrupts
import SimplyOs.InterruptFrames
import SimplyOs.KernelTests
import SimplyOs.SelfTests
import SimplyOs.HeapSelfTest
import SimplyOs.PicService
import SimplyOs.PicServiceRuns
import SimplyOs.PicPriority
import SimplyOs.InterruptTables
import SimplyOs.InterruptDispatch
import SimplyOs.PageFault
import SimplyOs.ExceptionReports
import SimplyOs.KeyboardInterrupts
import SimplyOs.KeyboardService
import SimplyOs.KeyboardProgress
import SimplyOs.KernelMain
import SimplyOs.KernelLog
import SimplyOs.Library.WordObjects
