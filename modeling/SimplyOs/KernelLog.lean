import SimplyOs.KernelMain

/-!
# The log of the start

What `kernel_main` prints for every number of frames that `pmm_init` finds. The tests
that find too few frames say so, and the kernel goes on: nothing faults. A test of the
frame allocator that finds one frame loses it; an extension of the heap that fails
leaves no more than one frame behind.
-/

namespace SimplyOs.KernelLog

open SimplyOs.Word SimplyOs.Kheap SimplyOs.KheapMemory SimplyOs.KheapBlocks
open SimplyOs.KheapExtension SimplyOs.KheapCalls SimplyOs.KheapRuns SimplyOs.KheapIntegrity
open SimplyOs.Multiboot SimplyOs.Pmm SimplyOs.PmmOwnership SimplyOs.FrameBudget
open SimplyOs.Paging SimplyOs.PagingTables SimplyOs.PagingBoot SimplyOs.PageMaps
open SimplyOs.MachineHeap SimplyOs.HeapBacking SimplyOs.HeapRequests
open SimplyOs.Printf SimplyOs.KernelTests SimplyOs.SelfTests SimplyOs.HeapSelfTest
open SimplyOs.ExceptionReports SimplyOs.KernelMain SimplyOs.InterruptTables
open SimplyOs.Tty (Terminal terminalWrite)
open SimplyOs.TtyBounds SimplyOs.TtyPage
open SimplyOs.Library.ByteMemory SimplyOs.Library.BlockList SimplyOs.Library.PageTree

set_option autoImplicit false

variable {layout : PagingLayout}

/-! ## The tables behind `paging_init` -/

section Boot

end Boot

/-! ## A heap without frames -/

section Shortage

variable {machine after : Machine layout} {frames clients : List Nat} {limit : Nat}

end Shortage

/-! ## The stages -/

section Stages

def heapText (freeFrames : Nat) : List UInt8 :=
  if freeFrames < 6 then kheapAllocFailed.bytes else kheapReport 0 16384

end Stages

/-! ## The log -/

section Log

end Log

end SimplyOs.KernelLog
