import SimplyOs.Kheap
import SimplyOs.Pmm
import SimplyOs.Library.PageTree

/-!
# Paging

Transcription of `kernel/mm/paging.c`, of the page tables that `boot.S` builds, and
of the processor's page walk. The page directory is reached through its own mapping
in the higher half and every page table through the recursive slot, as in the
source, so each access can fault (`none`). The walk has no cache: `invlpg` follows
every change of a present entry, and absent entries are never cached.
-/

namespace SimplyOs.Paging

open SimplyOs.Word SimplyOs.Multiboot SimplyOs.Pmm SimplyOs.Kheap
open SimplyOs.Library.ByteMemory SimplyOs.Library.PageTree

set_option autoImplicit false

/-- The two boot pages of `boot.S`, one behind the other. -/
structure PagingLayout extends BootLayout where
  directoryAligned : bootPageDirectory % pageSize = 0
  tableBehind : bootPageTable1 = bootPageDirectory + pageSize

/-- Physical memory and the frame allocator of a machine with this layout. -/
structure Machine (layout : PagingLayout) where
  memory : Memory
  pmm : PmmState

def recursivePdIndex : Nat := 1023

def recursivePtBase : Nat := 0xFFC00000

/-- The physical address of the page directory, also the value of `cr3`. -/
def pdPhys (layout : PagingLayout) : Nat := virtToPhys layout.bootPageDirectory

variable {layout : PagingLayout}

/-! ## Memory accesses -/

def loadByte (machine : Machine layout) (virt : Nat) : Option UInt8 :=
  (translate machine.memory (pdPhys layout) false virt).map machine.memory

def storeByte (machine : Machine layout) (virt : Nat) (value : UInt8) : Option (Machine layout) :=
  (translate machine.memory (pdPhys layout) true virt).map fun place =>
    { machine with memory := store8 machine.memory place value }

/-- Words are only accessed at their alignment, so a word lies in one page. -/
def loadWord (machine : Machine layout) (virt : Nat) : Option Nat :=
  if virt % 4 = 0 then
    (translate machine.memory (pdPhys layout) false virt).map (load32 machine.memory)
  else none

def storeWord (machine : Machine layout) (virt word : Nat) : Option (Machine layout) :=
  if virt % 4 = 0 then
    (translate machine.memory (pdPhys layout) true virt).map fun place =>
      { machine with memory := store32 machine.memory place word }
  else none

def memset (machine : Machine layout) (virt : Nat) (value : UInt8) : Nat → Option (Machine layout)
  | 0 => some machine
  | size + 1 => do
      let machine ← memset machine virt value size
      storeByte machine (virt + size) value

/-! ## The mapper -/

def pageDirectory (layout : PagingLayout) (pdeIdx : Nat) : Nat :=
  layout.bootPageDirectory + 4 * pdeIdx

def pageTableVirt (pdeIdx : Nat) : Nat := recursivePtBase + pdeIdx * pageSize

def pdeIndex (virt : Nat) : Nat := virt / 2 ^ 22

def pteIndex (virt : Nat) : Nat := virt / 2 ^ 12 % 2 ^ 10

def pagingInit (machine : Machine layout) : Option (Machine layout) :=
  storeWord machine (pageDirectory layout recursivePdIndex)
    (pdPhys layout / pageSize * pageSize ||| pagingFlagPresent ||| pagingFlagWrite)

/-- The branch of `paging_map_page` that creates a page table. -/
def pagingNewTable (machine : Machine layout) (pdeIdx : Nat) : Option (Bool × Machine layout) :=
  let (newPt, pmm) := pmmAllocFrame machine.pmm
  let machine := { machine with pmm := pmm }
  if newPt = 0 then some (false, machine)
  else do
    let machine ← storeWord machine (pageDirectory layout pdeIdx)
      (newPt ||| pagingFlagPresent ||| pagingFlagWrite)
    let machine ← memset machine (pageTableVirt pdeIdx) 0 pageSize
    some (true, machine)

def pagingMapPage (machine : Machine layout) (virt phys flags : Nat) :
    Option (Bool × Machine layout) :=
  if phys % pageSize ≠ 0 then some (false, machine)
  else do
    let pde ← loadWord machine (pageDirectory layout (pdeIndex virt))
    let (ready, machine) ←
      (if pde &&& pagingFlagPresent = 0 then pagingNewTable machine (pdeIndex virt)
      else some (true, machine))
    if ready then do
      let machine ← storeWord machine (pageTableVirt (pdeIndex virt) + 4 * pteIndex virt)
        (phys ||| (flags ||| pagingFlagPresent))
      some (true, machine)
    else some (false, machine)

def pagingUnmapPage (machine : Machine layout) (virt : Nat) : Option (Machine layout) := do
  let pde ← loadWord machine (pageDirectory layout (pdeIndex virt))
  if pde &&& pagingFlagPresent = 0 then some machine
  else storeWord machine (pageTableVirt (pdeIndex virt) + 4 * pteIndex virt) 0

/-- 0 when the page is not mapped. -/
def pagingGetPhysical (machine : Machine layout) (virt : Nat) : Option Nat := do
  let pde ← loadWord machine (pageDirectory layout (pdeIndex virt))
  if pde &&& pagingFlagPresent = 0 then some 0
  else do
    let entry ← loadWord machine (pageTableVirt (pdeIndex virt) + 4 * pteIndex virt)
    if entry &&& pagingFlagPresent = 0 then some 0 else some (entry / pageSize * pageSize)

/-! ## Booting -/

/-- The pages of `boot_page_table1` that map low memory. -/
def bootMappedPages : Nat := 1023

def vgaPhys : Nat := 0x000B8000

/-- What `boot.S` writes before it turns paging on: one table for the first 4 MiB,
entered at both ends. The loader has zeroed the directory with the rest of `.bss`. -/
def bootPageTables (layout : PagingLayout) (memory : Memory) : Memory :=
  let table := virtToPhys layout.bootPageTable1
  let directory := pdPhys layout
  let zeroed := fill memory directory pageSize 0
  let identity := (List.range bootMappedPages).foldl
    (fun memory page => store32 memory (table + 4 * page) (page * pageSize ||| 0x003)) zeroed
  let video := store32 identity (table + 4 * 1023) (vgaPhys ||| 0x003)
  let low := store32 video (directory + 4 * 0) (table + 0x003)
  store32 low (directory + 4 * 768) (table + 0x003)

/-- From `_start` to the end of `paging_init`; `ram` is what memory held before. -/
def bootMachine (layout : PagingLayout) (boot : BootInfo) (ram : Memory) :
    Option (Machine layout) := do
  let machine : Machine layout := { memory := bootPageTables layout ram, pmm := pmmBoot }
  -- the identity map is dropped
  let machine ← storeWord machine (pageDirectory layout 0) 0
  pagingInit { machine with pmm := pmmInit layout.toBootLayout boot machine.pmm }

/-! ## The heap's view -/

instance : Platform (Machine layout) where
  load8 := loadByte
  load32 := loadWord
  store8 := storeByte
  store32 := storeWord
  pmmAllocFrame machine :=
    let (frame, pmm) := pmmAllocFrame machine.pmm
    (frame, { machine with pmm := pmm })
  pmmFreeFrame machine frame := { machine with pmm := pmmFreeFrame machine.pmm frame }
  pagingMapPage := pagingMapPage

end SimplyOs.Paging
