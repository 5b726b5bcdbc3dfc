import SimplyOs.Multiboot
import SimplyOs.Library.ByteBitmap

/-!
# The physical frame allocator

Transcription of `kernel/mm/pmm.c`. The frame count never exceeds the bits of the
bitmap, which is a field of the state; `pmm_set_used` tests the frame against the
count before it touches the bitmap, so the index it forms is a `Fin`. Linker
symbols are the addresses of `BootLayout`.
-/

namespace SimplyOs.Pmm

open SimplyOs.Word SimplyOs.Multiboot SimplyOs.Library.ByteBitmap

set_option autoImplicit false

def kernelVirtualBase : Nat := 0xC0000000

def kernelPhysicalStart : Nat := 0x00100000

def pmmMaxFrames : Nat := 32768

def bitmapBytes : Nat := 4096

/-- Where the pages end through which `boot.S` maps low memory into the higher half;
the page behind them shows the text buffer. -/
def bootMapEnd : Nat := 0xC03FF000

/-- The symbols of the linker script and of `boot.S`, and the address of the bitmap. -/
structure BootLayout where
  kernelEnd : Nat
  bootPageDirectory : Nat
  bootPageTable1 : Nat
  stackBottom : Nat
  stackTop : Nat
  pmmBitmap : Nat
  mapped : ∀ symbol ∈ [kernelEnd, bootPageDirectory, bootPageTable1, stackBottom, stackTop,
    pmmBitmap], kernelVirtualBase + kernelPhysicalStart ≤ symbol ∧ symbol < bootMapEnd
  endsMapped : bootPageTable1 + pageSize ≤ bootMapEnd ∧ pmmBitmap + bitmapBytes ≤ bootMapEnd
  kernelFilled : kernelVirtualBase + kernelPhysicalStart < kernelEnd
  pagesOrdered : bootPageDirectory < bootPageTable1 + pageSize
  stackOrdered : stackBottom < stackTop

structure PmmState where
  bitmap : Bitmap bitmapBytes
  frameCount : Nat
  usedCount : Nat
  bounded : frameCount ≤ pmmMaxFrames

def pmmBoot : PmmState where
  bitmap := fun _ => 0
  frameCount := 0
  usedCount := 0
  bounded := Nat.zero_le _

def addrToFrame (addr : Nat) : Nat := addr / pageSize

/-- Whether the bit of a frame is set; there is no bit behind the bitmap. -/
def frameUsed (pmm : PmmState) (frame : Nat) : Bool :=
  if inside : frame < 8 * bitmapBytes then getBit pmm.bitmap ⟨frame, inside⟩ else true

def pmmSetUsed (pmm : PmmState) (frame : Nat) (used : Bool) : PmmState :=
  if inside : frame < pmm.frameCount then
    let index : Fin (8 * bitmapBytes) := ⟨frame, Nat.lt_of_lt_of_le inside pmm.bounded⟩
    if used then
      { pmm with
        usedCount :=
          if getBit pmm.bitmap index = false then add32 pmm.usedCount 1 else pmm.usedCount
        bitmap := setBit pmm.bitmap index }
    else
      { pmm with
        usedCount := if getBit pmm.bitmap index then sub32 pmm.usedCount 1 else pmm.usedCount
        bitmap := clearBit pmm.bitmap index }
  else pmm

/-- The loop of `pmm_reserve_frames` and of `pmm_free_frames_range`: all frames
of `[startFrame, endFrame)` below the frame count get one state. -/
def pmmSetFrames (pmm : PmmState) (startFrame endFrame : Nat) (used : Bool) : PmmState :=
  (List.range' startFrame (min endFrame pmm.frameCount - startFrame)).foldl
    (fun pmm frame => pmmSetUsed pmm frame used) pmm

def pmmReserveFrames (pmm : PmmState) (startFrame endFrame : Nat) : PmmState :=
  pmmSetFrames pmm startFrame endFrame true

def pmmFreeFramesRange (pmm : PmmState) (startFrame endFrame : Nat) : PmmState :=
  pmmSetFrames pmm startFrame endFrame false

/-- The frame behind the last one that `pmm_reserve_region` reserves. -/
def reserveEndFrame (regionEnd : Nat) : Nat := addrToFrame (add32 regionEnd (pageSize - 1)) + 1

def pmmReserveRegion (pmm : PmmState) (start regionEnd : Nat) : PmmState :=
  if regionEnd ≤ start then pmm
  else pmmReserveFrames pmm (addrToFrame start) (reserveEndFrame regionEnd)

def virtToPhys (virt : Nat) : Nat := sub32 virt kernelVirtualBase

def regionEndFrame (addr len : Nat) : Nat :=
  let regionEnd := add64 addr len
  if regionEnd = 0 then 0 else addrToFrame (toUintptr (regionEnd - 1)) + 1

def regionStartFrame (addr : Nat) : Nat := addrToFrame (toUintptr addr)

def pmmRegionUsable (type : Nat) : Bool := type == memoryAvailable || type == memoryAcpiReclaimable

def pmmMarkHighest (regionEnd highest : Nat) : Nat :=
  if regionEnd > highest then regionEnd else highest

/-! ## `pmm_init` -/

def memUpperBytes (boot : BootInfo) : Nat := boot.mbMemUpperKb * 1024 % 2 ^ 64

def pmmHighest (boot : BootInfo) : Nat :=
  let highest := (multibootMmap boot).foldl
    (fun highest entry => pmmMarkHighest (add64 entry.addr entry.len) highest) 0
  if boot.mbMemUpperKb ≠ 0 then
    pmmMarkHighest (add64 kernelPhysicalStart (memUpperBytes boot)) highest
  else highest

def pmmFrameCount (boot : BootInfo) : Nat :=
  let count := addrToFrame (toUintptr (pmmHighest boot)) + 1
  if count > pmmMaxFrames then pmmMaxFrames else count

theorem pmm_frame_count_le (boot : BootInfo) : pmmFrameCount boot ≤ pmmMaxFrames := by
  simp only [pmmFrameCount]
  split
  · exact Nat.le_refl _
  · rename_i fits
    exact Nat.not_lt.mp fits

def pmmAllUsed (pmm : PmmState) (boot : BootInfo) : PmmState where
  bitmap := fillBytes pmm.bitmap ((pmmFrameCount boot + 7) / 8)
  frameCount := pmmFrameCount boot
  usedCount := pmmFrameCount boot
  bounded := pmm_frame_count_le boot

/-- One round of the loop over the map: the state and `freed_any`. -/
def pmmApplyEntry (state : PmmState × Bool) (entry : MmapEntry) : PmmState × Bool :=
  let startFrame := regionStartFrame entry.addr
  let endFrame := regionEndFrame entry.addr entry.len
  if pmmRegionUsable entry.type then (pmmFreeFramesRange state.1 startFrame endFrame, true)
  else (pmmReserveFrames state.1 startFrame endFrame, state.2)

def pmmFallback (boot : BootInfo) (state : PmmState × Bool) : PmmState :=
  if !state.2 && boot.mbMemUpperKb != 0 then
    pmmFreeFramesRange state.1 (regionStartFrame kernelPhysicalStart)
      (regionEndFrame kernelPhysicalStart (memUpperBytes boot))
  else state.1

/-- The four byte ranges that are reserved in the end, with physical addresses. -/
def reservedRegions (layout : BootLayout) : List (Nat × Nat) :=
  [(kernelPhysicalStart, virtToPhys layout.kernelEnd),
    (virtToPhys layout.bootPageDirectory, add32 (virtToPhys layout.bootPageTable1) pageSize),
    (virtToPhys layout.stackBottom, virtToPhys layout.stackTop),
    (virtToPhys layout.pmmBitmap, add32 (virtToPhys layout.pmmBitmap) bitmapBytes)]

def pmmReserveKernel (layout : BootLayout) (pmm : PmmState) : PmmState :=
  (reservedRegions layout).foldl (fun pmm region => pmmReserveRegion pmm region.1 region.2)
    (pmmSetUsed pmm 0 true)

def pmmInit (layout : BootLayout) (boot : BootInfo) (pmm : PmmState) : PmmState :=
  if !boot.mbValid then pmm
  else if pmmFrameCount boot = 0 then
    { pmm with frameCount := 0, bounded := Nat.zero_le _ }
  else
    let state := (multibootMmap boot).foldl pmmApplyEntry (pmmAllUsed pmm boot, false)
    pmmReserveKernel layout (pmmFallback boot state)

/-! ## Allocation -/

def pmmFindFrame (pmm : PmmState) : Option Nat :=
  (List.range' 1 (pmm.frameCount - 1)).find? fun frame => !frameUsed pmm frame

/-- The address of the frame, 0 for `NULL`. -/
def pmmAllocFrame (pmm : PmmState) : Nat × PmmState :=
  match pmmFindFrame pmm with
  | some frame => (frame * pageSize, pmmSetUsed pmm frame true)
  | none => (0, pmm)

def pmmFreeFrame (pmm : PmmState) (frame : Nat) : PmmState :=
  if frame = 0 ∨ frame % pageSize ≠ 0 then pmm else pmmSetUsed pmm (addrToFrame frame) false

def pmmTotalFrames (pmm : PmmState) : Nat := pmm.frameCount

def pmmUsedFrames (pmm : PmmState) : Nat := pmm.usedCount

def pmmFreeFrames (pmm : PmmState) : Nat :=
  if pmm.frameCount < pmm.usedCount then 0 else pmm.frameCount - pmm.usedCount

end SimplyOs.Pmm
