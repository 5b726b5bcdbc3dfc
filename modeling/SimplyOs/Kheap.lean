import SimplyOs.Word

/-!
# The kernel heap

Transcription of `kernel/mm/kheap.c`. Block headers live in the memory that the
heap manages, so every field access is a load or a store at the block's virtual
address; it fails (`none`) when the address is not mapped, as the page fault
handler never returns. What the heap uses of the rest of the kernel is the class
`Platform`: memory accesses, the frame allocator and the page mapper.

A loop that walks the list visits each address at most once or never ends, and
`kmalloc` repeats at most once for each page of the heap window or never ends.
`loopFuel` exceeds both counts, so `none` also stands for a loop without end.
-/

namespace SimplyOs.Kheap

open SimplyOs.Word

set_option autoImplicit false

class Platform (World : Type) where
  load8 : World → Nat → Option UInt8
  load32 : World → Nat → Option Nat
  store8 : World → Nat → UInt8 → Option World
  store32 : World → Nat → Nat → Option World
  /-- The address of the frame, 0 when there is none. -/
  pmmAllocFrame : World → Nat × World
  pmmFreeFrame : World → Nat → World
  pagingMapPage : World → Nat → Nat → Nat → Option (Bool × World)

/-- `KHEAP_START`, the value of `kheap_start`. -/
def kheapStartAddress : Nat := 0xC2000000

def kheapMaxBytes : Nat := 16 * 1024 * 1024

def kheapAlignment : Nat := 8

def sizeofBlock : Nat := 16

def kheapMinBlock : Nat := sizeofBlock + kheapAlignment

def kheapGrowPages : Nat := 4

def pagingFlagPresent : Nat := 0x001

def pagingFlagWrite : Nat := 0x002

def loopFuel : Nat := 2 ^ 32

variable {World : Type} [Platform World]

/-! ## Fields of `kheap_block_t` -/

def blockSize (world : World) (block : Nat) : Option Nat := Platform.load32 world block

def blockIsFree (world : World) (block : Nat) : Option Bool :=
  (Platform.load8 world (block + 4)).map fun byte => byte != 0

def blockNext (world : World) (block : Nat) : Option Nat := Platform.load32 world (block + 8)

def blockPrev (world : World) (block : Nat) : Option Nat := Platform.load32 world (block + 12)

def setSize (world : World) (block size : Nat) : Option World :=
  Platform.store32 world block size

def setIsFree (world : World) (block : Nat) (isFree : Bool) : Option World :=
  Platform.store8 world (block + 4) (if isFree then 1 else 0)

def setNext (world : World) (block next : Nat) : Option World :=
  Platform.store32 world (block + 8) next

def setPrev (world : World) (block prev : Nat) : Option World :=
  Platform.store32 world (block + 12) prev

/-! ## State and helpers -/

/-- The static variables of the file and the rest of the kernel. -/
structure KheapState (World : Type) where
  kheapStart : Nat
  kheapEnd : Nat
  kheapFirst : Nat
  world : World

/-- `(n + KHEAP_ALIGN - 1) & ~(KHEAP_ALIGN - 1)`. -/
def kheapAlign (n : Nat) : Nat := add32 n (kheapAlignment - 1) / kheapAlignment * kheapAlignment

def kheapBlockFromPtr (ptr : Nat) : Nat := ptr - sizeofBlock

/-! ## Extending the heap -/

/-- The loop that maps fresh pages. It returns the address reached, or nothing
when a page could not be had. -/
def kheapMapPages (kheapStart : Nat) : Nat → World → Nat → Option (Option Nat × World)
  | 0, world, mapAt => some (some mapAt, world)
  | pages + 1, world, mapAt =>
      if sub32 (add32 mapAt pageSize) kheapStart > kheapMaxBytes then some (none, world)
      else
        let (frame, world) := Platform.pmmAllocFrame world
        if frame = 0 then some (none, world)
        else do
          let (mapped, world) ← Platform.pagingMapPage world mapAt frame pagingFlagWrite
          if mapped then kheapMapPages kheapStart pages world (add32 mapAt pageSize)
          else some (none, Platform.pmmFreeFrame world frame)

def kheapLast (world : World) : Nat → Nat → Option Nat
  | 0, _ => none
  | fuel + 1, last => do
      let next ← blockNext world last
      if next ≠ 0 then kheapLast world fuel next else some last

/-- The new block either enlarges a free last block or is linked after it. -/
def kheapAppend (world : World) (first block : Nat) : Option World := do
  let last ← kheapLast world loopFuel first
  let lastFree ← blockIsFree world last
  let adjacent ←
    (if lastFree then (blockSize world last).map fun size => add32 last size == block
    else some false)
  if adjacent then do
    let lastSize ← blockSize world last
    let size ← blockSize world block
    setSize world last (add32 lastSize size)
  else do
    let world ← setPrev world block last
    setNext world last block

def kheapNewBlock (world : World) (block size : Nat) : Option World := do
  let world ← setSize world block size
  let world ← setIsFree world block true
  let world ← setNext world block 0
  setPrev world block 0

/-- The number of pages that `kheap_extend` maps for a request. -/
def extendPages (minBytes : Nat) : Nat :=
  let needBytes :=
    if minBytes < kheapGrowPages * pageSize then kheapGrowPages * pageSize else minBytes
  add32 needBytes (pageSize - 1) / pageSize

/-- The part behind the loop: a free block covers the pages up to `mapAt`. -/
def kheapAddPages (heap : KheapState World) (world : World) (mapAt : Nat) :
    Option (KheapState World) := do
  let block := heap.kheapEnd
  let world ← kheapNewBlock world block (sub32 mapAt heap.kheapEnd)
  if heap.kheapFirst = 0 then
    some { heap with kheapFirst := block, kheapEnd := mapAt, world := world }
  else do
    let world ← kheapAppend world heap.kheapFirst block
    some { heap with kheapEnd := mapAt, world := world }

def kheapExtend (heap : KheapState World) (minBytes : Nat) : Option (Bool × KheapState World) :=
  if sub32 heap.kheapEnd heap.kheapStart ≥ kheapMaxBytes then some (false, heap)
  else do
    let (reached, world) ←
      kheapMapPages heap.kheapStart (extendPages minBytes) heap.world heap.kheapEnd
    match reached with
    | none => some (false, { heap with world := world })
    | some mapAt => (kheapAddPages heap world mapAt).map fun heap => (true, heap)

/-! ## Splitting and merging blocks -/

def kheapSplit (world : World) (block needed : Nat) : Option World := do
  let size ← blockSize world block
  if size < add32 needed kheapMinBlock then setIsFree world block false
  else do
    let remainder := block + needed
    let world ← setSize world remainder (sub32 size needed)
    let world ← setIsFree world remainder true
    let next ← blockNext world block
    let world ← setNext world remainder next
    let world ← setPrev world remainder block
    let next ← blockNext world block
    let world ← (if next ≠ 0 then setPrev world next remainder else some world)
    let world ← setSize world block needed
    let world ← setIsFree world block false
    setNext world block remainder

/-- `block` takes over its successor `next`: both halves of `kheap_coalesce` do
this, the second with `prev` and `block` in these places. -/
def kheapAbsorb (world : World) (block next : Nat) : Option World := do
  let size ← blockSize world block
  let nextSize ← blockSize world next
  let world ← setSize world block (add32 size nextSize)
  let after ← blockNext world next
  let world ← setNext world block after
  let after ← blockNext world next
  if after ≠ 0 then setPrev world after block else some world

def isFreeBlock (world : World) (block : Nat) : Option Bool :=
  if block ≠ 0 then blockIsFree world block else some false

def kheapCoalesce (world : World) (block : Nat) : Option World := do
  let next ← blockNext world block
  let nextFree ← isFreeBlock world next
  let world ← (if nextFree then kheapAbsorb world block next else some world)
  let prev ← blockPrev world block
  let prevFree ← isFreeBlock world prev
  if prevFree then kheapAbsorb world prev block else some world

/-! ## The interface -/

def kheapInit (world : World) : Option (KheapState World) := do
  let (_, heap) ← kheapExtend
    { kheapStart := kheapStartAddress
      kheapEnd := kheapStartAddress
      kheapFirst := 0
      world := world } pageSize
  some heap

/-- The first-fit scan; it returns 0 when the end of the list is reached. -/
def kheapFindFit (world : World) (needed : Nat) : Nat → Nat → Option Nat
  | 0, _ => none
  | fuel + 1, cur =>
      if cur = 0 then some 0
      else do
        let isFree ← blockIsFree world cur
        let fits ←
          (if isFree then (blockSize world cur).map fun size => decide (needed ≤ size)
          else some false)
        if fits then some cur
        else do
          let next ← blockNext world cur
          kheapFindFit world needed fuel next

def kmallocLoop (needed : Nat) : Nat → KheapState World → Option (Nat × KheapState World)
  | 0, _ => none
  | fuel + 1, heap => do
      let cur ← kheapFindFit heap.world needed loopFuel heap.kheapFirst
      if cur ≠ 0 then do
        let world ← kheapSplit heap.world cur needed
        some (cur + sizeofBlock, { heap with world := world })
      else do
        let (extended, heap) ← kheapExtend heap needed
        if extended then kmallocLoop needed fuel heap else some (0, heap)

/-- The block size that `kmalloc` looks for. -/
def kmallocNeeded (size : Nat) : Nat :=
  let needed := kheapAlign (add32 size sizeofBlock)
  if needed < kheapMinBlock then kheapMinBlock else needed

/-- The pointer returned is 0 for `NULL`. -/
def kmalloc (heap : KheapState World) (size : Nat) : Option (Nat × KheapState World) :=
  if size = 0 then some (0, heap) else kmallocLoop (kmallocNeeded size) loopFuel heap

def kfree (heap : KheapState World) (ptr : Nat) : Option (KheapState World) :=
  if ptr = 0 then some heap
  else do
    let block := kheapBlockFromPtr ptr
    let world ← setIsFree heap.world block true
    let world ← kheapCoalesce world block
    some { heap with world := world }

def kheapTotalBytes (heap : KheapState World) : Nat := sub32 heap.kheapEnd heap.kheapStart

/-- The scan of `kheap_used_bytes` from `cur` on, with the sum so far. -/
def kheapUsedFrom (world : World) : Nat → Nat → Nat → Option Nat
  | 0, _, _ => none
  | fuel + 1, cur, used =>
      if cur = 0 then some used
      else do
        let isFree ← blockIsFree world cur
        let used ←
          (if isFree then some used
          else (blockSize world cur).map fun size => add32 used size)
        let next ← blockNext world cur
        kheapUsedFrom world fuel next used

def kheapUsedBytes (heap : KheapState World) : Option Nat :=
  kheapUsedFrom heap.world loopFuel heap.kheapFirst 0

end SimplyOs.Kheap
