import SimplyOs.Kheap
import SimplyOs.Library.ByteMemory
import SimplyOs.Library.LinkedBlocks

/-!
# Block headers in memory

The heap window of a platform is observed through a plain byte memory: `Shows`
relates a platform state, the end of the mapped window and the bytes found below
that end. `PlatformLaws` collects what the heap relies on. The lemmas turn each
field access of the source into one fact about the header it reads or writes.
-/

namespace SimplyOs.KheapMemory

open SimplyOs.Word SimplyOs.Kheap
open SimplyOs.Library.ByteMemory SimplyOs.Library.LinkedBlocks

set_option autoImplicit false

/-- What a platform owes the heap. `Shows world limit memory` is the platform's
own invariant: the pages of `[KHEAP_START, limit)` are mapped and hold `memory`. -/
structure PlatformLaws (World : Type) [Platform World]
    (Shows : World → Nat → Memory → Prop) : Prop where
  load8 : ∀ {world : World} {limit : Nat} {memory : Memory} (address : Nat),
    Shows world limit memory → kheapStartAddress ≤ address → address < limit →
      Platform.load8 world address = some (memory address)
  load32 : ∀ {world : World} {limit : Nat} {memory : Memory} (address : Nat),
    Shows world limit memory → kheapStartAddress ≤ address → address + 4 ≤ limit →
      address % 4 = 0 → Platform.load32 world address = some (load32 memory address)
  store8 : ∀ {world : World} {limit : Nat} {memory : Memory} (address : Nat) (value : UInt8),
    Shows world limit memory → kheapStartAddress ≤ address → address < limit →
      ∃ after, Platform.store8 world address value = some after ∧
        Shows after limit (store8 memory address value)
  store32 : ∀ {world : World} {limit : Nat} {memory : Memory} (address word : Nat),
    Shows world limit memory → kheapStartAddress ≤ address → address + 4 ≤ limit →
      address % 4 = 0 → ∃ after, Platform.store32 world address word = some after ∧
        Shows after limit (store32 memory address word)
  noFrame : ∀ {world : World} {limit : Nat} {memory : Memory},
    Shows world limit memory → (Platform.pmmAllocFrame world).1 = 0 →
      Shows (Platform.pmmAllocFrame world).2 limit memory
  mapPage : ∀ {world : World} {limit : Nat} {memory : Memory},
    Shows world limit memory → limit % pageSize = 0 → kheapStartAddress ≤ limit →
      limit + pageSize ≤ kheapStartAddress + kheapMaxBytes →
      (Platform.pmmAllocFrame world).1 ≠ 0 →
      ∃ mapped after, Platform.pagingMapPage (Platform.pmmAllocFrame world).2 limit
          (Platform.pmmAllocFrame world).1 pagingFlagWrite = some (mapped, after) ∧
        (mapped = true → ∃ fresh, Shows after (limit + pageSize) fresh ∧
          Agree kheapStartAddress limit memory fresh) ∧
        (mapped = false →
          Shows (Platform.pmmFreeFrame after (Platform.pmmAllocFrame world).1) limit memory)
  shrink : ∀ {world : World} {limit lower : Nat} {memory : Memory},
    Shows world limit memory → lower ≤ limit → Shows world lower memory
  beyond : ∀ {world : World} {limit : Nat} {memory : Memory},
    Shows world limit memory → limit % pageSize = 0 → kheapStartAddress ≤ limit →
      limit + pageSize ≤ kheapStartAddress + kheapMaxBytes →
      (∀ word, Platform.store32 world limit word = none) ∨
        ∃ stale, Shows world (limit + pageSize) stale ∧
          Agree kheapStartAddress limit memory stale

def headerAt (memory : Memory) (block : Nat) : Header where
  size := load32 memory block
  free := memory (block + 4) != 0
  next := load32 memory (block + 8)
  prev := load32 memory (block + 12)

theorem header_of_agree {low high block : Nat} {memory other : Memory}
    (same : Agree low high memory other) (lower : low ≤ block) (upper : block + 16 ≤ high) :
    headerAt other block = headerAt memory block := by
  have size := load32_of_agree block same (by omega) (by omega)
  have free := same (block + 4) (by omega) (by omega)
  have next := load32_of_agree (block + 8) same (by omega) (by omega)
  have prev := load32_of_agree (block + 12) same (by omega) (by omega)
  simp only [headerAt, size, free, next, prev]

structure HeaderInside (limit block : Nat) : Prop where
  lower : kheapStartAddress ≤ block
  upper : block + sizeofBlock ≤ limit
  aligned : block % kheapAlignment = 0

theorem header_inside_mono {limit finish block : Nat} (inside : HeaderInside limit block)
    (larger : limit ≤ finish) : HeaderInside finish block :=
  ⟨inside.lower, Nat.le_trans inside.upper larger, inside.aligned⟩

/-- One memory is another with the header at `block` replaced. -/
structure HeaderWritten (memory after : Memory) (block : Nat) (header : Header) : Prop where
  header : headerAt after block = header
  frame : ∀ place, place < block ∨ block + sizeofBlock ≤ place → after place = memory place

theorem header_written_agree {memory after : Memory} {block low high : Nat} {header : Header}
    (written : HeaderWritten memory after block header)
    (apart : block + sizeofBlock ≤ low ∨ high ≤ block) : Agree low high memory after :=
  fun place above below => written.frame place (by omega)

theorem header_written_other {memory after : Memory} {block other : Nat} {header : Header}
    (written : HeaderWritten memory after block header)
    (apart : block + sizeofBlock ≤ other ∨ other + sizeofBlock ≤ block) :
    headerAt after other = headerAt memory other :=
  header_of_agree (header_written_agree written apart) (Nat.le_refl _) (Nat.le_refl _)

theorem header_written_trans {memory middle after : Memory} {block : Nat} {first second : Header}
    (one : HeaderWritten memory middle block first)
    (two : HeaderWritten middle after block second) : HeaderWritten memory after block second :=
  ⟨two.header, fun place outside => (two.frame place outside).trans (one.frame place outside)⟩

section FieldStores

variable (memory : Memory) (block : Nat)

theorem header_written_size (size : Nat) :
    HeaderWritten memory (store32 memory block size) block
      { headerAt memory block with size := size % 2 ^ 32 } := by
  refine ⟨?_, fun place outside => store32_outside _ _ (by simp only [sizeofBlock] at outside; omega)⟩
  simp only [headerAt, load32_store32, load32_store32_of_disjoint block (block + 8) (by omega),
    load32_store32_of_disjoint block (block + 12) (by omega),
    store32_outside block (block + 4) (by omega)]

theorem header_written_free (free : Bool) :
    HeaderWritten memory (store8 memory (block + 4) (if free then 1 else 0)) block
      { headerAt memory block with free := free } := by
  refine ⟨?_, fun place outside => store8_of_ne (by simp only [sizeofBlock] at outside; omega)⟩
  have flag : ((if free then 1 else 0 : UInt8) != 0) = free := by cases free <;> rfl
  simp only [headerAt, store8_same, flag, load32_store8_of_disjoint (block + 4) block (by omega),
    load32_store8_of_disjoint (block + 4) (block + 8) (by omega),
    load32_store8_of_disjoint (block + 4) (block + 12) (by omega)]

theorem header_written_next (next : Nat) :
    HeaderWritten memory (store32 memory (block + 8) next) block
      { headerAt memory block with next := next % 2 ^ 32 } := by
  refine ⟨?_, fun place outside => store32_outside _ _ (by simp only [sizeofBlock] at outside; omega)⟩
  simp only [headerAt, load32_store32, load32_store32_of_disjoint (block + 8) block (by omega),
    load32_store32_of_disjoint (block + 8) (block + 12) (by omega),
    store32_outside (block + 8) (block + 4) (by omega)]

theorem header_written_prev (prev : Nat) :
    HeaderWritten memory (store32 memory (block + 12) prev) block
      { headerAt memory block with prev := prev % 2 ^ 32 } := by
  refine ⟨?_, fun place outside => store32_outside _ _ (by simp only [sizeofBlock] at outside; omega)⟩
  simp only [headerAt, load32_store32, load32_store32_of_disjoint (block + 12) block (by omega),
    load32_store32_of_disjoint (block + 12) (block + 8) (by omega),
    store32_outside (block + 12) (block + 4) (by omega)]

end FieldStores

section FieldAccess

variable {World : Type} [Platform World] {Shows : World → Nat → Memory → Prop}
variable {world : World} {limit : Nat} {memory : Memory} {block : Nat}

theorem block_size_eq (laws : PlatformLaws World Shows) (shows : Shows world limit memory)
    (inside : HeaderInside limit block) :
    blockSize world block = some (headerAt memory block).size := by
  obtain ⟨lower, upper, aligned⟩ := inside
  simp only [sizeofBlock, kheapAlignment] at upper aligned
  exact laws.load32 block shows lower (by omega) (by omega)

theorem block_isFree_eq (laws : PlatformLaws World Shows) (shows : Shows world limit memory)
    (inside : HeaderInside limit block) :
    blockIsFree world block = some (headerAt memory block).free := by
  obtain ⟨lower, upper, aligned⟩ := inside
  simp only [sizeofBlock] at upper
  rw [blockIsFree, laws.load8 _ shows (by omega) (by omega)]
  rfl

theorem block_next_eq (laws : PlatformLaws World Shows) (shows : Shows world limit memory)
    (inside : HeaderInside limit block) :
    blockNext world block = some (headerAt memory block).next := by
  obtain ⟨lower, upper, aligned⟩ := inside
  simp only [sizeofBlock, kheapAlignment] at upper aligned
  exact laws.load32 _ shows (by omega) (by omega) (by omega)

theorem block_prev_eq (laws : PlatformLaws World Shows) (shows : Shows world limit memory)
    (inside : HeaderInside limit block) :
    blockPrev world block = some (headerAt memory block).prev := by
  obtain ⟨lower, upper, aligned⟩ := inside
  simp only [sizeofBlock, kheapAlignment] at upper aligned
  exact laws.load32 _ shows (by omega) (by omega) (by omega)

theorem set_size_written (laws : PlatformLaws World Shows) (shows : Shows world limit memory)
    (inside : HeaderInside limit block) (size : Nat) :
    ∃ after next, setSize world block size = some after ∧ Shows after limit next ∧
      HeaderWritten memory next block { headerAt memory block with size := size % 2 ^ 32 } := by
  obtain ⟨lower, upper, aligned⟩ := inside
  simp only [sizeofBlock, kheapAlignment] at upper aligned
  obtain ⟨after, run, shown⟩ := laws.store32 block size shows lower
    (by omega) (by omega)
  exact ⟨after, _, run, shown, header_written_size memory block size⟩

theorem set_isFree_written (laws : PlatformLaws World Shows) (shows : Shows world limit memory)
    (inside : HeaderInside limit block) (free : Bool) :
    ∃ after next, setIsFree world block free = some after ∧ Shows after limit next ∧
      HeaderWritten memory next block { headerAt memory block with free := free } := by
  obtain ⟨lower, upper, aligned⟩ := inside
  simp only [sizeofBlock] at upper
  obtain ⟨after, run, shown⟩ := laws.store8 (block + 4) (if free then 1 else 0) shows
    (by omega) (by omega)
  exact ⟨after, _, run, shown, header_written_free memory block free⟩

theorem set_next_written (laws : PlatformLaws World Shows) (shows : Shows world limit memory)
    (inside : HeaderInside limit block) (next : Nat) :
    ∃ after bytes, setNext world block next = some after ∧ Shows after limit bytes ∧
      HeaderWritten memory bytes block { headerAt memory block with next := next % 2 ^ 32 } := by
  obtain ⟨lower, upper, aligned⟩ := inside
  simp only [sizeofBlock, kheapAlignment] at upper aligned
  obtain ⟨after, run, shown⟩ := laws.store32 (block + 8) next shows (by omega)
    (by omega) (by omega)
  exact ⟨after, _, run, shown, header_written_next memory block next⟩

theorem set_prev_written (laws : PlatformLaws World Shows) (shows : Shows world limit memory)
    (inside : HeaderInside limit block) (prev : Nat) :
    ∃ after bytes, setPrev world block prev = some after ∧ Shows after limit bytes ∧
      HeaderWritten memory bytes block { headerAt memory block with prev := prev % 2 ^ 32 } := by
  obtain ⟨lower, upper, aligned⟩ := inside
  simp only [sizeofBlock, kheapAlignment] at upper aligned
  obtain ⟨after, run, shown⟩ := laws.store32 (block + 12) prev shows (by omega)
    (by omega) (by omega)
  exact ⟨after, _, run, shown, header_written_prev memory block prev⟩

end FieldAccess

end SimplyOs.KheapMemory
