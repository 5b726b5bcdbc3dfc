import SimplyOs.KheapRuns
import SimplyOs.FlatPlatform

/-!
# Integrity of the heap over whole runs

What a client of `kheap.c` may rely on after any run of calls: the list that is
reached from `kheap_first` is a tiling of the window, and live payloads belong to
their owners alone. Both are read off the memory of the platform with the field
accesses of the source; the represented block list appears in the proofs only.
-/

namespace SimplyOs.KheapIntegrity

open SimplyOs.Word SimplyOs.Kheap SimplyOs.KheapMemory SimplyOs.KheapBlocks
open SimplyOs.KheapExtension SimplyOs.KheapCalls SimplyOs.KheapRuns SimplyOs.FlatPlatform
open SimplyOs.Library.ByteMemory SimplyOs.Library.BlockList SimplyOs.Library.LinkedBlocks
open SimplyOs.Library.Transition

set_option autoImplicit false

variable {World : Type} [Platform World]

def readHeader (world : World) (block : Nat) : Option Header := do
  let size ← blockSize world block
  let isFree ← blockIsFree world block
  let next ← blockNext world block
  let prev ← blockPrev world block
  some ⟨size, isFree, next, prev⟩

/-- Following `next` from `start` meets these blocks and then `NULL`. -/
def Follows (world : World) : Nat → List (Nat × Header) → Prop
  | start, [] => start = 0
  | start, entry :: rest =>
      start ≠ 0 ∧ entry.1 = start ∧ readHeader world start = some entry.2 ∧
        Follows world entry.2.next rest

/-- Each block starts where the one before it ends, from `start` up to `stop`. -/
def Tiles (stop : Nat) : Nat → List (Nat × Header) → Prop
  | start, [] => start = stop
  | start, entry :: rest => entry.1 = start ∧ Tiles stop (start + entry.2.size) rest

def sizeBehind (world : World) (pointer : Nat) : Nat :=
  (blockSize world (kheapBlockFromPtr pointer)).getD 0

/-- The representation invariant of the heap, for the blocks on its list. -/
structure HeapList (run : HeapRun World) (entries : List (Nat × Header)) : Prop where
  follows : Follows run.heap.world run.heap.kheapFirst entries
  first : run.heap.kheapFirst = kheapStartAddress
  tiles : Tiles run.heap.kheapEnd kheapStartAddress entries
  increasing : entries.Pairwise fun left right => left.1 < right.1
  linked : entries.IsChain fun left right =>
    left.1 + left.2.size = left.2.next ∧ left.2.next = right.1 ∧ right.2.prev = left.1
  firstPrev : ∀ entry ∈ entries.head?, entry.2.prev = 0
  sized : ∀ entry ∈ entries, kheapAlignment ∣ entry.2.size ∧ kheapMinBlock ≤ entry.2.size
  separated : entries.IsChain fun left right => left.2.free = false ∨ right.2.free = false
  paged : pageSize ∣ run.heap.kheapEnd - kheapStartAddress
  bounded : run.heap.kheapEnd - kheapStartAddress ≤ kheapMaxBytes
  owned : ((entries.filter fun entry => !entry.2.free).map fun entry =>
    entry.1 + sizeofBlock).Perm run.live
  distinct : run.live.Nodup
  used : kheapUsedBytes run.heap =
    some ((run.live.map fun pointer => sizeBehind run.heap.world pointer).sum)

section Reading

variable {Shows : World → Nat → Memory → Prop} {world : World} {limit : Nat} {memory : Memory}
variable {blocks : List Block}

theorem read_header_eq (laws : PlatformLaws World Shows) (shows : Shows world limit memory)
    {block : Nat} (inside : HeaderInside limit block) :
    readHeader world block = some (headerAt memory block) := by
  simp only [readHeader, block_size_eq laws shows inside, block_isFree_eq laws shows inside,
    block_next_eq laws shows inside, block_prev_eq laws shows inside, Option.bind_eq_bind,
    Option.bind_some]

theorem follows_headers (laws : PlatformLaws World Shows) (shows : Shows world limit memory)
    {prev start : Nat} (linked : Segment (headerAt memory) 0 prev start blocks)
    (inside : ∀ entry ∈ placed start blocks, HeaderInside limit entry.1) :
    Follows world (headOr 0 start blocks) (headers 0 prev start blocks) := by
  induction blocks generalizing prev start with
  | nil => rfl
  | cons block rest ih =>
      obtain ⟨header, tail⟩ := linked
      have here := inside (start, block) (by simp [placed])
      have lower := here.lower
      have later := ih tail fun entry member => inside entry (List.mem_cons_of_mem _ member)
      have read := read_header_eq laws shows here
      rw [header] at read
      have nonzero : start ≠ 0 := by
        simp only [kheapStartAddress] at lower
        omega
      exact ⟨nonzero, rfl, read, later⟩

theorem represents_follows (laws : PlatformLaws World Shows) {heap : KheapState World}
    (represents : Represents Shows heap memory blocks) :
    Follows heap.world heap.kheapFirst (headers 0 0 kheapStartAddress blocks) := by
  rw [represents.first]
  exact follows_headers laws represents.shows represents.window.threaded
    fun entry member => window_entry_inside represents.window member

theorem follows_unique {world : World} {start : Nat} {entries others : List (Nat × Header)}
    (one : Follows world start entries) (other : Follows world start others) : entries = others := by
  induction entries generalizing start others with
  | nil =>
      cases others with
      | nil => rfl
      | cons entry rest => exact absurd one other.1
  | cons entry rest ih =>
      cases others with
      | nil => exact absurd other one.1
      | cons second tail =>
          obtain ⟨_, place, read, later⟩ := one
          obtain ⟨_, otherPlace, otherRead, otherLater⟩ := other
          have header := Option.some.inj (read.symm.trans otherRead)
          have same : entry = second := Prod.ext (place.trans otherPlace.symm) header
          rw [← header] at otherLater
          rw [same, ih later otherLater]

theorem tiles_headers (prev start : Nat) (blocks : List Block) :
    Tiles (start + total blocks) start (headers 0 prev start blocks) := by
  induction blocks generalizing prev start with
  | nil => simp [headers, Tiles]
  | cons block rest ih =>
      have later := ih start (start + block.size)
      rw [Nat.add_assoc] at later
      exact ⟨rfl, by rw [total_cons]; exact later⟩

theorem used_headers (prev start : Nat) (blocks : List Block) :
    (((headers 0 prev start blocks).filter fun entry => !entry.2.free).map fun entry =>
      entry.1 + sizeofBlock) = (used start blocks).map pointerOf := by
  rw [used, ← headers_map_placed 0 prev, List.filter_map, List.map_map]
  rfl

theorem size_behind_eq (laws : PlatformLaws World Shows) (shows : Shows world limit memory)
    (window : Window limit memory blocks) {entry : Nat × Block}
    (member : entry ∈ placed kheapStartAddress blocks) :
    blockSize world (kheapBlockFromPtr (pointerOf entry)) = some entry.2.size := by
  have back : kheapBlockFromPtr (pointerOf entry) = entry.1 := Nat.add_sub_cancel _ _
  rw [back, block_size_eq laws shows (window_entry_inside window member),
    (segment_status window.threaded member).1]

end Reading

/-! ## The list -/

section Lists

variable {Shows : World → Nat → Memory → Prop} {run : HeapRun World} {memory : Memory}
variable {blocks : List Block}

theorem pointers_distinct (sized : ∀ block ∈ blocks, kheapMinBlock ≤ block.size) :
    ((used kheapStartAddress blocks).map pointerOf).Nodup := by
  have increasing := placed_increasing kheapStartAddress fun block member =>
    Nat.lt_of_lt_of_le (by decide : 0 < kheapMinBlock) (sized block member)
  apply List.pairwise_map.mpr
  apply (increasing.filter _).imp
  intro left right before same
  simp only [pointerOf] at same
  omega

theorem used_bytes_represented (laws : PlatformLaws World Shows) {heap : KheapState World}
    (represents : Represents Shows heap memory blocks) :
    kheapUsedBytes heap =
      some ((used kheapStartAddress blocks).map fun entry => entry.2.size).sum := by
  have window := represents.window
  have bounded := window.bounded
  have sum := kheap_used_from_eq laws represents.shows loopFuel 0 window.threaded
    (fun entry member => window_entry_inside window member) (window_length_lt_fuel window)
    (by simp only [kheapMaxBytes] at bounded; omega)
  rw [← represents.first, Nat.zero_add] at sum
  rw [kheapUsedBytes, sum]

theorem kheap_used_bytes_eq (laws : PlatformLaws World Shows)
    (live : LiveHeap Shows run memory blocks) :
    kheapUsedBytes run.heap =
      some ((run.live.map fun pointer => sizeBehind run.heap.world pointer).sum) := by
  have window := live.represents.window
  rw [used_bytes_represented laws live.represents, (live.owned.map _).sum_eq, List.map_map]
  congr 2
  apply List.map_congr_left
  intro entry member
  rw [Function.comp_apply, sizeBehind,
    size_behind_eq laws live.represents.shows window (mem_used.mp member).1, Option.getD_some]

theorem live_heap_list (laws : PlatformLaws World Shows) (live : LiveHeap Shows run memory blocks)
    (filled : blocks ≠ []) : HeapList run (headers 0 0 kheapStartAddress blocks) := by
  have window := live.represents.window
  have length : run.heap.kheapEnd - kheapStartAddress = total blocks := by
    rw [window.finish]
    exact Nat.add_sub_cancel_left _ _
  constructor
  case follows => exact represents_follows laws live.represents
  case first => rw [live.represents.first, headOr_of_ne_nil _ _ filled]
  case tiles =>
    rw [window.finish]
    exact tiles_headers 0 kheapStartAddress blocks
  case increasing =>
    apply headers_increasing
    intro block member
    exact Nat.lt_of_lt_of_le (by decide) (window.sized block member)
  case linked => exact headers_linked 0 0 kheapStartAddress blocks
  case firstPrev =>
    cases blocks with
    | nil => exact absurd rfl filled
    | cons block rest => simp [headers]
  case sized =>
    intro entry member
    have inside := (placed_bounds (mem_headers_placed member)).2.2
    exact ⟨window.grained _ inside, window.sized _ inside⟩
  case separated => exact headers_separated live.represents.separated
  case paged =>
    rw [length]
    exact live.represents.paged
  case bounded =>
    rw [length]
    exact window.bounded
  case owned =>
    rw [used_headers]
    exact live.owned.symm
  case distinct => exact live.owned.nodup_iff.mpr (pointers_distinct window.sized)
  case used => exact kheap_used_bytes_eq laws live

end Lists

/-! ## Payloads -/

/-- Live payloads against each other, against every listed header and against the
bounds of the window. -/
structure Isolated (run : HeapRun World) : Prop where
  aligned : ∀ pointer ∈ run.live, pointer % kheapAlignment = 0
  within : ∀ pointer ∈ run.live, ∀ address, InPayload run.heap.world pointer address →
    kheapStartAddress ≤ address ∧ address < run.heap.kheapEnd
  payloads : ∀ pointer ∈ run.live, ∀ other ∈ run.live, pointer ≠ other → ∀ address,
    InPayload run.heap.world pointer address → ¬InPayload run.heap.world other address
  headers : ∃ entries, Follows run.heap.world run.heap.kheapFirst entries ∧
    ∀ pointer ∈ run.live, ∀ entry ∈ entries, ∀ address,
      InPayload run.heap.world pointer address →
        address < entry.1 ∨ entry.1 + sizeofBlock ≤ address

/-- The block behind the pointer keeps its size, and its payload every byte. -/
def KeepsPayload (before after : World) (pointer : Nat) : Prop :=
  blockSize after (kheapBlockFromPtr pointer) = blockSize before (kheapBlockFromPtr pointer) ∧
    ∀ address, InPayload before pointer address →
      ∃ value, Platform.load8 before address = some value ∧
        Platform.load8 after address = some value

section Payloads

variable {Shows : World → Nat → Memory → Prop} {run : HeapRun World} {memory : Memory}
variable {blocks : List Block}

theorem in_payload_iff (laws : PlatformLaws World Shows)
    (live : LiveHeap Shows run memory blocks) {entry : Nat × Block}
    (member : entry ∈ used kheapStartAddress blocks) (address : Nat) :
    InPayload run.heap.world (pointerOf entry) address ↔
      entry.1 + sizeofBlock ≤ address ∧ address < entry.1 + entry.2.size := by
  have back : kheapBlockFromPtr (pointerOf entry) = entry.1 := Nat.add_sub_cancel _ _
  have read := size_behind_eq laws live.represents.shows live.represents.window
    (mem_used.mp member).1
  rw [InPayload, read, back]
  constructor
  · rintro ⟨size, same, lower, upper⟩
    obtain rfl := Option.some.inj same
    exact ⟨lower, upper⟩
  · rintro ⟨lower, upper⟩
    exact ⟨entry.2.size, rfl, lower, upper⟩

theorem live_heap_isolated (laws : PlatformLaws World Shows)
    (live : LiveHeap Shows run memory blocks) : Isolated run := by
  have window := live.represents.window
  have entries (pointer : Nat) (owned : pointer ∈ run.live) :
      ∃ entry ∈ used kheapStartAddress blocks, pointerOf entry = pointer :=
    List.mem_map.mp (live.owned.mem_iff.mp owned)
  constructor
  case aligned =>
    intro pointer owned
    obtain ⟨entry, member, rfl⟩ := entries pointer owned
    have aligned := (window_entry_inside window (mem_used.mp member).1).aligned
    simp only [pointerOf, kheapAlignment, sizeofBlock] at *
    omega
  case within =>
    intro pointer owned address inside
    obtain ⟨entry, member, rfl⟩ := entries pointer owned
    have bounds := (in_payload_iff laws live member address).mp inside
    have placed := placed_bounds (mem_used.mp member).1
    have finish := window.finish
    omega
  case payloads =>
    intro pointer owned other otherOwned different address inside otherInside
    obtain ⟨entry, member, rfl⟩ := entries pointer owned
    obtain ⟨second, secondMember, rfl⟩ := entries other otherOwned
    have bounds := (in_payload_iff laws live member address).mp inside
    have secondBounds := (in_payload_iff laws live secondMember address).mp otherInside
    rcases placed_disjoint (mem_used.mp member).1 (mem_used.mp secondMember).1 with
      same | before | behind
    · exact different (by rw [same])
    · omega
    · omega
  case headers =>
    refine ⟨headers 0 0 kheapStartAddress blocks, represents_follows laws live.represents, ?_⟩
    · intro pointer owned entry listed address inside
      obtain ⟨used, member, rfl⟩ := entries pointer owned
      obtain ⟨lower, upper⟩ := (in_payload_iff laws live member address).mp inside
      exact payload_apart_from_headers window member (mem_headers_placed listed) lower upper

/-- A call that keeps a used block keeps what is read of it. -/
theorem keeps_payload (laws : PlatformLaws World Shows) (live : LiveHeap Shows run memory blocks)
    {next : KheapState World} {bytes : Memory} {after : List Block}
    (represents : Represents Shows next bytes after) (kept : PayloadsKept blocks memory bytes)
    {entry : Nat × Block} (member : entry ∈ used kheapStartAddress blocks)
    (remains : entry ∈ used kheapStartAddress after) :
    KeepsPayload run.heap.world next.world (pointerOf entry) := by
  have window := live.represents.window
  have nextWindow := represents.window
  have before := size_behind_eq laws live.represents.shows window (mem_used.mp member).1
  have behind := size_behind_eq laws represents.shows nextWindow (mem_used.mp remains).1
  refine ⟨behind.trans before.symm, ?_⟩
  intro address inside
  obtain ⟨lower, upper⟩ := (in_payload_iff laws live member address).mp inside
  have bounds := placed_bounds (mem_used.mp member).1
  have nextBounds := placed_bounds (mem_used.mp remains).1
  have finish := window.finish
  have nextFinish := nextWindow.finish
  refine ⟨memory address, laws.load8 address live.represents.shows (by omega) (by omega), ?_⟩
  rw [laws.load8 address represents.shows (by omega) (by omega)]
  exact congrArg some (kept entry member address lower upper)

end Payloads

/-! ## Runs over arbitrary answers -/

/-- A heap that `kheap_init` left, whether or not it could map its first pages. -/
def Initialised (heap : KheapState FlatWorld) : Prop := ∃ world, kheapInit world = some heap

def Started (heap : KheapState FlatWorld) : Prop := Initialised heap ∧ heap.kheapFirst ≠ 0

theorem initialised_live {heap : KheapState FlatWorld} (initialised : Initialised heap) :
    ∃ memory blocks, LiveHeap FlatShows ⟨heap, []⟩ memory blocks := by
  obtain ⟨world, run⟩ := initialised
  obtain ⟨same, memory, blocks, sameRun, live⟩ := kheap_init_live flat_laws (flat_start world)
  obtain rfl := Option.some.inj (sameRun.symm.trans run)
  exact ⟨memory, blocks, live⟩

theorem run_live {run : HeapRun FlatWorld} (reachable : Reachable (heapRuns Initialised) run) :
    ∃ memory blocks, LiveHeap FlatShows run memory blocks := by
  apply reachable_invariant _ _ reachable
  · rintro ⟨heap, live⟩ ⟨initialised, rfl⟩
    exact initialised_live initialised
  · rintro before call after ⟨memory, blocks, live⟩ taken
    obtain ⟨bytes, list, next, _⟩ := heap_step_live flat_laws live taken
    exact ⟨bytes, list, next⟩

theorem started_run_live {run : HeapRun FlatWorld}
    (reachable : Reachable (heapRuns Started) run) :
    ∃ memory blocks, LiveHeap FlatShows run memory blocks ∧ blocks ≠ [] := by
  apply reachable_invariant _ _ reachable
  · rintro ⟨heap, live⟩ ⟨⟨initialised, nonzero⟩, rfl⟩
    obtain ⟨memory, blocks, live⟩ := initialised_live initialised
    refine ⟨memory, blocks, live, ?_⟩
    rintro rfl
    exact nonzero live.represents.first
  · rintro before call after ⟨memory, blocks, live, filled⟩ taken
    obtain ⟨bytes, list, next, stays⟩ := heap_step_live flat_laws live taken
    exact ⟨bytes, list, next, stays filled⟩

def willingWorld : FlatWorld where
  bytes := fun _ => 0
  mapped := fun _ => false
  answers := fun _ => ⟨pageSize, true, fun _ => 0⟩
  turn := 0

def willingHeap : KheapState FlatWorld := (kheapInit willingWorld).get (by decide +kernel)

def willingCall : Nat × KheapState FlatWorld := (kmalloc willingHeap 24).get (by decide +kernel)

theorem willing_heap_started : Started willingHeap :=
  ⟨⟨willingWorld, (Option.some_get _).symm⟩, by decide +kernel⟩

theorem willing_call_returned : kmalloc willingHeap 24 = some (0xC2000010, willingCall.2) := by
  have pointer : willingCall.1 = 0xC2000010 := by decide +kernel
  have returned : kmalloc willingHeap 24 = some willingCall := (Option.some_get _).symm
  rw [returned, ← pointer]

def threeBlocks : List HeapCall := [.malloc 24, .malloc 40, .malloc 0x5000]

/-- A write into the first of the three blocks, and its free. -/
def firstFreed : List HeapCall := [.write 0xC2000010 7, .free 0xC2000010]

def fullRun : HeapRun FlatWorld :=
  (threeBlocks.foldlM serveCall ⟨willingHeap, []⟩).get (by decide +kernel)

def freedRun : HeapRun FlatWorld := (firstFreed.foldlM serveCall fullRun).get (by decide +kernel)

theorem full_run_live : fullRun.live = [0xC2000070, 0xC2000038, 0xC2000010] := by decide +kernel

theorem freed_run_live : freedRun.live = [0xC2000070, 0xC2000038] := by decide +kernel

theorem full_run_reachable {started : KheapState FlatWorld → Prop}
    (initially : started willingHeap) : Reachable (heapRuns started) fullRun :=
  served_reachable (.start ⟨initially, rfl⟩) (Option.some_get _).symm

theorem freed_run_reachable {started : KheapState FlatWorld → Prop}
    (initially : started willingHeap) : Reachable (heapRuns started) freedRun :=
  served_reachable (full_run_reachable initially) (Option.some_get _).symm

/-- After every call the list reached from `kheap_first` is well formed and its
used blocks are those of the live pointers, and every further call returns. -/
theorem heap_list_over_runs {run : HeapRun FlatWorld}
    (reachable : Reachable (heapRuns Started) run) :
    (∃ entries, HeapList run entries) ∧
      (∀ size ≤ largestSize, ∃ result, kmalloc run.heap size = some result) ∧
      ∀ pointer, pointer = 0 ∨ pointer ∈ run.live →
        ∃ heap, kfree run.heap pointer = some heap := by
  obtain ⟨memory, blocks, live, filled⟩ := started_run_live reachable
  refine ⟨⟨_, live_heap_list flat_laws live filled⟩, ?_, ?_⟩
  · intro size small
    obtain ⟨pointer, heap, _, _, returned, _⟩ := kmalloc_live flat_laws live small
    exact ⟨_, returned⟩
  · intro pointer owned
    obtain ⟨heap, _, _, returned, _⟩ := kfree_live flat_laws live owned
    exact ⟨heap, returned⟩

theorem willing_run_list :
    freedRun.live = [0xC2000070, 0xC2000038] ∧
      (willingHeap.kheapEnd < freedRun.heap.kheapEnd) ∧
      (∃ entries, HeapList freedRun entries) ∧
      (∀ size ≤ largestSize, ∃ result, kmalloc freedRun.heap size = some result) ∧
      ∀ pointer, pointer = 0 ∨ pointer ∈ freedRun.live →
        ∃ heap, kfree freedRun.heap pointer = some heap :=
  ⟨freed_run_live, by decide +kernel,
    heap_list_over_runs (freed_run_reachable willing_heap_started)⟩

/-- Live payloads are disjoint from each other and from all headers, and no call
of the heap changes a byte of an allocation that stays live. -/
theorem live_payloads_isolated {run : HeapRun FlatWorld}
    (reachable : Reachable (heapRuns Initialised) run) :
    Isolated run ∧
      (∀ size ≤ largestSize, ∃ pointer heap, kmalloc run.heap size = some (pointer, heap) ∧
        ∀ kept ∈ run.live, KeepsPayload run.heap.world heap.world kept) ∧
      (∀ pointer, pointer = 0 ∨ pointer ∈ run.live →
        ∃ heap, kfree run.heap pointer = some heap ∧
          ∀ kept ∈ run.live, kept ≠ pointer → KeepsPayload run.heap.world heap.world kept) ∧
      ∀ minBytes ≤ largestNeeded, ∃ extended heap,
        kheapExtend run.heap minBytes = some (extended, heap) ∧
          ∀ kept ∈ run.live, KeepsPayload run.heap.world heap.world kept := by
  obtain ⟨memory, blocks, live⟩ := run_live reachable
  have entries (pointer : Nat) (owned : pointer ∈ run.live) :
      ∃ entry ∈ used kheapStartAddress blocks, pointerOf entry = pointer :=
    List.mem_map.mp (live.owned.mem_iff.mp owned)
  refine ⟨live_heap_isolated flat_laws live, ?_, ?_, ?_⟩
  · intro size small
    obtain ⟨pointer, heap, bytes, after, returned, next, kept, remains, _⟩ :=
      kmalloc_live flat_laws live small
    refine ⟨pointer, heap, returned, ?_⟩
    intro other owned
    obtain ⟨entry, member, rfl⟩ := entries other owned
    exact keeps_payload flat_laws live next.represents kept member (remains entry member)
  · intro pointer owned
    obtain ⟨heap, bytes, after, returned, next, kept, remains, _⟩ :=
      kfree_live flat_laws live owned
    refine ⟨heap, returned, ?_⟩
    intro other otherOwned different
    obtain ⟨entry, member, rfl⟩ := entries other otherOwned
    exact keeps_payload flat_laws live next.represents kept member
      (remains entry member different)
  · intro minBytes small
    obtain ⟨extended, heap, bytes, returned, only, represents⟩ :=
      kheap_extend_spec flat_laws live.represents (extend_pages_pos small)
    have kept : PayloadsKept blocks memory bytes :=
      payloads_kept_of_headers_only (Nat.le_of_eq live.represents.window.finish.symm)
        (fun entry member => (mem_used.mp member).1) only
    refine ⟨extended, heap, returned, ?_⟩
    intro other owned
    obtain ⟨entry, member, rfl⟩ := entries other owned
    refine keeps_payload flat_laws live represents kept member ?_
    cases extended with
    | false => exact member
    | true =>
        rw [if_pos rfl, used_extend_blocks]
        exact member

theorem willing_run_isolated :
    Isolated freedRun ∧ 0xC2000070 ∈ freedRun.live ∧
      (∃ pointer heap, kmalloc freedRun.heap 24 = some (pointer, heap) ∧
        KeepsPayload freedRun.heap.world heap.world 0xC2000070 ∧
        KeepsPayload freedRun.heap.world heap.world 0xC2000038) ∧
      ∃ heap, kfree freedRun.heap 0xC2000038 = some heap ∧
        KeepsPayload freedRun.heap.world heap.world 0xC2000070 := by
  obtain ⟨isolated, allocated, freed, _⟩ :=
    live_payloads_isolated (freed_run_reachable willing_heap_started.1)
  have large : 0xC2000070 ∈ freedRun.live := by simp [freed_run_live]
  have small : 0xC2000038 ∈ freedRun.live := by simp [freed_run_live]
  obtain ⟨pointer, heap, returned, kept⟩ := allocated 24 (by decide)
  obtain ⟨after, released, stays⟩ := freed 0xC2000038 (Or.inr small)
  exact ⟨isolated, large, ⟨pointer, heap, returned, kept _ large, kept _ small⟩,
    after, released, stays _ large (by decide)⟩

end SimplyOs.KheapIntegrity
