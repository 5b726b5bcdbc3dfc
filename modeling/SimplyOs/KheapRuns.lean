import SimplyOs.KheapCalls
import SimplyOs.Library.Transition

/-!
# Runs of the heap

The clients of the heap allocate, free what they were given and write inside it.
`HeapStep` is one such action on any platform; the list of live pointers is kept
beside the heap. `LiveHeap` is the invariant of these runs: the used blocks of the
represented list are the blocks of the live pointers.
-/

namespace SimplyOs.KheapRuns

open SimplyOs.Word SimplyOs.Kheap SimplyOs.KheapMemory SimplyOs.KheapBlocks
open SimplyOs.KheapExtension SimplyOs.KheapCalls
open SimplyOs.Library.ByteMemory SimplyOs.Library.BlockList SimplyOs.Library.LinkedBlocks
open SimplyOs.Library.Transition

set_option autoImplicit false

structure HeapRun (World : Type) where
  heap : KheapState World
  live : List Nat

inductive HeapCall where
  | malloc (size : Nat)
  | free (pointer : Nat)
  | write (address : Nat) (value : UInt8)

def pointerOf (entry : Nat × Block) : Nat := entry.1 + sizeofBlock

/-- The heap represents `blocks`, and the live pointers are those of its used blocks. -/
structure LiveHeap {World : Type} (Shows : World → Nat → Memory → Prop) (run : HeapRun World)
    (memory : Memory) (blocks : List Block) : Prop where
  represents : Represents Shows run.heap memory blocks
  owned : run.live.Perm ((used kheapStartAddress blocks).map pointerOf)

section Owned

variable {World : Type} {Shows : World → Nat → Memory → Prop} {run : HeapRun World}
variable {memory : Memory} {blocks : List Block} {pointer : Nat}

theorem live_pointer_split (live : LiveHeap Shows run memory blocks)
    (owned : pointer ∈ run.live) :
    ∃ front block back, blocks = front ++ block :: back ∧ block.free = false ∧
      pointer = kheapStartAddress + total front + sizeofBlock := by
  obtain ⟨entry, member, rfl⟩ := List.mem_map.mp (live.owned.mem_iff.mp owned)
  obtain ⟨listed, taken⟩ := mem_used.mp member
  obtain ⟨front, back, same, address⟩ := placed_split listed
  exact ⟨front, entry.2, back, same, taken, by rw [pointerOf, address]⟩

theorem pointer_ne_zero (live : LiveHeap Shows run memory blocks)
    (owned : pointer ∈ run.live) : pointer ≠ 0 := by
  obtain ⟨front, block, back, _, _, rfl⟩ := live_pointer_split live owned
  simp only [sizeofBlock]
  omega

theorem allocates_used {needed : Nat} {after : List Block}
    (allocates : Allocates needed blocks pointer after) :
    pointer = 0 ∧ after = blocks ∨ ∃ address size, pointer = address + sizeofBlock ∧
      needed ≤ size ∧ (used kheapStartAddress after).Perm
        ((address, ⟨size, false⟩) :: used kheapStartAddress blocks) := by
  cases allocates with
  | fail full => exact Or.inl ⟨rfl, rfl⟩
  | fit found =>
      obtain ⟨front, block, back, rfl, rfl, rfl, free, fit⟩ := allocate_split found
      exact Or.inr ⟨_, carvedSize kheapMinBlock needed block, rfl, le_carvedSize fit,
        used_carve_append free fit⟩
  | extend full found =>
      obtain ⟨front, block, back, extended, rfl, rfl, free, fit⟩ := allocate_split found
      refine Or.inr ⟨_, carvedSize kheapMinBlock needed block, rfl, le_carvedSize fit,
        (used_carve_append free fit).trans ?_⟩
      rw [← extended, used_extend_blocks]

theorem allocates_total {needed : Nat} {after : List Block}
    (allocates : Allocates needed blocks pointer after) : total blocks ≤ total after := by
  cases allocates with
  | fail full => exact Nat.le_refl _
  | fit found =>
      obtain ⟨front, block, back, rfl, _, rfl, _, fit⟩ := allocate_split found
      simp [total_carve fit]
  | extend full found =>
      obtain ⟨front, block, back, extended, _, rfl, _, fit⟩ := allocate_split found
      have grown := total_extend_blocks blocks (extendPages needed * pageSize)
      rw [extended, total_append, total_cons] at grown
      rw [total_append, total_append, total_carve fit]
      omega

theorem allocates_filled {needed : Nat} {after : List Block}
    (allocates : Allocates needed blocks pointer after) (filled : blocks ≠ []) : after ≠ [] := by
  cases allocates with
  | fail full => exact filled
  | fit found =>
      obtain ⟨front, block, back, _, _, rfl, _, _⟩ := allocate_split found
      simp [carve_ne_nil]
  | extend full found =>
      obtain ⟨front, block, back, _, _, rfl, _, _⟩ := allocate_split found
      simp [carve_ne_nil]

end Owned

variable {World : Type} [Platform World]

/-- `[pointer, pointer + block_size - 16)` for the block size found in memory. -/
def InPayload (world : World) (pointer address : Nat) : Prop :=
  ∃ size, blockSize world (kheapBlockFromPtr pointer) = some size ∧ pointer ≤ address ∧
    address < kheapBlockFromPtr pointer + size

/-- One call of a client that frees live pointers only, once, and writes inside
live payloads only. -/
inductive HeapStep : HeapRun World → HeapCall → HeapRun World → Prop where
  | malloc {run : HeapRun World} {size pointer : Nat} {heap : KheapState World}
      (small : size ≤ largestSize) (returned : kmalloc run.heap size = some (pointer, heap)) :
      HeapStep run (.malloc size)
        ⟨heap, if pointer = 0 then run.live else pointer :: run.live⟩
  | free {run : HeapRun World} {pointer : Nat} {heap : KheapState World}
      (owned : pointer = 0 ∨ pointer ∈ run.live) (returned : kfree run.heap pointer = some heap) :
      HeapStep run (.free pointer) ⟨heap, run.live.erase pointer⟩
  | write {run : HeapRun World} {pointer address : Nat} {value : UInt8} {world : World}
      (owned : pointer ∈ run.live) (inside : InPayload run.heap.world pointer address)
      (stored : Platform.store8 run.heap.world address value = some world) :
      HeapStep run (.write address value) ⟨{ run.heap with world := world }, run.live⟩

/-- The runs that begin in a given kind of heap, with nothing allocated. -/
def heapRuns (started : KheapState World → Prop) : System (HeapRun World) HeapCall where
  initial run := started run.heap ∧ run.live = []
  step := HeapStep

/-! ## Runs that are computed -/

def inPayload (world : World) (address pointer : Nat) : Bool :=
  match blockSize world (kheapBlockFromPtr pointer) with
  | some size => decide (pointer ≤ address ∧ address < kheapBlockFromPtr pointer + size)
  | none => false

/-- What a call leads to, where the client may make it. -/
def serveCall (run : HeapRun World) : HeapCall → Option (HeapRun World)
  | .malloc size =>
      if size ≤ largestSize then
        (kmalloc run.heap size).map fun result =>
          ⟨result.2, if result.1 = 0 then run.live else result.1 :: run.live⟩
      else none
  | .free pointer =>
      if pointer = 0 ∨ pointer ∈ run.live then
        (kfree run.heap pointer).map fun heap => ⟨heap, run.live.erase pointer⟩
      else none
  | .write address value =>
      if run.live.any (inPayload run.heap.world address) then
        (Platform.store8 run.heap.world address value).map fun world =>
          ⟨{ run.heap with world := world }, run.live⟩
      else none

theorem in_payload_of_test {world : World} {address pointer : Nat}
    (inside : inPayload world address pointer = true) : InPayload world pointer address := by
  unfold inPayload at inside
  cases size : blockSize world (kheapBlockFromPtr pointer) with
  | none => simp [size] at inside
  | some bytes =>
      rw [size] at inside
      exact ⟨bytes, size, of_decide_eq_true inside⟩

theorem serve_call_step {before after : HeapRun World} {call : HeapCall}
    (served : serveCall before call = some after) : HeapStep before call after := by
  cases call with
  | malloc size =>
      rw [serveCall, Option.ite_none_right_eq_some, Option.map_eq_some_iff] at served
      obtain ⟨small, ⟨pointer, heap⟩, returned, rfl⟩ := served
      exact .malloc small returned
  | free pointer =>
      rw [serveCall, Option.ite_none_right_eq_some, Option.map_eq_some_iff] at served
      obtain ⟨owned, heap, returned, rfl⟩ := served
      exact .free owned returned
  | write address value =>
      rw [serveCall, Option.ite_none_right_eq_some, Option.map_eq_some_iff] at served
      obtain ⟨inside, world, stored, rfl⟩ := served
      obtain ⟨pointer, owned, test⟩ := List.any_eq_true.mp inside
      exact .write owned (in_payload_of_test test) stored

theorem served_reachable {started : KheapState World → Prop} {before after : HeapRun World}
    (reachable : Reachable (heapRuns started) before) {calls : List HeapCall}
    (served : calls.foldlM serveCall before = some after) :
    Reachable (heapRuns started) after :=
  reachable_can_reach (fun _ _ _ => serve_call_step) reachable ⟨calls, served⟩

section Calls

variable {Shows : World → Nat → Memory → Prop} {run : HeapRun World} {memory : Memory}
variable {blocks : List Block} {pointer : Nat}

theorem kmalloc_live (laws : PlatformLaws World Shows) (live : LiveHeap Shows run memory blocks)
    {size : Nat} (small : size ≤ largestSize) :
    ∃ pointer heap bytes after, kmalloc run.heap size = some (pointer, heap) ∧
      LiveHeap Shows ⟨heap, if pointer = 0 then run.live else pointer :: run.live⟩ bytes after ∧
      PayloadsKept blocks memory bytes ∧
      (∀ entry ∈ used kheapStartAddress blocks, entry ∈ used kheapStartAddress after) ∧
      (blocks ≠ [] → after ≠ []) ∧ total blocks ≤ total after := by
  by_cases none : size = 0
  · exact ⟨0, run.heap, memory, blocks, kmalloc_zero run.heap none, live,
      fun _ _ => agree_refl, fun _ member => member, id, Nat.le_refl _⟩
  · obtain ⟨pointer, heap, bytes, after, returned, represents, allocates, kept⟩ :=
      kmalloc_spec laws live.represents none small
    refine ⟨pointer, heap, bytes, after, returned, ⟨represents, ?_⟩, kept, ?_,
      allocates_filled allocates, allocates_total allocates⟩
    · rcases allocates_used allocates with ⟨rfl, rfl⟩ | ⟨address, length, rfl, _, list⟩
      · exact live.owned
      · rw [if_neg (by simp only [sizeofBlock]; omega)]
        exact (live.owned.cons _).trans (list.map pointerOf).symm
    · intro entry member
      rcases allocates_used allocates with ⟨_, rfl⟩ | ⟨address, length, _, _, list⟩
      · exact member
      · exact list.mem_iff.mpr (List.mem_cons_of_mem _ member)

/-- Where a free block is large enough, the request is served from the first such block. -/
theorem kmalloc_live_fit (laws : PlatformLaws World Shows)
    (live : LiveHeap Shows run memory blocks) {size address : Nat} {after : List Block}
    (positive : size ≠ 0) (small : size ≤ largestSize)
    (found : allocate kheapMinBlock (kmallocNeeded size) kheapStartAddress blocks =
      some (address, after)) :
    ∃ heap bytes, kmalloc run.heap size = some (address + sizeofBlock, heap) ∧
      LiveHeap Shows ⟨heap, (address + sizeofBlock) :: run.live⟩ bytes after := by
  obtain ⟨pointer, heap, bytes, list, returned, represents, allocates, _⟩ :=
    kmalloc_spec laws live.represents positive small
  have same : pointer = address + sizeofBlock ∧ list = after := by
    cases allocates with
    | fit other =>
        obtain ⟨rfl, rfl⟩ := Prod.mk.inj (Option.some.inj (other.symm.trans found))
        exact ⟨rfl, rfl⟩
    | extend full _ => exact absurd (full.symm.trans found) (by simp)
    | fail full => exact absurd (full.symm.trans found) (by simp)
  obtain ⟨rfl, rfl⟩ := same
  refine ⟨heap, bytes, returned, represents, ?_⟩
  rcases allocates_used allocates with ⟨zero, _⟩ | ⟨block, length, equal, _, used⟩
  · exact absurd zero (Nat.succ_ne_zero _)
  · rw [equal]
    exact (live.owned.cons _).trans (used.map pointerOf).symm

theorem kfree_live (laws : PlatformLaws World Shows) (live : LiveHeap Shows run memory blocks)
    (owned : pointer = 0 ∨ pointer ∈ run.live) :
    ∃ heap bytes after, kfree run.heap pointer = some heap ∧
      LiveHeap Shows ⟨heap, run.live.erase pointer⟩ bytes after ∧
      PayloadsKept blocks memory bytes ∧
      (∀ entry ∈ used kheapStartAddress blocks, pointerOf entry ≠ pointer →
        entry ∈ used kheapStartAddress after) ∧
      (blocks ≠ [] → after ≠ []) ∧ heap.kheapEnd = run.heap.kheapEnd := by
  rcases owned with rfl | owned
  · have absent : 0 ∉ run.live := fun member => pointer_ne_zero live member rfl
    rw [List.erase_of_not_mem absent]
    exact ⟨run.heap, memory, blocks, rfl, live, fun _ _ => agree_refl, fun _ member _ => member,
      id, rfl⟩
  · obtain ⟨front, block, back, rfl, taken, rfl⟩ := live_pointer_split live owned
    obtain ⟨heap, bytes, returned, represents, kept⟩ := kfree_spec laws live.represents
    have finish : heap.kheapEnd = run.heap.kheapEnd := by
      rw [represents.window.finish, live.represents.window.finish, total_normalize]
      simp
    have released : (used kheapStartAddress (front ++ block :: back)).Perm
        ((kheapStartAddress + total front, block) ::
          used kheapStartAddress (front ++ ⟨block.size, true⟩ :: back)) :=
      used_release_append taken
    refine ⟨heap, bytes, _, returned, ⟨represents, ?_⟩, kept, ?_,
      fun _ => normalize_ne_nil (by simp), finish⟩
    · rw [used_normalize]
      have erased := (live.owned.trans (released.map pointerOf)).erase
        (kheapStartAddress + total front + sizeofBlock)
      simpa [pointerOf] using erased
    · intro entry member different
      rw [used_normalize]
      rcases List.mem_cons.mp (released.mem_iff.mp member) with same | other
      · exact absurd (by rw [same]; rfl) different
      · exact other

theorem payload_apart_from_headers {limit address : Nat} {entry other : Nat × Block}
    (window : Window limit memory blocks) (owned : entry ∈ used kheapStartAddress blocks)
    (listed : other ∈ placed kheapStartAddress blocks) (lower : entry.1 + sizeofBlock ≤ address)
    (upper : address < entry.1 + entry.2.size) :
    address < other.1 ∨ other.1 + sizeofBlock ≤ address := by
  have large := window.sized other.2 (placed_bounds listed).2.2
  simp only [kheapMinBlock] at large
  rcases placed_disjoint (mem_used.mp owned).1 listed with same | before | behind
  · rw [← same]
    exact Or.inr lower
  · exact Or.inl (by omega)
  · exact Or.inr (by omega)

theorem write_live (laws : PlatformLaws World Shows) (live : LiveHeap Shows run memory blocks)
    (owned : pointer ∈ run.live) {address : Nat} (value : UInt8)
    (inside : InPayload run.heap.world pointer address) :
    ∃ world bytes, Platform.store8 run.heap.world address value = some world ∧
      LiveHeap Shows ⟨{ run.heap with world := world }, run.live⟩ bytes blocks := by
  obtain ⟨entry, member, rfl⟩ := List.mem_map.mp (live.owned.mem_iff.mp owned)
  have window := live.represents.window
  have listed := (mem_used.mp member).1
  obtain ⟨lower, upper, _⟩ := placed_bounds listed
  obtain ⟨size, read, above, below⟩ := inside
  have header := block_size_eq laws live.represents.shows (window_entry_inside window listed)
  rw [(segment_status window.threaded listed).1] at header
  have back : kheapBlockFromPtr (pointerOf entry) = entry.1 := Nat.add_sub_cancel _ _
  rw [back, header] at read
  obtain rfl := Option.some.inj read
  rw [back] at below
  have finish := window.finish
  simp only [pointerOf] at above
  obtain ⟨world, stored, shown⟩ := laws.store8 address value live.represents.shows (by omega)
    (by omega)
  refine ⟨world, _, stored, ⟨⟨live.represents.start, live.represents.first, shown, ?_,
    live.represents.separated, live.represents.paged⟩, live.owned⟩⟩
  refine ⟨window.finish, segment_congr ?_ window.threaded, window.sized, window.grained,
    window.bounded⟩
  intro other otherListed
  have apart := payload_apart_from_headers window member otherListed above below
  simp only [sizeofBlock] at apart
  exact header_of_agree (agree_store8 (by omega)) (Nat.le_refl _) (Nat.le_refl _)

/-- `kheap_init` always returns, with the fresh heap or, when the first pages
cannot be had, with an empty one. -/
theorem kheap_init_live (laws : PlatformLaws World Shows) {world : World}
    (shows : Shows world kheapStartAddress memory) :
    ∃ heap bytes after, kheapInit world = some heap ∧ LiveHeap Shows ⟨heap, []⟩ bytes after := by
  have empty : Represents Shows
      { kheapStart := kheapStartAddress, kheapEnd := kheapStartAddress, kheapFirst := 0,
        world := world } memory [] :=
    ⟨rfl, rfl, shows, ⟨rfl, trivial, by simp, by simp, by simp⟩, by simp, by simp⟩
  obtain ⟨extended, heap, bytes, run, _, represents⟩ :=
    kheap_extend_spec laws empty (by decide : 0 < extendPages pageSize)
  refine ⟨heap, bytes, _, by rw [kheapInit, run]; rfl, ⟨represents, ?_⟩⟩
  cases extended with
  | false => exact List.Perm.refl _
  | true =>
      rw [if_pos rfl, used_extend_blocks]
      exact List.Perm.refl _

theorem heap_step_live (laws : PlatformLaws World Shows) (live : LiveHeap Shows run memory blocks)
    {call : HeapCall} {next : HeapRun World} (taken : HeapStep run call next) :
    ∃ bytes after, LiveHeap Shows next bytes after ∧ (blocks ≠ [] → after ≠ []) := by
  cases taken with
  | malloc small returned =>
      obtain ⟨pointer, heap, bytes, after, run, nextLive, _, _, filled, _⟩ :=
        kmalloc_live laws live small
      obtain ⟨rfl, rfl⟩ := Prod.mk.inj (Option.some.inj (run.symm.trans returned))
      exact ⟨bytes, after, nextLive, filled⟩
  | free owned returned =>
      obtain ⟨heap, bytes, after, run, nextLive, _, _, filled, _⟩ := kfree_live laws live owned
      obtain rfl := Option.some.inj (run.symm.trans returned)
      exact ⟨bytes, after, nextLive, filled⟩
  | write owned inside stored =>
      obtain ⟨world, bytes, run, nextLive⟩ := write_live laws live owned _ inside
      obtain rfl := Option.some.inj (run.symm.trans stored)
      exact ⟨bytes, blocks, nextLive, id⟩

end Calls

end SimplyOs.KheapRuns
