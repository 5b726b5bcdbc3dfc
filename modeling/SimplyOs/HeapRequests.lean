import SimplyOs.HeapBacking
import SimplyOs.FrameBudget
import SimplyOs.OversizedRequests
import SimplyOs.KheapIntegrity

/-!
# Requests of any size on the machine

The runs in which clients may ask for any 32-bit size. They reach no state that the
runs of `HeapBacking` do not reach: a size that wraps to the least block is served
like 1, and one whose pages wrap fails without a trace or never returns. For all
other sizes `kmalloc` fails exactly when no listed free block is large enough and
the pages it asks for do not fit.
-/

namespace SimplyOs.HeapRequests

open SimplyOs.Word SimplyOs.Kheap SimplyOs.KheapMemory SimplyOs.KheapBlocks
open SimplyOs.KheapExtension SimplyOs.KheapCalls SimplyOs.KheapRuns SimplyOs.KheapIntegrity
open SimplyOs.OversizedRequests SimplyOs.Multiboot SimplyOs.Pmm SimplyOs.PmmFrames
open SimplyOs.PmmOwnership SimplyOs.PageMaps
open SimplyOs.Paging SimplyOs.PagingTables SimplyOs.MachineHeap SimplyOs.HeapBacking
open SimplyOs.FrameBudget
open SimplyOs.Library.ByteMemory SimplyOs.Library.BlockList SimplyOs.Library.LinkedBlocks
open SimplyOs.Library.PageTree
open SimplyOs.Library.Transition

set_option autoImplicit false

variable {layout : PagingLayout}

inductive RequestCall where
  | call (call : MachineCall)
  | request (size : Nat)

/-- A call as before, or a request of any size that returns. -/
inductive RequestStep : MachineRun layout → RequestCall → MachineRun layout → Prop where
  | call {run next : MachineRun layout} {call : MachineCall} (taken : MachineStep run call next) :
      RequestStep run (.call call) next
  | request {run : MachineRun layout} {size pointer : Nat} {heap : KheapState (Machine layout)}
      (word : size < 2 ^ 32) (returned : kmalloc run.heap size = some (pointer, heap)) :
      RequestStep run (.request size)
        ⟨heap, if pointer = 0 then run.live else pointer :: run.live, run.clients⟩

def requestRuns (layout : PagingLayout) (boot : BootInfo) :
    System (MachineRun layout) RequestCall where
  initial := HeapStarted boot
  step := RequestStep

/-! ## Scans -/

section Scans

variable {World : Type} [Platform World] {Shows : World → Nat → Memory → Prop}
variable {heap : KheapState World} {memory : Memory} {blocks : List Block} {needed : Nat}

def BlockFits (heap : KheapState World) (needed : Nat) : Prop :=
  ∃ entries, Follows heap.world heap.kheapFirst entries ∧
    ∃ entry ∈ entries, entry.2.free = true ∧ needed ≤ entry.2.size

theorem block_fits_iff (laws : PlatformLaws World Shows)
    (represents : Represents Shows heap memory blocks) :
    BlockFits heap needed ↔ ∃ block ∈ blocks, fits needed block = true := by
  have follows := represents_follows laws represents
  constructor
  · rintro ⟨entries, listed, entry, member, free, room⟩
    rw [follows_unique listed follows] at member
    have inside := (placed_bounds (mem_headers_placed member)).2.2
    refine ⟨_, inside, ?_⟩
    simp [fits, free, room]
  · rintro ⟨block, member, fit⟩
    obtain ⟨front, back, rfl⟩ := List.append_of_mem member
    have bits : block.free = true ∧ needed ≤ block.size := by simpa [fits] using fit
    refine ⟨_, follows, ?_⟩
    have listed := entry_mem_placed front back block
    rw [← headers_map_placed 0 0] at listed
    obtain ⟨entry, entryListed, same⟩ := List.mem_map.mp listed
    have parts := Prod.mk.inj same
    refine ⟨entry, entryListed, ?_⟩
    have block_eq := parts.2
    rw [← block_eq] at bits
    exact bits

theorem allocate_none_iff (laws : PlatformLaws World Shows)
    (represents : Represents Shows heap memory blocks) :
    allocate kheapMinBlock needed kheapStartAddress blocks = none ↔ ¬BlockFits heap needed := by
  rw [allocate_none, block_fits_iff laws represents]
  simp

end Scans

/-! ## Requests -/

section Outcomes

variable {heap : KheapState (Machine layout)} {clients : List Nat} {memory : Memory}
variable {blocks : List Block} {needed : Nat}

/-- A block size whose pages do not wrap. -/
structure Served (needed : Nat) : Prop where
  large : kheapMinBlock ≤ needed
  small : needed ≤ largestNeeded
  grained : kheapAlignment ∣ needed

/-- On the machine `kmalloc` fails exactly when no free block is large enough and the
pages it asks for do not fit; what it took before is still taken then. -/
theorem machine_kmalloc_outcome (represents : Represents (MachineShows clients) heap memory blocks)
    (served : Served needed) (fuel : Nat) :
    ∃ pointer next, kmallocLoop needed (fuel + 2) heap = some (pointer, next) ∧
      (pointer = 0 ↔ ¬BlockFits heap needed ∧
        ¬PagesFit heap.world heap.kheapEnd (extendPages needed)) ∧
      (pointer = 0 → next = { heap with world := next.world } ∧
        ∃ frames taken, LoopTaken heap.world next.world frames clients heap.kheapEnd
          (extendPages needed) none taken) := by
  have laws := @machine_laws layout clients
  cases found : allocate kheapMinBlock needed kheapStartAddress blocks with
  | some result =>
      obtain ⟨next, _, run, _⟩ :=
        kmalloc_round_fit laws represents served.large served.grained (fuel + 1) found
      have fits : BlockFits heap needed := by
        by_contra misfit
        rw [(allocate_none_iff laws represents).mpr misfit] at found
        exact absurd found (by simp)
      have nonzero : result.1 + sizeofBlock ≠ 0 := Nat.succ_ne_zero _
      refine ⟨_, next, run, ⟨fun null => absurd null nonzero, ?_⟩, fun null => absurd null nonzero⟩
      rintro ⟨misfit, _⟩
      exact absurd fits misfit
  | none =>
      have misfit := (allocate_none_iff laws represents).mp found
      obtain ⟨extended, next, bytes, run, represented, fit, failed, _⟩ :=
        machine_extend_outcome represents (extend_pages_pos served.small)
      rw [kmalloc_round_full laws represents (fuel + 1) found, run, Option.bind_some]
      cases extended with
      | false =>
          refine ⟨0, next, rfl, ?_, fun _ => failed rfl⟩
          have unfit : ¬PagesFit heap.world heap.kheapEnd (extendPages needed) :=
            fun pages => Bool.false_ne_true (fit.mpr pages)
          simp [misfit, unfit]
      | true =>
          obtain ⟨found, again⟩ := allocate_extended served.small blocks
          obtain ⟨last, _, returned, _⟩ :=
            kmalloc_round_fit laws represented served.large served.grained fuel again
          have nonzero : found.1 + sizeofBlock ≠ 0 := Nat.succ_ne_zero _
          refine ⟨_, last, returned, ⟨fun null => absurd null nonzero, ?_⟩,
            fun null => absurd null nonzero⟩
          rintro ⟨_, unfit⟩
          exact absurd (fit.mp rfl) unfit

end Outcomes

/-! ## Sizes -/

theorem needed_served {size : Nat} (small : size ≤ largestSize) : Served (kmallocNeeded size) := by
  obtain ⟨_, large, below, grained⟩ := kmalloc_needed_bounds small
  exact ⟨large, below, grained⟩

theorem kmalloc_size_cases {size : Nat} (word : size < 2 ^ 32) :
    Served (kmallocNeeded size) ∨
      largestNeeded < kmallocNeeded size ∧ kmallocNeeded size < 2 ^ 32 := by
  rcases kmalloc_needed_cases word with small | ⟨_, wraps⟩ | ⟨_, oversized⟩
  · exact Or.inl (needed_served small)
  · rw [wraps]
    exact Or.inl ⟨Nat.le_refl _, by decide, by decide⟩
  · exact Or.inr oversized

theorem kmalloc_eq_loop {World : Type} [Platform World] (heap : KheapState World) {size : Nat}
    (positive : size ≠ 0) :
    ∃ fuel, loopFuel = fuel + 2 ∧ kmalloc heap size = kmallocLoop (kmallocNeeded size) (fuel + 2) heap := by
  obtain ⟨fuel, enough⟩ : ∃ fuel, loopFuel = fuel + 2 := ⟨loopFuel - 2, by decide⟩
  refine ⟨fuel, enough, ?_⟩
  rw [kmalloc, if_neg positive, enough]

/-! ## Runs -/

/-- Requests of any size lead to no other states. -/
theorem request_run_machine {boot : BootInfo} {run : MachineRun layout}
    (reachable : Reachable (requestRuns layout boot) run) :
    Reachable (machineRuns layout boot) run := by
  apply reachable_invariant _ _ reachable
  · exact fun _ initial => .start initial
  · intro run call next before taken
    cases taken with
    | call taken => exact .next before taken
    | request word returned =>
        obtain ⟨memory, blocks, live⟩ := machine_run_live before
        rcases request_served (machine_laws run.clients) live.represents word returned with
          ⟨rfl, rfl⟩ | ⟨small, served, same⟩
        · exact before
        · exact .next before (.heap (.malloc served same))

theorem request_run_live {boot : BootInfo} {run : MachineRun layout}
    (reachable : Reachable (requestRuns layout boot) run) :
    ∃ memory blocks, LiveHeap (MachineShows run.clients) ⟨run.heap, run.live⟩ memory blocks :=
  machine_run_live (request_run_machine reachable)

theorem small_heap_started :
    ∃ machine heap, bootMachine smallPaging smallBoot (fun _ => 0) = some machine ∧
      kheapInit machine = some heap ∧ SmallHeap heap ∧
      Reachable (requestRuns smallPaging smallBoot) ⟨heap, [], []⟩ := by
  obtain ⟨machine, heap, booted, initialised, small, started⟩ := small_heap_initialised
  exact ⟨machine, heap, booted, initialised, small, .start started⟩

end SimplyOs.HeapRequests
