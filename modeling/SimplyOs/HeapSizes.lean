import SimplyOs.HeapRequests

/-!
# Sizes up to the last one

`kmalloc` adds the header and the alignment to a 32-bit size and rounds the sum up,
all modulo `2 ^ 32`. The 23 largest sizes wrap to the least block, so that a block
much smaller than asked is given away; the 4088 sizes below them keep their value
but wrap in `kheap_extend`, so that no page is mapped and the call does not end.
-/

namespace SimplyOs.HeapSizes

open SimplyOs.Word SimplyOs.Kheap SimplyOs.KheapMemory SimplyOs.KheapBlocks
open SimplyOs.KheapExtension SimplyOs.KheapCalls SimplyOs.KheapRuns SimplyOs.KheapIntegrity
open SimplyOs.OversizedRequests SimplyOs.Multiboot SimplyOs.PmmOwnership
open SimplyOs.Paging SimplyOs.PagingTables SimplyOs.PageMaps SimplyOs.MachineHeap
open SimplyOs.HeapBacking SimplyOs.FrameBudget SimplyOs.HeapRequests
open SimplyOs.Library.ByteMemory SimplyOs.Library.BlockList SimplyOs.Library.LinkedBlocks
open SimplyOs.Library.PageTree SimplyOs.Library.Transition

set_option autoImplicit false

variable {layout : PagingLayout}

/-! ## Large enough -/

/-- A pointer that `kmalloc` returns belongs to a block with room for the size. -/
def LargeEnough (heap : KheapState (Machine layout)) (size : Nat) : Prop :=
  ∀ pointer next, kmalloc heap size = some (pointer, next) → pointer ≠ 0 →
    ∃ length, blockSize next.world (kheapBlockFromPtr pointer) = some length ∧
      size ≤ length - sizeofBlock

section Blocks

variable {heap : KheapState (Machine layout)} {clients : List Nat} {memory : Memory}
variable {blocks : List Block} {needed : Nat}

theorem kmalloc_block_size (represents : Represents (MachineShows clients) heap memory blocks)
    (served : Served needed) (fuel : Nat) :
    ∃ pointer next, kmallocLoop needed (fuel + 2) heap = some (pointer, next) ∧
      (pointer ≠ 0 → ∃ length, blockSize next.world (kheapBlockFromPtr pointer) = some length ∧
        needed ≤ length ∧ length ≤ kheapMaxBytes) := by
  have laws := @machine_laws layout clients
  obtain ⟨pointer, next, bytes, after, returned, represented, allocates, _⟩ :=
    kmalloc_loop_spec laws represents served.large served.small served.grained fuel
  refine ⟨pointer, next, returned, ?_⟩
  intro nonzero
  rcases allocates_used allocates with ⟨null, _⟩ | ⟨address, length, rfl, enough, list⟩
  · exact absurd null nonzero
  · have member : (address, (⟨length, false⟩ : Block)) ∈ used kheapStartAddress after :=
      list.mem_iff.mpr (List.mem_cons_self ..)
    have listed := (mem_used.mp member).1
    have inside := size_le_total (placed_bounds listed).2.2
    have read := size_behind_eq laws represented.shows represented.window listed
    exact ⟨length, read, enough, Nat.le_trans inside represented.window.bounded⟩

/-- A size whose rounding wraps is given the least block, unless none can be had. -/
theorem wrapped_large_enough_iff (represents : Represents (MachineShows clients) heap memory blocks)
    {size : Nat} (some : size ≠ 0) (large : largestRounded < size)
    (wraps : kmallocNeeded size = kheapMinBlock) :
    LargeEnough heap size ↔ ¬BlockFits heap kheapMinBlock ∧
      ¬PagesFit heap.world heap.kheapEnd kheapGrowPages := by
  have served : Served kheapMinBlock := ⟨Nat.le_refl _, by decide, by decide⟩
  have pages : extendPages kheapMinBlock = kheapGrowPages := by decide
  obtain ⟨fuel, _, loop⟩ := kmalloc_eq_loop heap some
  obtain ⟨pointer, next, returned, null, _⟩ := machine_kmalloc_outcome represents served fuel
  obtain ⟨same, after, again, block⟩ := kmalloc_block_size represents served fuel
  obtain ⟨rfl, rfl⟩ := Prod.mk.inj (Option.some.inj (again.symm.trans returned))
  rw [wraps, returned] at loop
  rw [pages] at null
  constructor
  · intro enough
    by_contra possible
    have nonzero : same ≠ 0 := fun zero => possible (null.mp zero)
    obtain ⟨length, read, room⟩ := enough same after loop nonzero
    obtain ⟨other, otherRead, _, bounded⟩ := block nonzero
    obtain rfl := Option.some.inj (read.symm.trans otherRead)
    unfold largestRounded at large
    unfold kheapMaxBytes at bounded
    omega
  · intro exhausted pointer next found nonzero
    rw [loop] at found
    exact absurd ((Prod.mk.inj (Option.some.inj found)).1.symm.trans (null.mpr exhausted)) nonzero

end Blocks

/-- An allocation has the size asked for, unless the size wraps and some block is
given away all the same. -/
theorem allocation_large_enough_iff {boot : BootInfo} {run : MachineRun layout}
    (reachable : Reachable (requestRuns layout boot) run) {size : Nat} (word : size < 2 ^ 32) :
    LargeEnough run.heap size ↔
      size ≤ largestRounded ∨ ¬BlockFits run.heap kheapMinBlock ∧
        ¬PagesFit run.heap.world run.heap.kheapEnd kheapGrowPages := by
  obtain ⟨memory, blocks, live⟩ := request_run_live reachable
  by_cases none : size = 0
  · have failed := kmalloc_zero run.heap none
    constructor
    · intro _
      rw [none]
      exact Or.inl (Nat.zero_le _)
    · intro _ pointer next returned nonzero
      rw [failed] at returned
      exact absurd (Prod.mk.inj (Option.some.inj returned)).1.symm nonzero
  rcases kmalloc_needed_cases word with small | ⟨large, wraps⟩ | ⟨⟨_, below⟩, large, small⟩
  · have rounded : size ≤ largestRounded := Nat.le_trans small (by decide)
    obtain ⟨enough, _⟩ := kmalloc_needed_bounds small
    obtain ⟨fuel, _, loop⟩ := kmalloc_eq_loop run.heap none
    obtain ⟨pointer, next, returned, block⟩ :=
      kmalloc_block_size live.represents (needed_served small) fuel
    refine ⟨fun _ => Or.inl rounded, ?_⟩
    intro _ other after same nonzero
    rw [loop, returned] at same
    obtain ⟨rfl, rfl⟩ := Prod.mk.inj (Option.some.inj same)
    obtain ⟨length, read, room, _⟩ := block nonzero
    exact ⟨length, read, by omega⟩
  · rw [wrapped_large_enough_iff live.represents none large wraps]
    constructor
    · exact Or.inr
    · exact fun good => good.resolve_left (Nat.not_le.mpr large)
  · refine ⟨fun _ => Or.inl below, ?_⟩
    intro _ pointer next returned nonzero
    rcases kmalloc_oversized (machine_laws run.clients) live.represents large small with
      ⟨_, failed⟩ | ⟨_, stuck⟩
    · rw [failed] at returned
      exact absurd (Prod.mk.inj (Option.some.inj returned)).1.symm nonzero
    · rw [stuck] at returned
      exact absurd returned (by simp)

theorem small_heap_large_enough :
    ∃ machine heap, bootMachine smallPaging smallBoot (fun _ => 0) = some machine ∧
      kheapInit machine = some heap ∧
      (LargeEnough heap 24 ↔ 24 ≤ largestRounded ∨ ¬BlockFits heap kheapMinBlock ∧
        ¬PagesFit heap.world heap.kheapEnd kheapGrowPages) := by
  obtain ⟨machine, heap, booted, started, _, reachable⟩ := small_heap_started
  exact ⟨machine, heap, booted, started, allocation_large_enough_iff reachable (by decide)⟩

/-- The largest size is given a block of 24 bytes. -/
theorem largest_size_gets_least_block :
    ∃ machine heap pointer next, bootMachine smallPaging smallBoot (fun _ => 0) = some machine ∧
      kheapInit machine = some heap ∧ kmalloc heap 0xFFFFFFFF = some (pointer, next) ∧
      pointer ≠ 0 ∧ blockSize next.world (kheapBlockFromPtr pointer) = some 24 := by
  obtain ⟨machine, heap, booted, started, small, _⟩ := small_heap_started
  obtain ⟨memory, represents⟩ := small.represents
  have laws := @machine_laws smallPaging []
  have needed : kmallocNeeded 0xFFFFFFFF = kheapMinBlock := by decide
  have found : allocate kheapMinBlock kheapMinBlock kheapStartAddress [⟨16384, true⟩] =
      some (kheapStartAddress, [⟨24, false⟩, ⟨16360, true⟩]) := by decide
  obtain ⟨fuel, _, loop⟩ := kmalloc_eq_loop heap (by decide : 0xFFFFFFFF ≠ 0)
  obtain ⟨next, bytes, returned, represented, _⟩ :=
    kmalloc_round_fit laws represents (Nat.le_refl _) (by decide) (fuel + 1) found
  have listed : (kheapStartAddress, (⟨24, false⟩ : Block)) ∈
      placed kheapStartAddress [⟨24, false⟩, ⟨16360, true⟩] := List.mem_cons_self ..
  have read := size_behind_eq laws represented.shows represented.window listed
  rw [needed, returned] at loop
  exact ⟨machine, heap, _, next, booted, started, loop, Nat.succ_ne_zero _, read⟩

/-! ## Always returning -/

def HeaderMapped (machine : Machine layout) (block : Nat) : Prop :=
  ∀ address, block ≤ address → address < block + sizeofBlock →
    pageMapOf machine (address / pageSize) ≠ none

/-- `kmalloc` returns after two scans at most. A store to an unmapped page is no
result, so the headers that it writes on its way are mapped when it writes them; they
are the headers on the list and, after an extension, the one at the old end. -/
structure KmallocEnds (heap : KheapState (Machine layout)) (size : Nat) : Prop where
  returns : ∃ pointer next, kmalloc heap size = some (pointer, next) ∧
    (size ≠ 0 → kmallocLoop (kmallocNeeded size) 2 heap = some (pointer, next)) ∧
    ∀ entries, Follows next.world next.kheapFirst entries →
      ∀ entry ∈ entries, HeaderMapped next.world entry.1
  found : ∀ next, kheapExtend heap (kmallocNeeded size) = some (true, next) →
    BlockFits next (kmallocNeeded size) ∧ HeaderMapped next.world heap.kheapEnd ∧
      ∃ block, block ≠ 0 ∧
        kheapFindFit next.world (kmallocNeeded size) loopFuel next.kheapFirst = some block

section Ending

variable {heap : KheapState (Machine layout)} {clients : List Nat} {memory : Memory}
variable {blocks : List Block} {needed : Nat}

theorem shown_header_mapped {machine : Machine layout} {limit block : Nat}
    (shows : MachineShows clients machine limit memory) (lower : kheapStartAddress ≤ block)
    (upper : block + sizeofBlock ≤ limit) : HeaderMapped machine block := by
  intro address above below
  obtain ⟨inside, entry, mapped, _⟩ := shown_place shows (Nat.le_trans lower above)
    (Nat.lt_of_lt_of_le below upper)
  have mapped : pageEntry machine.memory (pdPhys layout) (address / pageSize) = some entry := mapped
  rw [pageMapOf, if_pos (heap_page_below layout inside).1, mapped]
  exact Option.some_ne_none _

theorem listed_headers_mapped (represents : Represents (MachineShows clients) heap memory blocks)
    {entries : List (Nat × Header)} (follows : Follows heap.world heap.kheapFirst entries) :
    ∀ entry ∈ entries, HeaderMapped heap.world entry.1 := by
  intro entry member
  rw [follows_unique follows (represents_follows (machine_laws clients) represents)] at member
  have inside := window_entry_inside represents.window (mem_headers_placed member)
  exact shown_header_mapped represents.shows inside.lower inside.upper

theorem extended_finds (represents : Represents (MachineShows clients) heap memory blocks)
    (served : Served needed) {next : KheapState (Machine layout)}
    (grown : kheapExtend heap needed = some (true, next)) :
    BlockFits next needed ∧ HeaderMapped next.world heap.kheapEnd ∧
      ∃ block, block ≠ 0 ∧ kheapFindFit next.world needed loopFuel next.kheapFirst = some block := by
  have laws := @machine_laws layout clients
  have filled := extend_pages_pos served.small
  obtain ⟨lower, _, _⟩ := represented_end represents
  obtain ⟨extended, after, bytes, run, represented, _⟩ := machine_extend_outcome represents filled
  obtain ⟨rfl, rfl⟩ := Prod.mk.inj (Option.some.inj (run.symm.trans grown))
  rw [if_pos rfl] at represented
  obtain ⟨⟨address, list⟩, found⟩ := allocate_extended served.small blocks
  have fits : BlockFits after needed := by
    by_contra misfit
    rw [(allocate_none_iff laws represented).mpr misfit] at found
    exact absurd found (by simp)
  have scan := scan_eq laws represented needed
  rw [← allocate_address kheapMinBlock, found] at scan
  obtain ⟨front, block, back, _, place, _⟩ := allocate_split found
  refine ⟨fits, ?_, address, ?_, scan⟩
  · apply shown_header_mapped represented.shows lower
    have finish := represents.window.finish
    have grownFinish := represented.window.finish
    rw [total_extend_blocks] at grownFinish
    have header : sizeofBlock ≤ extendPages needed * pageSize :=
      Nat.le_trans (by decide : sizeofBlock ≤ pageSize) (Nat.le_mul_of_pos_left pageSize filled)
    omega
  · rw [place]
    unfold kheapStartAddress
    omega

end Ending

theorem kmalloc_loop_mono {World : Type} [Platform World] {needed : Nat}
    {result : Nat × KheapState World} (more fuel : Nat) {heap : KheapState World}
    (returned : kmallocLoop needed fuel heap = some result) :
    kmallocLoop needed (fuel + more) heap = some result := by
  induction fuel generalizing heap with
  | zero => exact absurd returned (by simp [kmallocLoop])
  | succ fuel ih =>
      rw [Nat.succ_add]
      obtain ⟨cur, scan, rest⟩ := Option.bind_eq_some_iff.mp returned
      rw [kmallocLoop, scan, Option.bind_eq_bind, Option.bind_some]
      by_cases found : cur ≠ 0
      · rw [if_pos found] at rest ⊢
        exact rest
      · rw [if_neg found] at rest ⊢
        obtain ⟨⟨extended, next⟩, grown, again⟩ := Option.bind_eq_some_iff.mp rest
        rw [grown, Option.bind_eq_bind, Option.bind_some]
        cases extended with
        | true => exact ih again
        | false => exact again

theorem served_ends {heap : KheapState (Machine layout)} {clients : List Nat} {memory : Memory}
    {blocks : List Block} (represents : Represents (MachineShows clients) heap memory blocks)
    {size : Nat} (served : Served (kmallocNeeded size)) : KmallocEnds heap size := by
  have laws := @machine_laws layout clients
  refine ⟨?_, fun next grown => extended_finds represents served grown⟩
  by_cases none : size = 0
  · exact ⟨0, heap, kmalloc_zero heap none, fun positive => absurd none positive,
      fun entries follows => listed_headers_mapped represents follows⟩
  · obtain ⟨pointer, next, bytes, after, returned, represented, _⟩ :=
      kmalloc_loop_spec laws represents served.large served.small served.grained 0
    obtain ⟨fuel, _, loop⟩ := kmalloc_eq_loop heap none
    rw [Nat.add_comm] at loop
    exact ⟨pointer, next, loop.trans (kmalloc_loop_mono fuel 2 returned), fun _ => returned,
      fun entries follows => listed_headers_mapped represented follows⟩

/-- `kmalloc` ends after at most one extension, unless the pages of the request wrap
to none while the window still has room. -/
theorem kmalloc_ends_iff {boot : BootInfo} {run : MachineRun layout}
    (reachable : Reachable (requestRuns layout boot) run) {size : Nat} (word : size < 2 ^ 32) :
    KmallocEnds run.heap size ↔
      size ≤ largestSize ∨ largestRounded < size ∨ kheapMaxBytes ≤ kheapTotalBytes run.heap := by
  obtain ⟨memory, blocks, live⟩ := request_run_live reachable
  have represents := live.represents
  have laws := @machine_laws layout run.clients
  rcases kmalloc_needed_cases word with small | ⟨large, wraps⟩ | ⟨⟨above, below⟩, large, small⟩
  · exact ⟨fun _ => Or.inl small, fun _ => served_ends represents (needed_served small)⟩
  · refine ⟨fun _ => Or.inr (Or.inl large), fun _ => served_ends represents ?_⟩
    rw [wraps]
    exact ⟨Nat.le_refl _, by decide, by decide⟩
  · rcases kmalloc_oversized laws represents large small with ⟨full, failed⟩ | ⟨room, stuck⟩
    · refine ⟨fun _ => Or.inr (Or.inr full), fun _ => ⟨⟨0, run.heap, failed, ?_, ?_⟩, ?_⟩⟩
      · intro _
        rcases OversizedRequests.oversized_outcome laws represents large small 1 with
          ⟨_, loop⟩ | ⟨room, _⟩
        · exact loop
        · exact absurd full (Nat.not_le.mpr room)
      · exact fun entries follows => listed_headers_mapped represents follows
      · intro next grown
        have atEnd : sub32 run.heap.kheapEnd run.heap.kheapStart ≥ kheapMaxBytes := full
        rw [kheapExtend, if_pos atEnd] at grown
        exact Bool.noConfusion (Prod.mk.inj (Option.some.inj grown)).1
    · constructor
      · intro ends
        obtain ⟨_, _, returned, _⟩ := ends.returns
        rw [stuck] at returned
        exact absurd returned (by simp)
      · rintro (little | wraps | full)
        · exact absurd little (Nat.not_le.mpr above)
        · exact absurd wraps (Nat.not_lt.mpr below)
        · exact absurd full (Nat.not_le.mpr room)

theorem small_kmalloc_ends :
    ∃ machine heap, bootMachine smallPaging smallBoot (fun _ => 0) = some machine ∧
      kheapInit machine = some heap ∧
      (KmallocEnds heap 24 ↔ 24 ≤ largestSize ∨ largestRounded < 24 ∨
        kheapMaxBytes ≤ kheapTotalBytes heap) := by
  obtain ⟨machine, heap, booted, started, _, reachable⟩ := small_heap_started
  exact ⟨machine, heap, booted, started, kmalloc_ends_iff reachable (by decide)⟩

/-- On a fresh heap a request of `0xFFFFEFF1` bytes does not return. -/
theorem wrapping_request_does_not_return :
    ∃ machine heap, bootMachine smallPaging smallBoot (fun _ => 0) = some machine ∧
      kheapInit machine = some heap ∧ kmalloc heap 0xFFFFEFF1 = none := by
  obtain ⟨machine, heap, booted, started, small, _⟩ := small_heap_started
  obtain ⟨memory, represents⟩ := small.represents
  have finish := represents.window.finish
  obtain ⟨_, _, bytes⟩ := represented_end represents
  have room : kheapTotalBytes heap < kheapMaxBytes := by
    rw [bytes, finish]
    decide
  have large : largestNeeded < kmallocNeeded 0xFFFFEFF1 := by decide
  rcases kmalloc_oversized (machine_laws []) represents large (by decide) with ⟨full, _⟩ | ⟨_, stuck⟩
  · exact absurd full (Nat.not_le.mpr room)
  · exact ⟨machine, heap, booted, started, stuck⟩

end SimplyOs.HeapSizes
