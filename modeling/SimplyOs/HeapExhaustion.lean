import SimplyOs.HeapRequests

/-!
# When memory runs out

What a failed `kmalloc` leaves behind, and when it fails. `kheap_extend` gives back
only the frame of the page that could not be mapped, so a failed call leaks nothing
exactly when it mapped no page before. It fails when no free block is large enough
and the whole extension, at least four pages, does not fit.
-/

namespace SimplyOs.HeapExhaustion

open SimplyOs.Word SimplyOs.Kheap SimplyOs.KheapMemory SimplyOs.KheapBlocks
open SimplyOs.KheapExtension SimplyOs.KheapCalls SimplyOs.KheapRuns SimplyOs.KheapIntegrity
open SimplyOs.Multiboot SimplyOs.Pmm SimplyOs.PmmFrames SimplyOs.PmmOwnership
open SimplyOs.Paging SimplyOs.PagingTables SimplyOs.PageMaps SimplyOs.MachineHeap
open SimplyOs.HeapBacking SimplyOs.FrameBudget SimplyOs.HeapRequests
open SimplyOs.Library.ByteMemory SimplyOs.Library.BlockList SimplyOs.Library.LinkedBlocks
open SimplyOs.Library.PageTree SimplyOs.Library.Transition

set_option autoImplicit false

variable {layout : PagingLayout}

/-! ## Leaks -/

/-- How many page tables are installed after a call and were not before. -/
def tablesCreated (before after : Machine layout) : Nat :=
  ((List.range selfSlot).filter fun index =>
    slotPresent after.memory (pdPhys layout) index &&
      !slotPresent before.memory (pdPhys layout) index).length

/-- The list and the end of the heap are as before, no page of the window is newly
mapped, and of the frames that were unused before only page tables are used. -/
structure LeaksNothing (before after : KheapState (Machine layout)) : Prop where
  list : ∀ entries, Follows after.world after.kheapFirst entries ↔
    Follows before.world before.kheapFirst entries
  finish : after.kheapEnd = before.kheapEnd
  pages : ∀ page, HeapPage page → before.kheapEnd ≤ page * pageSize →
    pageMapOf after.world page ≠ none → pageMapOf before.world page ≠ none
  frames : ∀ number, frameUsed before.world.pmm number = false →
    frameUsed after.world.pmm number = true → ∃ index < selfSlot,
      slotPresent after.world.memory (pdPhys layout) index = true ∧
        tableAt after.world.memory (pdPhys layout) index = number * pageSize
  counted : pmmUsedFrames after.world.pmm ≤
    pmmUsedFrames before.world.pmm + tablesCreated before.world after.world

theorem leaks_nothing_refl (heap : KheapState (Machine layout)) : LeaksNothing heap heap where
  list _ := Iff.rfl
  finish := rfl
  pages _ _ _ mapped := mapped
  frames number unused used := by
    rw [unused] at used
    contradiction
  counted := Nat.le_add_right _ _

theorem taken_leaks {before after : KheapState (Machine layout)} {frames clients taken : List Nat}
    {limit pages : Nat}
    (loop : LoopTaken before.world after.world frames clients limit pages none taken)
    (some : taken ≠ []) : ¬LeaksNothing before after := by
  intro clean
  obtain ⟨frame, rest, rfl⟩ := List.exists_cons_of_ne_nil some
  obtain ⟨number, rfl, unused⟩ := loop.fresh frame (List.mem_cons_self ..)
  have held : number * pageSize ∈ (number * pageSize :: rest ++ frames) ++ clients := by simp
  obtain ⟨_, _, noTable⟩ := held_frame_apart loop.framed.tables held
  obtain ⟨other, same, _, _, used, _⟩ := loop.framed.tables.frames.owned _ held
  have equal : number = other := Nat.eq_of_mul_eq_mul_right (by decide) same
  rw [← equal] at used
  obtain ⟨index, small, present, table⟩ := clean.frames number unused used
  exact noTable index small present table

/-- A request that does not wrap leaks nothing exactly when it did not ask for pages, or
could not map even one. -/
theorem served_leaks_nothing_iff {heap : KheapState (Machine layout)} {clients : List Nat}
    {memory : Memory} {blocks : List Block}
    (represents : Represents (MachineShows clients) heap memory blocks) {size : Nat}
    (some : size ≠ 0) (served : Served (kmallocNeeded size)) :
    (∀ after, kmalloc heap size = Option.some (0, after) → LeaksNothing heap after) ↔
      BlockFits heap (kmallocNeeded size) ∨ ¬PagesFit heap.world heap.kheapEnd 1 ∨
        PagesFit heap.world heap.kheapEnd (extendPages (kmallocNeeded size)) := by
  obtain ⟨fuel, _, loop⟩ := kmalloc_eq_loop heap some
  obtain ⟨pointer, next, returned, null, failed⟩ := machine_kmalloc_outcome represents served fuel
  rw [loop, returned]
  constructor
  · intro clean
    by_contra bad
    obtain ⟨misfit, bad⟩ := not_or.mp bad
    obtain ⟨first, unfit⟩ := not_or.mp bad
    have first := not_not.mp first
    have zero : pointer = 0 := null.mpr ⟨misfit, unfit⟩
    obtain ⟨_, frames, taken, left⟩ := failed zero
    have filled : taken ≠ [] := by
      intro empty
      rcases left.nothing.mp empty with noPages | unfitFirst
      · have positive := extend_pages_pos served.small
        omega
      · exact unfitFirst first
    exact taken_leaks left filled (clean next (by rw [zero]))
  · intro good after same
    obtain ⟨zero, rfl⟩ := Prod.mk.inj (Option.some.inj same)
    obtain ⟨misfit, unfit⟩ := null.mp zero
    obtain ⟨shape, frames, taken, left⟩ := failed zero
    rcases good with fits | first | pages
    · exact absurd fits misfit
    · have same := left.untouched (left.nothing.mpr (Or.inr first))
      rw [same] at shape
      rw [shape]
      exact leaks_nothing_refl heap
    · exact absurd pages unfit

/-- A failed allocation leaks nothing exactly when it did not ask for pages, or could
not map even one. -/
theorem failed_allocation_leaks_nothing_iff {boot : BootInfo} {run : MachineRun layout}
    (reachable : Reachable (requestRuns layout boot) run) {size : Nat} (word : size < 2 ^ 32) :
    (∀ after, kmalloc run.heap size = some (0, after) → LeaksNothing run.heap after) ↔
      size = 0 ∨ BlockFits run.heap (kmallocNeeded size) ∨
        ¬PagesFit run.heap.world run.heap.kheapEnd 1 ∨
        PagesFit run.heap.world run.heap.kheapEnd (extendPages (kmallocNeeded size)) := by
  obtain ⟨memory, blocks, live⟩ := request_run_live reachable
  obtain ⟨lower, upper, _⟩ := represented_end live.represents
  by_cases none : size = 0
  · have failed := kmalloc_zero run.heap none
    constructor
    · exact fun _ => Or.inl none
    · intro _ after returned
      rw [failed] at returned
      rw [← (Prod.mk.inj (Option.some.inj returned)).2]
      exact leaks_nothing_refl run.heap
  rcases kmalloc_size_cases word with served | ⟨large, below⟩
  · rw [served_leaks_nothing_iff live.represents none served]
    constructor
    · exact Or.inr
    · exact fun good => good.resolve_left none
  · have wraps : extendPages (kmallocNeeded size) = 0 :=
      OversizedRequests.extend_pages_wrap large below
    constructor
    · intro _
      refine Or.inr (Or.inr (Or.inr ?_))
      rw [wraps]
      exact ⟨by simpa using upper, Nat.zero_le _⟩
    · intro _ after returned
      rcases OversizedRequests.kmalloc_oversized (machine_laws run.clients) live.represents large
        below with ⟨_, failed⟩ | ⟨_, stuck⟩
      · rw [failed] at returned
        rw [← (Prod.mk.inj (Option.some.inj returned)).2]
        exact leaks_nothing_refl run.heap
      · rw [stuck] at returned
        exact absurd returned (by simp)

section Small

variable {heap : KheapState (Machine smallPaging)}

theorem small_misfit (small : SmallHeap heap) {needed : Nat} (large : 16384 < needed) :
    ¬BlockFits heap needed := by
  obtain ⟨memory, represents⟩ := small.represents
  rw [block_fits_iff (machine_laws []) represents]
  rintro ⟨block, member, fit⟩
  obtain rfl := List.mem_singleton.mp member
  have room : needed ≤ 16384 := by simpa [fits] using fit
  omega

theorem small_end (small : SmallHeap heap) : heap.kheapEnd = kheapStartAddress + 16384 := by
  obtain ⟨memory, represents⟩ := small.represents
  exact represents.window.finish

theorem small_first_page_fits (small : SmallHeap heap) :
    PagesFit heap.world heap.kheapEnd 1 := by
  have finish := small_end small
  have enough := small.enough
  have tables : tablesMissing 1 (slotPresent heap.world.memory (pdPhys smallPaging)) heap.kheapEnd ≤ 1 :=
    @tables_missing_le_one _ 1 _ (pdeIndex heap.kheapEnd) (by simp)
  refine ⟨by rw [finish]; decide, ?_⟩
  omega

theorem small_null (small : SmallHeap heap) {size : Nat} (positive : size ≠ 0)
    (served : Served (kmallocNeeded size)) (large : 16384 < kmallocNeeded size)
    (unfit : ¬PagesFit heap.world heap.kheapEnd (extendPages (kmallocNeeded size))) :
    ∃ next, kmalloc heap size = some (0, next) ∧ ∃ frames taken,
      LoopTaken heap.world next.world frames [] heap.kheapEnd
        (extendPages (kmallocNeeded size)) none taken := by
  obtain ⟨memory, represents⟩ := small.represents
  obtain ⟨fuel, _, loop⟩ := kmalloc_eq_loop heap positive
  obtain ⟨pointer, next, returned, null, failed⟩ :=
    machine_kmalloc_outcome represents served fuel
  have zero : pointer = 0 := null.mpr ⟨small_misfit small large, unfit⟩
  rw [zero] at returned
  exact ⟨next, loop.trans returned, (failed zero).2⟩

/-- 4097 pages do not fit into the window; the pages in front of it are mapped. -/
theorem huge_request_null (small : SmallHeap heap) :
    ∃ after, kmalloc heap 0x1000000 = some (0, after) ∧ ¬LeaksNothing heap after := by
  have pages : extendPages (kmallocNeeded 0x1000000) = 4097 := by decide
  have finish := small_end small
  have unfit : ¬PagesFit heap.world heap.kheapEnd (extendPages (kmallocNeeded 0x1000000)) := by
    intro fit
    have room := fit.room
    rw [pages, finish] at room
    revert room
    decide
  obtain ⟨after, returned, frames, taken, left⟩ :=
    small_null small (by decide) (needed_served (by decide)) (by decide) unfit
  refine ⟨after, returned, taken_leaks left ?_⟩
  intro empty
  rcases left.nothing.mp empty with noPages | unfitFirst
  · rw [pages] at noPages
    exact absurd noPages (by decide)
  · exact unfitFirst (small_first_page_fits small)

end Small

theorem huge_request_leaks :
    ∃ machine heap after, bootMachine smallPaging smallBoot (fun _ => 0) = some machine ∧
      kheapInit machine = some heap ∧ kmalloc heap 0x1000000 = some (0, after) ∧
      ¬LeaksNothing heap after := by
  obtain ⟨machine, heap, booted, started, small, _⟩ := small_heap_started
  obtain ⟨after, returned, leaks⟩ := huge_request_null small
  exact ⟨machine, heap, after, booted, started, returned, leaks⟩

/-- The request for 16 MiB fails, and what it leaks shows in the condition. -/
theorem small_leak_condition :
    ∃ machine heap after, bootMachine smallPaging smallBoot (fun _ => 0) = some machine ∧
      kheapInit machine = some heap ∧ kmalloc heap 0x1000000 = some (0, after) ∧
      ¬(0x1000000 = 0 ∨ BlockFits heap (kmallocNeeded 0x1000000) ∨
        ¬PagesFit heap.world heap.kheapEnd 1 ∨
        PagesFit heap.world heap.kheapEnd (extendPages (kmallocNeeded 0x1000000))) := by
  obtain ⟨machine, heap, booted, started, small, reachable⟩ := small_heap_started
  obtain ⟨after, returned, leaks⟩ := huge_request_null small
  refine ⟨machine, heap, after, booted, started, returned, fun condition => leaks ?_⟩
  exact (failed_allocation_leaks_nothing_iff reachable (by decide)).mpr condition after returned

/-! ## Failures -/

/-- The size of the last block when it is free, else 0. -/
def freeTail (entries : List (Nat × Header)) : Nat :=
  match entries.getLast? with
  | some entry => if entry.2.free then entry.2.size else 0
  | none => 0

/-- The pages that a request needs besides the free tail. -/
def pagesShort (needed tail : Nat) : Nat := (needed - tail + pageSize - 1) / pageSize

/-- The free tail and the unmapped rest of the window have `needed` bytes, and there
are frames for the pages that are short and for their page tables. -/
def MemoryLeft (heap : KheapState (Machine layout)) (needed : Nat) : Prop :=
  ∃ entries, Follows heap.world heap.kheapFirst entries ∧
    needed ≤ freeTail entries + (kheapStartAddress + kheapMaxBytes - heap.kheapEnd) ∧
    pagesShort needed (freeTail entries) +
      tablesMissing (pagesShort needed (freeTail entries))
        (slotPresent heap.world.memory (pdPhys layout)) heap.kheapEnd ≤
      pmmFreeFrames heap.world.pmm

/-- `kmalloc` returns, with `NULL` exactly when no free block is large enough and the
extension that it tries does not fit into the window or the free frames. -/
theorem kmalloc_null_iff {boot : BootInfo} {run : MachineRun layout}
    (reachable : Reachable (requestRuns layout boot) run) {size : Nat} (positive : 0 < size)
    (small : size ≤ largestSize) :
    ∃ pointer next, kmalloc run.heap size = some (pointer, next) ∧
      (pointer = 0 ↔ ¬BlockFits run.heap (kmallocNeeded size) ∧
        ¬PagesFit run.heap.world run.heap.kheapEnd (extendPages (kmallocNeeded size))) := by
  obtain ⟨memory, blocks, live⟩ := request_run_live reachable
  obtain ⟨fuel, _, loop⟩ := kmalloc_eq_loop run.heap (Nat.pos_iff_ne_zero.mp positive)
  obtain ⟨pointer, next, returned, null, _⟩ :=
    machine_kmalloc_outcome live.represents (needed_served small) fuel
  exact ⟨pointer, next, loop.trans returned, null⟩

theorem small_kmalloc_null_iff :
    ∃ machine heap pointer next, bootMachine smallPaging smallBoot (fun _ => 0) = some machine ∧
      kheapInit machine = some heap ∧ kmalloc heap 24 = some (pointer, next) ∧
      (pointer = 0 ↔ ¬BlockFits heap (kmallocNeeded 24) ∧
        ¬PagesFit heap.world heap.kheapEnd (extendPages (kmallocNeeded 24))) := by
  obtain ⟨machine, heap, booted, started, _, reachable⟩ := small_heap_started
  obtain ⟨pointer, next, returned, null⟩ :=
    kmalloc_null_iff reachable (by decide : 0 < 24) (by decide)
  exact ⟨machine, heap, pointer, next, booted, started, returned, null⟩

/-- 903 frames would do for a request behind the free tail, but the extension asks
for 907 and there are at most 906. -/
theorem satisfiable_request_fails :
    ∃ machine heap next, bootMachine smallPaging smallBoot (fun _ => 0) = some machine ∧
      kheapInit machine = some heap ∧ MemoryLeft heap (kmallocNeeded 3715056) ∧
      kmalloc heap 3715056 = some (0, next) := by
  obtain ⟨machine, heap, booted, started, small, _⟩ := small_heap_started
  have pages : extendPages (kmallocNeeded 3715056) = 907 := by decide
  have needed : kmallocNeeded 3715056 = 3715072 := by decide
  have finish := small_end small
  have unfit : ¬PagesFit heap.world heap.kheapEnd (extendPages (kmallocNeeded 3715056)) := by
    intro fit
    have frames := fit.frames
    have scarce := small.scarce
    rw [pages] at frames
    omega
  obtain ⟨next, returned, _⟩ :=
    small_null small (by decide) (needed_served (by decide)) (by decide) unfit
  obtain ⟨memory, represents⟩ := small.represents
  have tail : freeTail (headers 0 0 kheapStartAddress [⟨16384, true⟩]) = 16384 := rfl
  refine ⟨machine, heap, next, booted, started,
    ⟨_, represents_follows (machine_laws []) represents, ?_, ?_⟩, returned⟩
  · rw [tail, finish]
    decide
  · have short : pagesShort (kmallocNeeded 3715056) 16384 = 903 := by decide
    have enough := small.enough
    rw [tail, short, tables_missing_none]
    · omega
    · intro page few
      have slot : pdeIndex (heap.kheapEnd + page * pageSize) = heapSlot := by
        rw [finish]
        unfold pdeIndex heapSlot pageSize pdeIndex kheapStartAddress
        omega
      rw [slot]
      exact small.table

end SimplyOs.HeapExhaustion
