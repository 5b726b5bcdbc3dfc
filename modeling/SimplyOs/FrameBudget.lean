import SimplyOs.MachineHeap

/-!
# How far the free frames reach

Mapping pages takes one frame for each page and one for each page table that is
missing. The loop of `kheap_extend` reaches its end exactly when the window has
room for the pages and enough frames are free; otherwise it has taken the frames
of the pages before the one that failed.
-/

namespace SimplyOs.FrameBudget

open SimplyOs.Word SimplyOs.Kheap SimplyOs.KheapMemory SimplyOs.KheapBlocks
open SimplyOs.KheapExtension SimplyOs.Pmm SimplyOs.PmmFrames SimplyOs.PmmOwnership
open SimplyOs.Paging SimplyOs.PagingTables SimplyOs.MachineHeap
open SimplyOs.Library.ByteMemory SimplyOs.Library.BlockList SimplyOs.Library.LinkedBlocks
open SimplyOs.Library.PageTree SimplyOs.Library.ByteBitmap

set_option autoImplicit false

/-! ## Counting free frames -/

section Counting

variable {layout : BootLayout} {pmm : PmmState} {live : List Nat} {frame : Nat}

theorem pmm_free_frames_eq (counted : Counted pmm) :
    pmmFreeFrames pmm = pmm.frameCount - (usedFrames pmm).card := by
  have room := used_frames_card_le pmm
  rw [pmmFreeFrames, counted, if_neg (by omega)]

theorem alloc_none_iff (invariant : PmmInvariant layout ⟨pmm, live⟩) :
    (pmmAllocFrame pmm).1 = 0 ↔ pmmFreeFrames pmm = 0 := by
  have room := used_frames_card_le pmm
  have reservedZero : frameReserved layout 0 = true := rfl
  have counted : Counted pmm := invariant.counted
  rw [pmm_free_frames_eq counted]
  rcases pmm_alloc_frame_spec pmm with ⟨frame, available, result⟩ | ⟨none, result⟩
  · rw [result]
    have nonzero := frame_address_ne_zero available.1
    obtain ⟨_, inside, unused⟩ := available
    have proper : usedFrames pmm ⊂ Finset.range pmm.frameCount := by
      apply Finset.filter_ssubset.mpr
      exact ⟨frame, Finset.mem_range.mpr inside, by simp [unused]⟩
    have fewer := Finset.card_lt_card proper
    rw [Finset.card_range] at fewer
    constructor
    · intro zero
      exact absurd zero nonzero
    · intro full
      omega
  · have all : usedFrames pmm = Finset.range pmm.frameCount := by
      apply Finset.filter_true_of_mem
      intro frame member
      have inside := Finset.mem_range.mp member
      rcases Nat.eq_zero_or_pos frame with rfl | positive
      · exact invariant.reserved 0 inside reservedZero
      · by_contra unused
        exact none frame ⟨positive, inside, by simpa using unused⟩
    rw [result, all, Finset.card_range, Nat.sub_self]

theorem free_frames_alloc (invariant : PmmInvariant layout ⟨pmm, live⟩)
    (some : (pmmAllocFrame pmm).1 ≠ 0) :
    pmmFreeFrames (pmmAllocFrame pmm).2 + 1 = pmmFreeFrames pmm := by
  have counted : Counted pmm := invariant.counted
  have positive : pmmFreeFrames pmm ≠ 0 := fun zero =>
    some ((alloc_none_iff invariant).mpr zero)
  rcases pmm_alloc_frame_spec pmm with ⟨frame, ⟨_, inside, unused⟩, result⟩ | ⟨_, result⟩
  · have fresh : frame ∉ usedFrames pmm := fun member => by
      simp [mem_used_frames, unused] at member
    rw [result, pmm_free_frames_eq (counted_set pmm frame true counted),
      frame_count_set, used_frames_set_true pmm inside, Finset.card_insert_of_notMem fresh]
    rw [pmm_free_frames_eq counted] at positive ⊢
    omega
  · rw [result] at some
    exact absurd rfl some

theorem free_alloc_same (invariant : PmmInvariant layout ⟨pmm, live⟩)
    (some : (pmmAllocFrame pmm).1 ≠ 0) :
    pmmFreeFrame (pmmAllocFrame pmm).2 (pmmAllocFrame pmm).1 = pmm := by
  rcases pmm_alloc_frame_spec pmm with ⟨frame, ⟨positive, inside, unused⟩, result⟩ | ⟨_, result⟩
  · rw [result, pmm_free_frame_eq _ positive]
    exact set_used_back pmm inside unused invariant.counted
  · rw [result] at some
    exact absurd rfl some

theorem alloc_unused (unused : frameUsed (pmmAllocFrame pmm).2 frame = false) :
    frameUsed pmm frame = false := by
  rcases pmm_alloc_frame_spec pmm with ⟨number, ⟨_, inside, _⟩, result⟩ | ⟨_, result⟩
  · rw [result, frame_used_set pmm inside] at unused
    by_cases same : frame = number
    · rw [if_pos same] at unused
      contradiction
    · rwa [if_neg same] at unused
  · rwa [result] at unused

end Counting

/-! ## Frames needed for pages -/

/-- The page tables to be created for so many pages from `mapAt` on. -/
def tablesMissing : Nat → (Nat → Bool) → Nat → Nat
  | 0, _, _ => 0
  | pages + 1, present, mapAt =>
      (if present (pdeIndex mapAt) then 0 else 1) +
        tablesMissing pages (fun index => present index || decide (index = pdeIndex mapAt))
          (mapAt + pageSize)

theorem tables_missing_congr {present other : Nat → Bool} {pages mapAt : Nat}
    (same : ∀ index < selfSlot, present index = other index)
    (room : mapAt + pages * pageSize ≤ kheapStartAddress + kheapMaxBytes) :
    tablesMissing pages present mapAt = tablesMissing pages other mapAt := by
  induction pages generalizing present other mapAt with
  | zero => rfl
  | succ pages ih =>
      have inside : pdeIndex mapAt < selfSlot := by
        unfold kheapStartAddress kheapMaxBytes pageSize at room
        unfold pdeIndex selfSlot
        omega
      have rest : mapAt + pageSize + pages * pageSize ≤ kheapStartAddress + kheapMaxBytes := by
        rw [Nat.succ_mul] at room
        omega
      rw [tablesMissing, tablesMissing, same _ inside, ih ?_ rest]
      intro index small
      rw [same index small]

variable {layout : PagingLayout}

/-- The machine can map so many pages from `mapAt` on for the heap. -/
structure PagesFit (machine : Machine layout) (mapAt pages : Nat) : Prop where
  room : mapAt + pages * pageSize ≤ kheapStartAddress + kheapMaxBytes
  frames : pages + tablesMissing pages (slotPresent machine.memory (pdPhys layout)) mapAt ≤
    pmmFreeFrames machine.pmm

section Fitting

variable {machine after : Machine layout} {mapAt pages : Nat}

theorem pages_fit_first (fit : PagesFit machine mapAt (pages + 1)) : PagesFit machine mapAt 1 := by
  obtain ⟨room, frames⟩ := fit
  rw [Nat.succ_mul] at room
  simp only [tablesMissing] at frames
  refine ⟨by omega, ?_⟩
  simp only [tablesMissing]
  omega

theorem pages_fit_succ
    (slots : ∀ index < selfSlot, slotPresent after.memory (pdPhys layout) index =
      (slotPresent machine.memory (pdPhys layout) index || decide (index = pdeIndex mapAt)))
    (spent : pmmFreeFrames after.pmm +
      (1 + tablesMissing 1 (slotPresent machine.memory (pdPhys layout)) mapAt) =
        pmmFreeFrames machine.pmm) :
    PagesFit machine mapAt (pages + 1) ↔ PagesFit after (mapAt + pageSize) pages := by
  constructor
  · rintro ⟨room, frames⟩
    have rest : mapAt + pageSize + pages * pageSize ≤ kheapStartAddress + kheapMaxBytes := by
      rw [Nat.succ_mul] at room
      omega
    refine ⟨rest, ?_⟩
    rw [tables_missing_congr slots rest]
    simp only [tablesMissing] at frames spent
    omega
  · rintro ⟨rest, frames⟩
    refine ⟨by rw [Nat.succ_mul]; omega, ?_⟩
    rw [tables_missing_congr slots rest] at frames
    simp only [tablesMissing] at spent ⊢
    omega

end Fitting

/-! ## The loop -/

section Loop

variable {machine : Machine layout} {frames clients : List Nat} {limit : Nat}

structure PageTaken (machine after : Machine layout) (frames clients : List Nat)
    (limit frame : Nat) : Prop where
  framed : HeapFrames after (frame :: frames) clients
  slots : ∀ index < selfSlot, slotPresent after.memory (pdPhys layout) index =
    (slotPresent machine.memory (pdPhys layout) index || decide (index = pdeIndex limit))
  spent : pmmFreeFrames after.pmm +
    (1 + tablesMissing 1 (slotPresent machine.memory (pdPhys layout)) limit) =
      pmmFreeFrames machine.pmm
  unused : ∀ number, frameUsed after.pmm number = false → frameUsed machine.pmm number = false
  fresh : ∃ number, frame = number * pageSize ∧ frameUsed machine.pmm number = false

theorem alloc_fresh {pmm : PmmState} (some : (pmmAllocFrame pmm).1 ≠ 0) :
    ∃ number, (pmmAllocFrame pmm).1 = number * pageSize ∧ frameUsed pmm number = false := by
  rcases pmm_alloc_frame_spec pmm with ⟨number, available, result⟩ | ⟨_, result⟩
  · exact ⟨number, by rw [result], available.2.2⟩
  · rw [result] at some
    exact absurd rfl some

theorem page_cost (invariant : PagingInvariant machine clients) (present : Bool)
    (frame : (pmmAllocFrame machine.pmm).1 ≠ 0)
    (table : present = false → (pmmAllocFrame (pmmAllocFrame machine.pmm).2).1 ≠ 0) :
    pmmFreeFrames (if present then (pmmAllocFrame machine.pmm).2
      else (pmmAllocFrame (pmmAllocFrame machine.pmm).2).2) + (1 + if present then 0 else 1) =
        pmmFreeFrames machine.pmm := by
  have first : pmmFreeFrames (pmmAllocFrame machine.pmm).2 + 1 = pmmFreeFrames machine.pmm :=
    free_frames_alloc invariant.frames frame
  cases present with
  | true => simpa using first
  | false =>
      have second : pmmFreeFrames (pmmAllocFrame (pmmAllocFrame machine.pmm).2).2 + 1 =
          pmmFreeFrames (pmmAllocFrame machine.pmm).2 :=
        free_frames_alloc (alloc_held invariant frame).frames (table rfl)
      simp only [Bool.false_eq_true, if_false]
      omega

theorem page_taken {after : Machine layout} (framed : HeapFrames machine frames clients)
    (some : (pmmAllocFrame machine.pmm).1 ≠ 0)
    (table : slotPresent machine.memory (pdPhys layout) (pdeIndex limit) = false →
      (pmmAllocFrame (pmmAllocFrame machine.pmm).2).1 ≠ 0)
    (pmm : after.pmm = (if slotPresent machine.memory (pdPhys layout) (pdeIndex limit) then
      (pmmAllocFrame machine.pmm).2 else (pmmAllocFrame (pmmAllocFrame machine.pmm).2).2))
    (stored : EntryStored (⟨machine.memory, (pmmAllocFrame machine.pmm).2⟩ : Machine layout) after
      ((pmmAllocFrame machine.pmm).1 :: (frames ++ clients)) (limit / pageSize)
      (Option.some ((pmmAllocFrame machine.pmm).1 + tableFlags)))
    (grownFrames : HeapFrames after ((pmmAllocFrame machine.pmm).1 :: frames) clients) :
    PageTaken machine after frames clients limit (pmmAllocFrame machine.pmm).1 := by
  have cost := page_cost framed.tables
    (slotPresent machine.memory (pdPhys layout) (pdeIndex limit)) some table
  rw [← pmm] at cost
  refine ⟨grownFrames, ?_, ?_, ?_, alloc_fresh some⟩
  · intro index small
    rw [stored.slots index small, page_slot]
  · simpa only [tablesMissing, Nat.add_zero] using cost
  · intro number unused
    apply alloc_unused
    rw [pmm] at unused
    split at unused
    · exact unused
    · exact alloc_unused unused

theorem map_pages_round {after : Machine layout} {mapped : Bool} (lower : kheapStartAddress ≤ limit)
    (room : limit + pageSize ≤ kheapStartAddress + kheapMaxBytes)
    (some : (pmmAllocFrame machine.pmm).1 ≠ 0)
    (run : pagingMapPage (⟨machine.memory, (pmmAllocFrame machine.pmm).2⟩ : Machine layout) limit
      (pmmAllocFrame machine.pmm).1 pagingFlagWrite = Option.some (mapped, after)) (pages : Nat) :
    kheapMapPages kheapStartAddress (pages + 1) machine limit =
      if mapped then kheapMapPages kheapStartAddress pages after (limit + pageSize)
      else Option.some (none, ⟨after.memory, pmmFreeFrame after.pmm (pmmAllocFrame machine.pmm).1⟩) := by
  have upper : limit ≤ kheapStartAddress + kheapMaxBytes := Nat.le_of_add_right_le room
  have notFull := fun full => (window_room_iff lower upper).mp full room
  have grown : add32 limit pageSize = limit + pageSize := by
    simp only [kheapStartAddress, kheapMaxBytes] at room
    exact add32_eq (by omega)
  have mapping : Platform.pagingMapPage
      (⟨machine.memory, (pmmAllocFrame machine.pmm).2⟩ : Machine layout) limit
      (pmmAllocFrame machine.pmm).1 pagingFlagWrite = _ := run
  rw [kheapMapPages, if_neg notFull, platform_alloc_eq]
  simp only [some, if_false, mapping, Option.bind_eq_bind, Option.bind_some, grown]
  rfl

/-- One round of the loop of `kheap_extend`. -/
theorem map_page_outcome (framed : HeapFrames machine frames clients)
    (lower : kheapStartAddress ≤ limit)
    (upper : limit ≤ kheapStartAddress + kheapMaxBytes) (pages : Nat) :
    (¬PagesFit machine limit 1 ∧
        kheapMapPages kheapStartAddress (pages + 1) machine limit = some (none, machine)) ∨
      ∃ after frame, PagesFit machine limit 1 ∧ PageTaken machine after frames clients limit frame ∧
        kheapMapPages kheapStartAddress (pages + 1) machine limit =
          kheapMapPages kheapStartAddress pages after (limit + pageSize) := by
  have invariant := framed.tables
  by_cases room : limit + pageSize ≤ kheapStartAddress + kheapMaxBytes
  · by_cases none : (pmmAllocFrame machine.pmm).1 = 0
    · have notFull := fun full => (window_room_iff lower upper).mp full room
      have empty : pmmFreeFrames machine.pmm = 0 := (alloc_none_iff invariant.frames).mp none
      refine Or.inl ⟨?_, ?_⟩
      · rintro ⟨_, enough⟩
        omega
      · rw [kheapMapPages, if_neg notFull, platform_alloc_eq]
        simp only [none, if_true, alloc_none_eq none]
    · rcases heap_map_page framed lower room none with ⟨absent, noTable, run⟩ |
        ⟨after, run, table, pmm, stored, grownFrames⟩
      · have first : pmmFreeFrames (pmmAllocFrame machine.pmm).2 + 1 = pmmFreeFrames machine.pmm :=
          free_frames_alloc invariant.frames none
        have empty : pmmFreeFrames (pmmAllocFrame machine.pmm).2 = 0 :=
          (alloc_none_iff (alloc_held invariant none).frames).mp noTable
        refine Or.inl ⟨?_, ?_⟩
        · rintro ⟨_, enough⟩
          simp only [tablesMissing, absent, Bool.false_eq_true, if_false] at enough
          omega
        · rw [map_pages_round lower room none run, if_neg Bool.false_ne_true]
          simp only [free_alloc_same invariant.frames none]
      · have taken := page_taken framed none table pmm stored grownFrames
        have spent := taken.spent
        refine Or.inr ⟨after, (pmmAllocFrame machine.pmm).1, ⟨by rw [Nat.one_mul]; exact room, ?_⟩,
          taken, ?_⟩
        · omega
        · rw [map_pages_round lower room none run, if_pos rfl]
  · refine Or.inl ⟨?_, ?_⟩
    · rintro ⟨fits, _⟩
      rw [Nat.one_mul] at fits
      exact room fits
    · rw [kheapMapPages, if_pos ((window_room_iff lower upper).mpr room)]

/-- What the loop for so many pages leaves, with the frames it took for them. -/
structure LoopTaken (machine after : Machine layout) (frames clients : List Nat)
    (limit pages : Nat) (reached : Option Nat) (taken : List Nat) : Prop where
  framed : HeapFrames after (taken ++ frames) clients
  fresh : ∀ frame ∈ taken, ∃ number, frame = number * pageSize ∧
    frameUsed machine.pmm number = false
  stopped : reached = none ↔ ¬PagesFit machine limit pages
  nothing : taken = [] ↔ pages = 0 ∨ ¬PagesFit machine limit 1
  untouched : taken = [] → after = machine
  spent : reached ≠ none → pmmFreeFrames after.pmm +
    (pages + tablesMissing pages (slotPresent machine.memory (pdPhys layout)) limit) =
      pmmFreeFrames machine.pmm
  slots : ∀ index < selfSlot, slotPresent machine.memory (pdPhys layout) index = true →
    slotPresent after.memory (pdPhys layout) index = true
  table : taken ≠ [] → slotPresent after.memory (pdPhys layout) (pdeIndex limit) = true

theorem heap_slot_below {mapAt : Nat} (room : mapAt + pageSize ≤ kheapStartAddress + kheapMaxBytes) :
    pdeIndex mapAt < selfSlot := by
  unfold kheapStartAddress kheapMaxBytes pageSize at room
  unfold pdeIndex selfSlot
  omega

theorem nothing_taken (framed : HeapFrames machine frames clients)
    (unfit : ¬PagesFit machine limit 1) {pages : Nat} (some : 0 < pages) :
    LoopTaken machine machine frames clients limit pages none [] := by
  have allUnfit : ¬PagesFit machine limit pages := by
    obtain ⟨fewer, rfl⟩ := Nat.exists_eq_succ_of_ne_zero (Nat.ne_of_gt some)
    exact fun fit => unfit (pages_fit_first fit)
  exact ⟨framed, by simp, by simp [allUnfit], by simp [unfit], fun _ => rfl,
    fun going => absurd rfl going, fun _ _ present => present, fun filled => absurd rfl filled⟩

theorem loop_taken_succ {after last : Machine layout} {frame pages : Nat} {reached : Option Nat}
    {others : List Nat} (fit : PagesFit machine limit 1)
    (taken : PageTaken machine after frames clients limit frame)
    (loop : LoopTaken after last (frame :: frames) clients (limit + pageSize) pages reached others) :
    LoopTaken machine last frames clients limit (pages + 1) reached (others ++ [frame]) := by
  have room : limit + pageSize ≤ kheapStartAddress + kheapMaxBytes := by
    have fits := fit.room
    rwa [Nat.one_mul] at fits
  have fits := @pages_fit_succ _ _ _ _ pages taken.slots taken.spent
  refine ⟨?_, ?_, ?_, ?_, ?_, ?_, ?_, ?_⟩
  · rw [List.append_assoc]
    exact loop.framed
  · intro other member
    rcases List.mem_append.mp member with later | here
    · obtain ⟨number, same, unused⟩ := loop.fresh other later
      exact ⟨number, same, taken.unused number unused⟩
    · rw [List.mem_singleton.mp here]
      exact taken.fresh
  · rw [loop.stopped, fits]
  · simp [fit]
  · intro empty
    exact absurd empty (by simp)
  · intro going
    have window : PagesFit after (limit + pageSize) pages :=
      not_not.mp fun unfit => going (loop.stopped.mpr unfit)
    have later := loop.spent going
    have first := taken.spent
    rw [tables_missing_congr taken.slots window.room] at later
    simp only [tablesMissing] at first ⊢
    omega
  · intro index small present
    apply loop.slots index small
    rw [taken.slots index small, present]
    rfl
  · intro _
    have small := heap_slot_below room
    apply loop.slots _ small
    rw [taken.slots _ small]
    simp

/-- The loop as a whole: it reaches its end exactly when all pages fit, and unless
the first page fits it changes nothing. -/
theorem map_pages_outcome (framed : HeapFrames machine frames clients)
    (lower : kheapStartAddress ≤ limit) (upper : limit ≤ kheapStartAddress + kheapMaxBytes)
    (pages : Nat) :
    ∃ reached after taken,
      kheapMapPages kheapStartAddress pages machine limit = some (reached, after) ∧
        LoopTaken machine after frames clients limit pages reached taken := by
  induction pages generalizing machine frames limit with
  | zero =>
      have fits : PagesFit machine limit 0 := ⟨by simpa using upper, Nat.zero_le _⟩
      refine ⟨some limit, machine, [], rfl, framed, by simp, by simp [fits], by simp, fun _ => rfl,
        fun _ => rfl, fun _ _ present => present, fun filled => absurd rfl filled⟩
  | succ pages ih =>
      rcases map_page_outcome framed lower upper pages with ⟨unfit, run⟩ |
        ⟨after, frame, fit, taken, run⟩
      · exact ⟨none, machine, [], run, nothing_taken framed unfit (Nat.succ_pos pages)⟩
      · have room : limit + pageSize ≤ kheapStartAddress + kheapMaxBytes := by
          have fits := fit.room
          rwa [Nat.one_mul] at fits
        obtain ⟨reached, last, others, rest, loop⟩ := ih taken.framed (by omega) room
        exact ⟨reached, last, others ++ [frame], run.trans rest, loop_taken_succ fit taken loop⟩

theorem tables_missing_none {present : Nat → Bool} {pages mapAt : Nat}
    (all : ∀ page < pages, present (pdeIndex (mapAt + page * pageSize)) = true) :
    tablesMissing pages present mapAt = 0 := by
  induction pages generalizing present mapAt with
  | zero => rfl
  | succ pages ih =>
      have here := all 0 (Nat.succ_pos _)
      rw [Nat.zero_mul, Nat.add_zero] at here
      rw [tablesMissing, if_pos here, Nat.zero_add]
      apply ih
      intro page small
      have there := all (page + 1) (Nat.succ_lt_succ small)
      rw [Nat.succ_mul, Nat.add_comm (page * pageSize), ← Nat.add_assoc] at there
      rw [there]
      rfl

theorem tables_missing_le_one {present : Nat → Bool} {pages mapAt index : Nat}
    (all : ∀ page < pages, pdeIndex (mapAt + page * pageSize) = index) :
    tablesMissing pages present mapAt ≤ 1 := by
  cases pages with
  | zero => exact Nat.zero_le _
  | succ pages =>
      have here := all 0 (Nat.succ_pos _)
      rw [Nat.zero_mul, Nat.add_zero] at here
      rw [tablesMissing, tables_missing_none, Nat.add_zero]
      · split
        · exact Nat.zero_le _
        · exact Nat.le_refl _
      · intro page small
        have there := all (page + 1) (Nat.succ_lt_succ small)
        rw [Nat.succ_mul, Nat.add_comm (page * pageSize), ← Nat.add_assoc] at there
        simp [there, here]

end Loop

/-! ## Extensions -/

section Extensions

variable {layout : PagingLayout} {heap : KheapState (Machine layout)} {clients : List Nat}
variable {memory : Memory} {blocks : List Block} {needed : Nat}

theorem represented_end (represents : Represents (MachineShows clients) heap memory blocks) :
    kheapStartAddress ≤ heap.kheapEnd ∧ heap.kheapEnd ≤ kheapStartAddress + kheapMaxBytes ∧
      kheapTotalBytes heap = heap.kheapEnd - kheapStartAddress := by
  have finish := represents.window.finish
  have bounded := represents.window.bounded
  refine ⟨by omega, by omega, ?_⟩
  rw [kheapTotalBytes, represents.start,
    sub32_eq (by omega) (window_lt_word represents.window)]

theorem store_word_pmm {machine after : Machine layout} {address word : Nat}
    (run : Platform.store32 machine address word = some after) : after.pmm = machine.pmm := by
  have run : storeWord machine address word = some after := run
  rw [storeWord] at run
  by_cases aligned : address % 4 = 0
  · rw [if_pos aligned] at run
    obtain ⟨_, _, rfl⟩ := Option.map_eq_some_iff.mp run
    rfl
  · rw [if_neg aligned] at run
    exact absurd run (by simp)

theorem store_byte_pmm {machine after : Machine layout} {address : Nat} {value : UInt8}
    (run : Platform.store8 machine address value = some after) : after.pmm = machine.pmm := by
  obtain ⟨_, _, rfl⟩ := Option.map_eq_some_iff.mp run
  rfl

theorem add_pages_pmm {heap next : KheapState (Machine layout)} {machine : Machine layout}
    {mapAt : Nat} (run : kheapAddPages heap machine mapAt = some next) :
    next.world.pmm = machine.pmm := by
  obtain ⟨built, new, rest⟩ := Option.bind_eq_some_iff.mp run
  have builtPmm : built.pmm = machine.pmm := by
    obtain ⟨sized, sizeRun, marks⟩ := Option.bind_eq_some_iff.mp new
    obtain ⟨marked, markRun, links⟩ := Option.bind_eq_some_iff.mp marks
    obtain ⟨linked, nextRun, prevRun⟩ := Option.bind_eq_some_iff.mp links
    rw [store_word_pmm prevRun, store_word_pmm nextRun, store_byte_pmm markRun,
      store_word_pmm sizeRun]
  by_cases first : heap.kheapFirst = 0
  · rw [if_pos first] at rest
    rw [← Option.some.inj rest]
    exact builtPmm
  · rw [if_neg first] at rest
    obtain ⟨linked, append, last⟩ := Option.bind_eq_some_iff.mp rest
    rw [← Option.some.inj last, ← builtPmm]
    obtain ⟨node, _, walk⟩ := Option.bind_eq_some_iff.mp append
    obtain ⟨free, _, status⟩ := Option.bind_eq_some_iff.mp walk
    obtain ⟨adjacent, _, joins⟩ := Option.bind_eq_some_iff.mp status
    cases adjacent with
    | true =>
        obtain ⟨lastSize, _, sizes⟩ := Option.bind_eq_some_iff.mp joins
        obtain ⟨size, _, store⟩ := Option.bind_eq_some_iff.mp sizes
        exact store_word_pmm store
    | false =>
        obtain ⟨backed, prevRun, nextRun⟩ := Option.bind_eq_some_iff.mp joins
        rw [store_word_pmm nextRun, store_word_pmm prevRun]

/-- On the machine an extension succeeds exactly when its pages fit. -/
theorem machine_extend_outcome (represents : Represents (MachineShows clients) heap memory blocks)
    (filled : 0 < extendPages needed) :
    ∃ extended next bytes, kheapExtend heap needed = some (extended, next) ∧
      Represents (MachineShows clients) next bytes
        (if extended then extendBlocks blocks (extendPages needed * pageSize) else blocks) ∧
      (extended = true ↔ PagesFit heap.world heap.kheapEnd (extendPages needed)) ∧
      (extended = false → next = { heap with world := next.world } ∧
        ∃ frames taken, LoopTaken heap.world next.world frames clients heap.kheapEnd
          (extendPages needed) none taken) ∧
      (extended = true → pmmFreeFrames next.world.pmm + (extendPages needed +
        tablesMissing (extendPages needed)
          (slotPresent heap.world.memory (pdPhys layout)) heap.kheapEnd) =
            pmmFreeFrames heap.world.pmm) := by
  obtain ⟨lower, upper, total⟩ := represented_end represents
  obtain ⟨frames, framed⟩ := represents.shows.framed
  obtain ⟨extended, next, bytes, run, _, represented⟩ :=
    kheap_extend_spec (machine_laws clients) represents filled
  refine ⟨extended, next, bytes, run, represented, ?_⟩
  by_cases full : kheapMaxBytes ≤ kheapTotalBytes heap
  · have noRoom : ∀ pages, 0 < pages → ¬PagesFit heap.world heap.kheapEnd pages := by
      intro pages positive fit
      have room := fit.room
      have page := Nat.le_mul_of_pos_left pageSize positive
      unfold pageSize at room page
      omega
    have atEnd : sub32 heap.kheapEnd heap.kheapStart ≥ kheapMaxBytes := full
    rw [kheapExtend, if_pos atEnd] at run
    obtain ⟨rfl, rfl⟩ := Prod.mk.inj (Option.some.inj run)
    exact ⟨by simp [noRoom _ filled],
      fun _ => ⟨rfl, frames, [], nothing_taken framed (noRoom 1 Nat.one_pos) filled⟩,
      fun grown => Bool.noConfusion grown⟩
  · have open_ : ¬sub32 heap.kheapEnd heap.kheapStart ≥ kheapMaxBytes := full
    obtain ⟨reached, after, taken, loop, left⟩ :=
      map_pages_outcome framed lower upper (extendPages needed)
    rw [kheapExtend, if_neg open_, represents.start, loop] at run
    simp only [Option.bind_eq_bind, Option.bind_some] at run
    cases reached with
    | none =>
        have parts := Prod.mk.inj (Option.some.inj run)
        obtain ⟨rfl, rfl⟩ := parts
        have unfit := left.stopped.mp rfl
        refine ⟨by simp [unfit], fun _ => ⟨?_, frames, taken, left⟩, fun grown => Bool.noConfusion grown⟩
        rw [represents.start]
    | some mapAt =>
        obtain ⟨added, appended, same⟩ := Option.map_eq_some_iff.mp run
        obtain ⟨rfl, rfl⟩ := Prod.mk.inj same
        have fit : PagesFit heap.world heap.kheapEnd (extendPages needed) :=
          not_not.mp fun unfit => Option.some_ne_none mapAt (left.stopped.mpr unfit)
        refine ⟨by simp [fit], fun refused => Bool.noConfusion refused, fun _ => ?_⟩
        rw [add_pages_pmm appended]
        exact left.spent (Option.some_ne_none mapAt)

end Extensions

end SimplyOs.FrameBudget
