import SimplyOs.FrameBudget

/-!
# The frames behind the heap

Runs of the heap on the machine, with other clients of the frame allocator in
between. `LiveHeap` over `MachineShows` is their invariant, so the lemmas about
heap calls on any platform apply; the frames of the clients change only by calls
that the heap does not make.
-/

namespace SimplyOs.HeapBacking

open SimplyOs.Word SimplyOs.Kheap SimplyOs.KheapMemory SimplyOs.KheapBlocks SimplyOs.KheapRuns
open SimplyOs.KheapExtension SimplyOs.KheapCalls
open SimplyOs.Pmm SimplyOs.PmmFrames SimplyOs.PmmOwnership SimplyOs.Multiboot
open SimplyOs.Paging SimplyOs.PagingTables SimplyOs.PagingBoot SimplyOs.PageMaps
open SimplyOs.MachineHeap SimplyOs.FrameBudget
open SimplyOs.Library.ByteMemory SimplyOs.Library.BlockList SimplyOs.Library.PageTree
open SimplyOs.Library.Transition

set_option autoImplicit false

variable {layout : PagingLayout}

/-- The heap with its live pointers, and the frames in the hands of clients. -/
structure MachineRun (layout : PagingLayout) where
  heap : KheapState (Machine layout)
  live : List Nat
  clients : List Nat

inductive MachineCall where
  | heap (call : HeapCall)
  | alloc
  | free (address : Nat)

def withPmm (heap : KheapState (Machine layout)) (pmm : PmmState) : KheapState (Machine layout) :=
  { heap with world := ⟨heap.world.memory, pmm⟩ }

inductive MachineStep : MachineRun layout → MachineCall → MachineRun layout → Prop where
  | heap {run : MachineRun layout} {call : HeapCall} {next : HeapRun (Machine layout)}
      (taken : HeapStep ⟨run.heap, run.live⟩ call next) :
      MachineStep run (.heap call) ⟨next.heap, next.live, run.clients⟩
  | alloc {run : MachineRun layout} :
      MachineStep run .alloc
        ⟨withPmm run.heap (pmmAllocFrame run.heap.world.pmm).2, run.live,
          if (pmmAllocFrame run.heap.world.pmm).1 = 0 then run.clients
          else (pmmAllocFrame run.heap.world.pmm).1 :: run.clients⟩
  | free {run : MachineRun layout} {address : Nat} (owned : address ∈ run.clients) :
      MachineStep run (.free address)
        ⟨withPmm run.heap (pmmFreeFrame run.heap.world.pmm address), run.live,
          run.clients.erase address⟩

/-- `kheap_init` after any calls of the mapper and of the frame allocator that have
left the heap window unmapped. -/
def HeapStarted (boot : BootInfo) (run : MachineRun layout) : Prop :=
  ∃ prior, Reachable (pagingRuns layout boot) prior ∧
    (∀ page, HeapPage page → pageMapOf prior.machine page = none) ∧
    kheapInit prior.machine = some run.heap ∧ run.live = [] ∧ run.clients = prior.live

def machineRuns (layout : PagingLayout) (boot : BootInfo) :
    System (MachineRun layout) MachineCall where
  initial := HeapStarted boot
  step := MachineStep

/-! ## The invariant of a run -/

section Clients

variable {machine : Machine layout} {frames clients : List Nat} {limit address : Nat}
variable {memory : Memory}

theorem alloc_client_shows (shows : MachineShows clients machine limit memory) :
    MachineShows (if (pmmAllocFrame machine.pmm).1 = 0 then clients
        else (pmmAllocFrame machine.pmm).1 :: clients)
      (⟨machine.memory, (pmmAllocFrame machine.pmm).2⟩ : Machine layout) limit memory := by
  obtain ⟨frames, framed⟩ := shows.framed
  by_cases none : (pmmAllocFrame machine.pmm).1 = 0
  · rw [if_pos none, alloc_none_eq none]
    exact shows
  · rw [if_neg none]
    have allocated := alloc_held framed.tables none
    have moved : ((pmmAllocFrame machine.pmm).1 :: (frames ++ clients)).Perm
        (frames ++ (pmmAllocFrame machine.pmm).1 :: clients) := List.perm_middle.symm
    refine ⟨shows.within, ⟨frames, ⟨?_, framed.entries, framed.distinct⟩⟩, shows.mapped⟩
    exact held_subset allocated moved.symm.subset (moved.nodup_iff.mp allocated.frames.distinct)

theorem free_client_shows (shows : MachineShows clients machine limit memory)
    (owned : address ∈ clients) :
    MachineShows (clients.erase address)
      (⟨machine.memory, pmmFreeFrame machine.pmm address⟩ : Machine layout) limit memory := by
  obtain ⟨frames, framed⟩ := shows.framed
  have freed := free_held framed.tables (List.mem_append_right frames owned)
  have apart : address ∉ frames := fun member =>
    (List.nodup_append.mp framed.tables.frames.distinct).2.2 address member address owned rfl
  rw [List.erase_append_right _ apart] at freed
  exact ⟨shows.within, ⟨frames, ⟨freed, framed.entries, framed.distinct⟩⟩, shows.mapped⟩

theorem live_heap_withPmm {heap : KheapState (Machine layout)} {live others : List Nat}
    {blocks : List Block} {pmm : PmmState}
    (liveHeap : LiveHeap (MachineShows clients) ⟨heap, live⟩ memory blocks)
    (shows : MachineShows others (⟨heap.world.memory, pmm⟩ : Machine layout) heap.kheapEnd memory) :
    LiveHeap (MachineShows others) ⟨withPmm heap pmm, live⟩ memory blocks := by
  obtain ⟨represents, owned⟩ := liveHeap
  exact ⟨⟨represents.start, represents.first, shows, represents.window, represents.separated,
    represents.paged⟩, owned⟩

theorem unmapped_window_shows (invariant : PagingInvariant machine clients)
    (unmapped : ∀ page, HeapPage page → pageMapOf machine page = none) :
    MachineShows clients machine kheapStartAddress machine.memory := by
  have absent : ∀ page, HeapPage page → entryOf machine page = none := by
    intro page inside
    have none := unmapped page inside
    rw [pageMapOf, if_pos (heap_page_below layout inside).1] at none
    exact Option.map_eq_none_iff.mp none
  refine ⟨by decide, ⟨[], invariant, ?_, ?_⟩, fun _ lower upper => absurd lower (Nat.not_le.mpr upper)⟩
  · intro page inside entry mapped
    rw [absent page inside] at mapped
    contradiction
  · intro page other entry inside _ mapped _
    rw [absent page inside] at mapped
    contradiction

end Clients

theorem machine_run_live {boot : BootInfo} {run : MachineRun layout}
    (reachable : Reachable (machineRuns layout boot) run) :
    ∃ memory blocks, LiveHeap (MachineShows run.clients) ⟨run.heap, run.live⟩ memory blocks := by
  apply reachable_invariant _ _ reachable
  · rintro ⟨heap, live, clients⟩ ⟨prior, priorReachable, unmapped, initialised, rfl, rfl⟩
    have shows := unmapped_window_shows (run_invariant priorReachable) unmapped
    obtain ⟨started, bytes, after, run, liveHeap⟩ := kheap_init_live (machine_laws _) shows
    obtain rfl := Option.some.inj (run.symm.trans initialised)
    exact ⟨bytes, after, liveHeap⟩
  · rintro before call after ⟨memory, blocks, liveHeap⟩ taken
    cases taken with
    | heap taken =>
        obtain ⟨bytes, list, next, _⟩ := heap_step_live (machine_laws _) liveHeap taken
        exact ⟨bytes, list, next⟩
    | alloc =>
        exact ⟨memory, blocks,
          live_heap_withPmm liveHeap (alloc_client_shows liveHeap.represents.shows)⟩
    | free owned =>
        exact ⟨memory, blocks,
          live_heap_withPmm liveHeap (free_client_shows liveHeap.represents.shows owned)⟩

/-! ## Backing frames -/

/-- A frame that belongs to the heap and to nobody else. -/
structure HeapFrame (run : MachineRun layout) (frame : Nat) : Prop where
  managed : frame / pageSize < pmmTotalFrames run.heap.world.pmm
  used : frameUsed run.heap.world.pmm (frame / pageSize) = true
  unreserved : frameReserved layout.toBootLayout (frame / pageSize) = false
  noTable : ∀ index < 1024, slotPresent run.heap.world.memory (pdPhys layout) index = true →
    tableAt run.heap.world.memory (pdPhys layout) index ≠ frame
  noClient : frame ∉ run.clients

def Backs (run : MachineRun layout) (page frame : Nat) : Prop :=
  pageMapOf run.heap.world page = some (frame, pagingFlagPresent ||| pagingFlagWrite) ∧
    HeapFrame run frame

theorem held_heap_frame {run : MachineRun layout} {frames : List Nat} {frame : Nat}
    (framed : HeapFrames run.heap.world frames run.clients) (member : frame ∈ frames) :
    HeapFrame run frame := by
  have held := List.mem_append_left run.clients member
  obtain ⟨_, notDirectory, tables⟩ := held_frame_apart framed.tables held
  obtain ⟨number, rfl, _, inside, used, unreserved⟩ := framed.tables.frames.owned frame held
  have back : number * pageSize / pageSize = number := Nat.mul_div_cancel _ (by decide)
  refine ⟨by rw [back]; exact inside, by rw [back]; exact used, by rw [back]; exact unreserved, ?_,
    ?_⟩
  · intro index small here
    rcases Nat.lt_succ_iff_lt_or_eq.mp small with below | self
    · exact tables index below here
    · have base := frame_of_add framed.tables.sound.aligned (by decide : tableFlags < frameBytes)
      have self : index = selfSlot := self
      rw [self, tableAt, framed.tables.sound.self, base]
      exact notDirectory.symm
  · intro client
    exact (List.nodup_append.mp framed.tables.frames.distinct).2.2 _ member _ client rfl

/-- In every run each page of the heap is mapped, writable, to a used frame that is
no page table, not reserved and no client's, and different pages to different frames. -/
theorem heap_pages_backed {boot : BootInfo} {run : MachineRun layout}
    (reachable : Reachable (machineRuns layout boot) run) :
    (∀ address, kheapStartAddress ≤ address → address < run.heap.kheapEnd →
      ∃ frame, Backs run (address / pageSize) frame) ∧
      ∀ address other frame, kheapStartAddress ≤ address → address < run.heap.kheapEnd →
        kheapStartAddress ≤ other → other < run.heap.kheapEnd →
        Backs run (address / pageSize) frame → Backs run (other / pageSize) frame →
          address / pageSize = other / pageSize := by
  obtain ⟨memory, blocks, liveHeap⟩ := machine_run_live reachable
  have shows := liveHeap.represents.shows
  obtain ⟨frames, framed⟩ := shows.framed
  have pages : ∀ address, kheapStartAddress ≤ address → address < run.heap.kheapEnd →
      HeapPage (address / pageSize) ∧ ∃ entry,
        entryOf run.heap.world (address / pageSize) = some entry ∧ frameOf entry ∈ frames ∧
        pageMapOf run.heap.world (address / pageSize) =
          some (frameOf entry, pagingFlagPresent ||| pagingFlagWrite) := by
    intro address lower upper
    have inside := heap_page_of_address lower (Nat.lt_of_lt_of_le upper shows.within)
    obtain ⟨entry, mapped, _⟩ := shows.mapped address lower upper
    obtain ⟨member, flags⟩ := framed.entries _ inside entry mapped
    have bits : flagsOf entry = tableFlags := by
      rw [flags]
      exact flags_of_add (frame_of_aligned entry) (by decide)
    refine ⟨inside, entry, mapped, member, ?_⟩
    rw [pageMapOf, if_pos (heap_page_below layout inside).1]
    exact (congrArg (Option.map _) mapped).trans (by rw [Option.map_some, bits]; rfl)
  constructor
  · intro address lower upper
    obtain ⟨_, entry, _, member, mapped⟩ := pages address lower upper
    exact ⟨frameOf entry, mapped, held_heap_frame framed member⟩
  · intro address other frame lower upper otherLower otherUpper backs otherBacks
    obtain ⟨inside, entry, mapped, _, found⟩ := pages address lower upper
    obtain ⟨otherInside, place, otherMapped, _, otherFound⟩ := pages other otherLower otherUpper
    have same := Prod.mk.inj (Option.some.inj (found.symm.trans backs.1))
    have otherSame := Prod.mk.inj (Option.some.inj (otherFound.symm.trans otherBacks.1))
    exact heap_frames_distinct framed otherInside inside otherMapped mapped
      (same.1.trans otherSame.1.symm)

theorem boot_window_shows (layout : PagingLayout) (boot : BootInfo) (ram : Memory) :
    ∃ machine, bootMachine layout boot ram = some machine ∧
      machine.pmm = pmmInit layout.toBootLayout boot pmmBoot ∧
      (∀ page, HeapPage page → pageMapOf machine page = none) ∧
      MachineShows [] machine kheapStartAddress machine.memory := by
  obtain ⟨machine, booted, frames, invariant, _⟩ := boot_machine_spec layout boot ram
  have unmapped : ∀ page, HeapPage page → pageMapOf machine page = none := by
    intro page inside
    have outside : ¬page / 1024 = bootSlot := by
      obtain ⟨lower, _⟩ := inside
      unfold kheapStartAddress pageSize at lower
      unfold bootSlot
      omega
    rw [boot_map_eq booted, bootMap, if_neg outside]
  exact ⟨machine, booted, frames, unmapped, unmapped_window_shows invariant unmapped⟩

theorem started_after_boot (boot : BootInfo) (ram : Memory) :
    ∃ machine heap, bootMachine layout boot ram = some machine ∧ kheapInit machine = some heap ∧
      Reachable (machineRuns layout boot) ⟨heap, [], []⟩ := by
  obtain ⟨machine, booted, _, unmapped, shows⟩ := boot_window_shows layout boot ram
  have prior : Reachable (pagingRuns layout boot) ⟨machine, []⟩ := .start ⟨⟨ram, booted⟩, rfl⟩
  obtain ⟨heap, _, _, started, _⟩ := kheap_init_live (machine_laws []) shows
  exact ⟨machine, heap, booted, started, .start ⟨_, prior, unmapped, started, rfl, rfl⟩⟩

/-! ## The heap of the small machine -/

def heapSlot : Nat := pdeIndex kheapStartAddress

structure SmallHeap (heap : KheapState (Machine smallPaging)) : Prop where
  represents : ∃ memory, Represents (MachineShows []) heap memory [⟨16384, true⟩]
  enough : 905 ≤ pmmFreeFrames heap.world.pmm
  scarce : pmmFreeFrames heap.world.pmm ≤ 906
  table : slotPresent heap.world.memory (pdPhys smallPaging) heapSlot = true

theorem small_frames_free :
    pmmFreeFrames (pmmInit smallLayout smallBoot pmmBoot) = 910 := by
  obtain ⟨count, counted, used⟩ := pmm_init_used smallLayout pmmBoot (rfl : smallBoot.mbValid = true)
  have frames : pmmFrameCount smallBoot = 1025 := by decide +kernel
  have taken : ((Finset.range 1025).filter fun frame =>
      (frameReserved smallLayout frame || !(fallbackFrees smallBoot frame ||
        mapFrees (multibootMmap smallBoot) frame)) = true).card = 115 := by decide +kernel
  have same : usedFrames (pmmInit smallLayout smallBoot pmmBoot) =
      (Finset.range 1025).filter fun frame =>
        (frameReserved smallLayout frame || !(fallbackFrees smallBoot frame ||
          mapFrees (multibootMmap smallBoot) frame)) = true := by
    rw [usedFrames, count, frames]
    apply Finset.filter_congr
    intro frame member
    rw [used frame (by rw [frames]; exact Finset.mem_range.mp member)]
  rw [pmm_free_frames_eq counted, same, taken, count, frames]

theorem small_heap_initialised :
    ∃ machine heap, bootMachine smallPaging smallBoot (fun _ => 0) = some machine ∧
      kheapInit machine = some heap ∧ SmallHeap heap ∧
      HeapStarted smallBoot (⟨heap, [], []⟩ : MachineRun smallPaging) := by
  obtain ⟨machine, booted, frames, unmapped, shows⟩ :=
    boot_window_shows smallPaging smallBoot fun _ => 0
  have free : pmmFreeFrames machine.pmm = 910 := by
    rw [frames]
    exact small_frames_free
  have empty : Represents (MachineShows [])
      { kheapStart := kheapStartAddress, kheapEnd := kheapStartAddress, kheapFirst := 0,
        world := machine } machine.memory [] :=
    ⟨rfl, rfl, shows, ⟨rfl, trivial, by simp, by simp, by simp⟩, by simp, by simp⟩
  have pages : extendPages pageSize = 4 := by decide
  obtain ⟨extended, heap, bytes, run, represents, fit, _, spent⟩ :=
    machine_extend_outcome empty (by rw [pages]; decide : 0 < extendPages pageSize)
  have tables : tablesMissing 4 (slotPresent machine.memory (pdPhys smallPaging))
      kheapStartAddress ≤ 1 := by
    have slots : ∀ page < 4, pdeIndex (kheapStartAddress + page * pageSize) = heapSlot := by decide
    exact tables_missing_le_one slots
  rw [pages] at fit spent represents
  have room : extended = true := by
    apply fit.mpr
    refine ⟨(by decide : kheapStartAddress + 4 * pageSize ≤ _), ?_⟩
    show 4 + tablesMissing 4 (slotPresent machine.memory (pdPhys smallPaging))
      kheapStartAddress ≤ pmmFreeFrames machine.pmm
    omega
  have cost : pmmFreeFrames heap.world.pmm +
      (4 + tablesMissing 4 (slotPresent machine.memory (pdPhys smallPaging)) kheapStartAddress) =
        pmmFreeFrames machine.pmm := spent room
  rw [room] at represents
  have represents : Represents (MachineShows []) heap bytes [⟨16384, true⟩] := represents
  have started : kheapInit machine = some heap := by
    rw [kheapInit, run]
    rfl
  have prior : Reachable (pagingRuns smallPaging smallBoot) ⟨machine, []⟩ :=
    .start ⟨⟨_, booted⟩, rfl⟩
  refine ⟨machine, heap, booted, started, ⟨⟨bytes, represents⟩, ?_, ?_, ?_⟩,
    ⟨_, prior, unmapped, started, rfl, rfl⟩⟩
  · omega
  · omega
  · have finish : heap.kheapEnd = kheapStartAddress + 16384 := represents.window.finish
    obtain ⟨entry, mapped, _⟩ := represents.shows.mapped kheapStartAddress (Nat.le_refl _)
      (by rw [finish]; exact Nat.lt_add_of_pos_right (by decide))
    have slot : kheapStartAddress / pageSize / 1024 = heapSlot := by decide
    rw [← slot]
    exact slot_present_of_entry mapped

section Served

variable {boot : BootInfo} {run : MachineRun layout} {memory : Memory} {blocks : List Block}

theorem client_served (reachable : Reachable (machineRuns layout boot) run)
    (live : LiveHeap (MachineShows run.clients) ⟨run.heap, run.live⟩ memory blocks)
    (free : 0 < pmmFreeFrames run.heap.world.pmm) :
    ∃ frame pmm, Reachable (machineRuns layout boot)
        ⟨withPmm run.heap pmm, run.live, frame :: run.clients⟩ ∧
      LiveHeap (MachineShows (frame :: run.clients)) ⟨withPmm run.heap pmm, run.live⟩ memory
        blocks ∧
      pmmFreeFrames pmm + 1 = pmmFreeFrames run.heap.world.pmm := by
  obtain ⟨frames, framed⟩ := live.represents.shows.framed
  have found : (pmmAllocFrame run.heap.world.pmm).1 ≠ 0 := by
    rw [ne_eq, alloc_none_iff framed.tables.frames]
    exact Nat.ne_of_gt free
  have next : Reachable (machineRuns layout boot) _ := .next reachable .alloc
  have shows := alloc_client_shows live.represents.shows
  rw [if_neg found] at next shows
  exact ⟨_, _, next, live_heap_withPmm live shows, free_frames_alloc framed.tables.frames found⟩

theorem request_fits_served (reachable : Reachable (machineRuns layout boot) run)
    (live : LiveHeap (MachineShows run.clients) ⟨run.heap, run.live⟩ memory blocks)
    {size address : Nat} {after : List Block} (positive : size ≠ 0) (small : size ≤ largestSize)
    (found : allocate kheapMinBlock (kmallocNeeded size) kheapStartAddress blocks =
      some (address, after)) :
    ∃ heap bytes, Reachable (machineRuns layout boot)
        ⟨heap, (address + sizeofBlock) :: run.live, run.clients⟩ ∧
      LiveHeap (MachineShows run.clients) ⟨heap, (address + sizeofBlock) :: run.live⟩ bytes
        after := by
  obtain ⟨heap, bytes, returned, next⟩ :=
    kmalloc_live_fit (machine_laws _) live positive small found
  have nonzero : address + sizeofBlock ≠ 0 := Nat.succ_ne_zero _
  have taken : HeapStep ⟨run.heap, run.live⟩ (.malloc size) _ := .malloc small returned
  rw [if_neg nonzero] at taken
  exact ⟨heap, bytes, .next reachable (.heap taken), next⟩

end Served

/-- Two clients, of which one gives its frame back, and two allocations, of which the
first is freed. -/
theorem small_heap_run :
    ∃ (run : MachineRun smallPaging) (frame : Nat),
      Reachable (machineRuns smallPaging smallBoot) run ∧ run.live = [0xC2000038] ∧
        run.clients = [frame] := by
  obtain ⟨machine, heap, _, _, small, started⟩ := small_heap_initialised
  obtain ⟨memory, represents⟩ := small.represents
  have enough := small.enough
  have idle : LiveHeap (MachineShows []) ⟨heap, []⟩ memory [⟨16384, true⟩] :=
    ⟨represents, List.Perm.refl _⟩
  obtain ⟨kept, pmm, oneReachable, oneLive, cost⟩ :=
    client_served (.start started) idle (Nat.lt_of_lt_of_le (by decide) enough)
  have free : 0 < pmmFreeFrames pmm := by
    simp only at cost
    omega
  obtain ⟨given, _, twoReachable, twoLive, _⟩ := client_served oneReachable oneLive free
  have returned : Reachable (machineRuns smallPaging smallBoot) _ :=
    .next twoReachable (.free List.mem_cons_self)
  have shows := free_client_shows twoLive.represents.shows List.mem_cons_self
  simp only [List.erase_cons_head] at returned shows
  have firstFits : allocate kheapMinBlock (kmallocNeeded 24) kheapStartAddress [⟨16384, true⟩] =
      some (kheapStartAddress, [⟨40, false⟩, ⟨16344, true⟩]) := rfl
  obtain ⟨first, _, firstReachable, firstLive⟩ :=
    request_fits_served returned (live_heap_withPmm twoLive shows) (by decide) (by decide) firstFits
  have secondFits : allocate kheapMinBlock (kmallocNeeded 40) kheapStartAddress
      [⟨40, false⟩, ⟨16344, true⟩] =
        some (kheapStartAddress + 40, [⟨40, false⟩, ⟨56, false⟩, ⟨16288, true⟩]) := rfl
  obtain ⟨second, _, secondReachable, secondLive⟩ :=
    request_fits_served firstReachable firstLive (by decide) (by decide) secondFits
  have owned : kheapStartAddress + sizeofBlock ∈
      [kheapStartAddress + 40 + sizeofBlock, kheapStartAddress + sizeofBlock] := by simp
  obtain ⟨last, _, _, freed, _⟩ := kfree_live (machine_laws _) secondLive (Or.inr owned)
  exact ⟨_, kept, .next secondReachable (.heap (.free (Or.inr owned) freed)), rfl, rfl⟩

theorem small_heap_backed :
    ∃ (run : MachineRun smallPaging) (frame : Nat), run.live = [0xC2000038] ∧
      run.clients = [frame] ∧
      (∀ address, kheapStartAddress ≤ address → address < run.heap.kheapEnd →
        ∃ frame, Backs run (address / pageSize) frame) ∧
      ∀ address other frame, kheapStartAddress ≤ address → address < run.heap.kheapEnd →
        kheapStartAddress ≤ other → other < run.heap.kheapEnd →
        Backs run (address / pageSize) frame → Backs run (other / pageSize) frame →
          address / pageSize = other / pageSize := by
  obtain ⟨run, frame, reachable, live, clients⟩ := small_heap_run
  exact ⟨run, frame, live, clients, heap_pages_backed reachable⟩

end SimplyOs.HeapBacking
