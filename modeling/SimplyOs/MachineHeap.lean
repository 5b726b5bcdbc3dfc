import SimplyOs.PageMaps
import SimplyOs.KheapRuns

/-!
# The heap window on the machine

The machine meets the laws of the heap's platform. Every page of the heap window
that is mapped at all is mapped to a frame of its own that only the heap holds,
also the pages that failed extensions have left behind the end of the heap.
-/

namespace SimplyOs.MachineHeap

open SimplyOs.Word SimplyOs.Kheap SimplyOs.KheapMemory SimplyOs.Pmm SimplyOs.PmmOwnership
open SimplyOs.Paging SimplyOs.PagingTables
open SimplyOs.Library.ByteMemory SimplyOs.Library.PageTree

set_option autoImplicit false

variable {layout : PagingLayout}

/-- A page of `[KHEAP_START, KHEAP_START + KHEAP_MAX_BYTES)`. -/
def HeapPage (page : Nat) : Prop :=
  kheapStartAddress ≤ page * pageSize ∧ page * pageSize < kheapStartAddress + kheapMaxBytes

def entryOf (machine : Machine layout) (page : Nat) : Option Nat :=
  pageEntry machine.memory (pdPhys layout) page

/-- The heap holds `frames`, and clients hold `clients`. -/
structure HeapFrames (machine : Machine layout) (frames clients : List Nat) : Prop where
  tables : PagingInvariant machine (frames ++ clients)
  entries : ∀ page, HeapPage page → ∀ entry, entryOf machine page = some entry →
    frameOf entry ∈ frames ∧ entry = frameOf entry + tableFlags
  distinct : ∀ page other entry, HeapPage page → HeapPage other →
    entryOf machine page = some entry → entryOf machine other = some entry → page = other

/-- The pages up to `limit` are mapped and hold `memory`. -/
structure MachineShows (clients : List Nat) (machine : Machine layout) (limit : Nat)
    (memory : Memory) : Prop where
  within : limit ≤ kheapStartAddress + kheapMaxBytes
  framed : ∃ frames, HeapFrames machine frames clients
  mapped : ∀ address, kheapStartAddress ≤ address → address < limit →
    ∃ entry, entryOf machine (address / pageSize) = some entry ∧
      machine.memory (frameOf entry + address % pageSize) = memory address

section Pages

variable {machine after : Machine layout} {frames clients : List Nat} {page : Nat}

theorem heap_page_of_address {address : Nat} (lower : kheapStartAddress ≤ address)
    (upper : address < kheapStartAddress + kheapMaxBytes) : HeapPage (address / pageSize) := by
  unfold HeapPage kheapStartAddress kheapMaxBytes pageSize at *
  omega

theorem heap_page_below (layout : PagingLayout) (inside : HeapPage page) :
    page < treePages ∧ page ≠ directoryPage layout := by
  obtain ⟨_, _, upper, _⟩ := layout_bounds layout
  obtain ⟨low, high⟩ := inside
  unfold bootMapEnd pageSize at upper
  unfold directoryPage treePages selfSlot
  unfold kheapStartAddress kheapMaxBytes pageSize at *
  omega

theorem heap_entry_held (framed : HeapFrames machine frames clients) (inside : HeapPage page)
    {entry : Nat} (mapped : entryOf machine page = some entry) :
    frameOf entry ∈ frames ++ clients :=
  List.mem_append_left clients (framed.entries page inside entry mapped).1

theorem heap_translate (write : Bool) (framed : HeapFrames machine frames clients)
    {address entry : Nat} (inside : HeapPage (address / pageSize))
    (mapped : entryOf machine (address / pageSize) = some entry) :
    translate machine.memory (pdPhys layout) write address =
      some (frameOf entry + address % pageSize) := by
  have flags := (framed.entries _ inside entry mapped).2
  apply translate_page write framed.tables.sound (heap_page_below layout inside).1 mapped
  rw [flags]
  exact permits_table write (frame_of_aligned entry)

theorem heap_frames_distinct (framed : HeapFrames machine frames clients) {other entry place : Nat}
    (inside : HeapPage page) (otherInside : HeapPage other) (mapped : entryOf machine page = some entry)
    (otherMapped : entryOf machine other = some place) (same : frameOf place = frameOf entry) :
    other = page := by
  have flags := (framed.entries page inside entry mapped).2
  have otherFlags := (framed.entries other otherInside place otherMapped).2
  rw [same, ← flags] at otherFlags
  rw [otherFlags] at otherMapped
  exact framed.distinct other page entry otherInside inside otherMapped mapped

theorem heap_place_injective (framed : HeapFrames machine frames clients)
    {address other entry place : Nat} (inside : HeapPage (address / pageSize))
    (otherInside : HeapPage (other / pageSize))
    (mapped : entryOf machine (address / pageSize) = some entry)
    (otherMapped : entryOf machine (other / pageSize) = some place)
    (same : frameOf place + other % pageSize = frameOf entry + address % pageSize) :
    other = address := by
  have aligned := frame_of_aligned entry
  have otherAligned := frame_of_aligned place
  have frame : frameOf place = frameOf entry := by
    simp only [pageSize, frameBytes] at *
    omega
  have samePage := heap_frames_distinct framed inside otherInside mapped otherMapped frame
  simp only [pageSize] at *
  omega

/-- Writing inside a heap frame changes no page. -/
theorem heap_write (framed : HeapFrames machine frames clients) (inside : HeapPage page)
    {entry : Nat} (mapped : entryOf machine page = some entry) {memory : Memory}
    (elsewhere : ∀ place, place < frameOf entry ∨ frameOf entry + frameBytes ≤ place →
      memory place = machine.memory place) :
    HeapFrames (⟨memory, machine.pmm⟩ : Machine layout) frames clients ∧
      ∀ place < treePages, entryOf (⟨memory, machine.pmm⟩ : Machine layout) place =
        entryOf machine place := by
  have held := heap_entry_held framed inside mapped
  have otherFrames : ∀ base, base % frameBytes = 0 → base ∉ frames ++ clients →
      SameFrame base machine.memory memory := by
    intro base aligned notHeld place above below
    have different : base ≠ frameOf entry := by
      rintro rfl
      exact notHeld held
    have apart := frames_apart (frame_of_aligned entry) aligned different
    exact elsewhere place (by omega)
  obtain ⟨tables, pages⟩ := write_held framed.tables otherFrames
  have same : ∀ place, HeapPage place → entryOf (⟨memory, machine.pmm⟩ : Machine layout) place =
      entryOf machine place :=
    fun place placeInside => pages place (heap_page_below layout placeInside).1
  refine ⟨⟨tables, ?_, ?_⟩, pages⟩
  · intro place placeInside word found
    rw [same place placeInside] at found
    exact framed.entries place placeInside word found
  · intro place other word placeInside otherInside found otherFound
    rw [same place placeInside] at found
    rw [same other otherInside] at otherFound
    exact framed.distinct place other word placeInside otherInside found otherFound

end Pages

/-! ## Accesses -/

section Access

variable {machine : Machine layout} {clients : List Nat} {limit : Nat} {memory : Memory}
variable {address : Nat}

theorem shown_place (shows : MachineShows clients machine limit memory)
    (lower : kheapStartAddress ≤ address) (upper : address < limit) :
    HeapPage (address / pageSize) ∧ ∃ entry,
      entryOf machine (address / pageSize) = some entry ∧
      machine.memory (frameOf entry + address % pageSize) = memory address ∧
      ∀ write, translate machine.memory (pdPhys layout) write address =
        some (frameOf entry + address % pageSize) := by
  obtain ⟨frames, framed⟩ := shows.framed
  obtain ⟨entry, mapped, byte⟩ := shows.mapped address lower upper
  have inside := heap_page_of_address lower (Nat.lt_of_lt_of_le upper shows.within)
  exact ⟨inside, entry, mapped, byte, fun write => heap_translate write framed inside mapped⟩

/-- After a write inside one heap frame the window shows the bytes that are found
at the places of its addresses. -/
theorem shows_after_write (shows : MachineShows clients machine limit memory)
    (lower : kheapStartAddress ≤ address) (upper : address < limit) {entry : Nat}
    (mapped : entryOf machine (address / pageSize) = some entry) {written next : Memory}
    (elsewhere : ∀ place, place < frameOf entry ∨ frameOf entry + frameBytes ≤ place →
      written place = machine.memory place)
    (bytes : ∀ other, kheapStartAddress ≤ other → other < limit → ∀ place,
      entryOf machine (other / pageSize) = some place →
        machine.memory (frameOf place + other % pageSize) = memory other →
          written (frameOf place + other % pageSize) = next other) :
    MachineShows clients (⟨written, machine.pmm⟩ : Machine layout) limit next := by
  obtain ⟨frames, framed⟩ := shows.framed
  have inside := heap_page_of_address lower (Nat.lt_of_lt_of_le upper shows.within)
  obtain ⟨framedAfter, same⟩ := heap_write framed inside mapped elsewhere
  refine ⟨shows.within, ⟨frames, framedAfter⟩, ?_⟩
  intro other otherLower otherUpper
  obtain ⟨place, found, byte⟩ := shows.mapped other otherLower otherUpper
  have otherInside := heap_page_of_address otherLower (Nat.lt_of_lt_of_le otherUpper shows.within)
  refine ⟨place, ?_, bytes other otherLower otherUpper place found byte⟩
  rw [same _ (heap_page_below layout otherInside).1]
  exact found

theorem store_byte_shows (shows : MachineShows clients machine limit memory)
    (lower : kheapStartAddress ≤ address) (upper : address < limit) (value : UInt8) :
    ∃ after, storeByte machine address value = some after ∧
      MachineShows clients after limit (store8 memory address value) := by
  obtain ⟨inside, entry, mapped, _, translated⟩ := shown_place shows lower upper
  obtain ⟨frames, framed⟩ := shows.framed
  have offset : address % pageSize < frameBytes := Nat.mod_lt _ (by decide)
  refine ⟨_, by rw [storeByte, translated true, Option.map_some],
    shows_after_write shows lower upper mapped ?_ ?_⟩
  · intro place outside
    exact store8_of_ne (by omega)
  · intro other otherLower otherUpper place found byte
    have otherInside := heap_page_of_address otherLower
      (Nat.lt_of_lt_of_le otherUpper shows.within)
    by_cases same : other = address
    · subst same
      obtain rfl := Option.some.inj (mapped.symm.trans found)
      rw [store8_same, store8_same]
    · have apart : frameOf place + other % pageSize ≠ frameOf entry + address % pageSize :=
        fun equal => same (heap_place_injective framed inside otherInside mapped found equal)
      rw [store8_of_ne apart, store8_of_ne same, byte]

theorem word_in_page (aligned : address % 4 = 0) {offset : Nat} (small : offset < 4) :
    (address + offset) / pageSize = address / pageSize ∧
      (address + offset) % pageSize = address % pageSize + offset ∧
      address % pageSize + 4 ≤ frameBytes := by
  unfold pageSize frameBytes
  omega

theorem load_word_shows (shows : MachineShows clients machine limit memory)
    (lower : kheapStartAddress ≤ address) (upper : address + 4 ≤ limit) (aligned : address % 4 = 0) :
    loadWord machine address = some (load32 memory address) := by
  obtain ⟨_, entry, mapped, _, translated⟩ := shown_place shows lower (by omega : address < limit)
  have byte : ∀ offset < 4, machine.memory (frameOf entry + address % pageSize + offset) =
      memory (address + offset) := by
    intro offset small
    obtain ⟨page, rest, _⟩ := word_in_page aligned small
    obtain ⟨_, place, found, same, _⟩ := shown_place shows
      (by omega : kheapStartAddress ≤ address + offset) (by omega : address + offset < limit)
    rw [page, mapped] at found
    obtain rfl := Option.some.inj found
    rw [rest] at same
    rw [Nat.add_assoc]
    exact same
  have first := byte 0 (by decide)
  rw [loadWord, if_pos aligned, translated false, Option.map_some]
  rw [Nat.add_zero, Nat.add_zero] at first
  simp only [load32, first, byte 1 (by decide), byte 2 (by decide), byte 3 (by decide)]

theorem store_word_shows (shows : MachineShows clients machine limit memory)
    (lower : kheapStartAddress ≤ address) (upper : address + 4 ≤ limit) (aligned : address % 4 = 0)
    (word : Nat) :
    ∃ after, storeWord machine address word = some after ∧
      MachineShows clients after limit (store32 memory address word) := by
  have below : address < limit := by omega
  obtain ⟨inside, entry, mapped, _, translated⟩ := shown_place shows lower below
  obtain ⟨frames, framed⟩ := shows.framed
  obtain ⟨_, _, room⟩ := word_in_page aligned (by decide : 0 < 4)
  refine ⟨_, by rw [storeWord, if_pos aligned, translated true, Option.map_some],
    shows_after_write shows lower below mapped ?_ ?_⟩
  · intro place outside
    exact store32_outside _ _ (by omega)
  · intro other otherLower otherUpper place found byte
    have otherInside := heap_page_of_address otherLower
      (Nat.lt_of_lt_of_le otherUpper shows.within)
    by_cases hit : address ≤ other ∧ other < address + 4
    · obtain ⟨offset, rfl⟩ := Nat.exists_eq_add_of_le hit.1
      obtain ⟨page, rest, _⟩ := word_in_page aligned (by omega : offset < 4)
      rw [page, mapped] at found
      obtain rfl := Option.some.inj found
      rw [rest, store32, if_pos (by omega), store32, if_pos hit]
      congr 1
      omega
    · have apart : ¬(frameOf entry + address % pageSize ≤ frameOf place + other % pageSize ∧
          frameOf place + other % pageSize < frameOf entry + address % pageSize + 4) := by
        rintro ⟨above, under⟩
        obtain ⟨offset, equal⟩ := Nat.exists_eq_add_of_le above
        have small : offset < 4 := by omega
        obtain ⟨page, rest, _⟩ := word_in_page aligned small
        have samePlace : frameOf place + other % pageSize =
            frameOf entry + (address + offset) % pageSize := by
          rw [rest]
          omega
        have same := heap_place_injective framed (by rw [page]; exact inside) otherInside
          (by rw [page]; exact mapped) found samePlace
        omega
      rw [store32, if_neg apart, store32, if_neg hit, byte]

end Access

/-! ## One more page -/

section Growth

variable {machine after : Machine layout} {frames clients : List Nat} {limit frame : Nat}
variable {memory : Memory}

/-- `limit` as an address for `paging_map_page`. -/
theorem heap_address_mappable (layout : PagingLayout) (lower : kheapStartAddress ≤ limit)
    (room : limit + pageSize ≤ kheapStartAddress + kheapMaxBytes) :
    limit < recursivePtBase ∧ limit / pageSize ≠ directoryPage layout ∧
      HeapPage (limit / pageSize) := by
  have inside : HeapPage (limit / pageSize) := by
    apply heap_page_of_address lower
    unfold pageSize at room
    omega
  refine ⟨?_, (heap_page_below layout inside).2, inside⟩
  unfold kheapStartAddress kheapMaxBytes pageSize at room
  unfold recursivePtBase
  omega

/-- The frame in hand becomes the frame of the page. -/
theorem heap_frames_stored (framed : HeapFrames machine frames clients)
    (fresh : frame ∉ frames) (aligned : frame % frameBytes = 0) {page : Nat}
    (stored : EntryStored machine after (frame :: (frames ++ clients)) page
      (some (frame + tableFlags))) : HeapFrames after (frame :: frames) clients := by
  have base : frameOf (frame + tableFlags) = frame := frame_of_add aligned (by decide)
  have found : ∀ place, HeapPage place → entryOf after place =
      if place = page then some (frame + tableFlags) else entryOf machine place :=
    fun place inside => stored.pages place (heap_page_below layout inside).1
  have notStored : ∀ place, HeapPage place → entryOf machine place ≠ some (frame + tableFlags) := by
    intro place inside mapped
    have member := (framed.entries place inside _ mapped).1
    rw [base] at member
    exact fresh member
  refine ⟨stored.invariant, ?_, ?_⟩
  · intro place inside entry mapped
    rw [found place inside] at mapped
    by_cases same : place = page
    · rw [if_pos same] at mapped
      obtain rfl := Option.some.inj mapped
      rw [base]
      exact ⟨List.mem_cons_self .., rfl⟩
    · rw [if_neg same] at mapped
      obtain ⟨member, flags⟩ := framed.entries place inside entry mapped
      exact ⟨List.mem_cons_of_mem _ member, flags⟩
  · intro place other entry inside otherInside mapped otherMapped
    rw [found place inside] at mapped
    rw [found other otherInside] at otherMapped
    by_cases same : place = page <;> by_cases otherSame : other = page
    · rw [same, otherSame]
    · rw [if_pos same] at mapped
      rw [if_neg otherSame, ← mapped] at otherMapped
      exact absurd otherMapped (notStored other otherInside)
    · rw [if_pos otherSame] at otherMapped
      rw [if_neg same, ← otherMapped] at mapped
      exact absurd mapped (notStored place inside)
    · rw [if_neg same] at mapped
      rw [if_neg otherSame] at otherMapped
      exact framed.distinct place other entry inside otherInside mapped otherMapped

/-- `pmm_alloc_frame` and `paging_map_page` as `kheap_extend` calls them: the page
table or the page itself may be missing, and then freeing the frame restores
everything; or the page is mapped and the frame belongs to the heap. -/
theorem heap_map_page (framed : HeapFrames machine frames clients)
    (lower : kheapStartAddress ≤ limit)
    (room : limit + pageSize ≤ kheapStartAddress + kheapMaxBytes)
    (some : (pmmAllocFrame machine.pmm).1 ≠ 0) :
    (slotPresent machine.memory (pdPhys layout) (pdeIndex limit) = false ∧
        (pmmAllocFrame (pmmAllocFrame machine.pmm).2).1 = 0 ∧
        pagingMapPage (⟨machine.memory, (pmmAllocFrame machine.pmm).2⟩ : Machine layout) limit
          (pmmAllocFrame machine.pmm).1 pagingFlagWrite =
            Option.some (false, ⟨machine.memory, (pmmAllocFrame machine.pmm).2⟩)) ∨
      ∃ after, pagingMapPage (⟨machine.memory, (pmmAllocFrame machine.pmm).2⟩ : Machine layout) limit
          (pmmAllocFrame machine.pmm).1 pagingFlagWrite = Option.some (true, after) ∧
        (slotPresent machine.memory (pdPhys layout) (pdeIndex limit) = false →
          (pmmAllocFrame (pmmAllocFrame machine.pmm).2).1 ≠ 0) ∧
        after.pmm = (if slotPresent machine.memory (pdPhys layout) (pdeIndex limit) then
          (pmmAllocFrame machine.pmm).2 else (pmmAllocFrame (pmmAllocFrame machine.pmm).2).2) ∧
        EntryStored (⟨machine.memory, (pmmAllocFrame machine.pmm).2⟩ : Machine layout) after
          ((pmmAllocFrame machine.pmm).1 :: (frames ++ clients)) (limit / pageSize)
          (Option.some ((pmmAllocFrame machine.pmm).1 + tableFlags)) ∧
        HeapFrames after ((pmmAllocFrame machine.pmm).1 :: frames) clients := by
  obtain ⟨below, notDirectory, _⟩ := heap_address_mappable layout lower room
  have allocated := alloc_held framed.tables some
  obtain ⟨number, address, _, inside, _, _⟩ := allocated.frames.owned _ (List.mem_cons_self ..)
  have aligned : (pmmAllocFrame machine.pmm).1 % frameBytes = 0 := by
    rw [address]
    exact Nat.mul_mod_left _ _
  have word : (pmmAllocFrame machine.pmm).1 < 2 ^ 32 := by
    have bounded := (pmmAllocFrame machine.pmm).2.bounded
    simp only [pmmMaxFrames] at bounded
    simp only [pageSize] at address
    simp only at inside
    omega
  have fresh := (List.nodup_cons.mp allocated.frames.distinct).1
  have entry : entryWord (pmmAllocFrame machine.pmm).1 pagingFlagWrite =
      (pmmAllocFrame machine.pmm).1 + tableFlags := by
    rw [entryWord, Nat.or_comm pagingFlagWrite, ← Nat.or_assoc, table_word aligned]
  rcases paging_map_page_spec allocated below notDirectory aligned word
    (by decide : pagingFlagWrite < pageSize) with ⟨absent, none, run⟩ | ⟨after, run, some, pmm, stored⟩
  · exact Or.inl ⟨absent, none, run⟩
  · rw [entry] at stored
    have moved : HeapFrames (⟨machine.memory, (pmmAllocFrame machine.pmm).2⟩ : Machine layout) frames
        clients := by
      refine ⟨held_subset allocated (List.subset_cons_self _ _)
        (List.nodup_cons.mp allocated.frames.distinct).2, framed.entries, framed.distinct⟩
    exact Or.inr ⟨after, run, some, pmm, stored, heap_frames_stored moved
      (fun member => fresh (List.mem_append_left _ member)) aligned stored⟩

theorem free_last_frame (framed : HeapFrames machine frames clients)
    (some : (pmmAllocFrame machine.pmm).1 ≠ 0) :
    HeapFrames (⟨machine.memory, pmmFreeFrame (pmmAllocFrame machine.pmm).2
      (pmmAllocFrame machine.pmm).1⟩ : Machine layout) frames clients := by
  have freed := free_held (alloc_held framed.tables some) (List.mem_cons_self ..)
  rw [List.erase_cons_head] at freed
  exact ⟨freed, framed.entries, framed.distinct⟩

theorem shows_one_more (framed : HeapFrames after frames clients) (aligned : limit % pageSize = 0)
    (room : limit + pageSize ≤ kheapStartAddress + kheapMaxBytes)
    (kept : ∀ address, kheapStartAddress ≤ address → address < limit →
      ∃ entry, entryOf after (address / pageSize) = some entry ∧
        after.memory (frameOf entry + address % pageSize) = memory address)
    {entry : Nat} (mapped : entryOf after (limit / pageSize) = some entry) :
    ∃ fresh, MachineShows clients after (limit + pageSize) fresh ∧
      Agree kheapStartAddress limit memory fresh := by
  refine ⟨fun address => if address < limit then memory address
    else after.memory (frameOf entry + address % pageSize), ⟨room, ⟨frames, framed⟩, ?_⟩,
    fun address _ below => if_pos below⟩
  intro address lower upper
  by_cases below : address < limit
  · obtain ⟨old, found, byte⟩ := kept address lower below
    exact ⟨old, found, by rw [if_pos below]; exact byte⟩
  · have page : address / pageSize = limit / pageSize := by
      unfold pageSize at *
      omega
    exact ⟨entry, by rw [page]; exact mapped, by rw [if_neg below]⟩

end Growth

theorem platform_alloc_eq (machine : Machine layout) :
    Platform.pmmAllocFrame machine =
      ((pmmAllocFrame machine.pmm).1, ⟨machine.memory, (pmmAllocFrame machine.pmm).2⟩) := rfl

theorem alloc_none_eq {pmm : PmmState} (none : (pmmAllocFrame pmm).1 = 0) :
    (pmmAllocFrame pmm).2 = pmm := by
  rcases pmm_alloc_frame_spec pmm with ⟨frame, available, result⟩ | ⟨_, result⟩
  · rw [result] at none
    exact absurd none (frame_address_ne_zero available.1)
  · rw [result]

theorem shows_mapped_page {machine after : Machine layout} {clients frames : List Nat}
    {limit frame entry : Nat} {memory : Memory} {pmm : PmmState}
    (shows : MachineShows clients machine limit memory) (framed : HeapFrames machine frames clients)
    (aligned : limit % pageSize = 0)
    (room : limit + pageSize ≤ kheapStartAddress + kheapMaxBytes) (below : limit < recursivePtBase)
    (stored : EntryStored (⟨machine.memory, pmm⟩ : Machine layout) after
      (frame :: (frames ++ clients)) (limit / pageSize) (some entry))
    (grown : HeapFrames after (frame :: frames) clients) :
    ∃ fresh, MachineShows clients after (limit + pageSize) fresh ∧
      Agree kheapStartAddress limit memory fresh := by
  have newEntry := stored.pages _ (page_below below)
  rw [if_pos rfl] at newEntry
  refine shows_one_more grown aligned room ?_ newEntry
  intro address lower upper
  obtain ⟨old, found, byte⟩ := shows.mapped address lower upper
  have inside := heap_page_of_address lower (Nat.lt_of_lt_of_le upper shows.within)
  have different : address / pageSize ≠ limit / pageSize := by
    unfold pageSize at *
    omega
  have kept := stored.kept _ (List.mem_cons_of_mem _ (heap_entry_held framed inside found))
  have offset : address % pageSize < frameBytes := Nat.mod_lt _ (by decide)
  refine ⟨old, ?_, ?_⟩
  · have same := stored.pages _ (heap_page_below layout inside).1
    rw [if_neg different] at same
    exact same.trans found
  · rw [kept _ (Nat.le_add_right _ _) (Nat.add_lt_add_left offset _)]
    exact byte

theorem machine_laws (clients : List Nat) :
    PlatformLaws (Machine layout) (MachineShows clients) where
  load8 address shows above below := by
    obtain ⟨_, entry, _, byte, translated⟩ := shown_place shows above below
    change loadByte _ address = _
    rw [loadByte, translated false, Option.map_some, byte]
  load32 address shows above below aligned := load_word_shows shows above below aligned
  store8 address value shows above below := store_byte_shows shows above below value
  store32 address word shows above below aligned := store_word_shows shows above below aligned word
  noFrame {machine limit memory} shows none := by
    rw [platform_alloc_eq] at none ⊢
    rw [alloc_none_eq none]
    exact shows
  mapPage {machine limit memory} shows aligned above within frame := by
    obtain ⟨frames, framed⟩ := shows.framed
    obtain ⟨below, _, inside⟩ := heap_address_mappable layout above within
    rw [platform_alloc_eq] at frame ⊢
    rcases heap_map_page framed above within frame with ⟨_, _, run⟩ |
      ⟨after, run, _, _, stored, grown⟩
    · refine ⟨false, _, run, fun success => absurd success (by decide), fun _ => ?_⟩
      exact ⟨shows.within, ⟨frames, free_last_frame framed frame⟩, shows.mapped⟩
    · refine ⟨true, after, run, fun _ => ?_, fun failure => absurd failure (by decide)⟩
      exact shows_mapped_page shows framed aligned within below stored grown
  shrink shows smaller :=
    ⟨Nat.le_trans smaller shows.within, shows.framed,
      fun address above below => shows.mapped address above (Nat.lt_of_lt_of_le below smaller)⟩
  beyond {machine limit memory} shows aligned above within := by
    obtain ⟨frames, framed⟩ := shows.framed
    cases found : entryOf machine (limit / pageSize) with
    | none =>
        refine Or.inl fun word => ?_
        change storeWord machine limit word = none
        have fault := translate_unmapped true found
        have wordAligned : limit % 4 = 0 := by
          unfold pageSize at aligned
          omega
        rw [storeWord, if_pos wordAligned]
        exact congrArg (Option.map _) fault
    | some entry =>
        exact Or.inr (shows_one_more framed aligned within shows.mapped found)

end SimplyOs.MachineHeap
