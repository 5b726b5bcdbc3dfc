import SimplyOs.Paging
import SimplyOs.PmmOwnership

/-!
# Who owns which page table

The invariant of the page tables: the tree is sound, the directory is mapped to
itself, and each table lies in a frame of its own that the frame allocator holds
for nobody else. `held` lists the frames in other hands. From it follows what
`paging_map_page` and `paging_unmap_page` do to each page.
-/

namespace SimplyOs.PagingTables

open SimplyOs.Word SimplyOs.Kheap SimplyOs.Pmm SimplyOs.PmmFrames SimplyOs.PmmOwnership
open SimplyOs.Paging
open SimplyOs.Library.ByteMemory SimplyOs.Library.PageTree

set_option autoImplicit false

variable {layout : PagingLayout}

/-! ## The boot pages -/

theorem layout_bounds (layout : PagingLayout) :
    pdPhys layout = layout.bootPageDirectory - kernelVirtualBase ∧
      kernelVirtualBase + kernelPhysicalStart ≤ layout.bootPageDirectory ∧
      layout.bootPageDirectory + pageSize < bootMapEnd ∧ pdPhys layout % frameBytes = 0 := by
  have mapped := layout.mapped
  have aligned := layout.directoryAligned
  have behind := layout.tableBehind
  simp only [List.mem_cons, List.not_mem_nil, or_false, forall_eq_or_imp, forall_eq,
    kernelVirtualBase, kernelPhysicalStart, bootMapEnd] at mapped
  simp only [pageSize] at aligned behind
  have phys : pdPhys layout = layout.bootPageDirectory - kernelVirtualBase := by
    apply sub32_eq
    · simp only [kernelVirtualBase]
      omega
    · omega
  refine ⟨phys, mapped.2.1.1, ?_, ?_⟩
  · simp only [bootMapEnd, pageSize]
    omega
  · simp only [phys, kernelVirtualBase, frameBytes]
    omega

def bootTable (layout : PagingLayout) : Nat := pdPhys layout + pageSize

def directoryPage (layout : PagingLayout) : Nat := layout.bootPageDirectory / pageSize

theorem directory_page_below (layout : PagingLayout) : directoryPage layout < treePages := by
  obtain ⟨_, _, upper, _⟩ := layout_bounds layout
  simp only [bootMapEnd, pageSize] at upper
  unfold directoryPage treePages selfSlot pageSize
  omega

/-- The directory and the boot table are the second reserved range. -/
theorem boot_pages_reserved (layout : PagingLayout) :
    frameReserved layout.toBootLayout (pdPhys layout / pageSize) = true ∧
      frameReserved layout.toBootLayout (bootTable layout / pageSize) = true := by
  obtain ⟨phys, lower, upper, _⟩ := layout_bounds layout
  have behind := layout.tableBehind
  have member : (layout.bootPageDirectory - kernelVirtualBase,
      layout.bootPageTable1 - kernelVirtualBase + pageSize) ∈
        kernelRanges layout.toBootLayout := by
    simp [kernelRanges]
  simp only [kernelVirtualBase, kernelPhysicalStart, bootMapEnd, pageSize] at *
  constructor
  · apply touched_reserved _ member
    exact ⟨pdPhys layout, by simp only; omega, by simp only; omega, rfl⟩
  · apply touched_reserved _ member
    exact ⟨bootTable layout, by simp only [bootTable, pageSize]; omega,
      by simp only [bootTable, pageSize]; omega, rfl⟩

/-! ## The invariant -/

/-- The frame of a page table: the boot table, or one that belongs to nobody else. -/
def TableFrame (layout : PagingLayout) (pmm : PmmState) (held : List Nat) (frame : Nat) : Prop :=
  frame = bootTable layout ∨ Owned layout.toBootLayout pmm frame ∧ frame ∉ held

structure PagingInvariant (machine : Machine layout) (held : List Nat) : Prop where
  sound : Sound machine.memory (pdPhys layout)
  directory : pageEntry machine.memory (pdPhys layout) (directoryPage layout) =
    some (pdPhys layout + tableFlags)
  frames : PmmInvariant layout.toBootLayout ⟨machine.pmm, held⟩
  tables : ∀ index < selfSlot, slotPresent machine.memory (pdPhys layout) index = true →
    TableFrame layout machine.pmm held (tableAt machine.memory (pdPhys layout) index)

section Invariant

variable {machine after : Machine layout} {held : List Nat} {frame : Nat}

theorem held_frame_apart (invariant : PagingInvariant machine held) (member : frame ∈ held) :
    frame % frameBytes = 0 ∧ frame ≠ pdPhys layout ∧
      ∀ index < selfSlot, slotPresent machine.memory (pdPhys layout) index = true →
        tableAt machine.memory (pdPhys layout) index ≠ frame := by
  obtain ⟨directoryReserved, tableReserved⟩ := boot_pages_reserved layout
  obtain ⟨number, rfl, _, _, _, unreserved⟩ := invariant.frames.owned frame member
  have back : number * pageSize / pageSize = number := Nat.mul_div_cancel _ (by decide)
  refine ⟨Nat.mul_mod_left _ _, ?_, ?_⟩
  · intro same
    rw [← same, back, unreserved] at directoryReserved
    contradiction
  · intro index inside here same
    rcases invariant.tables index inside here with boot | ⟨_, notHeld⟩
    · rw [← boot, same, back, unreserved] at tableReserved
      contradiction
    · rw [same] at notHeld
      exact notHeld member

theorem held_subset {fewer : List Nat} (invariant : PagingInvariant machine held)
    (subset : fewer ⊆ held) (distinct : fewer.Nodup) : PagingInvariant machine fewer := by
  refine ⟨invariant.sound, invariant.directory,
    ⟨invariant.frames.counted, invariant.frames.reserved,
      fun address member => invariant.frames.owned _ (subset member),
      distinct⟩, ?_⟩
  intro index inside here
  rcases invariant.tables index inside here with boot | ⟨owned, notHeld⟩
  · exact Or.inl boot
  · exact Or.inr ⟨owned, fun member => notHeld (subset member)⟩

theorem owned_set_true {pmm : PmmState} {number : Nat} (inside : number < pmm.frameCount)
    (owned : Owned layout.toBootLayout pmm frame) :
    Owned layout.toBootLayout (pmmSetUsed pmm number true) frame := by
  obtain ⟨other, same, positive, otherInside, used, unreserved⟩ := owned
  refine ⟨other, same, positive, ?_, ?_, unreserved⟩
  · rw [frame_count_set]
    exact otherInside
  · rw [frame_used_set pmm inside, used]
    exact ite_self true

theorem alloc_held (invariant : PagingInvariant machine held)
    (some : (pmmAllocFrame machine.pmm).1 ≠ 0) :
    PagingInvariant ({ machine with pmm := (pmmAllocFrame machine.pmm).2 } : Machine layout)
      ((pmmAllocFrame machine.pmm).1 :: held) := by
  have frames := alloc_invariant invariant.frames
  rw [if_neg some] at frames
  rcases pmm_alloc_frame_spec machine.pmm with ⟨number, available, result⟩ | ⟨_, result⟩
  · rw [result] at frames ⊢
    refine ⟨invariant.sound, invariant.directory, frames, ?_⟩
    intro index inside here
    rcases invariant.tables index inside here with boot | ⟨owned, notHeld⟩
    · exact Or.inl boot
    · refine Or.inr ⟨owned_set_true available.2.1 owned, ?_⟩
      obtain ⟨other, same, _, _, used, _⟩ := owned
      intro member
      rcases List.mem_cons.mp member with new | older
      · have equal : other = number :=
          Nat.eq_of_mul_eq_mul_right (by decide : 0 < pageSize) (same.symm.trans new)
        rw [equal, available.2.2] at used
        contradiction
      · exact notHeld older
  · exact absurd (by rw [result]) some

theorem free_held (invariant : PagingInvariant machine held) (member : frame ∈ held) :
    PagingInvariant ({ machine with pmm := pmmFreeFrame machine.pmm frame } : Machine layout)
      (held.erase frame) := by
  have frames := free_invariant invariant.frames member
  refine ⟨invariant.sound, invariant.directory, frames, ?_⟩
  obtain ⟨number, rfl, positive, inside, _, _⟩ := invariant.frames.owned frame member
  intro index slotInside here
  rcases invariant.tables index slotInside here with boot | ⟨owned, notHeld⟩
  · exact Or.inl boot
  · refine Or.inr ⟨?_, fun stays => notHeld (List.mem_of_mem_erase stays)⟩
    obtain ⟨other, same, otherPositive, otherInside, used, unreserved⟩ := owned
    have different : other ≠ number := by
      rintro rfl
      rw [same] at notHeld
      exact notHeld member
    rw [pmm_free_frame_eq machine.pmm positive]
    refine ⟨other, same, otherPositive, ?_, ?_, unreserved⟩
    · rw [frame_count_set]
      exact otherInside
    · rw [frame_used_set machine.pmm inside, if_neg different]
      exact used

/-- Writing to held frames leaves the tables alone. -/
theorem write_held (invariant : PagingInvariant machine held) {memory : Memory}
    (elsewhere : ∀ base, base % frameBytes = 0 → base ∉ held →
      SameFrame base machine.memory memory) :
    PagingInvariant ({ machine with memory := memory } : Machine layout) held ∧
      ∀ page < treePages, pageEntry memory (pdPhys layout) page =
        pageEntry machine.memory (pdPhys layout) page := by
  have directorySame : SameFrame (pdPhys layout) machine.memory memory := by
    apply elsewhere _ invariant.sound.aligned
    intro member
    exact (held_frame_apart invariant member).2.1 rfl
  have tablesSame : ∀ index < selfSlot,
      slotPresent machine.memory (pdPhys layout) index = true →
        SameFrame (tableAt machine.memory (pdPhys layout) index) machine.memory memory := by
    intro index inside here
    apply elsewhere _ (table_at_aligned _ _ _)
    intro member
    exact (held_frame_apart invariant member).2.2 index inside here rfl
  obtain ⟨sound, slots⟩ := sound_of_same invariant.sound directorySame
  have pages : ∀ page < treePages, pageEntry memory (pdPhys layout) page =
      pageEntry machine.memory (pdPhys layout) page :=
    fun page below => page_entry_of_same directorySame tablesSame below
  refine ⟨⟨sound, ?_, invariant.frames, ?_⟩, pages⟩
  · rw [pages _ (directory_page_below layout)]
    exact invariant.directory
  · intro index inside here
    have slotSame := slots index (Nat.lt_trans inside (by decide))
    simp only [slotPresent, tableAt, slotSame] at here ⊢
    exact invariant.tables index inside here

end Invariant

/-! ## Reaching directory and tables -/

section Access

variable {machine : Machine layout} {held : List Nat} {index virt word : Nat}

theorem directory_address_parts (layout : PagingLayout) (inside : index < 1024) :
    pageDirectory layout index / frameBytes = directoryPage layout ∧
      pageDirectory layout index % frameBytes = 4 * index := by
  have aligned := layout.directoryAligned
  unfold pageDirectory directoryPage frameBytes pageSize at *
  omega

theorem directory_translate (write : Bool) (invariant : PagingInvariant machine held)
    (inside : index < 1024) :
    translate machine.memory (pdPhys layout) write (pageDirectory layout index) =
      some (pdPhys layout + 4 * index) := by
  obtain ⟨page, offset⟩ := directory_address_parts layout inside
  have translated := translate_page write invariant.sound
    (by rw [page]; exact directory_page_below layout : _ < treePages)
    (by rw [page]; exact invariant.directory)
    (permits_table write invariant.sound.aligned)
  rw [translated, offset, frame_of_add invariant.sound.aligned (by decide)]

theorem directory_word_aligned (layout : PagingLayout) (index : Nat) :
    pageDirectory layout index % 4 = 0 := by
  have aligned := layout.directoryAligned
  unfold pageDirectory pageSize at *
  omega

theorem load_directory (invariant : PagingInvariant machine held) (inside : index < 1024) :
    loadWord machine (pageDirectory layout index) =
      some (slot machine.memory (pdPhys layout) index) := by
  rw [loadWord, if_pos (directory_word_aligned layout index),
    directory_translate false invariant inside]
  rfl

theorem store_directory (invariant : PagingInvariant machine held) (inside : index < 1024) :
    storeWord machine (pageDirectory layout index) word =
      some { machine with memory := store32 machine.memory (pdPhys layout + 4 * index) word } := by
  rw [storeWord, if_pos (directory_word_aligned layout index),
    directory_translate true invariant inside]
  rfl

theorem pde_index_below (below : virt < recursivePtBase) : pdeIndex virt < selfSlot := by
  unfold pdeIndex selfSlot recursivePtBase at *
  omega

theorem page_below (below : virt < recursivePtBase) : virt / pageSize < treePages := by
  unfold treePages selfSlot recursivePtBase pageSize at *
  omega

theorem page_slot (virt : Nat) : virt / pageSize / 1024 = pdeIndex virt :=
  Nat.div_div_eq_div_mul _ _ _

theorem pte_index_lt (virt : Nat) : pteIndex virt < 1024 := Nat.mod_lt _ (by decide)

theorem window_translate (write : Bool) {place : Nat}
    (sound : Sound machine.memory (pdPhys layout)) (inside : index < selfSlot)
    (here : slotPresent machine.memory (pdPhys layout) index = true) (small : place < 1024) :
    translate machine.memory (pdPhys layout) write (pageTableVirt index + 4 * place) =
      some (tableAt machine.memory (pdPhys layout) index + 4 * place) := by
  have offset : 4 * place < frameBytes := by
    unfold frameBytes
    omega
  exact translate_window write sound inside here offset

theorem window_word_aligned (index place : Nat) : (pageTableVirt index + 4 * place) % 4 = 0 := by
  unfold pageTableVirt recursivePtBase pageSize
  omega

theorem load_window (sound : Sound machine.memory (pdPhys layout)) (below : virt < recursivePtBase)
    (here : slotPresent machine.memory (pdPhys layout) (pdeIndex virt) = true) :
    loadWord machine (pageTableVirt (pdeIndex virt) + 4 * pteIndex virt) =
      some (slot machine.memory (tableAt machine.memory (pdPhys layout) (pdeIndex virt))
        (pteIndex virt)) := by
  rw [loadWord, if_pos (window_word_aligned _ _),
    window_translate false sound (pde_index_below below) here (pte_index_lt virt)]
  rfl

theorem present_test (entry : Nat) : entry &&& pagingFlagPresent = 0 ↔ present entry = false := by
  have mask : entry &&& pagingFlagPresent = entry % 2 := Nat.and_one_is_mod entry
  rw [mask, present, beq_eq_false_iff_ne]
  omega

theorem test_present {memory : Memory} {root : Nat} (here : slotPresent memory root index = true) :
    ¬(slot memory root index &&& pagingFlagPresent = 0) := by
  rw [present_test, ← slotPresent, here]
  decide

theorem test_absent {memory : Memory} {root : Nat} (absent : slotPresent memory root index = false) :
    slot memory root index &&& pagingFlagPresent = 0 :=
  (present_test _).mpr absent

end Access

/-! ## Changing one entry -/

section Entry

variable {machine : Machine layout} {held : List Nat} {virt word : Nat}

/-- What is the same after one page got another entry. -/
structure EntryStored (before after : Machine layout) (held : List Nat) (page : Nat)
    (entry : Option Nat) : Prop where
  invariant : PagingInvariant after held
  pages : ∀ place < treePages, pageEntry after.memory (pdPhys layout) place =
    if place = page then entry else pageEntry before.memory (pdPhys layout) place
  slots : ∀ index < selfSlot, slotPresent after.memory (pdPhys layout) index =
    (slotPresent before.memory (pdPhys layout) index || decide (index = page / 1024))
  kept : ∀ frame ∈ held, SameFrame frame before.memory after.memory

theorem store_window_eq (sound : Sound machine.memory (pdPhys layout))
    (below : virt < recursivePtBase)
    (here : slotPresent machine.memory (pdPhys layout) (pdeIndex virt) = true) :
    storeWord machine (pageTableVirt (pdeIndex virt) + 4 * pteIndex virt) word =
      some ⟨storeEntry machine.memory (pdPhys layout) (virt / pageSize) word, machine.pmm⟩ := by
  rw [storeWord, if_pos (window_word_aligned _ _),
    window_translate true sound (pde_index_below below) here (pte_index_lt virt),
    storeEntry, page_slot]
  rfl

theorem store_window (invariant : PagingInvariant machine held) (below : virt < recursivePtBase)
    (notDirectory : virt / pageSize ≠ directoryPage layout)
    (here : slotPresent machine.memory (pdPhys layout) (pdeIndex virt) = true)
    (small : word < 2 ^ 32) :
    ∃ after, storeWord machine (pageTableVirt (pdeIndex virt) + 4 * pteIndex virt) word =
        some after ∧ after.pmm = machine.pmm ∧
      EntryStored machine after held (virt / pageSize)
        (if present word then some word else none) := by
  have sound := invariant.sound
  have pageBelow := page_below below
  rw [← page_slot] at here
  have directorySame := store_entry_directory word sound pageBelow here
  obtain ⟨soundAfter, slots⟩ := sound_of_same sound directorySame
  have pages : ∀ place < treePages,
      pageEntry (storeEntry machine.memory (pdPhys layout) (virt / pageSize) word)
          (pdPhys layout) place =
        if place = virt / pageSize then (if present word then some word else none)
        else pageEntry machine.memory (pdPhys layout) place :=
    fun place placeBelow => store_entry_page sound pageBelow here small placeBelow
  refine ⟨⟨storeEntry machine.memory (pdPhys layout) (virt / pageSize) word, machine.pmm⟩, ?_, rfl,
    ⟨⟨soundAfter, ?_, invariant.frames, ?_⟩, pages, ?_, ?_⟩⟩
  · rw [page_slot] at here
    exact store_window_eq sound below here
  · rw [pages _ (directory_page_below layout), if_neg notDirectory.symm]
    exact invariant.directory
  · intro index inside present
    have slotSame := slots index (Nat.lt_trans inside (by decide))
    simp only [slotPresent, tableAt, slotSame] at present ⊢
    exact invariant.tables index inside present
  · intro index inside
    have slotSame := slots index (Nat.lt_trans inside (by decide))
    simp only [slotPresent, slotSame]
    by_cases same : index = virt / pageSize / 1024
    · rw [slotPresent, ← same] at here
      simp [here]
    · simp [same]
  · intro frame member
    obtain ⟨aligned, _, apart⟩ := held_frame_apart invariant member
    exact same_frame_store (table_at_aligned _ _ _) aligned
      (apart _ (page_slot_lt pageBelow) here).symm (Nat.mod_lt _ (by decide))

end Entry

/-! ## A new table -/

section NewTable

variable {machine : Machine layout} {held : List Nat} {index : Nat}

theorem fill_store_next (memory : Memory) (start size : Nat) (value : UInt8) :
    store8 (fill memory start size value) (start + size) value =
      fill memory start (size + 1) value := by
  funext place
  simp only [store8, fill]
  by_cases last : place = start + size
  · rw [if_pos last, if_pos (by omega)]
  · rw [if_neg last]
    by_cases inside : start ≤ place ∧ place < start + size
    · rw [if_pos inside, if_pos (by omega)]
    · rw [if_neg inside, if_neg (by omega)]

theorem store_byte_window {memory : Memory} (pmm : PmmState) (sound : Sound memory (pdPhys layout))
    (inside : index < selfSlot) (here : slotPresent memory (pdPhys layout) index = true)
    (value : UInt8) {offset : Nat} (small : offset < frameBytes) :
    storeByte (⟨memory, pmm⟩ : Machine layout) (pageTableVirt index + offset) value =
      some ⟨store8 memory (tableAt memory (pdPhys layout) index + offset) value, pmm⟩ := by
  have translated : translate memory (pdPhys layout) true (pageTableVirt index + offset) =
      some (tableAt memory (pdPhys layout) index + offset) :=
    translate_window true sound inside here small
  rw [storeByte, translated]
  rfl

theorem memset_window {memory : Memory} (pmm : PmmState) (sound : Sound memory (pdPhys layout))
    (inside : index < selfSlot) (here : slotPresent memory (pdPhys layout) index = true)
    (value : UInt8) {size : Nat} (small : size ≤ frameBytes) :
    memset (⟨memory, pmm⟩ : Machine layout) (pageTableVirt index) value size =
      some ⟨fill memory (tableAt memory (pdPhys layout) index) size value, pmm⟩ := by
  induction size with
  | zero =>
      have same : fill memory (tableAt memory (pdPhys layout) index) 0 value = memory :=
        funext fun place => if_neg (by omega)
      rw [memset, same]
  | succ size ih =>
      have aligned := table_at_aligned memory (pdPhys layout) index
      have apart := frames_apart aligned sound.aligned (sound.apart index inside here).symm
      have directorySame : SameFrame (pdPhys layout) memory
          (fill memory (tableAt memory (pdPhys layout) index) size value) :=
        agree_fill (by omega)
      obtain ⟨soundAfter, slots⟩ := sound_of_same sound directorySame
      have slotSame := slots index (Nat.lt_trans inside (by decide))
      have presentAfter : slotPresent
          (fill memory (tableAt memory (pdPhys layout) index) size value)
          (pdPhys layout) index = true := by
        rw [slotPresent, slotSame]
        exact here
      have sameTable : tableAt (fill memory (tableAt memory (pdPhys layout) index) size value)
          (pdPhys layout) index = tableAt memory (pdPhys layout) index :=
        congrArg frameOf slotSame
      rw [memset, ih (Nat.le_of_succ_le small), Option.bind_eq_bind, Option.bind_some,
        store_byte_window pmm soundAfter inside presentAfter value (Nat.lt_of_succ_le small),
        sameTable, fill_store_next]

theorem available_unused (invariant : PagingInvariant machine held) {number : Nat}
    (available : Available machine.pmm number) :
    Unused machine.memory (pdPhys layout) (number * pageSize) := by
  obtain ⟨unreserved, _⟩ := available_fresh invariant.frames available
  obtain ⟨directoryReserved, tableReserved⟩ := boot_pages_reserved layout
  obtain ⟨_, inside, unused⟩ := available
  have bounded := machine.pmm.bounded
  have back : number * pageSize / pageSize = number := Nat.mul_div_cancel _ (by decide)
  refine ⟨Nat.mul_mod_left _ _, ?_, ?_, ?_⟩
  · simp only [pmmMaxFrames] at bounded
    simp only [pageSize, frameBytes]
    omega
  · intro same
    rw [← same, back, unreserved] at directoryReserved
    contradiction
  · intro slotIndex slotInside here same
    rcases invariant.tables slotIndex slotInside here with boot | ⟨⟨other, otherSame, _, _, used, _⟩, _⟩
    · rw [← boot, same, back, unreserved] at tableReserved
      contradiction
    · have equal : other = number :=
        Nat.eq_of_mul_eq_mul_right (by decide : 0 < pageSize) (otherSame.symm.trans same)
      rw [equal, unused] at used
      contradiction

theorem table_word {frame : Nat} (aligned : frame % frameBytes = 0) :
    frame ||| pagingFlagPresent ||| pagingFlagWrite = frame + tableFlags := by
  have split : frame = 2 ^ 12 * (frame / frameBytes) := by
    simp only [frameBytes] at *
    omega
  have small : tableFlags < 2 ^ 12 := by decide
  have sum := Nat.two_pow_add_eq_or_of_lt small (frame / frameBytes)
  rw [← split] at sum
  rw [Nat.or_assoc, sum]
  rfl

theorem install_invariant (invariant : PagingInvariant machine held) (inside : index < selfSlot)
    (absent : slotPresent machine.memory (pdPhys layout) index = false)
    (some : (pmmAllocFrame machine.pmm).1 ≠ 0)
    (unused : Unused machine.memory (pdPhys layout) (pmmAllocFrame machine.pmm).1) :
    PagingInvariant (⟨installTable machine.memory (pdPhys layout) index
      (pmmAllocFrame machine.pmm).1, (pmmAllocFrame machine.pmm).2⟩ : Machine layout) held := by
  have allocated := alloc_held invariant some
  obtain ⟨sound, slots⟩ := sound_install invariant.sound unused inside
  have fewer := held_subset allocated (List.subset_cons_self _ held)
    (List.nodup_cons.mp allocated.frames.distinct).2
  refine ⟨sound, ?_, fewer.frames, ?_⟩
  · rw [install_page invariant.sound unused inside absent (directory_page_below layout)]
    exact invariant.directory
  · intro place placeInside here
    have placeSlot := slots place (Nat.lt_trans placeInside (by decide))
    by_cases same : place = index
    · rw [if_pos same] at placeSlot
      rw [tableAt, placeSlot, frame_of_add unused.aligned (by decide)]
      exact Or.inr ⟨allocated.frames.owned _ (List.mem_cons_self ..),
        (List.nodup_cons.mp allocated.frames.distinct).1⟩
    · rw [if_neg same] at placeSlot
      simp only [slotPresent, tableAt, placeSlot] at here ⊢
      exact fewer.tables place placeInside here

theorem paging_new_table_eq {newPt : Nat} {pmm : PmmState}
    (allocated : pmmAllocFrame machine.pmm = (newPt, pmm)) (some : newPt ≠ 0) :
    pagingNewTable machine index =
      (storeWord (⟨machine.memory, pmm⟩ : Machine layout) (pageDirectory layout index)
        (newPt ||| pagingFlagPresent ||| pagingFlagWrite)).bind fun machine =>
          (memset machine (pageTableVirt index) 0 pageSize).bind fun machine =>
            Option.some (true, machine) := by
  unfold pagingNewTable
  rw [allocated]
  -- the size stays a variable, or checking this step would run the loop of `memset`
  generalize pageSize = size
  simp only [if_neg some, Option.bind_eq_bind]

theorem paging_new_table_spec (invariant : PagingInvariant machine held)
    (inside : index < selfSlot) :
    (pmmAllocFrame machine.pmm).1 = 0 ∧ pagingNewTable machine index = some (false, machine) ∨
      (pmmAllocFrame machine.pmm).1 ≠ 0 ∧
        Unused machine.memory (pdPhys layout) (pmmAllocFrame machine.pmm).1 ∧
        pagingNewTable machine index = some (true, ⟨installTable machine.memory (pdPhys layout) index
          (pmmAllocFrame machine.pmm).1, (pmmAllocFrame machine.pmm).2⟩) := by
  rcases pmm_alloc_frame_spec machine.pmm with ⟨number, available, result⟩ | ⟨_, result⟩
  · have unused := available_unused invariant available
    have nonzero := frame_address_ne_zero available.1
    have some : (pmmAllocFrame machine.pmm).1 ≠ 0 := by
      rw [result]
      exact nonzero
    have allocated := alloc_held invariant some
    have soundSlot := sound_store_slot invariant.sound unused inside
    have slotHere : slot (storeSlot machine.memory (pdPhys layout) index (number * pageSize))
        (pdPhys layout) index = number * pageSize + tableFlags := by
      rw [store_slot_slots _ unused, if_pos rfl]
    have presentHere : slotPresent (storeSlot machine.memory (pdPhys layout) index
        (number * pageSize)) (pdPhys layout) index = true := by
      rw [slotPresent, slotHere]
      exact present_table unused.aligned
    have table : tableAt (storeSlot machine.memory (pdPhys layout) index (number * pageSize))
        (pdPhys layout) index = number * pageSize := by
      rw [tableAt, slotHere, frame_of_add unused.aligned (by decide)]
    have wholePage : pageSize ≤ frameBytes := by decide
    have zeroed := memset_window (pmmSetUsed machine.pmm number true) soundSlot inside presentHere 0
      wholePage
    rw [result] at allocated
    have stored := @store_directory _ _ _ _ (number * pageSize + tableFlags) allocated
      (Nat.lt_trans inside (by decide))
    refine Or.inr ⟨some, by rw [result]; exact unused, ?_⟩
    rw [paging_new_table_eq result nonzero, table_word unused.aligned, stored, Option.bind_some,
      ← storeSlot, zeroed, table, result]
    rfl
  · exact Or.inl ⟨by rw [result], by simp [pagingNewTable, result]⟩

end NewTable

/-! ## The mapper -/

section Mapper

variable {machine after : Machine layout} {held : List Nat} {virt phys flags index : Nat}

def entryWord (phys flags : Nat) : Nat := phys ||| (flags ||| pagingFlagPresent)

theorem entry_word_parts (aligned : phys % pageSize = 0) (word : phys < 2 ^ 32)
    (small : flags < pageSize) :
    entryWord phys flags < 2 ^ 32 ∧ present (entryWord phys flags) = true ∧
      frameOf (entryWord phys flags) = phys ∧
      flagsOf (entryWord phys flags) = flags ||| pagingFlagPresent := by
  have flagsSmall : flags ||| pagingFlagPresent < 2 ^ 12 :=
    Nat.or_lt_two_pow small (by decide : pagingFlagPresent < 2 ^ 12)
  have split : phys = 2 ^ 12 * (phys / pageSize) := by
    simp only [pageSize] at *
    omega
  have sum := Nat.two_pow_add_eq_or_of_lt flagsSmall (phys / pageSize)
  rw [← split] at sum
  have odd : (flags ||| pagingFlagPresent) % 2 = 1 := Nat.or_mod_two_eq_one.mpr (Or.inr rfl)
  have entry : entryWord phys flags = phys + (flags ||| pagingFlagPresent) := sum.symm
  rw [entry]
  refine ⟨?_, ?_, frame_of_add aligned flagsSmall, flags_of_add aligned flagsSmall⟩
  · simp only [pageSize] at aligned
    omega
  · rw [present_add aligned, present, odd]
    rfl

theorem install_stored (invariant : PagingInvariant machine held) (inside : index < selfSlot)
    (absent : slotPresent machine.memory (pdPhys layout) index = false)
    (some : (pmmAllocFrame machine.pmm).1 ≠ 0)
    (unused : Unused machine.memory (pdPhys layout) (pmmAllocFrame machine.pmm).1)
    {page : Nat} {entry : Option Nat} (place : page / 1024 = index)
    (stored : EntryStored (⟨installTable machine.memory (pdPhys layout) index
      (pmmAllocFrame machine.pmm).1, (pmmAllocFrame machine.pmm).2⟩ : Machine layout) after held
      page entry) : EntryStored machine after held page entry := by
  obtain ⟨_, slots⟩ := sound_install invariant.sound unused inside
  have fresh := (List.nodup_cons.mp (alloc_held invariant some).frames.distinct).1
  refine ⟨stored.invariant, ?_, ?_, ?_⟩
  · intro other below
    rw [stored.pages other below, install_page invariant.sound unused inside absent below]
  · intro other otherInside
    rw [stored.slots other otherInside, place]
    have slotAfter := slots other (Nat.lt_trans otherInside (by decide))
    by_cases same : other = index
    · simp [same]
    · rw [if_neg same] at slotAfter
      simp only [slotPresent, slotAfter]
  · intro frame member
    obtain ⟨aligned, notDirectory, _⟩ := held_frame_apart invariant member
    have notFresh : frame ≠ (pmmAllocFrame machine.pmm).1 := by
      rintro rfl
      exact fresh member
    exact agree_trans (install_frame invariant.sound unused inside aligned notDirectory notFresh)
      (stored.kept frame member)

/-- The directory entry decides whether a table is needed first. -/
theorem paging_map_page_eq (invariant : PagingInvariant machine held) (below : virt < recursivePtBase)
    (aligned : phys % pageSize = 0) :
    pagingMapPage machine virt phys flags =
      (if slotPresent machine.memory (pdPhys layout) (pdeIndex virt) then some (true, machine)
        else pagingNewTable machine (pdeIndex virt)).bind fun result =>
          if result.1 then
            (storeWord result.2 (pageTableVirt (pdeIndex virt) + 4 * pteIndex virt)
              (entryWord phys flags)).bind fun machine => some (true, machine)
          else some (false, result.2) := by
  have loaded := load_directory invariant (Nat.lt_trans (pde_index_below below) (by decide))
  rw [pagingMapPage, if_neg (fun unaligned => unaligned aligned), loaded, Option.bind_eq_bind,
    Option.bind_some]
  cases here : slotPresent machine.memory (pdPhys layout) (pdeIndex virt) with
  | true =>
      rw [if_neg (test_present here)]
      rfl
  | false =>
      rw [if_pos (test_absent here)]
      rfl

/-- `paging_map_page` fails for want of a page table and then changes nothing, or
it changes one page. -/
theorem paging_map_page_spec (invariant : PagingInvariant machine held)
    (below : virt < recursivePtBase) (notDirectory : virt / pageSize ≠ directoryPage layout)
    (aligned : phys % pageSize = 0) (word : phys < 2 ^ 32) (small : flags < pageSize) :
    (slotPresent machine.memory (pdPhys layout) (pdeIndex virt) = false ∧
        (pmmAllocFrame machine.pmm).1 = 0 ∧
        pagingMapPage machine virt phys flags = some (false, machine)) ∨
      ∃ after, pagingMapPage machine virt phys flags = some (true, after) ∧
        (slotPresent machine.memory (pdPhys layout) (pdeIndex virt) = false →
          (pmmAllocFrame machine.pmm).1 ≠ 0) ∧
        after.pmm = (if slotPresent machine.memory (pdPhys layout) (pdeIndex virt) then machine.pmm
          else (pmmAllocFrame machine.pmm).2) ∧
        EntryStored machine after held (virt / pageSize) (some (entryWord phys flags)) := by
  have inside := pde_index_below below
  obtain ⟨entrySmall, entryPresent, _, _⟩ := entry_word_parts aligned word small
  rw [paging_map_page_eq invariant below aligned]
  cases here : slotPresent machine.memory (pdPhys layout) (pdeIndex virt) with
  | true =>
      obtain ⟨after, stored, pmm, changed⟩ := store_window invariant below notDirectory here
        entrySmall
      rw [entryPresent, if_pos rfl] at changed
      refine Or.inr ⟨after, ?_, fun absent => absurd absent (by decide), pmm, changed⟩
      simp only [if_true, Option.bind_some, stored]
  | false =>
      simp only [Bool.false_eq_true, if_false]
      rcases paging_new_table_spec invariant inside with ⟨none, failed⟩ | ⟨some, unused, created⟩
      · exact Or.inl ⟨trivial, none, by rw [failed]; rfl⟩
      · have installed := install_invariant invariant inside here some unused
        obtain ⟨_, slots⟩ := sound_install invariant.sound unused inside
        have present : slotPresent (installTable machine.memory (pdPhys layout) (pdeIndex virt)
            (pmmAllocFrame machine.pmm).1) (pdPhys layout) (pdeIndex virt) = true := by
          rw [slotPresent, slots _ (Nat.lt_trans inside (by decide)), if_pos rfl]
          exact present_table unused.aligned
        obtain ⟨after, stored, pmm, changed⟩ := store_window installed below notDirectory present
          entrySmall
        rw [entryPresent, if_pos rfl] at changed
        refine Or.inr ⟨after, ?_, fun _ => some, pmm,
          install_stored invariant inside here some unused (page_slot virt) changed⟩
        rw [created]
        simp only [if_true, Option.bind_some, stored]

theorem paging_unmap_page_spec (invariant : PagingInvariant machine held)
    (below : virt < recursivePtBase) (notDirectory : virt / pageSize ≠ directoryPage layout) :
    ∃ after, pagingUnmapPage machine virt = some after ∧ after.pmm = machine.pmm ∧
      PagingInvariant after held ∧
      ∀ place < treePages, pageEntry after.memory (pdPhys layout) place =
        if place = virt / pageSize then none
        else pageEntry machine.memory (pdPhys layout) place := by
  have inside := pde_index_below below
  have loaded := load_directory invariant (Nat.lt_trans inside (by decide))
  cases here : slotPresent machine.memory (pdPhys layout) (pdeIndex virt) with
  | true =>
      obtain ⟨after, stored, pmm, changed⟩ := store_window invariant below notDirectory here
        (by decide : 0 < 2 ^ 32)
      refine ⟨after, ?_, pmm, changed.invariant, changed.pages⟩
      rw [pagingUnmapPage, loaded, Option.bind_eq_bind, Option.bind_some,
        if_neg (test_present here), stored]
  | false =>
      refine ⟨machine, ?_, rfl, invariant, ?_⟩
      · rw [pagingUnmapPage, loaded, Option.bind_eq_bind, Option.bind_some,
          if_pos (test_absent here)]
      · intro place _
        by_cases same : place = virt / pageSize
        · rw [if_pos same, same]
          exact page_entry_absent (by rw [page_slot]; exact here)
        · rw [if_neg same]

/-- Without the page of the directory every later call faults. -/
theorem unmap_directory_faults (invariant : PagingInvariant machine held) :
    ∃ after, pagingUnmapPage machine layout.bootPageDirectory = some after ∧
      ∀ virt < recursivePtBase, pagingGetPhysical after virt = none := by
  have page : layout.bootPageDirectory / pageSize = directoryPage layout := rfl
  have pageInside := directory_page_below layout
  have below : layout.bootPageDirectory < recursivePtBase := by
    obtain ⟨_, _, upper, _⟩ := layout_bounds layout
    unfold bootMapEnd pageSize at upper
    unfold recursivePtBase
    omega
  have here : slotPresent machine.memory (pdPhys layout)
      (pdeIndex layout.bootPageDirectory) = true := by
    by_contra absent
    rw [← page_slot, page, Bool.not_eq_true] at absent
    have mapped := invariant.directory
    rw [page_entry_absent absent] at mapped
    contradiction
  have loaded := load_directory invariant (Nat.lt_trans (pde_index_below below) (by decide))
  have stored := @store_window_eq layout machine layout.bootPageDirectory 0 invariant.sound below here
  rw [page] at stored
  refine ⟨⟨storeEntry machine.memory (pdPhys layout) (directoryPage layout) 0, machine.pmm⟩, ?_, ?_⟩
  · rw [pagingUnmapPage, loaded, Option.bind_eq_bind, Option.bind_some,
      if_neg (test_present here), stored]
  · intro virt virtBelow
    have inside : pdeIndex virt < 1024 := Nat.lt_trans (pde_index_below virtBelow) (by decide)
    rw [← page_slot, page] at here
    have unmapped := store_entry_page invariant.sound pageInside here (by decide : 0 < 2 ^ 32)
      pageInside
    rw [if_pos rfl] at unmapped
    have fault := translate_unmapped false
      (by rw [(directory_address_parts layout inside).1]; exact unmapped :
        pageEntry _ (pdPhys layout) (pageDirectory layout (pdeIndex virt) / frameBytes) = none)
    rw [pagingGetPhysical, loadWord, if_pos (directory_word_aligned _ _), fault]
    rfl

theorem paging_get_physical_spec (invariant : PagingInvariant machine held)
    (below : virt < recursivePtBase) :
    pagingGetPhysical machine virt =
      some ((pageEntry machine.memory (pdPhys layout) (virt / pageSize)).elim 0 frameOf) := by
  have inside := pde_index_below below
  have loaded := load_directory invariant (Nat.lt_trans inside (by decide))
  rw [pagingGetPhysical, loaded, Option.bind_eq_bind, Option.bind_some]
  cases here : slotPresent machine.memory (pdPhys layout) (pdeIndex virt) with
  | true =>
      have entry := load_window invariant.sound below here
      have page := page_entry_present (by rw [page_slot]; exact here :
        slotPresent machine.memory (pdPhys layout) (virt / pageSize / 1024) = true)
      have rest : virt / pageSize % 1024 = pteIndex virt := rfl
      rw [page_slot, rest] at page
      rw [if_neg (test_present here), entry, page, Option.bind_some]
      cases there : present (slot machine.memory
          (tableAt machine.memory (pdPhys layout) (pdeIndex virt)) (pteIndex virt)) with
      | true => rw [if_neg (by rw [present_test, there]; decide)]; rfl
      | false => rw [if_pos ((present_test _).mpr there)]; rfl
  | false =>
      rw [page_entry_absent (by rw [page_slot]; exact here), if_pos (test_absent here)]
      rfl

end Mapper

end SimplyOs.PagingTables
