import SimplyOs.PagingTables

/-!
# The page tables after `boot.S` and `paging_init`

The boot table maps the first 4 MiB of memory at the start of the higher half,
with the video memory in its last page. When the identity map is dropped and the
recursive slot is set, the invariant of the page tables holds.
-/

namespace SimplyOs.PagingBoot

open SimplyOs.Word SimplyOs.Kheap SimplyOs.Pmm SimplyOs.Multiboot SimplyOs.PmmOwnership
open SimplyOs.Paging SimplyOs.PagingTables
open SimplyOs.Library.ByteMemory SimplyOs.Library.PageTree

set_option autoImplicit false

variable {layout : PagingLayout}

def bootSlot : Nat := 768

/-- The word for a page of the boot table. -/
def bootEntry (index : Nat) : Nat :=
  (if index < bootMappedPages then index * pageSize else vgaPhys) + tableFlags

theorem boot_table_phys (layout : PagingLayout) : virtToPhys layout.bootPageTable1 = bootTable layout := by
  obtain ⟨phys, lower, upper, _⟩ := layout_bounds layout
  have behind := layout.tableBehind
  have mapped : kernelVirtualBase ≤ layout.bootPageTable1 := by
    simp only [kernelVirtualBase, kernelPhysicalStart] at *
    omega
  have small : layout.bootPageTable1 < 2 ^ 32 := by
    simp only [bootMapEnd] at upper
    omega
  rw [virtToPhys, sub32_eq mapped small, bootTable, phys, behind]
  simp only [kernelVirtualBase, kernelPhysicalStart, pageSize] at *
  omega

theorem boot_table_aligned (layout : PagingLayout) : bootTable layout % frameBytes = 0 := by
  obtain ⟨_, _, _, aligned⟩ := layout_bounds layout
  simp only [bootTable, pageSize, frameBytes] at *
  omega

theorem boot_table_ne (layout : PagingLayout) : bootTable layout ≠ pdPhys layout := by
  simp only [bootTable, pageSize]
  omega

theorem boot_table_small (layout : PagingLayout) : bootTable layout + pageSize < 2 ^ 32 := by
  obtain ⟨phys, _, upper, _⟩ := layout_bounds layout
  simp only [bootTable, bootMapEnd, kernelVirtualBase, pageSize] at *
  omega

theorem boot_entry_word {frame : Nat} (aligned : frame % frameBytes = 0) :
    frame ||| 0x003 = frame + tableFlags := by
  have word := table_word aligned
  rw [Nat.or_assoc] at word
  exact word

theorem identity_loop (memory : Memory) {table other : Nat} (aligned : table % frameBytes = 0)
    (otherAligned : other % frameBytes = 0) (different : other ≠ table) {count : Nat}
    (small : count ≤ bootMappedPages) :
    (∀ index < 1024, slot ((List.range count).foldl (fun memory page =>
        store32 memory (table + 4 * page) (page * pageSize ||| 0x003)) memory) table index =
          if index < count then index * pageSize + tableFlags else slot memory table index) ∧
      SameFrame other memory ((List.range count).foldl (fun memory page =>
        store32 memory (table + 4 * page) (page * pageSize ||| 0x003)) memory) := by
  induction count with
  | zero => exact ⟨fun index _ => by simp, agree_refl⟩
  | succ count ih =>
      obtain ⟨slots, same⟩ := ih (Nat.le_of_succ_le small)
      have inside : count < 1024 := Nat.lt_trans (Nat.lt_of_succ_le small) (by decide)
      have entry : count * pageSize ||| 0x003 = count * pageSize + tableFlags :=
        boot_entry_word (Nat.mul_mod_left _ _)
      simp only [List.range_succ, List.foldl_append, List.foldl_cons, List.foldl_nil]
      constructor
      · intro index indexInside
        by_cases last : index = count
        · rw [last, slot_store_same, if_pos (Nat.lt_succ_self count), entry]
          rw [entry]
          simp only [pageSize, tableFlags]
          omega
        · rw [slot_store_other last, slots index indexInside]
          by_cases below : index < count
          · rw [if_pos below, if_pos (by omega)]
          · rw [if_neg below, if_neg (by omega)]
      · exact agree_trans same (same_frame_store aligned otherAligned different inside)

/-- What the directory and the boot table hold when paging is turned on. -/
theorem boot_page_tables_slots (layout : PagingLayout) (ram : Memory) :
    (∀ index < 1024, slot (bootPageTables layout ram) (pdPhys layout) index =
        if index = bootSlot ∨ index = 0 then bootTable layout + tableFlags else 0) ∧
      ∀ index < 1024, slot (bootPageTables layout ram) (bootTable layout) index =
        bootEntry index := by
  obtain ⟨_, _, _, aligned⟩ := layout_bounds layout
  have tableAligned := boot_table_aligned layout
  have different := boot_table_ne layout
  have small := boot_table_small layout
  have word : bootTable layout + 0x003 < 2 ^ 32 := by
    simp only [pageSize] at small
    omega
  obtain ⟨identity, directory⟩ := identity_loop (fill ram (pdPhys layout) pageSize 0) tableAligned
    aligned different.symm (Nat.le_refl bootMappedPages)
  rw [bootPageTables, boot_table_phys]
  generalize (List.range bootMappedPages).foldl (fun memory page =>
    store32 memory (bootTable layout + 4 * page) (page * pageSize ||| 0x003))
      (fill ram (pdPhys layout) pageSize 0) = filled at identity directory ⊢
  have lastInside : 1023 < 1024 := by decide
  constructor
  · intro index inside
    by_cases top : index = bootSlot
    · rw [if_pos (Or.inl top), top]
      exact slot_store_same word
    · refine (slot_store_other top).trans ?_
      by_cases zero : index = 0
      · rw [if_pos (Or.inr zero), zero]
        exact slot_store_same word
      · rw [if_neg (not_or.mpr ⟨top, zero⟩), slot_store_other zero,
          slot_of_same (same_frame_store tableAligned aligned different.symm lastInside) inside,
          slot_of_same directory inside]
        exact slot_fill_zero inside
  · intro index inside
    have lowInside : 0 < 1024 := by decide
    have topInside : 768 < 1024 := by decide
    rw [slot_of_same (same_frame_store aligned tableAligned different topInside) inside,
      slot_of_same (same_frame_store aligned tableAligned different lowInside) inside]
    have video : vgaPhys ||| 0x003 = vgaPhys + tableFlags := boot_entry_word rfl
    by_cases last : index = 1023
    · rw [last, bootEntry, video]
      exact slot_store_same (by decide)
    · have below : index < bootMappedPages := by
        unfold bootMappedPages
        omega
      rw [slot_store_other last, identity index inside, if_pos below, bootEntry, if_pos below]

theorem directory_page_parts (layout : PagingLayout) :
    directoryPage layout / 1024 = bootSlot ∧ directoryPage layout % 1024 < bootMappedPages ∧
      directoryPage layout % 1024 * pageSize = pdPhys layout := by
  obtain ⟨phys, lower, upper, _⟩ := layout_bounds layout
  have aligned := layout.directoryAligned
  rw [phys]
  unfold directoryPage bootSlot bootMappedPages
  simp only [kernelVirtualBase, kernelPhysicalStart, bootMapEnd, pageSize] at *
  omega

/-- The kernel reaches its directory through the boot table. -/
theorem store_through_boot_table {memory : Memory} (pmm : PmmState) {index word : Nat}
    (directory : slot memory (pdPhys layout) bootSlot = bootTable layout + tableFlags)
    (table : ∀ place < 1024, slot memory (bootTable layout) place = bootEntry place)
    (inside : index < 1024) :
    storeWord (⟨memory, pmm⟩ : Machine layout) (pageDirectory layout index) word =
      some ⟨store32 memory (pdPhys layout + 4 * index) word, pmm⟩ := by
  obtain ⟨_, _, _, pdAligned⟩ := layout_bounds layout
  obtain ⟨high, low, frame⟩ := directory_page_parts layout
  obtain ⟨page, offset⟩ := directory_address_parts layout inside
  have entry : slot memory (bootTable layout) (directoryPage layout % 1024) =
      pdPhys layout + tableFlags := by
    rw [table _ (Nat.mod_lt _ (by decide)), bootEntry, if_pos low, frame]
  have translated := translate_words true (boot_table_aligned layout) pdAligned
    (by rw [page, high]; exact directory :
      slot memory (pdPhys layout) (pageDirectory layout index / frameBytes / 1024) = _)
    (by rw [page]; exact entry)
  rw [storeWord, if_pos (directory_word_aligned layout index), translated, offset]
  rfl

def bootPageEntry (page : Nat) : Option Nat :=
  if page / 1024 = bootSlot then some (bootEntry (page % 1024)) else none

theorem boot_entry_present (index : Nat) : present (bootEntry index) = true := by
  unfold bootEntry
  split
  · exact present_table (Nat.mul_mod_left _ _)
  · rfl

theorem boot_tree (layout : PagingLayout) {memory : Memory}
    (directory : ∀ index < 1024, slot memory (pdPhys layout) index =
      if index = selfSlot then pdPhys layout + tableFlags
      else if index = bootSlot then bootTable layout + tableFlags else 0)
    (table : ∀ place < 1024, slot memory (bootTable layout) place = bootEntry place) :
    Sound memory (pdPhys layout) ∧
      (∀ index < selfSlot, slotPresent memory (pdPhys layout) index = true →
        tableAt memory (pdPhys layout) index = bootTable layout) ∧
      ∀ page < treePages, pageEntry memory (pdPhys layout) page = bootPageEntry page := by
  obtain ⟨_, _, _, aligned⟩ := layout_bounds layout
  have tableAligned := boot_table_aligned layout
  have base : frameOf (bootTable layout + tableFlags) = bootTable layout :=
    frame_of_add tableAligned (by decide)
  have slots : ∀ index < selfSlot, slot memory (pdPhys layout) index =
      if index = bootSlot then bootTable layout + tableFlags else 0 := by
    intro index inside
    rw [directory index (Nat.lt_trans inside (by decide)), if_neg (Nat.ne_of_lt inside)]
  have only : ∀ index < selfSlot, slotPresent memory (pdPhys layout) index = true →
      index = bootSlot := by
    intro index inside here
    by_contra other
    rw [slotPresent, slots index inside, if_neg other] at here
    exact absurd here (by decide)
  have tables : ∀ index < selfSlot, slotPresent memory (pdPhys layout) index = true →
      tableAt memory (pdPhys layout) index = bootTable layout := by
    intro index inside here
    rw [tableAt, slots index inside, if_pos (only index inside here), base]
  refine ⟨⟨aligned, ?_, ?_, ?_, ?_⟩, tables, ?_⟩
  · rw [directory selfSlot (by decide), if_pos rfl]
  · intro index inside here
    rw [tables index inside here, slots index inside, if_pos (only index inside here)]
  · intro index inside here
    rw [tables index inside here]
    exact boot_table_ne layout
  · intro index inside other otherInside here otherHere _
    rw [only index inside here, only other otherInside otherHere]
  · intro page below
    have inside := page_slot_lt below
    by_cases boot : page / 1024 = bootSlot
    · have here : slotPresent memory (pdPhys layout) (page / 1024) = true := by
        rw [slotPresent, slots _ inside, if_pos boot]
        exact present_table tableAligned
      rw [page_entry_present here, tables _ inside here, table _ (Nat.mod_lt _ (by decide)),
        boot_entry_present, if_pos rfl, bootPageEntry, if_pos boot]
    · have absent : slotPresent memory (pdPhys layout) (page / 1024) = false := by
        rw [slotPresent, slots _ inside, if_neg boot]
        rfl
      rw [page_entry_absent absent, bootPageEntry, if_neg boot]

theorem store_directory_slots (pmm : PmmState) {memory : Memory} {index word : Nat}
    (directory : slot memory (pdPhys layout) bootSlot = bootTable layout + tableFlags)
    (table : ∀ place < 1024, slot memory (bootTable layout) place = bootEntry place)
    (inside : index < 1024) (small : word < 2 ^ 32) :
    ∃ after, storeWord (⟨memory, pmm⟩ : Machine layout) (pageDirectory layout index) word =
        some ⟨after, pmm⟩ ∧
      (∀ place, slot after (pdPhys layout) place =
        if place = index then word else slot memory (pdPhys layout) place) ∧
      ∀ place < 1024, slot after (bootTable layout) place = bootEntry place := by
  obtain ⟨_, _, _, aligned⟩ := layout_bounds layout
  refine ⟨_, store_through_boot_table pmm directory table inside, ?_, ?_⟩
  · intro place
    by_cases same : place = index
    · rw [same, if_pos rfl]
      exact slot_store_same small
    · rw [if_neg same]
      exact slot_store_other same
  · intro place below
    rw [← table place below]
    exact slot_of_same (same_frame_store aligned (boot_table_aligned layout)
      (boot_table_ne layout) inside) below

theorem boot_machine_eq (layout : PagingLayout) (boot : BootInfo) (ram : Memory) :
    bootMachine layout boot ram =
      (storeWord (⟨bootPageTables layout ram, pmmBoot⟩ : Machine layout) (pageDirectory layout 0)
        0).bind fun machine =>
          pagingInit ⟨machine.memory, pmmInit layout.toBootLayout boot machine.pmm⟩ := rfl

/-- Booting succeeds; the directory has two entries, and the boot table is as it was filled. -/
theorem boot_machine_tables (layout : PagingLayout) (boot : BootInfo) (ram : Memory) :
    ∃ memory, bootMachine layout boot ram =
        some ⟨memory, pmmInit layout.toBootLayout boot pmmBoot⟩ ∧
      (∀ place < 1024, slot memory (pdPhys layout) place =
        if place = selfSlot then pdPhys layout + tableFlags
        else if place = bootSlot then bootTable layout + tableFlags else 0) ∧
      ∀ place < 1024, slot memory (bootTable layout) place = bootEntry place := by
  obtain ⟨_, _, _, aligned⟩ := layout_bounds layout
  have small := boot_table_small layout
  obtain ⟨directory, table⟩ := boot_page_tables_slots layout ram
  have base : pdPhys layout / pageSize * pageSize = pdPhys layout :=
    Nat.div_mul_cancel (Nat.dvd_of_mod_eq_zero aligned)
  have word : pdPhys layout + tableFlags < 2 ^ 32 := by
    simp only [bootTable, pageSize, tableFlags] at *
    omega
  rw [boot_machine_eq]
  generalize bootPageTables layout ram = booted at directory table ⊢
  -- the identity map is dropped, then the recursive slot is set
  have topSlot := directory bootSlot (by decide)
  rw [if_pos (Or.inl rfl)] at topSlot
  obtain ⟨dropped, dropRun, droppedDirectory, droppedTable⟩ :=
    store_directory_slots pmmBoot topSlot table (by decide : 0 < 1024) (by decide : 0 < 2 ^ 32)
  have droppedTop : slot dropped (pdPhys layout) bootSlot = bootTable layout + tableFlags :=
    (droppedDirectory bootSlot).trans topSlot
  obtain ⟨entered, enterRun, enteredDirectory, enteredTable⟩ :=
    store_directory_slots (pmmInit layout.toBootLayout boot pmmBoot) droppedTop droppedTable
      (by decide : selfSlot < 1024) word
  refine ⟨entered, ?_, ?_, enteredTable⟩
  · have self : recursivePdIndex = selfSlot := rfl
    rw [dropRun, Option.bind_some, pagingInit, base, table_word aligned, self, enterRun]
  · intro place inside
    rw [enteredDirectory, droppedDirectory, directory place inside]
    by_cases zero : place = 0
    · rw [zero]
      rfl
    · simp only [zero, or_false, if_false]

theorem boot_machine_spec (layout : PagingLayout) (boot : BootInfo) (ram : Memory) :
    ∃ machine, bootMachine layout boot ram = some machine ∧
      machine.pmm = pmmInit layout.toBootLayout boot pmmBoot ∧ PagingInvariant machine [] ∧
      ∀ page < treePages, pageEntry machine.memory (pdPhys layout) page = bootPageEntry page := by
  obtain ⟨high, low, frame⟩ := directory_page_parts layout
  obtain ⟨entered, run, slots, table⟩ := boot_machine_tables layout boot ram
  obtain ⟨sound, tables, pages⟩ := boot_tree layout slots table
  refine ⟨_, run, rfl, ⟨sound, ?_, invariant_initial layout.toBootLayout boot, ?_⟩, pages⟩
  · rw [pages _ (directory_page_below layout), bootPageEntry, if_pos high, bootEntry, if_pos low,
      frame]
  · intro index inside here
    exact Or.inl (tables index inside here)

theorem boot_slots {boot : BootInfo} {ram : Memory} {machine : Machine layout}
    (booted : bootMachine layout boot ram = some machine) {index : Nat} (below : index < selfSlot) :
    slotPresent machine.memory (pdPhys layout) index = decide (index = bootSlot) := by
  obtain ⟨memory, run, slots, _⟩ := boot_machine_tables layout boot ram
  obtain rfl := Option.some.inj (run.symm.trans booted)
  rw [slotPresent, slots index (Nat.lt_trans below (by decide)), if_neg (Nat.ne_of_lt below)]
  by_cases top : index = bootSlot
  · rw [if_pos top, decide_eq_true top]
    exact present_table (boot_table_aligned layout)
  · rw [if_neg top, decide_eq_false top]
    rfl

end SimplyOs.PagingBoot
