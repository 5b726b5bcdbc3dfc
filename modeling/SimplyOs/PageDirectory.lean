import SimplyOs.PageMaps

/-!
# The page directory under every call

Each store of the mapper goes through the pointer to the directory, where it fills the
absent entry that was just read, or through the recursive window. For a page below the
window that is a page table; for a page of the window itself it is the directory, and
the call rewrites an entry that later calls rely on. No frame that the allocator hands
out is the directory.
-/

namespace SimplyOs.PageDirectory

open SimplyOs.Word SimplyOs.Kheap SimplyOs.Pmm SimplyOs.PmmFrames SimplyOs.Multiboot
open SimplyOs.PmmOwnership SimplyOs.Paging SimplyOs.PagingTables SimplyOs.PagingBoot
open SimplyOs.PageMaps SimplyOs.Library.ByteMemory SimplyOs.Library.PageTree SimplyOs.Library.Transition

set_option autoImplicit false

variable {layout : PagingLayout}

/-! ## Runs of the mapper -/

inductive MapperCall where
  | mapPage (virt phys flags : Nat)
  | unmapPage (virt : Nat)
  | alloc
  | free (address : Nat)

/-- An allowed call that returns; a client frees a frame that it owns. -/
inductive MapperStep (allowed : MapperCall → Prop) :
    PagingRun layout → MapperCall → PagingRun layout → Prop where
  | mapPage {run : PagingRun layout} {virt phys flags : Nat} {mapped : Bool}
      {machine : Machine layout} (address : allowed (.mapPage virt phys flags))
      (word : phys < 2 ^ 32) (small : flags < pageSize)
      (returned : pagingMapPage run.machine virt phys flags = some (mapped, machine)) :
      MapperStep allowed run (.mapPage virt phys flags) ⟨machine, run.live⟩
  | unmapPage {run : PagingRun layout} {virt : Nat} {machine : Machine layout}
      (address : allowed (.unmapPage virt))
      (returned : pagingUnmapPage run.machine virt = some machine) :
      MapperStep allowed run (.unmapPage virt) ⟨machine, run.live⟩
  | alloc {run : PagingRun layout} :
      MapperStep allowed run .alloc
        ⟨{ run.machine with pmm := (pmmAllocFrame run.machine.pmm).2 },
          if (pmmAllocFrame run.machine.pmm).1 = 0 then run.live
          else (pmmAllocFrame run.machine.pmm).1 :: run.live⟩
  | free {run : PagingRun layout} {address : Nat} (owned : address ∈ run.live) :
      MapperStep allowed run (.free address)
        ⟨{ run.machine with pmm := pmmFreeFrame run.machine.pmm address },
          run.live.erase address⟩

def mapperRuns (layout : PagingLayout) (boot : BootInfo) (allowed : MapperCall → Prop) :
    System (PagingRun layout) MapperCall where
  initial run := (∃ ram, bootMachine layout boot ram = some run.machine) ∧ run.live = []
  step := MapperStep allowed

def directoryEntry (machine : Machine layout) (index : Nat) : Nat :=
  slot machine.memory (pdPhys layout) index

/-- The last entry points to the directory itself, present entries stay, and the
only change is the creation of the absent entry of a page that is mapped. -/
structure DirectoryKept (before after : Machine layout) (call : MapperCall) : Prop where
  self : directoryEntry after recursivePdIndex = pdPhys layout + tableFlags
  kept : ∀ index < 1024, present (directoryEntry before index) = true →
    directoryEntry after index = directoryEntry before index
  created : ∀ index < 1024, directoryEntry after index ≠ directoryEntry before index →
    ∃ virt phys flags, call = .mapPage virt phys flags ∧ index = pdeIndex virt ∧
      present (directoryEntry before index) = false ∧ present (directoryEntry after index) = true

/-! ## Stores outside and inside the directory -/

structure DirectoryInvariant (machine : Machine layout) : Prop where
  self : directoryEntry machine selfSlot = pdPhys layout + tableFlags
  apart : ∀ index < selfSlot, slotPresent machine.memory (pdPhys layout) index = true →
    tableAt machine.memory (pdPhys layout) index ≠ pdPhys layout
  unavailable : ∀ frame, Available machine.pmm frame → frame * pageSize ≠ pdPhys layout

/-- At most the one entry has changed, from absent to present. -/
def Grown (before after : Machine layout) (grown : Nat) : Prop :=
  ∀ index < 1024, directoryEntry after index = directoryEntry before index ∨
    index = grown ∧ present (directoryEntry before index) = false ∧
      present (directoryEntry after index) = true

section Stores

variable {machine after : Machine layout} {index : Nat}

theorem pd_phys_aligned (layout : PagingLayout) : pdPhys layout % frameBytes = 0 :=
  (layout_bounds layout).2.2.2

theorem directory_same (same : SameFrame (pdPhys layout) machine.memory after.memory) :
    ∀ index < 1024, directoryEntry after index = directoryEntry machine index :=
  fun _ inside => slot_of_same same inside

theorem grown_of_same (same : SameFrame (pdPhys layout) machine.memory after.memory)
    (grown : Nat) : Grown machine after grown :=
  fun index inside => Or.inl (directory_same same index inside)

theorem invariant_of_same (invariant : DirectoryInvariant machine)
    (same : SameFrame (pdPhys layout) machine.memory after.memory)
    (pmm : ∀ frame, Available after.pmm frame → Available machine.pmm frame) :
    DirectoryInvariant after := by
  have slots := directory_same same
  refine ⟨?_, ?_, fun frame available => invariant.unavailable frame (pmm frame available)⟩
  · rw [slots selfSlot (by decide)]
    exact invariant.self
  · intro index inside here
    have slotSame : slot after.memory (pdPhys layout) index =
        slot machine.memory (pdPhys layout) index := slots index (Nat.lt_trans inside (by decide))
    rw [slotPresent, slotSame] at here
    rw [tableAt, slotSame]
    exact invariant.apart index inside here

theorem store_word_some {virt word : Nat} (stored : storeWord machine virt word = some after) :
    ∃ place, translate machine.memory (pdPhys layout) true virt = some place ∧
      loadWord machine virt = some (load32 machine.memory place) ∧
      after = { machine with memory := store32 machine.memory place word } := by
  unfold storeWord at stored
  by_cases aligned : virt % 4 = 0
  · rw [if_pos aligned, Option.map_eq_some_iff] at stored
    obtain ⟨place, translated, rfl⟩ := stored
    refine ⟨place, translated, ?_, rfl⟩
    rw [loadWord, if_pos aligned, translate_read translated]
    rfl
  · simp [aligned] at stored

theorem store_byte_some {virt : Nat} {value : UInt8}
    (stored : storeByte machine virt value = some after) :
    ∃ place, translate machine.memory (pdPhys layout) true virt = some place ∧
      after = { machine with memory := store8 machine.memory place value } := by
  rw [storeByte, Option.map_eq_some_iff] at stored
  obtain ⟨place, translated, rfl⟩ := stored
  exact ⟨place, translated, rfl⟩

/-- The frame behind a window page below the last one is not the directory. -/
theorem window_place_apart (invariant : DirectoryInvariant machine) (inside : index < selfSlot)
    {write : Bool} {offset : Nat} (small : offset < frameBytes) {place : Nat}
    (translated : translate machine.memory (pdPhys layout) write (pageTableVirt index + offset) =
      some place) :
    ∃ table, table % frameBytes = 0 ∧ table ≠ pdPhys layout ∧ place = table + offset := by
  obtain ⟨here, place⟩ := translate_window_some (pd_phys_aligned layout) invariant.self
    (Nat.lt_trans inside (by decide)) small translated
  exact ⟨tableAt machine.memory (pdPhys layout) index, table_at_aligned _ _ _,
    invariant.apart index inside here, place⟩

theorem store_window_same (invariant : DirectoryInvariant machine) (inside : index < selfSlot)
    {place word : Nat} (small : place < 1024)
    (stored : storeWord machine (pageTableVirt index + 4 * place) word = some after) :
    SameFrame (pdPhys layout) machine.memory after.memory ∧ after.pmm = machine.pmm := by
  obtain ⟨_, translated, _, rfl⟩ := store_word_some stored
  have offset : 4 * place < frameBytes := by
    unfold frameBytes
    omega
  obtain ⟨table, aligned, apart, rfl⟩ := window_place_apart invariant inside offset translated
  exact ⟨same_frame_store aligned (pd_phys_aligned layout) apart.symm small, rfl⟩

theorem memset_window_same (invariant : DirectoryInvariant machine) (inside : index < selfSlot)
    (value : UInt8) {size : Nat} (small : size ≤ frameBytes)
    (filled : memset machine (pageTableVirt index) value size = some after) :
    SameFrame (pdPhys layout) machine.memory after.memory ∧ after.pmm = machine.pmm := by
  induction size generalizing after with
  | zero =>
      rw [memset, Option.some_inj] at filled
      rw [← filled]
      exact ⟨agree_refl, rfl⟩
  | succ size ih =>
      rw [memset, Option.bind_eq_bind, Option.bind_eq_some_iff] at filled
      obtain ⟨middle, front, last⟩ := filled
      obtain ⟨same, pmm⟩ := ih (Nat.le_of_succ_le small) front
      have kept := invariant_of_same invariant same (by rw [pmm]; exact fun _ => id)
      obtain ⟨_, translated, rfl⟩ := store_byte_some last
      obtain ⟨table, aligned, apart, rfl⟩ :=
        window_place_apart kept inside (Nat.lt_of_succ_le small) translated
      have frames := frames_apart aligned (pd_phys_aligned layout) apart.symm
      refine ⟨agree_trans same (agree_store8 ?_), pmm⟩
      unfold frameBytes at *
      omega

end Stores

/-! ## One call -/

section Calls

variable {machine after : Machine layout} {virt phys flags : Nat}

theorem available_alloc (pmm : PmmState) {frame : Nat}
    (available : Available (pmmAllocFrame pmm).2 frame) : Available pmm frame := by
  rcases pmm_alloc_frame_spec pmm with ⟨number, ⟨_, inside, _⟩, result⟩ | ⟨_, result⟩
  · obtain ⟨positive, below, unused⟩ := available
    rw [result] at below unused
    rw [frame_count_set] at below
    rw [frame_used_set pmm inside] at unused
    by_cases same : frame = number
    · simp [same] at unused
    · rw [if_neg same] at unused
      exact ⟨positive, below, unused⟩
  · rwa [result] at available

/-- The entry for a new table goes into the directory, where the entry was absent. -/
theorem store_directory_grown (invariant : DirectoryInvariant machine) {index frame : Nat}
    (inside : index < selfSlot) (managed : frame < pmmMaxFrames)
    (apart : frame * pageSize ≠ pdPhys layout)
    (absent : present (directoryEntry machine index) = false)
    (stored : after = { machine with
      memory := store32 machine.memory (pdPhys layout + 4 * index)
        (frame * pageSize + tableFlags) }) :
    DirectoryInvariant after ∧ Grown machine after index := by
  have frameAligned : frame * pageSize % frameBytes = 0 := Nat.mul_mod_left _ _
  have word : frame * pageSize + tableFlags < 2 ^ 32 := by
    simp only [pmmMaxFrames] at managed
    simp only [pageSize, tableFlags]
    omega
  have slots : ∀ other, directoryEntry after other =
      if other = index then frame * pageSize + tableFlags else directoryEntry machine other := by
    intro other
    rw [stored]
    simp only [directoryEntry]
    by_cases same : other = index
    · rw [if_pos same, same, slot_store_same word]
    · rw [if_neg same, slot_store_other same]
  refine ⟨⟨?_, ?_, ?_⟩, ?_⟩
  · rw [slots, if_neg (Nat.ne_of_gt inside)]
    exact invariant.self
  · intro other otherInside
    have entry := slots other
    simp only [directoryEntry] at entry
    rw [slotPresent, tableAt, entry]
    by_cases same : other = index
    · rw [if_pos same, frame_of_add frameAligned (by decide)]
      intro _
      exact apart
    · rw [if_neg same]
      exact invariant.apart other otherInside
  · rw [stored]
    exact invariant.unavailable
  · intro other _
    by_cases same : other = index
    · refine Or.inr ⟨same, ?_, ?_⟩
      · rw [same]
        exact absent
      · rw [slots, if_pos same]
        exact present_table frameAligned
    · exact Or.inl ((slots other).trans (if_neg same))

/-- The entry for a new table goes into the directory, where the entry was absent, or
wherever else the page of the directory was mapped to. -/
theorem store_entry_grown (invariant : DirectoryInvariant machine) {index entry frame : Nat}
    (inside : index < selfSlot) (managed : frame < pmmMaxFrames)
    (apart : frame * pageSize ≠ pdPhys layout)
    (loaded : loadWord machine (pageDirectory layout index) = some entry)
    (absent : present entry = false)
    (stored : storeWord machine (pageDirectory layout index) (frame * pageSize + tableFlags) =
      some after) :
    DirectoryInvariant after ∧ Grown machine after index := by
  obtain ⟨place, translated, read, result⟩ := store_word_some stored
  obtain ⟨_, offset⟩ := directory_address_parts layout (Nat.lt_trans inside (by decide))
  obtain ⟨_, pageEntry, _, _, here⟩ := translate_some translated
  rw [offset] at here
  by_cases own : frameOf pageEntry = pdPhys layout
  · rw [own] at here
    have old : directoryEntry machine index = entry := by
      rw [directoryEntry, slot, ← here]
      exact Option.some.inj (read.symm.trans loaded)
    rw [here] at result
    exact store_directory_grown invariant inside managed apart (old ▸ absent) result
  · have same : SameFrame (pdPhys layout) machine.memory after.memory := by
      rw [result, here]
      exact same_frame_store (frame_of_aligned pageEntry) (pd_phys_aligned layout) (Ne.symm own)
        (Nat.lt_trans inside (by decide))
    refine ⟨invariant_of_same invariant same ?_, grown_of_same same index⟩
    rw [result]
    exact fun _ => id

theorem grown_trans {middle : Machine layout} {grown : Nat} (before : Grown machine middle grown)
    (same : SameFrame (pdPhys layout) middle.memory after.memory) : Grown machine after grown := by
  intro index inside
  rw [directory_same same index inside]
  exact before index inside

theorem new_table_grown (invariant : DirectoryInvariant machine) {index entry : Nat} {ready : Bool}
    (inside : index < selfSlot)
    (loaded : loadWord machine (pageDirectory layout index) = some entry)
    (absent : present entry = false)
    (created : pagingNewTable machine index = some (ready, after)) :
    DirectoryInvariant after ∧ Grown machine after index := by
  rcases pmm_alloc_frame_spec machine.pmm with ⟨frame, available, result⟩ | ⟨_, result⟩
  · have nonzero := frame_address_ne_zero available.1
    have aligned : frame * pageSize % frameBytes = 0 := Nat.mul_mod_left _ _
    have managed : frame < pmmMaxFrames := Nat.lt_of_lt_of_le available.2.1 machine.pmm.bounded
    have apart := invariant.unavailable frame available
    have allocated : DirectoryInvariant
        (⟨machine.memory, pmmSetUsed machine.pmm frame true⟩ : Machine layout) := by
      refine @invariant_of_same layout machine _ invariant agree_refl fun other free => ?_
      apply available_alloc machine.pmm
      rw [result]
      exact free
    rw [paging_new_table_eq result nonzero, table_word aligned, Option.bind_eq_some_iff] at created
    obtain ⟨entered, stored, rest⟩ := created
    obtain ⟨zeroed, filled, last⟩ := Option.bind_eq_some_iff.mp rest
    obtain ⟨_, rfl⟩ := Prod.mk.inj (Option.some.inj last)
    obtain ⟨kept, grown⟩ :=
      @store_entry_grown layout _ _ allocated index entry frame inside managed apart loaded absent
        stored
    have wholePage : pageSize ≤ frameBytes := by decide
    obtain ⟨same, pmm⟩ := memset_window_same kept inside 0 wholePage filled
    refine ⟨invariant_of_same kept same (by rw [pmm]; exact fun _ => id), ?_⟩
    exact grown_trans grown same
  · have failed : pagingNewTable machine index = some (false, machine) := by
      simp [pagingNewTable, result]
    obtain ⟨_, rfl⟩ := Prod.mk.inj (Option.some.inj (failed.symm.trans created))
    exact ⟨invariant, grown_of_same agree_refl index⟩

theorem ready_table_grown (invariant : DirectoryInvariant machine) {index entry : Nat}
    {ready : Bool} (inside : index < selfSlot)
    (loaded : loadWord machine (pageDirectory layout index) = some entry)
    (done : (if entry &&& pagingFlagPresent = 0 then pagingNewTable machine index
      else some (true, machine)) = some (ready, after)) :
    DirectoryInvariant after ∧ Grown machine after index := by
  by_cases absent : entry &&& pagingFlagPresent = 0
  · rw [if_pos absent] at done
    exact new_table_grown invariant inside loaded ((present_test entry).mp absent) done
  · rw [if_neg absent] at done
    obtain ⟨_, rfl⟩ := Prod.mk.inj (Option.some.inj done)
    exact ⟨invariant, grown_of_same agree_refl index⟩

theorem map_page_grown (invariant : DirectoryInvariant machine) (below : virt < recursivePtBase)
    {mapped : Bool} (returned : pagingMapPage machine virt phys flags = some (mapped, after)) :
    DirectoryInvariant after ∧ Grown machine after (pdeIndex virt) := by
  have inside := pde_index_below below
  unfold pagingMapPage at returned
  by_cases aligned : phys % pageSize = 0
  · rw [if_neg (not_not.mpr aligned), Option.bind_eq_bind, Option.bind_eq_some_iff] at returned
    obtain ⟨entry, loaded, rest⟩ := returned
    rw [Option.bind_eq_bind, Option.bind_eq_some_iff] at rest
    obtain ⟨⟨ready, middle⟩, done, last⟩ := rest
    obtain ⟨kept, grown⟩ := ready_table_grown invariant inside loaded done
    cases ready with
    | true =>
        simp only [if_true, Option.bind_eq_bind, Option.bind_eq_some_iff] at last
        obtain ⟨stored, run, same⟩ := last
        obtain ⟨_, rfl⟩ := Prod.mk.inj (Option.some.inj same)
        obtain ⟨sameFrame, pmm⟩ := store_window_same kept inside (pte_index_lt virt) run
        exact ⟨invariant_of_same kept sameFrame (by rw [pmm]; exact fun _ => id),
          grown_trans grown sameFrame⟩
    | false =>
        simp only [Bool.false_eq_true, if_false] at last
        obtain ⟨_, rfl⟩ := Prod.mk.inj (Option.some.inj last)
        exact ⟨kept, grown⟩
  · rw [if_pos aligned] at returned
    obtain ⟨_, rfl⟩ := Prod.mk.inj (Option.some.inj returned)
    exact ⟨invariant, grown_of_same agree_refl _⟩

theorem unmap_page_same (invariant : DirectoryInvariant machine) (below : virt < recursivePtBase)
    (returned : pagingUnmapPage machine virt = some after) :
    DirectoryInvariant after ∧ ∀ index < 1024,
      directoryEntry after index = directoryEntry machine index := by
  rw [pagingUnmapPage, Option.bind_eq_bind, Option.bind_eq_some_iff] at returned
  obtain ⟨entry, _, rest⟩ := returned
  by_cases absent : entry &&& pagingFlagPresent = 0
  · rw [if_pos absent, Option.some_inj] at rest
    rw [← rest]
    exact ⟨invariant, fun _ _ => rfl⟩
  · rw [if_neg absent] at rest
    obtain ⟨same, pmm⟩ := store_window_same invariant (pde_index_below below) (pte_index_lt virt) rest
    exact ⟨invariant_of_same invariant same (by rw [pmm]; exact fun _ => id), directory_same same⟩

end Calls

/-! ## The frame allocator -/

structure RunInvariant (run : PagingRun layout) : Prop where
  directory : DirectoryInvariant run.machine
  owned : ∀ address ∈ run.live, address ≠ pdPhys layout

section Clients

variable {run : PagingRun layout} {address : Nat}

theorem alloc_directory (invariant : RunInvariant run) :
    RunInvariant (⟨{ run.machine with pmm := (pmmAllocFrame run.machine.pmm).2 },
      if (pmmAllocFrame run.machine.pmm).1 = 0 then run.live
      else (pmmAllocFrame run.machine.pmm).1 :: run.live⟩ : PagingRun layout) := by
  have kept : DirectoryInvariant
      ({ run.machine with pmm := (pmmAllocFrame run.machine.pmm).2 } : Machine layout) :=
    @invariant_of_same layout run.machine _ invariant.directory agree_refl
      fun _ available => available_alloc run.machine.pmm available
  rcases pmm_alloc_frame_spec run.machine.pmm with ⟨frame, available, result⟩ | ⟨_, result⟩
  · have apart := invariant.directory.unavailable frame available
    refine ⟨kept, ?_⟩
    rw [result, if_neg (frame_address_ne_zero available.1)]
    intro address member
    rcases List.mem_cons.mp member with rfl | older
    · exact apart
    · exact invariant.owned address older
  · rw [result] at kept ⊢
    exact ⟨kept, invariant.owned⟩

theorem available_free {pmm : PmmState} {frame : Nat}
    (available : Available (pmmFreeFrame pmm address) frame) :
    Available pmm frame ∨ frame * pageSize = address := by
  unfold pmmFreeFrame at available
  by_cases refused : address = 0 ∨ address % pageSize ≠ 0
  · rw [if_pos refused] at available
    exact Or.inl available
  · rw [if_neg refused] at available
    obtain ⟨positive, below, unused⟩ := available
    rw [frame_count_set] at below
    by_cases inside : addrToFrame address < pmm.frameCount
    · rw [frame_used_set pmm inside] at unused
      by_cases same : frame = addrToFrame address
      · right
        rw [same]
        unfold addrToFrame pageSize at *
        omega
      · rw [if_neg same] at unused
        exact Or.inl ⟨positive, below, unused⟩
    · have unchanged : pmmSetUsed pmm (addrToFrame address) false = pmm := dif_neg inside
      rw [unchanged] at unused
      exact Or.inl ⟨positive, below, unused⟩

theorem free_directory (invariant : RunInvariant run) (owned : address ∈ run.live) :
    RunInvariant (⟨{ run.machine with pmm := pmmFreeFrame run.machine.pmm address },
      run.live.erase address⟩ : PagingRun layout) := by
  refine ⟨⟨invariant.directory.self, invariant.directory.apart, ?_⟩,
    fun other member => invariant.owned other (List.mem_of_mem_erase member)⟩
  intro frame available
  rcases available_free available with before | freed
  · exact invariant.directory.unavailable frame before
  · rw [freed]
    exact invariant.owned address owned

end Clients

/-! ## Runs -/

/-- Calls for pages below the recursive window that are not the kernel's own; the page
of the directory may be unmapped. -/
def SpareKernel (layout : PagingLayout) : MapperCall → Prop
  | .mapPage virt _ _ => Mappable layout virt
  | .unmapPage virt => Mappable layout virt ∨ virt / pageSize = directoryPage layout
  | _ => True

def AnyAddress : MapperCall → Prop
  | .mapPage virt _ _ => virt < 2 ^ 32
  | .unmapPage virt => virt < 2 ^ 32
  | _ => True

theorem boot_directory_invariant {boot : BootInfo} {ram : Memory} {machine : Machine layout}
    (booted : bootMachine layout boot ram = some machine) : DirectoryInvariant machine := by
  obtain ⟨started, run, _, invariant, _⟩ := boot_machine_spec layout boot ram
  obtain rfl := Option.some.inj (run.symm.trans booted)
  refine ⟨invariant.sound.self, invariant.sound.apart, ?_⟩
  intro frame available same
  have unused := available_unused invariant available
  exact unused.directory same

theorem directory_page_below_window {virt : Nat} (own : virt / pageSize = directoryPage layout) :
    virt < recursivePtBase := by
  have inside := directory_page_below layout
  rw [← own] at inside
  unfold treePages selfSlot pageSize at inside
  unfold recursivePtBase
  omega

theorem directory_kept_same {before after : Machine layout} {call : MapperCall}
    (kept : DirectoryInvariant after)
    (same : ∀ index < 1024, directoryEntry after index = directoryEntry before index) :
    DirectoryKept before after call :=
  ⟨kept.self, fun index inside _ => same index inside,
    fun index inside changed => absurd (same index inside) changed⟩

theorem step_directory {before after : PagingRun layout} {call : MapperCall}
    (invariant : RunInvariant before)
    (taken : MapperStep (SpareKernel layout) before call after) :
    RunInvariant after ∧ DirectoryKept before.machine after.machine call := by
  cases taken with
  | mapPage address word small returned =>
      obtain ⟨kept, grown⟩ := map_page_grown invariant.directory address.1 returned
      refine ⟨⟨kept, invariant.owned⟩, kept.self, ?_, ?_⟩
      · intro index inside here
        rcases grown index inside with same | ⟨_, absent, _⟩
        · exact same
        · simp [here] at absent
      · intro index inside changed
        rcases grown index inside with same | ⟨place, absent, here⟩
        · exact absurd same changed
        · exact ⟨_, _, _, rfl, place, absent, here⟩
  | unmapPage address returned =>
      have below := address.elim And.left directory_page_below_window
      obtain ⟨kept, same⟩ := unmap_page_same invariant.directory below returned
      exact ⟨⟨kept, invariant.owned⟩, directory_kept_same kept same⟩
  | alloc =>
      have kept := alloc_directory invariant
      exact ⟨kept, directory_kept_same kept.directory fun _ _ => rfl⟩
  | free owned =>
      have kept := free_directory invariant owned
      exact ⟨kept, directory_kept_same kept.directory fun _ _ => rfl⟩

theorem run_directory {boot : BootInfo} {run : PagingRun layout}
    (reachable : Reachable (mapperRuns layout boot (SpareKernel layout)) run) :
    RunInvariant run := by
  apply reachable_invariant _ _ reachable
  · rintro run ⟨⟨ram, booted⟩, empty⟩
    refine ⟨boot_directory_invariant booted, ?_⟩
    rw [empty]
    exact fun _ member => absurd member List.not_mem_nil
  · intro before call after invariant taken
    exact (step_directory invariant taken).1

/-- In every run that spares the recursive window and the kernel's own pages, each call
keeps the directory. -/
theorem directory_kept {boot : BootInfo} {before after : PagingRun layout} {call : MapperCall}
    (reachable : Reachable (mapperRuns layout boot (SpareKernel layout)) before)
    (taken : MapperStep (SpareKernel layout) before call after) :
    DirectoryKept before.machine after.machine call :=
  (step_directory (run_directory reachable) taken).2

theorem small_client_reachable :
    ∃ run, Reachable (mapperRuns smallPaging smallBoot (SpareKernel smallPaging)) run ∧
      run.live = [0x1000] ∧ PagingInvariant run.machine run.live ∧
      (pmmAllocFrame run.machine.pmm).1 ≠ 0 := by
  obtain ⟨machine, booted, pmm, invariant, _⟩ := boot_machine_spec smallPaging smallBoot fun _ => 0
  have first : (pmmAllocFrame machine.pmm).1 = 0x1000 := by
    rw [pmm]
    decide +kernel
  have second : (pmmAllocFrame (pmmAllocFrame machine.pmm).2).1 ≠ 0 := by
    rw [pmm]
    decide +kernel
  have reachable : Reachable (mapperRuns smallPaging smallBoot (SpareKernel smallPaging))
      ⟨machine, []⟩ := .start ⟨⟨_, booted⟩, rfl⟩
  refine ⟨_, .next reachable .alloc, ?_, alloc_run_invariant invariant, second⟩
  rw [first]
  rfl

/-- With a frame in the hands of a client, a page is mapped, which creates an entry; then
the client frees its frame and even the page of the directory itself is unmapped. -/
theorem directory_kept_unmapped :
    ∃ before mapped freed after : PagingRun smallPaging, before.live = [0x1000] ∧
      pagingMapPage before.machine 0x10000000 0x200000 0 = some (true, mapped.machine) ∧
      DirectoryKept before.machine mapped.machine (.mapPage 0x10000000 0x200000 0) ∧
      freed.live = [] ∧ DirectoryKept mapped.machine freed.machine (.free 0x1000) ∧
      pagingUnmapPage freed.machine 0xC0108000 = some after.machine ∧
      DirectoryKept freed.machine after.machine (.unmapPage 0xC0108000) := by
  obtain ⟨before, reachable, live, invariant, available⟩ := small_client_reachable
  have own : Mappable smallPaging 0x10000000 := mappable_outside (by decide) (by decide)
  rcases paging_map_page_spec invariant own.1 (mappable_not_directory own)
    (by decide : 0x200000 % pageSize = 0) (by decide) (by decide : 0 < pageSize) with
    ⟨_, none, _⟩ | ⟨machine, returned, _, _, stored⟩
  · exact absurd none available
  · have mapStep : MapperStep (SpareKernel smallPaging) before (.mapPage 0x10000000 0x200000 0)
        ⟨machine, before.live⟩ := .mapPage own (by decide) (by decide) returned
    have owned : 0x1000 ∈ before.live := by simp only [live, List.mem_singleton]
    have freeStep : MapperStep (SpareKernel smallPaging) ⟨machine, before.live⟩ (.free 0x1000) _ :=
      .free owned
    obtain ⟨after, unmapped, _⟩ := unmap_directory_faults (free_held stored.invariant owned)
    have page : (0xC0108000 : Nat) / pageSize = directoryPage smallPaging := by decide
    have unmapStep : MapperStep (SpareKernel smallPaging)
        ⟨⟨machine.memory, pmmFreeFrame machine.pmm 0x1000⟩, before.live.erase 0x1000⟩
        (.unmapPage 0xC0108000) ⟨after, before.live.erase 0x1000⟩ :=
      .unmapPage (Or.inr page) unmapped
    have mapReachable := Reachable.next reachable mapStep
    refine ⟨before, ⟨machine, before.live⟩,
      ⟨⟨machine.memory, pmmFreeFrame machine.pmm 0x1000⟩, before.live.erase 0x1000⟩,
      ⟨after, before.live.erase 0x1000⟩, live, returned, directory_kept reachable mapStep, ?_,
      directory_kept mapReachable freeStep, unmapped,
      directory_kept (.next mapReachable freeStep) unmapStep⟩
    simp only [live, List.erase_cons_head]

/-- Unmapping the last page of the address space clears the recursive slot. -/
theorem unmap_last_page {machine : Machine layout} {held : List Nat}
    (invariant : PagingInvariant machine held) :
    ∃ after, pagingUnmapPage machine 0xFFFFF000 = some after ∧
      directoryEntry after recursivePdIndex = 0 := by
  have sound := invariant.sound
  have aligned := sound.aligned
  have loaded := load_directory invariant (by decide : 1023 < 1024)
  have here : slotPresent machine.memory (pdPhys layout) 1023 = true := by
    have self : slot machine.memory (pdPhys layout) 1023 = pdPhys layout + tableFlags := sound.self
    rw [slotPresent, self]
    exact present_table aligned
  obtain ⟨high, low, rest⟩ := window_address_parts (by decide : 1023 < 1024)
    (by decide : 4 * 1023 < frameBytes)
  have translated := translate_words true aligned aligned
    (by rw [high]; exact sound.self : slot machine.memory (pdPhys layout)
      ((windowBase + 1023 * frameBytes + 4 * 1023) / frameBytes / 1024) = _)
    (by rw [low]; exact sound.self)
  rw [rest] at translated
  have stored : storeWord machine (pageTableVirt 1023 + 4 * 1023) 0 =
      some { machine with memory := store32 machine.memory (pdPhys layout + 4 * 1023) 0 } := by
    rw [storeWord, if_pos (window_word_aligned 1023 1023)]
    exact congrArg (Option.map _) translated
  have indices : pdeIndex 0xFFFFF000 = 1023 ∧ pteIndex 0xFFFFF000 = 1023 := by decide
  refine ⟨{ machine with memory := store32 machine.memory (pdPhys layout + 4 * 1023) 0 }, ?_, ?_⟩
  · rw [pagingUnmapPage, indices.1, indices.2, loaded, Option.bind_eq_bind, Option.bind_some,
      if_neg (test_present here), stored]
  · exact slot_store_same (by decide)

/-- A call for the last page of the address space breaks the directory. -/
theorem last_page_breaks_directory :
    ∃ run after, Reachable (mapperRuns smallPaging smallBoot AnyAddress) run ∧
      MapperStep AnyAddress run (.unmapPage 0xFFFFF000) after ∧
      ¬DirectoryKept run.machine after.machine (.unmapPage 0xFFFFF000) := by
  obtain ⟨machine, booted, _, invariant, _⟩ := boot_machine_spec smallPaging smallBoot fun _ => 0
  obtain ⟨after, unmapped, cleared⟩ := unmap_last_page invariant
  have address : AnyAddress (.unmapPage 0xFFFFF000) := (by decide : 0xFFFFF000 < 2 ^ 32)
  refine ⟨⟨machine, []⟩, ⟨after, []⟩, .start ⟨⟨_, booted⟩, rfl⟩, .unmapPage address unmapped, ?_⟩
  intro kept
  have self := kept.self
  rw [cleared] at self
  exact absurd self (by decide)

end SimplyOs.PageDirectory
