import SimplyOs.PagingBoot
import Mathlib.Logic.Function.Basic

/-!
# The page tables as a finite map

Below the recursive window the tables are a partial map from page numbers to frames
and flags. Every call of the mapper acts on this map alone, as long as no call
changes a page that the kernel itself runs on: without the page of its directory the
next call faults, and so does an allocation without the page of the bitmap.
-/

namespace SimplyOs.PageMaps

open SimplyOs.Word SimplyOs.Kheap SimplyOs.Pmm SimplyOs.Multiboot SimplyOs.PmmOwnership
open SimplyOs.Paging SimplyOs.PagingTables SimplyOs.PagingBoot
open SimplyOs.Library.ByteMemory SimplyOs.Library.PageTree SimplyOs.Library.Transition

set_option autoImplicit false

variable {layout : PagingLayout}

/-- A frame and its flags for each page that is mapped. -/
abbrev PageMap := Nat → Option (Nat × Nat)

/-- The map that a memory implements below the recursive window. -/
def pageMapOf (machine : Machine layout) : PageMap := fun page =>
  if page < treePages then
    (pageEntry machine.memory (pdPhys layout) page).map fun entry => (frameOf entry, flagsOf entry)
  else none

/-! ## Runs -/

structure PagingRun (layout : PagingLayout) where
  machine : Machine layout
  live : List Nat

inductive PagingCall where
  | mapPage (virt phys flags : Nat)
  | unmapPage (virt : Nat)
  | getPhysical (virt : Nat)
  | alloc
  | free (address : Nat)

/-- The image, the two boot pages, the stack, the bitmap and the text buffer, by the
virtual addresses through which the kernel uses them. -/
def kernelObjects (layout : BootLayout) : List (Nat × Nat) :=
  [(kernelVirtualBase + kernelPhysicalStart, layout.kernelEnd),
    (layout.bootPageDirectory, layout.bootPageTable1 + pageSize),
    (layout.stackBottom, layout.stackTop),
    (layout.pmmBitmap, layout.pmmBitmap + bitmapBytes),
    (bootMapEnd, bootMapEnd + pageSize)]

def KernelPage (layout : BootLayout) (page : Nat) : Prop :=
  ∃ object ∈ kernelObjects layout, object.1 / pageSize ≤ page ∧ page * pageSize < object.2

/-- An address that a call may map or unmap. -/
def Mappable (layout : PagingLayout) (virt : Nat) : Prop :=
  virt < recursivePtBase ∧ ¬KernelPage layout.toBootLayout (virt / pageSize)

inductive PagingStep : PagingRun layout → PagingCall → PagingRun layout → Prop where
  | mapPage {run : PagingRun layout} {virt phys flags : Nat} {mapped : Bool}
      {machine : Machine layout} (mappable : Mappable layout virt) (word : phys < 2 ^ 32)
      (small : flags < pageSize)
      (returned : pagingMapPage run.machine virt phys flags = some (mapped, machine)) :
      PagingStep run (.mapPage virt phys flags) ⟨machine, run.live⟩
  | unmapPage {run : PagingRun layout} {virt : Nat} {machine : Machine layout}
      (mappable : Mappable layout virt)
      (returned : pagingUnmapPage run.machine virt = some machine) :
      PagingStep run (.unmapPage virt) ⟨machine, run.live⟩
  | getPhysical {run : PagingRun layout} {virt phys : Nat} (below : virt < recursivePtBase)
      (returned : pagingGetPhysical run.machine virt = some phys) :
      PagingStep run (.getPhysical virt) run
  | alloc {run : PagingRun layout} :
      PagingStep run .alloc
        ⟨{ run.machine with pmm := (pmmAllocFrame run.machine.pmm).2 },
          if (pmmAllocFrame run.machine.pmm).1 = 0 then run.live
          else (pmmAllocFrame run.machine.pmm).1 :: run.live⟩
  | free {run : PagingRun layout} {address : Nat} (owned : address ∈ run.live) :
      PagingStep run (.free address)
        ⟨{ run.machine with pmm := pmmFreeFrame run.machine.pmm address },
          run.live.erase address⟩

def pagingRuns (layout : PagingLayout) (boot : BootInfo) :
    System (PagingRun layout) PagingCall where
  initial run := (∃ ram, bootMachine layout boot ram = some run.machine) ∧ run.live = []
  step := PagingStep

section KernelPages

/-- The kernel lies in the first 4 MiB of the higher half. -/
theorem kernel_page_bounds {page : Nat} (own : KernelPage layout.toBootLayout page) :
    kernelVirtualBase / pageSize ≤ page ∧ page < (bootMapEnd + pageSize) / pageSize := by
  obtain ⟨object, member, lower, upper⟩ := own
  have mapped := layout.mapped
  have ends := layout.endsMapped
  simp only [List.mem_cons, List.not_mem_nil, or_false, forall_eq_or_imp, forall_eq,
    kernelVirtualBase, kernelPhysicalStart, bootMapEnd, pageSize] at mapped ends
  simp only [kernelObjects, List.mem_cons, List.not_mem_nil, or_false] at member
  unfold kernelVirtualBase bootMapEnd pageSize
  unfold pageSize at lower upper
  rcases member with rfl | rfl | rfl | rfl | rfl
  · simp only [kernelVirtualBase, kernelPhysicalStart] at lower upper
    omega
  · simp only [pageSize] at lower upper
    omega
  · simp only at lower upper
    omega
  · simp only at lower upper
    omega
  · simp only [bootMapEnd, pageSize] at lower upper
    omega

theorem directory_kernel_page (layout : PagingLayout) :
    KernelPage layout.toBootLayout (directoryPage layout) := by
  refine ⟨_, List.mem_cons_of_mem _ List.mem_cons_self, Nat.le_refl _, ?_⟩
  have behind := layout.tableBehind
  unfold directoryPage
  simp only [behind, pageSize]
  omega

theorem mappable_not_directory {virt : Nat} (mappable : Mappable layout virt) :
    virt / pageSize ≠ directoryPage layout := by
  intro same
  exact mappable.2 (same ▸ directory_kernel_page layout)

/-- Outside of the 4 MiB that `boot.S` maps there is no page of the kernel. -/
theorem mappable_outside {virt : Nat} (below : virt < recursivePtBase)
    (outside : virt < kernelVirtualBase ∨ bootMapEnd + pageSize ≤ virt) :
    Mappable layout virt := by
  refine ⟨below, fun own => ?_⟩
  obtain ⟨lower, upper⟩ := kernel_page_bounds own
  unfold kernelVirtualBase bootMapEnd pageSize at *
  omega

end KernelPages

section Calls

variable {machine : Machine layout} {held : List Nat} {virt phys flags : Nat}

theorem map_page_refines (invariant : PagingInvariant machine held)
    (mappable : Mappable layout virt) (word : phys < 2 ^ 32) (small : flags < pageSize) :
    ∃ mapped after, pagingMapPage machine virt phys flags = some (mapped, after) ∧
      PagingInvariant after held ∧
      (mapped = true → pageMapOf after = Function.update (pageMapOf machine) (virt / pageSize)
        (some (phys, flags ||| pagingFlagPresent))) ∧
      (mapped = false → after = machine) := by
  have below := mappable.1
  have notDirectory := mappable_not_directory mappable
  by_cases aligned : phys % pageSize = 0
  · obtain ⟨_, _, frame, flagBits⟩ := entry_word_parts aligned word small
    rcases paging_map_page_spec invariant below notDirectory aligned word small with
      ⟨_, _, run⟩ | ⟨after, run, _, _, stored⟩
    · exact ⟨false, machine, run, invariant, fun absurdity => absurd absurdity (by decide),
        fun _ => rfl⟩
    · refine ⟨true, after, run, stored.invariant, fun _ => ?_,
        fun absurdity => absurd absurdity (by decide)⟩
      funext page
      by_cases inside : page < treePages
      · by_cases same : page = virt / pageSize
        · rw [pageMapOf, if_pos inside, stored.pages page inside, if_pos same, same,
            Function.update_self, Option.map_some, frame, flagBits]
        · rw [pageMapOf, if_pos inside, stored.pages page inside, if_neg same,
            Function.update_of_ne same, pageMapOf, if_pos inside]
      · have different : page ≠ virt / pageSize := by
          rintro rfl
          exact inside (page_below below)
        rw [pageMapOf, if_neg inside, Function.update_of_ne different, pageMapOf, if_neg inside]
  · exact ⟨false, machine, by rw [pagingMapPage, if_pos aligned], invariant,
      fun absurdity => absurd absurdity (by decide), fun _ => rfl⟩

theorem unmap_page_refines (invariant : PagingInvariant machine held)
    (mappable : Mappable layout virt) :
    ∃ after, pagingUnmapPage machine virt = some after ∧ PagingInvariant after held ∧
      pageMapOf after = Function.update (pageMapOf machine) (virt / pageSize) none := by
  have below := mappable.1
  have notDirectory := mappable_not_directory mappable
  obtain ⟨after, run, _, kept, pages⟩ := paging_unmap_page_spec invariant below notDirectory
  refine ⟨after, run, kept, ?_⟩
  funext page
  by_cases inside : page < treePages
  · by_cases same : page = virt / pageSize
    · rw [pageMapOf, if_pos inside, pages page inside, if_pos same, same, Function.update_self]
      rfl
    · rw [pageMapOf, if_pos inside, pages page inside, if_neg same, Function.update_of_ne same,
        pageMapOf, if_pos inside]
  · have different : page ≠ virt / pageSize := by
      rintro rfl
      exact inside (page_below below)
    rw [pageMapOf, if_neg inside, Function.update_of_ne different, pageMapOf, if_neg inside]

theorem get_physical_refines (invariant : PagingInvariant machine held)
    (below : virt < recursivePtBase) :
    pagingGetPhysical machine virt =
      some ((pageMapOf machine (virt / pageSize)).elim 0 Prod.fst) := by
  rw [paging_get_physical_spec invariant below, pageMapOf, if_pos (page_below below)]
  cases pageEntry machine.memory (pdPhys layout) (virt / pageSize) <;> rfl

end Calls

theorem alloc_run_invariant {run : PagingRun layout}
    (invariant : PagingInvariant run.machine run.live) :
    PagingInvariant
      ({ run.machine with pmm := (pmmAllocFrame run.machine.pmm).2 } : Machine layout)
      (if (pmmAllocFrame run.machine.pmm).1 = 0 then run.live
        else (pmmAllocFrame run.machine.pmm).1 :: run.live) := by
  by_cases none : (pmmAllocFrame run.machine.pmm).1 = 0
  · rw [if_pos none]
    rcases pmm_alloc_frame_spec run.machine.pmm with ⟨frame, available, result⟩ | ⟨_, result⟩
    · rw [result] at none
      exact absurd none (frame_address_ne_zero available.1)
    · rw [result]
      exact invariant
  · rw [if_neg none]
    exact alloc_held invariant none

theorem run_invariant {boot : BootInfo} {run : PagingRun layout}
    (reachable : Reachable (pagingRuns layout boot) run) :
    PagingInvariant run.machine run.live := by
  apply reachable_invariant _ _ reachable
  · rintro ⟨machine, live⟩ ⟨⟨ram, booted⟩, rfl⟩
    obtain ⟨started, run, _, invariant, _⟩ := boot_machine_spec layout boot ram
    obtain rfl := Option.some.inj (run.symm.trans booted)
    exact invariant
  · rintro before call after invariant taken
    cases taken with
    | mapPage mappable word small returned =>
        obtain ⟨mapped, machine, run, kept, _⟩ := map_page_refines invariant mappable word small
        obtain ⟨_, rfl⟩ := Prod.mk.inj (Option.some.inj (run.symm.trans returned))
        exact kept
    | unmapPage mappable returned =>
        obtain ⟨machine, run, kept, _⟩ := unmap_page_refines invariant mappable
        obtain rfl := Option.some.inj (run.symm.trans returned)
        exact kept
    | getPhysical below returned => exact invariant
    | alloc => exact alloc_run_invariant invariant
    | free owned => exact free_held invariant owned

/-! ## The abstract map -/

/-- What a call may do to the map: a refused `paging_map_page` and the calls of the
frame allocator leave it as it is. -/
inductive MapStep : PageMap → PagingCall → PageMap → Prop where
  | insert {map : PageMap} {virt phys flags : Nat} :
      MapStep map (.mapPage virt phys flags)
        (Function.update map (virt / pageSize) (some (phys, flags ||| pagingFlagPresent)))
  | erase {map : PageMap} {virt : Nat} :
      MapStep map (.unmapPage virt) (Function.update map (virt / pageSize) none)
  | keep {map : PageMap} {call : PagingCall} (notErase : ∀ virt, call ≠ .unmapPage virt) :
      MapStep map call map

/-- The higher half: 1023 pages from physical address 0 on, and the video memory. -/
def bootMap : PageMap := fun page =>
  if page / 1024 = bootSlot then
    some (if page % 1024 < bootMappedPages then page % 1024 * pageSize else vgaPhys, tableFlags)
  else none

def mapRuns : System PageMap PagingCall where
  initial map := map = bootMap
  step := MapStep

theorem boot_map_eq {boot : BootInfo} {ram : Memory} {machine : Machine layout}
    (booted : bootMachine layout boot ram = some machine) : pageMapOf machine = bootMap := by
  obtain ⟨started, run, _, _, pages⟩ := boot_machine_spec layout boot ram
  obtain rfl := Option.some.inj (run.symm.trans booted)
  funext page
  by_cases inside : page < treePages
  · rw [pageMapOf, if_pos inside, pages page inside, bootPageEntry, bootMap]
    by_cases high : page / 1024 = bootSlot
    · have aligned : (if page % 1024 < bootMappedPages then page % 1024 * pageSize else vgaPhys) %
          frameBytes = 0 := by
        split
        · exact Nat.mul_mod_left _ _
        · rfl
      rw [if_pos high, if_pos high, Option.map_some, bootEntry,
        frame_of_add aligned (by decide), flags_of_add aligned (by decide)]
    · rw [if_neg high, if_neg high, Option.map_none]
  · have low : ¬page / 1024 = bootSlot := by
      unfold treePages selfSlot at inside
      unfold bootSlot
      omega
    rw [pageMapOf, if_neg inside, bootMap, if_neg low]

theorem run_refines {boot : BootInfo} {run : PagingRun layout}
    (reachable : Reachable (pagingRuns layout boot) run) :
    Reachable mapRuns (pageMapOf run.machine) := by
  induction reachable with
  | start initial =>
      obtain ⟨⟨ram, booted⟩, _⟩ := initial
      exact .start (boot_map_eq booted)
  | next prior taken ih =>
      have invariant := run_invariant prior
      cases taken with
      | mapPage mappable word small returned =>
          obtain ⟨mapped, machine, run, _, inserted, refused⟩ :=
            map_page_refines invariant mappable word small
          obtain ⟨rfl, rfl⟩ := Prod.mk.inj (Option.some.inj (run.symm.trans returned))
          cases mapped with
          | true =>
              rw [inserted rfl]
              exact .next ih .insert
          | false =>
              rw [refused rfl]
              exact ih
      | unmapPage mappable returned =>
          obtain ⟨machine, run, _, erased⟩ := unmap_page_refines invariant mappable
          obtain rfl := Option.some.inj (run.symm.trans returned)
          rw [erased]
          exact .next ih .erase
      | getPhysical below returned => exact ih
      | alloc => exact ih
      | free owned => exact ih

/-- In every run each call of the mapper returns; a successful `paging_map_page`
inserts one page, a refused one changes nothing at all, `paging_unmap_page` removes
one page, and `paging_get_physical` looks one page up. -/
theorem page_tables_implement_map {boot : BootInfo} {run : PagingRun layout}
    (reachable : Reachable (pagingRuns layout boot) run) :
    (∀ virt phys flags, Mappable layout virt → phys < 2 ^ 32 → flags < pageSize →
      ∃ mapped after, pagingMapPage run.machine virt phys flags = some (mapped, after) ∧
        (mapped = true → pageMapOf after = Function.update (pageMapOf run.machine)
          (virt / pageSize) (some (phys, flags ||| pagingFlagPresent))) ∧
        (mapped = false → after = run.machine)) ∧
      (∀ virt, Mappable layout virt →
        ∃ after, pagingUnmapPage run.machine virt = some after ∧
          pageMapOf after = Function.update (pageMapOf run.machine) (virt / pageSize) none) ∧
      ∀ virt < recursivePtBase, pagingGetPhysical run.machine virt =
        some ((pageMapOf run.machine (virt / pageSize)).elim 0 Prod.fst) := by
  have invariant := run_invariant reachable
  refine ⟨?_, ?_, fun virt below => get_physical_refines invariant below⟩
  · intro virt phys flags mappable word small
    obtain ⟨mapped, after, run, _, inserted, refused⟩ :=
      map_page_refines invariant mappable word small
    exact ⟨mapped, after, run, inserted, refused⟩
  · intro virt mappable
    obtain ⟨after, run, _, erased⟩ := unmap_page_refines invariant mappable
    exact ⟨after, run, erased⟩

def smallPaging : PagingLayout where
  toBootLayout := smallLayout
  directoryAligned := by decide
  tableBehind := by decide

theorem small_map_returns {flags : Nat} (small : flags < pageSize) :
    ∃ run after, Reachable (pagingRuns smallPaging smallBoot) run ∧
      slotPresent run.machine.memory (pdPhys smallPaging) 64 = false ∧
      pagingMapPage run.machine 0x10000000 0x200000 flags = some (true, after) := by
  obtain ⟨machine, booted, pmm, invariant, _⟩ := boot_machine_spec smallPaging smallBoot fun _ => 0
  have reachable : Reachable (pagingRuns smallPaging smallBoot) ⟨machine, []⟩ :=
    .start ⟨⟨_, booted⟩, rfl⟩
  have frame : (pmmAllocFrame (pmmInit smallLayout smallBoot pmmBoot)).1 ≠ 0 := by decide +kernel
  rcases paging_map_page_spec invariant (by decide : 0x10000000 < recursivePtBase) (by decide)
    (by decide : 0x200000 % pageSize = 0) (by decide) small with
    ⟨_, none, _⟩ | ⟨after, returned, _⟩
  · rw [pmm] at none
    exact absurd none frame
  · exact ⟨_, after, reachable, boot_slots booted (by decide), returned⟩

/-- A page of an empty slot is mapped, looked up, unmapped and looked up again. -/
theorem small_paging_map_unmap :
    ∃ (run : PagingRun smallPaging) (mapped unmapped : Machine smallPaging),
      slotPresent run.machine.memory (pdPhys smallPaging) 64 = false ∧
      pagingMapPage run.machine 0x10000000 0x200000 pagingFlagWrite = some (true, mapped) ∧
      pageMapOf mapped =
        Function.update (pageMapOf run.machine) 0x10000 (some (0x200000, tableFlags)) ∧
      pagingGetPhysical mapped 0x10000123 = some 0x200000 ∧
      pagingUnmapPage mapped 0x10000000 = some unmapped ∧
      pageMapOf unmapped = Function.update (pageMapOf mapped) 0x10000 none ∧
      pagingGetPhysical unmapped 0x10000123 = some 0 := by
  obtain ⟨run, mapped, reachable, absent, returned⟩ :=
    small_map_returns (by decide : pagingFlagWrite < pageSize)
  have own : Mappable smallPaging 0x10000000 := mappable_outside (by decide) (by decide)
  obtain ⟨_, _, same, inserted, _⟩ := (page_tables_implement_map reachable).1 0x10000000 0x200000
    pagingFlagWrite own (by decide) (by decide)
  obtain ⟨rfl, rfl⟩ := Prod.mk.inj (Option.some.inj (returned.symm.trans same))
  have mapReachable : Reachable (pagingRuns smallPaging smallBoot) ⟨mapped, run.live⟩ :=
    .next reachable (.mapPage own (by decide) (by decide) returned)
  obtain ⟨unmapped, cleared, erased⟩ := (page_tables_implement_map mapReachable).2.1 0x10000000 own
  have unmapReachable : Reachable (pagingRuns smallPaging smallBoot) ⟨unmapped, run.live⟩ :=
    .next mapReachable (.unmapPage own cleared)
  have found := (page_tables_implement_map mapReachable).2.2 0x10000123 (by decide)
  have lost := (page_tables_implement_map unmapReachable).2.2 0x10000123 (by decide)
  have map := inserted rfl
  simp only at erased found lost
  refine ⟨run, mapped, unmapped, absent, returned, map, ?_, cleared, erased, ?_⟩
  · rw [found, map]
    rfl
  · rw [lost, erased]
    rfl

theorem unmapped_directory_faults :
    ∃ machine after, bootMachine smallPaging smallBoot (fun _ => 0) = some machine ∧
      pagingUnmapPage machine 0xC0108000 = some after ∧
      pageMapOf machine 0xC0000 = some (0, tableFlags) ∧
      pagingGetPhysical after 0xC0000000 = none := by
  obtain ⟨machine, booted, _, invariant, _⟩ := boot_machine_spec smallPaging smallBoot fun _ => 0
  obtain ⟨after, unmapped, faults⟩ := unmap_directory_faults invariant
  refine ⟨machine, after, booted, unmapped, ?_, faults 0xC0000000 (by decide)⟩
  rw [boot_map_eq booted]
  rfl

end SimplyOs.PageMaps
