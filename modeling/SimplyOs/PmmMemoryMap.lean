import SimplyOs.PmmOwnership

/-!
# What `pmm_init` makes of a memory map

Two questions about the frames that are free after `pmm_init`: is every byte of
them usable memory, and is all usable memory free? Both fail for ordinary maps:
frame numbers come from addresses cut to 32 bits, usable regions are rounded
outward, and each reserved range takes one frame too many. The equivalences say
exactly for which maps the answers are yes.
-/

namespace SimplyOs.PmmMemoryMap

open SimplyOs.Word SimplyOs.Multiboot SimplyOs.Pmm SimplyOs.PmmFrames SimplyOs.PmmOwnership

set_option autoImplicit false

def bootOf (entries : List MmapEntry) (memUpperKb : Nat) : BootInfo where
  mbValid := true
  mbMemUpperKb := memUpperKb
  mmapStorage := fun index => entries.getD index ⟨0, 0, 0⟩
  mmapEntryCount := entries.length

theorem mmap_bootOf (entries : List MmapEntry) (memUpperKb : Nat) :
    multibootMmap (bootOf entries memUpperKb) = entries := by
  apply List.ext_getElem
  · simp [multibootMmap, bootOf]
  · intro index _ inside
    simp [multibootMmap, bootOf, inside]

def Usable (entry : MmapEntry) : Prop :=
  entry.type = memoryAvailable ∨ entry.type = memoryAcpiReclaimable

theorem region_usable_iff (entry : MmapEntry) :
    pmmRegionUsable entry.type = true ↔ Usable entry := by
  simp [pmmRegionUsable, Usable]

def regionBytes (entry : MmapEntry) : Nat × Nat := (entry.addr, entry.addr + entry.len)

/-- Regions that lie below `2 ^ 64` and do not overlap. -/
def ProperMap (entries : List MmapEntry) : Prop :=
  (∀ entry ∈ entries, entry.addr + entry.len ≤ 2 ^ 64) ∧
    entries.Pairwise fun one other =>
      one.addr + one.len ≤ other.addr ∨ other.addr + other.len ≤ one.addr

def memoryEnds (entries : List MmapEntry) (memUpperKb : Nat) : List Nat :=
  entries.map (fun entry => add64 entry.addr entry.len) ++
    if memUpperKb = 0 then [] else [add64 kernelPhysicalStart (memUpperKb * 1024 % 2 ^ 64)]

/-- The frame of the highest such end, whose address is cut to 32 bits. -/
def lastFrame (entries : List MmapEntry) (memUpperKb : Nat) : Nat :=
  addrToFrame (toUintptr ((memoryEnds entries memUpperKb).foldl max 0))

theorem pmm_mark_highest_eq (regionEnd highest : Nat) :
    pmmMarkHighest regionEnd highest = max highest regionEnd := by
  unfold pmmMarkHighest
  split <;> omega

theorem pmm_highest_eq (entries : List MmapEntry) (memUpperKb : Nat) :
    pmmHighest (bootOf entries memUpperKb) = (memoryEnds entries memUpperKb).foldl max 0 := by
  simp only [pmmHighest, mmap_bootOf, pmm_mark_highest_eq, memoryEnds, List.foldl_append,
    List.foldl_map]
  by_cases none : memUpperKb = 0
  · simp [bootOf, none]
  · simp [bootOf, none, memUpperBytes]

theorem frame_count_eq (entries : List MmapEntry) (memUpperKb : Nat) :
    pmmFrameCount (bootOf entries memUpperKb) =
      min pmmMaxFrames (lastFrame entries memUpperKb + 1) := by
  simp only [pmmFrameCount, pmm_highest_eq, lastFrame]
  split <;> omega

section Maps

variable (layout : BootLayout) (entries : List MmapEntry) (memUpperKb : Nat)

def initialised : PmmState := pmmInit layout (bootOf entries memUpperKb) pmmBoot

theorem initialised_used :
    (initialised layout entries memUpperKb).frameCount =
        min pmmMaxFrames (lastFrame entries memUpperKb + 1) ∧
      ∀ frame < min pmmMaxFrames (lastFrame entries memUpperKb + 1),
        frameUsed (initialised layout entries memUpperKb) frame =
          (frameReserved layout frame ||
            !(fallbackFrees (bootOf entries memUpperKb) frame || mapFrees entries frame)) := by
  obtain ⟨count, _, used⟩ :=
    pmm_init_used layout pmmBoot (rfl : (bootOf entries memUpperKb).mbValid = true)
  rw [mmap_bootOf, frame_count_eq] at used
  rw [frame_count_eq] at count
  exact ⟨count, used⟩

/-! ## Free frames hold usable memory only -/

/-- No free frame contains a byte of an unusable region. -/
def FreeFramesUsable (pmm : PmmState) : Prop :=
  ∀ frame < pmm.frameCount, frameUsed pmm frame = false →
    ∀ entry ∈ entries, ¬Usable entry → ¬Touches frame (regionBytes entry)

/-- No frame that an unusable region touches, unless it is reserved anyway, is
freed by the last entry that covers it or by the fallback. -/
theorem free_frames_usable_iff :
    FreeFramesUsable entries (initialised layout entries memUpperKb) ↔
      ∀ frame < min pmmMaxFrames (lastFrame entries memUpperKb + 1),
        frameReserved layout frame = false → ∀ entry ∈ entries, ¬Usable entry → Touches frame (regionBytes entry) →
          fallbackFrees (bootOf entries memUpperKb) frame = false ∧
            mapFrees entries frame = false := by
  obtain ⟨count, used⟩ := initialised_used layout entries memUpperKb
  constructor
  · intro usable frame inside unreserved entry member unusable touches
    by_contra freed
    have free : frameUsed (initialised layout entries memUpperKb) frame = false := by
      rw [used frame inside, unreserved]
      rw [not_and_or, Bool.not_eq_false, Bool.not_eq_false] at freed
      rcases freed with fallback | map
      · simp [fallback]
      · simp [map]
    exact usable frame (by rw [count]; exact inside) free entry member unusable touches
  · intro condition frame inside free entry member unusable touches
    rw [count] at inside
    rw [used frame inside] at free
    have unreserved : frameReserved layout frame = false := (Bool.or_eq_false_iff.mp free).1
    obtain ⟨fallback, map⟩ := condition frame inside unreserved entry member unusable touches
    simp [unreserved, fallback, map] at free

end Maps

instance (entries : List MmapEntry) : Decidable (ProperMap entries) :=
  inferInstanceAs (Decidable (_ ∧ _))

/-- A firmware region ends in the middle of frame 512, where usable memory begins. -/
def sharedFrameMap : List MmapEntry := [⟨0x200000, 0x800, 2⟩, ⟨0x200800, 0x1FF800, memoryAvailable⟩]

theorem shared_frame_free :
    ProperMap sharedFrameMap ∧
      ¬FreeFramesUsable sharedFrameMap (initialised smallLayout sharedFrameMap 0) := by
  constructor
  · decide
  · rw [free_frames_usable_iff]
    intro condition
    have kept := condition 512 (by decide) (by decide) ⟨0x200000, 0x800, 2⟩ (by decide)
      (by rintro (available | reclaimable) <;> contradiction) ⟨0x200000, by decide⟩
    have freed : mapFrees sharedFrameMap 512 = true := by decide
    rw [freed] at kept
    exact absurd kept.2 (by decide)

/-! ## Usable memory is free -/

section Maps

variable (layout : BootLayout) (entries : List MmapEntry) (memUpperKb : Nat)

/-- A frame below 128 MiB that is wholly usable and that nothing else touches. -/
structure Spare (frame : Nat) : Prop where
  positive : 1 ≤ frame
  small : frame < pmmMaxFrames
  usable : ∃ entry ∈ entries, Usable entry ∧ entry.addr ≤ frame * pageSize ∧
    (frame + 1) * pageSize ≤ entry.addr + entry.len
  unmixed : ∀ entry ∈ entries, ¬Usable entry → ¬Touches frame (regionBytes entry)
  untouched : ∀ range ∈ kernelRanges layout, ¬Touches frame range

def SpareFramesFree (pmm : PmmState) : Prop :=
  ∀ frame, Spare layout entries frame → frame < pmm.frameCount ∧ frameUsed pmm frame = false

/-- Of the frames that a kernel range does not touch it reserves one: the next. -/
theorem reserves_untouched_iff {range : Nat × Nat} {frame : Nat}
    (member : range ∈ kernelRanges layout) (untouched : ¬Touches frame range) :
    regionReserves range frame = true ↔ frame = (range.2 + (pageSize - 1)) / pageSize := by
  obtain ⟨_, ordered, high⟩ := kernel_ranges_bounds layout member
  simp only [regionReserves, Bool.and_eq_true, decide_eq_true_eq, reserve_end_frame_eq high]
  simp only [addrToFrame, pageSize]
  constructor
  · rintro ⟨⟨_, lower⟩, upper⟩
    by_contra differ
    apply untouched
    refine ⟨max range.1 (frame * 4096), Nat.le_max_left _ _, ?_, ?_⟩
    · omega
    · simp only [pageSize]
      omega
  · intro next
    omega

theorem reserved_untouched_iff {frame : Nat} (positive : 1 ≤ frame)
    (untouched : ∀ range ∈ kernelRanges layout, ¬Touches frame range) :
    frameReserved layout frame = false ↔
      ∀ range ∈ kernelRanges layout, frame ≠ (range.2 + (pageSize - 1)) / pageSize := by
  have nonzero : decide (frame = 0) = false := by
    simp only [decide_eq_false_iff_not]
    omega
  rw [frameReserved, reserved_regions_eq, nonzero, Bool.false_or, List.any_eq_false]
  constructor
  · intro unreserved range member next
    exact unreserved range member
      ((reserves_untouched_iff layout member (untouched range member)).mpr next)
  · intro differ range member reserves
    exact differ range member
      ((reserves_untouched_iff layout member (untouched range member)).mp reserves)

/-- Every spare frame is managed and free exactly when it lies below the cut
frame count, does not follow a kernel range directly, and is freed by the last
entry that covers it. -/
theorem spare_frames_free_iff :
    SpareFramesFree layout entries (initialised layout entries memUpperKb) ↔
      ∀ frame, Spare layout entries frame →
        frame ≤ lastFrame entries memUpperKb ∧
          (∀ range ∈ kernelRanges layout, frame ≠ (range.2 + (pageSize - 1)) / pageSize) ∧
          mapFrees entries frame = true := by
  obtain ⟨count, used⟩ := initialised_used layout entries memUpperKb
  apply forall_congr'
  intro frame
  apply imp_congr_right
  intro spare
  obtain ⟨entry, member, usable, _⟩ := spare.usable
  have some : hasUsable entries = true :=
    List.any_eq_true.mpr ⟨entry, member, (region_usable_iff entry).mpr usable⟩
  have noFallback : fallbackFrees (bootOf entries memUpperKb) frame = false := by
    simp [fallbackFrees, mmap_bootOf, some]
  have inside : frame < min pmmMaxFrames (lastFrame entries memUpperKb + 1) ↔
      frame ≤ lastFrame entries memUpperKb := by
    rw [Nat.lt_min, Nat.lt_succ_iff, and_iff_right spare.small]
  rw [count, inside, ← reserved_untouched_iff layout spare.positive spare.untouched]
  apply and_congr_right
  intro below
  rw [used frame (inside.mpr below), noFallback]
  simp

end Maps

/-- 128 MiB of memory and the firmware right below 4 GiB, as on many machines. -/
def firmwareMap : List MmapEntry :=
  [⟨0, 0x9FC00, memoryAvailable⟩, ⟨0x100000, 0x7EE0000, memoryAvailable⟩,
    ⟨0xFFFC0000, 0x40000, 2⟩]

theorem firmware_hides_memory :
    ProperMap firmwareMap ∧
      ¬SpareFramesFree smallLayout firmwareMap (initialised smallLayout firmwareMap 0x1FB80) := by
  constructor
  · decide
  · rw [spare_frames_free_iff]
    intro condition
    have spare : Spare smallLayout firmwareMap 2048 := by
      refine ⟨by decide, by decide, ⟨⟨0x100000, 0x7EE0000, memoryAvailable⟩, by decide,
        Or.inl rfl, by decide, by decide⟩, ?_, ?_⟩
      · rintro entry member unusable ⟨byte, low, high, inside⟩
        simp only [firmwareMap, List.mem_cons, List.not_mem_nil, or_false] at member
        simp only [regionBytes, pageSize] at low high inside
        rcases member with rfl | rfl | rfl
        · exact absurd (Or.inl rfl) unusable
        · exact absurd (Or.inl rfl) unusable
        · simp only at low
          omega
      · rintro range member ⟨byte, _, high, inside⟩
        have bounds := kernel_ranges_bounds smallLayout member
        simp only [pageSize] at inside
        omega
    exact absurd (condition 2048 spare).1 (by decide)

end SimplyOs.PmmMemoryMap
