import SimplyOs.PmmMemoryMap

/-!
# Which entry of the map decides

For regions below 4 GiB the frames that the loop of `pmm_init` takes for an entry
are the ones that the region touches, and the last entry of the map that touches a
frame decides about it. Regions are rounded outward whether they are usable or not,
so two that share a frame make the result depend on their order.
-/

namespace SimplyOs.PmmMapOrder

open SimplyOs.Word SimplyOs.Multiboot SimplyOs.Pmm SimplyOs.PmmFrames SimplyOs.PmmOwnership
open SimplyOs.PmmMemoryMap SimplyOs.Library.LastWriter

set_option autoImplicit false

def EntryTouches (frame : Nat) (entry : MmapEntry) : Prop :=
  entry.addr / pageSize ≤ frame ∧ frame ≤ (entry.addr + entry.len - 1) / pageSize

instance (frame : Nat) (entry : MmapEntry) : Decidable (EntryTouches frame entry) :=
  inferInstanceAs (Decidable (_ ∧ _))

/-- A region that is not empty and ends below 4 GiB or there. -/
def Regular (entry : MmapEntry) : Prop := 0 < entry.len ∧ entry.addr + entry.len ≤ 2 ^ 32

instance (entry : MmapEntry) : Decidable (Regular entry) :=
  inferInstanceAs (Decidable (_ ∧ _))

theorem entry_covers_iff {entry : MmapEntry} (regular : Regular entry) (frame : Nat) :
    entryCovers frame entry = true ↔ EntryTouches frame entry := by
  obtain ⟨filled, low⟩ := regular
  have whole : add64 entry.addr entry.len = entry.addr + entry.len :=
    Nat.mod_eq_of_lt (by omega)
  have start : toUintptr entry.addr = entry.addr := Nat.mod_eq_of_lt (by omega)
  have last : toUintptr (entry.addr + entry.len - 1) = entry.addr + entry.len - 1 :=
    Nat.mod_eq_of_lt (by omega)
  have positive : ¬entry.addr + entry.len = 0 := by omega
  simp only [entryCovers, regionStartFrame, regionEndFrame, whole, start, last, if_neg positive,
    addrToFrame, Bool.and_eq_true, decide_eq_true_eq, EntryTouches, Nat.lt_succ_iff]

/-! ## The closed form -/

/-- Whether a frame lies in one of the four ranges that are reserved in the end, whose last
frame is the one behind the last byte, rounded up. -/
def InReservedRange (layout : BootLayout) (frame : Nat) : Prop :=
  ∃ range ∈ kernelRanges layout,
    range.1 / pageSize ≤ frame ∧ frame ≤ (range.2 + (pageSize - 1)) / pageSize

theorem frame_reserved_iff (layout : BootLayout) (frame : Nat) :
    frameReserved layout frame = true ↔ frame = 0 ∨ InReservedRange layout frame := by
  rw [frameReserved, reserved_regions_eq, Bool.or_eq_true, decide_eq_true_eq, List.any_eq_true]
  apply or_congr_right
  apply exists_congr
  intro range
  apply and_congr_right
  intro member
  obtain ⟨_, ordered, high⟩ := kernel_ranges_bounds layout member
  rw [regionReserves, decide_eq_true ordered, Bool.true_and, Bool.and_eq_true, decide_eq_true_eq,
    decide_eq_true_eq, reserve_end_frame_eq high, Nat.lt_succ_iff]
  rfl

/-- The highest end of a region or, when `mem_upper` is given, of the memory above 1 MiB. -/
def highestEnd (entries : List MmapEntry) (memUpperKb : Nat) : Nat :=
  (entries.map (fun entry => entry.addr + entry.len) ++
    if memUpperKb = 0 then [] else [0x00100000 + memUpperKb * 1024]).foldl max 0

theorem foldl_max_lt {bound : Nat} (ends : List Nat) (initial : Nat) (small : initial < bound)
    (below : ∀ value ∈ ends, value < bound) : ends.foldl max initial < bound := by
  apply List.foldlRecOn (motive := fun highest => highest < bound)
  · exact small
  · intro highest soFar value member
    exact max_lt soFar (below value member)

theorem last_frame_eq {entries : List MmapEntry} {memUpperKb : Nat}
    (below : ∀ entry ∈ entries, entry.addr + entry.len < 2 ^ 32)
    (upper : 0x00100000 + memUpperKb * 1024 < 2 ^ 32) :
    lastFrame entries memUpperKb = highestEnd entries memUpperKb / pageSize := by
  have ends : memoryEnds entries memUpperKb =
      entries.map (fun entry => entry.addr + entry.len) ++
        if memUpperKb = 0 then [] else [0x00100000 + memUpperKb * 1024] := by
    rw [memoryEnds]
    congr 1
    · apply List.map_congr_left
      intro entry member
      have small := below entry member
      exact Nat.mod_eq_of_lt (by omega)
    · have bytes : memUpperKb * 1024 % 2 ^ 64 = memUpperKb * 1024 :=
        Nat.mod_eq_of_lt (by omega)
      have sum : add64 kernelPhysicalStart (memUpperKb * 1024) =
          0x00100000 + memUpperKb * 1024 := Nat.mod_eq_of_lt (by
        simp only [kernelPhysicalStart]
        omega)
      rw [bytes, sum]
  have small : highestEnd entries memUpperKb < 2 ^ 32 := by
    apply foldl_max_lt _ _ (by decide)
    intro value member
    rcases List.mem_append.mp member with region | extra
    · obtain ⟨entry, inMap, rfl⟩ := List.mem_map.mp region
      exact below entry inMap
    · by_cases none : memUpperKb = 0
      · rw [if_pos none] at extra
        cases extra
      · rw [if_neg none, List.mem_singleton] at extra
        rw [extra]
        exact upper
  rw [lastFrame, ends, addrToFrame, toUintptr]
  exact congrArg (· / pageSize) (Nat.mod_eq_of_lt small)

section Maps

variable (layout : BootLayout) (entries : List MmapEntry) (memUpperKb : Nat)

def LastTouching (frame : Nat) (entry : MmapEntry) : Prop :=
  EntryTouches frame entry ∧ ∃ front behind, entries = front ++ entry :: behind ∧
    ∀ later ∈ behind, ¬EntryTouches frame later

theorem last_covering_iff (regular : ∀ entry ∈ entries, Regular entry) (frame : Nat)
    (entry : MmapEntry) :
    lastCovering entries frame = some entry ↔ LastTouching entries frame entry := by
  rw [last_covering_eq, LastTouching]
  exact last_writer_iff fun entry member => entry_covers_iff (regular entry member) frame

/-- The frame count and the free frames after `pmm_init`: the last entry that touches a frame
decides, then the reserved ranges. -/
theorem initialised_closed_form
    (proper : ∀ entry ∈ entries, 0 < entry.len ∧ entry.addr + entry.len < 2 ^ 32)
    (some : ∃ entry ∈ entries, Usable entry)
    (upper : 0x00100000 + memUpperKb * 1024 < 2 ^ 32) :
    (initialised layout entries memUpperKb).frameCount =
        min 32768 (highestEnd entries memUpperKb / 4096 + 1) ∧
      ∀ frame < (initialised layout entries memUpperKb).frameCount,
        (frameUsed (initialised layout entries memUpperKb) frame = false ↔
          frame ≠ 0 ∧ ¬InReservedRange layout frame ∧
            ∃ entry, LastTouching entries frame entry ∧ Usable entry) := by
  obtain ⟨count, used⟩ := initialised_used layout entries memUpperKb
  have last := last_frame_eq (fun entry member => (proper entry member).2) upper
  have regular : ∀ entry ∈ entries, Regular entry := fun entry member =>
    ⟨(proper entry member).1, Nat.le_of_lt (proper entry member).2⟩
  refine ⟨by rw [count, last]; rfl, ?_⟩
  intro frame inside
  rw [count] at inside
  obtain ⟨usableEntry, usableMember, usable⟩ := some
  have hasSome : hasUsable entries = true :=
    List.any_eq_true.mpr ⟨usableEntry, usableMember, (region_usable_iff usableEntry).mpr usable⟩
  have noFallback : fallbackFrees (bootOf entries memUpperKb) frame = false := by
    simp [fallbackFrees, mmap_bootOf, hasSome]
  have frees : mapFrees entries frame = true ↔
      ∃ entry, LastTouching entries frame entry ∧ Usable entry := by
    rw [mapFrees]
    constructor
    · intro freed
      cases found : lastCovering entries frame with
      | none =>
          rw [found] at freed
          cases freed
      | some entry =>
          rw [found] at freed
          exact ⟨entry, (last_covering_iff entries regular frame entry).mp found,
            (region_usable_iff entry).mp freed⟩
    · rintro ⟨entry, lastTouching, usable⟩
      rw [(last_covering_iff entries regular frame entry).mpr lastTouching]
      exact (region_usable_iff entry).mpr usable
  rw [used frame inside, noFallback, Bool.false_or, Bool.or_eq_false_iff, Bool.not_eq_false',
    frees, ← Bool.not_eq_true, frame_reserved_iff, not_or, and_assoc]

/-! ## The order of the map -/

/-- The same frames are managed, each is free or used in both, and so are the counters. -/
structure SameFrames (pmm other : PmmState) : Prop where
  frameCount : other.frameCount = pmm.frameCount
  used : ∀ frame < pmm.frameCount, frameUsed other frame = frameUsed pmm frame
  usedCount : other.usedCount = pmm.usedCount

variable {other : List MmapEntry}

theorem last_frame_perm (perm : entries.Perm other) :
    lastFrame other memUpperKb = lastFrame entries memUpperKb := by
  have ends : (memoryEnds entries memUpperKb).Perm (memoryEnds other memUpperKb) :=
    (perm.map fun entry => add64 entry.addr entry.len).append_right _
  rw [lastFrame, lastFrame, ends.symm.foldl_eq' fun _ _ _ _ highest => max_right_comm highest _ _]

theorem fallback_frees_perm (perm : entries.Perm other) (frame : Nat) :
    fallbackFrees (bootOf other memUpperKb) frame =
      fallbackFrees (bootOf entries memUpperKb) frame := by
  have same : hasUsable other = hasUsable entries := perm.symm.any_eq
  rw [fallbackFrees, fallbackFrees, mmap_bootOf, mmap_bootOf, same]
  rfl

theorem counted_same {pmm after : PmmState} (counted : Counted pmm) (afterCounted : Counted after)
    (frameCount : after.frameCount = pmm.frameCount)
    (used : ∀ frame < pmm.frameCount, frameUsed after frame = frameUsed pmm frame) :
    SameFrames pmm after := by
  refine ⟨frameCount, used, ?_⟩
  have frames : usedFrames after = usedFrames pmm := by
    ext frame
    rw [mem_used_frames, mem_used_frames, frameCount]
    apply and_congr_right
    intro inside
    rw [used frame inside]
  rw [counted, afterCounted, frames]

theorem same_frames_perm_iff (perm : entries.Perm other) :
    SameFrames (initialised layout entries memUpperKb) (initialised layout other memUpperKb) ↔
      ∀ frame < min pmmMaxFrames (lastFrame entries memUpperKb + 1),
        frameReserved layout frame = false →
          fallbackFrees (bootOf entries memUpperKb) frame = false →
            mapFrees other frame = mapFrees entries frame := by
  obtain ⟨count, used⟩ := initialised_used layout entries memUpperKb
  obtain ⟨otherCount, otherUsed⟩ := initialised_used layout other memUpperKb
  rw [last_frame_perm entries memUpperKb perm] at otherCount otherUsed
  have counted (entries : List MmapEntry) : Counted (initialised layout entries memUpperKb) :=
    (pmm_init_used layout pmmBoot (rfl : (bootOf entries memUpperKb).mbValid = true)).2.1
  constructor
  · intro same frame inside unreserved noFallback
    have equal := same.used frame (by rw [count]; exact inside)
    rw [used frame inside, otherUsed frame inside, fallback_frees_perm entries memUpperKb perm,
      unreserved, noFallback] at equal
    simpa using equal
  · intro condition
    apply counted_same (counted entries) (counted other) (otherCount.trans count.symm)
    intro frame inside
    rw [count] at inside
    rw [used frame inside, otherUsed frame inside, fallback_frees_perm entries memUpperKb perm]
    cases unreserved : frameReserved layout frame with
    | true => rfl
    | false =>
        cases noFallback : fallbackFrees (bootOf entries memUpperKb) frame with
        | true => rfl
        | false => rw [condition frame inside unreserved noFallback]

/-- What the map makes of a frame is the same for every order exactly when the regions that
touch the frame are all usable or none is. -/
theorem map_frees_perm_iff (regular : ∀ entry ∈ entries, Regular entry) (frame : Nat) :
    (∀ other, entries.Perm other → mapFrees other frame = mapFrees entries frame) ↔
      ∀ one ∈ entries, ∀ other ∈ entries, EntryTouches frame one → EntryTouches frame other →
        (Usable one ↔ Usable other) := by
  have values : (∀ other, entries.Perm other → mapFrees other frame = mapFrees entries frame) ↔
      ∀ one ∈ entries, ∀ other ∈ entries, entryCovers frame one = true →
        entryCovers frame other = true → pmmRegionUsable one.type = pmmRegionUsable other.type :=
    @last_value_perm_iff _ _ (entryCovers frame) _ (fun entry => pmmRegionUsable entry.type)
      entries false
  rw [values]
  apply forall₂_congr
  intro one oneMember
  apply forall₂_congr
  intro other otherMember
  rw [entry_covers_iff (regular one oneMember), entry_covers_iff (regular other otherMember),
    Bool.eq_iff_iff, region_usable_iff, region_usable_iff]

/-- The result is the same for every order of the map exactly when no frame that is not
reserved is touched both by a usable and by another region. -/
theorem map_order_irrelevant_iff (regular : ∀ entry ∈ entries, Regular entry) :
    (∀ other, entries.Perm other →
        SameFrames (initialised layout entries memUpperKb)
          (initialised layout other memUpperKb)) ↔
      ∀ frame < min pmmMaxFrames (lastFrame entries memUpperKb + 1),
        frameReserved layout frame = false →
          ∀ one ∈ entries, ∀ other ∈ entries, EntryTouches frame one →
            EntryTouches frame other → (Usable one ↔ Usable other) := by
  constructor
  · intro same frame inside unreserved
    by_cases some : hasUsable entries = true
    · have noFallback : fallbackFrees (bootOf entries memUpperKb) frame = false := by
        simp [fallbackFrees, mmap_bootOf, some]
      apply (map_frees_perm_iff entries regular frame).mp
      intro other perm
      exact (same_frames_perm_iff layout entries memUpperKb perm).mp (same other perm) frame
        inside unreserved noFallback
    · have unusable : ∀ entry ∈ entries, ¬Usable entry := fun entry member usable =>
        some (List.any_eq_true.mpr ⟨entry, member, (region_usable_iff entry).mpr usable⟩)
      intro one oneMember other otherMember _ _
      exact iff_of_false (unusable one oneMember) (unusable other otherMember)
  · intro agree other perm
    apply (same_frames_perm_iff layout entries memUpperKb perm).mpr
    intro frame inside unreserved _
    exact (map_frees_perm_iff entries regular frame).mpr (agree frame inside unreserved) other perm

end Maps

/-- Memory up to 8 MiB with a hole from the middle of a frame to that of the next. -/
def holeMap : List MmapEntry :=
  [⟨0x100000, 0x700000, memoryAvailable⟩, ⟨0x500800, 0x1000, 2⟩]

/-- Both frames of the hole are used. -/
theorem hole_map_closed_form :
    (initialised smallLayout holeMap 0).frameCount = 2049 ∧
      frameUsed (initialised smallLayout holeMap 0) 1281 = true := by
  obtain ⟨count, free⟩ := initialised_closed_form smallLayout holeMap 0 (by decide)
    ⟨⟨0x100000, 0x700000, memoryAvailable⟩, by decide, Or.inl rfl⟩ (by decide)
  refine ⟨count.trans (by decide), ?_⟩
  rw [← Bool.not_eq_false, free 1281 (by rw [count]; decide)]
  rintro ⟨_, _, entry, last, usable⟩
  have hole : LastTouching holeMap 1281 ⟨0x500800, 0x1000, 2⟩ :=
    ⟨by decide, [⟨0x100000, 0x700000, memoryAvailable⟩], [], rfl, fun _ member => nomatch member⟩
  have regular : ∀ entry ∈ holeMap, Regular entry := by decide
  rw [← last_covering_iff holeMap regular] at last hole
  rw [last] at hole
  obtain rfl := Option.some.inj hole
  rcases usable with available | reclaimable
  · cases available
  · cases reclaimable

def alignedMap : List MmapEntry :=
  [⟨0x100000, 0x700000, memoryAvailable⟩, ⟨0x800000, 0x100000, 2⟩]

theorem aligned_map_order_irrelevant :
    SameFrames (initialised smallLayout alignedMap 0)
      (initialised smallLayout alignedMap.reverse 0) := by
  have perm : alignedMap.Perm alignedMap.reverse := (List.reverse_perm _).symm
  refine (map_order_irrelevant_iff smallLayout alignedMap 0 (by decide)).mpr ?_ _ perm
  intro frame _ _ one oneMember other otherMember oneTouches otherTouches
  simp only [alignedMap, List.mem_cons, List.not_mem_nil, or_false] at oneMember otherMember
  simp only [EntryTouches, pageSize] at oneTouches otherTouches
  rcases oneMember with rfl | rfl
  · rcases otherMember with rfl | rfl
    · exact Iff.rfl
    · dsimp only at oneTouches otherTouches
      omega
  · rcases otherMember with rfl | rfl
    · dsimp only at oneTouches otherTouches
      omega
    · exact Iff.rfl

/-- The two regions that share frame 512, in both orders. -/
theorem map_order_matters :
    ProperMap sharedFrameMap ∧ (∀ entry ∈ sharedFrameMap, Regular entry) ∧
      sharedFrameMap.Perm sharedFrameMap.reverse ∧
      ¬SameFrames (initialised smallLayout sharedFrameMap 0)
        (initialised smallLayout sharedFrameMap.reverse 0) := by
  have perm : sharedFrameMap.Perm sharedFrameMap.reverse := (List.reverse_perm _).symm
  refine ⟨by decide, by decide, perm, ?_⟩
  rw [same_frames_perm_iff smallLayout sharedFrameMap 0 perm]
  intro same
  exact absurd (same 512 (by decide) (by decide) (by decide)) (by decide)

end SimplyOs.PmmMapOrder
