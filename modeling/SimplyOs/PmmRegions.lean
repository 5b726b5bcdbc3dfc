import SimplyOs.PmmOwnership

/-!
# Byte ranges and the frames reserved for them

`pmm_reserve_region` rounds the exclusive end of its range up and then adds one
more frame, as it would for the address of the last byte. The frames it marks are
those of the range exactly when that frame was in use before or is not managed;
an end in the last page of the address space wraps in the rounding.
-/

namespace SimplyOs.PmmRegions

open SimplyOs.Word SimplyOs.Pmm SimplyOs.PmmFrames SimplyOs.PmmOwnership

set_option autoImplicit false

/-- The frames of the range, and no others, are marked used. -/
def ReservesExactly (pmm : PmmState) (start regionEnd : Nat) : Prop :=
  (pmmReserveRegion pmm start regionEnd).frameCount = pmm.frameCount ∧
    ∀ frame, frameUsed (pmmReserveRegion pmm start regionEnd) frame = true ↔
      frame < pmm.frameCount ∧ Touches frame (start, regionEnd) ∨ frameUsed pmm frame = true

def lastRoundedEnd : Nat := 0xFFFFF000

/-- The frame after the last byte of the range is in use or not managed; behind
`lastRoundedEnd`, all managed frames of the range but the first of memory are in use. -/
def SurplusUsed (pmm : PmmState) (start regionEnd : Nat) : Prop :=
  if regionEnd ≤ start then True
  else if regionEnd ≤ lastRoundedEnd then
    addrToFrame (regionEnd - 1) + 1 < pmm.frameCount →
      frameUsed pmm (addrToFrame (regionEnd - 1) + 1) = true
  else
    ∀ frame, addrToFrame start ≤ frame → 0 < frame → frame < pmm.frameCount →
      frameUsed pmm frame = true

/-! ## The frames of a range -/

theorem touches_iff {start regionEnd : Nat} (ordered : start < regionEnd) (frame : Nat) :
    Touches frame (start, regionEnd) ↔
      addrToFrame start ≤ frame ∧ frame ≤ addrToFrame (regionEnd - 1) := by
  simp only [addrToFrame, pageSize]
  constructor
  · rintro ⟨byte, lower, upper, rfl⟩
    simp only at lower upper
    simp only [pageSize]
    omega
  · rintro ⟨lower, upper⟩
    -- the later one of the first byte of the range and the first byte of the frame
    refine ⟨max start (frame * 4096), Nat.le_max_left _ _, ?_, ?_⟩
    · simp only
      omega
    · simp only [pageSize]
      omega

theorem touches_empty {start regionEnd : Nat} (empty : regionEnd ≤ start) (frame : Nat) :
    ¬Touches frame (start, regionEnd) := by
  rintro ⟨byte, lower, upper, _⟩
  simp only at lower upper
  omega

theorem reserve_end_frame_rounded {start regionEnd : Nat} (ordered : start < regionEnd)
    (rounded : regionEnd ≤ lastRoundedEnd) :
    reserveEndFrame regionEnd = addrToFrame (regionEnd - 1) + 2 := by
  simp only [lastRoundedEnd] at rounded
  simp only [reserveEndFrame, pageSize]
  rw [add32_eq (by omega)]
  simp only [addrToFrame, pageSize]
  omega

theorem reserve_end_frame_wrapped {regionEnd : Nat} (word : regionEnd < 2 ^ 32)
    (wrapped : lastRoundedEnd < regionEnd) : reserveEndFrame regionEnd = 1 := by
  simp only [lastRoundedEnd] at wrapped
  simp only [reserveEndFrame, addrToFrame, add32, pageSize]
  omega

/-! ## What a reservation marks -/

theorem set_frames_outside (pmm : PmmState) (frames : List Nat) (used : Bool) {frame : Nat}
    (outside : pmm.frameCount ≤ frame) :
    frameUsed (frames.foldl (fun pmm frame => pmmSetUsed pmm frame used) pmm) frame =
      frameUsed pmm frame := by
  induction frames generalizing pmm with
  | nil => rfl
  | cons first rest ih =>
      rw [List.foldl_cons, ih _ (by rw [frame_count_set]; exact outside)]
      by_cases inside : first < pmm.frameCount
      · rw [frame_used_set pmm inside, if_neg (by omega)]
      · rw [pmmSetUsed, dif_neg inside]

theorem reserve_region_outside (pmm : PmmState) (start regionEnd : Nat) {frame : Nat}
    (outside : pmm.frameCount ≤ frame) :
    frameUsed (pmmReserveRegion pmm start regionEnd) frame = frameUsed pmm frame := by
  unfold pmmReserveRegion
  by_cases empty : regionEnd ≤ start
  · rw [if_pos empty]
  · rw [if_neg empty]
    exact set_frames_outside pmm _ true outside

/-- The reservation is exact when the frames that it should and those that it does
mark differ only in frames that are in use. -/
theorem reserves_exactly_iff (pmm : PmmState) (start regionEnd : Nat) :
    ReservesExactly pmm start regionEnd ↔
      ∀ frame < pmm.frameCount, frameUsed pmm frame = false →
        (regionReserves (start, regionEnd) frame = true ↔ Touches frame (start, regionEnd)) := by
  have marked := reserve_region_marked pmm (start, regionEnd)
  constructor
  · rintro ⟨_, exactly⟩ frame inside unused
    have here := exactly frame
    rw [marked.used frame inside, unused, Bool.or_false] at here
    simpa [inside] using here
  · intro agree
    refine ⟨marked.frameCount, fun frame => ?_⟩
    by_cases inside : frame < pmm.frameCount
    · rw [marked.used frame inside, Bool.or_eq_true]
      cases used : frameUsed pmm frame with
      | true => simp
      | false => simp [inside, agree frame inside used]
    · rw [reserve_region_outside pmm start regionEnd (Nat.not_lt.mp inside)]
      simp [inside]

theorem region_reserves_iff {start regionEnd : Nat} (ordered : start < regionEnd) (frame : Nat) :
    regionReserves (start, regionEnd) frame = true ↔
      addrToFrame start ≤ frame ∧ frame < reserveEndFrame regionEnd := by
  simp [regionReserves, ordered]

theorem rounded_reserves_iff {start regionEnd : Nat} (ordered : start < regionEnd)
    (rounded : regionEnd ≤ lastRoundedEnd) (frame : Nat) :
    (regionReserves (start, regionEnd) frame = true ↔ Touches frame (start, regionEnd)) ↔
      frame ≠ addrToFrame (regionEnd - 1) + 1 := by
  have monotone : addrToFrame start ≤ addrToFrame (regionEnd - 1) :=
    Nat.div_le_div_right (by omega)
  rw [region_reserves_iff ordered, touches_iff ordered, reserve_end_frame_rounded ordered rounded]
  omega

theorem wrapped_reserves_iff {start regionEnd : Nat} (ordered : start < regionEnd)
    (word : regionEnd < 2 ^ 32) (wrapped : lastRoundedEnd < regionEnd) {frame : Nat}
    (managed : frame < pmmMaxFrames) :
    (regionReserves (start, regionEnd) frame = true ↔ Touches frame (start, regionEnd)) ↔
      (addrToFrame start ≤ frame → frame = 0) := by
  have within : frame ≤ addrToFrame (regionEnd - 1) := by
    simp only [lastRoundedEnd] at wrapped
    simp only [pmmMaxFrames] at managed
    simp only [addrToFrame, pageSize]
    omega
  rw [region_reserves_iff ordered, touches_iff ordered, reserve_end_frame_wrapped word wrapped]
  omega

/-- A byte range reserves exactly its own frames if and only if the surplus frame
of the rounding makes no difference. -/
theorem reserve_region_exact_iff (pmm : PmmState) (start : Nat) {regionEnd : Nat}
    (endWord : regionEnd < 2 ^ 32) :
    ReservesExactly pmm start regionEnd ↔ SurplusUsed pmm start regionEnd := by
  rw [reserves_exactly_iff, SurplusUsed]
  by_cases empty : regionEnd ≤ start
  · rw [if_pos empty]
    refine iff_of_true (fun frame _ _ => ?_) trivial
    simp [regionReserves, Nat.not_lt.mpr empty, touches_empty empty frame]
  have ordered : start < regionEnd := Nat.not_le.mp empty
  rw [if_neg empty]
  by_cases rounded : regionEnd ≤ lastRoundedEnd
  · rw [if_pos rounded]
    constructor
    · intro agree inside
      by_contra unused
      have right := agree _ inside (by simpa using unused)
      exact (rounded_reserves_iff ordered rounded _).mp right rfl
    · intro surplus frame inside unused
      rw [rounded_reserves_iff ordered rounded]
      rintro rfl
      simp [surplus inside] at unused
  · rw [if_neg rounded]
    have wrapped := Nat.not_le.mp rounded
    constructor
    · intro agree frame lower positive inside
      by_contra unused
      have right := agree frame inside (by simpa using unused)
      have managed := Nat.lt_of_lt_of_le inside pmm.bounded
      have zero := (wrapped_reserves_iff ordered endWord wrapped managed).mp right lower
      exact absurd zero (Nat.ne_of_gt positive)
    · intro surplus frame inside unused
      rw [wrapped_reserves_iff ordered endWord wrapped (Nat.lt_of_lt_of_le inside pmm.bounded)]
      intro lower
      by_contra nonzero
      have used := surplus frame lower (Nat.pos_of_ne_zero nonzero) inside
      simp [unused] at used

def freeFrames : PmmState where
  bitmap := fun _ => 0
  frameCount := 16
  usedCount := 0
  bounded := by decide

/-- The last page has no frame behind it, so it is reserved exactly; the first is not. -/
theorem reserve_region_exact_iff_one_page :
    ReservesExactly freeFrames 0xF000 0x10000 ∧ ¬SurplusUsed freeFrames 0 0x1000 ∧
      (ReservesExactly freeFrames 0 0x1000 ↔ SurplusUsed freeFrames 0 0x1000) := by
  have last : SurplusUsed freeFrames 0xF000 0x10000 := fun behind => absurd behind (by decide)
  have first : ¬SurplusUsed freeFrames 0 0x1000 := fun used =>
    Bool.false_ne_true (used (by decide))
  exact ⟨(reserve_region_exact_iff freeFrames 0xF000 (by decide)).mpr last, first,
    reserve_region_exact_iff freeFrames 0 (by decide)⟩

/-- The range of the first page reserves the second page too. -/
theorem one_page_reserves_two : ¬ReservesExactly freeFrames 0 0x1000 := by
  intro exactly
  have here := exactly.2 1
  have reserved : frameUsed (pmmReserveRegion freeFrames 0 0x1000) 1 = true := by decide
  rcases here.mp reserved with ⟨_, byte, _, upper, page⟩ | used
  · simp only [pageSize] at upper page
    omega
  · exact absurd used (by decide)

end SimplyOs.PmmRegions
