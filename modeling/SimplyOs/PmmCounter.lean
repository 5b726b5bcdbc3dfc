import SimplyOs.PmmOwnership
import SimplyOs.Library.CheckedRun

/-!
# The frame counter and the bounds of the bitmap

The allocator once more, with nothing known of its frame count: an access outside
the 4096 bytes of the bitmap is a fault, and so is a counter that would wrap. No
sequence of calls faults, and in all of them the counter is the number of set bits
among the managed frames.
-/

namespace SimplyOs.PmmCounter

open SimplyOs.Word SimplyOs.Multiboot SimplyOs.Pmm SimplyOs.PmmFrames SimplyOs.PmmOwnership
open SimplyOs.Library.ByteBitmap SimplyOs.Library.CheckedRun

set_option autoImplicit false

/-- The static variables, without a bound on the frame count. -/
structure PmmVariables where
  bitmap : Bitmap bitmapBytes
  frameCount : Nat
  usedCount : Nat

def zeroVariables : PmmVariables where
  bitmap := fun _ => 0
  frameCount := 0
  usedCount := 0

/-! ## Checked accesses -/

def loadByte (pmm : PmmVariables) (index : Nat) : Option UInt8 :=
  if inside : index < bitmapBytes then some (pmm.bitmap ⟨index, inside⟩) else none

def storeByte (pmm : PmmVariables) (index : Nat) (value : UInt8) : Option PmmVariables :=
  if inside : index < bitmapBytes then
    some { pmm with bitmap := Function.update pmm.bitmap ⟨index, inside⟩ value }
  else none

def fillBitmap (pmm : PmmVariables) (count : Nat) : Option PmmVariables :=
  if count ≤ bitmapBytes then some { pmm with bitmap := fillBytes pmm.bitmap count } else none

def countUp (pmm : PmmVariables) : Option PmmVariables :=
  if pmm.usedCount + 1 < 2 ^ 32 then some { pmm with usedCount := pmm.usedCount + 1 } else none

def countDown (pmm : PmmVariables) : Option PmmVariables :=
  if 0 < pmm.usedCount then some { pmm with usedCount := pmm.usedCount - 1 } else none

/-! ## The functions of `pmm.c` -/

def checkedSetUsed (pmm : PmmVariables) (frame : Nat) (used : Bool) : Option PmmVariables :=
  if frame ≥ pmm.frameCount then some pmm
  else do
    let byte ← loadByte pmm (frame / 8)
    if used then do
      let pmm ← if !hasBit byte (frame % 8) then countUp pmm else some pmm
      storeByte pmm (frame / 8) (byte ||| bitMask (frame % 8))
    else do
      let pmm ← if hasBit byte (frame % 8) then countDown pmm else some pmm
      storeByte pmm (frame / 8) (byte &&& ~~~bitMask (frame % 8))

def checkedSetFrames (pmm : PmmVariables) (startFrame endFrame : Nat) (used : Bool) :
    Option PmmVariables :=
  (List.range' startFrame (min endFrame pmm.frameCount - startFrame)).foldlM
    (fun pmm frame => checkedSetUsed pmm frame used) pmm

def checkedReserveRegion (pmm : PmmVariables) (start regionEnd : Nat) : Option PmmVariables :=
  if regionEnd ≤ start then some pmm
  else checkedSetFrames pmm (addrToFrame start) (reserveEndFrame regionEnd) true

def checkedApplyEntry (state : PmmVariables × Bool) (entry : MmapEntry) :
    Option (PmmVariables × Bool) :=
  let startFrame := regionStartFrame entry.addr
  let endFrame := regionEndFrame entry.addr entry.len
  if pmmRegionUsable entry.type then
    (checkedSetFrames state.1 startFrame endFrame false).map fun pmm => (pmm, true)
  else (checkedSetFrames state.1 startFrame endFrame true).map fun pmm => (pmm, state.2)

def checkedFallback (boot : BootInfo) (state : PmmVariables × Bool) : Option PmmVariables :=
  if !state.2 && boot.mbMemUpperKb != 0 then
    checkedSetFrames state.1 (regionStartFrame kernelPhysicalStart)
      (regionEndFrame kernelPhysicalStart (memUpperBytes boot)) false
  else some state.1

def checkedReserveKernel (layout : BootLayout) (pmm : PmmVariables) : Option PmmVariables := do
  let pmm ← checkedSetUsed pmm 0 true
  (reservedRegions layout).foldlM (fun pmm region => checkedReserveRegion pmm region.1 region.2) pmm

def checkedInit (layout : BootLayout) (boot : BootInfo) (pmm : PmmVariables) :
    Option PmmVariables :=
  if !boot.mbValid then some pmm
  else
    let pmm := { pmm with frameCount := pmmFrameCount boot }
    if pmm.frameCount = 0 then some pmm
    else do
      let pmm ← fillBitmap pmm ((pmm.frameCount + 7) / 8)
      let pmm := { pmm with usedCount := pmm.frameCount }
      let state ← (multibootMmap boot).foldlM checkedApplyEntry (pmm, false)
      let pmm ← checkedFallback boot state
      checkedReserveKernel layout pmm

def checkedFindFrame (pmm : PmmVariables) : List Nat → Option (Option Nat)
  | [] => some none
  | frame :: frames => do
      let byte ← loadByte pmm (frame / 8)
      if !hasBit byte (frame % 8) then some (some frame) else checkedFindFrame pmm frames

def checkedAllocFrame (pmm : PmmVariables) : Option (Nat × PmmVariables) := do
  match ← checkedFindFrame pmm (List.range' 1 (pmm.frameCount - 1)) with
  | some frame => do
      let pmm ← checkedSetUsed pmm frame true
      some (frame * pageSize, pmm)
  | none => some (0, pmm)

def checkedFreeFrame (pmm : PmmVariables) (frame : Nat) : Option PmmVariables :=
  if frame = 0 ∨ frame % pageSize ≠ 0 then some pmm
  else checkedSetUsed pmm (addrToFrame frame) false

def totalFrames (pmm : PmmVariables) : Nat := pmm.frameCount

def usedFrameCount (pmm : PmmVariables) : Nat := pmm.usedCount

def freeFrames (pmm : PmmVariables) : Nat :=
  if pmm.frameCount < pmm.usedCount then 0 else pmm.frameCount - pmm.usedCount

/-! ## Runs -/

/-- `free` with any argument, `init` with any boot information, in any order. -/
inductive PmmRequest where
  | alloc
  | free (frame : Nat)
  | init (layout : BootLayout) (boot : BootInfo)

def checkedRequest (pmm : PmmVariables) : PmmRequest → Option PmmVariables
  | .alloc => (checkedAllocFrame pmm).map Prod.snd
  | .free frame => checkedFreeFrame pmm frame
  | .init layout boot => checkedInit layout boot pmm

def checkedRequests (requests : List PmmRequest) : Option PmmVariables :=
  requests.foldlM checkedRequest zeroVariables

def bitSet (pmm : PmmVariables) (frame : Nat) : Bool :=
  if inside : frame / 8 < bitmapBytes then hasBit (pmm.bitmap ⟨frame / 8, inside⟩) (frame % 8)
  else false

def setBits (pmm : PmmVariables) : Nat :=
  ((Finset.range pmm.frameCount).filter fun frame => bitSet pmm frame = true).card

/-! ## No operation faults -/

def statics (pmm : PmmState) : PmmVariables where
  bitmap := pmm.bitmap
  frameCount := pmm.frameCount
  usedCount := pmm.usedCount

theorem load_byte_eq (pmm : PmmState) {frame : Nat} (stored : frame < 8 * bitmapBytes) :
    loadByte (statics pmm) (frame / 8) = some (pmm.bitmap (byteOf ⟨frame, stored⟩)) := by
  have inside : frame / 8 < bitmapBytes := Nat.div_lt_of_lt_mul stored
  rw [loadByte, dif_pos inside]
  rfl

theorem store_byte_eq (pmm : PmmVariables) {frame : Nat} (stored : frame < 8 * bitmapBytes)
    (value : UInt8) : storeByte pmm (frame / 8) value =
      some { pmm with bitmap := Function.update pmm.bitmap (byteOf ⟨frame, stored⟩) value } := by
  have inside : frame / 8 < bitmapBytes := Nat.div_lt_of_lt_mul stored
  rw [storeByte, dif_pos inside]
  rfl

theorem counter_bounds {pmm : PmmState} (counted : Counted pmm) :
    pmm.usedCount ≤ pmm.frameCount ∧ pmm.frameCount ≤ 32768 := by
  have bounded := pmm.bounded
  simp only [pmmMaxFrames] at bounded
  rw [counted]
  exact ⟨used_frames_card_le pmm, bounded⟩

theorem counter_positive {pmm : PmmState} (counted : Counted pmm) {frame : Nat}
    (inside : frame < pmm.frameCount) (used : frameUsed pmm frame = true) :
    0 < pmm.usedCount := by
  rw [counted]
  exact Finset.card_pos.mpr ⟨frame, mem_used_frames.mpr ⟨inside, used⟩⟩

/-- The checked result has no fault, is that of the allocator, and counts right. -/
abbrev Exact (checked : Option PmmVariables) (pmm : PmmState) : Prop :=
  Agrees statics Counted checked pmm

section Operations

variable {pmm : PmmState} (counted : Counted pmm)

include counted

theorem count_up_eq : countUp (statics pmm) =
    some { statics pmm with usedCount := add32 pmm.usedCount 1 } := by
  obtain ⟨used, bounded⟩ := counter_bounds counted
  have room : pmm.usedCount + 1 < 2 ^ 32 := by omega
  have same : (statics pmm).usedCount = pmm.usedCount := rfl
  rw [countUp, same, if_pos room, add32_eq room]

theorem count_down_eq {frame : Nat} (inside : frame < pmm.frameCount)
    (used : frameUsed pmm frame = true) : countDown (statics pmm) =
      some { statics pmm with usedCount := sub32 pmm.usedCount 1 } := by
  have positive := counter_positive counted inside used
  obtain ⟨room, bounded⟩ := counter_bounds counted
  have same : (statics pmm).usedCount = pmm.usedCount := rfl
  rw [countDown, same, if_pos positive, sub32_eq positive (by omega)]

theorem set_used_exact (frame : Nat) (used : Bool) :
    Exact (checkedSetUsed (statics pmm) frame used) (pmmSetUsed pmm frame used) := by
  refine ⟨?_, counted_set pmm frame used counted⟩
  unfold checkedSetUsed
  by_cases inside : frame < pmm.frameCount
  · have managed : ¬frame ≥ (statics pmm).frameCount := Nat.not_le.mpr inside
    have stored := frame_inside_bitmap pmm inside
    have bit : hasBit (pmm.bitmap (byteOf ⟨frame, stored⟩)) (frame % 8) =
        getBit pmm.bitmap ⟨frame, stored⟩ := rfl
    have isUsed : frameUsed pmm frame = getBit pmm.bitmap ⟨frame, stored⟩ := by
      rw [frameUsed, dif_pos stored]
    rw [if_neg managed, load_byte_eq pmm stored]
    simp only [bind, Option.bind_some, bit, pmmSetUsed, dif_pos inside, store_byte_eq _ stored]
    cases used with
    | true =>
        cases set : getBit pmm.bitmap ⟨frame, stored⟩ with
        | true => rfl
        | false =>
            simp only [Bool.not_false, if_true, count_up_eq counted, Option.bind_some]
            rfl
    | false =>
        cases set : getBit pmm.bitmap ⟨frame, stored⟩ with
        | true =>
            rw [set] at isUsed
            simp only [if_true, Bool.false_eq_true, if_false, count_down_eq counted inside isUsed,
              Option.bind_some]
            rfl
        | false => rfl
  · have outside : frame ≥ (statics pmm).frameCount := Nat.not_lt.mp inside
    rw [if_pos outside, pmmSetUsed, dif_neg inside]

theorem set_frames_exact (startFrame endFrame : Nat) (used : Bool) :
    Exact (checkedSetFrames (statics pmm) startFrame endFrame used)
      (pmmSetFrames pmm startFrame endFrame used) :=
  agrees_fold (fun frame _ counted => set_used_exact counted frame used) _ counted

theorem reserve_region_exact (start regionEnd : Nat) :
    Exact (checkedReserveRegion (statics pmm) start regionEnd)
      (pmmReserveRegion pmm start regionEnd) := by
  unfold checkedReserveRegion pmmReserveRegion
  by_cases empty : regionEnd ≤ start
  · rw [if_pos empty, if_pos empty]
    exact agrees_some counted
  · rw [if_neg empty, if_neg empty]
    exact set_frames_exact counted _ _ true

theorem reserve_kernel_exact (layout : BootLayout) :
    Exact (checkedReserveKernel layout (statics pmm)) (pmmReserveKernel layout pmm) := by
  have first := set_used_exact counted 0 true
  exact agrees_bind first
    (agrees_fold (fun region _ counted => reserve_region_exact counted region.1 region.2) _ first.2)

end Operations

/-! ## `pmm_init` -/

theorem apply_entry_exact (entry : MmapEntry) (state : PmmState × Bool)
    (counted : Counted state.1) :
    Agrees (fun state : PmmState × Bool => (statics state.1, state.2))
      (fun state => Counted state.1) (checkedApplyEntry (statics state.1, state.2) entry)
      (pmmApplyEntry state entry) := by
  unfold checkedApplyEntry pmmApplyEntry
  cases pmmRegionUsable entry.type with
  | true =>
      obtain ⟨done, after⟩ := set_frames_exact counted (regionStartFrame entry.addr)
        (regionEndFrame entry.addr entry.len) false
      simp only [if_true, done, Option.map_some]
      exact ⟨rfl, after⟩
  | false =>
      obtain ⟨done, after⟩ := set_frames_exact counted (regionStartFrame entry.addr)
        (regionEndFrame entry.addr entry.len) true
      simp only [Bool.false_eq_true, if_false, done, Option.map_some]
      exact ⟨rfl, after⟩

theorem fallback_exact (boot : BootInfo) {state : PmmState × Bool} (counted : Counted state.1) :
    Exact (checkedFallback boot (statics state.1, state.2)) (pmmFallback boot state) := by
  unfold checkedFallback pmmFallback
  cases !state.2 && boot.mbMemUpperKb != 0 with
  | true => exact set_frames_exact counted _ _ false
  | false => exact agrees_some counted

theorem fill_bitmap_eq (pmm : PmmState) (boot : BootInfo) :
    fillBitmap { statics pmm with frameCount := pmmFrameCount boot }
        ((pmmFrameCount boot + 7) / 8) =
      some { statics (pmmAllUsed pmm boot) with usedCount := pmm.usedCount } := by
  have bounded := pmm_frame_count_le boot
  have inside : (pmmFrameCount boot + 7) / 8 ≤ bitmapBytes := by
    simp only [pmmMaxFrames] at bounded
    simp only [bitmapBytes]
    omega
  rw [fillBitmap, if_pos inside]
  rfl

theorem init_exact (layout : BootLayout) (boot : BootInfo) {pmm : PmmState}
    (counted : Counted pmm) :
    Exact (checkedInit layout boot (statics pmm)) (pmmInit layout boot pmm) := by
  unfold checkedInit pmmInit
  cases boot.mbValid with
  | false => exact agrees_some counted
  | true =>
      have positive := pmm_frame_count_pos boot
      have all := (all_used_marked pmm boot).2
      have start : Counted (pmmAllUsed pmm boot, false).1 := all
      have entries := agrees_fold apply_entry_exact (multibootMmap boot) start
      have rest := fallback_exact boot entries.2
      simp only [Bool.not_true, Bool.false_eq_true, if_false, positive, fill_bitmap_eq, bind,
        Option.bind_some]
      have filled : ({ statics (pmmAllUsed pmm boot) with
          usedCount := (statics (pmmAllUsed pmm boot)).frameCount } : PmmVariables) =
            statics (pmmAllUsed pmm boot) := rfl
      rw [filled, entries.1, Option.bind_some]
      exact agrees_bind rest (reserve_kernel_exact rest.2 layout)

/-! ## Allocation -/

theorem find_frame_exact (pmm : PmmState) (frames : List Nat)
    (stored : ∀ frame ∈ frames, frame < 8 * bitmapBytes) :
    checkedFindFrame (statics pmm) frames =
      some (frames.find? fun frame => !frameUsed pmm frame) := by
  induction frames with
  | nil => rfl
  | cons frame frames ih =>
      have here := stored frame List.mem_cons_self
      have later := ih fun other member => stored other (List.mem_cons_of_mem frame member)
      have bit : hasBit (pmm.bitmap (byteOf ⟨frame, here⟩)) (frame % 8) = frameUsed pmm frame := by
        rw [frameUsed, dif_pos here]
        rfl
      rw [checkedFindFrame, load_byte_eq pmm here]
      simp only [bind, Option.bind_some, bit]
      rw [later, List.find?_cons]
      cases frameUsed pmm frame with
      | true => rfl
      | false => rfl

theorem alloc_frame_exact {pmm : PmmState} (counted : Counted pmm) :
    checkedAllocFrame (statics pmm) =
        some ((pmmAllocFrame pmm).1, statics (pmmAllocFrame pmm).2) ∧
      Counted (pmmAllocFrame pmm).2 := by
  have stored : ∀ frame ∈ List.range' 1 (pmm.frameCount - 1), frame < 8 * bitmapBytes := by
    intro frame member
    rw [List.mem_range'_1] at member
    exact frame_inside_bitmap pmm (by omega)
  have search : checkedFindFrame (statics pmm) (List.range' 1 ((statics pmm).frameCount - 1)) =
      some (pmmFindFrame pmm) := find_frame_exact pmm _ stored
  unfold checkedAllocFrame pmmAllocFrame
  rw [search]
  cases pmmFindFrame pmm with
  | none => exact ⟨rfl, counted⟩
  | some frame =>
      obtain ⟨done, after⟩ := set_used_exact counted frame true
      refine ⟨?_, after⟩
      simp only [bind, Option.bind_some, done]

theorem free_frame_exact {pmm : PmmState} (counted : Counted pmm) (frame : Nat) :
    Exact (checkedFreeFrame (statics pmm) frame) (pmmFreeFrame pmm frame) := by
  unfold checkedFreeFrame pmmFreeFrame
  by_cases refused : frame = 0 ∨ frame % pageSize ≠ 0
  · rw [if_pos refused, if_pos refused]
    exact agrees_some counted
  · rw [if_neg refused, if_neg refused]
    exact set_used_exact counted _ false

/-! ## Every sequence of calls -/

/-- A call on the allocator of the typed model. -/
def pmmRequest (pmm : PmmState) : PmmRequest → PmmState
  | .alloc => (pmmAllocFrame pmm).2
  | .free frame => pmmFreeFrame pmm frame
  | .init layout boot => pmmInit layout boot pmm

theorem request_exact (request : PmmRequest) (pmm : PmmState) (counted : Counted pmm) :
    Exact (checkedRequest (statics pmm) request) (pmmRequest pmm request) := by
  cases request with
  | alloc =>
      obtain ⟨done, after⟩ := alloc_frame_exact counted
      refine ⟨?_, after⟩
      rw [checkedRequest, done]
      rfl
  | free frame => exact free_frame_exact counted frame
  | init layout boot => exact init_exact layout boot counted

theorem boot_counted : Counted pmmBoot := rfl

theorem requests_exact (requests : List PmmRequest) :
    Exact (checkedRequests requests) (requests.foldl pmmRequest pmmBoot) :=
  agrees_fold request_exact requests boot_counted

theorem set_bits_eq (pmm : PmmState) : setBits (statics pmm) = (usedFrames pmm).card := by
  unfold setBits usedFrames
  apply congrArg Finset.card
  apply Finset.filter_congr
  intro frame member
  have stored := frame_inside_bitmap pmm (Finset.mem_range.mp member)
  have byte : frame / 8 < bitmapBytes := Nat.div_lt_of_lt_mul stored
  rw [bitSet, dif_pos byte, frameUsed, dif_pos stored]
  rfl

/-- After every sequence of calls, none of which leaves the bitmap or lets the
counter wrap, the counter is the number of set bits among the managed frames, and
used and free frames make up all of them. -/
theorem frame_counter_exact (requests : List PmmRequest) :
    ∃ pmm, checkedRequests requests = some pmm ∧ usedFrameCount pmm = setBits pmm ∧
      usedFrameCount pmm + freeFrames pmm = totalFrames pmm := by
  obtain ⟨done, counted⟩ := requests_exact requests
  obtain ⟨bounded, _⟩ := counter_bounds counted
  refine ⟨_, done, ?_, ?_⟩
  · rw [set_bits_eq]
    exact counted
  · have ordered : ¬(statics (requests.foldl pmmRequest pmmBoot)).frameCount <
        (statics (requests.foldl pmmRequest pmmBoot)).usedCount := Nat.not_lt.mpr bounded
    rw [freeFrames, if_neg ordered]
    exact Nat.add_sub_cancel' bounded

end SimplyOs.PmmCounter
