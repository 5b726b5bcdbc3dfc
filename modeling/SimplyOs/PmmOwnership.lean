import SimplyOs.PmmFrames
import SimplyOs.Library.Transition

/-!
# Exclusive ownership of physical frames

Clients of `pmm.c` allocate frames and give back, once, what they were given. A
live frame is marked used and not reserved, so that no later allocation returns
it; the reserved frames are marked by `pmm_init` and never given to a client.
-/

namespace SimplyOs.PmmOwnership

open SimplyOs.Word SimplyOs.Multiboot SimplyOs.Pmm SimplyOs.PmmFrames
open SimplyOs.Library.Transition

set_option autoImplicit false

/-! ## Byte ranges and frames -/

def Touches (frame : Nat) (range : Nat × Nat) : Prop :=
  ∃ byte, range.1 ≤ byte ∧ byte < range.2 ∧ byte / pageSize = frame

/-- The kernel image, the boot page directory and table, the boot stack and the
bitmap, by physical address. -/
def kernelRanges (layout : BootLayout) : List (Nat × Nat) :=
  [(kernelPhysicalStart, layout.kernelEnd - kernelVirtualBase),
    (layout.bootPageDirectory - kernelVirtualBase,
      layout.bootPageTable1 - kernelVirtualBase + pageSize),
    (layout.stackBottom - kernelVirtualBase, layout.stackTop - kernelVirtualBase),
    (layout.pmmBitmap - kernelVirtualBase, layout.pmmBitmap - kernelVirtualBase + bitmapBytes)]

theorem reserved_regions_eq (layout : BootLayout) :
    reservedRegions layout = kernelRanges layout := by
  have mapped := layout.mapped
  simp only [List.mem_cons, List.not_mem_nil, or_false, forall_eq_or_imp, forall_eq,
    kernelVirtualBase, kernelPhysicalStart, bootMapEnd] at mapped
  have phys (symbol : Nat) (low : 3221225472 ≤ symbol) (high : symbol < 3225415680) :
      virtToPhys symbol = symbol - kernelVirtualBase := sub32_eq low (by omega)
  have page (symbol size : Nat) (high : symbol < 3225415680) (small : size ≤ 4096) :
      add32 (symbol - kernelVirtualBase) size = symbol - kernelVirtualBase + size :=
    add32_eq (by simp only [kernelVirtualBase]; omega)
  rw [reservedRegions, kernelRanges, phys _ (by omega) (by omega), phys _ (by omega) (by omega),
    phys _ (by omega) (by omega), phys _ (by omega) (by omega), phys _ (by omega) (by omega),
    phys _ (by omega) (by omega), page _ _ (by omega) (by decide), page _ _ (by omega) (by decide)]

theorem kernel_ranges_bounds (layout : BootLayout) {range : Nat × Nat}
    (member : range ∈ kernelRanges layout) :
    kernelPhysicalStart ≤ range.1 ∧ range.1 < range.2 ∧ range.2 ≤ 0x00401000 := by
  have mapped := layout.mapped
  have kernel := layout.kernelFilled
  have pages := layout.pagesOrdered
  have stack := layout.stackOrdered
  simp only [List.mem_cons, List.not_mem_nil, or_false, forall_eq_or_imp, forall_eq,
    kernelVirtualBase, kernelPhysicalStart, bootMapEnd, pageSize] at mapped kernel pages
  simp only [kernelRanges, List.mem_cons, List.not_mem_nil, or_false] at member
  rcases member with rfl | rfl | rfl | rfl
  · simp only [kernelVirtualBase, kernelPhysicalStart]
    omega
  · simp only [kernelVirtualBase, kernelPhysicalStart, pageSize]
    omega
  · simp only [kernelVirtualBase, kernelPhysicalStart]
    omega
  · simp only [kernelVirtualBase, kernelPhysicalStart, bitmapBytes]
    omega

theorem reserve_end_frame_eq {regionEnd : Nat} (small : regionEnd ≤ 0x00401000) :
    reserveEndFrame regionEnd = (regionEnd + 4095) / 4096 + 1 := by
  rw [reserveEndFrame, pageSize, add32_eq (by omega), addrToFrame, pageSize]

theorem touched_reserved (layout : BootLayout) {frame : Nat} {range : Nat × Nat}
    (member : range ∈ kernelRanges layout) (touches : Touches frame range) :
    frameReserved layout frame = true := by
  obtain ⟨_, ordered, high⟩ := kernel_ranges_bounds layout member
  obtain ⟨byte, lower, upper, rfl⟩ := touches
  have reserves : regionReserves range (byte / pageSize) = true := by
    simp only [regionReserves, Bool.and_eq_true, decide_eq_true_eq, reserve_end_frame_eq high]
    simp only [addrToFrame, pageSize]
    omega
  rw [frameReserved, reserved_regions_eq, Bool.or_eq_true, List.any_eq_true]
  exact Or.inr ⟨range, member, reserves⟩

/-! ## One call -/

def Available (pmm : PmmState) (frame : Nat) : Prop :=
  0 < frame ∧ frame < pmm.frameCount ∧ frameUsed pmm frame = false

/-- The lowest available frame is returned, or 0 when there is none. -/
theorem pmm_alloc_frame_spec (pmm : PmmState) :
    (∃ frame, Available pmm frame ∧
      pmmAllocFrame pmm = (frame * pageSize, pmmSetUsed pmm frame true)) ∨
    (∀ frame, ¬Available pmm frame) ∧ pmmAllocFrame pmm = (0, pmm) := by
  have range (frame : Nat) : frame ∈ List.range' 1 (pmm.frameCount - 1) ↔
      0 < frame ∧ frame < pmm.frameCount := by
    rw [List.mem_range'_1]
    omega
  cases found : pmmFindFrame pmm with
  | some frame =>
      have member := (range frame).mp (List.mem_of_find?_eq_some found)
      have unused := List.find?_some found
      refine Or.inl ⟨frame, ⟨member.1, member.2, by simpa using unused⟩, ?_⟩
      rw [pmmAllocFrame, found]
  | none =>
      refine Or.inr ⟨?_, by rw [pmmAllocFrame, found]⟩
      rintro frame ⟨positive, inside, unused⟩
      have used := List.find?_eq_none.mp found frame ((range frame).mpr ⟨positive, inside⟩)
      simp [unused] at used

theorem pmm_free_frame_eq (pmm : PmmState) {frame : Nat} (positive : 0 < frame) :
    pmmFreeFrame pmm (frame * pageSize) = pmmSetUsed pmm frame false := by
  have address : ¬(frame * pageSize = 0 ∨ frame * pageSize % pageSize ≠ 0) := by
    simp only [pageSize]
    omega
  have back : addrToFrame (frame * pageSize) = frame := Nat.mul_div_cancel _ (by decide)
  rw [pmmFreeFrame, if_neg address, back]

/-! ## Runs -/

structure PmmRun where
  pmm : PmmState
  live : List Nat

inductive PmmCall where
  | alloc
  | free (address : Nat)

inductive PmmStep : PmmRun → PmmCall → PmmRun → Prop where
  | alloc {run : PmmRun} :
      PmmStep run .alloc
        ⟨(pmmAllocFrame run.pmm).2,
          if (pmmAllocFrame run.pmm).1 = 0 then run.live
          else (pmmAllocFrame run.pmm).1 :: run.live⟩
  | free {run : PmmRun} {address : Nat} (owned : address ∈ run.live) :
      PmmStep run (.free address) ⟨pmmFreeFrame run.pmm address, run.live.erase address⟩

def pmmRuns (layout : BootLayout) (boot : BootInfo) : System PmmRun PmmCall where
  initial run := run.pmm = pmmInit layout boot pmmBoot ∧ run.live = []
  step := PmmStep

/-- What a call leads to, where the client may make it. -/
def pmmServe (run : PmmRun) : PmmCall → Option PmmRun
  | .alloc =>
      some ⟨(pmmAllocFrame run.pmm).2,
        if (pmmAllocFrame run.pmm).1 = 0 then run.live
        else (pmmAllocFrame run.pmm).1 :: run.live⟩
  | .free address =>
      if address ∈ run.live then some ⟨pmmFreeFrame run.pmm address, run.live.erase address⟩
      else none

theorem pmm_serve_step {before after : PmmRun} {call : PmmCall}
    (served : pmmServe before call = some after) : PmmStep before call after := by
  cases call with
  | alloc =>
      obtain rfl := Option.some.inj served
      exact .alloc
  | free address =>
      rw [pmmServe, Option.ite_none_right_eq_some] at served
      obtain ⟨owned, same⟩ := served
      obtain rfl := Option.some.inj same
      exact .free owned

def Owned (layout : BootLayout) (pmm : PmmState) (address : Nat) : Prop :=
  ∃ frame, address = frame * pageSize ∧ 0 < frame ∧ frame < pmm.frameCount ∧
    frameUsed pmm frame = true ∧ frameReserved layout frame = false

structure PmmInvariant (layout : BootLayout) (run : PmmRun) : Prop where
  counted : Counted run.pmm
  reserved : ∀ frame < run.pmm.frameCount, frameReserved layout frame = true →
    frameUsed run.pmm frame = true
  owned : ∀ address ∈ run.live, Owned layout run.pmm address
  distinct : run.live.Nodup

theorem invariant_initial (layout : BootLayout) (boot : BootInfo) :
    PmmInvariant layout ⟨pmmInit layout boot pmmBoot, []⟩ := by
  cases valid : boot.mbValid with
  | false =>
      have unchanged : pmmInit layout boot pmmBoot = pmmBoot := by simp [pmmInit, valid]
      rw [unchanged]
      exact ⟨rfl, fun frame inside => absurd inside (Nat.not_lt_zero frame), by simp,
        List.nodup_nil⟩
  | true =>
      obtain ⟨count, counted, used⟩ := pmm_init_used layout pmmBoot valid
      refine ⟨counted, ?_, by simp, List.nodup_nil⟩
      intro frame inside reserved
      rw [count] at inside
      rw [used frame inside, reserved, Bool.true_or]

theorem available_fresh {layout : BootLayout} {run : PmmRun} {frame : Nat}
    (invariant : PmmInvariant layout run) (available : Available run.pmm frame) :
    frameReserved layout frame = false ∧ frame * pageSize ∉ run.live := by
  obtain ⟨_, inside, unused⟩ := available
  constructor
  · by_contra reserved
    have used := invariant.reserved frame inside (by simpa using reserved)
    simp [unused] at used
  · intro member
    obtain ⟨other, same, _, _, used, _⟩ := invariant.owned _ member
    have equal : frame = other := Nat.eq_of_mul_eq_mul_right (by decide) same
    simp [← equal, unused] at used

theorem frame_address_ne_zero {frame : Nat} (positive : 0 < frame) : frame * pageSize ≠ 0 := by
  simp only [pageSize]
  omega

theorem alloc_invariant {layout : BootLayout} {run : PmmRun}
    (invariant : PmmInvariant layout run) :
    PmmInvariant layout ⟨(pmmAllocFrame run.pmm).2,
      if (pmmAllocFrame run.pmm).1 = 0 then run.live
      else (pmmAllocFrame run.pmm).1 :: run.live⟩ := by
  rcases pmm_alloc_frame_spec run.pmm with ⟨frame, ⟨positive, inside, unused⟩, result⟩ |
    ⟨_, result⟩
  · obtain ⟨unreserved, fresh⟩ := available_fresh invariant ⟨positive, inside, unused⟩
    have count := frame_count_set run.pmm frame true
    rw [result, if_neg (frame_address_ne_zero positive)]
    refine ⟨counted_set run.pmm frame true invariant.counted, ?_, ?_,
      List.nodup_cons.mpr ⟨fresh, invariant.distinct⟩⟩
    · intro other otherInside reserved
      simp only [count] at otherInside
      rw [frame_used_set run.pmm inside, invariant.reserved other otherInside reserved]
      exact ite_self true
    · intro address member
      rcases List.mem_cons.mp member with rfl | older
      · exact ⟨frame, rfl, positive, by rw [count]; exact inside,
          by rw [frame_used_set run.pmm inside, if_pos rfl], unreserved⟩
      · obtain ⟨other, same, otherPositive, otherInside, used, otherUnreserved⟩ :=
          invariant.owned address older
        refine ⟨other, same, otherPositive, by rw [count]; exact otherInside, ?_, otherUnreserved⟩
        rw [frame_used_set run.pmm inside, used]
        exact ite_self true
  · rw [result, if_pos rfl]
    exact invariant

theorem free_invariant {layout : BootLayout} {run : PmmRun} {address : Nat}
    (invariant : PmmInvariant layout run) (owned : address ∈ run.live) :
    PmmInvariant layout ⟨pmmFreeFrame run.pmm address, run.live.erase address⟩ := by
  obtain ⟨frame, rfl, positive, inside, _, unreserved⟩ := invariant.owned address owned
  have count := frame_count_set run.pmm frame false
  rw [pmm_free_frame_eq run.pmm positive]
  refine ⟨counted_set run.pmm frame false invariant.counted, ?_, ?_, invariant.distinct.erase _⟩
  · intro other otherInside reserved
    simp only [count] at otherInside
    have differ : other ≠ frame := by
      rintro rfl
      simp [unreserved] at reserved
    rw [frame_used_set run.pmm inside, if_neg differ]
    exact invariant.reserved other otherInside reserved
  · intro address member
    obtain ⟨differ, remains⟩ := (invariant.distinct.mem_erase_iff).mp member
    obtain ⟨other, rfl, otherPositive, otherInside, used, otherUnreserved⟩ :=
      invariant.owned address remains
    have otherFrame : other ≠ frame := fun same => differ (by rw [same])
    exact ⟨other, rfl, otherPositive, by rw [count]; exact otherInside,
      by rw [frame_used_set run.pmm inside, if_neg otherFrame]; exact used, otherUnreserved⟩

theorem fresh_run_reachable (layout : BootLayout) (boot : BootInfo) :
    Reachable (pmmRuns layout boot) ⟨pmmInit layout boot pmmBoot, []⟩ :=
  .start ⟨rfl, rfl⟩

theorem run_invariant {layout : BootLayout} {boot : BootInfo} {run : PmmRun}
    (reachable : Reachable (pmmRuns layout boot) run) : PmmInvariant layout run := by
  apply reachable_invariant _ _ reachable
  · rintro ⟨pmm, live⟩ ⟨rfl, rfl⟩
    exact invariant_initial layout boot
  · rintro before call after invariant taken
    cases taken with
    | alloc => exact alloc_invariant invariant
    | free owned => exact free_invariant invariant owned

/-- An address that a client may hold: a whole frame of the managed memory that
no kernel range touches. -/
structure ClientFrame (layout : BootLayout) (pmm : PmmState) (address : Nat) : Prop where
  aligned : address % pageSize = 0
  managed : address < pmmTotalFrames pmm * pageSize
  positive : address / pageSize ≠ 0
  untouched : ∀ range ∈ kernelRanges layout, ¬Touches (address / pageSize) range

theorem client_frame {layout : BootLayout} {pmm : PmmState} {frame : Nat} (positive : 0 < frame)
    (inside : frame < pmm.frameCount) (unreserved : frameReserved layout frame = false) :
    ClientFrame layout pmm (frame * pageSize) := by
  have back : frame * pageSize / pageSize = frame := Nat.mul_div_cancel _ (by decide)
  refine ⟨Nat.mul_mod_left _ _, Nat.mul_lt_mul_of_pos_right inside (by decide), ?_, ?_⟩
  · rw [back]
    exact Nat.pos_iff_ne_zero.mp positive
  · rw [back]
    intro range member touches
    have reserved := touched_reserved layout member touches
    simp [unreserved] at reserved

/-- In every run of the allocator the frames in use are distinct client frames,
the next allocation gives one that is not in use, and it gives none exactly when
every frame from 1 on is marked used. -/
theorem frames_owned_exclusively {layout : BootLayout} {boot : BootInfo} {run : PmmRun}
    (reachable : Reachable (pmmRuns layout boot) run) :
    run.live.Nodup ∧ (∀ address ∈ run.live, ClientFrame layout run.pmm address) ∧
      ((pmmAllocFrame run.pmm).1 ≠ 0 →
        ClientFrame layout run.pmm (pmmAllocFrame run.pmm).1 ∧
          (pmmAllocFrame run.pmm).1 ∉ run.live) ∧
      ((pmmAllocFrame run.pmm).1 = 0 ↔
        ∀ frame, 1 ≤ frame → frame ≤ run.pmm.frameCount - 1 →
          frameUsed run.pmm frame = true) := by
  have invariant := run_invariant reachable
  refine ⟨invariant.distinct, ?_, ?_⟩
  · intro address member
    obtain ⟨frame, rfl, positive, inside, _, unreserved⟩ := invariant.owned _ member
    exact client_frame positive inside unreserved
  rcases pmm_alloc_frame_spec run.pmm with ⟨frame, available, result⟩ | ⟨none, result⟩
  · obtain ⟨unreserved, fresh⟩ := available_fresh invariant available
    obtain ⟨positive, inside, unused⟩ := available
    rw [result]
    refine ⟨fun _ => ⟨client_frame positive inside unreserved, fresh⟩, ?_⟩
    refine ⟨fun zero => absurd zero (frame_address_ne_zero positive), fun full => ?_⟩
    have used := full frame positive (by omega)
    simp [unused] at used
  · rw [result]
    refine ⟨fun nonzero => absurd rfl nonzero, fun _ frame positive small => ?_, fun _ => rfl⟩
    by_contra unused
    exact none frame ⟨positive, by omega, by simpa using unused⟩

def smallLayout : BootLayout where
  kernelEnd := 0xC0110000
  bootPageDirectory := 0xC0108000
  bootPageTable1 := 0xC0109000
  stackBottom := 0xC010B000
  stackTop := 0xC010F000
  pmmBitmap := 0xC010A000
  mapped := by decide
  endsMapped := by decide
  kernelFilled := by decide
  pagesOrdered := by decide
  stackOrdered := by decide

def smallBoot : BootInfo where
  mbValid := true
  mbMemUpperKb := 0
  mmapStorage := fun index =>
    if index = 0 then ⟨0, 0x9FC00, memoryAvailable⟩ else ⟨0x100000, 0x300000, memoryAvailable⟩
  mmapEntryCount := 2

def smallCalls : List PmmCall := [.alloc, .alloc, .alloc, .free 0x2000]

def smallRun : PmmRun :=
  (smallCalls.foldlM pmmServe ⟨pmmInit smallLayout smallBoot pmmBoot, []⟩).get (by decide +kernel)

theorem small_run_reachable : Reachable (pmmRuns smallLayout smallBoot) smallRun :=
  reachable_can_reach (fun _ _ _ => pmm_serve_step) (fresh_run_reachable smallLayout smallBoot)
    ⟨smallCalls, (Option.some_get _).symm⟩

/-- Two frames are in use, and the one that was given back is the next. -/
theorem small_run_owned :
    smallRun.live = [0x3000, 0x1000] ∧ smallRun.live.Nodup ∧
      ClientFrame smallLayout smallRun.pmm 0x3000 ∧ ClientFrame smallLayout smallRun.pmm 0x1000 ∧
      (pmmAllocFrame smallRun.pmm).1 = 0x2000 ∧ ClientFrame smallLayout smallRun.pmm 0x2000 ∧
      0x2000 ∉ smallRun.live := by
  obtain ⟨distinct, owned, fresh, _⟩ := frames_owned_exclusively small_run_reachable
  have live : smallRun.live = [0x3000, 0x1000] := by decide +kernel
  have next : (pmmAllocFrame smallRun.pmm).1 = 0x2000 := by decide +kernel
  rw [next] at fresh
  obtain ⟨client, notLive⟩ := fresh (by decide)
  exact ⟨live, distinct, owned _ (by simp [live]), owned _ (by simp [live]), next, client, notLive⟩

end SimplyOs.PmmOwnership
