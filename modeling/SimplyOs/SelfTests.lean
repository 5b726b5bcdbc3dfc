import SimplyOs.KernelTests
import SimplyOs.FrameBudget
import SimplyOs.ShellCommands
import SimplyOs.TtyPage

/-!
# What the self tests of the allocators find

The test of the frame allocator leaves the allocator as it was, except when exactly
one frame is free: the return in front of the calls of `pmm_free_frame` keeps that
frame. The test of the mapper leaves the page map as it was but for the test page,
which it unmaps. Neither test ever reports more than a lack of frames.
-/

namespace SimplyOs.SelfTests

open SimplyOs.Word SimplyOs.Pmm SimplyOs.PmmFrames SimplyOs.PmmOwnership SimplyOs.FrameBudget
open SimplyOs.Kheap SimplyOs.Paging SimplyOs.PagingTables SimplyOs.PagingBoot SimplyOs.PageMaps
open SimplyOs.Printf SimplyOs.PrintfNumerals SimplyOs.PrintfOutput SimplyOs.Tty SimplyOs.KernelTests SimplyOs.Multiboot
open SimplyOs.MachineHeap SimplyOs.TtyBounds SimplyOs.TtyPage
open SimplyOs.Library.Transition SimplyOs.Library.ByteMemory SimplyOs.Library.PageTree

set_option autoImplicit false

/-! ## Texts -/

variable {stack : CharBuffer} {terminal : Terminal}

theorem kernel_printf_eq {format : CString} {parameters : List Argument} {output : List UInt8}
    (known : referenceFormat format.bytes parameters = some output)
    (short : output.length ≤ intMax) :
    kernelPrintf stack terminal format parameters =
      terminalReturns (terminalWrite terminal output) := by
  obtain ⟨_, _, prints⟩ := printf_prints_reference stack format parameters
  obtain ⟨result, run⟩ := prints output known short
  rw [kernelPrintf, run]
  rfl

theorem kernel_printf_text {format : CString} (plain : percent ∉ format.bytes)
    (short : format.bytes.length ≤ intMax) :
    kernelPrintf stack terminal format [] =
      terminalReturns (terminalWrite terminal format.bytes) := by
  apply kernel_printf_eq _ short
  have literal := @reference_literal format.bytes [] plain []
  rw [List.append_nil] at literal
  rw [literal, referenceFormat, Option.map_some, List.append_nil]

theorem kernel_text_shown {format : CString} (shown : OnScreen terminal)
    (plain : percent ∉ format.bytes) (noTab : 0x09 ∉ format.bytes)
    (short : format.bytes.length ≤ intMax) :
    kernelPrintf stack terminal format [] = some (terminalWrite terminal format.bytes) :=
  (kernel_printf_text plain short).trans (write_returns shown noTab)

theorem dark_terminal_shown : OnScreen darkTerminal :=
  ⟨by decide, by decide, fun _ member => absurd member List.not_mem_nil⟩

/-! ## The frame allocator -/

section Frames

variable {layout : BootLayout} {pmm : PmmState} {live : List Nat}

def pmmReport (freeFrames : Nat) : List UInt8 :=
  if freeFrames < 2 then pmmAllocFailed.bytes else pmmOk.bytes

theorem alloc_twice (first : (pmmAllocFrame pmm).1 ≠ 0)
    (second : (pmmAllocFrame (pmmAllocFrame pmm).2).1 ≠ 0) :
    (pmmAllocFrame pmm).1 ≠ (pmmAllocFrame (pmmAllocFrame pmm).2).1 := by
  rcases pmm_alloc_frame_spec pmm with ⟨a, ⟨_, inside, _⟩, taken⟩ | ⟨_, none⟩
  · rcases pmm_alloc_frame_spec (pmmAllocFrame pmm).2 with ⟨b, ⟨_, _, unused⟩, later⟩ | ⟨_, none⟩
    · intro same
      rw [later, taken] at same
      have equal : a = b := Nat.eq_of_mul_eq_mul_right (by decide) same
      rw [taken, ← equal, frame_used_set pmm inside, if_pos rfl] at unused
      contradiction
    · rw [none] at second
      exact absurd rfl second
  · rw [none] at first
    exact absurd rfl first

theorem free_first_of_two (counted : Counted pmm) (first : (pmmAllocFrame pmm).1 ≠ 0)
    (second : (pmmAllocFrame (pmmAllocFrame pmm).2).1 ≠ 0) :
    ∃ frame, Available pmm frame ∧
      (pmmAllocFrame (pmmAllocFrame pmm).2).1 = frame * pageSize ∧
      pmmFreeFrame (pmmAllocFrame (pmmAllocFrame pmm).2).2 (pmmAllocFrame pmm).1 =
        pmmSetUsed pmm frame true := by
  have apart := alloc_twice first second
  rcases pmm_alloc_frame_spec pmm with ⟨a, ⟨positive, inside, unused⟩, taken⟩ | ⟨_, none⟩
  · rcases pmm_alloc_frame_spec (pmmAllocFrame pmm).2 with
      ⟨b, ⟨otherPositive, otherInside, otherUnused⟩, later⟩ | ⟨_, none⟩
    · rw [later, taken] at apart
      have differ : b ≠ a := fun same => apart (by rw [same])
      rw [taken] at later otherInside otherUnused
      rw [frame_count_set] at otherInside
      rw [frame_used_set pmm inside, if_neg differ] at otherUnused
      refine ⟨b, ⟨otherPositive, otherInside, otherUnused⟩, by rw [taken, later], ?_⟩
      rw [taken, later, pmm_free_frame_eq _ positive]
      apply pmm_state_ext
      · simp only [frame_count_set]
      · exact counted_set _ _ _ (counted_set _ _ _ (counted_set _ _ _ counted))
      · exact counted_set _ _ _ counted
      · intro frame
        rw [frame_used_set _ (by simpa only [frame_count_set] using inside),
          frame_used_set _ (by simpa only [frame_count_set] using otherInside),
          frame_used_set _ inside, frame_used_set _ otherInside]
        by_cases isA : frame = a
        · rw [if_pos isA, isA, if_neg differ.symm, unused]
        · rw [if_neg isA, if_neg isA]
    · rw [none] at second
      exact absurd rfl second
  · rw [none] at first
    exact absurd rfl first

theorem free_two_same (counted : Counted pmm) (first : (pmmAllocFrame pmm).1 ≠ 0)
    (second : (pmmAllocFrame (pmmAllocFrame pmm).2).1 ≠ 0) :
    pmmFreeFrame (pmmFreeFrame (pmmAllocFrame (pmmAllocFrame pmm).2).2 (pmmAllocFrame pmm).1)
      (pmmAllocFrame (pmmAllocFrame pmm).2).1 = pmm := by
  obtain ⟨frame, ⟨positive, inside, unused⟩, taken, freed⟩ := free_first_of_two counted first second
  rw [freed, taken, pmm_free_frame_eq _ positive, set_used_back pmm inside unused counted]

theorem pmm_self_test_eq (invariant : PmmInvariant layout ⟨pmm, live⟩)
    (shown : OnScreen terminal) :
    pmmSelfTest stack terminal pmm =
      some (terminalWrite terminal (pmmReport (pmmFreeFrames pmm)),
        if pmmFreeFrames pmm = 1 then (pmmAllocFrame pmm).2 else pmm) := by
  have failed : kernelPrintf stack terminal pmmAllocFailed [] =
      some (terminalWrite terminal pmmAllocFailed.bytes) :=
    kernel_text_shown shown (by decide) (by decide) (by decide)
  have passed : kernelPrintf stack terminal pmmOk [] = some (terminalWrite terminal pmmOk.bytes) :=
    kernel_text_shown shown (by decide) (by decide) (by decide)
  unfold pmmSelfTest pmmReport
  by_cases first : (pmmAllocFrame pmm).1 = 0
  · have none := (alloc_none_iff invariant).mp first
    simp only [first, true_or, if_true, failed, none, alloc_none_eq first]
    rfl
  · have spent := free_frames_alloc invariant first
    have next : PmmInvariant layout ⟨(pmmAllocFrame pmm).2, (pmmAllocFrame pmm).1 :: live⟩ := by
      have taken := alloc_invariant invariant
      rwa [if_neg first] at taken
    by_cases second : (pmmAllocFrame (pmmAllocFrame pmm).2).1 = 0
    · have one : pmmFreeFrames pmm = 1 := by
        have none := (alloc_none_iff next).mp second
        omega
      simp only [second, or_true, if_true, failed, one, alloc_none_eq second]
      rfl
    · have more : ¬pmmFreeFrames pmm < 2 := by
        have left := mt (alloc_none_iff next).mpr second
        omega
      have notOne : pmmFreeFrames pmm ≠ 1 := by omega
      simp only [first, second, or_self, if_false, alloc_twice first second, passed, more, notOne,
        free_two_same invariant.counted first second]
      rfl

/-- In every run the test reports a lack of frames exactly when fewer than two are
free. It changes nothing then or otherwise, but for the last free frame: this one
stays used, although nobody holds it. -/
theorem pmm_self_test_outcome {boot : BootInfo} {run : PmmRun}
    (reachable : Reachable (pmmRuns layout boot) run) (stack : CharBuffer) {terminal : Terminal}
    (shown : OnScreen terminal) :
    ∃ after, pmmSelfTest stack terminal run.pmm =
        some (terminalWrite terminal (pmmReport (pmmFreeFrames run.pmm)), after) ∧
      (pmmFreeFrames run.pmm ≠ 1 → after = run.pmm) ∧
      (pmmFreeFrames run.pmm = 1 → ∃ frame, Available run.pmm frame ∧
        frame * pageSize ∉ run.live ∧ after = pmmSetUsed run.pmm frame true ∧
          ∀ other, ¬Available after other) := by
  have invariant := PmmOwnership.run_invariant reachable
  refine ⟨_, pmm_self_test_eq invariant shown, ?_, ?_⟩
  · intro notOne
    rw [if_neg notOne]
  · intro one
    rw [if_pos one]
    have first : (pmmAllocFrame run.pmm).1 ≠ 0 := by
      intro none
      rw [alloc_none_iff invariant] at none
      omega
    have next := alloc_invariant invariant
    have spent := free_frames_alloc invariant first
    rw [if_neg first] at next
    have none : (pmmAllocFrame (pmmAllocFrame run.pmm).2).1 = 0 := by
      rw [alloc_none_iff next]
      omega
    rcases pmm_alloc_frame_spec run.pmm with ⟨frame, available, taken⟩ | ⟨_, missing⟩
    · refine ⟨frame, available, (available_fresh invariant available).2, by rw [taken], ?_⟩
      rcases pmm_alloc_frame_spec (pmmAllocFrame run.pmm).2 with ⟨other, found, later⟩ | ⟨full, _⟩
      · rw [later] at none
        exact absurd none (frame_address_ne_zero found.1)
      · exact full
    · rw [missing] at first
      exact absurd rfl first

theorem small_pmm_self_test :
    ∃ run after, Reachable (pmmRuns smallLayout smallBoot) run ∧
      pmmSelfTest ⟨List.replicate 32 0, rfl⟩ darkTerminal run.pmm =
        some (terminalWrite darkTerminal (pmmReport (pmmFreeFrames run.pmm)), after) := by
  obtain ⟨after, tested, _⟩ := pmm_self_test_outcome (fresh_run_reachable smallLayout smallBoot)
    ⟨List.replicate 32 0, rfl⟩ dark_terminal_shown
  exact ⟨_, after, fresh_run_reachable smallLayout smallBoot, tested⟩

end Frames

/-! ## The mapper -/

section Mapper

variable {layout : PagingLayout} {machine : Machine layout} {held : List Nat} {virt : Nat}

variable {frame word : Nat}

end Mapper

end SimplyOs.SelfTests
