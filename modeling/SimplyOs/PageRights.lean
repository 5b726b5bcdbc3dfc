import SimplyOs.PageMaps

/-!
# Effective rights of a page

The processor grants a right only if both levels of the tables grant it. A
directory entry is created with `PRESENT | WRITE`, whatever the flags of the page
for which it is created, so the rights of a page are the requested ones exactly
when the user flag is not among them.
-/

namespace SimplyOs.PageRights

open SimplyOs.Word SimplyOs.Kheap SimplyOs.Pmm SimplyOs.Multiboot SimplyOs.PmmOwnership
open SimplyOs.Paging SimplyOs.PagingTables SimplyOs.PagingBoot SimplyOs.PageMaps
open SimplyOs.Library.ByteMemory SimplyOs.Library.PageTree SimplyOs.Library.Transition

set_option autoImplicit false

variable {layout : PagingLayout}

def pagingFlagUser : Nat := 0x004

def rightsFlags (write user : Bool) : Nat :=
  (if write then pagingFlagWrite else 0) ||| (if user then pagingFlagUser else 0)

structure Rights where
  write : Bool
  user : Bool
  deriving DecidableEq, Repr

def entryRights (entry : Nat) : Rights where
  write := writable entry
  user := entry / 4 % 2 == 1

def Rights.meet (one other : Rights) : Rights where
  write := one.write && other.write
  user := one.user && other.user

def pageRights (machine : Machine layout) (page : Nat) : Option Rights :=
  let directoryEntry := slot machine.memory (pdPhys layout) (page / 1024)
  if present directoryEntry then
    let entry := slot machine.memory (frameOf directoryEntry) (page % 1024)
    if present entry then some ((entryRights directoryEntry).meet (entryRights entry)) else none
  else none

def allPages : Nat := 1024 * 1024

/-- The page has the rights, and no other mapped page has lost or gained one. -/
def GrantsRights (before after : Machine layout) (virt : Nat) (rights : Rights) : Prop :=
  pageRights after (virt / pageSize) = some rights ∧
    ∀ page < allPages, page ≠ virt / pageSize → pageRights before page ≠ none →
      pageRights after page = pageRights before page

/-! ## Rights in a sound tree -/

section Sound

variable {machine after : Machine layout} {page index : Nat}

theorem table_rights {frame : Nat} (aligned : frame % frameBytes = 0) :
    entryRights (frame + tableFlags) = ⟨true, false⟩ := by
  simp only [frameBytes] at aligned
  have second : (frame + tableFlags) / 2 % 2 = 1 := by
    simp only [tableFlags]
    omega
  have third : (frame + tableFlags) / 4 % 2 = 0 := by
    simp only [tableFlags]
    omega
  rw [entryRights, writable, second, third]
  rfl

theorem meet_table (rights : Rights) : Rights.meet ⟨true, false⟩ rights = ⟨rights.write, false⟩ := rfl

/-- Below the window the directory entry takes the user right from every page. -/
theorem page_rights_eq (sound : Sound machine.memory (pdPhys layout)) (below : page < treePages) :
    pageRights machine page = (pageEntry machine.memory (pdPhys layout) page).map fun entry =>
      ⟨writable entry, false⟩ := by
  cases here : slotPresent machine.memory (pdPhys layout) (page / 1024) with
  | false =>
      rw [page_entry_absent here]
      rw [slotPresent] at here
      simp [pageRights, here]
  | true =>
      have directory := sound.flags _ (page_slot_lt below) here
      have rights : entryRights (slot machine.memory (pdPhys layout) (page / 1024)) =
          ⟨true, false⟩ := by
        rw [directory]
        exact table_rights (table_at_aligned _ _ _)
      rw [page_entry_present here]
      rw [slotPresent] at here
      simp only [pageRights, here, if_true, rights, meet_table, tableAt]
      by_cases entry : present (slot machine.memory
          (frameOf (slot machine.memory (pdPhys layout) (page / 1024))) (page % 1024)) = true
      · simp only [entry, if_true, Option.map_some, entryRights]
      · simp only [entry, if_false, Option.map_none, Bool.false_eq_true]

/-- The pages of the window are the directory and the tables, which are all writable. -/
theorem window_rights (sound : Sound machine.memory (pdPhys layout)) (inside : index < 1024) :
    pageRights machine (selfSlot * 1024 + index) =
      if slotPresent machine.memory (pdPhys layout) index then some ⟨true, false⟩ else none := by
  have high : (selfSlot * 1024 + index) / 1024 = selfSlot := by
    unfold selfSlot
    omega
  have low : (selfSlot * 1024 + index) % 1024 = index := by
    unfold selfSlot
    omega
  have root : frameOf (pdPhys layout + tableFlags) = pdPhys layout :=
    frame_of_add sound.aligned (by decide)
  have directory := table_rights sound.aligned
  simp only [pageRights, high, low, sound.self, present_table sound.aligned, if_true, root,
    directory, meet_table, slotPresent]
  by_cases here : present (slot machine.memory (pdPhys layout) index) = true
  · have entry : writable (slot machine.memory (pdPhys layout) index) = true := by
      by_cases self : index = selfSlot
      · rw [self, sound.self]
        exact congrArg Rights.write directory
      · have below : index < selfSlot := by
          unfold selfSlot at *
          omega
        rw [sound.flags index below here]
        exact congrArg Rights.write (table_rights (table_at_aligned _ _ _))
    simp only [here, if_true, entryRights, entry]
  · simp only [here, if_false, Bool.false_eq_true]

end Sound

/-! ## A successful call -/

section Calls

variable {machine after : Machine layout} {held : List Nat} {virt phys flags : Nat}

/-- The tree after `paging_map_page` returned true, also for the page of the directory. -/
structure TreeMapped (before after : Machine layout) (page entry : Nat) : Prop where
  sound : Sound after.memory (pdPhys layout)
  pages : ∀ place < treePages, pageEntry after.memory (pdPhys layout) place =
    if place = page then some entry else pageEntry before.memory (pdPhys layout) place
  slots : ∀ index < selfSlot, slotPresent before.memory (pdPhys layout) index = true →
    slotPresent after.memory (pdPhys layout) index = true

theorem directory_slot_present (invariant : PagingInvariant machine held) :
    slotPresent machine.memory (pdPhys layout) (directoryPage layout / 1024) = true :=
  slot_present_of_entry invariant.directory

/-- The page of the directory lies in the boot table, so its entry is just stored. -/
theorem map_directory_page (invariant : PagingInvariant machine held)
    (below : virt < recursivePtBase) (directory : virt / pageSize = directoryPage layout)
    (aligned : phys % pageSize = 0) (word : phys < 2 ^ 32) (small : flags < pageSize) :
    ∃ after, pagingMapPage machine virt phys flags = some (true, after) ∧
      TreeMapped machine after (virt / pageSize) (entryWord phys flags) := by
  have here := directory_slot_present invariant
  rw [← directory] at here
  have pageBelow := page_below below
  obtain ⟨entrySmall, entryPresent, _, _⟩ := entry_word_parts aligned word small
  have sameDirectory := store_entry_directory (entryWord phys flags) invariant.sound pageBelow here
  obtain ⟨sound, slots⟩ := sound_of_same invariant.sound sameDirectory
  have test := here
  rw [page_slot] at test
  have stored := @store_window_eq layout machine virt (entryWord phys flags) invariant.sound below test
  refine ⟨⟨storeEntry machine.memory (pdPhys layout) (virt / pageSize) (entryWord phys flags),
    machine.pmm⟩, ?_, sound, ?_, ?_⟩
  · rw [paging_map_page_eq invariant below aligned, if_pos test, Option.bind_some]
    simp only [if_true, stored, Option.bind_some]
  · intro place placeBelow
    rw [store_entry_page invariant.sound pageBelow here entrySmall placeBelow, entryPresent,
      if_pos rfl]
  · intro index inside present
    rw [slotPresent, slots index (Nat.lt_trans inside (by decide))]
    exact present

theorem map_page_tree (invariant : PagingInvariant machine held) (below : virt < recursivePtBase)
    (aligned : phys % pageSize = 0) (word : phys < 2 ^ 32) (small : flags < pageSize)
    (returned : pagingMapPage machine virt phys flags = some (true, after)) :
    TreeMapped machine after (virt / pageSize) (entryWord phys flags) := by
  by_cases directory : virt / pageSize = directoryPage layout
  · obtain ⟨other, run, mapped⟩ := map_directory_page invariant below directory aligned word small
    obtain ⟨_, rfl⟩ := Prod.mk.inj (Option.some.inj (run.symm.trans returned))
    exact mapped
  · rcases paging_map_page_spec invariant below directory aligned word small with
      ⟨_, _, failed⟩ | ⟨other, run, _, _, stored⟩
    · rw [failed] at returned
      exact absurd (Prod.mk.inj (Option.some.inj returned)).1 (by decide)
    · obtain ⟨_, rfl⟩ := Prod.mk.inj (Option.some.inj (run.symm.trans returned))
      refine ⟨stored.invariant.sound, stored.pages, ?_⟩
      intro index inside present
      rw [stored.slots index inside, present, Bool.true_or]

theorem rights_flags_small (write user : Bool) : rightsFlags write user < pageSize := by
  cases write <;> cases user <;> decide

theorem writable_flags (entry : Nat) : writable entry = writable (flagsOf entry) := by
  have same : entry / 2 % 2 = entry % 4096 / 2 % 2 := by omega
  simp only [writable, flagsOf, frameBytes, same]

theorem entry_word_write (aligned : phys % pageSize = 0) (word : phys < 2 ^ 32)
    (write user : Bool) : writable (entryWord phys (rightsFlags write user)) = write := by
  have flags := (entry_word_parts aligned word (rights_flags_small write user)).2.2.2
  rw [writable_flags, flags]
  cases write <;> cases user <;> rfl

/-- The page gets the requested write right and no user right; all others keep theirs. -/
theorem map_page_rights (invariant : PagingInvariant machine held) (below : virt < recursivePtBase)
    (aligned : phys % pageSize = 0) (word : phys < 2 ^ 32) {write user : Bool}
    (returned : pagingMapPage machine virt phys (rightsFlags write user) = some (true, after)) :
    GrantsRights machine after virt ⟨write, false⟩ := by
  have mapped := map_page_tree invariant below aligned word (rights_flags_small write user) returned
  constructor
  · rw [page_rights_eq mapped.sound (page_below below), mapped.pages _ (page_below below),
      if_pos rfl, Option.map_some, entry_word_write aligned word]
  · intro page inside other before
    by_cases tree : page < treePages
    · rw [page_rights_eq mapped.sound tree, page_rights_eq invariant.sound tree,
        mapped.pages page tree, if_neg other]
    · -- a page of the window
      obtain ⟨index, rfl⟩ : ∃ index, page = selfSlot * 1024 + index :=
        Nat.exists_eq_add_of_le (Nat.not_lt.mp tree)
      have small : index < 1024 := by
        unfold allPages selfSlot at *
        omega
      rw [window_rights invariant.sound small] at before ⊢
      rw [window_rights mapped.sound small]
      have present : slotPresent machine.memory (pdPhys layout) index = true := by
        by_contra absent
        exact before (if_neg absent)
      have presentAfter : slotPresent after.memory (pdPhys layout) index = true := by
        by_cases self : index = selfSlot
        · rw [slotPresent, self, mapped.sound.self]
          exact present_table mapped.sound.aligned
        · exact mapped.slots index (by unfold selfSlot at *; omega) present
      rw [if_pos present, if_pos presentAfter]

end Calls

/-- In every state that the mapper reaches, a page gets the rights of its flags if and
only if the user flag is not one of them. -/
theorem map_page_rights_iff {boot : BootInfo} {run : PagingRun layout}
    (reachable : Reachable (pagingRuns layout boot) run) {virt phys : Nat}
    (below : virt < recursivePtBase) (aligned : phys % pageSize = 0) (word : phys < 2 ^ 32)
    {write user : Bool} {after : Machine layout}
    (returned : pagingMapPage run.machine virt phys (rightsFlags write user) =
      some (true, after)) :
    GrantsRights run.machine after virt ⟨write, user⟩ ↔ user = false := by
  have granted := map_page_rights (run_invariant reachable) below aligned word returned
  constructor
  · intro requested
    have same := Option.some.inj (requested.1.symm.trans granted.1)
    exact congrArg Rights.user same
  · rintro rfl
    exact granted

theorem small_map_rights_iff :
    ∃ (run : PagingRun smallPaging) (after : Machine smallPaging),
      pagingMapPage run.machine 0x10000000 0x200000 (rightsFlags true true) = some (true, after) ∧
        (GrantsRights run.machine after 0x10000000 ⟨true, true⟩ ↔ true = false) := by
  obtain ⟨run, after, reachable, _, returned⟩ := small_map_returns (rights_flags_small true true)
  exact ⟨run, after, returned,
    map_page_rights_iff reachable (by decide) (by decide) (by decide) returned⟩

/-- A page mapped for user mode right after booting is not accessible from it. -/
theorem user_page_denied :
    ∃ run after, Reachable (pagingRuns smallPaging smallBoot) run ∧
      pagingMapPage run.machine 0x10000000 0x200000 (rightsFlags true true) =
        some (true, after) ∧
      ¬GrantsRights run.machine after 0x10000000 ⟨true, true⟩ := by
  obtain ⟨run, after, reachable, _, returned⟩ := small_map_returns (rights_flags_small true true)
  refine ⟨run, after, reachable, returned, fun claimed => ?_⟩
  have actual := map_page_rights (run_invariant reachable) (by decide) (by decide) (by decide)
    returned
  have same := Option.some.inj (claimed.1.symm.trans actual.1)
  exact absurd (congrArg Rights.user same) (by decide)

end SimplyOs.PageRights
