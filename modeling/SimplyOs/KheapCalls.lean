import SimplyOs.KheapExtension

/-!
# The heap interface over block lists

`kmalloc` and `kfree` as moves between canonical block lists, with what they
leave alone: the bytes of every block that is in use before the call.
-/

namespace SimplyOs.KheapCalls

open SimplyOs.Word SimplyOs.Kheap SimplyOs.KheapMemory SimplyOs.KheapBlocks
open SimplyOs.KheapOperations SimplyOs.KheapExtension
open SimplyOs.Library.ByteMemory SimplyOs.Library.BlockList SimplyOs.Library.LinkedBlocks

set_option autoImplicit false

def PayloadsKept (blocks : List Block) (memory after : Memory) : Prop :=
  ∀ entry ∈ used kheapStartAddress blocks,
    Agree (entry.1 + sizeofBlock) (entry.1 + entry.2.size) memory after

theorem payloads_kept_of_headers_only {limit : Nat} {blocks listed : List Block}
    {memory after : Memory} (inside : kheapStartAddress + total listed ≤ limit)
    (included : ∀ entry ∈ used kheapStartAddress blocks, entry ∈ placed kheapStartAddress listed)
    (only : HeadersOnly limit (starts listed) memory after) :
    PayloadsKept blocks memory after := by
  intro entry member place above below
  have listedEntry := included entry member
  obtain ⟨lower, upper, _⟩ := placed_bounds listedEntry
  apply only place (by omega) (by omega)
  intro address start
  obtain ⟨other, otherListed, rfl⟩ := List.mem_map.mp start
  rcases placed_disjoint listedEntry otherListed with same | before | behind
  · rw [← same]
    exact Or.inr above
  · exact Or.inl (by omega)
  · exact Or.inr (by omega)

variable {World : Type} [Platform World] {Shows : World → Nat → Memory → Prop}
variable {heap : KheapState World} {memory : Memory} {blocks front back : List Block}

/-! ## Freeing -/

/-- `kfree` of a used block merges it with its free neighbours. -/
theorem kfree_spec (laws : PlatformLaws World Shows) {block : Block}
    (represents : Represents Shows heap memory (front ++ block :: back)) :
    ∃ next bytes, kfree heap (kheapStartAddress + total front + sizeofBlock) = some next ∧
      Represents Shows next bytes (normalize (front ++ ⟨block.size, true⟩ :: back)) ∧
      PayloadsKept (front ++ block :: back) memory bytes := by
  obtain ⟨marked, markedBytes, markRun, markShown, markWindow, markOnly⟩ :=
    set_isFree_window laws represents.shows represents.window true
  obtain ⟨frontApart, blockApart, _⟩ := List.isChain_append.mp represents.separated
  obtain ⟨after, bytes, run, shown, window, only⟩ :=
    kheap_coalesce_spec laws markShown markWindow rfl frontApart (List.IsChain.tail blockApart)
  have nonzero : kheapStartAddress + total front + sizeofBlock ≠ 0 := by
    simp only [kheapStartAddress]
    omega
  have block_eq : kheapBlockFromPtr (kheapStartAddress + total front + sizeofBlock) =
      kheapStartAddress + total front := Nat.add_sub_cancel _ _
  have sameTotal : total (front ++ ⟨block.size, true⟩ :: back) = total (front ++ block :: back) := by
    simp
  refine ⟨{ heap with world := after }, bytes, ?_, ?_, ?_⟩
  · simp only [kfree, if_neg nonzero, block_eq, markRun, run, Option.bind_eq_bind,
      Option.bind_some]
  · refine ⟨represents.start, ?_, shown, window, separated_normalize _, ?_⟩
    · rw [represents.first, headOr_of_ne_nil _ _ (by simp),
        headOr_of_ne_nil _ _ (normalize_ne_nil (by simp))]
    · rw [total_normalize, sameTotal]
      exact represents.paged
  · have both := headers_only_trans markOnly only
    have sameStarts : starts (front ++ ([⟨block.size, true⟩] ++ back)) =
        starts (front ++ block :: back) := by
      simp [starts, placed_append, placed]
    rw [sameStarts] at both
    exact payloads_kept_of_headers_only (Nat.le_of_eq represents.window.finish.symm)
      (fun entry member => (mem_used.mp member).1) both

/-! ## Allocating -/

/-- The abstract `kmalloc`: an allocation in the list, or in the list with fresh
memory behind it, or none. -/
inductive Allocates (needed : Nat) (blocks : List Block) : Nat → List Block → Prop where
  | fit {address : Nat} {after : List Block}
      (found : allocate kheapMinBlock needed kheapStartAddress blocks = some (address, after)) :
      Allocates needed blocks (address + sizeofBlock) after
  | extend {address : Nat} {after : List Block}
      (full : allocate kheapMinBlock needed kheapStartAddress blocks = none)
      (found : allocate kheapMinBlock needed kheapStartAddress
        (extendBlocks blocks (extendPages needed * pageSize)) = some (address, after)) :
      Allocates needed blocks (address + sizeofBlock) after
  | fail (full : allocate kheapMinBlock needed kheapStartAddress blocks = none) :
      Allocates needed blocks 0 blocks

/-- The largest size whose rounding leaves room for a whole number of pages. -/
def largestSize : Nat := 0xFFFFEFF0

theorem kmalloc_needed_bounds {size : Nat} (small : size ≤ largestSize) :
    size + sizeofBlock ≤ kmallocNeeded size ∧ kheapMinBlock ≤ kmallocNeeded size ∧
      kmallocNeeded size ≤ largestNeeded ∧ kheapAlignment ∣ kmallocNeeded size := by
  have sum : add32 size sizeofBlock = size + sizeofBlock := by
    simp only [largestSize, sizeofBlock] at *
    exact add32_eq (by omega)
  have rounded : kheapAlign (size + sizeofBlock) = (size + 23) / 8 * 8 := by
    simp only [largestSize, sizeofBlock, kheapAlign, kheapAlignment] at *
    rw [add32_eq (by omega)]
  rw [kmallocNeeded, sum, rounded]
  by_cases little : (size + 23) / 8 * 8 < kheapMinBlock
  · rw [if_pos little]
    simp only [largestNeeded, sizeofBlock, kheapMinBlock, kheapAlignment] at *
    omega
  · rw [if_neg little]
    simp only [largestSize, largestNeeded, sizeofBlock, kheapMinBlock, kheapAlignment] at *
    omega

variable {needed address : Nat} {after : List Block}

theorem scan_eq (laws : PlatformLaws World Shows) (represents : Represents Shows heap memory blocks)
    (needed : Nat) :
    kheapFindFit heap.world needed loopFuel heap.kheapFirst =
      some ((firstFit needed kheapStartAddress blocks).getD 0) := by
  rw [represents.first]
  exact kheap_find_fit_eq laws represents.shows needed loopFuel represents.window.threaded
    (fun entry member => window_entry_inside represents.window member)
    (window_length_lt_fuel represents.window)

theorem kmalloc_round_fit (laws : PlatformLaws World Shows)
    (represents : Represents Shows heap memory blocks) (large : kheapMinBlock ≤ needed)
    (grained : kheapAlignment ∣ needed) (fuel : Nat)
    (found : allocate kheapMinBlock needed kheapStartAddress blocks = some (address, after)) :
    ∃ next bytes, kmallocLoop needed (fuel + 1) heap = some (address + sizeofBlock, next) ∧
      Represents Shows next bytes after ∧ PayloadsKept blocks memory bytes := by
  have scan := scan_eq laws represents needed
  rw [← allocate_address kheapMinBlock, found] at scan
  obtain ⟨front, block, back, rfl, rfl, rfl, free, fit⟩ := allocate_split found
  obtain ⟨world, bytes, run, shown, window, only⟩ :=
    kheap_split_spec laws represents.shows represents.window fit large grained
  have nonzero : kheapStartAddress + total front ≠ 0 := by
    simp only [kheapStartAddress]
    omega
  have canonical : Canonical kheapMinBlock kheapAlignment (front ++ block :: back) :=
    ⟨represents.window.sized, represents.window.grained, represents.separated⟩
  have carved := canonical_carve canonical free fit large grained
  have sameTotal : total (front ++ (carve kheapMinBlock needed block ++ back)) =
      total (front ++ block :: back) := by
    simp [total_carve fit]
  refine ⟨{ heap with world := world }, bytes, ?_, ?_, ?_⟩
  · simp only [kmallocLoop, scan, Option.map_some, Option.getD_some, nonzero, run,
      Option.bind_eq_bind, Option.bind_some, ne_eq, not_false_eq_true, if_true]
  · refine ⟨represents.start, ?_, shown, window, carved.separated, ?_⟩
    · rw [represents.first, headOr_of_ne_nil _ _ (by simp), headOr_of_ne_nil _ _ (by simp [carve_ne_nil])]
    · rw [sameTotal]
      exact represents.paged
  · apply payloads_kept_of_headers_only _ _ only
    · rw [sameTotal]
      exact Nat.le_of_eq represents.window.finish.symm
    · intro entry member
      have kept : entry ∈ used kheapStartAddress
          (front ++ (carve kheapMinBlock needed block ++ back)) :=
        (used_carve_append free fit).mem_iff.mpr (List.mem_cons_of_mem _ member)
      exact (mem_used.mp kept).1

theorem kmalloc_round_full (laws : PlatformLaws World Shows)
    (represents : Represents Shows heap memory blocks) (fuel : Nat)
    (full : allocate kheapMinBlock needed kheapStartAddress blocks = none) :
    kmallocLoop needed (fuel + 1) heap =
      (kheapExtend heap needed).bind fun result =>
        if result.1 then kmallocLoop needed fuel result.2 else some (0, result.2) := by
  have scan := scan_eq laws represents needed
  rw [← allocate_address kheapMinBlock, full] at scan
  simp only [kmallocLoop, scan, Option.map_none, Option.getD_none, Option.bind_eq_bind,
    Option.bind_some, ne_eq, not_true_eq_false, if_false]

theorem allocate_extended (small : needed ≤ largestNeeded) (blocks : List Block) :
    ∃ found, allocate kheapMinBlock needed kheapStartAddress
      (extendBlocks blocks (extendPages needed * pageSize)) = some found := by
  obtain ⟨merged, member, free, room⟩ := normalize_keeps_room
    (List.mem_append_right blocks (List.mem_singleton.mpr rfl) :
      (⟨extendPages needed * pageSize, true⟩ : Block) ∈ _) rfl
  have enough := Nat.le_trans (extend_pages_cover small).1 room
  cases result : allocate kheapMinBlock needed kheapStartAddress
      (extendBlocks blocks (extendPages needed * pageSize)) with
  | some found => exact ⟨found, rfl⟩
  | none =>
      have misfit := allocate_none.mp result merged member
      simp [fits, free, enough] at misfit

/-- `kmalloc` returns for every size whose rounding does not wrap. -/
theorem kmalloc_loop_spec (laws : PlatformLaws World Shows)
    (represents : Represents Shows heap memory blocks) (large : kheapMinBlock ≤ needed)
    (small : needed ≤ largestNeeded) (grained : kheapAlignment ∣ needed) (fuel : Nat) :
    ∃ pointer next bytes after, kmallocLoop needed (fuel + 2) heap = some (pointer, next) ∧
      Represents Shows next bytes after ∧ Allocates needed blocks pointer after ∧
      PayloadsKept blocks memory bytes := by
  cases result : allocate kheapMinBlock needed kheapStartAddress blocks with
  | some found =>
      obtain ⟨next, bytes, run, represented, kept⟩ :=
        kmalloc_round_fit laws represents large grained (fuel + 1) result
      exact ⟨_, next, bytes, _, run, represented, .fit result, kept⟩
  | none =>
      obtain ⟨extended, grown, grownBytes, extendRun, only, extension⟩ :=
        kheap_extend_spec laws represents (extend_pages_pos small)
      have grownKept : PayloadsKept blocks memory grownBytes :=
        payloads_kept_of_headers_only (Nat.le_of_eq represents.window.finish.symm)
          (fun entry member => (mem_used.mp member).1) only
      rw [kmalloc_round_full laws represents (fuel + 1) result, extendRun, Option.bind_some]
      cases extended with
      | false => exact ⟨0, grown, grownBytes, blocks, rfl, extension, .fail result, grownKept⟩
      | true =>
          obtain ⟨found, again⟩ := allocate_extended small blocks
          obtain ⟨next, bytes, run, represented, kept⟩ :=
            kmalloc_round_fit laws extension large grained fuel again
          refine ⟨_, next, bytes, _, run, represented, .extend result again, ?_⟩
          intro entry member
          have extendedMember : entry ∈ used kheapStartAddress
              (extendBlocks blocks (extendPages needed * pageSize)) := by
            rwa [used_extend_blocks]
          exact agree_trans (grownKept entry member) (kept entry extendedMember)

theorem kmalloc_zero (heap : KheapState World) {size : Nat} (none : size = 0) :
    kmalloc heap size = some (0, heap) := by
  rw [kmalloc, if_pos none]

theorem kmalloc_spec (laws : PlatformLaws World Shows)
    (represents : Represents Shows heap memory blocks) {size : Nat} (positive : size ≠ 0)
    (small : size ≤ largestSize) :
    ∃ pointer next bytes after, kmalloc heap size = some (pointer, next) ∧
      Represents Shows next bytes after ∧ Allocates (kmallocNeeded size) blocks pointer after ∧
      PayloadsKept blocks memory bytes := by
  obtain ⟨_, large, fits, grained⟩ := kmalloc_needed_bounds small
  obtain ⟨fuel, enough⟩ : ∃ fuel, loopFuel = fuel + 2 := ⟨loopFuel - 2, by decide⟩
  rw [kmalloc, if_neg positive, enough]
  exact kmalloc_loop_spec laws represents large fits grained fuel

end SimplyOs.KheapCalls
