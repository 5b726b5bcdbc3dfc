import SimplyOs.OversizedRequests
import SimplyOs.KheapIntegrity
import Mathlib.Data.List.Nodup

/-!
# Freeing in any order

The list that the heap represents never has two free neighbours, so it is determined
by its used blocks and its length. Two ways of freeing that leave the same blocks in
use therefore leave the same list, whatever merges they went through.
-/

namespace SimplyOs.FreeOrder

open SimplyOs.Word SimplyOs.Kheap SimplyOs.KheapMemory SimplyOs.KheapBlocks
open SimplyOs.KheapExtension SimplyOs.KheapCalls SimplyOs.KheapRuns SimplyOs.KheapIntegrity
open SimplyOs.FlatPlatform SimplyOs.OversizedRequests
open SimplyOs.Library.ByteMemory SimplyOs.Library.BlockList SimplyOs.Library.LinkedBlocks
open SimplyOs.Library.Transition

set_option autoImplicit false

variable {World : Type} [Platform World] {Shows : World → Nat → Memory → Prop}

def kfreeAll : List Nat → KheapState World → Option (KheapState World)
  | [], heap => some heap
  | pointer :: rest, heap => do
      let heap ← kfree heap pointer
      kfreeAll rest heap

section Canonical

variable {run other : HeapRun World} {memory bytes : Memory} {blocks after : List Block}

omit [Platform World] in
theorem represented_sized {heap : KheapState World} (represents : Represents Shows heap memory blocks) :
    ∀ block ∈ blocks, 0 < block.size := fun block member =>
  Nat.lt_of_lt_of_le (by decide : 0 < kheapMinBlock) (represents.window.sized block member)

omit [Platform World] in
theorem used_of_kept (live : LiveHeap Shows run bytes after) {source : List (Nat × Block)}
    (kept : ∀ pointer ∈ run.live, ∃ entry ∈ source, pointerOf entry = pointer ∧
      entry ∈ used kheapStartAddress after) :
    ∀ entry ∈ used kheapStartAddress after, entry ∈ source := by
  intro entry member
  have listed := live.owned.mem_iff.mpr (List.mem_map_of_mem member)
  obtain ⟨old, oldMember, same, remains⟩ := kept _ listed
  have distinct := pointers_distinct live.represents.window.sized
  rw [← List.inj_on_of_nodup_map distinct remains member same]
  exact oldMember

omit [Platform World] in
/-- The represented list is determined by the used blocks and the end of the heap. -/
theorem represented_unique {next : KheapState World} {list : List Block}
    (represented : Represents Shows next bytes after) (sized : ∀ block ∈ list, 0 < block.size)
    (separated : list.IsChain Apart)
    (same : ∀ entry, entry ∈ used kheapStartAddress list ↔ entry ∈ used kheapStartAddress after)
    (finish : next.kheapEnd = kheapStartAddress + total list) : after = list := by
  have nextSized := represented_sized represented
  have nextEnd := represented.window.finish
  exact separated_unique nextSized sized represented.separated separated
    (used_eq_of_mem_iff nextSized sized fun entry => (same entry).symm) (by omega)

end Canonical

/-! ## Several frees -/

section Frees

variable {run : HeapRun World} {memory : Memory} {blocks : List Block} {pointers others : List Nat}

theorem kfree_all_live (laws : PlatformLaws World Shows) (live : LiveHeap Shows run memory blocks)
    (owned : ∀ pointer ∈ pointers, pointer ∈ run.live) (distinct : pointers.Nodup) :
    ∃ heap bytes after, kfreeAll pointers run.heap = some heap ∧
      LiveHeap Shows ⟨heap, run.live.diff pointers⟩ bytes after ∧
      (∀ entry ∈ used kheapStartAddress blocks, pointerOf entry ∉ pointers →
        entry ∈ used kheapStartAddress after) ∧
      (blocks ≠ [] → after ≠ []) ∧ heap.kheapEnd = run.heap.kheapEnd := by
  induction pointers generalizing run memory blocks with
  | nil =>
      exact ⟨run.heap, memory, blocks, rfl, live, fun _ member _ => member, id, rfl⟩
  | cons pointer rest ih =>
      obtain ⟨fresh, restDistinct⟩ := List.nodup_cons.mp distinct
      obtain ⟨freed, freedBytes, freedBlocks, freeRun, freedLive, _, freedKept, freedFilled, freedEnd⟩ :=
        kfree_live laws live (Or.inr (owned pointer (List.mem_cons_self ..)))
      have restOwned : ∀ later ∈ rest, later ∈ run.live.erase pointer := by
        intro later member
        have different : later ≠ pointer := fun equal => fresh (equal ▸ member)
        exact (List.mem_erase_of_ne different).mpr (owned later (List.mem_cons_of_mem _ member))
      obtain ⟨heap, bytes, after, returned, lastLive, kept, filled, finish⟩ :=
        ih freedLive restOwned restDistinct
      refine ⟨heap, bytes, after, ?_, ?_, ?_, fun some => filled (freedFilled some),
        finish.trans freedEnd⟩
      · simp only [kfreeAll, freeRun, Option.bind_eq_bind, Option.bind_some]
        exact returned
      · rw [List.diff_cons]
        exact lastLive
      · intro entry member apart
        rw [List.mem_cons, not_or] at apart
        exact kept entry (freedKept entry member apart.1) apart.2

omit [Platform World] in
theorem used_after_frees {after : List Block} {heap : KheapState World} {bytes : Memory}
    (live : LiveHeap Shows run memory blocks)
    (lastLive : LiveHeap Shows ⟨heap, run.live.diff pointers⟩ bytes after)
    (kept : ∀ entry ∈ used kheapStartAddress blocks, pointerOf entry ∉ pointers →
      entry ∈ used kheapStartAddress after) (entry : Nat × Block) :
    entry ∈ used kheapStartAddress after ↔
      entry ∈ used kheapStartAddress blocks ∧ pointerOf entry ∉ pointers := by
  have liveDistinct : run.live.Nodup :=
    live.owned.nodup_iff.mpr (pointers_distinct live.represents.window.sized)
  constructor
  · intro member
    have listed : pointerOf entry ∈ run.live.diff pointers :=
      lastLive.owned.mem_iff.mpr (List.mem_map_of_mem member)
    refine ⟨?_, (liveDistinct.mem_sdiff_iff.mp listed).2⟩
    apply used_of_kept lastLive _ entry member
    intro pointer remains
    obtain ⟨inLive, apart⟩ := liveDistinct.mem_sdiff_iff.mp remains
    obtain ⟨old, oldMember, rfl⟩ := List.mem_map.mp (live.owned.mem_iff.mp inLive)
    exact ⟨old, oldMember, rfl, kept old oldMember apart⟩
  · rintro ⟨member, apart⟩
    exact kept entry member apart

end Frees

section Runs

/-- The order of frees does not show in the list or in the used bytes; when nothing
is in use any more, one free block covers the heap. -/
theorem free_order_irrelevant {run : HeapRun FlatWorld}
    (reachable : Reachable (wideRuns Started) run) {pointers others : List Nat}
    (owned : ∀ pointer ∈ pointers, pointer ∈ run.live) (distinct : pointers.Nodup)
    (same : others.Perm pointers) :
    ∃ first second entries used, kfreeAll pointers run.heap = some first ∧
      kfreeAll others run.heap = some second ∧
      Follows first.world first.kheapFirst entries ∧
      Follows second.world second.kheapFirst entries ∧
      kheapUsedBytes first = some used ∧ kheapUsedBytes second = some used ∧
      (run.live ⊆ pointers → entries =
        [(kheapStartAddress, ⟨run.heap.kheapEnd - run.heap.kheapStart, true, 0, 0⟩)]) := by
  have served : Reachable (heapRuns Started) run := by
    apply wide_run_reachable flat_laws _ reachable
    intro prior priorReachable
    obtain ⟨memory, blocks, live, _⟩ := started_run_live priorReachable
    exact ⟨memory, blocks, live⟩
  obtain ⟨memory, blocks, live, filled⟩ := started_run_live served
  obtain ⟨first, bytes, after, firstRun, firstLive, firstKept, firstFilled, firstEnd⟩ :=
    kfree_all_live flat_laws live owned distinct
  obtain ⟨second, otherBytes, otherAfter, secondRun, secondLive, secondKept, _, secondEnd⟩ :=
    kfree_all_live flat_laws live (fun pointer member => owned pointer (same.mem_iff.mp member))
      (same.nodup_iff.mpr distinct)
  have blocksSame : otherAfter = after := by
    apply represented_unique secondLive.represents (represented_sized firstLive.represents)
      firstLive.represents.separated
    · intro entry
      rw [used_after_frees live firstLive firstKept, used_after_frees live secondLive secondKept,
        same.mem_iff]
    · rw [secondEnd, ← firstEnd]
      exact firstLive.represents.window.finish
  have secondRepresents := secondLive.represents
  rw [blocksSame] at secondRepresents
  refine ⟨first, second, headers 0 0 kheapStartAddress after, _, firstRun, secondRun,
    represents_follows flat_laws firstLive.represents, represents_follows flat_laws secondRepresents,
    used_bytes_represented flat_laws firstLive.represents,
    used_bytes_represented flat_laws secondRepresents, ?_⟩
  intro all
  have unused : ∀ entry, entry ∉ used kheapStartAddress after := by
    intro entry member
    obtain ⟨old, apart⟩ := (used_after_frees live firstLive firstKept entry).mp member
    exact apart (all (live.owned.mem_iff.mpr (List.mem_map_of_mem old)))
  have size := firstLive.represents.window.finish
  rw [one_free_block (represented_sized firstLive.represents) firstLive.represents.separated unused
    (firstFilled filled), live.represents.start, ← firstEnd, size, Nat.add_sub_cancel_left]
  rfl

/-- Three live pointers, freed as they were allocated and the middle one last; and two
of them, which leaves the third in use. -/
theorem willing_frees_irrelevant :
    (∃ first second used, kfreeAll [0xC2000010, 0xC2000038, 0xC2000070] fullRun.heap = some first ∧
      kfreeAll [0xC2000070, 0xC2000010, 0xC2000038] fullRun.heap = some second ∧
      Follows first.world first.kheapFirst [(kheapStartAddress,
        ⟨fullRun.heap.kheapEnd - fullRun.heap.kheapStart, true, 0, 0⟩)] ∧
      Follows second.world second.kheapFirst [(kheapStartAddress,
        ⟨fullRun.heap.kheapEnd - fullRun.heap.kheapStart, true, 0, 0⟩)] ∧
      kheapUsedBytes first = some used ∧ kheapUsedBytes second = some used) ∧
      ∃ first second entries used, kfreeAll [0xC2000010, 0xC2000070] fullRun.heap = some first ∧
        kfreeAll [0xC2000070, 0xC2000010] fullRun.heap = some second ∧
        Follows first.world first.kheapFirst entries ∧
        Follows second.world second.kheapFirst entries ∧
        kheapUsedBytes first = some used ∧ kheapUsedBytes second = some used := by
  have reachable := wide_of_reachable (full_run_reachable willing_heap_started)
  have live := full_run_live
  constructor
  · have owned : ∀ pointer ∈ [0xC2000010, 0xC2000038, 0xC2000070], pointer ∈ fullRun.live := by
      rw [live]
      decide
    have order : [0xC2000070, 0xC2000010, 0xC2000038].Perm [0xC2000010, 0xC2000038, 0xC2000070] := by
      decide
    obtain ⟨first, second, entries, used, firstRun, secondRun, firstList, secondList, firstUsed,
      secondUsed, all⟩ := free_order_irrelevant reachable owned (by decide) order
    have everything : fullRun.live ⊆ [0xC2000010, 0xC2000038, 0xC2000070] := by
      rw [live]
      decide
    rw [all everything] at firstList secondList
    exact ⟨first, second, used, firstRun, secondRun, firstList, secondList, firstUsed, secondUsed⟩
  · have owned : ∀ pointer ∈ [0xC2000010, 0xC2000070], pointer ∈ fullRun.live := by
      rw [live]
      decide
    have order : [0xC2000070, 0xC2000010].Perm [0xC2000010, 0xC2000070] := by decide
    obtain ⟨first, second, entries, used, firstRun, secondRun, firstList, secondList, firstUsed,
      secondUsed, _⟩ := free_order_irrelevant reachable owned (by decide) order
    exact ⟨first, second, entries, used, firstRun, secondRun, firstList, secondList, firstUsed,
      secondUsed⟩

end Runs

/-! ## One allocation and its free -/

/-- The list with fresh bytes behind its end: a free last block grows, otherwise a
free block follows. -/
def growTail (stop grown : Nat) (entries : List (Nat × Header)) : List (Nat × Header) :=
  match entries.getLast? with
  | none => [(stop, ⟨grown, true, 0, 0⟩)]
  | some last =>
      entries.dropLast ++
        if last.2.free then [(last.1, { last.2 with size := last.2.size + grown })]
        else [(last.1, { last.2 with next := stop }), (stop, ⟨grown, true, 0, last.1⟩)]

section Grown

variable {front : List Block} {last : Block}

theorem headers_concat (start : Nat) (front : List Block) (last : Block) :
    headers 0 0 start (front ++ [last]) =
      headers (start + total front) 0 start front ++
        [(start + total front, ⟨last.size, last.free, 0, lastOr 0 start front⟩)] := by
  rw [headers_append]
  rfl

theorem headers_extend {blocks : List Block} (separated : blocks.IsChain Apart) (grown : Nat) :
    headers 0 0 kheapStartAddress (extendBlocks blocks grown) =
      growTail (kheapStartAddress + total blocks) grown (headers 0 0 kheapStartAddress blocks) := by
  rcases List.eq_nil_or_concat' blocks with rfl | ⟨front, last, rfl⟩
  · rfl
  · rw [extend_blocks_concat separated grown, growTail, headers_concat, List.getLast?_concat, List.dropLast_concat]
    cases free : last.free with
    | true =>
        have merged : consMerge last [⟨grown, true⟩] = [⟨last.size + grown, true⟩] := by
          simp [consMerge, free]
        rw [merged, headers_concat]
        rfl
    | false =>
        have linked : consMerge last [⟨grown, true⟩] = [last, ⟨grown, true⟩] := by
          simp [consMerge, free]
        rw [linked, headers_append]
        simp [headers, headOr, free, Nat.add_assoc]

end Grown

/-- Freeing what was just allocated leaves the list as it was, or with the bytes
that the allocation mapped behind it. -/
theorem kfree_undoes_kmalloc {run : HeapRun FlatWorld}
    (reachable : Reachable (wideRuns Initialised) run) {size pointer : Nat}
    {heap : KheapState FlatWorld} (small : size ≤ largestSize)
    (returned : kmalloc run.heap size = some (pointer, heap)) (nonzero : pointer ≠ 0) :
    ∃ next entries, kfree heap pointer = some next ∧
      Follows run.heap.world run.heap.kheapFirst entries ∧
      run.heap.kheapEnd ≤ heap.kheapEnd ∧ next.kheapEnd = heap.kheapEnd ∧
      Follows next.world next.kheapFirst
        (if heap.kheapEnd = run.heap.kheapEnd then entries
        else growTail run.heap.kheapEnd (heap.kheapEnd - run.heap.kheapEnd) entries) := by
  obtain ⟨memory, blocks, live⟩ :=
    run_live (wide_run_reachable flat_laws (fun _ reachable => run_live reachable) reachable)
  obtain ⟨same, allocated, bytes, list, run', allocatedLive, _, kept, _, larger⟩ :=
    kmalloc_live flat_laws live small
  obtain ⟨rfl, rfl⟩ := Prod.mk.inj (Option.some.inj (run'.symm.trans returned))
  rw [if_neg nonzero] at allocatedLive
  obtain ⟨next, nextBytes, after, freed, nextLive, _, freedKept, _, finish⟩ :=
    kfree_live flat_laws allocatedLive (Or.inr (List.mem_cons_self ..))
  rw [List.erase_cons_head] at nextLive
  have distinct : (same :: run.live).Nodup :=
    allocatedLive.owned.nodup_iff.mpr (pointers_distinct allocatedLive.represents.window.sized)
  have remains : ∀ entry ∈ used kheapStartAddress blocks, entry ∈ used kheapStartAddress after := by
    intro entry member
    apply freedKept entry (kept entry member)
    rintro rfl
    exact (List.nodup_cons.mp distinct).1 (live.owned.mem_iff.mpr (List.mem_map_of_mem member))
  have sameUsed : ∀ entry, entry ∈ used kheapStartAddress blocks ↔
      entry ∈ used kheapStartAddress after := by
    intro entry
    refine ⟨remains entry, used_of_kept nextLive ?_ entry⟩
    intro pointer listed
    obtain ⟨old, member, rfl⟩ := List.mem_map.mp (live.owned.mem_iff.mp listed)
    exact ⟨old, member, rfl, remains old member⟩
  have windowEnd := live.represents.window.finish
  have allocatedEnd := allocatedLive.represents.window.finish
  have sized := represented_sized live.represents
  simp only at finish allocatedEnd
  refine ⟨next, headers 0 0 kheapStartAddress blocks, freed,
    represents_follows flat_laws live.represents, by omega, finish, ?_⟩
  have follows := represents_follows flat_laws nextLive.represents
  by_cases unchanged : allocated.kheapEnd = run.heap.kheapEnd
  · have list := represented_unique nextLive.represents sized live.represents.separated sameUsed
      (by simp only; omega)
    rw [if_pos unchanged]
    rwa [list] at follows
  · have grownSized := extend_blocks_sized sized
      (Nat.sub_pos_of_lt (by omega) : 0 < allocated.kheapEnd - run.heap.kheapEnd)
    have list := represented_unique nextLive.represents grownSized (separated_normalize _)
      (fun entry => by rw [← sameUsed entry, used_extend_blocks]) (by
        rw [finish, total_extend_blocks]
        omega)
    rw [if_neg unchanged, windowEnd, ← headers_extend live.represents.separated, ← windowEnd]
    rwa [list] at follows

theorem willing_kfree_undoes :
    ∃ next entries, kfree willingCall.2 0xC2000010 = some next ∧
      Follows willingHeap.world willingHeap.kheapFirst entries ∧
      willingHeap.kheapEnd ≤ willingCall.2.kheapEnd ∧ next.kheapEnd = willingCall.2.kheapEnd ∧
      Follows next.world next.kheapFirst
        (if willingCall.2.kheapEnd = willingHeap.kheapEnd then entries
        else growTail willingHeap.kheapEnd (willingCall.2.kheapEnd - willingHeap.kheapEnd)
          entries) := by
  have initial : (wideRuns Initialised).initial ⟨willingHeap, []⟩ := ⟨willing_heap_started.1, rfl⟩
  exact kfree_undoes_kmalloc (.start initial) (by decide) willing_call_returned (by decide)

end SimplyOs.FreeOrder
