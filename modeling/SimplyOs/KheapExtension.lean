import SimplyOs.KheapOperations

/-!
# What extending the heap does to the block list

`kheap_extend` maps pages one by one behind the window and then makes them a free
block at the end of the list. When a page cannot be had the list stays as it is,
whatever was mapped before; the platform only has to forget those pages.
-/

namespace SimplyOs.KheapExtension

open SimplyOs.Word SimplyOs.Kheap SimplyOs.KheapMemory SimplyOs.KheapBlocks
open SimplyOs.KheapOperations
open SimplyOs.Library.ByteMemory SimplyOs.Library.BlockList SimplyOs.Library.LinkedBlocks

set_option autoImplicit false

variable {World : Type} [Platform World] {Shows : World → Nat → Memory → Prop}
variable {world : World} {limit : Nat} {memory : Memory}

/-- The largest request whose size in pages does not wrap. -/
def largestNeeded : Nat := 0xFFFFF000

theorem extend_pages_cover {minBytes : Nat} (small : minBytes ≤ largestNeeded) :
    minBytes ≤ extendPages minBytes * pageSize ∧ kheapGrowPages ≤ extendPages minBytes := by
  unfold extendPages
  by_cases little : minBytes < kheapGrowPages * pageSize
  · rw [if_pos little]
    simp only [kheapGrowPages, pageSize] at *
    rw [add32_eq (by omega)]
    omega
  · rw [if_neg little]
    simp only [largestNeeded, kheapGrowPages, pageSize] at *
    rw [add32_eq (by omega)]
    omega

theorem extend_pages_pos {minBytes : Nat} (small : minBytes ≤ largestNeeded) :
    0 < extendPages minBytes :=
  Nat.lt_of_lt_of_le (by decide) (extend_pages_cover small).2

/-! ## Mapping pages -/

theorem window_room_iff {mapAt : Nat} (lower : kheapStartAddress ≤ mapAt)
    (upper : mapAt ≤ kheapStartAddress + kheapMaxBytes) :
    sub32 (add32 mapAt pageSize) kheapStartAddress > kheapMaxBytes ↔
      ¬mapAt + pageSize ≤ kheapStartAddress + kheapMaxBytes := by
  have word : mapAt + pageSize < 2 ^ 32 := by
    simp only [kheapStartAddress, kheapMaxBytes, pageSize] at *
    omega
  rw [add32_eq word, sub32_eq (by omega) word]
  omega

/-- Either the loop reaches its end and the window has grown, or it stops and
what the window showed before is still shown. -/
theorem kheap_map_pages_spec (laws : PlatformLaws World Shows) (pages : Nat)
    (shows : Shows world limit memory) (aligned : limit % pageSize = 0)
    (lower : kheapStartAddress ≤ limit) (upper : limit ≤ kheapStartAddress + kheapMaxBytes) :
    ∃ reached after bytes finish,
      kheapMapPages kheapStartAddress pages world limit = some (reached, after) ∧
      Shows after finish bytes ∧ Agree kheapStartAddress limit memory bytes ∧
      (reached = none ∧ finish = limit ∨
        reached = some finish ∧ finish = limit + pages * pageSize ∧
          finish ≤ kheapStartAddress + kheapMaxBytes) := by
  induction pages generalizing world limit memory with
  | zero =>
      exact ⟨some limit, world, memory, limit, rfl, shows, agree_refl,
        Or.inr ⟨rfl, by simp, upper⟩⟩
  | succ pages ih =>
      rw [kheapMapPages]
      by_cases room : limit + pageSize ≤ kheapStartAddress + kheapMaxBytes
      · rw [if_neg (fun full => (window_room_iff lower upper).mp full room)]
        by_cases noFrame : (Platform.pmmAllocFrame world).1 = 0
        · exact ⟨none, (Platform.pmmAllocFrame world).2, memory, limit, by simp [noFrame],
            laws.noFrame shows noFrame, agree_refl, Or.inl ⟨rfl, rfl⟩⟩
        · obtain ⟨mapped, after, run, success, failure⟩ :=
            laws.mapPage shows aligned lower room noFrame
          simp only [noFrame, if_false, run, Option.bind_eq_bind, Option.bind_some]
          cases mapped with
          | false =>
              exact ⟨none, Platform.pmmFreeFrame after (Platform.pmmAllocFrame world).1, memory,
                limit, rfl, failure rfl, agree_refl, Or.inl ⟨rfl, rfl⟩⟩
          | true =>
              obtain ⟨fresh, shown, same⟩ := success rfl
              have grown : add32 limit pageSize = limit + pageSize := by
                simp only [kheapStartAddress, kheapMaxBytes] at room
                exact add32_eq (by omega)
              obtain ⟨reached, last, bytes, finish, rest, lastShown, kept, outcome⟩ :=
                ih shown (by rw [Nat.add_mod_right]; exact aligned) (by omega) room
              have keptBelow := agree_mono kept (Nat.le_refl _) (Nat.le_add_right limit pageSize)
              rw [grown]
              rcases outcome with ⟨stopped, place⟩ | ⟨done, place, inside⟩
              · refine ⟨reached, last, bytes, limit, rest, ?_, agree_trans same keptBelow,
                  Or.inl ⟨stopped, rfl⟩⟩
                exact laws.shrink lastShown (by omega)
              · refine ⟨reached, last, bytes, finish, rest, lastShown,
                  agree_trans same keptBelow, Or.inr ⟨done, ?_, inside⟩⟩
                rw [place, Nat.succ_mul, Nat.add_assoc, Nat.add_comm pageSize]
      · rw [if_pos ((window_room_iff lower upper).mpr room)]
        exact ⟨none, world, memory, limit, rfl, shows, agree_refl, Or.inl ⟨rfl, rfl⟩⟩

/-! ## Appending the new block -/

section Appending

variable {finish size : Nat} {front middle : List Block} {last : Block} {after : Memory}

theorem window_extend (window : Window limit memory (front ++ [last]))
    (place : finish = kheapStartAddress + total (front ++ middle)) (filled : middle ≠ [])
    (sized : ∀ block ∈ middle, kheapMinBlock ≤ block.size)
    (grained : ∀ block ∈ middle, kheapAlignment ∣ block.size)
    (bounded : total (front ++ middle) ≤ kheapMaxBytes)
    (before : Agree kheapStartAddress (kheapStartAddress + total front) memory after)
    (inner : Segment (headerAt after) 0 (lastOr 0 kheapStartAddress front)
      (kheapStartAddress + total front) middle) : Window finish after (front ++ middle) := by
  have frontSized : ∀ block ∈ front, kheapMinBlock ≤ block.size :=
    fun block member => window.sized block (List.mem_append_left _ member)
  have frontGrained : ∀ block ∈ front, kheapAlignment ∣ block.size :=
    fun block member => window.grained block (List.mem_append_left _ member)
  have frontLinked := segment_of_agree before (Nat.le_refl _) (Nat.le_refl _) frontSized
    (segment_append.mp window.threaded).1
  refine ⟨place, segment_append.mpr ⟨?_, inner⟩, ?_, ?_, bounded⟩
  · cases middle with
    | nil => exact absurd rfl filled
    | cons block rest => exact frontLinked
  · intro block member
    rcases List.mem_append.mp member with inFront | inMiddle
    · exact frontSized block inFront
    · exact sized block inMiddle
  · intro block member
    rcases List.mem_append.mp member with inFront | inMiddle
    · exact frontGrained block inFront
    · exact grained block inMiddle

/-- What `kheap_append` starts from: a listed window and, right behind it, the
header of a free block with no neighbours. -/
structure Fresh (limit finish size : Nat) (memory : Memory) : Prop where
  place : finish = limit + size
  header : headerAt memory limit = ⟨size, true, 0, 0⟩
  large : kheapMinBlock ≤ size
  grained : kheapAlignment ∣ size
  inside : finish ≤ kheapStartAddress + kheapMaxBytes

theorem fresh_header_inside (fresh : Fresh limit finish size memory)
    (window : Window limit memory (front ++ [last])) : HeaderInside finish limit := by
  have place := fresh.place
  have large := fresh.large
  have windowEnd := window.finish
  have aligned : kheapAlignment ∣ total (front ++ [last]) := total_grained window.grained
  simp only [kheapMinBlock] at large
  refine ⟨by omega, by omega, ?_⟩
  rw [windowEnd]
  exact Nat.mod_eq_zero_of_dvd (Nat.dvd_add (by decide) aligned)

theorem append_last_eq (laws : PlatformLaws World Shows) (shows : Shows world finish memory)
    (window : Window limit memory (front ++ [last])) (inner : limit ≤ finish) :
    kheapLast world loopFuel kheapStartAddress = some (kheapStartAddress + total front) ∧
      headerAt memory (kheapStartAddress + total front) =
        ⟨last.size, last.free, 0, lastOr 0 kheapStartAddress front⟩ ∧
      HeaderInside finish (kheapStartAddress + total front) ∧
      limit = kheapStartAddress + total front + last.size ∧ kheapMinBlock ≤ last.size := by
  have walk := kheap_last_eq laws shows loopFuel window.threaded (by simp)
    (fun entry member => header_inside_mono (window_entry_inside window member) inner)
    (Nat.le_of_lt (window_length_lt_fuel window))
  rw [lastOr_concat] at walk
  exact ⟨walk, segment_header window.threaded, header_inside_mono (window_inside window) inner,
    by simpa [Nat.add_assoc] using window.finish, window.sized last (by simp)⟩

/-- A free last block grows over the new one. -/
theorem kheap_append_grow (laws : PlatformLaws World Shows) (shows : Shows world finish memory)
    (window : Window limit memory (front ++ [last])) (fresh : Fresh limit finish size memory)
    (free : last.free = true) :
    ∃ after bytes, kheapAppend world kheapStartAddress limit = some after ∧
      Shows after finish bytes ∧ Window finish bytes (front ++ [⟨last.size + size, true⟩]) ∧
      HeadersOnly limit (starts (front ++ [last])) memory bytes := by
  have freshInside := fresh_header_inside fresh window
  obtain ⟨place, freshHeader, large, grained, within⟩ := fresh
  obtain ⟨walk, header, inside, windowEnd, lastLarge⟩ :=
    append_last_eq laws shows window (by omega)
  have word : finish < 2 ^ 32 := by
    simp only [kheapStartAddress, kheapMaxBytes] at within
    omega
  have adjacent : add32 (kheapStartAddress + total front) last.size = limit := by
    rw [add32_eq (by omega)]
    exact windowEnd.symm
  have sum : add32 last.size size = last.size + size := add32_eq (by omega)
  obtain ⟨after, bytes, run, shown, written⟩ :=
    set_size_written laws shows inside (last.size + size)
  rw [header, Nat.mod_eq_of_lt (by omega)] at written
  refine ⟨after, bytes, ?_, shown, ?_, headers_only_written mem_starts written⟩
  · simp only [kheapAppend, walk, block_isFree_eq laws shows inside,
      block_size_eq laws shows inside, header, free, adjacent,
      block_size_eq laws shows freshInside, freshHeader, sum, run, Option.bind_eq_bind,
      Option.bind_some, if_true, Option.map_some, beq_self_eq_true]
  · apply window_extend window _ (by simp)
    · simp only [List.mem_singleton, forall_eq]
      omega
    · simp only [List.mem_singleton, forall_eq]
      exact Nat.dvd_add (window.grained last (by simp)) grained
    · simp only [total_append, total_cons, total_nil]
      omega
    · exact header_written_agree written (Or.inr (Nat.le_refl _))
    · refine ⟨?_, trivial⟩
      rw [written.header, free]
      rfl
    · simp only [total_append, total_cons, total_nil]
      omega

/-- A used last block is followed by the new one. -/
theorem kheap_append_link (laws : PlatformLaws World Shows) (shows : Shows world finish memory)
    (window : Window limit memory (front ++ [last])) (fresh : Fresh limit finish size memory)
    (taken : last.free = false) :
    ∃ after bytes, kheapAppend world kheapStartAddress limit = some after ∧
      Shows after finish bytes ∧ Window finish bytes (front ++ [last, ⟨size, true⟩]) ∧
      HeadersOnly limit (starts (front ++ [last])) memory bytes := by
  have freshInside := fresh_header_inside fresh window
  obtain ⟨place, freshHeader, large, grained, within⟩ := fresh
  obtain ⟨walk, header, inside, windowEnd, lastLarge⟩ :=
    append_last_eq laws shows window (by omega)
  have word : finish < 2 ^ 32 := by
    simp only [kheapStartAddress, kheapMaxBytes] at within
    omega
  have apart : kheapStartAddress + total front + sizeofBlock ≤ limit := by
    simp only [kheapMinBlock] at lastLarge
    omega
  obtain ⟨backed, backedBytes, backRun, backShown, backWritten⟩ :=
    set_prev_written laws shows freshInside (kheapStartAddress + total front)
  have lastHeader := header_written_other backWritten (Or.inr apart)
  rw [freshHeader, Nat.mod_eq_of_lt (by omega)] at backWritten
  obtain ⟨after, bytes, run, shown, written⟩ := set_next_written laws backShown inside limit
  have newHeader := header_written_other written (Or.inl apart)
  rw [lastHeader, header, Nat.mod_eq_of_lt (by omega)] at written
  refine ⟨after, bytes, ?_, shown, ?_, ?_⟩
  · simp only [kheapAppend, walk, block_isFree_eq laws shows inside, header, taken, backRun, run,
      Option.bind_eq_bind, Option.bind_some, Bool.false_eq_true, if_false]
  · apply window_extend window _ (by simp)
    · simp only [List.mem_cons, List.not_mem_nil, or_false, forall_eq_or_imp, forall_eq]
      exact ⟨lastLarge, large⟩
    · simp only [List.mem_cons, List.not_mem_nil, or_false, forall_eq_or_imp, forall_eq]
      exact ⟨window.grained last (by simp), grained⟩
    · simp only [total_append, total_cons, total_nil]
      omega
    · exact agree_trans (header_written_agree backWritten (Or.inr (by omega)))
        (header_written_agree written (Or.inr (Nat.le_refl _)))
    · refine ⟨?_, ?_, trivial⟩
      · rw [written.header, windowEnd, taken]
        rfl
      · rw [← windowEnd, newHeader, backWritten.header]
        rfl
    · simp only [total_append, total_cons, total_nil]
      omega
  · intro spot above below outside
    have first := outside (kheapStartAddress + total front) mem_starts
    exact (written.frame spot first).trans (backWritten.frame spot (Or.inl below))

theorem kheap_append_spec (laws : PlatformLaws World Shows) (shows : Shows world finish memory)
    (window : Window limit memory (front ++ [last])) (fresh : Fresh limit finish size memory) :
    ∃ after bytes, kheapAppend world kheapStartAddress limit = some after ∧
      Shows after finish bytes ∧
      Window finish bytes (front ++ consMerge last [⟨size, true⟩]) ∧
      HeadersOnly limit (starts (front ++ [last])) memory bytes := by
  cases free : last.free with
  | false => simpa [consMerge, free] using kheap_append_link laws shows window fresh free
  | true => simpa [consMerge, free] using kheap_append_grow laws shows window fresh free

end Appending

/-! ## Extending -/

section Extending

variable {heap : KheapState World} {blocks : List Block} {finish size : Nat}

theorem kheap_new_block_spec (laws : PlatformLaws World Shows) (shows : Shows world finish memory)
    (inside : HeaderInside finish limit) (small : size < 2 ^ 32) :
    ∃ after bytes, kheapNewBlock world limit size = some after ∧ Shows after finish bytes ∧
      HeaderWritten memory bytes limit ⟨size, true, 0, 0⟩ := by
  obtain ⟨sized, marked, linked, after, _, bytes, _, sizeRun, markRun, nextRun, prevRun, _, _,
    shown, written⟩ := new_header_written laws shows inside small (by decide : 0 < 2 ^ 32)
      (by decide : 0 < 2 ^ 32)
  refine ⟨after, bytes, ?_, shown, written⟩
  simp only [kheapNewBlock, sizeRun, markRun, nextRun, prevRun, Option.bind_eq_bind,
    Option.bind_some]

def extendBlocks (blocks : List Block) (size : Nat) : List Block :=
  normalize (blocks ++ [⟨size, true⟩])

@[simp] theorem total_extend_blocks (blocks : List Block) (size : Nat) :
    total (extendBlocks blocks size) = total blocks + size := by
  rw [extendBlocks, total_normalize, total_append, total_cons, total_nil, Nat.add_zero]

@[simp] theorem used_extend_blocks (start : Nat) (blocks : List Block) (size : Nat) :
    used start (extendBlocks blocks size) = used start blocks := by
  rw [extendBlocks, used_normalize, used_append, used_cons, if_pos rfl]
  exact List.append_nil _

theorem extend_blocks_concat {front : List Block} {last : Block}
    (separated : (front ++ [last]).IsChain Apart) (size : Nat) :
    extendBlocks (front ++ [last]) size = front ++ consMerge last [⟨size, true⟩] := by
  rw [extendBlocks, List.append_assoc]
  exact normalize_between separated List.isChain_nil

theorem extend_blocks_sized (sized : ∀ block ∈ blocks, 0 < block.size) (some : 0 < size) :
    ∀ block ∈ extendBlocks blocks size, 0 < block.size := by
  have normal : Canonical 1 1 (extendBlocks blocks size) := by
    apply canonical_normalize
    · intro block member
      rcases List.mem_append.mp member with old | new
      · exact sized block old
      · rw [List.mem_singleton.mp new]
        exact some
    · exact fun block _ => Nat.one_dvd _
  exact normal.sized

theorem fresh_first_window {limit : Nat} (window : Window limit memory [])
    (fresh : Fresh limit finish size memory) : Window finish memory (extendBlocks [] size) := by
  have base : limit = kheapStartAddress := window.finish
  have alone : extendBlocks [] size = [⟨size, true⟩] := rfl
  have place := fresh.place
  have inside := fresh.inside
  rw [alone]
  refine ⟨by simp [place, base], ⟨?_, trivial⟩, by simpa using fresh.large,
    by simpa using fresh.grained, ?_⟩
  · rw [← base, fresh.header]
    rfl
  · simp only [total_cons, total_nil]
    omega

theorem fresh_later_window (laws : PlatformLaws World Shows) {limit : Nat} {front : List Block}
    {last : Block} (shows : Shows world finish memory)
    (window : Window limit memory (front ++ [last])) (fresh : Fresh limit finish size memory)
    (separated : (front ++ [last]).IsChain Apart) :
    ∃ after bytes, kheapAppend world kheapStartAddress limit = some after ∧
      Shows after finish bytes ∧ Window finish bytes (extendBlocks (front ++ [last]) size) ∧
      HeadersOnly limit (starts (front ++ [last])) memory bytes := by
  rw [extend_blocks_concat separated size]
  exact kheap_append_spec laws shows window fresh

theorem kheap_add_pages_spec (laws : PlatformLaws World Shows)
    (represents : Represents Shows heap memory blocks) {mapped : Memory}
    (shows : Shows world finish mapped)
    (same : Agree kheapStartAddress heap.kheapEnd memory mapped)
    (place : finish = heap.kheapEnd + size) (large : kheapMinBlock ≤ size)
    (paged : pageSize ∣ size) (within : finish ≤ kheapStartAddress + kheapMaxBytes) :
    ∃ next bytes, kheapAddPages heap world finish = some next ∧
      Represents Shows next bytes (extendBlocks blocks size) ∧
      HeadersOnly heap.kheapEnd (starts blocks) memory bytes := by
  have windowEnd := represents.window.finish
  have grained : kheapAlignment ∣ size := Nat.dvd_trans (by decide) paged
  have word : finish < 2 ^ 32 := by
    simp only [kheapStartAddress, kheapMaxBytes] at within
    omega
  have inside : HeaderInside finish heap.kheapEnd := by
    have aligned := Nat.dvd_add (by decide : kheapAlignment ∣ kheapStartAddress)
      (total_grained represents.window.grained)
    rw [← windowEnd] at aligned
    simp only [kheapMinBlock] at large
    exact ⟨by omega, by omega, Nat.mod_eq_zero_of_dvd aligned⟩
  have length : sub32 finish heap.kheapEnd = size := by
    rw [sub32_eq (by omega) word]
    omega
  obtain ⟨built, builtBytes, buildRun, builtShown, written⟩ :=
    kheap_new_block_spec laws shows inside (by omega : size < 2 ^ 32)
  have kept : Agree kheapStartAddress heap.kheapEnd memory builtBytes :=
    agree_trans same (header_written_agree written (Or.inr (Nat.le_refl _)))
  have window := window_of_agree represents.window kept
  have fresh : Fresh heap.kheapEnd finish size builtBytes :=
    ⟨place, written.header, large, grained, within⟩
  have sum : pageSize ∣ total (extendBlocks blocks size) := by
    rw [total_extend_blocks]
    exact Nat.dvd_add represents.paged paged
  have first : headOr 0 kheapStartAddress (extendBlocks blocks size) = kheapStartAddress :=
    headOr_of_ne_nil _ _ (normalize_ne_nil (by simp))
  rw [kheapAddPages, length, buildRun]
  rcases List.eq_nil_or_concat' blocks with rfl | ⟨front, last, rfl⟩
  · have empty : heap.kheapFirst = 0 := represents.first
    have base : heap.kheapEnd = kheapStartAddress := windowEnd
    exact ⟨{ heap with kheapFirst := heap.kheapEnd, kheapEnd := finish, world := built },
      builtBytes, by simp [empty], ⟨represents.start, base.trans first.symm, builtShown,
        fresh_first_window window fresh, separated_normalize _, sum⟩,
      headers_only_agree (Nat.le_refl _) kept⟩
  · have nonzero : heap.kheapFirst = kheapStartAddress := by
      rw [represents.first]
      exact headOr_of_ne_nil _ _ (by simp)
    obtain ⟨after, bytes, run, shown, extended, only⟩ :=
      fresh_later_window laws builtShown window fresh represents.separated
    refine ⟨{ heap with kheapEnd := finish, world := after }, bytes, ?_,
      ⟨represents.start, nonzero.trans first.symm, shown, extended, separated_normalize _, sum⟩,
      headers_only_trans (headers_only_agree (Nat.le_refl _) kept) only⟩
    simp only [nonzero, if_neg (by decide : kheapStartAddress ≠ 0), run, Option.bind_eq_bind,
      Option.bind_some]

/-- Extending either fails and changes nothing that the list can see, or puts
whole pages behind the list. -/
theorem kheap_extend_spec (laws : PlatformLaws World Shows)
    (represents : Represents Shows heap memory blocks) {minBytes : Nat}
    (filled : 0 < extendPages minBytes) :
    ∃ extended next bytes, kheapExtend heap minBytes = some (extended, next) ∧
      HeadersOnly heap.kheapEnd (starts blocks) memory bytes ∧
      Represents Shows next bytes
        (if extended then extendBlocks blocks (extendPages minBytes * pageSize) else blocks) := by
  have windowEnd := represents.window.finish
  have bounded := represents.window.bounded
  by_cases full : sub32 heap.kheapEnd heap.kheapStart ≥ kheapMaxBytes
  · exact ⟨false, heap, memory, by rw [kheapExtend, if_pos full], headers_only_refl, represents⟩
  · have aligned : heap.kheapEnd % pageSize = 0 := by
      rw [windowEnd]
      exact Nat.mod_eq_zero_of_dvd (Nat.dvd_add (by decide) represents.paged)
    obtain ⟨reached, after, bytes, finish, run, shown, same, outcome⟩ :=
      kheap_map_pages_spec laws (extendPages minBytes) represents.shows aligned (by omega)
        (by omega)
    rw [kheapExtend, if_neg full, represents.start, run]
    have unlisted : HeadersOnly heap.kheapEnd (starts blocks) memory bytes :=
      headers_only_agree (Nat.le_refl _) same
    rcases outcome with ⟨stopped, place⟩ | ⟨done, place, within⟩
    · refine ⟨false, { heap with world := after }, bytes, by simp [stopped, represents.start],
        unlisted, ?_⟩
      rw [place] at shown
      exact ⟨represents.start, represents.first, shown, window_of_agree represents.window same,
        represents.separated, represents.paged⟩
    · have large : kheapMinBlock ≤ extendPages minBytes * pageSize := by
        have page : kheapMinBlock ≤ pageSize := by decide
        exact Nat.le_trans page (Nat.le_mul_of_pos_left _ filled)
      obtain ⟨next, nextBytes, added, extended, only⟩ :=
        kheap_add_pages_spec laws represents shown same place large (Nat.dvd_mul_left _ _) within
      exact ⟨true, next, nextBytes, by simp [done, added], only, extended⟩

end Extending

end SimplyOs.KheapExtension
