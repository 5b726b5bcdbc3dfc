import SimplyOs.KheapBlocks

/-!
# What splitting and merging do to the block list

One specification for each function of the source that rewrites headers. Each
says which block list the new memory threads, and that no byte outside the
headers of the listed blocks has changed.
-/

namespace SimplyOs.KheapOperations

open SimplyOs.Word SimplyOs.Kheap SimplyOs.KheapMemory SimplyOs.KheapBlocks
open SimplyOs.Library.ByteMemory SimplyOs.Library.BlockList SimplyOs.Library.LinkedBlocks

set_option autoImplicit false

variable {World : Type} [Platform World] {Shows : World → Nat → Memory → Prop}
variable {world : World} {limit : Nat} {memory : Memory}

/-! ## Runs of header stores -/

theorem new_header_written (laws : PlatformLaws World Shows) (shows : Shows world limit memory)
    {block size next prev : Nat} (inside : HeaderInside limit block) (sizeSmall : size < 2 ^ 32)
    (nextSmall : next < 2 ^ 32) (prevSmall : prev < 2 ^ 32) :
    ∃ sized marked linked after markedBytes bytes header,
      setSize world block size = some sized ∧ setIsFree sized block true = some marked ∧
      setNext marked block next = some linked ∧ setPrev linked block prev = some after ∧
      Shows marked limit markedBytes ∧ HeaderWritten memory markedBytes block header ∧
      Shows after limit bytes ∧ HeaderWritten memory bytes block ⟨size, true, next, prev⟩ := by
  obtain ⟨sized, sizedBytes, sizeRun, sizeShown, sizeWritten⟩ :=
    set_size_written laws shows inside size
  obtain ⟨marked, markedBytes, markRun, markShown, markWritten⟩ :=
    set_isFree_written laws sizeShown inside true
  obtain ⟨linked, linkedBytes, nextRun, nextShown, nextWritten⟩ :=
    set_next_written laws markShown inside next
  obtain ⟨after, bytes, prevRun, prevShown, prevWritten⟩ :=
    set_prev_written laws nextShown inside prev
  have firstTwo := header_written_trans sizeWritten markWritten
  have firstThree := header_written_trans firstTwo nextWritten
  have all := header_written_trans firstThree prevWritten
  rw [nextWritten.header, markWritten.header, sizeWritten.header, Nat.mod_eq_of_lt sizeSmall,
    Nat.mod_eq_of_lt nextSmall, Nat.mod_eq_of_lt prevSmall] at all
  exact ⟨sized, marked, linked, after, markedBytes, bytes, _, sizeRun, markRun, nextRun, prevRun,
    markShown, firstTwo, prevShown, all⟩

/-- The three stores that shorten a block, mark it used and link it to its remainder. -/
theorem used_header_written (laws : PlatformLaws World Shows) (shows : Shows world limit memory)
    {block size next : Nat} (inside : HeaderInside limit block) (sizeSmall : size < 2 ^ 32)
    (nextSmall : next < 2 ^ 32) :
    ∃ sized marked after bytes, setSize world block size = some sized ∧
      setIsFree sized block false = some marked ∧ setNext marked block next = some after ∧
      Shows after limit bytes ∧
      HeaderWritten memory bytes block ⟨size, false, next, (headerAt memory block).prev⟩ := by
  obtain ⟨sized, sizedBytes, sizeRun, sizeShown, sizeWritten⟩ :=
    set_size_written laws shows inside size
  obtain ⟨marked, markedBytes, markRun, markShown, markWritten⟩ :=
    set_isFree_written laws sizeShown inside false
  obtain ⟨after, bytes, nextRun, nextShown, nextWritten⟩ :=
    set_next_written laws markShown inside next
  have all := header_written_trans (header_written_trans sizeWritten markWritten) nextWritten
  rw [markWritten.header, sizeWritten.header, Nat.mod_eq_of_lt sizeSmall,
    Nat.mod_eq_of_lt nextSmall] at all
  exact ⟨sized, marked, after, bytes, sizeRun, markRun, nextRun, nextShown, all⟩

/-- `if (next != NULL) next->prev = prev`, where `next` is the head of `back`. -/
theorem relink_next_written (laws : PlatformLaws World Shows)
    (shows : Shows world limit memory) {back : List Block} {start prev : Nat}
    (inside : back ≠ [] → HeaderInside limit start) (small : prev < 2 ^ 32) :
    ∃ after bytes,
      (if headOr 0 start back ≠ 0 then setPrev world (headOr 0 start back) prev
        else some world) = some after ∧ Shows after limit bytes ∧
      (back ≠ [] → headerAt bytes start = { headerAt memory start with prev := prev }) ∧
      ∀ place, back = [] ∨ place < start ∨ start + sizeofBlock ≤ place →
        bytes place = memory place := by
  cases back with
  | nil => exact ⟨world, memory, by simp [headOr], shows, by simp, fun _ _ => rfl⟩
  | cons next rest =>
      have here := inside (by simp)
      have nonzero : start ≠ 0 := by
        have lower := here.lower
        simp only [kheapStartAddress] at lower
        omega
      obtain ⟨after, bytes, run, shown, written⟩ := set_prev_written laws shows here prev
      rw [Nat.mod_eq_of_lt small] at written
      refine ⟨after, bytes, by rw [headOr_cons, if_pos nonzero]; exact run, shown,
        fun _ => written.header, ?_⟩
      intro place outside
      exact written.frame place (by simpa using outside)

/-- Changing the status of one block, which starts `kfree` and ends `kheap_split`. -/
theorem set_isFree_window (laws : PlatformLaws World Shows) (shows : Shows world limit memory)
    {front back : List Block} {block : Block}
    (window : Window limit memory (front ++ ([block] ++ back))) (free : Bool) :
    ∃ after bytes, setIsFree world (kheapStartAddress + total front) free = some after ∧
      Shows after limit bytes ∧ Window limit bytes (front ++ ([⟨block.size, free⟩] ++ back)) ∧
      HeadersOnly limit (starts (front ++ ([⟨block.size, free⟩] ++ back))) memory bytes := by
  have inside := window_inside window
  have header := segment_header window.threaded
  obtain ⟨after, bytes, run, shown, written⟩ := set_isFree_written laws shows inside free
  have place : kheapStartAddress + total front + total [block] =
      kheapStartAddress + total front + block.size := by simp
  have large := window.sized block (by simp)
  simp only [kheapMinBlock, sizeofBlock, kheapAlignment] at large
  refine ⟨after, bytes, run, shown, ?_, headers_only_written mem_starts written⟩
  apply window_splice window (by simp) (by simp) (by simp)
  · intro member isIn
    obtain rfl := List.mem_singleton.mp isIn
    exact window.sized block (by simp)
  · intro member isIn
    obtain rfl := List.mem_singleton.mp isIn
    exact window.grained block (by simp)
  · exact header_written_agree written (Or.inr (Nat.le_refl _))
  · refine ⟨?_, trivial⟩
    rw [written.header, header, place]
    rfl
  · intro filled
    have back := segment_header_behind window.threaded filled
    rw [place, header_written_other written (by simp only [sizeofBlock]; omega)]
    exact Header.ext rfl rfl rfl back
  · exact header_written_agree written (Or.inl (by rw [place]; omega))

/-! ## Splitting -/

section Splitting

variable {front back : List Block} {block : Block} {needed : Nat}

theorem kheap_split_whole (laws : PlatformLaws World Shows) (shows : Shows world limit memory)
    (window : Window limit memory (front ++ ([block] ++ back)))
    (small : needed + kheapMinBlock < 2 ^ 32) (short : block.size < needed + kheapMinBlock) :
    ∃ after bytes, kheapSplit world (kheapStartAddress + total front) needed = some after ∧
      Shows after limit bytes ∧
      Window limit bytes (front ++ ([⟨block.size, false⟩] ++ back)) ∧
      HeadersOnly limit (starts (front ++ ([⟨block.size, false⟩] ++ back))) memory bytes := by
  obtain ⟨after, bytes, run, shown, taken, only⟩ := set_isFree_window laws shows window false
  refine ⟨after, bytes, ?_, shown, taken, only⟩
  have header := segment_header window.threaded
  simp only [kheapSplit, block_size_eq laws shows (window_inside window), header,
    add32_eq small, if_pos short, run, Option.bind_eq_bind, Option.bind_some]

structure SplitWritten (memory bytes : Memory) (here needed size : Nat) (prev : Nat)
    (back : List Block) : Prop where
  block : headerAt bytes here = ⟨needed, false, here + needed, prev⟩
  remainder : headerAt bytes (here + needed) =
    ⟨size - needed, true, headOr 0 (here + size) back, here⟩
  next : back ≠ [] →
    headerAt bytes (here + size) = { headerAt memory (here + size) with prev := here + needed }
  frame : ∀ spot, spot < here ∨ here + sizeofBlock ≤ spot →
    spot < here + needed ∨ here + needed + sizeofBlock ≤ spot →
    back = [] ∨ spot < here + size ∨ here + size + sizeofBlock ≤ spot → bytes spot = memory spot

theorem kheap_split_written (laws : PlatformLaws World Shows)
    (shows : Shows world limit memory) (window : Window limit memory (front ++ ([block] ++ back)))
    (long : needed + kheapMinBlock ≤ block.size) (large : kheapMinBlock ≤ needed)
    (grained : kheapAlignment ∣ needed) :
    ∃ after bytes, kheapSplit world (kheapStartAddress + total front) needed = some after ∧
      Shows after limit bytes ∧
      SplitWritten memory bytes (kheapStartAddress + total front) needed block.size
        (lastOr 0 kheapStartAddress front) back := by
  have inside := window_inside window
  have header : headerAt memory (kheapStartAddress + total front) =
      ⟨block.size, block.free, headOr 0 (kheapStartAddress + total front + block.size) back,
        lastOr 0 kheapStartAddress front⟩ := segment_header window.threaded
  have place : kheapStartAddress + total front + total [block] =
      kheapStartAddress + total front + block.size := by simp
  have nextSmall := window_next_lt_word window
  have backInside := window_behind window
  have backLinked := segment_header_behind window.threaded
  rw [place] at nextSmall backInside
  have word := window_lt_word window
  have finish : limit = kheapStartAddress + (total front + (block.size + total back)) := by
    simpa using window.finish
  have remainderInside : HeaderInside limit (kheapStartAddress + total front + needed) := by
    obtain ⟨lower, upper, aligned⟩ := inside
    simp only [kheapMinBlock, sizeofBlock, kheapAlignment] at *
    exact ⟨by omega, by simp only [sizeofBlock]; omega, by simp only [kheapAlignment]; omega⟩
  have sum : add32 needed kheapMinBlock = needed + kheapMinBlock := add32_eq (by omega)
  have left : sub32 block.size needed = block.size - needed := sub32_eq (by omega) (by omega)
  have apart : needed + 24 ≤ block.size ∧ 24 ≤ needed := ⟨long, large⟩
  -- the header of the remainder, and the links of its two neighbours
  obtain ⟨sized, marked, linked, built, markedBytes, builtBytes, partHeader, sizeRun, markRun,
      nextRun, prevRun, markShown, markWritten, builtShown, builtWritten⟩ :=
    new_header_written laws shows remainderInside (by omega : block.size - needed < 2 ^ 32)
      nextSmall (by omega : kheapStartAddress + total front < 2 ^ 32)
  have markedHeader := header_written_other markWritten
    (Or.inr (by simp only [sizeofBlock]; omega) :
      _ ∨ kheapStartAddress + total front + sizeofBlock ≤ _)
  have builtHeader := header_written_other builtWritten
    (Or.inr (by simp only [sizeofBlock]; omega) :
      _ ∨ kheapStartAddress + total front + sizeofBlock ≤ _)
  obtain ⟨joined, joinedBytes, joinRun, joinShown, joinHeader, joinFrame⟩ :=
    relink_next_written laws builtShown backInside
      (by omega : kheapStartAddress + total front + needed < 2 ^ 32)
  have joinedHeader : headerAt joinedBytes (kheapStartAddress + total front) =
      headerAt memory (kheapStartAddress + total front) := by
    rw [← builtHeader]
    exact header_of_agree (fun spot above below => joinFrame spot
      (Or.inr (Or.inl (by omega)))) (Nat.le_refl _) (Nat.le_refl _)
  obtain ⟨shortened, taken, after, bytes, shortRun, takenRun, linkRun, shown, written⟩ :=
    used_header_written laws joinShown inside (by omega : needed < 2 ^ 32)
      (by omega : kheapStartAddress + total front + needed < 2 ^ 32)
  have frame : ∀ spot,
      spot < kheapStartAddress + total front ∨
        kheapStartAddress + total front + sizeofBlock ≤ spot →
      spot < kheapStartAddress + total front + needed ∨
        kheapStartAddress + total front + needed + sizeofBlock ≤ spot →
      back = [] ∨ spot < kheapStartAddress + total front + block.size ∨
        kheapStartAddress + total front + block.size + sizeofBlock ≤ spot →
      bytes spot = memory spot := fun spot offBlock offRemainder offNext =>
    (written.frame spot offBlock).trans
      ((joinFrame spot offNext).trans (builtWritten.frame spot offRemainder))
  have remainderHeader : headerAt bytes (kheapStartAddress + total front + needed) =
      ⟨block.size - needed, true, headOr 0 (kheapStartAddress + total front + block.size) back,
        kheapStartAddress + total front⟩ := by
    rw [header_written_other written (Or.inl (by simp only [sizeofBlock]; omega)),
      ← builtWritten.header]
    refine header_of_agree (fun spot above below => joinFrame spot ?_) (Nat.le_refl _)
      (Nat.le_refl _)
    exact Or.inr (Or.inl (by omega))
  refine ⟨after, bytes, ?_, shown, ?_, remainderHeader, ?_, frame⟩
  · simp only [kheapSplit, block_size_eq laws shows inside, header, sum,
      if_neg (Nat.not_lt.mpr long), left, sizeRun, markRun, block_next_eq laws markShown inside,
      markedHeader, nextRun, prevRun, block_next_eq laws builtShown inside, builtHeader, joinRun,
      shortRun, takenRun, linkRun, Option.bind_eq_bind, Option.bind_some]
  · rw [written.header, joinedHeader, header]
  · intro filled
    rw [header_written_other written (Or.inl (by simp only [sizeofBlock]; omega)),
      joinHeader filled, header_written_other builtWritten
        (Or.inl (by simp only [sizeofBlock]; omega))]

theorem kheap_split_remainder (laws : PlatformLaws World Shows)
    (shows : Shows world limit memory) (window : Window limit memory (front ++ ([block] ++ back)))
    (long : needed + kheapMinBlock ≤ block.size) (large : kheapMinBlock ≤ needed)
    (grained : kheapAlignment ∣ needed) :
    ∃ after bytes, kheapSplit world (kheapStartAddress + total front) needed = some after ∧
      Shows after limit bytes ∧
      Window limit bytes
        (front ++ ([⟨needed, false⟩, ⟨block.size - needed, true⟩] ++ back)) ∧
      HeadersOnly limit
        (starts (front ++ ([⟨needed, false⟩, ⟨block.size - needed, true⟩] ++ back)))
        memory bytes := by
  obtain ⟨after, bytes, run, shown, written⟩ :=
    kheap_split_written laws shows window long large grained
  have frame := written.frame
  have blockGrained := window.grained block (by simp)
  have apart : needed + 24 ≤ block.size ∧ 24 ≤ needed := ⟨long, large⟩
  have place : kheapStartAddress + total front + total [block] =
      kheapStartAddress + total front + block.size := by simp
  refine ⟨after, bytes, run, shown, ?_, ?_⟩
  · apply window_splice window (by simp) (by simp)
    · simp only [total_cons, total_nil]
      omega
    · intro piece member
      rcases List.mem_cons.mp member with first | second
      · rw [first]
        exact large
      · rw [List.mem_singleton.mp second]
        exact Nat.le_sub_of_add_le' long
    · intro piece member
      rcases List.mem_cons.mp member with first | second
      · rw [first]
        exact grained
      · rw [List.mem_singleton.mp second]
        exact Nat.dvd_sub blockGrained grained
    · intro spot above below
      exact frame spot (Or.inl below) (Or.inl (by omega)) (Or.inr (Or.inl (by omega)))
    · rw [place]
      refine ⟨?_, ?_, trivial⟩
      · rw [written.block]
        rfl
      · rw [written.remainder]
        rfl
    · intro filled
      rw [place, written.next filled]
      rfl
    · intro spot above below
      rw [place] at above
      simp only [sizeofBlock] at above
      exact frame spot (Or.inr (by simp only [sizeofBlock]; omega))
        (Or.inr (by simp only [sizeofBlock]; omega)) (Or.inr (Or.inr above))
  · intro spot above below outside
    apply frame spot
    · exact outside _ mem_starts
    · exact outside _ (by simp [starts, placed_append, placed])
    · cases back with
      | nil => exact Or.inl rfl
      | cons next rest =>
          have same : kheapStartAddress + total front + needed + (block.size - needed) =
              kheapStartAddress + total front + block.size := by omega
          exact Or.inr (outside _ (by simp [starts, placed_append, placed, same]))

theorem kheap_split_spec (laws : PlatformLaws World Shows) (shows : Shows world limit memory)
    (window : Window limit memory (front ++ block :: back)) (fit : needed ≤ block.size)
    (large : kheapMinBlock ≤ needed) (grained : kheapAlignment ∣ needed) :
    ∃ after bytes, kheapSplit world (kheapStartAddress + total front) needed = some after ∧
      Shows after limit bytes ∧
      Window limit bytes (front ++ (carve kheapMinBlock needed block ++ back)) ∧
      HeadersOnly limit (starts (front ++ (carve kheapMinBlock needed block ++ back)))
        memory bytes := by
  by_cases short : block.size < needed + kheapMinBlock
  · have bounded := window.bounded
    have small : needed + kheapMinBlock < 2 ^ 32 := by
      simp only [total_append, total_cons, kheapMaxBytes] at bounded
      simp only [kheapMinBlock, sizeofBlock, kheapAlignment]
      omega
    rw [carve, if_pos short]
    exact kheap_split_whole laws shows window small short
  · rw [carve, if_neg short]
    exact kheap_split_remainder laws shows window (Nat.not_lt.mp short) large grained

end Splitting

/-! ## Merging -/

section Merging

variable {front back : List Block} {block next : Block} {address : Nat}

/-- What the stores of an absorption have made of the memory; `behind` is the place behind
both blocks. -/
structure AbsorbWritten (memory bytes : Memory) (here behind size : Nat) (free : Bool) (prev : Nat)
    (back : List Block) : Prop where
  block : headerAt bytes here = ⟨size, free, headOr 0 behind back, prev⟩
  next : back ≠ [] → headerAt bytes behind = { headerAt memory behind with prev := here }
  frame : ∀ spot, spot < here ∨ here + sizeofBlock ≤ spot →
    back = [] ∨ spot < behind ∨ behind + sizeofBlock ≤ spot → bytes spot = memory spot

theorem kheap_absorb_written (laws : PlatformLaws World Shows) (shows : Shows world limit memory)
    (window : Window limit memory (front ++ ([block, next] ++ back))) :
    ∃ after bytes,
      kheapAbsorb world (kheapStartAddress + total front)
        (kheapStartAddress + total front + block.size) = some after ∧
      Shows after limit bytes ∧
      AbsorbWritten memory bytes (kheapStartAddress + total front)
        (kheapStartAddress + total front + block.size + next.size) (block.size + next.size)
        block.free (lastOr 0 kheapStartAddress front) back := by
  have inside := window_inside window
  have nextWindow : Window limit memory ((front ++ [block]) ++ next :: back) := by
    simpa using window
  have nextInside := window_inside nextWindow
  have nextHeader := segment_header nextWindow.threaded
  have header : headerAt memory (kheapStartAddress + total front) =
      ⟨block.size, block.free, kheapStartAddress + total front + block.size,
        lastOr 0 kheapStartAddress front⟩ := segment_header window.threaded
  have place : kheapStartAddress + total front + total [block, next] =
      kheapStartAddress + total front + block.size + next.size := by
    simp [Nat.add_assoc]
  have nextPlace : kheapStartAddress + total (front ++ [block]) =
      kheapStartAddress + total front + block.size := by simp [Nat.add_assoc]
  have afterSmall := window_next_lt_word window
  have backInside := window_behind window
  rw [place] at afterSmall backInside
  rw [nextPlace] at nextInside nextHeader
  have word := window_lt_word window
  have finish : limit =
      kheapStartAddress + (total front + (block.size + (next.size + total back))) := by
    simpa using window.finish
  have large := window.sized block (by simp)
  have nextLarge := window.sized next (by simp)
  simp only [kheapMinBlock, sizeofBlock, kheapAlignment] at large nextLarge
  have sum : add32 block.size next.size = block.size + next.size := add32_eq (by omega)
  have apart : kheapStartAddress + total front + sizeofBlock ≤
      kheapStartAddress + total front + block.size := by
    simp only [sizeofBlock]
    omega
  obtain ⟨grown, grownBytes, growRun, growShown, growWritten⟩ :=
    set_size_written laws shows inside (block.size + next.size)
  have nextGrown := header_written_other growWritten (Or.inl apart)
  obtain ⟨linked, linkedBytes, linkRun, linkShown, linkWritten⟩ :=
    set_next_written laws growShown inside
      (headOr 0 (kheapStartAddress + total front + block.size + next.size) back)
  have written := header_written_trans growWritten linkWritten
  have nextLinked := header_written_other written (Or.inl apart)
  rw [growWritten.header, header, Nat.mod_eq_of_lt afterSmall,
    Nat.mod_eq_of_lt (by omega : block.size + next.size < 2 ^ 32)] at written
  obtain ⟨after, bytes, joinRun, shown, joinHeader, joinFrame⟩ :=
    relink_next_written laws linkShown backInside
      (by omega : kheapStartAddress + total front < 2 ^ 32)
  have frame : ∀ spot,
      spot < kheapStartAddress + total front ∨
        kheapStartAddress + total front + sizeofBlock ≤ spot →
      back = [] ∨ spot < kheapStartAddress + total front + block.size + next.size ∨
        kheapStartAddress + total front + block.size + next.size + sizeofBlock ≤ spot →
      bytes spot = memory spot := fun spot offBlock offAfter =>
    (joinFrame spot offAfter).trans (written.frame spot offBlock)
  refine ⟨after, bytes, ?_, shown, ?_, ?_, frame⟩
  · simp only [kheapAbsorb, block_size_eq laws shows inside, header,
      block_size_eq laws shows nextInside, nextHeader, sum, growRun,
      block_next_eq laws growShown nextInside, nextGrown, linkRun,
      block_next_eq laws linkShown nextInside, nextLinked, joinRun, Option.bind_eq_bind,
      Option.bind_some]
  · have same : headerAt bytes (kheapStartAddress + total front) =
        headerAt linkedBytes (kheapStartAddress + total front) :=
      header_of_agree (fun spot _ below => joinFrame spot (Or.inr (Or.inl (by omega))))
        (Nat.le_refl _) (Nat.le_refl _)
    rw [same, written.header]
  · intro filled
    rw [joinHeader filled,
      header_written_other written (Or.inl (by simp only [sizeofBlock]; omega))]

theorem kheap_absorb_spec (laws : PlatformLaws World Shows) (shows : Shows world limit memory)
    (window : Window limit memory (front ++ ([block, next] ++ back))) :
    ∃ after bytes,
      kheapAbsorb world (kheapStartAddress + total front)
        (kheapStartAddress + total front + block.size) = some after ∧
      Shows after limit bytes ∧
      Window limit bytes (front ++ ([⟨block.size + next.size, block.free⟩] ++ back)) ∧
      HeadersOnly limit (starts (front ++ ([block, next] ++ back))) memory bytes := by
  obtain ⟨after, bytes, run, shown, written⟩ := kheap_absorb_written laws shows window
  have frame := written.frame
  have place : kheapStartAddress + total front + total [block, next] =
      kheapStartAddress + total front + block.size + next.size := by
    simp [Nat.add_assoc]
  have large := window.sized block (by simp)
  simp only [kheapMinBlock, sizeofBlock, kheapAlignment] at large
  refine ⟨after, bytes, run, shown, ?_, ?_⟩
  · apply window_splice window (by simp) (by simp)
    · simp only [total_cons, total_nil]
      omega
    · intro member isIn
      obtain rfl := List.mem_singleton.mp isIn
      exact Nat.le_trans (window.sized block (by simp)) (Nat.le_add_right _ _)
    · intro member isIn
      obtain rfl := List.mem_singleton.mp isIn
      exact Nat.dvd_add (window.grained block (by simp)) (window.grained next (by simp))
    · intro spot above below
      exact frame spot (Or.inl below) (Or.inr (Or.inl (by omega)))
    · rw [place, Segment, written.block]
      exact ⟨by simp [headOr, Nat.add_assoc], trivial⟩
    · intro filled
      rw [place, written.next filled]
      rfl
    · intro spot above below
      rw [place] at above
      simp only [sizeofBlock] at above
      exact frame spot (Or.inr (by simp only [sizeofBlock]; omega)) (Or.inr (Or.inr above))
  · intro spot above below outside
    apply frame spot
    · exact outside _ mem_starts
    · cases back with
      | nil => exact Or.inl rfl
      | cons third rest =>
          exact Or.inr (outside _ (by simp [starts, placed_append, placed]))

theorem is_free_block_eq (laws : PlatformLaws World Shows) (shows : Shows world limit memory)
    (inside : HeaderInside limit address) :
    isFreeBlock world address = some (headerAt memory address).free := by
  have nonzero : address ≠ 0 := by
    have lower := inside.lower
    simp only [kheapStartAddress] at lower
    omega
  rw [isFreeBlock, if_pos nonzero, block_isFree_eq laws shows inside]

theorem coalesce_next_spec (laws : PlatformLaws World Shows) (shows : Shows world limit memory)
    (window : Window limit memory (front ++ block :: back)) (free : block.free = true) :
    ∃ isFree after bytes,
      blockNext world (kheapStartAddress + total front) =
        some (headOr 0 (kheapStartAddress + total front + block.size) back) ∧
      isFreeBlock world (headOr 0 (kheapStartAddress + total front + block.size) back) =
        some isFree ∧
      (if isFree then kheapAbsorb world (kheapStartAddress + total front)
          (headOr 0 (kheapStartAddress + total front + block.size) back)
        else some world) = some after ∧
      Shows after limit bytes ∧ Window limit bytes (front ++ consMerge block back) ∧
      HeadersOnly limit (starts (front ++ block :: back)) memory bytes := by
  have inside := window_inside window
  have read := block_next_eq laws shows inside
  rw [segment_header window.threaded] at read
  cases back with
  | nil =>
      exact ⟨false, world, memory, read, by simp [isFreeBlock, headOr], by simp, shows, window,
        headers_only_refl⟩
  | cons next rest =>
      have nextWindow : Window limit memory ((front ++ [block]) ++ next :: rest) := by
        simpa using window
      have nextInside := window_inside nextWindow
      have nextHeader := segment_header nextWindow.threaded
      have nextPlace : kheapStartAddress + total (front ++ [block]) =
          kheapStartAddress + total front + block.size := by simp [Nat.add_assoc]
      rw [nextPlace] at nextInside nextHeader
      have test := is_free_block_eq laws shows nextInside
      rw [nextHeader] at test
      cases nextFree : next.free with
      | false =>
          refine ⟨false, world, memory, read, by rw [headOr_cons, test, nextFree], by simp, shows,
            ?_, headers_only_refl⟩
          simpa [consMerge, nextFree] using window
      | true =>
          obtain ⟨after, bytes, run, shown, merged, only⟩ := kheap_absorb_spec laws shows window
          refine ⟨true, after, bytes, read, by rw [headOr_cons, test, nextFree], run, shown, ?_,
            only⟩
          simpa [consMerge, nextFree, free] using merged

theorem coalesce_prev_spec (laws : PlatformLaws World Shows) (shows : Shows world limit memory)
    {before : Block} (window : Window limit memory (front ++ before :: block :: back))
    (free : block.free = true) :
    ∃ isFree after bytes,
      blockPrev world (kheapStartAddress + total front + before.size) =
        some (kheapStartAddress + total front) ∧
      isFreeBlock world (kheapStartAddress + total front) = some isFree ∧
      (if isFree then kheapAbsorb world (kheapStartAddress + total front)
          (kheapStartAddress + total front + before.size)
        else some world) = some after ∧
      Shows after limit bytes ∧
      Window limit bytes (front ++ consMerge before (block :: back)) ∧
      HeadersOnly limit (starts (front ++ before :: block :: back)) memory bytes := by
  have inside := window_inside window
  have blockWindow : Window limit memory ((front ++ [before]) ++ block :: back) := by
    simpa using window
  have blockInside := window_inside blockWindow
  have blockHeader := segment_header blockWindow.threaded
  have blockPlace : kheapStartAddress + total (front ++ [before]) =
      kheapStartAddress + total front + before.size := by simp [Nat.add_assoc]
  rw [blockPlace] at blockInside blockHeader
  have read := block_prev_eq laws shows blockInside
  rw [blockHeader, lastOr_concat] at read
  have test := is_free_block_eq laws shows inside
  rw [segment_header window.threaded] at test
  cases beforeFree : before.free with
  | false =>
      refine ⟨false, world, memory, read, by rw [test, beforeFree], by simp, shows, ?_,
        headers_only_refl⟩
      simpa [consMerge, beforeFree] using window
  | true =>
      obtain ⟨after, bytes, run, shown, merged, only⟩ := kheap_absorb_spec laws shows window
      refine ⟨true, after, bytes, read, by rw [test, beforeFree], run, shown, ?_, only⟩
      simpa [consMerge, beforeFree, free] using merged

theorem starts_consMerge_subset :
    starts (front ++ consMerge block back) ⊆ starts (front ++ block :: back) := by
  rw [starts_append, starts_append]
  intro address member
  rcases List.mem_append.mp member with before | merged
  · exact List.mem_append_left _ before
  · exact List.mem_append_right _ (placed_consMerge_subset merged)

/-- A free block between two lists in canonical order. -/
theorem kheap_coalesce_spec (laws : PlatformLaws World Shows) (shows : Shows world limit memory)
    (window : Window limit memory (front ++ block :: back)) (free : block.free = true)
    (frontApart : front.IsChain Apart) (backApart : back.IsChain Apart) :
    ∃ after bytes, kheapCoalesce world (kheapStartAddress + total front) = some after ∧
      Shows after limit bytes ∧ Window limit bytes (normalize (front ++ block :: back)) ∧
      HeadersOnly limit (starts (front ++ block :: back)) memory bytes := by
  obtain ⟨nextFree, middle, middleBytes, nextRead, nextTest, nextRun, middleShown, middleWindow,
    middleOnly⟩ := coalesce_next_spec laws shows window free
  have inside := window_inside window
  obtain ⟨merged, rest, shape⟩ := List.exists_cons_of_ne_nil (consMerge_ne_nil block back)
  have mergedFree : merged.free = true := by
    rw [← free]
    exact head_consMerge (by rw [shape]; rfl)
  rw [shape] at middleWindow
  rcases List.eq_nil_or_concat' front with rfl | ⟨start, before, rfl⟩
  · have prevRead := block_prev_eq laws middleShown inside
    rw [segment_header middleWindow.threaded] at prevRead
    refine ⟨middle, middleBytes, ?_, middleShown, ?_, middleOnly⟩
    · simp only [kheapCoalesce, nextRead, nextTest, nextRun, prevRead, Option.bind_eq_bind,
        Option.bind_some]
      simp [lastOr, isFreeBlock]
    · rw [List.nil_append, normalize_head backApart, shape]
      exact middleWindow
  · have place : kheapStartAddress + total (start ++ [before]) =
        kheapStartAddress + total start + before.size := by simp [Nat.add_assoc]
    have beforeWindow : Window limit middleBytes (start ++ before :: merged :: rest) := by
      simpa using middleWindow
    obtain ⟨prevFree, after, bytes, prevRead, prevTest, prevRun, shown, joined, only⟩ :=
      coalesce_prev_spec laws middleShown beforeWindow mergedFree
    rw [← place] at prevRead prevRun
    refine ⟨after, bytes, ?_, shown, ?_, headers_only_trans middleOnly ?_⟩
    · simp only [kheapCoalesce, nextRead, nextTest, nextRun, prevRead,
        prevTest, prevRun, Option.bind_eq_bind, Option.bind_some]
    · have whole : (start ++ [before]) ++ block :: back = start ++ before :: block :: back := by
        simp
      rw [whole, normalize_between frontApart backApart, shape]
      exact joined
    · apply headers_only_mono _ only
      intro address member
      apply starts_consMerge_subset
      simpa [shape] using member

end Merging

end SimplyOs.KheapOperations
