import SimplyOs.KheapRuns

/-!
# Requests whose size in pages wraps

For sizes just below `2 ^ 32` the number of pages that `kheap_extend` computes wraps
to 0. Then it maps nothing, writes an empty block behind the heap and reports
success, so `kmalloc` scans and extends for ever, unless that write faults or the
window is exhausted. The proof follows the list through one such round: it gains at
most the empty block.
-/

namespace SimplyOs.OversizedRequests

open SimplyOs.Word SimplyOs.Kheap SimplyOs.KheapMemory SimplyOs.KheapBlocks
open SimplyOs.KheapOperations SimplyOs.KheapExtension SimplyOs.KheapCalls SimplyOs.KheapRuns
open SimplyOs.Library.ByteMemory SimplyOs.Library.BlockList SimplyOs.Library.LinkedBlocks
open SimplyOs.Library.Transition

set_option autoImplicit false

/-- The largest size whose sum with the header and the alignment does not wrap. -/
def largestRounded : Nat := 0xFFFFFFE8

/-- Sizes are served, wrap around to the least block, or lie in between. -/
theorem kmalloc_needed_cases {size : Nat} (word : size < 2 ^ 32) :
    size ≤ largestSize ∨ (largestRounded < size ∧ kmallocNeeded size = kheapMinBlock) ∨
      (largestSize < size ∧ size ≤ largestRounded) ∧
        largestNeeded < kmallocNeeded size ∧ kmallocNeeded size < 2 ^ 32 := by
  by_cases small : size ≤ largestSize
  · exact Or.inl small
  · right
    have large : 0xFFFFEFF0 < size := Nat.not_le.mp small
    by_cases middle : size ≤ 0xFFFFFFE8
    · right
      refine ⟨⟨large, middle⟩, ?_⟩
      have sum : add32 size sizeofBlock = size + 16 := add32_eq (by unfold sizeofBlock; omega)
      have rounded : kheapAlign (size + 16) = (size + 23) / 8 * 8 := by
        rw [kheapAlign, kheapAlignment, add32_eq (by omega)]
      have enough : ¬(size + 23) / 8 * 8 < kheapMinBlock := by
        unfold kheapMinBlock sizeofBlock kheapAlignment
        omega
      rw [kmallocNeeded, sum, rounded, if_neg enough]
      unfold largestNeeded
      omega
    · left
      have tiny : kheapAlign (add32 size sizeofBlock) < kheapMinBlock := by
        unfold kheapAlign add32 kheapMinBlock sizeofBlock kheapAlignment
        omega
      exact ⟨Nat.not_le.mp middle, by rw [kmallocNeeded, if_pos tiny]⟩

theorem extend_pages_wrap {needed : Nat} (large : largestNeeded < needed) (word : needed < 2 ^ 32) :
    extendPages needed = 0 := by
  have notSmall : ¬needed < kheapGrowPages * pageSize := by
    unfold largestNeeded at large
    unfold kheapGrowPages pageSize
    omega
  rw [extendPages, if_neg notSmall]
  unfold add32 pageSize
  unfold largestNeeded at large
  omega

variable {World : Type} [Platform World] {Shows : World → Nat → Memory → Prop}
variable {world : World} {heap : KheapState World} {memory bytes : Memory} {limit finish needed : Nat}
variable {nodes : List Nat} {blocks : List Block}

/-! ## Walking a chain of headers -/

/-- Following `next` from the first address meets these headers and then `NULL`. -/
def Chained (memory : Memory) : Nat → List Nat → Prop
  | first, [] => first = 0
  | first, node :: rest => first = node ∧ Chained memory (headerAt memory node).next rest

theorem chained_of_segment {prev start : Nat}
    (linked : Segment (headerAt memory) 0 prev start blocks) :
    Chained memory (headOr 0 start blocks) ((placed start blocks).map Prod.fst) := by
  induction blocks generalizing prev start with
  | nil => rfl
  | cons block rest ih =>
      obtain ⟨header, tail⟩ := linked
      refine ⟨rfl, ?_⟩
      rw [header]
      exact ih tail

theorem header_inside_ne_zero {block : Nat} (inside : HeaderInside finish block) : block ≠ 0 := by
  have lower := inside.lower
  simp only [kheapStartAddress] at lower
  omega

theorem chained_scan (laws : PlatformLaws World Shows) (shows : Shows world finish memory)
    (fuel : Nat) {first : Nat} (chained : Chained memory first nodes)
    (inside : ∀ node ∈ nodes, HeaderInside finish node)
    (small : ∀ node ∈ nodes, (headerAt memory node).size < needed) (enough : nodes.length < fuel) :
    kheapFindFit world needed fuel first = some 0 := by
  induction nodes generalizing first fuel with
  | nil =>
      obtain ⟨fuel, rfl⟩ : ∃ smaller, fuel = smaller + 1 := ⟨fuel - 1, by simp at enough; omega⟩
      have finished : first = 0 := chained
      rw [kheapFindFit, if_pos finished]
  | cons node rest ih =>
      obtain ⟨fuel, rfl⟩ : ∃ smaller, fuel = smaller + 1 := ⟨fuel - 1, by simp at enough; omega⟩
      obtain ⟨rfl, tail⟩ := chained
      have here := inside first (List.mem_cons_self ..)
      have later := ih fuel tail (fun other member => inside other (List.mem_cons_of_mem _ member))
        (fun other member => small other (List.mem_cons_of_mem _ member)) (by simpa using enough)
      have misfit : ¬needed ≤ (headerAt memory first).size :=
        Nat.not_le.mpr (small first (List.mem_cons_self ..))
      rw [kheapFindFit, if_neg (header_inside_ne_zero here), block_isFree_eq laws shows here,
        block_size_eq laws shows here, block_next_eq laws shows here]
      cases (headerAt memory first).free with
      | false => simpa using later
      | true => simpa [misfit] using later

theorem chained_last (laws : PlatformLaws World Shows) (shows : Shows world finish memory)
    (fuel : Nat) {first last : Nat} (chained : Chained memory first (nodes ++ [last]))
    (inside : ∀ node ∈ nodes ++ [last], HeaderInside finish node) (enough : nodes.length < fuel) :
    kheapLast world fuel first = some last := by
  induction nodes generalizing first fuel with
  | nil =>
      obtain ⟨fuel, rfl⟩ : ∃ smaller, fuel = smaller + 1 := ⟨fuel - 1, by simp at enough; omega⟩
      obtain ⟨rfl, finished⟩ := chained
      have finished : (headerAt memory first).next = 0 := finished
      have here := inside first (by simp)
      simp [kheapLast, block_next_eq laws shows here, finished]
  | cons node rest ih =>
      obtain ⟨fuel, rfl⟩ : ∃ smaller, fuel = smaller + 1 := ⟨fuel - 1, by simp at enough; omega⟩
      obtain ⟨rfl, tail⟩ := chained
      have here := inside first (by simp)
      have later := ih fuel tail (fun other member => inside other (List.mem_cons_of_mem _ member))
        (by simpa using enough)
      have more : (headerAt memory first).next ≠ 0 := by
        cases rest with
        | nil =>
            rw [tail.1]
            exact header_inside_ne_zero (inside last (by simp))
        | cons second others =>
            rw [tail.1]
            exact header_inside_ne_zero (inside second (by simp))
      simp [kheapLast, block_next_eq laws shows here, more, later]

theorem chained_last_next {first last : Nat} (chained : Chained memory first (nodes ++ [last])) :
    (headerAt memory last).next = 0 := by
  induction nodes generalizing first with
  | nil =>
      obtain ⟨rfl, finished⟩ := chained
      exact finished
  | cons node rest ih => exact ih chained.2

theorem chained_relink {first last : Nat} {back : List Nat}
    (chained : Chained memory first (nodes ++ [last]))
    (same : ∀ node ∈ nodes, headerAt bytes node = headerAt memory node)
    (behind : Chained bytes (headerAt bytes last).next back) :
    Chained bytes first (nodes ++ last :: back) := by
  induction nodes generalizing first with
  | nil => exact ⟨chained.1, behind⟩
  | cons node rest ih =>
      obtain ⟨rfl, tail⟩ := chained
      refine ⟨rfl, ?_⟩
      rw [same first (List.mem_cons_self ..)]
      exact ih tail fun other member => same other (List.mem_cons_of_mem _ member)

/-! ## A round that maps nothing -/

/-- A heap on which a request of `needed` bytes is never served: all listed headers
are too small, up to an empty one that may follow the end of the heap. -/
structure Stuck (Shows : World → Nat → Memory → Prop) (needed limit : Nat)
    (heap : KheapState World) (memory : Memory) (nodes : List Nat) : Prop where
  start : heap.kheapStart = kheapStartAddress
  finish : heap.kheapEnd = limit
  shows : Shows heap.world (limit + pageSize) memory
  chained : Chained memory heap.kheapFirst nodes
  inside : ∀ node ∈ nodes, HeaderInside (limit + pageSize) node
  small : ∀ node ∈ nodes, (headerAt memory node).size < needed
  apart : nodes.Pairwise fun left right => left + sizeofBlock ≤ right
  bounded : ∀ node ∈ nodes, node = limit ∨ node + sizeofBlock ≤ limit

theorem apart_length_le {low : Nat} (apart : nodes.Pairwise fun left right => left + sizeofBlock ≤ right)
    (lower : ∀ node ∈ nodes, low ≤ node) (upper : ∀ node ∈ nodes, node ≤ limit) :
    nodes.length ≤ limit + 1 - low := by
  induction nodes generalizing low with
  | nil => exact Nat.zero_le _
  | cons node rest ih =>
      obtain ⟨behind, apartRest⟩ := List.pairwise_cons.mp apart
      have shorter := ih apartRest behind
        fun other member => upper other (List.mem_cons_of_mem _ member)
      have here := lower node (List.mem_cons_self ..)
      have place := upper node (List.mem_cons_self ..)
      unfold sizeofBlock at shorter
      rw [List.length_cons]
      omega

omit [Platform World] in
theorem stuck_length_lt_fuel (stuck : Stuck Shows needed limit heap memory nodes)
    (room : limit + pageSize ≤ kheapStartAddress + kheapMaxBytes) : nodes.length < loopFuel := by
  have length := apart_length_le stuck.apart (fun node member => (stuck.inside node member).lower)
    fun node member => (stuck.bounded node member).elim Nat.le_of_eq (Nat.le_of_add_right_le)
  unfold kheapStartAddress kheapMaxBytes at *
  unfold loopFuel
  omega

section Round

variable {last : Nat} {front : List Nat}

theorem stuck_new_block (laws : PlatformLaws World Shows)
    (stuck : Stuck Shows needed limit heap memory nodes) (positive : 0 < needed)
    (lower : kheapStartAddress ≤ limit) (aligned : limit % pageSize = 0) :
    ∃ after bytes, kheapNewBlock heap.world limit 0 = some after ∧
      headerAt bytes limit = ⟨0, true, 0, 0⟩ ∧
      Stuck Shows needed limit { heap with world := after } bytes nodes := by
  have behind : HeaderInside (limit + pageSize) limit := by
    refine ⟨lower, ?_, ?_⟩
    · exact Nat.add_le_add_left (by decide) limit
    · unfold pageSize at aligned
      unfold kheapAlignment
      omega
  obtain ⟨after, bytes, run, shown, written⟩ :=
    kheap_new_block_spec laws stuck.shows behind (by decide : 0 < 2 ^ 32)
  have kept : ∀ node, node + sizeofBlock ≤ limit → headerAt bytes node = headerAt memory node :=
    fun node place => header_written_other written (Or.inr place)
  refine ⟨after, bytes, run, written.header, stuck.start, stuck.finish, shown, ?_, stuck.inside, ?_,
    stuck.apart, stuck.bounded⟩
  · rcases List.eq_nil_or_concat' nodes with rfl | ⟨front, last, rfl⟩
    · exact stuck.chained
    · obtain ⟨_, _, before⟩ := List.pairwise_append.mp stuck.apart
      apply chained_relink stuck.chained
      · intro node member
        have order := before node member last (List.mem_singleton.mpr rfl)
        rcases stuck.bounded last (by simp) with rfl | inner
        · exact kept node order
        · exact kept node (Nat.le_trans order (Nat.le_of_add_right_le inner))
      · rcases stuck.bounded last (by simp) with rfl | inner
        · rw [written.header]
          rfl
        · rw [kept last inner]
          exact chained_last_next stuck.chained
  · intro node member
    rcases stuck.bounded node member with rfl | inner
    · rw [written.header]
      exact positive
    · rw [kept node inner]
      exact stuck.small node member

omit [Platform World] in
theorem stuck_order (stuck : Stuck Shows needed limit heap memory (front ++ [last])) :
    ∀ node ∈ front, node + sizeofBlock ≤ last := by
  obtain ⟨_, _, before⟩ := List.pairwise_append.mp stuck.apart
  exact fun node member => before node member last (List.mem_singleton.mpr rfl)

/-- An adjacent free block takes the size of the empty one on, which is 0. -/
theorem stuck_append_adjacent (laws : PlatformLaws World Shows)
    (stuck : Stuck Shows needed limit heap memory (front ++ [last]))
    (empty : headerAt memory limit = ⟨0, true, 0, 0⟩)
    (behind : HeaderInside (limit + pageSize) limit)
    (walk : kheapLast heap.world loopFuel heap.kheapFirst = some last)
    (adjacent : (headerAt memory last).free = true ∧
      add32 last (headerAt memory last).size = limit) :
    ∃ after bytes, kheapAppend heap.world heap.kheapFirst limit = some after ∧
      Stuck Shows needed limit { heap with world := after } bytes (front ++ [last]) := by
  have lastInside := stuck.inside last (by simp)
  have order := stuck_order stuck
  have readFree := block_isFree_eq laws stuck.shows lastInside
  have readSize := block_size_eq laws stuck.shows lastInside
  have newSize := block_size_eq laws stuck.shows behind
  rw [empty] at newSize
  obtain ⟨after, bytes, run, shown, written⟩ := set_size_written laws stuck.shows lastInside
    (add32 (headerAt memory last).size 0)
  have kept : ∀ node ∈ front, headerAt bytes node = headerAt memory node := fun node member =>
    header_written_other written (Or.inr (order node member))
  have sameNext := chained_last_next stuck.chained
  refine ⟨after, bytes, ?_, stuck.start, stuck.finish, shown, ?_, stuck.inside, ?_, stuck.apart,
    stuck.bounded⟩
  · simp only [kheapAppend, walk, readFree, readSize, newSize, adjacent, run,
      Option.bind_eq_bind, Option.bind_some, if_true, Option.map_some, beq_self_eq_true]
  · apply chained_relink stuck.chained kept
    rw [written.header]
    exact sameNext
  · intro node member
    rcases List.mem_append.mp member with inFront | here
    · rw [kept node inFront]
      exact stuck.small node member
    · obtain rfl := List.mem_singleton.mp here
      rw [written.header]
      have small := stuck.small node member
      unfold add32
      exact Nat.lt_of_le_of_lt (Nat.le_trans (Nat.mod_le _ _) (Nat.mod_le _ _)) small

theorem forall_mem_linked {property : Nat → Prop} (inFront : ∀ node ∈ front, property node)
    (atLast : property last) (behind : property limit) :
    ∀ node ∈ front ++ [last, limit], property node := by
  rw [List.forall_mem_append, List.forall_mem_cons, List.forall_mem_singleton]
  exact ⟨inFront, atLast, behind⟩

/-- Otherwise the empty block is linked behind the last one. -/
theorem stuck_append_linked (laws : PlatformLaws World Shows)
    (stuck : Stuck Shows needed limit heap memory (front ++ [last])) (positive : 0 < needed)
    (empty : headerAt memory limit = ⟨0, true, 0, 0⟩) (word : limit < 2 ^ 32)
    (behind : HeaderInside (limit + pageSize) limit)
    (walk : kheapLast heap.world loopFuel heap.kheapFirst = some last)
    (distant : ¬((headerAt memory last).free = true ∧
      add32 last (headerAt memory last).size = limit)) :
    ∃ after bytes, kheapAppend heap.world heap.kheapFirst limit = some after ∧
      Stuck Shows needed limit { heap with world := after } bytes (front ++ [last, limit]) := by
  have lastInside := stuck.inside last (by simp)
  have order := stuck_order stuck
  have readFree := block_isFree_eq laws stuck.shows lastInside
  have readSize := block_size_eq laws stuck.shows lastInside
  have inner : last + sizeofBlock ≤ limit := by
    rcases stuck.bounded last (by simp) with rfl | inner
    · refine absurd ?_ distant
      rw [empty]
      exact ⟨rfl, add32_eq word⟩
    · exact inner
  obtain ⟨backed, backedBytes, backRun, backShown, backWritten⟩ :=
    set_prev_written laws stuck.shows behind last
  obtain ⟨after, bytes, run, shown, written⟩ :=
    set_next_written laws backShown lastInside limit
  have kept : ∀ node ∈ front, headerAt bytes node = headerAt memory node := by
    intro node member
    have place := order node member
    rw [header_written_other written (Or.inr place)]
    exact header_written_other backWritten (Or.inr (Nat.le_trans place (Nat.le_of_add_right_le inner)))
  have lastHeader := header_written_other backWritten (Or.inr inner)
  have newHeader : headerAt bytes limit = ⟨0, true, 0, last % 2 ^ 32⟩ := by
    rw [header_written_other written (Or.inl inner), backWritten.header, empty]
  have split : (if (headerAt memory last).free = true then
      (some (headerAt memory last).size).map fun size => add32 last size == limit
      else some false) = some false := by
    by_cases free : (headerAt memory last).free = true
    · rw [if_pos free, Option.map_some]
      exact congrArg some (beq_eq_false_iff_ne.mpr fun same => distant ⟨free, same⟩)
    · rw [if_neg free]
  refine ⟨after, bytes, ?_, stuck.start, stuck.finish, shown, ?_, ?_, ?_, ?_, ?_⟩
  · simp only [kheapAppend, walk, readFree, readSize, split, backRun, run, Option.bind_eq_bind,
      Option.bind_some, Bool.false_eq_true, if_false]
  · apply chained_relink stuck.chained kept
    rw [written.header, Nat.mod_eq_of_lt word]
    refine ⟨rfl, ?_⟩
    rw [newHeader]
    rfl
  · exact forall_mem_linked (fun node member => stuck.inside node (List.mem_append_left _ member))
      lastInside behind
  · apply forall_mem_linked
    · intro node member
      rw [kept node member]
      exact stuck.small node (List.mem_append_left _ member)
    · rw [written.header, lastHeader]
      exact stuck.small last (by simp)
    · rw [newHeader]
      exact positive
  · apply List.pairwise_append.mpr
    refine ⟨(List.pairwise_append.mp stuck.apart).1, by simpa using inner, ?_⟩
    intro node inFront other atEnd
    rcases List.mem_cons.mp atEnd with rfl | there
    · exact order node inFront
    · rw [List.mem_singleton.mp there]
      exact Nat.le_trans (order node inFront) (Nat.le_of_add_right_le inner)
  · exact forall_mem_linked (fun node member => stuck.bounded node (List.mem_append_left _ member))
      (Or.inr inner) (Or.inl rfl)

theorem stuck_append (laws : PlatformLaws World Shows)
    (stuck : Stuck Shows needed limit heap memory (front ++ [last])) (positive : 0 < needed)
    (empty : headerAt memory limit = ⟨0, true, 0, 0⟩) (lower : kheapStartAddress ≤ limit)
    (aligned : limit % pageSize = 0)
    (room : limit + pageSize ≤ kheapStartAddress + kheapMaxBytes) :
    ∃ after bytes nodes, kheapAppend heap.world heap.kheapFirst limit = some after ∧
      Stuck Shows needed limit { heap with world := after } bytes nodes := by
  have behind : HeaderInside (limit + pageSize) limit := by
    refine ⟨lower, ?_, ?_⟩
    · exact Nat.add_le_add_left (by decide) limit
    · unfold pageSize at aligned
      unfold kheapAlignment
      omega
  have word : limit < 2 ^ 32 := by
    unfold kheapStartAddress kheapMaxBytes pageSize at room
    omega
  have shorter := stuck_length_lt_fuel stuck room
  have walk := chained_last laws stuck.shows loopFuel stuck.chained stuck.inside
    (by rw [List.length_append] at shorter; omega)
  by_cases adjacent : (headerAt memory last).free = true ∧
      add32 last (headerAt memory last).size = limit
  · obtain ⟨after, bytes, run, later⟩ :=
      stuck_append_adjacent laws stuck empty behind walk adjacent
    exact ⟨after, bytes, front ++ [last], run, later⟩
  · obtain ⟨after, bytes, run, later⟩ :=
      stuck_append_linked laws stuck positive empty word behind walk adjacent
    exact ⟨after, bytes, front ++ [last, limit], run, later⟩

/-- One extension without pages succeeds and changes nothing that helps. -/
theorem stuck_extend (laws : PlatformLaws World Shows)
    (stuck : Stuck Shows needed limit heap memory nodes) (wraps : extendPages needed = 0)
    (positive : 0 < needed) (lower : kheapStartAddress ≤ limit) (aligned : limit % pageSize = 0)
    (room : limit + pageSize ≤ kheapStartAddress + kheapMaxBytes) :
    ∃ next bytes others, kheapExtend heap needed = some (true, next) ∧
      Stuck Shows needed limit next bytes others := by
  have word : limit < 2 ^ 32 := by
    unfold kheapStartAddress kheapMaxBytes pageSize at room
    omega
  have notFull : ¬sub32 heap.kheapEnd heap.kheapStart ≥ kheapMaxBytes := by
    rw [stuck.finish, stuck.start, sub32_eq lower word]
    unfold pageSize at room
    omega
  have none : sub32 limit limit = 0 := by
    rw [sub32_eq (Nat.le_refl _) word]
    exact Nat.sub_self _
  obtain ⟨built, builtBytes, newRun, empty, builtStuck⟩ :=
    stuck_new_block laws stuck positive lower aligned
  have finish := stuck.finish
  rw [kheapExtend, if_neg notFull, wraps, kheapMapPages]
  simp only [Option.bind_eq_bind, Option.bind_some, kheapAddPages, finish, none, newRun]
  rcases List.eq_nil_or_concat' nodes with rfl | ⟨front, last, rfl⟩
  · have first : heap.kheapFirst = 0 := stuck.chained
    refine ⟨{ heap with kheapFirst := limit, kheapEnd := limit, world := built }, builtBytes,
      [limit], by simp [first], stuck.start, rfl, builtStuck.shows, ⟨rfl, ?_⟩, ?_, ?_, ?_, ?_⟩
    · rw [empty]
      rfl
    · rw [List.forall_mem_singleton]
      refine ⟨lower, Nat.add_le_add_left (by decide) limit, ?_⟩
      unfold pageSize at aligned
      unfold kheapAlignment
      omega
    · rw [List.forall_mem_singleton, empty]
      exact positive
    · exact List.pairwise_singleton _ _
    · exact List.forall_mem_singleton.mpr (Or.inl rfl)
  · have nonzero : heap.kheapFirst ≠ 0 := by
      cases front with
      | nil =>
          rw [stuck.chained.1]
          exact header_inside_ne_zero (stuck.inside last (by simp))
      | cons node rest =>
          rw [stuck.chained.1]
          exact header_inside_ne_zero (stuck.inside node (by simp))
    obtain ⟨after, bytes, others, appended, next⟩ :=
      stuck_append laws builtStuck positive empty lower aligned room
    refine ⟨{ heap with kheapEnd := limit, world := after }, bytes, others, ?_, ⟨next.start, rfl,
      next.shows, next.chained, next.inside, next.small, next.apart, next.bounded⟩⟩
    have appended : kheapAppend built heap.kheapFirst limit = some after := appended
    simp only [nonzero, if_false, appended, Option.bind_some, Option.map_some]

theorem stuck_forever (laws : PlatformLaws World Shows) (fuel : Nat)
    (stuck : Stuck Shows needed limit heap memory nodes) (wraps : extendPages needed = 0)
    (positive : 0 < needed) (lower : kheapStartAddress ≤ limit) (aligned : limit % pageSize = 0)
    (room : limit + pageSize ≤ kheapStartAddress + kheapMaxBytes) :
    kmallocLoop needed fuel heap = none := by
  induction fuel generalizing heap memory nodes with
  | zero => rfl
  | succ fuel ih =>
      have scan := chained_scan laws stuck.shows loopFuel stuck.chained stuck.inside stuck.small
        (stuck_length_lt_fuel stuck room)
      obtain ⟨next, bytes, others, extended, again⟩ :=
        stuck_extend laws stuck wraps positive lower aligned room
      simp only [kmallocLoop, scan, extended, Option.bind_eq_bind, Option.bind_some, ne_eq,
        not_true_eq_false, if_false, if_true]
      exact ih again

end Round

/-! ## From a well-formed heap -/

variable {blocks : List Block}

omit [Platform World] in
/-- A heap whose window goes on behind its end is stuck with such a request. -/
theorem represents_stuck (represents : Represents Shows heap memory blocks) {stale : Memory}
    (shows : Shows heap.world (heap.kheapEnd + pageSize) stale)
    (same : Agree kheapStartAddress heap.kheapEnd memory stale)
    (large : kheapMaxBytes < needed) :
    Stuck Shows needed heap.kheapEnd heap stale ((placed kheapStartAddress blocks).map Prod.fst) := by
  have window := window_of_agree represents.window same
  have inside : ∀ entry ∈ placed kheapStartAddress blocks,
      HeaderInside heap.kheapEnd entry.1 := fun entry member => window_entry_inside window member
  refine ⟨represents.start, rfl, shows, ?_, ?_, ?_, ?_, ?_⟩
  · rw [represents.first]
    exact chained_of_segment window.threaded
  · intro node member
    obtain ⟨entry, listed, rfl⟩ := List.mem_map.mp member
    exact header_inside_mono (inside entry listed) (Nat.le_add_right _ _)
  · intro node member
    obtain ⟨entry, listed, rfl⟩ := List.mem_map.mp member
    obtain ⟨lower, upper, _⟩ := placed_bounds listed
    have bounded := window.bounded
    rw [(segment_status window.threaded listed).1]
    omega
  · apply List.pairwise_map.mpr
    have increasing := placed_increasing kheapStartAddress fun block member =>
      Nat.lt_of_lt_of_le (by decide : 0 < kheapMinBlock) (window.sized block member)
    apply increasing.imp_of_mem
    intro left right listed otherListed order
    have large := window.sized left.2 (placed_bounds listed).2.2
    unfold kheapMinBlock at large
    rcases placed_disjoint listed otherListed with equal | before | behind
    · rw [equal] at order
      exact absurd order (Nat.lt_irrefl _)
    · omega
    · omega
  · intro node member
    obtain ⟨entry, listed, rfl⟩ := List.mem_map.mp member
    exact Or.inr (inside entry listed).upper

omit [Platform World] in
theorem oversized_misfit (represents : Represents Shows heap memory blocks)
    (large : kheapMaxBytes < needed) :
    allocate kheapMinBlock needed kheapStartAddress blocks = none := by
  apply allocate_none.mpr
  intro block member
  have inside : block.size ≤ total blocks := size_le_total member
  have bounded := represents.window.bounded
  have small : ¬needed ≤ block.size := by omega
  simp [fits, small]

/-- A request whose pages wrap fails when the window is used up and never returns
otherwise. -/
theorem oversized_outcome (laws : PlatformLaws World Shows)
    (represents : Represents Shows heap memory blocks) (large : largestNeeded < needed)
    (word : needed < 2 ^ 32) (fuel : Nat) :
    (kheapMaxBytes ≤ kheapTotalBytes heap ∧ kmallocLoop needed (fuel + 1) heap = some (0, heap)) ∨
      (kheapTotalBytes heap < kheapMaxBytes ∧ kmallocLoop needed fuel heap = none) := by
  have huge : kheapMaxBytes < needed := Nat.lt_trans (by decide) large
  have wraps := extend_pages_wrap large word
  have misfit := oversized_misfit represents huge
  by_cases full : kheapMaxBytes ≤ kheapTotalBytes heap
  · have refused : kheapExtend heap needed = some (false, heap) := by
      have atEnd : sub32 heap.kheapEnd heap.kheapStart ≥ kheapMaxBytes := full
      rw [kheapExtend, if_pos atEnd]
    left
    rw [kmalloc_round_full laws represents fuel misfit, refused]
    exact ⟨full, rfl⟩
  · have windowEnd := represents.window.finish
    have lower : kheapStartAddress ≤ heap.kheapEnd := by omega
    have aligned : heap.kheapEnd % pageSize = 0 := by
      rw [windowEnd]
      exact Nat.mod_eq_zero_of_dvd (Nat.dvd_add (by decide) represents.paged)
    have room : heap.kheapEnd + pageSize ≤ kheapStartAddress + kheapMaxBytes := by
      rw [kheapTotalBytes, represents.start,
        sub32_eq lower (window_lt_word represents.window)] at full
      unfold kheapStartAddress kheapMaxBytes pageSize at *
      omega
    refine Or.inr ⟨Nat.not_le.mp full, ?_⟩
    rcases laws.beyond represents.shows aligned lower room with faults | ⟨stale, shows, same⟩
    · cases fuel with
      | zero => rfl
      | succ fuel =>
          have new : ∀ world size, world = heap.world →
              kheapNewBlock world heap.kheapEnd size = none := by
            rintro world size rfl
            rw [kheapNewBlock, setSize, faults]
            rfl
          have extended : kheapExtend heap needed = none := by
            rw [kheapExtend, if_neg (by rwa [kheapTotalBytes] at full), wraps, kheapMapPages]
            simp only [Option.bind_eq_bind, Option.bind_some, kheapAddPages, new _ _ rfl,
              Option.bind_none, Option.map_none]
          rw [kmalloc_round_full laws represents fuel misfit, extended]
          rfl
    · exact stuck_forever laws fuel (represents_stuck represents shows same huge) wraps (by omega)
        lower aligned room

theorem kmalloc_oversized (laws : PlatformLaws World Shows)
    (represents : Represents Shows heap memory blocks) {size : Nat}
    (large : largestNeeded < kmallocNeeded size) (word : kmallocNeeded size < 2 ^ 32) :
    (kheapMaxBytes ≤ kheapTotalBytes heap ∧ kmalloc heap size = some (0, heap)) ∨
      (kheapTotalBytes heap < kheapMaxBytes ∧ kmalloc heap size = none) := by
  have positive : size ≠ 0 := by
    rintro rfl
    revert large
    decide
  have loop (fuel : Nat) := oversized_outcome laws represents large word fuel
  rw [kmalloc, if_neg positive]
  rcases loop loopFuel with ⟨full, _⟩ | stuck
  · rcases loop (loopFuel - 1) with done | ⟨room, _⟩
    · exact Or.inl done
    · exact absurd full (Nat.not_le.mpr room)
  · exact Or.inr stuck

/-! ## Requests of any size -/

theorem request_served (laws : PlatformLaws World Shows)
    (represents : Represents Shows heap memory blocks) {size pointer : Nat}
    {next : KheapState World} (word : size < 2 ^ 32)
    (returned : kmalloc heap size = some (pointer, next)) :
    (pointer = 0 ∧ next = heap) ∨ ∃ small ≤ largestSize, kmalloc heap small = some (pointer, next) := by
  rcases kmalloc_needed_cases word with small | ⟨wrapped, wraps⟩ | ⟨_, large, below⟩
  · exact Or.inr ⟨size, small, returned⟩
  · have positive : size ≠ 0 := Nat.ne_zero_of_lt wrapped
    have one : kmallocNeeded 1 = kheapMinBlock := by decide
    refine Or.inr ⟨1, by decide, ?_⟩
    rw [← returned, kmalloc, kmalloc, if_neg positive, if_neg Nat.one_ne_zero, wraps, one]
  · rcases kmalloc_oversized laws represents large below with ⟨_, failed⟩ | ⟨_, stuck⟩
    · obtain ⟨rfl, rfl⟩ := Prod.mk.inj (Option.some.inj (failed.symm.trans returned))
      exact Or.inl ⟨rfl, rfl⟩
    · rw [stuck] at returned
      exact absurd returned (by simp)

inductive WideStep : HeapRun World → HeapCall → HeapRun World → Prop where
  | call {run next : HeapRun World} {call : HeapCall} (taken : HeapStep run call next) :
      WideStep run call next
  | malloc {run : HeapRun World} {size pointer : Nat} {heap : KheapState World}
      (word : size < 2 ^ 32) (returned : kmalloc run.heap size = some (pointer, heap)) :
      WideStep run (.malloc size)
        ⟨heap, if pointer = 0 then run.live else pointer :: run.live⟩

def wideRuns (started : KheapState World → Prop) : System (HeapRun World) HeapCall where
  initial run := started run.heap ∧ run.live = []
  step := WideStep

theorem wide_of_reachable {started : KheapState World → Prop} {run : HeapRun World}
    (reachable : Reachable (heapRuns started) run) : Reachable (wideRuns started) run := by
  apply reachable_invariant _ _ reachable
  · exact fun _ initial => .start initial
  · exact fun _ _ _ before taken => .next before (.call taken)

theorem wide_run_reachable (laws : PlatformLaws World Shows) {started : KheapState World → Prop}
    (live : ∀ run, Reachable (heapRuns started) run →
      ∃ memory blocks, LiveHeap Shows run memory blocks)
    {run : HeapRun World} (reachable : Reachable (wideRuns started) run) :
    Reachable (heapRuns started) run := by
  apply reachable_invariant _ _ reachable
  · exact fun _ initial => .start initial
  · intro run call next before taken
    cases taken with
    | call taken => exact .next before taken
    | malloc word returned =>
        obtain ⟨memory, blocks, liveHeap⟩ := live run before
        rcases request_served laws liveHeap.represents word returned with
          ⟨rfl, rfl⟩ | ⟨small, served, same⟩
        · exact before
        · exact .next before (.malloc served same)

end SimplyOs.OversizedRequests
