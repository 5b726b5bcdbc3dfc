import SimplyOs.KheapMemory

/-!
# The heap as a block list

`Represents` ties a state of the heap to the abstract block list of its window:
the headers thread exactly the blocks of a canonical list from `KHEAP_START` to
`kheap_end`. The walks of the source are computed on that list here.
-/

namespace SimplyOs.KheapBlocks

open SimplyOs.Word SimplyOs.Kheap SimplyOs.KheapMemory
open SimplyOs.Library.ByteMemory SimplyOs.Library.BlockList SimplyOs.Library.LinkedBlocks

set_option autoImplicit false

/-- The headers from `KHEAP_START` on are those of the listed blocks. -/
def Threaded (memory : Memory) (blocks : List Block) : Prop :=
  Segment (headerAt memory) 0 0 kheapStartAddress blocks

/-- The mapped window is exactly covered by well-formed blocks. Neighbouring free
blocks are still allowed: between the stores of `kfree` there are some. -/
structure Window (limit : Nat) (memory : Memory) (blocks : List Block) : Prop where
  finish : limit = kheapStartAddress + total blocks
  threaded : Threaded memory blocks
  sized : ∀ block ∈ blocks, kheapMinBlock ≤ block.size
  grained : ∀ block ∈ blocks, kheapAlignment ∣ block.size
  bounded : total blocks ≤ kheapMaxBytes

structure Represents {World : Type} (Shows : World → Nat → Memory → Prop)
    (heap : KheapState World) (memory : Memory) (blocks : List Block) : Prop where
  start : heap.kheapStart = kheapStartAddress
  first : heap.kheapFirst = headOr 0 kheapStartAddress blocks
  shows : Shows heap.world heap.kheapEnd memory
  window : Window heap.kheapEnd memory blocks
  separated : blocks.IsChain Apart
  paged : pageSize ∣ total blocks

/-- Bytes of `[KHEAP_START, limit)` outside the given headers are the same. -/
def HeadersOnly (limit : Nat) (addresses : List Nat) (memory after : Memory) : Prop :=
  ∀ place, kheapStartAddress ≤ place → place < limit →
    (∀ address ∈ addresses, place < address ∨ address + sizeofBlock ≤ place) →
      after place = memory place

def starts (blocks : List Block) : List Nat := (placed kheapStartAddress blocks).map Prod.fst

section Frames

variable {limit : Nat} {addresses others : List Nat} {memory middle after : Memory}

theorem headers_only_refl : HeadersOnly limit addresses memory memory :=
  fun _ _ _ _ => rfl

theorem headers_only_trans (first : HeadersOnly limit addresses memory middle)
    (second : HeadersOnly limit addresses middle after) :
    HeadersOnly limit addresses memory after := fun place above below outside =>
  (second place above below outside).trans (first place above below outside)

theorem headers_only_mono (included : ∀ address ∈ addresses, address ∈ others)
    (only : HeadersOnly limit addresses memory after) :
    HeadersOnly limit others memory after := fun place above below outside =>
  only place above below fun address member => outside address (included address member)

theorem headers_only_written {block : Nat} {header : Header} (member : block ∈ addresses)
    (written : HeaderWritten memory after block header) :
    HeadersOnly limit addresses memory after := fun place _ _ outside =>
  written.frame place (outside block member)

theorem headers_only_agree {low : Nat} (lower : low ≤ kheapStartAddress)
    (same : Agree low limit memory after) : HeadersOnly limit addresses memory after :=
  fun place above below _ => same place (by omega) below

end Frames

theorem mem_starts {front back : List Block} {block : Block} :
    kheapStartAddress + total front ∈ starts (front ++ block :: back) := by
  simp [starts, placed_append, placed]

theorem starts_append (front back : List Block) :
    starts (front ++ back) =
      starts front ++ (placed (kheapStartAddress + total front) back).map Prod.fst := by
  simp [starts, placed_append]

/-! ## Segments in memory -/

theorem segment_of_agree {memory after : Memory} {low high stop prev start : Nat}
    {blocks : List Block} (same : Agree low high memory after) (lower : low ≤ start)
    (upper : start + total blocks ≤ high) (sized : ∀ block ∈ blocks, kheapMinBlock ≤ block.size)
    (linked : Segment (headerAt memory) stop prev start blocks) :
    Segment (headerAt after) stop prev start blocks := by
  apply segment_congr _ linked
  intro entry member
  obtain ⟨above, below, inside⟩ := placed_bounds member
  have large := sized _ inside
  simp only [kheapMinBlock, sizeofBlock, kheapAlignment] at large
  exact header_of_agree same (by omega) (by omega)

theorem entry_mem_placed (front back : List Block) (block : Block) :
    (kheapStartAddress + total front, block) ∈
      placed kheapStartAddress (front ++ block :: back) := by
  simp [placed_append, placed]

/-! ## Facts of a window -/

section Windows

variable {limit : Nat} {memory after : Memory} {blocks front old middle back : List Block}

theorem window_lt_word (window : Window limit memory blocks) : limit < 2 ^ 32 := by
  have finish := window.finish
  have bounded := window.bounded
  simp only [kheapStartAddress, kheapMaxBytes] at finish bounded
  omega

theorem window_entry_inside {entry : Nat × Block} (window : Window limit memory blocks)
    (member : entry ∈ placed kheapStartAddress blocks) : HeaderInside limit entry.1 := by
  obtain ⟨above, below, inside⟩ := placed_bounds member
  have large := window.sized _ inside
  have finish := window.finish
  simp only [kheapMinBlock, sizeofBlock, kheapAlignment] at large
  have aligned : kheapAlignment ∣ entry.1 := placed_grained (by decide) window.grained member
  exact ⟨above, by simp only [sizeofBlock]; omega, Nat.mod_eq_zero_of_dvd aligned⟩

theorem window_inside {block : Block} (window : Window limit memory (front ++ block :: back)) :
    HeaderInside limit (kheapStartAddress + total front) :=
  window_entry_inside window (entry_mem_placed front back block)

theorem window_behind (window : Window limit memory (front ++ (old ++ back)))
    (filled : back ≠ []) : HeaderInside limit (kheapStartAddress + total front + total old) := by
  obtain ⟨next, rest, rfl⟩ := List.exists_cons_of_ne_nil filled
  rw [← List.append_assoc] at window
  have there := window_inside window
  rwa [total_append, ← Nat.add_assoc] at there

/-- No walk of the source can run out of fuel. -/
theorem window_length_lt_fuel (window : Window limit memory blocks) :
    blocks.length < loopFuel := by
  have length := length_mul_le_total window.sized
  have bounded := window.bounded
  simp only [kheapMinBlock, sizeofBlock, kheapAlignment, kheapMaxBytes] at length bounded
  simp only [loopFuel]
  omega

theorem window_of_agree (window : Window limit memory blocks)
    (same : Agree kheapStartAddress limit memory after) : Window limit after blocks where
  finish := window.finish
  threaded := segment_of_agree same (Nat.le_refl _) (Nat.le_of_eq window.finish.symm)
    window.sized window.threaded
  sized := window.sized
  grained := window.grained
  bounded := window.bounded

theorem window_next_lt_word (window : Window limit memory (front ++ (old ++ back))) :
    headOr 0 (kheapStartAddress + total front + total old) back < 2 ^ 32 := by
  have finish := window.finish
  have word := window_lt_word window
  simp only [total_append] at finish
  cases back with
  | nil => simp [headOr]
  | cons next rest =>
      rw [headOr_cons]
      omega

/-- The links of a list in which consecutive blocks were replaced: only the block behind
them notices, by its predecessor. -/
theorem threaded_splice (window : Window limit memory (front ++ (old ++ back)))
    (oldFilled : old ≠ []) (filled : middle ≠ []) (same : total middle = total old)
    (before : Agree kheapStartAddress (kheapStartAddress + total front) memory after)
    (inner : Segment (headerAt after)
      (headOr 0 (kheapStartAddress + total front + total old) back)
      (lastOr 0 kheapStartAddress front) (kheapStartAddress + total front) middle)
    (behind : back ≠ [] → headerAt after (kheapStartAddress + total front + total old) =
      { headerAt memory (kheapStartAddress + total front + total old) with
        prev := lastOr (lastOr 0 kheapStartAddress front)
          (kheapStartAddress + total front) middle })
    (rest : Agree (kheapStartAddress + total front + total old + sizeofBlock) limit
      memory after) : Threaded after (front ++ (middle ++ back)) := by
  have oldSized := window.sized
  have finish := window.finish
  simp only [List.mem_append] at oldSized
  simp only [total_append] at finish
  obtain ⟨frontLinked, restLinked⟩ := segment_append.mp window.threaded
  obtain ⟨_, backLinked⟩ := segment_append.mp restLinked
  have oldHead : headOr 0 (kheapStartAddress + total front) (old ++ back) =
      headOr 0 (kheapStartAddress + total front) (middle ++ back) := by
    cases old with
    | nil => exact absurd rfl oldFilled
    | cons block more =>
        cases middle with
        | nil => exact absurd rfl filled
        | cons other others => rfl
  refine segment_append.mpr ⟨?_, segment_append.mpr ⟨by rw [same]; exact inner, ?_⟩⟩
  · rw [← oldHead]
    exact segment_of_agree before (Nat.le_refl _) (Nat.le_refl _)
      (fun block member => oldSized block (Or.inl member)) frontLinked
  · rw [same]
    cases back with
    | nil => trivial
    | cons block more =>
        apply segment_reprev (behind (by simp)) _ backLinked
        intro entry member
        have large := oldSized block (by simp)
        obtain ⟨above, below, inside⟩ := placed_bounds member
        have entryLarge := oldSized entry.2 (by simp [inside])
        simp only [kheapMinBlock, sizeofBlock, kheapAlignment, total_cons] at *
        exact header_of_agree rest (by omega) (by omega)

theorem window_splice (window : Window limit memory (front ++ (old ++ back)))
    (oldFilled : old ≠ []) (filled : middle ≠ []) (same : total middle = total old)
    (sized : ∀ block ∈ middle, kheapMinBlock ≤ block.size)
    (grained : ∀ block ∈ middle, kheapAlignment ∣ block.size)
    (before : Agree kheapStartAddress (kheapStartAddress + total front) memory after)
    (inner : Segment (headerAt after)
      (headOr 0 (kheapStartAddress + total front + total old) back)
      (lastOr 0 kheapStartAddress front) (kheapStartAddress + total front) middle)
    (behind : back ≠ [] → headerAt after (kheapStartAddress + total front + total old) =
      { headerAt memory (kheapStartAddress + total front + total old) with
        prev := lastOr (lastOr 0 kheapStartAddress front)
          (kheapStartAddress + total front) middle })
    (rest : Agree (kheapStartAddress + total front + total old + sizeofBlock) limit
      memory after) : Window limit after (front ++ (middle ++ back)) := by
  have replaced {property : Block → Prop} (inMiddle : ∀ block ∈ middle, property block)
      (inOld : ∀ block ∈ front ++ (old ++ back), property block) :
      ∀ block ∈ front ++ (middle ++ back), property block := by
    intro block member
    simp only [List.mem_append] at member inOld
    rcases member with inFront | here | inBack
    · exact inOld block (Or.inl inFront)
    · exact inMiddle block here
    · exact inOld block (Or.inr (Or.inr inBack))
  have finish := window.finish
  have bounded := window.bounded
  simp only [total_append] at finish bounded
  refine ⟨?_, threaded_splice window oldFilled filled same before inner behind rest,
    replaced sized window.sized, replaced grained window.grained, ?_⟩
  · simp only [total_append]
    omega
  · simp only [total_append]
    omega

end Windows

section Walks

variable {World : Type} [Platform World] {Shows : World → Nat → Memory → Prop}
variable {world : World} {limit : Nat} {memory : Memory}

theorem kheap_find_fit_eq (laws : PlatformLaws World Shows) (shows : Shows world limit memory)
    {blocks : List Block} {prev start : Nat} (needed fuel : Nat)
    (linked : Segment (headerAt memory) 0 prev start blocks)
    (inside : ∀ entry ∈ placed start blocks, HeaderInside limit entry.1)
    (enough : blocks.length < fuel) :
    kheapFindFit world needed fuel (headOr 0 start blocks) =
      some ((firstFit needed start blocks).getD 0) := by
  induction blocks generalizing prev start fuel with
  | nil =>
      obtain ⟨fuel, rfl⟩ : ∃ smaller, fuel = smaller + 1 := ⟨fuel - 1, by simp at enough; omega⟩
      simp [kheapFindFit, headOr, firstFit]
  | cons block rest ih =>
      obtain ⟨fuel, rfl⟩ : ∃ smaller, fuel = smaller + 1 := ⟨fuel - 1, by simp at enough; omega⟩
      obtain ⟨header, tail⟩ := linked
      have here := inside (start, block) (by simp [placed])
      have nonzero : start ≠ 0 := by
        have lower := here.lower
        simp only [kheapStartAddress] at lower
        omega
      have later := ih fuel tail (fun entry member => inside entry (by simp [placed, member]))
        (by simpa using enough)
      rw [kheapFindFit, headOr_cons, if_neg nonzero, block_isFree_eq laws shows here,
        block_size_eq laws shows here, block_next_eq laws shows here, header]
      cases free : block.free with
      | false => simpa [firstFit, fits, free] using later
      | true =>
          by_cases fit : needed ≤ block.size
          · simp [firstFit, fits, free, fit]
          · simpa [firstFit, fits, free, fit] using later

theorem kheap_last_eq (laws : PlatformLaws World Shows) (shows : Shows world limit memory)
    {blocks : List Block} {prev start : Nat} (fuel : Nat)
    (linked : Segment (headerAt memory) 0 prev start blocks) (filled : blocks ≠ [])
    (inside : ∀ entry ∈ placed start blocks, HeaderInside limit entry.1)
    (enough : blocks.length ≤ fuel) :
    kheapLast world fuel start = some (lastOr prev start blocks) := by
  induction blocks generalizing prev start fuel with
  | nil => exact absurd rfl filled
  | cons block rest ih =>
      obtain ⟨fuel, rfl⟩ : ∃ smaller, fuel = smaller + 1 := ⟨fuel - 1, by simp at enough; omega⟩
      obtain ⟨header, tail⟩ := linked
      have here := inside (start, block) (by simp [placed])
      rw [kheapLast, block_next_eq laws shows here, header]
      cases rest with
      | nil => simp [headOr, lastOr]
      | cons next more =>
          have there := inside (start + block.size, next) (by simp [placed])
          have nonzero : start + block.size ≠ 0 := by
            have lower := there.lower
            simp only [kheapStartAddress] at lower
            omega
          have later := ih fuel tail (by simp)
            (fun entry member => inside entry (List.mem_cons_of_mem _ member))
            (by simpa using enough)
          simp only [headOr_cons, Option.bind_eq_bind, Option.bind_some]
          rw [if_pos nonzero]
          exact later

theorem kheap_used_from_eq (laws : PlatformLaws World Shows) (shows : Shows world limit memory)
    {blocks : List Block} {prev start : Nat} (fuel before : Nat)
    (linked : Segment (headerAt memory) 0 prev start blocks)
    (inside : ∀ entry ∈ placed start blocks, HeaderInside limit entry.1)
    (enough : blocks.length < fuel) (small : before + total blocks < 2 ^ 32) :
    kheapUsedFrom world fuel (headOr 0 start blocks) before =
      some (before + ((used start blocks).map fun entry => entry.2.size).sum) := by
  induction blocks generalizing prev start fuel before with
  | nil =>
      obtain ⟨fuel, rfl⟩ : ∃ smaller, fuel = smaller + 1 := ⟨fuel - 1, by simp at enough; omega⟩
      simp [kheapUsedFrom, headOr, used, placed]
  | cons block rest ih =>
      obtain ⟨fuel, rfl⟩ : ∃ smaller, fuel = smaller + 1 := ⟨fuel - 1, by simp at enough; omega⟩
      obtain ⟨header, tail⟩ := linked
      rw [total_cons] at small
      have here := inside (start, block) (by simp [placed])
      have nonzero : start ≠ 0 := by
        have lower := here.lower
        simp only [kheapStartAddress] at lower
        omega
      have later (sum : Nat) (fitsWord : sum + total rest < 2 ^ 32) :=
        ih fuel sum tail (fun entry member => inside entry (by simp [placed, member]))
          (by simpa using enough) fitsWord
      rw [kheapUsedFrom, headOr_cons, if_neg nonzero, block_isFree_eq laws shows here,
        block_size_eq laws shows here, block_next_eq laws shows here, header, used_cons]
      cases free : block.free with
      | true => simpa [free] using later before (by omega)
      | false =>
          have sum : add32 before block.size = before + block.size := add32_eq (by omega)
          simpa [free, sum, Nat.add_assoc] using later (before + block.size) (by omega)

end Walks

end SimplyOs.KheapBlocks
