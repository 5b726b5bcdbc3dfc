import SimplyOs.Library.BlockList

/-!
# Block lists threaded through headers

Each block carries a header with its size, its status and the addresses of its
two neighbours. `Segment` says that the headers found by a lookup function from
a given address on describe a given block list. It is stated for an arbitrary
lookup, so that it can be read off any memory. The null pointer is 0.
-/

namespace SimplyOs.Library.LinkedBlocks

open SimplyOs.Library.BlockList

set_option autoImplicit false

@[ext] structure Header where
  size : Nat
  free : Bool
  next : Nat
  prev : Nat
  deriving DecidableEq, Repr

def headOr (stop start : Nat) : List Block → Nat
  | [] => stop
  | _ :: _ => start

/-- The address of the last block, or `prev` when there is none. -/
def lastOr (prev start : Nat) : List Block → Nat
  | [] => prev
  | block :: rest => lastOr start (start + block.size) rest

/-- The headers from `start` on are those of `blocks`; the first has the
predecessor `prev`, the last the successor `stop`. -/
def Segment (lookup : Nat → Header) (stop : Nat) : Nat → Nat → List Block → Prop
  | _, _, [] => True
  | prev, start, block :: rest =>
      lookup start = ⟨block.size, block.free, headOr stop (start + block.size) rest, prev⟩ ∧
        Segment lookup stop start (start + block.size) rest

@[simp] theorem headOr_cons (stop start : Nat) (block : Block) (rest : List Block) :
    headOr stop start (block :: rest) = start := rfl

theorem headOr_of_ne_nil (stop start : Nat) {blocks : List Block} (filled : blocks ≠ []) :
    headOr stop start blocks = start := by
  cases blocks with
  | nil => exact absurd rfl filled
  | cons block rest => rfl

theorem headOr_append (stop start : Nat) (front back : List Block) :
    headOr stop start (front ++ back) =
      headOr (headOr stop (start + total front) back) start front := by
  cases front <;> simp [headOr]

theorem lastOr_append (prev start : Nat) (front back : List Block) :
    lastOr prev start (front ++ back) =
      lastOr (lastOr prev start front) (start + total front) back := by
  induction front generalizing prev start with
  | nil => simp [lastOr]
  | cons block front ih => simp [lastOr, ih, Nat.add_assoc]

theorem lastOr_concat (prev start : Nat) (front : List Block) (block : Block) :
    lastOr prev start (front ++ [block]) = start + total front := by
  simp [lastOr_append, lastOr]

theorem segment_append {lookup : Nat → Header} {stop prev start : Nat}
    {front back : List Block} :
    Segment lookup stop prev start (front ++ back) ↔
      Segment lookup (headOr stop (start + total front) back) prev start front ∧
        Segment lookup stop (lastOr prev start front) (start + total front) back := by
  induction front generalizing prev start with
  | nil => simp [Segment, lastOr]
  | cons block front ih =>
      simp only [List.cons_append, Segment, ih, headOr_append, lastOr, total_cons,
        Nat.add_assoc, and_assoc]

/-- Headers of the listed blocks are all that a segment depends on. -/
theorem segment_congr {lookup other : Nat → Header} {stop prev start : Nat}
    {blocks : List Block} (same : ∀ entry ∈ placed start blocks, other entry.1 = lookup entry.1)
    (linked : Segment lookup stop prev start blocks) :
    Segment other stop prev start blocks := by
  induction blocks generalizing prev start with
  | nil => trivial
  | cons block rest ih =>
      obtain ⟨header, tail⟩ := linked
      refine ⟨(same (start, block) (by simp [placed])).trans header, ih ?_ tail⟩
      intro entry member
      exact same entry (by simp [placed, member])

/-- Giving the first block another predecessor. -/
theorem segment_reprev {lookup other : Nat → Header} {stop prev start newPrev : Nat}
    {block : Block} {rest : List Block}
    (head : other start = { lookup start with prev := newPrev })
    (same : ∀ entry ∈ placed (start + block.size) rest, other entry.1 = lookup entry.1)
    (linked : Segment lookup stop prev start (block :: rest)) :
    Segment other stop newPrev start (block :: rest) := by
  obtain ⟨header, tail⟩ := linked
  refine ⟨?_, segment_congr same tail⟩
  rw [head, header]

theorem segment_header {lookup : Nat → Header} {stop prev start : Nat}
    {front back : List Block} {block : Block}
    (linked : Segment lookup stop prev start (front ++ block :: back)) :
    lookup (start + total front) =
      ⟨block.size, block.free, headOr stop (start + total front + block.size) back,
        lastOr prev start front⟩ :=
  (segment_append.mp linked).2.1

theorem segment_header_behind {lookup : Nat → Header} {stop prev start : Nat}
    {front back : List Block} {block : Block}
    (linked : Segment lookup stop prev start (front ++ block :: back)) (filled : back ≠ []) :
    (lookup (start + total front + block.size)).prev = start + total front := by
  obtain ⟨next, rest, rfl⟩ := List.exists_cons_of_ne_nil filled
  have whole : front ++ block :: next :: rest = (front ++ [block]) ++ next :: rest := by simp
  rw [whole] at linked
  have header := segment_header linked
  rw [total_append, total_cons, total_nil, Nat.add_zero, ← Nat.add_assoc] at header
  rw [header]
  exact lastOr_concat prev start front block

theorem segment_status {lookup : Nat → Header} {stop prev start : Nat} {blocks : List Block}
    {entry : Nat × Block} (linked : Segment lookup stop prev start blocks)
    (member : entry ∈ placed start blocks) :
    (lookup entry.1).size = entry.2.size ∧ (lookup entry.1).free = entry.2.free := by
  obtain ⟨front, back, same, address⟩ := placed_split member
  rw [same] at linked
  rw [address, segment_header linked]
  exact ⟨rfl, rfl⟩

/-! ## The headers of a list -/

/-- The headers that a segment prescribes, with their addresses. -/
def headers (stop : Nat) : Nat → Nat → List Block → List (Nat × Header)
  | _, _, [] => []
  | prev, start, block :: rest =>
      (start, ⟨block.size, block.free, headOr stop (start + block.size) rest, prev⟩) ::
        headers stop start (start + block.size) rest

theorem headers_map_placed (stop prev start : Nat) (blocks : List Block) :
    ((headers stop prev start blocks).map fun entry =>
      (entry.1, (⟨entry.2.size, entry.2.free⟩ : Block))) = placed start blocks := by
  induction blocks generalizing prev start with
  | nil => rfl
  | cons block rest ih => simp [headers, placed, ih]

theorem headers_append (stop prev start : Nat) (front back : List Block) :
    headers stop prev start (front ++ back) =
      headers (headOr stop (start + total front) back) prev start front ++
        headers stop (lastOr prev start front) (start + total front) back := by
  induction front generalizing prev start with
  | nil => simp [headers, lastOr]
  | cons block front ih =>
      simp only [List.cons_append, headers, ih, headOr_append, lastOr, total_cons, Nat.add_assoc]

theorem mem_headers_placed {stop prev start : Nat} {blocks : List Block} {entry : Nat × Header}
    (member : entry ∈ headers stop prev start blocks) :
    (entry.1, ⟨entry.2.size, entry.2.free⟩) ∈ placed start blocks := by
  rw [← headers_map_placed stop prev]
  exact List.mem_map.mpr ⟨entry, member, rfl⟩

theorem headers_linked (stop prev start : Nat) (blocks : List Block) :
    (headers stop prev start blocks).IsChain fun left right =>
      left.1 + left.2.size = left.2.next ∧ left.2.next = right.1 ∧ right.2.prev = left.1 := by
  induction blocks generalizing prev start with
  | nil => simp [headers]
  | cons block rest ih =>
      cases rest with
      | nil => simp [headers]
      | cons next more =>
          rw [headers, headers, List.isChain_cons_cons]
          exact ⟨⟨rfl, rfl, rfl⟩, ih start (start + block.size)⟩

theorem headers_separated {stop prev start : Nat} {blocks : List Block}
    (separated : blocks.IsChain Apart) :
    (headers stop prev start blocks).IsChain fun left right =>
      left.2.free = false ∨ right.2.free = false := by
  induction blocks generalizing prev start with
  | nil => simp [headers]
  | cons block rest ih =>
      cases rest with
      | nil => simp [headers]
      | cons next more =>
          rw [List.isChain_cons_cons] at separated
          rw [headers, headers, List.isChain_cons_cons]
          exact ⟨separated.1, ih separated.2⟩

theorem headers_increasing {stop prev start : Nat} {blocks : List Block}
    (sized : ∀ block ∈ blocks, 0 < block.size) :
    (headers stop prev start blocks).Pairwise fun left right => left.1 < right.1 := by
  have increasing := placed_increasing start sized
  rw [← headers_map_placed stop prev, List.pairwise_map] at increasing
  exact increasing

end SimplyOs.Library.LinkedBlocks
