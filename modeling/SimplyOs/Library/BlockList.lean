import Mathlib.Data.List.Chain
import Mathlib.Data.List.Basic
import Mathlib.Algebra.BigOperators.Group.List.Basic
import Mathlib.Algebra.Order.Ring.Nat
import Mathlib.Tactic.Common

/-!
# Allocators as lists of sized blocks

A region of memory is cut into consecutive blocks, each used or free. Addresses
are not stored: a block starts where the one before it ends. An allocator moves
between such lists by carving a block in two, by marking a block free, and by
appending fresh memory; the last two are followed by `normalize`, which merges
neighbouring free blocks. What is used, and where, never changes by merging.
-/

namespace SimplyOs.Library.BlockList

set_option autoImplicit false

structure Block where
  size : Nat
  free : Bool
  deriving DecidableEq, Repr

def total (blocks : List Block) : Nat := (blocks.map Block.size).sum

@[simp] theorem total_nil : total [] = 0 := rfl

@[simp] theorem total_cons (block : Block) (rest : List Block) :
    total (block :: rest) = block.size + total rest := by
  simp [total]

@[simp] theorem total_append (front back : List Block) :
    total (front ++ back) = total front + total back := by
  simp [total]

theorem size_le_total {blocks : List Block} {block : Block} (member : block ∈ blocks) :
    block.size ≤ total blocks := by
  obtain ⟨front, back, rfl⟩ := List.append_of_mem member
  rw [total_append, total_cons]
  omega

def placed : Nat → List Block → List (Nat × Block)
  | _, [] => []
  | start, block :: rest => (start, block) :: placed (start + block.size) rest

theorem placed_append (start : Nat) (front back : List Block) :
    placed start (front ++ back) = placed start front ++ placed (start + total front) back := by
  induction front generalizing start with
  | nil => simp [placed]
  | cons block front ih => simp [placed, ih, Nat.add_assoc]

theorem placed_bounds {start : Nat} {blocks : List Block} {entry : Nat × Block}
    (member : entry ∈ placed start blocks) :
    start ≤ entry.1 ∧ entry.1 + entry.2.size ≤ start + total blocks ∧ entry.2 ∈ blocks := by
  induction blocks generalizing start with
  | nil => simp [placed] at member
  | cons block rest ih =>
      rcases List.mem_cons.mp member with same | later
      · subst same
        simp
      · obtain ⟨lower, upper, inside⟩ := ih later
        simp only [total_cons, List.mem_cons]
        exact ⟨by omega, by omega, Or.inr inside⟩

theorem placed_split {start : Nat} {blocks : List Block} {entry : Nat × Block}
    (member : entry ∈ placed start blocks) :
    ∃ front back, blocks = front ++ entry.2 :: back ∧ entry.1 = start + total front := by
  induction blocks generalizing start with
  | nil => simp [placed] at member
  | cons block rest ih =>
      rcases List.mem_cons.mp member with same | later
      · subst same
        exact ⟨[], rest, rfl, by simp⟩
      · obtain ⟨front, back, same, address⟩ := ih later
        exact ⟨block :: front, back, by rw [same]; rfl, by rw [total_cons]; omega⟩

/-- Two placed blocks are one block or do not overlap. -/
theorem placed_disjoint {start : Nat} {blocks : List Block} {one other : Nat × Block}
    (first : one ∈ placed start blocks) (second : other ∈ placed start blocks) :
    one = other ∨ one.1 + one.2.size ≤ other.1 ∨ other.1 + other.2.size ≤ one.1 := by
  induction blocks generalizing start with
  | nil => simp [placed] at first
  | cons block rest ih =>
      rcases List.mem_cons.mp first with same | later
      · rcases List.mem_cons.mp second with sameOther | laterOther
        · exact Or.inl (same.trans sameOther.symm)
        · have bounds := placed_bounds laterOther
          subst same
          exact Or.inr (Or.inl bounds.1)
      · rcases List.mem_cons.mp second with sameOther | laterOther
        · have bounds := placed_bounds later
          subst sameOther
          exact Or.inr (Or.inr bounds.1)
        · exact ih later laterOther

theorem placed_increasing (start : Nat) {blocks : List Block}
    (sized : ∀ block ∈ blocks, 0 < block.size) :
    (placed start blocks).Pairwise fun left right => left.1 < right.1 := by
  induction blocks generalizing start with
  | nil => simp [placed]
  | cons block rest ih =>
      simp only [List.mem_cons, forall_eq_or_imp] at sized
      rw [placed, List.pairwise_cons]
      refine ⟨?_, ih (start + block.size) sized.2⟩
      intro entry member
      have bounds := placed_bounds member
      simp only
      omega

theorem placed_grained {grain start : Nat} {blocks : List Block} {entry : Nat × Block}
    (base : grain ∣ start) (grained : ∀ block ∈ blocks, grain ∣ block.size)
    (member : entry ∈ placed start blocks) : grain ∣ entry.1 := by
  induction blocks generalizing start with
  | nil => simp [placed] at member
  | cons block rest ih =>
      simp only [List.mem_cons, forall_eq_or_imp] at grained
      rcases List.mem_cons.mp member with same | later
      · subst same
        exact base
      · exact ih (Nat.dvd_add base grained.1) grained.2 later

theorem total_grained {grain : Nat} {blocks : List Block}
    (grained : ∀ block ∈ blocks, grain ∣ block.size) : grain ∣ total blocks := by
  induction blocks with
  | nil => simp
  | cons block rest ih =>
      simp only [List.mem_cons, forall_eq_or_imp] at grained
      rw [total_cons]
      exact Nat.dvd_add grained.1 (ih grained.2)

theorem length_mul_le_total {minimum : Nat} {blocks : List Block}
    (sized : ∀ block ∈ blocks, minimum ≤ block.size) :
    minimum * blocks.length ≤ total blocks := by
  induction blocks with
  | nil => simp
  | cons block rest ih =>
      simp only [List.mem_cons, forall_eq_or_imp] at sized
      have tail := ih sized.2
      simp only [List.length_cons, total_cons, Nat.mul_add, Nat.mul_one]
      omega

/-! ## First fit -/

def fits (needed : Nat) (block : Block) : Bool := block.free && decide (needed ≤ block.size)

/-- The address of the first free block of at least `needed` bytes. -/
def firstFit (needed : Nat) : Nat → List Block → Option Nat
  | _, [] => none
  | start, block :: rest =>
      if fits needed block then some start else firstFit needed (start + block.size) rest

theorem firstFit_none (needed start : Nat) (blocks : List Block) :
    firstFit needed start blocks = none ↔ ∀ block ∈ blocks, fits needed block = false := by
  induction blocks generalizing start with
  | nil => simp [firstFit]
  | cons block rest ih =>
      rw [firstFit]
      cases fit : fits needed block <;> simp [fit, ih]

/-! ## Used blocks -/

def used (start : Nat) (blocks : List Block) : List (Nat × Block) :=
  (placed start blocks).filter fun entry => !entry.2.free

theorem used_append (start : Nat) (front back : List Block) :
    used start (front ++ back) = used start front ++ used (start + total front) back := by
  simp [used, placed_append]

theorem used_cons (start : Nat) (block : Block) (rest : List Block) :
    used start (block :: rest) =
      if block.free then used (start + block.size) rest
      else (start, block) :: used (start + block.size) rest := by
  cases status : block.free <;> simp [used, placed, status]

theorem mem_used {start : Nat} {blocks : List Block} {entry : Nat × Block} :
    entry ∈ used start blocks ↔ entry ∈ placed start blocks ∧ entry.2.free = false := by
  simp [used]

/-! ## Merging neighbouring free blocks -/

/-- Puts a block before a list, merging it with a free head if it is free itself. -/
def consMerge (block : Block) : List Block → List Block
  | [] => [block]
  | next :: rest =>
      if block.free && next.free then ⟨block.size + next.size, true⟩ :: rest
      else block :: next :: rest

def normalize (blocks : List Block) : List Block := blocks.foldr consMerge []

def Apart (left right : Block) : Prop := left.free = false ∨ right.free = false

/-- Blocks large enough and of the right grain, with no two free neighbours. -/
structure Canonical (minimum grain : Nat) (blocks : List Block) : Prop where
  sized : ∀ block ∈ blocks, minimum ≤ block.size
  grained : ∀ block ∈ blocks, grain ∣ block.size
  separated : blocks.IsChain Apart

theorem total_consMerge (block : Block) (rest : List Block) :
    total (consMerge block rest) = block.size + total rest := by
  cases rest with
  | nil => simp [consMerge]
  | cons next rest =>
      simp only [consMerge]
      split <;> simp [Nat.add_assoc]

theorem used_consMerge (start : Nat) (block : Block) (rest : List Block) :
    used start (consMerge block rest) = used start (block :: rest) := by
  cases rest with
  | nil => rfl
  | cons next rest =>
      simp only [consMerge]
      split
      · rename_i merged
        simp only [Bool.and_eq_true] at merged
        simp [used_cons, merged.1, merged.2, Nat.add_assoc]
      · rfl

theorem separated_consMerge {block : Block} {rest : List Block}
    (separated : rest.IsChain Apart) : (consMerge block rest).IsChain Apart := by
  cases rest with
  | nil => simp [consMerge]
  | cons next rest =>
      simp only [consMerge]
      split
      · rename_i merged
        simp only [Bool.and_eq_true] at merged
        cases rest with
        | nil => simp
        | cons third rest =>
            simp only [List.isChain_cons_cons] at separated ⊢
            refine ⟨Or.inr ?_, separated.2⟩
            rcases separated.1 with impossible | used
            · simp [merged.2] at impossible
            · exact used
      · rename_i apart
        rw [List.isChain_cons_cons]
        refine ⟨?_, separated⟩
        cases left : block.free <;> cases right : next.free <;> simp_all [Apart]

theorem mem_consMerge {member block : Block} {rest : List Block}
    (inside : member ∈ consMerge block rest) :
    member = block ∨ member ∈ rest ∨ ∃ next ∈ rest, member.size = block.size + next.size := by
  cases rest with
  | nil => exact Or.inl (by simpa [consMerge] using inside)
  | cons next rest =>
      simp only [consMerge] at inside
      split at inside
      · rcases List.mem_cons.mp inside with same | later
        · exact Or.inr (Or.inr ⟨next, by simp, by rw [same]⟩)
        · exact Or.inr (Or.inl (by simp [later]))
      · rcases List.mem_cons.mp inside with same | later
        · exact Or.inl same
        · exact Or.inr (Or.inl later)

theorem canonical_consMerge {minimum grain : Nat} {block : Block} {rest : List Block}
    (large : minimum ≤ block.size) (grained : grain ∣ block.size)
    (canonical : Canonical minimum grain rest) :
    Canonical minimum grain (consMerge block rest) := by
  refine ⟨?_, ?_, separated_consMerge canonical.separated⟩
  · intro member inside
    rcases mem_consMerge inside with same | old | ⟨next, old, size⟩
    · rw [same]
      exact large
    · exact canonical.sized member old
    · omega
  · intro member inside
    rcases mem_consMerge inside with same | old | ⟨next, old, size⟩
    · rw [same]
      exact grained
    · exact canonical.grained member old
    · rw [size]
      exact Nat.dvd_add grained (canonical.grained next old)

@[simp] theorem normalize_nil : normalize [] = [] := rfl

theorem normalize_cons (block : Block) (rest : List Block) :
    normalize (block :: rest) = consMerge block (normalize rest) := rfl

theorem normalize_append (front back : List Block) :
    normalize (front ++ back) = front.foldr consMerge (normalize back) := by
  simp [normalize, List.foldr_append]

@[simp] theorem total_normalize (blocks : List Block) :
    total (normalize blocks) = total blocks := by
  induction blocks with
  | nil => rfl
  | cons block rest ih => rw [normalize_cons, total_consMerge, ih, total_cons]

@[simp] theorem used_normalize (start : Nat) (blocks : List Block) :
    used start (normalize blocks) = used start blocks := by
  induction blocks generalizing start with
  | nil => rfl
  | cons block rest ih =>
      rw [normalize_cons, used_consMerge, used_cons, used_cons, ih]

theorem separated_normalize (blocks : List Block) : (normalize blocks).IsChain Apart := by
  induction blocks with
  | nil => simp
  | cons block rest ih => exact separated_consMerge ih

theorem canonical_normalize {minimum grain : Nat} {blocks : List Block}
    (sized : ∀ block ∈ blocks, minimum ≤ block.size)
    (grained : ∀ block ∈ blocks, grain ∣ block.size) :
    Canonical minimum grain (normalize blocks) := by
  induction blocks with
  | nil => exact ⟨by simp, by simp, by simp⟩
  | cons block rest ih =>
      simp only [List.mem_cons, forall_eq_or_imp] at sized grained
      exact canonical_consMerge sized.1 grained.1 (ih sized.2 grained.2)

theorem foldr_consMerge_of_separated {front back : List Block}
    (separated : (front ++ back).IsChain Apart) :
    front.foldr consMerge back = front ++ back := by
  induction front with
  | nil => rfl
  | cons block front ih =>
      have tail := ih (List.IsChain.tail separated)
      rw [List.foldr_cons, tail]
      cases rest : front ++ back with
      | nil => simp [consMerge, rest]
      | cons next more =>
          rw [List.cons_append, rest, List.isChain_cons_cons] at separated
          have apart : (block.free && next.free) = false := by
            rcases separated.1 with usedLeft | usedRight
            · simp [usedLeft]
            · simp [usedRight]
          simp [consMerge, apart, rest]

theorem normalize_of_separated {blocks : List Block} (separated : blocks.IsChain Apart) :
    normalize blocks = blocks := by
  have whole : (blocks ++ []).IsChain Apart := by simpa using separated
  simpa [normalize] using foldr_consMerge_of_separated whole

theorem consMerge_ne_nil (block : Block) (rest : List Block) : consMerge block rest ≠ [] := by
  cases rest with
  | nil => simp [consMerge]
  | cons next rest =>
      simp only [consMerge]
      split <;> simp

theorem normalize_ne_nil {blocks : List Block} (filled : blocks ≠ []) :
    normalize blocks ≠ [] := by
  obtain ⟨block, rest, rfl⟩ := List.exists_cons_of_ne_nil filled
  exact consMerge_ne_nil block _

theorem head_consMerge {first block : Block} {rest : List Block}
    (head : first ∈ (consMerge block rest).head?) : first.free = block.free := by
  cases rest with
  | nil =>
      obtain rfl : block = first := by simpa [consMerge] using head
      rfl
  | cons next rest =>
      simp only [consMerge] at head
      split at head
      · rename_i merged
        simp only [Bool.and_eq_true] at merged
        obtain rfl : (⟨block.size + next.size, true⟩ : Block) = first := by simpa using head
        exact merged.1.symm
      · obtain rfl : block = first := by simpa using head
        rfl

theorem placed_consMerge_subset {start : Nat} {block : Block} {rest : List Block} :
    (placed start (consMerge block rest)).map Prod.fst ⊆
      (placed start (block :: rest)).map Prod.fst := by
  cases rest with
  | nil => exact List.Subset.refl _
  | cons next rest =>
      simp only [consMerge]
      split
      · simp [placed, Nat.add_assoc]
      · exact List.Subset.refl _

/-- A block between lists in canonical order is merged with its two neighbours. -/
theorem normalize_head {block : Block} {back : List Block} (backApart : back.IsChain Apart) :
    normalize (block :: back) = consMerge block back := by
  rw [normalize_cons, normalize_of_separated backApart]

theorem normalize_between {front back : List Block} {before block : Block}
    (frontApart : (front ++ [before]).IsChain Apart) (backApart : back.IsChain Apart) :
    normalize (front ++ before :: block :: back) =
      front ++ consMerge before (consMerge block back) := by
  rw [normalize_append, normalize_cons, normalize_head backApart]
  apply foldr_consMerge_of_separated
  obtain ⟨frontChain, _, join⟩ := List.isChain_append.mp frontApart
  refine frontChain.append (separated_consMerge (separated_consMerge backApart)) ?_
  intro last isLast first isFirst
  have apart := join last isLast before (by simp)
  rwa [Apart, head_consMerge isFirst]

/-- Merging loses no room: each free block is part of a free block. -/
theorem normalize_keeps_room {block : Block} {blocks : List Block} (member : block ∈ blocks)
    (free : block.free = true) :
    ∃ merged ∈ normalize blocks, merged.free = true ∧ block.size ≤ merged.size := by
  induction blocks with
  | nil => simp at member
  | cons head rest ih =>
      rw [normalize_cons]
      rcases List.mem_cons.mp member with same | later
      · subst same
        obtain ⟨first, more, shape⟩ := List.exists_cons_of_ne_nil
          (consMerge_ne_nil block (normalize rest))
        refine ⟨first, by simp [shape], ?_⟩
        cases list : normalize rest with
        | nil =>
            obtain ⟨rfl, rfl⟩ : block = first ∧ [] = more := by simpa [list, consMerge] using shape
            exact ⟨free, Nat.le_refl _⟩
        | cons next others =>
            rw [list] at shape
            simp only [consMerge, free, Bool.true_and] at shape
            split at shape
            · obtain ⟨rfl, rfl⟩ := List.cons.inj shape
              exact ⟨rfl, Nat.le_add_right _ _⟩
            · obtain ⟨rfl, rfl⟩ := List.cons.inj shape
              exact ⟨free, Nat.le_refl _⟩
      · obtain ⟨merged, inside, mergedFree, large⟩ := ih later
        cases list : normalize rest with
        | nil => simp [list] at inside
        | cons next others =>
            rw [list] at inside
            simp only [consMerge]
            split
            · rcases List.mem_cons.mp inside with same | other
              · refine ⟨⟨head.size + next.size, true⟩, by simp, rfl, ?_⟩
                rw [← same]
                exact Nat.le_trans large (Nat.le_add_left _ _)
              · exact ⟨merged, by simp [other], mergedFree, large⟩
            · exact ⟨merged, List.mem_cons_of_mem _ inside, mergedFree, large⟩

/-! ## Carving an allocation out of a free block -/

/-- The first `needed` bytes become used; a remainder too small for a block of
its own stays with them. -/
def carve (minimum needed : Nat) (block : Block) : List Block :=
  if block.size < needed + minimum then [⟨block.size, false⟩]
  else [⟨needed, false⟩, ⟨block.size - needed, true⟩]

def carvedSize (minimum needed : Nat) (block : Block) : Nat :=
  if block.size < needed + minimum then block.size else needed

theorem le_carvedSize {minimum needed : Nat} {block : Block} (fits : needed ≤ block.size) :
    needed ≤ carvedSize minimum needed block := by
  unfold carvedSize
  split
  · exact fits
  · exact Nat.le_refl _

theorem carve_ne_nil (minimum needed : Nat) (block : Block) : carve minimum needed block ≠ [] := by
  unfold carve
  split <;> simp

theorem total_carve {minimum needed : Nat} {block : Block} (fits : needed ≤ block.size) :
    total (carve minimum needed block) = block.size := by
  unfold carve
  split
  · simp
  · simp only [total_cons, total_nil]
    omega

theorem used_carve (start minimum needed : Nat) (block : Block) :
    used start (carve minimum needed block) =
      [(start, ⟨carvedSize minimum needed block, false⟩)] := by
  unfold carve carvedSize
  split <;> simp [used, placed]

/-- Replacing a free block by blocks of which the last alone may be free. -/
theorem separated_replace {front back middle : List Block} {block : Block}
    (separated : (front ++ block :: back).IsChain Apart) (inner : middle.IsChain Apart)
    (head : ∀ first ∈ middle.head?, first.free = false) (free : block.free = true)
    (filled : middle ≠ []) : (front ++ (middle ++ back)).IsChain Apart := by
  obtain ⟨frontChain, blockChain, _⟩ := List.isChain_append.mp separated
  obtain ⟨afterBlock, backChain⟩ := List.isChain_cons.mp blockChain
  have middleBack : (middle ++ back).IsChain Apart := by
    refine inner.append backChain ?_
    intro last _ next isNext
    rcases afterBlock next isNext with impossible | usedNext
    · simp [free] at impossible
    · exact Or.inr usedNext
  refine frontChain.append middleBack ?_
  intro last _ first isFirst
  rw [List.head?_append_of_ne_nil _ filled] at isFirst
  exact Or.inr (head first isFirst)

theorem canonical_carve {minimum grain needed : Nat} {front back : List Block} {block : Block}
    (canonical : Canonical minimum grain (front ++ block :: back)) (free : block.free = true)
    (fits : needed ≤ block.size) (large : minimum ≤ needed) (grained : grain ∣ needed) :
    Canonical minimum grain (front ++ (carve minimum needed block ++ back)) := by
  have blockGrained : grain ∣ block.size := canonical.grained block (by simp)
  have pieces : ∀ piece ∈ carve minimum needed block,
      minimum ≤ piece.size ∧ grain ∣ piece.size := by
    intro piece member
    unfold carve at member
    split at member
    · obtain rfl : piece = ⟨block.size, false⟩ := by simpa using member
      exact ⟨by simp only; omega, blockGrained⟩
    · rcases List.mem_cons.mp member with same | last
      · subst same
        exact ⟨large, grained⟩
      · obtain rfl : piece = ⟨block.size - needed, true⟩ := by simpa using last
        exact ⟨by simp only; omega, Nat.dvd_sub blockGrained grained⟩
  have members : ∀ member ∈ front ++ (carve minimum needed block ++ back),
      minimum ≤ member.size ∧ grain ∣ member.size := by
    intro member inside
    simp only [List.mem_append] at inside
    rcases inside with before | piece | after
    · exact ⟨canonical.sized member (by simp [before]), canonical.grained member (by simp [before])⟩
    · exact pieces member piece
    · exact ⟨canonical.sized member (by simp [after]), canonical.grained member (by simp [after])⟩
  refine ⟨fun member inside => (members member inside).1,
    fun member inside => (members member inside).2, ?_⟩
  apply separated_replace canonical.separated _ _ free
  · exact carve_ne_nil minimum needed block
  · unfold carve
    split <;> simp [Apart]
  · unfold carve
    split <;> simp

/-- First-fit allocation: the address and the list with the request carved out. -/
def allocate (minimum needed : Nat) : Nat → List Block → Option (Nat × List Block)
  | _, [] => none
  | start, block :: rest =>
      if fits needed block then some (start, carve minimum needed block ++ rest)
      else (allocate minimum needed (start + block.size) rest).map fun found =>
        (found.1, block :: found.2)

theorem allocate_split {minimum needed start address : Nat} {blocks after : List Block}
    (found : allocate minimum needed start blocks = some (address, after)) :
    ∃ front block back, blocks = front ++ block :: back ∧ address = start + total front ∧
      after = front ++ (carve minimum needed block ++ back) ∧ block.free = true ∧
      needed ≤ block.size := by
  induction blocks generalizing start after with
  | nil => simp [allocate] at found
  | cons block rest ih =>
      rw [allocate] at found
      split at found
      · rename_i fit
        simp only [fits, Bool.and_eq_true, decide_eq_true_eq] at fit
        obtain ⟨rfl, rfl⟩ := Prod.mk.inj (Option.some.inj found)
        exact ⟨[], block, rest, rfl, by simp, rfl, fit.1, fit.2⟩
      · obtain ⟨⟨place, tail⟩, later, same⟩ := Option.map_eq_some_iff.mp found
        obtain ⟨rfl, rfl⟩ := Prod.mk.inj same
        obtain ⟨front, other, back, list, spot, rfl, free, large⟩ := ih later
        refine ⟨block :: front, other, back, by rw [list]; rfl, ?_, rfl, free, large⟩
        rw [spot, total_cons]
        omega

theorem allocate_address (minimum needed start : Nat) (blocks : List Block) :
    (allocate minimum needed start blocks).map Prod.fst = firstFit needed start blocks := by
  induction blocks generalizing start with
  | nil => rfl
  | cons block rest ih =>
      rw [allocate, firstFit, ← ih]
      split
      · rfl
      · simp [Option.map_map, Function.comp_def]

theorem allocate_none {minimum needed start : Nat} {blocks : List Block} :
    allocate minimum needed start blocks = none ↔
      ∀ block ∈ blocks, fits needed block = false := by
  rw [← firstFit_none needed start, ← allocate_address minimum, Option.map_eq_none_iff]

theorem used_carve_append {start minimum needed : Nat} {front back : List Block} {block : Block}
    (free : block.free = true) (fits : needed ≤ block.size) :
    (used start (front ++ (carve minimum needed block ++ back))).Perm
      ((start + total front, ⟨carvedSize minimum needed block, false⟩) ::
        used start (front ++ block :: back)) := by
  have inserted : used start (front ++ (carve minimum needed block ++ back)) =
      used start front ++ (start + total front, ⟨carvedSize minimum needed block, false⟩) ::
        used (start + total front + block.size) back := by
    rw [used_append, used_append, used_carve, total_carve fits]
    rfl
  rw [inserted, used_append, used_cons, if_pos free]
  exact List.perm_middle

theorem used_release_append {start : Nat} {front back : List Block} {block : Block}
    (isUsed : block.free = false) :
    (used start (front ++ block :: back)).Perm
      ((start + total front, block) :: used start (front ++ ⟨block.size, true⟩ :: back)) := by
  rw [used_append, used_append, used_cons, used_cons, if_neg (by simp [isUsed]), if_pos rfl]
  exact List.perm_middle

/-! ## The used blocks determine the list -/

theorem used_increasing (start : Nat) {blocks : List Block}
    (sized : ∀ block ∈ blocks, 0 < block.size) :
    (used start blocks).Pairwise fun left right => left.1 < right.1 :=
  (placed_increasing start sized).filter _

/-- Lists with the same used blocks have them in the same order. -/
theorem used_eq_of_mem_iff {start : Nat} {blocks others : List Block}
    (sized : ∀ block ∈ blocks, 0 < block.size) (otherSized : ∀ block ∈ others, 0 < block.size)
    (same : ∀ entry, entry ∈ used start blocks ↔ entry ∈ used start others) :
    used start blocks = used start others := by
  have increasing := used_increasing start sized
  have otherIncreasing := used_increasing start otherSized
  have distinct {entries : List (Nat × Block)}
      (ordered : entries.Pairwise fun left right => left.1 < right.1) : entries.Nodup :=
    ordered.imp fun before equal => absurd (equal ▸ before) (Nat.lt_irrefl _)
  have perm := (List.perm_ext_iff_of_nodup (distinct increasing) (distinct otherIncreasing)).mpr same
  exact perm.eq_of_pairwise (fun _ _ _ _ before after => absurd (Nat.lt_trans before after)
    (Nat.lt_irrefl _)) increasing otherIncreasing

theorem not_mem_used_behind {start size : Nat} {block : Block} {rest : List Block}
    (positive : 0 < size) : (start, block) ∉ used (start + size) rest := by
  intro member
  have bounds := placed_bounds (mem_used.mp member).1
  simp only at bounds
  omega

/-- Behind a free first block comes nothing or a used block. -/
theorem used_behind_free (start : Nat) {block : Block} {rest : List Block}
    (separated : (block :: rest).IsChain Apart) (free : block.free = true) :
    rest = [] ∨ ∃ next more, rest = next :: more ∧
      used (start + block.size) rest =
        (start + block.size, next) :: used (start + block.size + next.size) more := by
  cases rest with
  | nil => exact Or.inl rfl
  | cons next more =>
      have apart := (List.isChain_cons_cons.mp separated).1
      have taken : next.free = false := by
        rcases apart with used | used
        · rw [free] at used
          exact absurd used (by decide)
        · exact used
      exact Or.inr ⟨next, more, rfl, by rw [used_cons, if_neg (by simp [taken])]⟩

theorem free_sizes_eq {start : Nat} {block other : Block} {rest others : List Block}
    (separated : (block :: rest).IsChain Apart) (otherSeparated : (other :: others).IsChain Apart)
    (free : block.free = true) (otherFree : other.free = true)
    (sameUsed : used (start + block.size) rest = used (start + other.size) others)
    (sameTotal : total (block :: rest) = total (other :: others)) : block.size = other.size := by
  rcases used_behind_free start separated free with rfl | ⟨next, more, _, head⟩
  · rcases used_behind_free start otherSeparated otherFree with rfl | ⟨_, _, _, otherHead⟩
    · simpa using sameTotal
    · rw [otherHead] at sameUsed
      exact absurd sameUsed (by simp [used, placed])
  · rcases used_behind_free start otherSeparated otherFree with rfl | ⟨_, _, _, otherHead⟩
    · rw [head] at sameUsed
      exact absurd sameUsed (by simp [used, placed])
    · rw [head, otherHead] at sameUsed
      have place := (Prod.mk.inj (List.cons.inj sameUsed).1).1
      omega

/-- A separated list is determined by its used blocks and its total size. -/
theorem separated_unique {start : Nat} {blocks others : List Block}
    (sized : ∀ block ∈ blocks, 0 < block.size) (otherSized : ∀ block ∈ others, 0 < block.size)
    (separated : blocks.IsChain Apart) (otherSeparated : others.IsChain Apart)
    (sameUsed : used start blocks = used start others) (sameTotal : total blocks = total others) :
    blocks = others := by
  induction blocks generalizing start others with
  | nil =>
      cases others with
      | nil => rfl
      | cons other rest =>
          have positive := otherSized other (List.mem_cons_self ..)
          rw [total_nil, total_cons] at sameTotal
          omega
  | cons block rest ih =>
      have positive := sized block (List.mem_cons_self ..)
      cases others with
      | nil =>
          rw [total_nil, total_cons] at sameTotal
          omega
      | cons other otherRest =>
          have otherPositive := otherSized other (List.mem_cons_self ..)
          have heads : block = other ∧
              used (start + block.size) rest = used (start + other.size) otherRest := by
            rw [used_cons, used_cons] at sameUsed
            by_cases free : block.free = true
            · by_cases otherFree : other.free = true
              · rw [if_pos free, if_pos otherFree] at sameUsed
                have size := free_sizes_eq separated otherSeparated free otherFree sameUsed sameTotal
                have same : block = other := by
                  cases block
                  cases other
                  simp_all
                exact ⟨same, sameUsed⟩
              · rw [if_pos free, if_neg otherFree] at sameUsed
                exact absurd (sameUsed ▸ List.mem_cons_self ..) (not_mem_used_behind positive)
            · by_cases otherFree : other.free = true
              · rw [if_neg free, if_pos otherFree] at sameUsed
                exact absurd (sameUsed ▸ List.mem_cons_self ..) (not_mem_used_behind otherPositive)
              · rw [if_neg free, if_neg otherFree] at sameUsed
                obtain ⟨head, tail⟩ := List.cons.inj sameUsed
                exact ⟨(Prod.mk.inj head).2, tail⟩
          obtain ⟨rfl, tail⟩ := heads
          rw [ih (fun inner member => sized inner (List.mem_cons_of_mem _ member))
            (fun inner member => otherSized inner (List.mem_cons_of_mem _ member))
            separated.tail otherSeparated.tail tail (by simpa using sameTotal)]

theorem one_free_block {start : Nat} {blocks : List Block} (sized : ∀ block ∈ blocks, 0 < block.size)
    (separated : blocks.IsChain Apart) (unused : ∀ entry, entry ∉ used start blocks)
    (filled : blocks ≠ []) : blocks = [⟨total blocks, true⟩] := by
  obtain ⟨block, rest, same⟩ := List.exists_cons_of_ne_nil filled
  have positive : 0 < total blocks := by
    have first : block ∈ blocks := same ▸ List.mem_cons_self ..
    exact Nat.lt_of_lt_of_le (sized block first) (size_le_total first)
  apply separated_unique sized (by simpa using positive) separated (List.isChain_singleton _)
  · rw [List.eq_nil_iff_forall_not_mem.mpr unused]
    rfl
  · simp

end SimplyOs.Library.BlockList
