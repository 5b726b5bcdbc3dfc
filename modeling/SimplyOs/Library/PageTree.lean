import SimplyOs.Library.ByteMemory
import Mathlib.Algebra.Order.Ring.Nat

/-!
# Two-level page tables in byte memory

The 32-bit page walk: a directory of 1024 words, each of which may point to a
table of 1024 words. A tree is `Sound` when its last slot points back to the
directory and its other present slots point to different tables; then a store to
one entry changes one page, and a fresh zeroed table changes none.
-/

namespace SimplyOs.Library.PageTree

open SimplyOs.Library.ByteMemory

set_option autoImplicit false

def frameBytes : Nat := 4096

/-- The slot that points back to the directory. -/
def selfSlot : Nat := 1023

/-- Pages that are reached without the last slot. -/
def treePages : Nat := selfSlot * 1024

def present (entry : Nat) : Bool := entry % 2 == 1

def writable (entry : Nat) : Bool := entry / 2 % 2 == 1

def frameOf (entry : Nat) : Nat := entry / frameBytes * frameBytes

def flagsOf (entry : Nat) : Nat := entry % frameBytes

/-- Present and writable, with no other flag. -/
def tableFlags : Nat := 3

def slot (memory : Memory) (table index : Nat) : Nat := load32 memory (table + 4 * index)

def pageEntry (memory : Memory) (root page : Nat) : Option Nat :=
  let directoryEntry := slot memory root (page / 1024)
  if present directoryEntry then
    let entry := slot memory (frameOf directoryEntry) (page % 1024)
    if present entry then some entry else none
  else none

def permits (write : Bool) (entry : Nat) : Bool := present entry && (!write || writable entry)

/-- The physical address of an access, or nothing on a page fault. -/
def translate (memory : Memory) (root : Nat) (write : Bool) (address : Nat) : Option Nat :=
  let page := address / frameBytes
  let directoryEntry := slot memory root (page / 1024)
  if permits write directoryEntry then
    let entry := slot memory (frameOf directoryEntry) (page % 1024)
    if permits write entry then some (frameOf entry + address % frameBytes) else none
  else none

theorem frame_of_aligned (entry : Nat) : frameOf entry % frameBytes = 0 :=
  Nat.mul_mod_left _ _

section Entries

variable {frame flags : Nat}

theorem frame_of_add (aligned : frame % frameBytes = 0) (small : flags < frameBytes) :
    frameOf (frame + flags) = frame := by
  simp only [frameOf, frameBytes] at *
  omega

theorem flags_of_add (aligned : frame % frameBytes = 0) (small : flags < frameBytes) :
    flagsOf (frame + flags) = flags := by
  simp only [flagsOf, frameBytes] at *
  omega

theorem present_add (aligned : frame % frameBytes = 0) : present (frame + flags) = present flags := by
  have even : (frame + flags) % 2 = flags % 2 := by
    simp only [frameBytes] at aligned
    omega
  simp only [present, even]

theorem permits_add (write : Bool) (aligned : frame % frameBytes = 0) :
    permits write (frame + flags) = permits write flags := by
  have second : (frame + flags) / 2 % 2 = flags / 2 % 2 := by
    simp only [frameBytes] at aligned
    omega
  simp only [permits, present_add aligned, writable, second]

theorem permits_absent (write : Bool) {entry : Nat} (absent : present entry = false) :
    permits write entry = false := by
  rw [permits, absent, Bool.false_and]

theorem permits_table (write : Bool) (aligned : frame % frameBytes = 0) :
    permits write (frame + tableFlags) = true := by
  rw [permits_add write aligned]
  cases write <;> rfl

theorem present_table (aligned : frame % frameBytes = 0) : present (frame + tableFlags) = true := by
  rw [present_add aligned]
  rfl

end Entries

/-! ## Slots under stores -/

section Slots

variable {memory after : Memory} {table other index place word : Nat}

def SameFrame (frame : Nat) (memory after : Memory) : Prop :=
  Agree frame (frame + frameBytes) memory after

theorem slot_of_same (same : SameFrame table memory after) (inside : index < 1024) :
    slot after table index = slot memory table index := by
  apply load32_of_agree _ same
  · omega
  · simp only [frameBytes]
    omega

theorem slot_store_same (small : word < 2 ^ 32) :
    slot (store32 memory (table + 4 * index) word) table index = word := by
  rw [slot, load32_store32, Nat.mod_eq_of_lt small]

theorem slot_store_other (different : place ≠ index) :
    slot (store32 memory (table + 4 * index) word) table place = slot memory table place :=
  load32_store32_of_disjoint _ _ (by omega)

theorem frames_apart (aligned : table % frameBytes = 0) (otherAligned : other % frameBytes = 0)
    (different : other ≠ table) : other + frameBytes ≤ table ∨ table + frameBytes ≤ other := by
  simp only [frameBytes] at *
  omega

theorem same_frame_store (aligned : table % frameBytes = 0)
    (otherAligned : other % frameBytes = 0) (different : other ≠ table) (inside : index < 1024) :
    SameFrame other memory (store32 memory (table + 4 * index) word) := by
  have apart := frames_apart aligned otherAligned different
  simp only [frameBytes] at apart
  apply agree_store32
  simp only [frameBytes]
  omega

theorem same_frame_fill {value : UInt8} (aligned : table % frameBytes = 0)
    (otherAligned : other % frameBytes = 0) (different : other ≠ table) :
    SameFrame other memory (fill memory table frameBytes value) := by
  have apart := frames_apart aligned otherAligned different
  exact agree_fill (by omega)

theorem slot_fill_zero (inside : index < 1024) :
    slot (fill memory table frameBytes 0) table index = 0 := by
  apply load32_fill_zero
  · omega
  · simp only [frameBytes]
    omega

end Slots

/-! ## Sound trees -/

def tableAt (memory : Memory) (root index : Nat) : Nat := frameOf (slot memory root index)

def slotPresent (memory : Memory) (root index : Nat) : Bool := present (slot memory root index)

structure Sound (memory : Memory) (root : Nat) : Prop where
  aligned : root % frameBytes = 0
  self : slot memory root selfSlot = root + tableFlags
  flags : ∀ index < selfSlot, slotPresent memory root index = true →
    slot memory root index = tableAt memory root index + tableFlags
  apart : ∀ index < selfSlot, slotPresent memory root index = true →
    tableAt memory root index ≠ root
  distinct : ∀ index < selfSlot, ∀ other < selfSlot, slotPresent memory root index = true →
    slotPresent memory root other = true →
      tableAt memory root index = tableAt memory root other → index = other

section Sound

variable {memory after : Memory} {root index page word fresh : Nat}

theorem table_at_aligned (memory : Memory) (root index : Nat) :
    tableAt memory root index % frameBytes = 0 :=
  frame_of_aligned _

theorem page_entry_absent (absent : slotPresent memory root (page / 1024) = false) :
    pageEntry memory root page = none := by
  simp only [slotPresent] at absent
  simp [pageEntry, absent]

theorem slot_present_of_entry {entry : Nat} (mapped : pageEntry memory root page = some entry) :
    slotPresent memory root (page / 1024) = true := by
  by_contra absent
  rw [page_entry_absent (Bool.eq_false_iff.mpr absent)] at mapped
  exact absurd mapped (by simp)

theorem page_entry_present (here : slotPresent memory root (page / 1024) = true) :
    pageEntry memory root page =
      if present (slot memory (tableAt memory root (page / 1024)) (page % 1024)) then
        some (slot memory (tableAt memory root (page / 1024)) (page % 1024))
      else none := by
  rw [slotPresent] at here
  rw [pageEntry, if_pos here]
  rfl

theorem page_slot_lt (below : page < treePages) : page / 1024 < selfSlot := by
  unfold treePages at below
  unfold selfSlot at *
  omega

/-- A tree is what its directory and its tables say, wherever else is written. -/
theorem sound_of_same (sound : Sound memory root) (same : SameFrame root memory after) :
    Sound after root ∧ ∀ index < 1024, slot after root index = slot memory root index := by
  have slots : ∀ index < 1024, slot after root index = slot memory root index :=
    fun index inside => slot_of_same same inside
  have bound : ∀ index < selfSlot, index < 1024 := by
    intro index inside
    simp only [selfSlot] at inside
    omega
  refine ⟨⟨sound.aligned, ?_, ?_, ?_, ?_⟩, slots⟩
  · rw [slots selfSlot (by decide)]
    exact sound.self
  · intro index inside here
    simp only [slotPresent, tableAt, slots index (bound index inside)] at here ⊢
    exact sound.flags index inside here
  · intro index inside here
    simp only [slotPresent, tableAt, slots index (bound index inside)] at here ⊢
    exact sound.apart index inside here
  · intro index inside other otherInside here otherHere
    simp only [slotPresent, tableAt, slots index (bound index inside),
      slots other (bound other otherInside)] at here otherHere ⊢
    exact sound.distinct index inside other otherInside here otherHere

theorem page_entry_of_same (directory : SameFrame root memory after)
    (tables : ∀ index < selfSlot, slotPresent memory root index = true →
      SameFrame (tableAt memory root index) memory after) (below : page < treePages) :
    pageEntry after root page = pageEntry memory root page := by
  have inside := page_slot_lt below
  have directorySlot : slot after root (page / 1024) = slot memory root (page / 1024) :=
    slot_of_same directory (Nat.lt_of_lt_of_le inside (by decide))
  cases here : slotPresent memory root (page / 1024) with
  | false =>
      have afterHere : slotPresent after root (page / 1024) = false := by
        rw [slotPresent, directorySlot]
        exact here
      rw [page_entry_absent here, page_entry_absent afterHere]
  | true =>
      have afterHere : slotPresent after root (page / 1024) = true := by
        rw [slotPresent, directorySlot]
        exact here
      have tableSlot : slot after (tableAt memory root (page / 1024)) (page % 1024) =
          slot memory (tableAt memory root (page / 1024)) (page % 1024) :=
        slot_of_same (tables _ inside here) (Nat.mod_lt _ (by decide))
      have sameTable : tableAt after root (page / 1024) = tableAt memory root (page / 1024) := by
        rw [tableAt, directorySlot]
        rfl
      rw [page_entry_present here, page_entry_present afterHere, sameTable, tableSlot]

/-! ## One entry -/

def storeEntry (memory : Memory) (root page word : Nat) : Memory :=
  store32 memory (tableAt memory root (page / 1024) + 4 * (page % 1024)) word

theorem store_entry_directory (word : Nat) (sound : Sound memory root) (below : page < treePages)
    (here : slotPresent memory root (page / 1024) = true) :
    SameFrame root memory (storeEntry memory root page word) :=
  same_frame_store (table_at_aligned _ _ _) sound.aligned
    (sound.apart _ (page_slot_lt below) here).symm (Nat.mod_lt _ (by decide))

theorem store_entry_page (sound : Sound memory root) (below : page < treePages)
    (here : slotPresent memory root (page / 1024) = true) (small : word < 2 ^ 32)
    {place : Nat} (placeBelow : place < treePages) :
    pageEntry (storeEntry memory root page word) root place =
      if place = page then (if present word then some word else none)
      else pageEntry memory root place := by
  have directory := store_entry_directory word sound below here
  have placeInside := page_slot_lt placeBelow
  have placeSlot : slot (storeEntry memory root page word) root (place / 1024) =
      slot memory root (place / 1024) :=
    slot_of_same directory (Nat.lt_of_lt_of_le placeInside (by decide))
  have sameTable : tableAt (storeEntry memory root page word) root (place / 1024) =
      tableAt memory root (place / 1024) := by
    rw [tableAt, placeSlot]
    rfl
  cases placeHere : slotPresent memory root (place / 1024) with
  | false =>
      have afterHere : slotPresent (storeEntry memory root page word) root (place / 1024) =
          false := by
        rw [slotPresent, placeSlot]
        exact placeHere
      have different : place ≠ page := by
        rintro rfl
        rw [here] at placeHere
        contradiction
      rw [page_entry_absent placeHere, page_entry_absent afterHere, if_neg different]
  | true =>
      have afterHere : slotPresent (storeEntry memory root page word) root (place / 1024) =
          true := by
        rw [slotPresent, placeSlot]
        exact placeHere
      rw [page_entry_present placeHere, page_entry_present afterHere, sameTable]
      by_cases same : place = page
      · rw [if_pos same, same, storeEntry, slot_store_same small]
      · rw [if_neg same]
        have kept : slot (storeEntry memory root page word) (tableAt memory root (place / 1024))
              (place % 1024) =
            slot memory (tableAt memory root (place / 1024)) (place % 1024) := by
          by_cases sameSlot : place / 1024 = page / 1024
          · rw [sameSlot]
            apply slot_store_other
            omega
          · apply slot_of_same _ (Nat.mod_lt _ (by decide))
            apply same_frame_store (table_at_aligned _ _ _) (table_at_aligned _ _ _) _
              (Nat.mod_lt _ (by decide))
            intro sameFrame
            exact sameSlot (sound.distinct _ placeInside _ (page_slot_lt below) placeHere here
              sameFrame)
        rw [kept]

/-! ## A new table -/

def storeSlot (memory : Memory) (root index fresh : Nat) : Memory :=
  store32 memory (root + 4 * index) (fresh + tableFlags)

def installTable (memory : Memory) (root index fresh : Nat) : Memory :=
  fill (storeSlot memory root index fresh) fresh frameBytes 0

structure Unused (memory : Memory) (root fresh : Nat) : Prop where
  aligned : fresh % frameBytes = 0
  word : fresh + frameBytes ≤ 2 ^ 32
  directory : fresh ≠ root
  tables : ∀ index < selfSlot, slotPresent memory root index = true →
    tableAt memory root index ≠ fresh

theorem store_slot_slots (index : Nat) (unused : Unused memory root fresh) (place : Nat) :
    slot (storeSlot memory root index fresh) root place =
      if place = index then fresh + tableFlags else slot memory root place := by
  have word := unused.word
  simp only [frameBytes] at word
  by_cases same : place = index
  · rw [if_pos same, same, storeSlot, slot_store_same (by simp only [tableFlags]; omega)]
  · rw [if_neg same, storeSlot, slot_store_other same]

theorem sound_store_slot (sound : Sound memory root) (unused : Unused memory root fresh)
    (inside : index < selfSlot) : Sound (storeSlot memory root index fresh) root := by
  have slots := store_slot_slots index unused
  have base : frameOf (fresh + tableFlags) = fresh := frame_of_add unused.aligned (by decide)
  refine ⟨sound.aligned, ?_, ?_, ?_, ?_⟩
  · rw [slots, if_neg (Nat.ne_of_gt inside)]
    exact sound.self
  · intro place placeInside here
    simp only [slotPresent, tableAt, slots] at here ⊢
    by_cases same : place = index
    · rw [if_pos same, base]
    · rw [if_neg same] at here ⊢
      exact sound.flags place placeInside here
  · intro place placeInside here
    simp only [slotPresent, tableAt, slots] at here ⊢
    by_cases same : place = index
    · rw [if_pos same, base]
      exact unused.directory
    · rw [if_neg same] at here ⊢
      exact sound.apart place placeInside here
  · intro place placeInside other otherInside here otherHere sameTable
    simp only [slotPresent, tableAt, slots] at here otherHere sameTable
    by_cases same : place = index <;> by_cases otherSame : other = index
    · rw [same, otherSame]
    · rw [if_pos same, if_neg otherSame, base] at sameTable
      rw [if_neg otherSame] at otherHere
      exact absurd sameTable.symm (unused.tables other otherInside otherHere)
    · rw [if_neg same, if_pos otherSame, base] at sameTable
      rw [if_neg same] at here
      exact absurd sameTable (unused.tables place placeInside here)
    · rw [if_neg same] at here sameTable
      rw [if_neg otherSame] at otherHere sameTable
      exact sound.distinct place placeInside other otherInside here otherHere sameTable

theorem install_directory (index : Nat) (sound : Sound memory root)
    (unused : Unused memory root fresh) :
    SameFrame root (storeSlot memory root index fresh) (installTable memory root index fresh) :=
  same_frame_fill unused.aligned sound.aligned unused.directory.symm

theorem sound_install (sound : Sound memory root) (unused : Unused memory root fresh)
    (inside : index < selfSlot) :
    Sound (installTable memory root index fresh) root ∧
      ∀ place < 1024, slot (installTable memory root index fresh) root place =
        if place = index then fresh + tableFlags else slot memory root place := by
  obtain ⟨kept, slots⟩ := sound_of_same (sound_store_slot sound unused inside)
    (install_directory index sound unused)
  refine ⟨kept, ?_⟩
  intro place placeInside
  rw [slots place placeInside, store_slot_slots index unused]

/-- A frame that is neither written as directory nor as new table stays. -/
theorem install_frame (sound : Sound memory root) (unused : Unused memory root fresh)
    (inside : index < selfSlot) {frame : Nat} (aligned : frame % frameBytes = 0)
    (notRoot : frame ≠ root) (notFresh : frame ≠ fresh) :
    SameFrame frame memory (installTable memory root index fresh) :=
  agree_trans (same_frame_store sound.aligned aligned notRoot (Nat.lt_trans inside (by decide)))
    (same_frame_fill unused.aligned aligned notFresh)

theorem install_page (sound : Sound memory root) (unused : Unused memory root fresh)
    (inside : index < selfSlot) (absent : slotPresent memory root index = false)
    (below : page < treePages) :
    pageEntry (installTable memory root index fresh) root page = pageEntry memory root page := by
  obtain ⟨_, slots⟩ := sound_install sound unused inside
  have pageInside := page_slot_lt below
  have pageSlot := slots (page / 1024) (Nat.lt_trans pageInside (by decide))
  by_cases same : page / 1024 = index
  · have base : frameOf (fresh + tableFlags) = fresh := frame_of_add unused.aligned (by decide)
    rw [if_pos same] at pageSlot
    have here : slotPresent (installTable memory root index fresh) root (page / 1024) = true := by
      rw [slotPresent, pageSlot]
      exact present_table unused.aligned
    have table : tableAt (installTable memory root index fresh) root (page / 1024) = fresh := by
      rw [tableAt, pageSlot, base]
    have before : slotPresent memory root (page / 1024) = false := by
      rw [same]
      exact absent
    rw [page_entry_absent before, page_entry_present here, table, installTable,
      slot_fill_zero (Nat.mod_lt _ (by decide))]
    rfl
  · rw [if_neg same] at pageSlot
    have sameTable : tableAt (installTable memory root index fresh) root (page / 1024) =
        tableAt memory root (page / 1024) := by
      rw [tableAt, pageSlot]
      rfl
    cases here : slotPresent memory root (page / 1024) with
    | false =>
        have afterHere : slotPresent (installTable memory root index fresh) root
            (page / 1024) = false := by
          rw [slotPresent, pageSlot]
          exact here
        rw [page_entry_absent here, page_entry_absent afterHere]
    | true =>
        have afterHere : slotPresent (installTable memory root index fresh) root
            (page / 1024) = true := by
          rw [slotPresent, pageSlot]
          exact here
        have kept := install_frame sound unused inside (table_at_aligned memory root (page / 1024))
          (sound.apart _ pageInside here) (unused.tables _ pageInside here)
        rw [page_entry_present here, page_entry_present afterHere, sameTable,
          slot_of_same kept (Nat.mod_lt _ (by decide))]

/-! ## Translation -/

theorem translate_words (write : Bool) {table frame address : Nat}
    (tableAligned : table % frameBytes = 0) (frameAligned : frame % frameBytes = 0)
    (directory : slot memory root (address / frameBytes / 1024) = table + tableFlags)
    (entry : slot memory table (address / frameBytes % 1024) = frame + tableFlags) :
    translate memory root write address = some (frame + address % frameBytes) := by
  have tableBase : frameOf (table + tableFlags) = table := frame_of_add tableAligned (by decide)
  have frameBase : frameOf (frame + tableFlags) = frame := frame_of_add frameAligned (by decide)
  simp only [translate, directory, permits_table write tableAligned, if_true, tableBase, entry,
    permits_table write frameAligned, frameBase]

theorem translate_page (write : Bool) {entry address : Nat} (sound : Sound memory root)
    (below : address / frameBytes < treePages)
    (mapped : pageEntry memory root (address / frameBytes) = some entry)
    (allowed : permits write entry = true) :
    translate memory root write address = some (frameOf entry + address % frameBytes) := by
  cases here : slotPresent memory root (address / frameBytes / 1024) with
  | false =>
      rw [page_entry_absent here] at mapped
      contradiction
  | true =>
      have directory := sound.flags _ (page_slot_lt below) here
      have directoryPermits : permits write
          (slot memory root (address / frameBytes / 1024)) = true := by
        rw [directory]
        exact permits_table write (table_at_aligned _ _ _)
      rw [page_entry_present here] at mapped
      split at mapped
      · obtain rfl := Option.some.inj mapped
        simp only [tableAt] at allowed
        simp only [translate, directoryPermits, if_true, allowed, tableAt]
      · contradiction

/-- The frame and the entries of an access that does not fault. -/
theorem translate_some {write : Bool} {address place : Nat}
    (translated : translate memory root write address = some place) :
    permits write (slot memory root (address / frameBytes / 1024)) = true ∧
      ∃ entry, entry = slot memory (tableAt memory root (address / frameBytes / 1024))
          (address / frameBytes % 1024) ∧
        permits write entry = true ∧ place = frameOf entry + address % frameBytes := by
  unfold translate at translated
  by_cases directory : permits write (slot memory root (address / frameBytes / 1024)) = true
  · by_cases entry : permits write (slot memory
        (frameOf (slot memory root (address / frameBytes / 1024))) (address / frameBytes % 1024)) = true
    · simp only [directory, entry, if_true, Option.some_inj] at translated
      exact ⟨directory, _, rfl, entry, translated.symm⟩
    · simp [directory, entry] at translated
  · simp [directory] at translated

theorem permits_read {write : Bool} {entry : Nat} (allowed : permits write entry = true) :
    permits false entry = true := by
  rw [permits, Bool.and_eq_true] at allowed
  rw [permits, allowed.1]
  rfl

theorem translate_read {write : Bool} {address place : Nat}
    (translated : translate memory root write address = some place) :
    translate memory root false address = some place := by
  obtain ⟨directory, entry, same, allowed, here⟩ := translate_some translated
  rw [tableAt] at same
  simp only [translate, permits_read directory, if_true, ← same, permits_read allowed, here]

theorem translate_unmapped (write : Bool) {address : Nat}
    (unmapped : pageEntry memory root (address / frameBytes) = none) :
    translate memory root write address = none := by
  by_cases directory : present (slot memory root (address / frameBytes / 1024)) = true
  · by_cases entry : present (slot memory (frameOf (slot memory root (address / frameBytes / 1024)))
        (address / frameBytes % 1024)) = true
    · rw [pageEntry, if_pos directory, if_pos entry] at unmapped
      contradiction
    · have denied := permits_absent write (Bool.not_eq_true _ ▸ entry)
      simp only [translate, denied, Bool.false_eq_true, if_false, ite_self]
  · have denied := permits_absent write (Bool.not_eq_true _ ▸ directory)
    simp only [translate, denied, Bool.false_eq_true, if_false]

/-- Where the tables appear in the address space. -/
def windowBase : Nat := selfSlot * 1024 * frameBytes

theorem window_address_parts (inside : index < 1024) {offset : Nat} (small : offset < frameBytes) :
    (windowBase + index * frameBytes + offset) / frameBytes / 1024 = selfSlot ∧
      (windowBase + index * frameBytes + offset) / frameBytes % 1024 = index ∧
      (windowBase + index * frameBytes + offset) % frameBytes = offset := by
  unfold windowBase selfSlot frameBytes at *
  omega

/-- Through the last slot each table is reached in a page of its own. -/
theorem translate_window (write : Bool) (sound : Sound memory root) (inside : index < selfSlot)
    (here : slotPresent memory root index = true) {offset : Nat} (small : offset < frameBytes) :
    translate memory root write (windowBase + index * frameBytes + offset) =
      some (tableAt memory root index + offset) := by
  obtain ⟨high, low, rest⟩ := window_address_parts (Nat.lt_trans inside (by decide)) small
  have translated := translate_words write sound.aligned (table_at_aligned memory root index)
    (by rw [high]; exact sound.self :
      slot memory root ((windowBase + index * frameBytes + offset) / frameBytes / 1024) = _)
    (by rw [low]; exact sound.flags index inside here)
  rw [translated, rest]

/-- An access to the window that does not fault is one to the table of that slot. -/
theorem translate_window_some {write : Bool} (aligned : root % frameBytes = 0)
    (self : slot memory root selfSlot = root + tableFlags) (inside : index < 1024) {offset : Nat}
    (small : offset < frameBytes) {place : Nat}
    (translated : translate memory root write (windowBase + index * frameBytes + offset) =
      some place) :
    slotPresent memory root index = true ∧ place = tableAt memory root index + offset := by
  obtain ⟨high, low, rest⟩ := window_address_parts inside small
  have table : tableAt memory root selfSlot = root := by
    rw [tableAt, self]
    exact frame_of_add aligned (by decide)
  obtain ⟨_, entry, same, allowed, here⟩ := translate_some translated
  rw [high, low, table] at same
  rw [rest, same] at here
  rw [same, permits, Bool.and_eq_true] at allowed
  exact ⟨allowed.1, here⟩

end Sound

end SimplyOs.Library.PageTree
