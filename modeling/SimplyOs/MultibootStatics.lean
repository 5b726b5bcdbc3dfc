import SimplyOs.MultibootParsing

/-!
# The static variables of the boot information

The model keeps the variables in a record and stores them to low memory besides. What a
call leaves there is what the record says, whatever boot information it has read.
-/

namespace SimplyOs.MultibootStatics

open SimplyOs.Word SimplyOs.Multiboot SimplyOs.MultibootParsing SimplyOs.Library.ByteMemory

set_option autoImplicit false

/-- An entry of `mmap_storage` in low memory. -/
def entryHeld (statics : Statics) (memory : LowMemory) (index : Nat) : MmapEntry :=
  let target := statics.mmapStorage + 20 * index
  { addr := load64 memory.bytes target
    len := load64 memory.bytes (target + 8)
    type := load32 memory.bytes (target + 16) }

/-- Low memory holds the values of the static variables. -/
structure Mirrored (statics : Statics) (state : BootState) : Prop where
  valid : state.memory.bytes statics.mbValid = if state.info.mbValid then 1 else 0
  memUpper : load32 state.memory.bytes statics.mbMemUpperKb = state.info.mbMemUpperKb
  count : load32 state.memory.bytes statics.mmapEntryCount = state.info.mmapEntryCount
  entries : ∀ index < state.info.mmapEntryCount,
    entryHeld statics state.memory index = state.info.mmapStorage index

/-- An entry with fields of the width of its type. -/
structure Sized (entry : MmapEntry) : Prop where
  addr : entry.addr < 2 ^ 64
  len : entry.len < 2 ^ 64
  type : entry.type < 2 ^ 32

section Reads

variable {memory : LowMemory} {address word : Nat}

theorem read32_some (read : read32 memory address = some word) :
    word = load32 memory.bytes address := by
  simp only [read32, readByte, Option.bind_eq_bind, Option.bind_eq_some_iff,
    Option.ite_none_right_eq_some, Option.some.injEq] at read
  obtain ⟨_, ⟨_, rfl⟩, _, ⟨_, rfl⟩, _, ⟨_, rfl⟩, _, ⟨_, rfl⟩, rfl⟩ := read
  rfl

theorem read32_lt (read : read32 memory address = some word) : word < 2 ^ 32 := by
  rw [read32_some read]
  exact load32_lt _ _

theorem read64_lt (read : read64 memory address = some word) : word < 2 ^ 64 := by
  rw [read64] at read
  obtain ⟨low, lowRead, rest⟩ := Option.bind_eq_some_iff.mp read
  obtain ⟨high, highRead, same⟩ := Option.bind_eq_some_iff.mp rest
  have lowSmall := read32_lt lowRead
  have highSmall := read32_lt highRead
  rw [← Option.some.inj same]
  omega

theorem parse_sized {parsed : MmapEntry}
    (read : multibootParseMmapEntry memory address = some (some parsed)) : Sized parsed := by
  rw [multibootParseMmapEntry] at read
  split at read
  · cases Option.some.inj read
  · obtain ⟨size, _, rest⟩ := Option.bind_eq_some_iff.mp read
    split at rest
    · cases Option.some.inj rest
    · obtain ⟨addr, addrRead, rest⟩ := Option.bind_eq_some_iff.mp rest
      obtain ⟨len, lenRead, rest⟩ := Option.bind_eq_some_iff.mp rest
      obtain ⟨type, typeRead, same⟩ := Option.bind_eq_some_iff.mp rest
      rw [← Option.some.inj (Option.some.inj same)]
      exact ⟨read64_lt addrRead, read64_lt lenRead, read32_lt typeRead⟩

end Reads

section Stores

variable {statics : Statics} {state : BootState}

theorem statics_apart (statics : Statics) :
    (⟨statics.mbValid, 1⟩ : Extent).Apart ⟨statics.mbMemUpperKb, 4⟩ ∧
      (⟨statics.mbValid, 1⟩ : Extent).Apart ⟨statics.mmapStorage, 20 * maxMmapEntries⟩ ∧
      (⟨statics.mbValid, 1⟩ : Extent).Apart ⟨statics.mmapEntryCount, 4⟩ ∧
      (⟨statics.mbMemUpperKb, 4⟩ : Extent).Apart ⟨statics.mmapStorage, 20 * maxMmapEntries⟩ ∧
      (⟨statics.mbMemUpperKb, 4⟩ : Extent).Apart ⟨statics.mmapEntryCount, 4⟩ ∧
      (⟨statics.mmapStorage, 20 * maxMmapEntries⟩ : Extent).Apart ⟨statics.mmapEntryCount, 4⟩ := by
  have apart := statics.apart
  simp only [StaticAddresses.extents, List.pairwise_cons, List.forall_mem_cons] at apart
  obtain ⟨⟨one, two, three, _⟩, ⟨four, five, _⟩, ⟨six, _⟩, _⟩ := apart
  exact ⟨one, two, three, four, five, six⟩

theorem load64_store64 (memory : LowMemory) (address value : Nat) (small : value < 2 ^ 64) :
    load64 (memory.store64 address value).bytes address = value := by
  have low : load32 (memory.store64 address value).bytes address = value % 2 ^ 32 := by
    simp (disch := omega) only [LowMemory.store64, LowMemory.store32, load32_store32_of_disjoint,
      load32_store32]
  have high : load32 (memory.store64 address value).bytes (address + 4) =
      value / 2 ^ 32 % 2 ^ 32 := load32_store32 _ _ _
  rw [load64, low, high]
  omega

theorem agree_store64 {memory : LowMemory} {low high address value : Nat}
    (outside : address + 8 ≤ low ∨ high ≤ address) :
    Agree low high memory.bytes (memory.store64 address value).bytes :=
  agree_trans (agree_store32 (by omega)) (agree_store32 (by omega))

theorem agree_entry {low high index : Nat} {entry : MmapEntry}
    (outside : statics.mmapStorage + 20 * index + 20 ≤ low ∨
      high ≤ statics.mmapStorage + 20 * index) :
    Agree low high state.memory.bytes (storeEntry statics state index entry).memory.bytes :=
  agree_trans (agree_trans (agree_store64 (by omega)) (agree_store64 (by omega)))
    (agree_store32 (by omega))

theorem entry_held_of_agree {memory after : LowMemory} {index : Nat}
    (same : Agree (statics.mmapStorage + 20 * index) (statics.mmapStorage + 20 * index + 20)
      memory.bytes after.bytes) :
    entryHeld statics after index = entryHeld statics memory index := by
  simp only [entryHeld]
  rw [load64_of_agree _ same (by omega) (by omega), load64_of_agree _ same (by omega) (by omega),
    load32_of_agree _ same (by omega) (by omega)]

theorem entry_held_store {index : Nat} {entry : MmapEntry} (sized : Sized entry) :
    entryHeld statics (storeEntry statics state index entry).memory index = entry := by
  obtain ⟨addr, len, type⟩ := sized
  simp only [entryHeld, storeEntry]
  generalize statics.mmapStorage + 20 * index = target
  generalize first : state.memory.store64 target entry.addr = memory
  generalize second : memory.store64 (target + 8) entry.len = filled
  have addrHeld : load64 (filled.store32 (target + 16) entry.type).bytes target = entry.addr := by
    have last : Agree target (target + 8) filled.bytes
        (filled.store32 (target + 16) entry.type).bytes := agree_store32 (by omega)
    have middle : Agree target (target + 8) memory.bytes filled.bytes := by
      rw [← second]
      exact agree_store64 (by omega)
    rw [load64_of_agree _ (agree_trans middle last) (by omega) (by omega), ← first,
      load64_store64 _ _ _ addr]
  have lenHeld : load64 (filled.store32 (target + 16) entry.type).bytes (target + 8) =
      entry.len := by
    have last : Agree (target + 8) (target + 16) filled.bytes
        (filled.store32 (target + 16) entry.type).bytes := agree_store32 (by omega)
    rw [load64_of_agree _ last (by omega) (by omega), ← second, load64_store64 _ _ _ len]
  have typeHeld : load32 (filled.store32 (target + 16) entry.type).bytes (target + 16) =
      entry.type := (load32_store32 _ _ _).trans (Nat.mod_eq_of_lt type)
  rw [addrHeld, lenHeld, typeHeld]

theorem valid_mirrored (mirrored : Mirrored statics state)
    (few : state.info.mmapEntryCount ≤ maxMmapEntries) (valid : Bool) :
    Mirrored statics (storeValid statics state valid) := by
  obtain ⟨validUpper, validStorage, validCount, _⟩ := statics_apart statics
  simp only [Extent.Apart] at validUpper validStorage validCount
  refine ⟨store8_same _ _ _, ?_, ?_, fun index inside => ?_⟩
  · exact (load32_store8_of_disjoint _ _ (by omega)).trans mirrored.memUpper
  · exact (load32_store8_of_disjoint _ _ (by omega)).trans mirrored.count
  · have listed : index < state.info.mmapEntryCount := inside
    rw [entry_held_of_agree (agree_store8 (by omega))]
    exact mirrored.entries index inside

theorem mem_upper_mirrored (mirrored : Mirrored statics state)
    (few : state.info.mmapEntryCount ≤ maxMmapEntries) {memUpper : Nat} (small : memUpper < 2 ^ 32) :
    Mirrored statics (storeMemUpper statics state memUpper) := by
  obtain ⟨validUpper, _, _, upperStorage, upperCount, _⟩ := statics_apart statics
  simp only [Extent.Apart] at validUpper upperStorage upperCount
  refine ⟨?_, ?_, ?_, fun index inside => ?_⟩
  · exact (store32_outside _ _ (by omega)).trans mirrored.valid
  · exact (load32_store32 _ _ _).trans (Nat.mod_eq_of_lt small)
  · exact (load32_store32_of_disjoint _ _ (by omega)).trans mirrored.count
  · have listed : index < state.info.mmapEntryCount := inside
    rw [entry_held_of_agree (agree_store32 (by omega))]
    exact mirrored.entries index inside

theorem parsed_mirrored (mirrored : Mirrored statics state)
    (spare : state.info.mmapEntryCount < maxMmapEntries) {parsed : MmapEntry} (sized : Sized parsed) :
    Mirrored statics (storeParsed statics state parsed) := by
  obtain ⟨_, validStorage, validCount, upperStorage, upperCount, storageCount⟩ :=
    statics_apart statics
  simp only [Extent.Apart] at validStorage validCount upperStorage upperCount storageCount
  have limit : maxMmapEntries = 64 := rfl
  generalize counted : storeCount statics state (state.info.mmapEntryCount + 1) = between
  have run : storeParsed statics state parsed =
      storeEntry statics between state.info.mmapEntryCount parsed := by
    rw [storeParsed, counted]
  have info : between.info = { state.info with mmapEntryCount := state.info.mmapEntryCount + 1 } := by
    rw [← counted]
    rfl
  -- the count is stored apart from the rest
  have beside {low high : Nat} (outside : statics.mmapEntryCount + 4 ≤ low ∨
      high ≤ statics.mmapEntryCount) : Agree low high state.memory.bytes between.memory.bytes := by
    rw [← counted]
    exact agree_store32 outside
  have both {low high : Nat} (outside : statics.mmapEntryCount + 4 ≤ low ∨
      high ≤ statics.mmapEntryCount)
      (away : statics.mmapStorage + 20 * state.info.mmapEntryCount + 20 ≤ low ∨
        high ≤ statics.mmapStorage + 20 * state.info.mmapEntryCount) :
      Agree low high state.memory.bytes
        (storeEntry statics between state.info.mmapEntryCount parsed).memory.bytes :=
    agree_trans (beside outside) (agree_entry away)
  rw [run]
  refine ⟨?_, ?_, ?_, fun index inside => ?_⟩
  · have same := @both statics.mbValid (statics.mbValid + 1) (by omega) (by omega) statics.mbValid
      (Nat.le_refl _) (by omega)
    rw [same, mirrored.valid]
    simp only [storeEntry, info]
  · rw [load32_of_agree statics.mbMemUpperKb (both (by omega) (by omega)) (Nat.le_refl _)
      (Nat.le_refl _), mirrored.memUpper]
    simp only [storeEntry, info]
  · have same : Agree statics.mmapEntryCount (statics.mmapEntryCount + 4) between.memory.bytes
        (storeEntry statics between state.info.mmapEntryCount parsed).memory.bytes :=
      agree_entry (by omega)
    rw [load32_of_agree _ same (Nat.le_refl _) (Nat.le_refl _), ← counted]
    simp only [storeEntry, storeCount, LowMemory.store32, load32_store32]
    exact Nat.mod_eq_of_lt (by omega)
  · have listed : index < state.info.mmapEntryCount + 1 := by
      simpa only [storeEntry, info] using inside
    by_cases last : index = state.info.mmapEntryCount
    · rw [last, entry_held_store sized]
      exact (if_pos rfl).symm
    · rw [entry_held_of_agree (both (by omega) (by omega)), mirrored.entries index (by omega)]
      simp only [storeEntry, info]
      exact (if_neg last).symm

theorem clear_mirrored (statics : Statics) (state : BootState) :
    Mirrored statics (clearStatics statics state) := by
  obtain ⟨validUpper, _, validCount, _, upperCount, _⟩ := statics_apart statics
  simp only [Extent.Apart] at validUpper validCount upperCount
  refine ⟨?_, ?_, load32_store32 _ _ _, fun index inside => absurd inside (Nat.not_lt_zero index)⟩
  · have first := @store32_outside (storeValid statics state false).memory.bytes 0
      statics.mbMemUpperKb statics.mbValid (by omega)
    have second := @store32_outside
      (storeMemUpper statics (storeValid statics state false) 0).memory.bytes 0
      statics.mmapEntryCount statics.mbValid (by omega)
    exact second.trans (first.trans (store8_same _ _ _))
  · exact (load32_store32_of_disjoint _ _ (by omega)).trans (load32_store32 _ _ _)

end Stores

section Call

variable {statics : Statics} {state after : BootState}

/-- One invariant for the loop: memory holds the variables, and there is room for the rest. -/
theorem mmap_loop_mirrored {mmapAddr mmapLength : Nat} (room offset : Nat)
    (mirrored : Mirrored statics state) (spare : state.info.mmapEntryCount + room ≤ maxMmapEntries)
    (run : mmapLoop statics mmapAddr mmapLength room offset state = some after) :
    Mirrored statics after ∧ after.info.mmapEntryCount ≤ maxMmapEntries := by
  induction room generalizing offset state with
  | zero =>
      obtain rfl := Option.some.inj run
      exact ⟨mirrored, spare⟩
  | succ room ih =>
      have few : state.info.mmapEntryCount ≤ maxMmapEntries := by omega
      rw [mmapLoop] at run
      split at run
      · obtain ⟨parsed, read, rest⟩ := Option.bind_eq_some_iff.mp run
        cases parsed with
        | none =>
            obtain rfl := Option.some.inj rest
            exact ⟨mirrored, few⟩
        | some entry =>
            obtain ⟨entrySize, _, later⟩ := Option.bind_eq_some_iff.mp rest
            have count : (storeParsed statics state entry).info.mmapEntryCount =
                state.info.mmapEntryCount + 1 := rfl
            exact ih _ (parsed_mirrored mirrored (by omega) (parse_sized read)) (by omega) later
      · obtain rfl := Option.some.inj run
        exact ⟨mirrored, few⟩

theorem read_mmap_mirrored {mbInfoPhys flags : Nat} (mirrored : Mirrored statics state)
    (empty : state.info.mmapEntryCount = 0)
    (run : multibootReadMmap statics mbInfoPhys flags state = some after) :
    Mirrored statics after := by
  obtain ⟨mmapLength, _, rest⟩ := Option.bind_eq_some_iff.mp run
  obtain ⟨mmapAddr, _, rest⟩ := Option.bind_eq_some_iff.mp rest
  split at rest
  · obtain rfl := Option.some.inj rest
    exact mirrored
  · obtain ⟨walked, loop, same⟩ := Option.bind_eq_some_iff.mp rest
    obtain ⟨held, few⟩ := mmap_loop_mirrored maxMmapEntries 0 mirrored (by omega) loop
    rw [← Option.some.inj same]
    exact valid_mirrored held few _

theorem read_mem_upper_mirrored {mbInfoPhys flags : Nat} (mirrored : Mirrored statics state)
    (empty : state.info.mmapEntryCount = 0)
    (run : multibootReadMemUpper statics mbInfoPhys flags state = some after) :
    Mirrored statics after ∧ after.info.mmapEntryCount = 0 := by
  rw [multibootReadMemUpper] at run
  split at run
  · obtain ⟨memUpper, read, same⟩ := Option.bind_eq_some_iff.mp run
    rw [← Option.some.inj same]
    exact ⟨mem_upper_mirrored mirrored (by omega) (read32_lt read), empty⟩
  · obtain rfl := Option.some.inj run
    exact ⟨mirrored, empty⟩

/-- Whatever the boot information is: a call that returns has left in low memory what the
record says of the static variables. -/
theorem early_init_mirrored {magic mbInfoPhys : Nat}
    (run : multibootEarlyInit statics state magic mbInfoPhys = some after) :
    Mirrored statics after := by
  have cleared := clear_mirrored statics state
  have empty : (clearStatics statics state).info.mmapEntryCount = 0 := rfl
  rw [multibootEarlyInit] at run
  generalize clearStatics statics state = started at cleared empty run
  split at run
  · obtain rfl := Option.some.inj run
    exact cleared
  · obtain ⟨flags, _, rest⟩ := Option.bind_eq_some_iff.mp run
    obtain ⟨read, upper, rest⟩ := Option.bind_eq_some_iff.mp rest
    obtain ⟨held, none⟩ := read_mem_upper_mirrored cleared empty upper
    split at rest
    · obtain rfl := Option.some.inj rest
      exact held
    · exact read_mmap_mirrored held none rest

end Call

end SimplyOs.MultibootStatics
