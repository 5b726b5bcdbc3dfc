import Mathlib.Data.List.Chain
import SimplyOs.MultibootParsing

/-!
# Malformed boot information

`multiboot_ptr_in_identity_map` looks at the first byte of a structure only, the loop
test at the first byte of a record only, and the offset is advanced modulo `2 ^ 32`, by
a size that is read behind the store of the entry. The reads stay inside low memory, the
records inside the map and the offsets in order exactly when the fields that are met do
not make use of these gaps.
-/

namespace SimplyOs.MultibootContainment

open SimplyOs.Word SimplyOs.Multiboot SimplyOs.MultibootParsing SimplyOs.Library.ByteMemory

set_option autoImplicit false

def boundedPlace (address : Nat) : Bool := decide (address ≠ 0 ∧ address < identityMapLimit)

/-- Low memory with nothing to be read at address 0 or from the limit on. -/
def boundedMemory (bytes : Memory) : LowMemory where
  mapped := boundedPlace
  bytes := bytes

/-! ## What is stored, and from where -/

/-- An entry of `mmap_storage`, and the offset of the map that it has been parsed at. -/
structure StoredRecord where
  offset : Nat
  entry : MmapEntry
  deriving DecidableEq

def storedRecords (statics : Statics) (mmapAddr mmapLength : Nat) :
    Nat → Nat → BootState → Option (List StoredRecord)
  | 0, _, _ => some []
  | room + 1, offset, state =>
      if offset < mmapLength then do
        let entryPhys := add32 mmapAddr offset
        let parsed ← multibootParseMmapEntry state.memory entryPhys
        match parsed with
        | none => some []
        | some parsed => do
            let state := storeParsed statics state parsed
            let entrySize ← read32 state.memory entryPhys
            let later ← storedRecords statics mmapAddr mmapLength room
              (add32 offset (add32 entrySize 4)) state
            some (⟨offset, parsed⟩ :: later)
      else some []

structure MapReads where
  mmapAddr : Nat
  mmapLength : Nat
  records : List StoredRecord
  deriving DecidableEq

def noMapReads : MapReads := ⟨0, 0, []⟩

def mapReads (statics : Statics) (mbInfoPhys flags : Nat) (state : BootState) :
    Option MapReads := do
  let mmapOffset := multibootMmapFieldsOffset flags
  let mmapLength ← read32 state.memory (mbInfoPhys + mmapOffset)
  let mmapAddr ← read32 state.memory (mbInfoPhys + mmapOffset + 4)
  if !multibootPtrInIdentityMap mmapAddr then some noMapReads
  else do
    let records ← storedRecords statics mmapAddr mmapLength maxMmapEntries 0 state
    some ⟨mmapAddr, mmapLength, records⟩

def earlyReads (statics : Statics) (state : BootState) (magic mbInfoPhys : Nat) :
    Option MapReads :=
  let state := clearStatics statics state
  if magic ≠ multibootBootloaderMagic ∨ multibootPtrInIdentityMap mbInfoPhys = false then
    some noMapReads
  else do
    let flags ← read32 state.memory mbInfoPhys
    let state ← multibootReadMemUpper statics mbInfoPhys flags state
    if !hasFlag flags flagMmap then some noMapReads
    else mapReads statics mbInfoPhys flags state

section Stored

variable {statics : Statics} {mmapAddr mmapLength magic mbInfoPhys : Nat} {state : BootState}

/-- The loop stores these entries, and nothing else. -/
theorem mmap_loop_records (room offset : Nat) (state : BootState) :
    (storedRecords statics mmapAddr mmapLength room offset state = none ∧
        mmapLoop statics mmapAddr mmapLength room offset state = none) ∨
      ∃ records, storedRecords statics mmapAddr mmapLength room offset state = some records ∧
        mmapLoop statics mmapAddr mmapLength room offset state =
          some (storeAll statics state (records.map StoredRecord.entry)) := by
  induction room generalizing offset state with
  | zero => exact Or.inr ⟨[], rfl, rfl⟩
  | succ room ih =>
      rw [storedRecords, mmapLoop]
      by_cases inside : offset < mmapLength
      · rw [if_pos inside, if_pos inside]
        simp only [Option.bind_eq_bind]
        cases parse : multibootParseMmapEntry state.memory (add32 mmapAddr offset) with
        | none => exact Or.inl ⟨rfl, rfl⟩
        | some parsed =>
            simp only [Option.bind_some]
            cases parsed with
            | none => exact Or.inr ⟨[], rfl, rfl⟩
            | some entry =>
                simp only
                cases size : read32 (storeParsed statics state entry).memory
                    (add32 mmapAddr offset) with
                | none => exact Or.inl ⟨rfl, rfl⟩
                | some entrySize =>
                    simp only [Option.bind_some]
                    rcases ih (add32 offset (add32 entrySize 4)) (storeParsed statics state entry)
                      with ⟨unread, run⟩ | ⟨records, known, run⟩
                    · left
                      rw [unread, run]
                      exact ⟨rfl, rfl⟩
                    · right
                      rw [known, run]
                      exact ⟨⟨offset, entry⟩ :: records, rfl, rfl⟩
      · rw [if_neg inside, if_neg inside]
        exact Or.inr ⟨[], rfl, rfl⟩

theorem mmap_store_all_empty (empty : state.info.mmapEntryCount = 0) (entries : List MmapEntry) :
    multibootMmap (storeAll statics state entries).info = entries := by
  rw [mmap_storeAll, mmap_empty empty, List.nil_append]

theorem read_mmap_reads (flags : Nat) (empty : state.info.mmapEntryCount = 0) :
    (mapReads statics mbInfoPhys flags state = none ∧
        multibootReadMmap statics mbInfoPhys flags state = none) ∨
      ∃ reads after, mapReads statics mbInfoPhys flags state = some reads ∧
        multibootReadMmap statics mbInfoPhys flags state = some after ∧
        multibootMmap after.info = reads.records.map StoredRecord.entry := by
  rw [mapReads, multibootReadMmap]
  cases lengthRead : read32 state.memory (mbInfoPhys + multibootMmapFieldsOffset flags) with
  | none => exact Or.inl ⟨rfl, rfl⟩
  | some mmapLength =>
      simp only [Option.bind_eq_bind, Option.bind_some]
      cases addrRead : read32 state.memory (mbInfoPhys + multibootMmapFieldsOffset flags + 4) with
      | none => exact Or.inl ⟨rfl, rfl⟩
      | some mmapAddr =>
          simp only [Option.bind_some]
          cases low : multibootPtrInIdentityMap mmapAddr with
          | false => exact Or.inr ⟨_, _, rfl, rfl, mmap_empty empty⟩
          | true =>
              simp only [Bool.not_true, Bool.false_eq_true, if_false]
              rcases mmap_loop_records maxMmapEntries 0 state with
                ⟨unread, run⟩ | ⟨records, known, run⟩
              · left
                rw [unread, run]
                exact ⟨rfl, rfl⟩
              · right
                rw [known, run]
                exact ⟨_, _, rfl, rfl, mmap_store_all_empty empty _⟩

theorem read_mem_upper_count {flags : Nat} {after : BootState}
    (read : multibootReadMemUpper statics mbInfoPhys flags state = some after) :
    after.info.mmapEntryCount = state.info.mmapEntryCount := by
  rw [multibootReadMemUpper] at read
  split at read
  · obtain ⟨memUpper, _, same⟩ := Option.bind_eq_some_iff.mp read
    rw [← Option.some.inj same]
    rfl
  · rw [← Option.some.inj read]

/-- A call returns exactly when its reads are known, and stores their entries. -/
theorem early_init_reads (state : BootState) (magic mbInfoPhys : Nat) :
    (earlyReads statics state magic mbInfoPhys = none ∧
        multibootEarlyInit statics state magic mbInfoPhys = none) ∨
      ∃ reads after, earlyReads statics state magic mbInfoPhys = some reads ∧
        multibootEarlyInit statics state magic mbInfoPhys = some after ∧
        multibootMmap after.info = reads.records.map StoredRecord.entry := by
  have cleared : (clearStatics statics state).info.mmapEntryCount = 0 := rfl
  rw [earlyReads, multibootEarlyInit]
  generalize clearStatics statics state = started at cleared
  by_cases refused : magic ≠ multibootBootloaderMagic ∨ multibootPtrInIdentityMap mbInfoPhys = false
  · simp only [if_pos refused]
    exact Or.inr ⟨_, _, rfl, rfl, mmap_empty cleared⟩
  · simp only [if_neg refused, Option.bind_eq_bind]
    cases flagsRead : read32 started.memory mbInfoPhys with
    | none => exact Or.inl ⟨rfl, rfl⟩
    | some flags =>
        simp only [Option.bind_some]
        cases upper : multibootReadMemUpper statics mbInfoPhys flags started with
        | none => exact Or.inl ⟨rfl, rfl⟩
        | some after =>
            have empty := (read_mem_upper_count upper).trans cleared
            simp only [Option.bind_some]
            cases mmap : hasFlag flags flagMmap with
            | false => exact Or.inr ⟨_, _, rfl, rfl, mmap_empty empty⟩
            | true => exact read_mmap_reads flags empty

end Stored

/-! ## The property and its condition -/

/-- A call reads only bytes of `[1, 0x400000)`; the entries that it stores lie in
`[0, mmap_length)` with every byte read, at strictly increasing offsets. -/
def Contained (statics : Statics) (bytes : Memory) (before : BootInfo) (magic mbInfoPhys : Nat) :
    Prop :=
  ∃ after reads,
    multibootEarlyInit statics ⟨before, boundedMemory bytes⟩ magic mbInfoPhys = some after ∧
    earlyReads statics ⟨before, boundedMemory bytes⟩ magic mbInfoPhys = some reads ∧
    multibootMmap after.info = reads.records.map StoredRecord.entry ∧
    (∀ record ∈ reads.records, record.offset + 24 ≤ reads.mmapLength) ∧
    (reads.records.map StoredRecord.offset).Pairwise (· < ·)

def sizeAt (state : BootState) (mmapAddr offset : Nat) : Nat :=
  load32 state.memory.bytes (add32 mmapAddr offset)

def entryAt (state : BootState) (mmapAddr offset : Nat) : MmapEntry :=
  let address := add32 mmapAddr offset
  { addr := load64 state.memory.bytes (address + 4)
    len := load64 state.memory.bytes (address + 12)
    type := load32 state.memory.bytes (address + 20) }

def recordStored (statics : Statics) (state : BootState) (mmapAddr offset : Nat) : BootState :=
  storeParsed statics state (entryAt state mmapAddr offset)

/-- The offset behind a record, by 32-bit arithmetic on the size that is there behind the
store. -/
def offsetBehind (statics : Statics) (state : BootState) (mmapAddr offset : Nat) : Nat :=
  add32 offset (add32 (sizeAt (recordStored statics state mmapAddr offset) mmapAddr offset) 4)

def Accepted (state : BootState) (mmapAddr mmapLength room offset : Nat) : Prop :=
  room ≠ 0 ∧ offset < mmapLength ∧ multibootPtrInIdentityMap (add32 mmapAddr offset) = true ∧
    20 ≤ sizeAt state mmapAddr offset

/-- The records from an offset on, at most `room` of them, end inside low memory and
inside the map, and none that is followed by another leads back. -/
def RecordsBounded (statics : Statics) (mmapAddr mmapLength : Nat) :
    Nat → Nat → BootState → Prop
  | 0, _, _ => True
  | room + 1, offset, state =>
      let stored := recordStored statics state mmapAddr offset
      let behind := offsetBehind statics state mmapAddr offset
      offset < mmapLength → multibootPtrInIdentityMap (add32 mmapAddr offset) = true →
        add32 mmapAddr offset + 4 ≤ identityMapLimit ∧
          (20 ≤ sizeAt state mmapAddr offset →
            add32 mmapAddr offset + 24 ≤ identityMapLimit ∧ offset + 24 ≤ mmapLength ∧
              (Accepted stored mmapAddr mmapLength room behind → offset < behind) ∧
              RecordsBounded statics mmapAddr mmapLength room behind stored)

def MapBounded (statics : Statics) (mbInfoPhys flags : Nat) (state : BootState) : Prop :=
  let mmapFields := mbInfoPhys + multibootMmapFieldsOffset flags
  let mmapLength := load32 state.memory.bytes mmapFields
  let mmapAddr := load32 state.memory.bytes (mmapFields + 4)
  mmapFields + 8 ≤ identityMapLimit ∧
    (multibootPtrInIdentityMap mmapAddr = true →
      RecordsBounded statics mmapAddr mmapLength maxMmapEntries 0 state)

/-- The fields of the structure that are read end inside low memory, and the map that
they announce is bounded. The call has cleared its static variables before. -/
def InfoBounded (statics : Statics) (bytes : Memory) (before : BootInfo) (magic mbInfoPhys : Nat) :
    Prop :=
  magic = multibootBootloaderMagic → multibootPtrInIdentityMap mbInfoPhys = true →
    let state := clearStatics statics ⟨before, boundedMemory bytes⟩
    let flags := load32 state.memory.bytes mbInfoPhys
    mbInfoPhys + 4 ≤ identityMapLimit ∧
      (hasFlag flags flagMemory = true → mbInfoPhys + 12 ≤ identityMapLimit) ∧
      (hasFlag flags flagMmap = true →
        MapBounded statics mbInfoPhys flags (withMemUpper statics mbInfoPhys flags state))

section Bounded

variable {statics : Statics} {memory : LowMemory} {state : BootState}
  {mmapAddr mmapLength address : Nat}

theorem read32_bounded (mapped : memory.mapped = boundedPlace) (nonzero : address ≠ 0) :
    read32 memory address =
      if address + 4 ≤ identityMapLimit then some (load32 memory.bytes address) else none := by
  have byte (offset : Nat) : readByte memory (address + offset) =
      if address + offset < identityMapLimit then some (memory.bytes (address + offset))
      else none := by
    have positive : address + offset ≠ 0 := by omega
    simp only [readByte, mapped, boundedPlace, positive, ne_eq, not_false_eq_true, true_and,
      decide_eq_true_eq]
  have first := byte 0
  rw [Nat.add_zero] at first
  rw [read32, first, byte 1, byte 2, byte 3]
  by_cases room : address + 4 ≤ identityMapLimit
  · rw [if_pos room, if_pos (by omega), if_pos (by omega), if_pos (by omega), if_pos (by omega)]
    rfl
  · rw [if_neg room, if_neg (by omega : ¬address + 3 < identityMapLimit)]
    simp only [Option.bind_eq_bind, Option.bind_none, Option.bind_fun_none]

theorem read64_bounded (mapped : memory.mapped = boundedPlace) (nonzero : address ≠ 0) :
    read64 memory address =
      if address + 8 ≤ identityMapLimit then some (load64 memory.bytes address) else none := by
  rw [read64, read32_bounded mapped nonzero, read32_bounded mapped (by omega : address + 4 ≠ 0)]
  by_cases room : address + 8 ≤ identityMapLimit
  · rw [if_pos room, if_pos (by omega), if_pos (by omega)]
    rfl
  · rw [if_neg room, if_neg (by omega : ¬address + 4 + 4 ≤ identityMapLimit)]
    simp only [Option.bind_eq_bind, Option.bind_none, Option.bind_fun_none]

theorem place_ne_zero {offset : Nat}
    (inside : multibootPtrInIdentityMap (add32 mmapAddr offset) = true) :
    add32 mmapAddr offset ≠ 0 := by
  intro zero
  rw [zero] at inside
  exact absurd inside (by decide)

theorem parse_bounded (mapped : state.memory.mapped = boundedPlace) {offset : Nat}
    (inside : multibootPtrInIdentityMap (add32 mmapAddr offset) = true) :
    multibootParseMmapEntry state.memory (add32 mmapAddr offset) =
      if add32 mmapAddr offset + 4 ≤ identityMapLimit then
        if sizeAt state mmapAddr offset < 20 then some none
        else if add32 mmapAddr offset + 24 ≤ identityMapLimit then
          some (some (entryAt state mmapAddr offset))
        else none
      else none := by
  have nonzero := place_ne_zero inside
  rw [multibootParseMmapEntry, inside, sizeAt, entryAt]
  generalize add32 mmapAddr offset = address at nonzero
  rw [read32_bounded mapped nonzero, read64_bounded mapped (by omega : address + 4 ≠ 0),
    read64_bounded mapped (by omega : address + 12 ≠ 0),
    read32_bounded mapped (by omega : address + 20 ≠ 0)]
  by_cases header : address + 4 ≤ identityMapLimit
  · rw [if_pos header, if_pos header]
    simp only [Bool.not_true, Bool.false_eq_true, if_false, Option.bind_eq_bind, Option.bind_some]
    by_cases small : load32 state.memory.bytes address < 20
    · rw [if_pos small, if_pos small]
    · rw [if_neg small, if_neg small]
      by_cases room : address + 24 ≤ identityMapLimit
      · rw [if_pos room, if_pos (by omega), if_pos (by omega), if_pos (by omega)]
        rfl
      · rw [if_neg room, if_neg (by omega : ¬address + 20 + 4 ≤ identityMapLimit)]
        simp only [Option.bind_none, Option.bind_fun_none]
  · rw [if_neg header, if_neg header]
    rfl

theorem stored_records_round (mapped : state.memory.mapped = boundedPlace) (room offset : Nat)
    (within : offset < mmapLength)
    (inside : multibootPtrInIdentityMap (add32 mmapAddr offset) = true) :
    storedRecords statics mmapAddr mmapLength (room + 1) offset state =
      if add32 mmapAddr offset + 4 ≤ identityMapLimit then
        if sizeAt state mmapAddr offset < 20 then some []
        else if add32 mmapAddr offset + 24 ≤ identityMapLimit then
          (storedRecords statics mmapAddr mmapLength room
            (offsetBehind statics state mmapAddr offset)
            (recordStored statics state mmapAddr offset)).map
              (⟨offset, entryAt state mmapAddr offset⟩ :: ·)
        else none
      else none := by
  have pages : (recordStored statics state mmapAddr offset).memory.mapped = boundedPlace := mapped
  have again := read32_bounded pages (place_ne_zero inside)
  rw [storedRecords, if_pos within]
  simp only [Option.bind_eq_bind]
  rw [parse_bounded mapped inside]
  by_cases header : add32 mmapAddr offset + 4 ≤ identityMapLimit
  · rw [if_pos header] at again
    rw [if_pos header, if_pos header]
    by_cases small : sizeAt state mmapAddr offset < 20
    · rw [if_pos small, if_pos small]
      rfl
    · rw [if_neg small, if_neg small]
      by_cases room24 : add32 mmapAddr offset + 24 ≤ identityMapLimit
      · rw [if_pos room24, if_pos room24, Option.map_eq_bind]
        simp only [Option.bind_some]
        rw [recordStored] at again
        rw [again]
        rfl
      · rw [if_neg room24, if_neg room24]
        rfl
  · rw [if_neg header, if_neg header]
    rfl

theorem stored_records_stopped (room offset : Nat) (state : BootState)
    (stopped : ¬(offset < mmapLength ∧
      multibootPtrInIdentityMap (add32 mmapAddr offset) = true)) :
    storedRecords statics mmapAddr mmapLength room offset state = some [] := by
  cases room with
  | zero => rfl
  | succ room =>
      rw [storedRecords]
      by_cases within : offset < mmapLength
      · have outside : multibootPtrInIdentityMap (add32 mmapAddr offset) = false := by
          cases low : multibootPtrInIdentityMap (add32 mmapAddr offset) with
          | true => exact absurd ⟨within, low⟩ stopped
          | false => rfl
        have refused : multibootParseMmapEntry state.memory (add32 mmapAddr offset) =
            some none := by
          unfold multibootParseMmapEntry
          rw [outside]
          rfl
        rw [if_pos within]
        simp only [refused]
        rfl
      · rw [if_neg within]

/-- The first entry is read at the offset itself, when the record there is accepted. -/
theorem stored_records_head (mapped : state.memory.mapped = boundedPlace) {room offset : Nat}
    {records : List StoredRecord}
    (known : storedRecords statics mmapAddr mmapLength room offset state = some records) :
    (records = [] ∧ ¬Accepted state mmapAddr mmapLength room offset) ∨
      ((records.map StoredRecord.offset).head? = some offset ∧
        Accepted state mmapAddr mmapLength room offset) := by
  by_cases starts : offset < mmapLength ∧
      multibootPtrInIdentityMap (add32 mmapAddr offset) = true
  · cases room with
    | zero =>
        left
        exact ⟨(Option.some.inj known).symm, fun accepted => accepted.1 rfl⟩
    | succ room =>
        rw [stored_records_round mapped room offset starts.1 starts.2] at known
        split at known
        · split at known
          next small =>
            left
            exact ⟨(Option.some.inj known).symm, fun accepted =>
              absurd accepted.2.2.2 (Nat.not_le.mpr small)⟩
          next large =>
            split at known
            · obtain ⟨later, _, rfl⟩ := Option.map_eq_some_iff.mp known
              right
              exact ⟨rfl, Nat.succ_ne_zero room, starts.1, starts.2, Nat.not_lt.mp large⟩
            · exact absurd known (by simp only [reduceCtorEq, not_false_eq_true])
        · exact absurd known (by simp only [reduceCtorEq, not_false_eq_true])
  · rw [stored_records_stopped room offset state starts] at known
    left
    exact ⟨(Option.some.inj known).symm, fun accepted => starts ⟨accepted.2.1, accepted.2.2.1⟩⟩

def InOrder (mmapLength : Nat) (records : List StoredRecord) : Prop :=
  (∀ record ∈ records, record.offset + 24 ≤ mmapLength) ∧
    (records.map StoredRecord.offset).IsChain (· < ·)

theorem in_order_nil : InOrder mmapLength [] :=
  ⟨fun _ member => absurd member List.not_mem_nil, .nil⟩

theorem stored_records_behind_iff (mapped : state.memory.mapped = boundedPlace) (room offset : Nat)
    (entry : MmapEntry) (next : Nat) :
    (∃ records,
        (storedRecords statics mmapAddr mmapLength room next state).map (⟨offset, entry⟩ :: ·) =
          some records ∧ InOrder mmapLength records) ↔
      offset + 24 ≤ mmapLength ∧ (Accepted state mmapAddr mmapLength room next → offset < next) ∧
        ∃ records, storedRecords statics mmapAddr mmapLength room next state = some records ∧
          InOrder mmapLength records := by
  constructor
  · rintro ⟨records, known, ends, chain⟩
    obtain ⟨later, rest, rfl⟩ := Option.map_eq_some_iff.mp known
    refine ⟨ends _ List.mem_cons_self, ?_, later, rest,
      fun stored member => ends stored (List.mem_cons_of_mem _ member), chain.tail⟩
    intro accepted
    rcases stored_records_head mapped rest with ⟨_, refused⟩ | ⟨head, _⟩
    · exact absurd accepted refused
    · exact List.IsChain.rel_head? chain head
  · rintro ⟨behind, advance, later, rest, ends, chain⟩
    refine ⟨⟨offset, entry⟩ :: later, by rw [rest]; rfl, ?_, chain.cons ?_⟩
    · intro stored member
      rcases List.mem_cons.mp member with rfl | member
      · exact behind
      · exact ends stored member
    · intro first head
      rcases stored_records_head mapped rest with ⟨nothing, _⟩ | ⟨found, accepted⟩
      · rw [nothing] at head
        exact absurd head (by simp only [List.map_nil, List.head?_nil, Option.mem_def, reduceCtorEq,
          not_false_eq_true])
      · rw [found] at head
        rw [← Option.some.inj head]
        exact advance accepted

/-- The loop stays inside low memory and the map, with increasing offsets, exactly on
bounded records. -/
theorem stored_records_bounded (mapped : state.memory.mapped = boundedPlace) (room offset : Nat) :
    (∃ records, storedRecords statics mmapAddr mmapLength room offset state = some records ∧
        InOrder mmapLength records) ↔
      RecordsBounded statics mmapAddr mmapLength room offset state := by
  induction room generalizing offset state with
  | zero =>
      rw [RecordsBounded, iff_true]
      exact ⟨[], rfl, in_order_nil⟩
  | succ room ih =>
      rw [RecordsBounded]
      by_cases starts : offset < mmapLength ∧
          multibootPtrInIdentityMap (add32 mmapAddr offset) = true
      · rw [stored_records_round mapped room offset starts.1 starts.2]
        simp only [starts.1, starts.2, forall_true_left]
        by_cases header : add32 mmapAddr offset + 4 ≤ identityMapLimit
        · by_cases small : sizeAt state mmapAddr offset < 20
          · rw [if_pos header, if_pos small]
            constructor
            · intro _
              exact ⟨header, fun large => absurd large (Nat.not_le.mpr small)⟩
            · intro _
              exact ⟨[], rfl, in_order_nil⟩
          · rw [if_pos header, if_neg small]
            have large : 20 ≤ sizeAt state mmapAddr offset := Nat.not_lt.mp small
            have pages : (recordStored statics state mmapAddr offset).memory.mapped = boundedPlace :=
              mapped
            simp only [header, large, forall_true_left, true_and]
            by_cases record : add32 mmapAddr offset + 24 ≤ identityMapLimit
            · rw [if_pos record, stored_records_behind_iff pages, ih pages]
              exact (and_iff_right record).symm
            · rw [if_neg record]
              simp only [record, reduceCtorEq, false_and, exists_false]
        · rw [if_neg header]
          simp only [header, reduceCtorEq, false_and, exists_false]
      · rw [stored_records_stopped (room + 1) offset state starts]
        constructor
        · intro _ within inside
          exact absurd ⟨within, inside⟩ starts
        · intro _
          exact ⟨[], rfl, in_order_nil⟩

def ReadsContained (reads : Option MapReads) : Prop :=
  ∃ found, reads = some found ∧ InOrder found.mmapLength found.records

theorem no_map_contained : ReadsContained (some noMapReads) := ⟨noMapReads, rfl, in_order_nil⟩

theorem unread_not_contained : ¬ReadsContained none := by
  rintro ⟨_, impossible, _⟩
  cases impossible

theorem contained_reads (bytes : Memory) (before : BootInfo) (magic mbInfoPhys : Nat) :
    Contained statics bytes before magic mbInfoPhys ↔
      ReadsContained (earlyReads statics ⟨before, boundedMemory bytes⟩ magic mbInfoPhys) := by
  constructor
  · rintro ⟨_, reads, _, known, _, ends, increasing⟩
    exact ⟨reads, known, ends, List.isChain_iff_pairwise.mpr increasing⟩
  · rintro ⟨reads, known, ends, increasing⟩
    rcases @early_init_reads statics ⟨before, boundedMemory bytes⟩ magic mbInfoPhys with
      ⟨unread, _⟩ | ⟨found, after, found_eq, run, stored⟩
    · rw [unread] at known
      cases known
    · rw [found_eq] at known
      obtain rfl := Option.some.inj known
      exact ⟨after, found, run, found_eq, stored, ends, List.isChain_iff_pairwise.mp increasing⟩

theorem map_reads_contained (mapped : state.memory.mapped = boundedPlace) (flags : Nat)
    {mbInfoPhys : Nat} (nonzero : mbInfoPhys ≠ 0) :
    ReadsContained (mapReads statics mbInfoPhys flags state) ↔
      MapBounded statics mbInfoPhys flags state := by
  rw [mapReads, MapBounded]
  generalize offset : mbInfoPhys + multibootMmapFieldsOffset flags = mmapFields
  have lengthField : mmapFields ≠ 0 := by omega
  have addrField : mmapFields + 4 ≠ 0 := by omega
  simp only [Option.bind_eq_bind]
  rw [read32_bounded mapped lengthField, read32_bounded mapped addrField]
  by_cases fieldsEnd : mmapFields + 8 ≤ identityMapLimit
  · rw [if_pos (by omega : mmapFields + 4 ≤ identityMapLimit),
      if_pos (by omega : mmapFields + 4 + 4 ≤ identityMapLimit)]
    simp only [Option.bind_some, fieldsEnd, true_and]
    generalize load32 state.memory.bytes mmapFields = mmapLength
    generalize load32 state.memory.bytes (mmapFields + 4) = mmapAddr
    cases low : multibootPtrInIdentityMap mmapAddr with
    | false =>
        refine iff_of_true no_map_contained ?_
        intro impossible
        cases impossible
    | true =>
        simp only [Bool.not_true, Bool.false_eq_true, if_false, forall_true_left]
        rw [← stored_records_bounded mapped]
        constructor
        · rintro ⟨found, known, ordered⟩
          obtain ⟨records, read, same⟩ := Option.bind_eq_some_iff.mp known
          obtain rfl := Option.some.inj same
          exact ⟨records, read, ordered⟩
        · rintro ⟨records, read, ordered⟩
          exact ⟨⟨mmapAddr, mmapLength, records⟩, by rw [read]; rfl, ordered⟩
  · have unread : ((if mmapFields + 4 ≤ identityMapLimit then
          some (load32 state.memory.bytes mmapFields) else none).bind fun mmapLength =>
        (if mmapFields + 4 + 4 ≤ identityMapLimit then
            some (load32 state.memory.bytes (mmapFields + 4)) else none).bind fun mmapAddr =>
          if (!multibootPtrInIdentityMap mmapAddr) = true then some noMapReads
          else (storedRecords statics mmapAddr mmapLength maxMmapEntries 0 state).bind
            fun records => some ⟨mmapAddr, mmapLength, records⟩) = none := by
      rw [if_neg (by omega : ¬mmapFields + 4 + 4 ≤ identityMapLimit)]
      simp only [Option.bind_none, Option.bind_fun_none]
    rw [unread]
    exact iff_of_false unread_not_contained (fun bounded => fieldsEnd bounded.1)

theorem mem_upper_bounded (mapped : state.memory.mapped = boundedPlace) (flags mbInfoPhys : Nat) :
    ((hasFlag flags flagMemory = true → mbInfoPhys + 12 ≤ identityMapLimit) ∧
        multibootReadMemUpper statics mbInfoPhys flags state =
          some (withMemUpper statics mbInfoPhys flags state)) ∨
      (¬(hasFlag flags flagMemory = true → mbInfoPhys + 12 ≤ identityMapLimit) ∧
        multibootReadMemUpper statics mbInfoPhys flags state = none) := by
  rw [multibootReadMemUpper, withMemUpper, read32_bounded mapped (by omega : mbInfoPhys + 8 ≠ 0)]
  by_cases present : hasFlag flags flagMemory = true
  · rw [if_pos present, if_pos present]
    by_cases ends : mbInfoPhys + 8 + 4 ≤ identityMapLimit
    · rw [if_pos ends]
      exact Or.inl ⟨fun _ => ends, rfl⟩
    · rw [if_neg ends]
      exact Or.inr ⟨fun always => ends (always present), rfl⟩
  · rw [if_neg present, if_neg present]
    exact Or.inl ⟨fun here => absurd here present, rfl⟩

theorem with_mem_upper_mapped (flags mbInfoPhys : Nat) :
    (withMemUpper statics mbInfoPhys flags state).memory.mapped = state.memory.mapped := by
  rw [withMemUpper]
  split <;> rfl

/-- The boot information is contained exactly when it is bounded. -/
theorem contained_iff (statics : Statics) (bytes : Memory) (before : BootInfo)
    (magic mbInfoPhys : Nat) :
    Contained statics bytes before magic mbInfoPhys ↔
      InfoBounded statics bytes before magic mbInfoPhys := by
  rw [contained_reads, earlyReads, InfoBounded]
  have mapped : (clearStatics statics ⟨before, boundedMemory bytes⟩).memory.mapped = boundedPlace :=
    rfl
  generalize clearStatics statics ⟨before, boundedMemory bytes⟩ = state at mapped
  by_cases refused : magic ≠ multibootBootloaderMagic ∨ multibootPtrInIdentityMap mbInfoPhys = false
  · simp only [if_pos refused]
    refine iff_of_true no_map_contained ?_
    intro valid inside
    rcases refused with wrong | outside
    · exact absurd valid wrong
    · rw [outside] at inside
      exact absurd inside Bool.false_ne_true
  · simp only [if_neg refused]
    rw [not_or, not_not, Bool.not_eq_false] at refused
    obtain ⟨valid, inside⟩ := refused
    have nonzero : mbInfoPhys ≠ 0 := by
      rintro rfl
      exact absurd inside (by decide)
    simp only [valid, inside, forall_true_left, Option.bind_eq_bind]
    rw [read32_bounded mapped nonzero]
    by_cases flagsEnd : mbInfoPhys + 4 ≤ identityMapLimit
    · rw [if_pos flagsEnd, Option.bind_some]
      generalize load32 state.memory.bytes mbInfoPhys = flags
      rcases @mem_upper_bounded statics state mapped flags mbInfoPhys with
        ⟨upperEnd, upper⟩ | ⟨upperEnd, upper⟩
      · rw [upper, Option.bind_some]
        simp only [flagsEnd, true_and]
        rw [iff_true_intro upperEnd, true_and]
        have pages := (@with_mem_upper_mapped statics state flags mbInfoPhys).trans mapped
        cases mmap : hasFlag flags flagMmap with
        | false =>
            refine iff_of_true no_map_contained ?_
            intro impossible
            cases impossible
        | true =>
            simp only [Bool.not_true, Bool.false_eq_true, if_false, forall_true_left]
            exact map_reads_contained pages flags nonzero
      · rw [upper]
        exact iff_of_false unread_not_contained (fun bounded => upperEnd bounded.2.1)
    · rw [if_neg flagsEnd]
      exact iff_of_false unread_not_contained (fun bounded => flagsEnd bounded.1)

end Bounded

/-! ## A map that is read in a loop -/

/-- A map of ten bytes whose one record has the size `0xFFFFFFFC`. -/
def loopingImage : Memory :=
  let bytes := store32 (store32 (fun _ => 0) 0x1000 flagMmap) 0x1004 10
  store32 (store32 bytes 0x1008 0x2000) 0x2000 0xFFFFFFFC

def loopingEntry : MmapEntry := { addr := 0, len := 0, type := 0 }

section Looping

variable {statics : Statics} {state : BootState}

theorem looping_image_word {place : Nat}
    (kept : Kept statics (boundedMemory loopingImage) state.memory) (low : place + 4 ≤ 0x00100000) :
    load32 state.memory.bytes place = load32 loopingImage place :=
  kept_load32 kept (beside_below low)

theorem looping_records (kept : Kept statics (boundedMemory loopingImage) state.memory) (room : Nat)
    (spare : state.info.mmapEntryCount + room ≤ maxMmapEntries) :
    storedRecords statics 0x2000 10 room 0 state =
      some (List.replicate room ⟨0, loopingEntry⟩) := by
  induction room generalizing state with
  | zero => rfl
  | succ room ih =>
      have entry : entryAt state 0x2000 0 = loopingEntry := by
        simp (disch := decide) only [entryAt, load64, looping_image_word kept]
        rfl
      have stored : Kept statics (boundedMemory loopingImage)
          (recordStored statics state 0x2000 0).memory :=
        kept_trans kept (parsed_kept (by omega) _)
      have size : sizeAt state 0x2000 0 = 0xFFFFFFFC := looping_image_word kept (by decide)
      have again : sizeAt (recordStored statics state 0x2000 0) 0x2000 0 = 0xFFFFFFFC :=
        looping_image_word stored (by decide)
      have behind : offsetBehind statics state 0x2000 0 = 0 := by
        rw [offsetBehind, again]
        rfl
      have count : (recordStored statics state 0x2000 0).info.mmapEntryCount =
          state.info.mmapEntryCount + 1 := rfl
      have large : ¬sizeAt state 0x2000 0 < 20 := by
        rw [size]
        decide
      rw [stored_records_round kept.mapped room 0 (by decide) (by decide), if_pos (by decide),
        if_neg large, if_pos (by decide), behind, entry, ih stored (by omega)]
      rfl

theorem looping_reads (before : BootInfo) :
    earlyReads statics ⟨before, boundedMemory loopingImage⟩ multibootBootloaderMagic 0x1000 =
      some ⟨0x2000, 10, List.replicate maxMmapEntries ⟨0, loopingEntry⟩⟩ := by
  have kept := @clear_kept statics ⟨before, boundedMemory loopingImage⟩
  have empty : (clearStatics statics ⟨before, boundedMemory loopingImage⟩).info.mmapEntryCount = 0 :=
    rfl
  rw [earlyReads]
  generalize clearStatics statics ⟨before, boundedMemory loopingImage⟩ = state at kept empty
  have field {place : Nat} (nonzero : place ≠ 0) (low : place + 4 ≤ 0x00100000) :
      read32 state.memory place = some (load32 loopingImage place) := by
    have mapped : place + 4 ≤ identityMapLimit := Nat.le_trans low (by decide)
    rw [read32_bounded kept.mapped nonzero, if_pos mapped, looping_image_word kept low]
  have flags : read32 state.memory 0x1000 = some flagMmap := field (by decide) (by decide)
  have length : read32 state.memory (0x1000 + multibootMmapFieldsOffset flagMmap) = some 10 :=
    field (by decide) (by decide)
  have addr : read32 state.memory (0x1000 + multibootMmapFieldsOffset flagMmap + 4) = some 0x2000 :=
    field (by decide) (by decide)
  have upper : multibootReadMemUpper statics 0x1000 flagMmap state = some state := rfl
  have records := looping_records kept maxMmapEntries (by omega)
  have map : mapReads statics 0x1000 flagMmap state =
      some ⟨0x2000, 10, List.replicate maxMmapEntries ⟨0, loopingEntry⟩⟩ := by
    have inside : multibootPtrInIdentityMap 0x2000 = true := by decide
    simp only [mapReads, length, addr, inside, records, Option.bind_eq_bind, Option.bind_some,
      Bool.not_true, Bool.false_eq_true, if_false]
  have accepted : ¬(multibootBootloaderMagic ≠ multibootBootloaderMagic ∨
      multibootPtrInIdentityMap 0x1000 = false) := by decide
  have announced : hasFlag flagMmap flagMmap = true := by decide
  simp only [if_neg accepted, flags, upper, announced, map, Option.bind_eq_bind, Option.bind_some,
    Bool.not_true, Bool.false_eq_true, if_false]

end Looping

/-- The record ends behind the map and is stored until the table is full; and a structure
that starts in the last two bytes of low memory is read beyond them. -/
theorem looping_image_not_contained :
    earlyReads linkedStatics ⟨loadedInfo, boundedMemory loopingImage⟩ multibootBootloaderMagic
        0x1000 = some ⟨0x2000, 10, List.replicate 64 ⟨0, loopingEntry⟩⟩ ∧
      ¬Contained linkedStatics loopingImage loadedInfo multibootBootloaderMagic 0x1000 ∧
      multibootEarlyInit linkedStatics ⟨loadedInfo, boundedMemory loopingImage⟩
        multibootBootloaderMagic 0x3FFFFE = none := by
  refine ⟨looping_reads loadedInfo, ?_, rfl⟩
  rw [contained_reads, looping_reads]
  rintro ⟨found, same, ends, _⟩
  obtain rfl := Option.some.inj same
  exact absurd (ends _ (List.mem_replicate.mpr ⟨by decide, rfl⟩)) (by decide)

end SimplyOs.MultibootContainment
