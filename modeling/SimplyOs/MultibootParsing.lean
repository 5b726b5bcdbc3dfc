import SimplyOs.Multiboot

/-!
# Which boot information is parsed faithfully

The Multiboot layout has fixed field offsets, but `multiboot_mmap_fields_offset`
adds up the sizes of the fields whose flags are set. The parse is faithful for
every well-formed image with a given flags word exactly when that sum is 44, the
fixed offset of `mmap_length`. An image is well formed beside the static variables,
which the call overwrites while it reads.
-/

namespace SimplyOs.MultibootParsing

open SimplyOs.Word SimplyOs.Multiboot SimplyOs.Library.ByteMemory

set_option autoImplicit false

/-- Low memory as `boot.S` maps it while the boot information is read. -/
def belowLimit (address : Nat) : Bool := decide (address < identityMapLimit)

def identityMapped (bytes : Memory) : LowMemory where
  mapped := belowLimit
  bytes := bytes

/-- Where the highest byte of an image may lie: the page above is the text buffer. -/
def imageLimit : Nat := 0x003FF000

structure MapRecord where
  size : Nat
  entry : MmapEntry

def mapBytes (records : List MapRecord) : Nat := (records.map fun record => record.size + 4).sum

/-- Consecutive map records from an address on. -/
def RecordsAt (bytes : Memory) : Nat → List MapRecord → Prop
  | _, [] => True
  | address, record :: rest =>
      20 ≤ record.size ∧ load32 bytes address = record.size ∧
        load64 bytes (address + 4) = record.entry.addr ∧
        load64 bytes (address + 12) = record.entry.len ∧
        load32 bytes (address + 20) = record.entry.type ∧
        RecordsAt bytes (address + (record.size + 4)) rest

def Beside (statics : Statics) (target : Extent) : Prop :=
  ∀ extent ∈ statics.extents, extent.Apart target

/-- A boot information structure in the fixed layout, with its memory map. -/
structure WellFormedImage (statics : Statics) (bytes : Memory) (info flags mmapAddr : Nat)
    (records : List MapRecord) : Prop where
  infoNonzero : info ≠ 0
  infoLow : info + 52 ≤ imageLimit
  flagsField : load32 bytes info = flags
  mmapFlag : hasFlag flags flagMmap = true
  lengthField : load32 bytes (info + 44) = mapBytes records
  addrField : load32 bytes (info + 48) = mmapAddr
  mapNonzero : mmapAddr ≠ 0
  mapLow : mmapAddr + mapBytes records ≤ imageLimit
  recordsAt : RecordsAt bytes mmapAddr records
  filled : records ≠ []
  infoBeside : Beside statics ⟨info, 52⟩
  mapBeside : Beside statics ⟨mmapAddr, mapBytes records⟩

structure Faithful (bytes : Memory) (info flags : Nat) (records : List MapRecord)
    (after : BootInfo) : Prop where
  entries : multibootMmap after = (records.map MapRecord.entry).take maxMmapEntries
  count : after.mmapEntryCount = min records.length maxMmapEntries
  valid : after.mbValid = true
  memUpper : after.mbMemUpperKb =
    if hasFlag flags flagMemory then load32 bytes (info + 8) else 0

section Reads

variable {memory : LowMemory} {address : Nat}

theorem read32_eq (mapped : memory.mapped = belowLimit) (low : address + 4 ≤ identityMapLimit) :
    read32 memory address = some (load32 memory.bytes address) := by
  have byte (offset : Nat) (small : offset < 4) :
      readByte memory (address + offset) = some (memory.bytes (address + offset)) := by
    rw [readByte, mapped]
    exact if_pos (decide_eq_true (by omega))
  have first := byte 0 (by omega)
  rw [Nat.add_zero] at first
  simp only [read32, first, byte 1 (by omega), byte 2 (by omega), byte 3 (by omega),
    Option.bind_eq_bind, Option.bind_some]
  rfl

theorem read64_eq (mapped : memory.mapped = belowLimit) (low : address + 8 ≤ identityMapLimit) :
    read64 memory address = some (load64 memory.bytes address) := by
  have lower : address + 4 ≤ identityMapLimit := by omega
  have upper : address + 4 + 4 ≤ identityMapLimit := by omega
  simp only [read64, read32_eq mapped lower, read32_eq mapped upper, Option.bind_eq_bind,
    Option.bind_some]
  rfl

end Reads

theorem ptr_in_identity_map {phys : Nat} (nonzero : phys ≠ 0) (low : phys < identityMapLimit) :
    multibootPtrInIdentityMap phys = true := by
  simp [multibootPtrInIdentityMap, nonzero, low]

/-! ## What the stores leave -/

/-- The same pages, and the same bytes beside the static variables. -/
structure Kept (statics : Statics) (memory after : LowMemory) : Prop where
  mapped : after.mapped = memory.mapped
  bytes : ∀ target, Beside statics target →
    Agree target.start (target.start + target.size) memory.bytes after.bytes

section Stores

variable {statics : Statics} {memory between after : LowMemory} {state : BootState}
  {address start size whole : Nat}

theorem beside_part (beside : Beside statics ⟨start, whole⟩) (lower : start ≤ address)
    (upper : address + size ≤ start + whole) : Beside statics ⟨address, size⟩ := by
  intro extent listed
  have apart := beside extent listed
  simp only [Extent.Apart] at apart ⊢
  omega

theorem kept_refl : Kept statics memory memory := ⟨rfl, fun _ _ => agree_refl⟩

theorem kept_trans (first : Kept statics memory between) (second : Kept statics between after) :
    Kept statics memory after :=
  ⟨second.mapped.trans first.mapped, fun target beside =>
    agree_trans (first.bytes target beside) (second.bytes target beside)⟩

theorem kept_load32 (kept : Kept statics memory after) (beside : Beside statics ⟨address, 4⟩) :
    load32 after.bytes address = load32 memory.bytes address :=
  load32_of_agree address (kept.bytes _ beside) (Nat.le_refl _) (Nat.le_refl _)

theorem kept_store32 {extent : Extent} {word : Nat} (listed : extent ∈ statics.extents)
    (lower : extent.start ≤ address) (upper : address + 4 ≤ extent.start + extent.size) :
    Kept statics memory (memory.store32 address word) := by
  refine ⟨rfl, fun target beside => agree_store32 ?_⟩
  have apart := beside extent listed
  simp only [Extent.Apart] at apart
  omega

theorem kept_store64 {extent : Extent} {value : Nat} (listed : extent ∈ statics.extents)
    (lower : extent.start ≤ address) (upper : address + 8 ≤ extent.start + extent.size) :
    Kept statics memory (memory.store64 address value) :=
  kept_trans (kept_store32 listed lower (by omega)) (kept_store32 listed (by omega) (by omega))

theorem valid_listed : (⟨statics.mbValid, 1⟩ : Extent) ∈ statics.extents := List.mem_cons_self

theorem mem_upper_listed : (⟨statics.mbMemUpperKb, 4⟩ : Extent) ∈ statics.extents :=
  List.mem_cons_of_mem _ List.mem_cons_self

theorem storage_listed :
    (⟨statics.mmapStorage, 20 * maxMmapEntries⟩ : Extent) ∈ statics.extents :=
  List.mem_cons_of_mem _ (List.mem_cons_of_mem _ List.mem_cons_self)

theorem count_listed : (⟨statics.mmapEntryCount, 4⟩ : Extent) ∈ statics.extents :=
  List.mem_cons_of_mem _ (List.mem_cons_of_mem _ (List.mem_cons_of_mem _ List.mem_cons_self))

theorem valid_kept (valid : Bool) :
    Kept statics state.memory (storeValid statics state valid).memory := by
  refine ⟨rfl, fun target beside => agree_store8 ?_⟩
  have apart := beside _ valid_listed
  simp only [Extent.Apart] at apart
  omega

theorem mem_upper_kept (memUpper : Nat) :
    Kept statics state.memory (storeMemUpper statics state memUpper).memory :=
  kept_store32 mem_upper_listed (Nat.le_refl _) (Nat.le_refl _)

theorem count_kept (count : Nat) :
    Kept statics state.memory (storeCount statics state count).memory :=
  kept_store32 count_listed (Nat.le_refl _) (Nat.le_refl _)

theorem entry_kept {index : Nat} (inside : index < maxMmapEntries) (entry : MmapEntry) :
    Kept statics state.memory (storeEntry statics state index entry).memory := by
  have room : 20 * index + 20 ≤ 20 * maxMmapEntries := by omega
  refine kept_trans (kept_trans (kept_store64 storage_listed ?_ ?_)
    (kept_store64 storage_listed ?_ ?_)) (kept_store32 storage_listed ?_ ?_)
  all_goals
    simp only
    omega

theorem parsed_kept (spare : state.info.mmapEntryCount < maxMmapEntries) (parsed : MmapEntry) :
    Kept statics state.memory (storeParsed statics state parsed).memory :=
  kept_trans (count_kept _) (entry_kept spare parsed)

theorem clear_kept : Kept statics state.memory (clearStatics statics state).memory :=
  kept_trans (kept_trans (valid_kept false) (mem_upper_kept 0)) (count_kept 0)

end Stores

/-! ## The walk over the map -/

section Walk

variable {statics : Statics} {mmapAddr : Nat} {records : List MapRecord}

theorem records_at_agree {bytes other : Memory} {address : Nat}
    (written : RecordsAt bytes address records)
    (same : Agree address (address + mapBytes records) bytes other) :
    RecordsAt other address records := by
  induction records generalizing address with
  | nil => trivial
  | cons record rest ih =>
      obtain ⟨large, size, addr, len, type, later⟩ := written
      have bytesEq : mapBytes (record :: rest) = record.size + 4 + mapBytes rest := by
        simp [mapBytes]
      rw [bytesEq] at same
      have word (offset : Nat) (inside : offset + 4 ≤ 24) :
          load32 other (address + offset) = load32 bytes (address + offset) :=
        load32_of_agree _ same (by omega) (by omega)
      have double (offset : Nat) (inside : offset + 8 ≤ 24) :
          load64 other (address + offset) = load64 bytes (address + offset) :=
        load64_of_agree _ same (by omega) (by omega)
      refine ⟨large, (word 0 (by decide)).trans size, (double 4 (by decide)).trans addr,
        (double 12 (by decide)).trans len, (word 20 (by decide)).trans type, ih later ?_⟩
      exact agree_mono same (by omega) (by omega)

theorem parse_entry_eq {memory : LowMemory} {address : Nat} {record : MapRecord}
    {rest : List MapRecord} (mapped : memory.mapped = belowLimit)
    (written : RecordsAt memory.bytes address (record :: rest))
    (nonzero : address ≠ 0) (low : address + (record.size + 4) ≤ imageLimit) :
    multibootParseMmapEntry memory address = some (some record.entry) := by
  obtain ⟨large, size, addr, len, type, _⟩ := written
  simp only [imageLimit] at low
  have limit : identityMapLimit = 0x00400000 := rfl
  rw [multibootParseMmapEntry, ptr_in_identity_map nonzero (by omega),
    read32_eq mapped (by omega), read64_eq mapped (by omega), read64_eq mapped (by omega),
    read32_eq mapped (by omega), size, addr, len, type]
  simp [Nat.not_lt.mpr large]

def storeAll (statics : Statics) (state : BootState) (entries : List MmapEntry) : BootState :=
  entries.foldl (storeParsed statics) state

theorem mmap_storeParsed (state : BootState) (entry : MmapEntry) :
    multibootMmap (storeParsed statics state entry).info = multibootMmap state.info ++ [entry] := by
  simp only [multibootMmap, storeParsed, storeEntry, storeCount, List.range_succ, List.map_append,
    List.map_cons, List.map_nil, if_true]
  congr 1
  apply List.map_congr_left
  intro index member
  exact if_neg (Nat.ne_of_lt (List.mem_range.mp member))

theorem mmap_storeAll (state : BootState) (entries : List MmapEntry) :
    multibootMmap (storeAll statics state entries).info = multibootMmap state.info ++ entries := by
  induction entries generalizing state with
  | nil => simp [storeAll]
  | cons entry rest ih =>
      rw [storeAll, List.foldl_cons]
      have later := ih (storeParsed statics state entry)
      rw [mmap_storeParsed] at later
      simpa [storeAll] using later

theorem mmap_empty {info : BootInfo} (none : info.mmapEntryCount = 0) :
    multibootMmap info = [] := by
  rw [multibootMmap, none]
  rfl

theorem length_multibootMmap (info : BootInfo) :
    (multibootMmap info).length = info.mmapEntryCount := by
  simp [multibootMmap]

theorem memUpper_storeAll (state : BootState) (entries : List MmapEntry) :
    (storeAll statics state entries).info.mbMemUpperKb = state.info.mbMemUpperKb := by
  induction entries generalizing state with
  | nil => rfl
  | cons entry rest ih => exact ih (storeParsed statics state entry)

/-- The loop stores the entries of consecutive records until the table is full. -/
theorem mmap_loop_eq (room offset : Nat) (state : BootState) (nonzero : mmapAddr ≠ 0)
    (mapped : state.memory.mapped = belowLimit)
    (written : RecordsAt state.memory.bytes (mmapAddr + offset) records)
    (beside : Beside statics ⟨mmapAddr + offset, mapBytes records⟩)
    (spare : state.info.mmapEntryCount + room ≤ maxMmapEntries)
    (low : mmapAddr + (offset + mapBytes records) ≤ imageLimit) :
    mmapLoop statics mmapAddr (offset + mapBytes records) room offset state =
      some (storeAll statics state ((records.map MapRecord.entry).take room)) := by
  induction records generalizing room offset state with
  | nil =>
      cases room with
      | zero => simp [mmapLoop, storeAll]
      | succ room => simp [mmapLoop, storeAll, mapBytes]
  | cons record rest ih =>
      cases room with
      | zero => simp [mmapLoop, storeAll]
      | succ room =>
          have bytesEq : mapBytes (record :: rest) = record.size + 4 + mapBytes rest := by
            simp [mapBytes]
          rw [bytesEq] at low beside ⊢
          have limit : imageLimit = 0x003FF000 := rfl
          have mapLimit : identityMapLimit = 0x00400000 := rfl
          have place : add32 mmapAddr offset = mmapAddr + offset := add32_eq (by omega)
          have parsed := parse_entry_eq mapped written (by omega) (by omega)
          have kept : Kept statics state.memory (storeParsed statics state record.entry).memory :=
            parsed_kept (by omega) record.entry
          have same := kept.bytes _ beside
          rw [← bytesEq] at same
          have stored := records_at_agree written same
          have pages := kept.mapped.trans mapped
          obtain ⟨_, size, _, _, _, later⟩ := stored
          have step : add32 offset (add32 record.size 4) = offset + (record.size + 4) := by
            rw [add32_eq (by omega : record.size + 4 < 2 ^ 32)]
            exact add32_eq (by omega)
          have count : (storeParsed statics state record.entry).info.mmapEntryCount =
              state.info.mmapEntryCount + 1 := rfl
          have tail := ih room (offset + (record.size + 4)) (storeParsed statics state record.entry)
            pages (by rw [← Nat.add_assoc]; exact later) (beside_part beside (by omega) (by omega))
            (by omega) (by omega)
          have again := read32_eq pages (by omega : mmapAddr + offset + 4 ≤ identityMapLimit)
          rw [mmapLoop, if_pos (by omega)]
          simp only [place, parsed, again, size, step, Option.bind_eq_bind, Option.bind_some]
          rw [← Nat.add_assoc offset, tail]
          rfl

end Walk

/-! ## Which flags give the fixed offset -/

/-- The sizes of the fields that the flags announce add up to 40: all four fixed
fields and one symbol table, or both symbol tables and eight bytes besides. -/
def fieldsFillLayout (flags : Nat) : Bool :=
  let memory := hasFlag flags flagMemory
  let bootdev := hasFlag flags flagBootdev
  let cmdline := hasFlag flags flagCmdline
  let mods := hasFlag flags flagMods
  if hasFlag flags flagAoutSyms && hasFlag flags flagElfShdr then
    (memory && !bootdev && !cmdline && !mods) || (!memory && !bootdev && !cmdline && mods) ||
      (!memory && bootdev && cmdline && !mods)
  else (hasFlag flags flagAoutSyms || hasFlag flags flagElfShdr) &&
    memory && bootdev && cmdline && mods

def mmapLengthOffset : Nat := 44

theorem fields_offset_eq_iff (flags : Nat) :
    multibootMmapFieldsOffset flags = mmapLengthOffset ↔ fieldsFillLayout flags = true := by
  unfold multibootMmapFieldsOffset fieldsFillLayout
  generalize hasFlag flags flagMemory = memory
  generalize hasFlag flags flagBootdev = bootdev
  generalize hasFlag flags flagCmdline = cmdline
  generalize hasFlag flags flagMods = mods
  generalize hasFlag flags flagAoutSyms = aoutSyms
  generalize hasFlag flags flagElfShdr = elfShdr
  revert memory bootdev cmdline mods aoutSyms elfShdr
  decide

theorem fields_offset_bounds (flags : Nat) :
    4 ≤ multibootMmapFieldsOffset flags ∧ multibootMmapFieldsOffset flags ≤ 60 ∧
      multibootMmapFieldsOffset flags % 4 = 0 := by
  unfold multibootMmapFieldsOffset
  generalize hasFlag flags flagMemory = memory
  generalize hasFlag flags flagBootdev = bootdev
  generalize hasFlag flags flagCmdline = cmdline
  generalize hasFlag flags flagMods = mods
  generalize hasFlag flags flagAoutSyms = aoutSyms
  generalize hasFlag flags flagElfShdr = elfShdr
  revert memory bootdev cmdline mods aoutSyms elfShdr
  decide

/-! ## The whole call -/

def withMemUpper (statics : Statics) (info flags : Nat) (state : BootState) : BootState :=
  if hasFlag flags flagMemory then storeMemUpper statics state (load32 state.memory.bytes (info + 8))
  else state

def infoRead (statics : Statics) (bytes : Memory) (info flags : Nat) (before : BootInfo) :
    BootState :=
  withMemUpper statics info flags (clearStatics statics ⟨before, identityMapped bytes⟩)

section Call

variable {statics : Statics} {bytes : Memory} {info flags mmapAddr : Nat}
  {records : List MapRecord}

theorem info_read_kept (before : BootInfo) :
    Kept statics (identityMapped bytes) (infoRead statics bytes info flags before).memory := by
  have cleared := @clear_kept statics ⟨before, identityMapped bytes⟩
  rw [infoRead, withMemUpper]
  split
  · exact kept_trans cleared (mem_upper_kept _)
  · exact cleared

theorem early_init_eq (image : WellFormedImage statics bytes info flags mmapAddr records)
    (before : BootInfo) :
    multibootEarlyInit statics ⟨before, identityMapped bytes⟩ multibootBootloaderMagic info =
      multibootReadMmap statics info flags (infoRead statics bytes info flags before) := by
  have low := image.infoLow
  have limit : imageLimit = 0x003FF000 := rfl
  have mapLimit : identityMapLimit = 0x00400000 := rfl
  have inside := ptr_in_identity_map image.infoNonzero (by omega)
  have cleared := @clear_kept statics ⟨before, identityMapped bytes⟩
  have flagsRead := read32_eq cleared.mapped (by omega : info + 4 ≤ identityMapLimit)
  rw [kept_load32 cleared (beside_part image.infoBeside (by omega) (by omega))] at flagsRead
  have upper := read32_eq cleared.mapped (by omega : info + 8 + 4 ≤ identityMapLimit)
  have flagsField : load32 (identityMapped bytes).bytes info = flags := image.flagsField
  rw [multibootEarlyInit, if_neg (by simp [inside]), flagsRead, flagsField]
  simp only [Option.bind_eq_bind, Option.bind_some, multibootReadMemUpper, infoRead, withMemUpper,
    upper, image.mmapFlag, Bool.not_true, Bool.false_eq_true, if_false]
  cases memory : hasFlag flags flagMemory <;> rfl

theorem info_read_mem_upper (image : WellFormedImage statics bytes info flags mmapAddr records)
    (before : BootInfo) :
    (infoRead statics bytes info flags before).info.mbMemUpperKb =
      if hasFlag flags flagMemory then load32 bytes (info + 8) else 0 := by
  have cleared := @clear_kept statics ⟨before, identityMapped bytes⟩
  have field : load32 (clearStatics statics ⟨before, identityMapped bytes⟩).memory.bytes (info + 8) =
      load32 bytes (info + 8) :=
    kept_load32 cleared (beside_part image.infoBeside (by omega) (by omega))
  rw [infoRead, withMemUpper]
  cases hasFlag flags flagMemory with
  | false => rfl
  | true => exact field

theorem info_read_count (before : BootInfo) :
    (infoRead statics bytes info flags before).info.mmapEntryCount = 0 := by
  rw [infoRead, withMemUpper]
  split <;> rfl

theorem early_init_faithful (image : WellFormedImage statics bytes info flags mmapAddr records)
    (offset : multibootMmapFieldsOffset flags = mmapLengthOffset) (before : BootInfo) :
    ∃ after, multibootEarlyInit statics ⟨before, identityMapped bytes⟩ multibootBootloaderMagic
      info = some after ∧ Faithful bytes info flags records after.info := by
  have low := image.infoLow
  have mapLow := image.mapLow
  have limit : imageLimit = 0x003FF000 := rfl
  have mapLimit : identityMapLimit = 0x00400000 := rfl
  have kept := @info_read_kept statics bytes info flags before
  have upper := info_read_mem_upper image before
  have none := @info_read_count statics bytes info flags before
  rw [early_init_eq image before]
  generalize infoRead statics bytes info flags before = state at kept upper none
  have lengthRead := read32_eq kept.mapped (by omega : info + 44 + 4 ≤ identityMapLimit)
  have addrRead := read32_eq kept.mapped (by omega : info + 48 + 4 ≤ identityMapLimit)
  rw [kept_load32 kept (beside_part image.infoBeside (by omega) (by omega))] at lengthRead addrRead
  have lengthField : load32 (identityMapped bytes).bytes (info + 44) = mapBytes records :=
    image.lengthField
  have addrField : load32 (identityMapped bytes).bytes (info + 48) = mmapAddr := image.addrField
  rw [lengthField] at lengthRead
  rw [addrField] at addrRead
  have inside := ptr_in_identity_map image.mapNonzero (by omega)
  have walk := mmap_loop_eq maxMmapEntries 0 state image.mapNonzero kept.mapped
    (records_at_agree image.recordsAt (kept.bytes _ image.mapBeside)) image.mapBeside (by omega)
    (by omega)
  rw [Nat.zero_add] at walk
  have addrPlace : info + mmapLengthOffset + 4 = info + 48 := rfl
  have lengthPlace : info + mmapLengthOffset = info + 44 := rfl
  have stored := @mmap_storeAll statics state ((records.map MapRecord.entry).take maxMmapEntries)
  rw [mmap_empty none, List.nil_append] at stored
  have count : (storeAll statics state
      ((records.map MapRecord.entry).take maxMmapEntries)).info.mmapEntryCount =
        min records.length maxMmapEntries := by
    rw [← length_multibootMmap, stored, List.length_take, List.length_map, Nat.min_comm]
  have positive : 0 < records.length := List.length_pos_iff.mpr image.filled
  rw [multibootReadMmap, offset, addrPlace, lengthPlace, lengthRead, addrRead]
  simp only [inside, walk, Option.bind_eq_bind, Option.bind_some, Bool.not_true,
    Bool.false_eq_true, if_false]
  refine ⟨_, rfl, stored, count, ?_, (memUpper_storeAll _ _).trans upper⟩
  simp only [storeValid, count]
  exact decide_eq_true (Nat.lt_min.mpr ⟨positive, by decide⟩)

end Call

/-! ## Images that are misread -/

/-- A well-formed image with one map entry and, apart from it, only zeros. -/
def bareImage (flags : Nat) : Memory :=
  let bytes := store32 (fun _ => 0) 0x1000 flags
  let bytes := store32 (store32 bytes 0x102C 24) 0x1030 0x2000
  store32 (store32 (store32 bytes 0x2000 20) 0x200C 0x9FC00) 0x2014 memoryAvailable

def bareRecords : List MapRecord := [⟨20, { addr := 0, len := 0x9FC00, type := memoryAvailable }⟩]

section Bare

variable {statics : Statics} {flags : Nat}

theorem bare_image_zero {place : Nat} (info : 0x1004 ≤ place) (inside : place + 4 ≤ 0x2000)
    (length : place + 4 ≤ 0x102C ∨ 0x1030 ≤ place) (addr : place + 4 ≤ 0x1030 ∨ 0x1034 ≤ place) :
    load32 (bareImage flags) place = 0 := by
  simp (disch := omega) only [bareImage, load32_store32_of_disjoint]
  rfl

theorem beside_below {target : Extent} (below : target.start + target.size ≤ 0x00100000) :
    Beside statics target := fun extent listed =>
  Or.inr (Nat.le_trans below (statics.loaded extent listed).1)

theorem bare_image_well_formed (small : flags < 2 ^ 32) (mmapFlag : hasFlag flags flagMmap = true) :
    WellFormedImage statics (bareImage flags) 0x1000 flags 0x2000 bareRecords := by
  constructor
  case infoNonzero => decide
  case infoLow => decide
  case flagsField =>
    simp (disch := omega) only [bareImage, load32_store32_of_disjoint, load32_store32]
    exact Nat.mod_eq_of_lt small
  case mmapFlag => exact mmapFlag
  case lengthField =>
    simp (disch := omega) only [bareImage, load32_store32_of_disjoint, load32_store32]
    rfl
  case addrField =>
    simp (disch := omega) only [bareImage, load32_store32_of_disjoint, load32_store32]
    rfl
  case mapNonzero => decide
  case mapLow => decide
  case recordsAt =>
    simp (disch := omega) only [bareRecords, RecordsAt, bareImage, load64,
      load32_store32_of_disjoint, load32_store32]
    refine ⟨by decide, by decide, by decide, by decide, by decide, trivial⟩
  case filled => exact List.cons_ne_nil _ _
  case infoBeside => exact beside_below (by decide)
  case mapBeside => exact beside_below (by decide)

/-- Read at any other offset, the bare image shows no map at all. -/
theorem bare_image_unread (small : flags < 2 ^ 32) (mmapFlag : hasFlag flags flagMmap = true)
    (offset : multibootMmapFieldsOffset flags ≠ mmapLengthOffset) (before : BootInfo) :
    ∃ after, multibootEarlyInit statics ⟨before, identityMapped (bareImage flags)⟩
        multibootBootloaderMagic 0x1000 = some after ∧ after.info.mbValid = false := by
  obtain ⟨lower, upper, aligned⟩ := fields_offset_bounds flags
  have mapLimit : identityMapLimit = 0x00400000 := rfl
  have kept := @info_read_kept statics (bareImage flags) 0x1000 flags before
  have invalid : (infoRead statics (bareImage flags) 0x1000 flags before).info.mbValid = false := by
    rw [infoRead, withMemUpper]
    split <;> rfl
  rw [early_init_eq (bare_image_well_formed small mmapFlag) before, multibootReadMmap]
  have count := @info_read_count statics (bareImage flags) 0x1000 flags before
  generalize infoRead statics (bareImage flags) 0x1000 flags before = state at kept invalid count
  generalize multibootMmapFieldsOffset flags = place at *
  simp only [mmapLengthOffset] at offset
  have field (address : Nat) (low : address + 4 ≤ 0x00100000) :
      read32 state.memory address = some (load32 (bareImage flags) address) := by
    rw [read32_eq kept.mapped (by omega), kept_load32 kept (beside_below low)]
    rfl
  rw [field (0x1000 + place) (by omega), field (0x1000 + place + 4) (by omega)]
  by_cases before40 : place = 40
  · subst before40
    have empty : load32 (bareImage flags) (0x1000 + 40) = 0 :=
      bare_image_zero (by decide) (by decide) (by decide) (by decide)
    have shifted : load32 (bareImage flags) (0x1000 + 40 + 4) = 24 := by
      simp (disch := omega) only [bareImage, load32_store32_of_disjoint, load32_store32]
      rfl
    have none : mmapLoop statics 24 0 maxMmapEntries 0 state = some state := rfl
    have inside : multibootPtrInIdentityMap 24 = true := rfl
    simp only [empty, shifted, none, inside, Option.bind_eq_bind, Option.bind_some, Bool.not_true,
      Bool.false_eq_true, if_false]
    refine ⟨_, rfl, ?_⟩
    simp only [storeValid, count]
    rfl
  · have none : load32 (bareImage flags) (0x1000 + place + 4) = 0 :=
      bare_image_zero (by omega) (by omega) (by omega) (by omega)
    simp only [none, Option.bind_eq_bind, Option.bind_some]
    exact ⟨_, rfl, invalid⟩

end Bare

def loadedInfo : BootInfo :=
  { mbValid := false, mbMemUpperKb := 0, mmapStorage := fun _ => ⟨0, 0, 0⟩, mmapEntryCount := 0 }

def linkedStatics : Statics where
  mbValid := 0x00110000
  mbMemUpperKb := 0x00110004
  mmapStorage := 0x00110020
  mmapEntryCount := 0x00110008
  loaded := by decide
  apart := by decide

/-- For a flags word the parse of every well-formed image is faithful if and only
if the sizes that the code adds up come to the fixed offset. -/
theorem early_init_faithful_iff (statics : Statics) (flags : UInt32) :
    (∀ (bytes : Memory) (info mmapAddr : Nat) (records : List MapRecord) (before : BootInfo),
        WellFormedImage statics bytes info flags.toNat mmapAddr records →
        ∃ after,
          multibootEarlyInit statics ⟨before, identityMapped bytes⟩ multibootBootloaderMagic info =
            some after ∧
          Faithful bytes info flags.toNat records after.info) ↔
      (hasFlag flags.toNat flagMmap = true → fieldsFillLayout flags.toNat = true) := by
  constructor
  · intro faithful mmapFlag
    apply (fields_offset_eq_iff flags.toNat).mp
    by_contra offset
    have small : flags.toNat < 2 ^ 32 := flags.toNat_lt
    obtain ⟨after, run, parsed⟩ :=
      faithful _ _ _ _ loadedInfo (bare_image_well_formed small mmapFlag)
    obtain ⟨unread, same, invalid⟩ := bare_image_unread small mmapFlag offset loadedInfo
    obtain rfl := Option.some.inj (run.symm.trans same)
    exact absurd parsed.valid (by rw [invalid]; decide)
  · intro fills bytes info mmapAddr records before image
    exact early_init_faithful image
      ((fields_offset_eq_iff flags.toNat).mpr (fills image.mmapFlag)) before

/-- The flags of a boot loader that gives the memory size, a command line and a
map, but no boot device, modules or symbols: the map is taken for missing. -/
theorem early_init_misses_map :
    WellFormedImage linkedStatics (bareImage 0x45) 0x1000 0x45 0x2000 bareRecords ∧
      ¬∀ before, ∃ after,
        multibootEarlyInit linkedStatics ⟨before, identityMapped (bareImage 0x45)⟩
          multibootBootloaderMagic 0x1000 = some after ∧
        Faithful (bareImage 0x45) 0x1000 0x45 bareRecords after.info := by
  refine ⟨bare_image_well_formed (by decide) (by decide), fun faithful => ?_⟩
  obtain ⟨after, run, parsed⟩ := faithful loadedInfo
  obtain ⟨unread, same, invalid⟩ := @bare_image_unread linkedStatics 0x45
    (by decide) (by decide) (by decide) loadedInfo
  obtain rfl := Option.some.inj (run.symm.trans same)
  exact absurd parsed.valid (by rw [invalid]; decide)

end SimplyOs.MultibootParsing
