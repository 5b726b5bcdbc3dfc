import SimplyOs.Word
import SimplyOs.Library.ByteMemory

/-!
# The boot information

Transcription of `kernel/mm/multiboot.c` and `multiboot.h`. Low memory is read
through the identity map of `boot.S`: a read where no page is mapped faults and the
call never returns. The static variables lie in the same memory, so a store to one of
them is seen by a later read of the boot information; automatic variables have no
place in it. The words are little endian.
-/

namespace SimplyOs.Multiboot

open SimplyOs.Word SimplyOs.Library.ByteMemory

set_option autoImplicit false

structure LowMemory where
  mapped : Nat → Bool
  bytes : Memory

def maxMmapEntries : Nat := 64

def identityMapLimit : Nat := 0x00400000

def multibootBootloaderMagic : Nat := 0x2BADB002

def flagMemory : Nat := 0x00000001

def flagBootdev : Nat := 0x00000002

def flagCmdline : Nat := 0x00000004

def flagMods : Nat := 0x00000008

def flagAoutSyms : Nat := 0x00000010

def flagElfShdr : Nat := 0x00000020

def flagMmap : Nat := 0x00000040

def memoryAvailable : Nat := 1

def memoryAcpiReclaimable : Nat := 3

/-- `flags & flag`, as a condition. -/
def hasFlag (flags flag : Nat) : Bool := flags &&& flag != 0

def readByte (memory : LowMemory) (address : Nat) : Option UInt8 :=
  if memory.mapped address then some (memory.bytes address) else none

def read32 (memory : LowMemory) (address : Nat) : Option Nat := do
  let first ← readByte memory address
  let second ← readByte memory (address + 1)
  let third ← readByte memory (address + 2)
  let fourth ← readByte memory (address + 3)
  some (first.toNat + 256 * second.toNat + 65536 * third.toNat + 16777216 * fourth.toNat)

def read64 (memory : LowMemory) (address : Nat) : Option Nat := do
  let low ← read32 memory address
  let high ← read32 memory (address + 4)
  some (low + 2 ^ 32 * high)

/-- `multiboot_mmap_entry_t`: a map entry without its size field. -/
structure MmapEntry where
  addr : Nat
  len : Nat
  type : Nat
  deriving DecidableEq, Repr

/-- The static variables of the file. -/
structure BootInfo where
  mbValid : Bool
  mbMemUpperKb : Nat
  mmapStorage : Nat → MmapEntry
  mmapEntryCount : Nat

/-! ## The static variables in low memory -/

structure Extent where
  start : Nat
  size : Nat

def Extent.Apart (one other : Extent) : Prop :=
  one.start + one.size ≤ other.start ∨ other.start + other.size ≤ one.start

instance (one other : Extent) : Decidable (one.Apart other) :=
  inferInstanceAs (Decidable (_ ∨ _))

/-- The physical addresses of the static variables. -/
structure StaticAddresses where
  mbValid : Nat
  mbMemUpperKb : Nat
  mmapStorage : Nat
  mmapEntryCount : Nat

def StaticAddresses.extents (addresses : StaticAddresses) : List Extent :=
  [⟨addresses.mbValid, 1⟩, ⟨addresses.mbMemUpperKb, 4⟩,
    ⟨addresses.mmapStorage, 20 * maxMmapEntries⟩, ⟨addresses.mmapEntryCount, 4⟩]

/-- The image lies behind the first megabyte and below the page that shows the screen. -/
structure Statics extends StaticAddresses where
  loaded : ∀ extent ∈ toStaticAddresses.extents,
    0x00100000 ≤ extent.start ∧ extent.start + extent.size ≤ 0x003FF000
  apart : toStaticAddresses.extents.Pairwise Extent.Apart

structure BootState where
  info : BootInfo
  memory : LowMemory

def LowMemory.store8 (memory : LowMemory) (address : Nat) (value : UInt8) : LowMemory :=
  { memory with bytes := Library.ByteMemory.store8 memory.bytes address value }

def LowMemory.store32 (memory : LowMemory) (address word : Nat) : LowMemory :=
  { memory with bytes := Library.ByteMemory.store32 memory.bytes address word }

def LowMemory.store64 (memory : LowMemory) (address value : Nat) : LowMemory :=
  (memory.store32 address value).store32 (address + 4) (value / 2 ^ 32)

def storeValid (statics : Statics) (state : BootState) (valid : Bool) : BootState where
  info := { state.info with mbValid := valid }
  memory := state.memory.store8 statics.mbValid (if valid then 1 else 0)

def storeMemUpper (statics : Statics) (state : BootState) (memUpper : Nat) : BootState where
  info := { state.info with mbMemUpperKb := memUpper }
  memory := state.memory.store32 statics.mbMemUpperKb memUpper

def storeCount (statics : Statics) (state : BootState) (count : Nat) : BootState where
  info := { state.info with mmapEntryCount := count }
  memory := state.memory.store32 statics.mmapEntryCount count

def storeEntry (statics : Statics) (state : BootState) (index : Nat) (entry : MmapEntry) :
    BootState where
  info := { state.info with
    mmapStorage := fun place => if place = index then entry else state.info.mmapStorage place }
  memory :=
    let target := statics.mmapStorage + 20 * index
    ((state.memory.store64 target entry.addr).store64 (target + 8) entry.len).store32
      (target + 16) entry.type

/-! ## `multiboot.c` -/

def multibootPtrInIdentityMap (phys : Nat) : Bool := phys != 0 && phys < identityMapLimit

def multibootMmapFieldsOffset (flags : Nat) : Nat :=
  let offset := 4
  let offset := if hasFlag flags flagMemory then offset + 8 else offset
  let offset := if hasFlag flags flagBootdev then offset + 4 else offset
  let offset := if hasFlag flags flagCmdline then offset + 4 else offset
  let offset := if hasFlag flags flagMods then offset + 8 else offset
  let offset := if hasFlag flags flagAoutSyms then offset + 16 else offset
  if hasFlag flags flagElfShdr then offset + 16 else offset

/-- The inner `none` is a result of `false`. -/
def multibootParseMmapEntry (memory : LowMemory) (entryPhys : Nat) :
    Option (Option MmapEntry) :=
  if !multibootPtrInIdentityMap entryPhys then some none
  else do
    let size ← read32 memory entryPhys
    if size < 20 then some none
    else do
      let addr ← read64 memory (entryPhys + 4)
      let len ← read64 memory (entryPhys + 12)
      let type ← read32 memory (entryPhys + 20)
      some (some { addr := addr, len := len, type := type })

/-- `mmap_storage[mmap_entry_count++] = parsed`. -/
def storeParsed (statics : Statics) (state : BootState) (parsed : MmapEntry) : BootState :=
  let index := state.info.mmapEntryCount
  -- the two stores lie apart, so that their order is of no account
  storeEntry statics (storeCount statics state (index + 1)) index parsed

/-- The parse loop; `room` is `MAX_MMAP_ENTRIES - mmap_entry_count`. -/
def mmapLoop (statics : Statics) (mmapAddr mmapLength : Nat) :
    (room : Nat) → (offset : Nat) → BootState → Option BootState
  | 0, _, state => some state
  | room + 1, offset, state =>
      if offset < mmapLength then do
        let entryPhys := add32 mmapAddr offset
        let parsed ← multibootParseMmapEntry state.memory entryPhys
        match parsed with
        | none => some state
        | some parsed => do
            let state := storeParsed statics state parsed
            -- the size is read once more, behind the store
            let entrySize ← read32 state.memory entryPhys
            mmapLoop statics mmapAddr mmapLength room (add32 offset (add32 entrySize 4)) state
      else some state

/-- The part of `multiboot_early_init` that runs when the map flag is set. -/
def multibootReadMmap (statics : Statics) (mbInfoPhys flags : Nat) (state : BootState) :
    Option BootState := do
  let mmapOffset := multibootMmapFieldsOffset flags
  let mmapLength ← read32 state.memory (mbInfoPhys + mmapOffset)
  let mmapAddr ← read32 state.memory (mbInfoPhys + mmapOffset + 4)
  if !multibootPtrInIdentityMap mmapAddr then some state
  else do
    let state ← mmapLoop statics mmapAddr mmapLength maxMmapEntries 0 state
    some (storeValid statics state (decide (state.info.mmapEntryCount > 0)))

def multibootReadMemUpper (statics : Statics) (mbInfoPhys flags : Nat) (state : BootState) :
    Option BootState :=
  if hasFlag flags flagMemory then do
    let memUpper ← read32 state.memory (mbInfoPhys + 8)
    some (storeMemUpper statics state memUpper)
  else some state

def clearStatics (statics : Statics) (state : BootState) : BootState :=
  storeCount statics (storeMemUpper statics (storeValid statics state false) 0) 0

def multibootEarlyInit (statics : Statics) (state : BootState) (magic mbInfoPhys : Nat) :
    Option BootState :=
  let state := clearStatics statics state
  if magic ≠ multibootBootloaderMagic ∨ multibootPtrInIdentityMap mbInfoPhys = false then some state
  else do
    let flags ← read32 state.memory mbInfoPhys
    let state ← multibootReadMemUpper statics mbInfoPhys flags state
    if !hasFlag flags flagMmap then some state
    else multibootReadMmap statics mbInfoPhys flags state

/-- What `multiboot_get_mmap` and `multiboot_mmap_entry_count` show to the caller. -/
def multibootMmap (state : BootInfo) : List MmapEntry :=
  (List.range state.mmapEntryCount).map state.mmapStorage

end SimplyOs.Multiboot
