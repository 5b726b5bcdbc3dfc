import SimplyOs.GdtEncoding
import SimplyOs.Interrupts
import SimplyOs.Library.WordObjects

/-!
# The segment and the interrupt tables

Transcription of `gdt_init`, `gdt_flush`, `idt.c` and `irq_init`: the tables and their
pointers are objects in memory, `lgdt` and `lidt` load what the pointers hold, and the
processor reads an entry at the base that it has loaded. The linker decides where the
stubs and the objects lie, and the stack lies elsewhere. The load of a segment register
is that of its selector.
-/

namespace SimplyOs.InterruptTables

open SimplyOs.Gdt SimplyOs.GdtEncoding SimplyOs.Interrupts
open SimplyOs.Library.WordBytes SimplyOs.Library.WordStack SimplyOs.Library.WordObjects

set_option autoImplicit false

/-- The addresses of the stubs, and of `gdt_entries`, `gdt_ptr`, `idt` and `idtr`. -/
structure Link where
  isrStubTable : Nat → Word
  irqStubTable : Nat → Word
  gdtEntries : Word
  gdtPtr : Word
  idt : Word
  idtr : Word
  apart : [⟨gdtEntries, 8 * 5⟩, ⟨gdtPtr, 6⟩, ⟨idt, 8 * 256⟩, ⟨idtr, 6⟩].Pairwise Apart

/-- `GDTPtr` and `idtr_t`. -/
structure TablePtr where
  limit : BitVec 16
  base : Word
  deriving DecidableEq, Repr

def ptrBytes (ptr : TablePtr) : Fin 6 → BitVec 8 :=
  ![byteAt ptr.limit 0, byteAt ptr.limit 1, byteAt ptr.base 0, byteAt ptr.base 1,
    byteAt ptr.base 2, byteAt ptr.base 3]

/-- The processor with its table registers; the memory is that of `cpu`. -/
structure System where
  cpu : Cpu
  ss : Selector
  gdtr : TablePtr
  idtr : TablePtr

def System.memory (system : System) : Memory := system.cpu.memory

def System.withMemory (system : System) (memory : Memory) : System :=
  { system with cpu := { system.cpu with memory := memory } }

def System.store {size : Nat} (system : System) (start : Word) (bytes : Fin size → BitVec 8) :
    System := system.withMemory (writeBytes system.memory start bytes)

def loadPtr (memory : Memory) (address : Word) : TablePtr where
  limit := memory (above address 1) ++ memory address
  base := readWord memory (above address 2)

def lgdt (system : System) (address : Word) : System :=
  { system with gdtr := loadPtr system.memory address }

def lidt (system : System) (address : Word) : System :=
  { system with idtr := loadPtr system.memory address }

/-! ## `gdt.c` -/

def segDescType (x : BitVec 16) : BitVec 16 := x <<< 0x04

def segPres (x : BitVec 16) : BitVec 16 := x <<< 0x07

def segSavl (x : BitVec 16) : BitVec 16 := x <<< 0x0C

def segLong (x : BitVec 16) : BitVec 16 := x <<< 0x0D

def segSize (x : BitVec 16) : BitVec 16 := x <<< 0x0E

def segGran (x : BitVec 16) : BitVec 16 := x <<< 0x0F

def segPriv (x : BitVec 16) : BitVec 16 := (x &&& 0x03) <<< 0x05

def segDataRdwr : BitVec 16 := 0x02

def segCodeExrd : BitVec 16 := 0x0A

/-- The four constants differ in the privilege level and the type. -/
def segFlags (priv type : BitVec 16) : BitVec 16 :=
  segDescType 1 ||| segPres 1 ||| segSavl 0 ||| segLong 0 ||| segSize 1 ||| segGran 1 |||
    segPriv priv ||| type

def gdtCodePl0 : BitVec 16 := segFlags 0 segCodeExrd

def gdtDataPl0 : BitVec 16 := segFlags 0 segDataRdwr

def gdtCodePl3 : BitVec 16 := segFlags 3 segCodeExrd

def gdtDataPl3 : BitVec 16 := segFlags 3 segDataRdwr

/-- The selectors are loaded through `%ax`, and `%cs` by the jump. -/
def gdtFlush (system : System) (gdtPtrAddr : Word) : System :=
  let system := { system with cpu := { system.cpu with eax := gdtPtrAddr } }
  let system := lgdt system system.cpu.eax
  let loaded := { system.cpu with eax := system.cpu.eax.extractLsb' 16 16 ++ (0x10 : Selector) }
  let loaded := loaded.setSegment (loaded.eax.setWidth 16) .ds
  let loaded := loaded.setSegment (loaded.eax.setWidth 16) .es
  let loaded := loaded.setSegment (loaded.eax.setWidth 16) .fs
  let loaded := loaded.setSegment (loaded.eax.setWidth 16) .gs
  { system with cpu := { loaded with cs := 0x08 }, ss := loaded.eax.setWidth 16 }

/-- `create_descriptor` with `&gdt_entries[index]`. -/
def setEntry (link : Link) (system : System) (index : Nat) (base limit : Word)
    (flag : BitVec 16) : System :=
  system.store (above link.gdtEntries (8 * index)) (entryBytes (createDescriptor base limit flag))

def gdtInit (link : Link) (system : System) : System :=
  let system := system.store link.gdtPtr (ptrBytes { limit := 8 * 5 - 1, base := link.gdtEntries })
  let system := setEntry link system 0 0 0 0
  let system := setEntry link system 1 0 0xFFFFFFFF gdtCodePl0
  let system := setEntry link system 2 0 0xFFFFFFFF gdtDataPl0
  let system := setEntry link system 3 0 0xFFFFFFFF gdtCodePl3
  let system := setEntry link system 4 0 0xFFFFFFFF gdtDataPl3
  gdtFlush system link.gdtPtr

/-! ## `idt.c` and `irq_init` -/

structure IdtEntry where
  isrLow : BitVec 16
  kernelCs : BitVec 16
  reserved : BitVec 8
  attributes : BitVec 8
  isrHigh : BitVec 16
  deriving DecidableEq, Repr

def idtEntryBytes (entry : IdtEntry) : EntryBytes :=
  ![byteAt entry.isrLow 0, byteAt entry.isrLow 1, byteAt entry.kernelCs 0, byteAt entry.kernelCs 1,
    entry.reserved, entry.attributes, byteAt entry.isrHigh 0, byteAt entry.isrHigh 1]

def idtMaxDescriptors : Nat := 256

/-- Every field of the descriptor is assigned. -/
def idtSetDescriptor (link : Link) (system : System) (vector : UInt8) (isr : Word)
    (flags : BitVec 8) : System :=
  system.store (above link.idt (8 * vector.toNat)) (idtEntryBytes
    { isrLow := (isr &&& 0xFFFF).setWidth 16
      kernelCs := kernelCs
      attributes := flags
      isrHigh := ((isr >>> 16) &&& 0xFFFF).setWidth 16
      reserved := 0 })

def setDescriptors (link : Link) (system : System) (first count : Nat) (isr : Nat → Word) :
    System :=
  (List.range count).foldl
    (fun system i => idtSetDescriptor link system (UInt8.ofNat (first + i)) (isr i) 0x8E) system

/-- `memset` fills the whole table. -/
def idtInit (link : Link) (system : System) : System :=
  let system := system.store link.idt (fun _ : Fin (8 * idtMaxDescriptors) => 0)
  let system := system.store link.idtr
    (ptrBytes { limit := BitVec.ofNat 16 (8 * idtMaxDescriptors - 1), base := link.idt })
  let system := setDescriptors link system 0 32 link.isrStubTable
  lidt system link.idtr

def irqInit (link : Link) (system : System) : System :=
  setDescriptors link system 32 16 link.irqStubTable

def kernelTables (link : Link) (system : System) : System :=
  irqInit link (idtInit link (gdtInit link system))

/-! ## What the processor reads -/

structure Gate where
  target : Word
  selector : Selector
  privilege : Nat
  deriving DecidableEq, Repr

def interruptGate (entry : EntryBytes) : Option Gate :=
  if (entry 5).getLsbD 7 && entry 5 &&& 0x1F == 0x0E then
    some
      { target := entry 7 ++ entry 6 ++ entry 1 ++ entry 0
        selector := entry 3 ++ entry 2
        privilege := ((entry 5 >>> 5) &&& 3).toNat }
  else none

def gateOf (system : System) (vector : UInt8) : Option Gate :=
  if 8 * vector.toNat + 7 ≤ system.idtr.limit.toNat then
    interruptGate (readBytes system.memory (above system.idtr.base (8 * vector.toNat)) 8)
  else none

structure SegmentView where
  base : Nat
  /-- The last address inside. -/
  top : Nat
  privilege : Nat
  code : Bool
  /-- Whether code can be read, or data can be written. -/
  access : Bool
  wide : Bool
  deriving DecidableEq, Repr

def segmentView (descriptor : GdtDescriptor) : Option SegmentView :=
  if descriptor.flags.getLsbD 7 && descriptor.flags.getLsbD 4 then
    some
      { base := descriptor.base.toNat
        top := descriptor.base.toNat +
          if descriptor.flags.getLsbD 15 then 4096 * descriptor.limit.toNat + 4095
          else descriptor.limit.toNat
        privilege := ((descriptor.flags >>> 5) &&& 3).toNat
        code := descriptor.flags.getLsbD 3
        access := descriptor.flags.getLsbD 1
        wide := descriptor.flags.getLsbD 14 }
  else none

/-- The segment behind a selector; bit 2 asks for a local table, and none is loaded. -/
def segmentOf (system : System) (selector : Selector) : Option SegmentView :=
  if selector.getLsbD 2 then none
  else if 8 * (selector.toNat / 8) + 7 ≤ system.gdtr.limit.toNat then
    segmentView (decodeEntry
      (readBytes system.memory (above system.gdtr.base (8 * (selector.toNat / 8))) 8))
  else none

def flatSegment (privilege : Nat) (code : Bool) : SegmentView where
  base := 0
  top := 2 ^ 32 - 1
  privilege := privilege
  code := code
  access := true
  wide := true

/-! ## What the stores leave -/

def gdtTable : List GdtEntry :=
  [createDescriptor 0 0 0,
    createDescriptor 0 0xFFFFFFFF gdtCodePl0,
    createDescriptor 0 0xFFFFFFFF gdtDataPl0,
    createDescriptor 0 0xFFFFFFFF gdtCodePl3,
    createDescriptor 0 0xFFFFFFFF gdtDataPl3]

section Stores

variable (link : Link) {system : System}

theorem link_apart :
    Apart ⟨link.gdtEntries, 8 * 5⟩ ⟨link.gdtPtr, 6⟩ ∧
      Apart ⟨link.idt, 8 * 256⟩ ⟨link.gdtEntries, 8 * 5⟩ ∧
      Apart ⟨link.idtr, 6⟩ ⟨link.gdtEntries, 8 * 5⟩ ∧
      Apart ⟨link.idt, 8 * 256⟩ ⟨link.idtr, 6⟩ := by
  have apart := link.apart
  simp only [List.pairwise_cons, List.forall_mem_cons] at apart
  obtain ⟨⟨entriesPtr, entriesIdt, entriesIdtr, _⟩, _, ⟨idtIdtr, _⟩, _⟩ := apart
  exact ⟨entriesPtr, apart_symm entriesIdt, apart_symm entriesIdtr, idtIdtr⟩

theorem load_ptr_read {memory : Memory} {address : Word} {ptr : TablePtr}
    (read : readBytes memory address 6 = ptrBytes ptr) : loadPtr memory address = ptr := by
  have byte (offset : Fin 6) : memory (above address offset) = ptrBytes ptr offset :=
    congrFun read offset
  have low := byte ⟨0, by decide⟩
  have high := byte ⟨1, by decide⟩
  have base : readWord memory (above address 2) = ptr.base := by
    apply read_word_bytes
    intro offset inside
    rw [above_above]
    interval_cases offset
    · exact byte ⟨2, by decide⟩
    · exact byte ⟨3, by decide⟩
    · exact byte ⟨4, by decide⟩
    · exact byte ⟨5, by decide⟩
  have limit : memory (above address 1) ++ memory address = ptr.limit := by
    rw [above_zero] at low
    rw [low, high]
    exact join_half ptr.limit
  rw [loadPtr, limit, base]

theorem gdt_flush_memory (system : System) (gdtPtrAddr : Word) :
    (gdtFlush system gdtPtrAddr).memory = system.memory := rfl

theorem gdt_flush_gdtr (system : System) (gdtPtrAddr : Word) :
    (gdtFlush system gdtPtrAddr).gdtr = loadPtr system.memory gdtPtrAddr := rfl

theorem store_memory {size : Nat} (system : System) (start : Word) (bytes : Fin size → BitVec 8) :
    (system.store start bytes).memory = writeBytes system.memory start bytes := rfl

/-- An entry that is set reads back, and the others stay. -/
theorem set_entry_read (system : System) {index other : Nat} (base limit : Word)
    (flag : BitVec 16) (inside : index < 5) (otherInside : other < 5) :
    readBytes (setEntry link system index base limit flag).memory
        (above link.gdtEntries (8 * other)) 8 =
      if other = index then entryBytes (createDescriptor base limit flag)
      else readBytes system.memory (above link.gdtEntries (8 * other)) 8 := by
  rw [setEntry, store_memory]
  by_cases same : other = index
  · rw [if_pos same, same, read_written _ _ _ (by decide)]
  · have apart : Apart ⟨above link.gdtEntries (8 * index), 8⟩
        ⟨above link.gdtEntries (8 * other), 8⟩ :=
      elements_apart link.gdtEntries (by decide : 8 * 5 < 2 ^ 32) inside otherInside (Ne.symm same)
    rw [if_neg same, read_apart apart]

theorem set_entry_ptr (system : System) {index : Nat} (base limit : Word) (flag : BitVec 16)
    (inside : index < 5) :
    readBytes (setEntry link system index base limit flag).memory link.gdtPtr 6 =
      readBytes system.memory link.gdtPtr 6 := by
  have apart : Apart ⟨above link.gdtEntries (8 * index), 8⟩ ⟨link.gdtPtr, 6⟩ :=
    apart_part (link_apart link).1 (by decide) (by omega)
  rw [setEntry, store_memory, read_apart apart]

structure GdtHeld (system : System) : Prop where
  loaded : system.gdtr = { limit := 8 * 5 - 1, base := link.gdtEntries }
  entries : ∀ index entry, gdtTable[index]? = some entry →
    readBytes system.memory (above link.gdtEntries (8 * index)) 8 = entryBytes entry

theorem gdt_init_held (system : System) : GdtHeld link (gdtInit link system) := by
  constructor
  · rw [gdtInit, gdt_flush_gdtr]
    apply load_ptr_read
    simp (disch := decide) only [set_entry_ptr, store_memory, read_written]
  · intro index entry listed
    have inside : index < 5 := (List.getElem?_eq_some_iff.mp listed).1
    rw [gdtInit, gdt_flush_memory]
    simp (disch := first | assumption | decide) only [set_entry_read]
    interval_cases index
    · cases listed
      rfl
    · cases listed
      rfl
    · cases listed
      rfl
    · cases listed
      rfl
    · cases listed
      rfl

/-- The address of a stub is split into halves and put together again. -/
theorem gate_of_descriptor (isr : Word) :
    interruptGate (idtEntryBytes
        { isrLow := (isr &&& 0xFFFF).setWidth 16, kernelCs := kernelCs, attributes := 0x8E
          isrHigh := ((isr >>> 16) &&& 0xFFFF).setWidth 16, reserved := 0 }) =
      some { target := isr, selector := kernelCs, privilege := 0 } := by
  have bytes : idtEntryBytes
      { isrLow := (isr &&& 0xFFFF).setWidth 16, kernelCs := kernelCs, attributes := 0x8E
        isrHigh := ((isr >>> 16) &&& 0xFFFF).setWidth 16, reserved := 0 } =
      ![byteAt isr 0, byteAt isr 1, byteAt kernelCs 0, byteAt kernelCs 1, 0, 0x8E, byteAt isr 2,
        byteAt isr 3] := by
    simp (disch := decide) only [idtEntryBytes, byte_at_cast, byte_at_and, byte_at_shift_right,
      BitVec.ofNat_eq_ofNat, byte_at_constant, Nat.reduceMul, Nat.reduceDiv, Nat.reduceAdd,
      Nat.reducePow, Nat.reduceMod, and_full]
  have target : byteAt isr 3 ++ byteAt isr 2 ++ byteAt isr 1 ++ byteAt isr 0 = isr := join_word isr
  have selector : byteAt kernelCs 1 ++ byteAt kernelCs 0 = kernelCs := join_half kernelCs
  have present : ((0x8E : BitVec 8).getLsbD 7 && (0x8E : BitVec 8) &&& 0x1F == 0x0E) = true := by
    decide
  have ring : (((0x8E : BitVec 8) >>> 5) &&& 3).toNat = 0 := by decide
  have gate : (some
      { target := byteAt isr 3 ++ byteAt isr 2 ++ byteAt isr 1 ++ byteAt isr 0
        selector := byteAt kernelCs 1 ++ byteAt kernelCs 0
        privilege := (((0x8E : BitVec 8) >>> 5) &&& 3).toNat } : Option Gate) =
      some { target := isr, selector := kernelCs, privilege := 0 } := by
    rw [target, selector, ring]
  rw [bytes]
  exact (if_pos present).trans gate

/-- The stores of the descriptors change the table of interrupts only. -/
structure DescriptorsSet (system after : System) (first count : Nat) (isr : Nat → Word) : Prop where
  same : after = system.withMemory after.memory
  kept : ∀ region, Apart ⟨link.idt, 8 * 256⟩ region → Kept region system.memory after.memory
  gates : ∀ vector : UInt8,
    interruptGate (readBytes after.memory (above link.idt (8 * vector.toNat)) 8) =
      if first ≤ vector.toNat ∧ vector.toNat < first + count then
        some { target := isr (vector.toNat - first), selector := kernelCs, privilege := 0 }
      else interruptGate (readBytes system.memory (above link.idt (8 * vector.toNat)) 8)

theorem descriptors_set (system : System) (isr : Nat → Word) (first count : Nat)
    (inside : first + count ≤ 256) :
    DescriptorsSet link system (setDescriptors link system first count isr) first count isr := by
  induction count with
  | zero =>
      refine ⟨rfl, fun region _ => kept_refl region _, fun vector => ?_⟩
      rw [if_neg (by omega)]
      rfl
  | succ count ih =>
      obtain ⟨same, kept, gates⟩ := ih (by omega)
      have last : setDescriptors link system first (count + 1) isr =
          idtSetDescriptor link (setDescriptors link system first count isr)
            (UInt8.ofNat (first + count)) (isr count) 0x8E := by
        simp only [setDescriptors, List.range_succ, List.foldl_append]
        rfl
      have place : (UInt8.ofNat (first + count)).toNat = first + count := by
        simp only [UInt8.toNat_ofNat']
        omega
      rw [last, idtSetDescriptor, place]
      generalize setDescriptors link system first count isr = between at same kept gates
      refine ⟨?_, fun region apart => ?_, fun vector => ?_⟩
      · rw [same]
        rfl
      · refine kept_trans (kept region apart) ?_
        rw [store_memory]
        exact kept_write (apart_part apart (by decide) (by omega))
      · rw [store_memory]
        by_cases here : vector.toNat = first + count
        · have index : vector.toNat - first = count := by omega
          rw [here, read_written _ _ _ (by decide), gate_of_descriptor, ← here, if_pos (by omega),
            index]
        · have small := vector.toNat_lt
          have apart : Apart ⟨above link.idt (8 * (first + count)), 8⟩
              ⟨above link.idt (8 * vector.toNat), 8⟩ :=
            elements_apart link.idt (by decide : 8 * 256 < 2 ^ 32) (by omega) (by omega)
              (Ne.symm here)
          rw [read_apart apart, gates]
          by_cases before : first ≤ vector.toNat ∧ vector.toNat < first + count
          · rw [if_pos before, if_pos (by omega)]
          · rw [if_neg before, if_neg (by omega)]

theorem lidt_memory (system : System) (address : Word) :
    (lidt system address).memory = system.memory := rfl

theorem lidt_idtr (system : System) (address : Word) :
    (lidt system address).idtr = loadPtr system.memory address := rfl

/-- Behind `idt_init` the table of interrupts is in memory, and the processor has loaded
where; the segments and the other registers are as before. -/
structure IdtHeld (system after : System) : Prop where
  same : after = { system.withMemory after.memory with idtr := after.idtr }
  kept : Kept ⟨link.gdtEntries, 8 * 5⟩ system.memory after.memory
  loaded : after.idtr =
    { limit := BitVec.ofNat 16 (8 * idtMaxDescriptors - 1), base := link.idt }
  gates : ∀ vector : UInt8,
    interruptGate (readBytes after.memory (above link.idt (8 * vector.toNat)) 8) =
      if vector.toNat < 32 then
        some { target := link.isrStubTable vector.toNat, selector := kernelCs, privilege := 0 }
      else none

theorem idt_init_held (system : System) : IdtHeld link system (idtInit link system) := by
  obtain ⟨_, idtEntries, idtrEntries, idtIdtr⟩ := link_apart link
  generalize cleared : system.store link.idt (fun _ : Fin (8 * idtMaxDescriptors) => 0) = zeroed
  generalize pointed : zeroed.store link.idtr (ptrBytes
    { limit := BitVec.ofNat 16 (8 * idtMaxDescriptors - 1), base := link.idt }) = ready
  have set := descriptors_set link ready link.isrStubTable 0 32 (by decide)
  have init : idtInit link system = lidt (setDescriptors link ready 0 32 link.isrStubTable)
      link.idtr := by
    rw [idtInit, cleared, pointed]
  rw [init]
  generalize setDescriptors link ready 0 32 link.isrStubTable = entered at set
  refine ⟨?_, ?_, ?_, fun vector => ?_⟩
  · rw [set.same, ← pointed, ← cleared]
    rfl
  · rw [lidt_memory]
    refine kept_trans ?_ (set.kept _ idtEntries)
    rw [← pointed, store_memory, ← cleared, store_memory]
    exact kept_trans (kept_write idtEntries) (kept_write idtrEntries)
  · rw [lidt_idtr]
    apply load_ptr_read
    rw [read_same (set.kept ⟨link.idtr, 6⟩ idtIdtr), ← pointed, store_memory,
      read_written _ _ _ (by decide)]
  · have small := vector.toNat_lt
    have inside : 8 * vector.toNat + 8 ≤ 8 * idtMaxDescriptors := by
      rw [idtMaxDescriptors]
      omega
    have part : Apart ⟨link.idtr, 6⟩ ⟨above link.idt (8 * vector.toNat), 8⟩ :=
      apart_symm (apart_part idtIdtr (by decide) inside)
    have absent : interruptGate (readBytes ready.memory (above link.idt (8 * vector.toNat)) 8) =
        none := by
      rw [← pointed, store_memory, read_apart part, ← cleared, store_memory,
        read_filled system.memory link.idt 0 (by decide) inside]
      rfl
    rw [lidt_memory, set.gates vector, absent]
    simp only [Nat.zero_add, Nat.zero_le, true_and, Nat.sub_zero]

/-! ## The tables of the kernel -/

theorem gdt_flush_selectors (system : System) (gdtPtrAddr : Word) :
    (gdtFlush system gdtPtrAddr).cpu.cs = kernelCs ∧ (gdtFlush system gdtPtrAddr).ss = 0x10 ∧
      ∀ segment, (gdtFlush system gdtPtrAddr).cpu.segment segment = 0x10 := by
  have low : (gdtPtrAddr.extractLsb' 16 16 ++ (0x10 : Selector)).setWidth 16 = (0x10 : Selector) := by
    rw [BitVec.setWidth_append, dif_pos (Nat.le_refl 16)]
    rfl
  refine ⟨rfl, low, fun segment => ?_⟩
  cases segment <;> exact low

/-- The stores behind `gdt_init` are to the table of interrupts and its pointer. -/
theorem kernel_tables_held (system : System) :
    IdtHeld link (gdtInit link system) (idtInit link (gdtInit link system)) ∧
      DescriptorsSet link (idtInit link (gdtInit link system)) (kernelTables link system) 32 16
        link.irqStubTable :=
  ⟨idt_init_held link _, descriptors_set link _ link.irqStubTable 32 16 (by decide)⟩

theorem kernel_tables_loaded (system : System) :
    (kernelTables link system).gdtr = { limit := 8 * 5 - 1, base := link.gdtEntries } ∧
      (kernelTables link system).idtr =
        { limit := BitVec.ofNat 16 (8 * idtMaxDescriptors - 1), base := link.idt } := by
  obtain ⟨exceptions, devices⟩ := kernel_tables_held link system
  have segments := (gdt_init_held link system).loaded
  generalize kernelTables link system = tables at devices ⊢
  generalize idtInit link (gdtInit link system) = loaded at exceptions devices
  generalize gdtInit link system = flushed at exceptions segments
  refine ⟨?_, ?_⟩
  · rw [devices.same, exceptions.same]
    exact segments
  · rw [devices.same]
    exact exceptions.loaded

theorem kernel_gate (system : System) (vector : UInt8) :
    gateOf (kernelTables link system) vector =
      if vector.toNat < 32 then
        some { target := link.isrStubTable vector.toNat, selector := kernelCs, privilege := 0 }
      else if vector.toNat < 48 then
        some { target := link.irqStubTable (vector.toNat - 32), selector := kernelCs, privilege := 0 }
      else none := by
  obtain ⟨exceptions, devices⟩ := kernel_tables_held link system
  have limit : (BitVec.ofNat 16 (8 * idtMaxDescriptors - 1)).toNat = 2047 := by decide
  have inside : 8 * vector.toNat + 7 ≤ 2047 := by
    have small := vector.toNat_lt
    omega
  rw [gateOf, (kernel_tables_loaded link system).2]
  simp only [limit]
  rw [if_pos inside, devices.gates, exceptions.gates]
  by_cases exception : vector.toNat < 32
  · rw [if_neg (by omega), if_pos exception, if_pos exception]
  · by_cases device : vector.toNat < 48
    · rw [if_pos (by omega), if_neg exception, if_pos device]
    · rw [if_neg (by omega), if_neg exception, if_neg exception, if_neg device]

theorem kernel_segment (system : System) (selector : Selector) :
    segmentOf (kernelTables link system) selector =
      if selector.getLsbD 2 then none
      else match selector.toNat / 8 with
        | 1 => some (flatSegment 0 true)
        | 2 => some (flatSegment 0 false)
        | 3 => some (flatSegment 3 true)
        | 4 => some (flatSegment 3 false)
        | _ => none := by
  obtain ⟨exceptions, devices⟩ := kernel_tables_held link system
  have kept : Kept ⟨link.gdtEntries, 8 * 5⟩ (gdtInit link system).memory
      (kernelTables link system).memory :=
    kept_trans exceptions.kept (devices.kept _ (link_apart link).2.1)
  have read (index : Nat) (entry : GdtEntry) (listed : gdtTable[index]? = some entry)
      (inside : 8 * index + 8 ≤ 8 * 5) :
      readBytes (kernelTables link system).memory (above link.gdtEntries (8 * index)) 8 =
        entryBytes entry :=
    (read_kept kept inside).trans ((gdt_init_held link system).entries index entry listed)
  have limit : (8 * 5 - 1 : BitVec 16).toNat = 39 := by decide
  rw [segmentOf, (kernel_tables_loaded link system).1]
  simp only [limit]
  split
  · rfl
  · generalize selector.toNat / 8 = index
    match index with
    | 0 =>
        rw [read 0 _ rfl (by decide)]
        decide
    | 1 =>
        rw [read 1 _ rfl (by decide)]
        decide
    | 2 =>
        rw [read 2 _ rfl (by decide)]
        decide
    | 3 =>
        rw [read 3 _ rfl (by decide)]
        decide
    | 4 =>
        rw [read 4 _ rfl (by decide)]
        decide
    | index + 5 =>
        rw [if_neg (by omega)]
        rfl

theorem kernel_cs_segment (system : System) :
    segmentOf (kernelTables link system) kernelCs = some (flatSegment 0 true) := by
  rw [kernel_segment]
  rfl

theorem gdt_init_selectors (system : System) :
    (gdtInit link system).cpu.cs = kernelCs ∧ (gdtInit link system).ss = 0x10 ∧
      ∀ segment, (gdtInit link system).cpu.segment segment = 0x10 := by
  rw [gdtInit]
  exact gdt_flush_selectors _ _

theorem with_memory_segment (system : System) (memory : Memory) (segment : Segment) :
    (system.withMemory memory).cpu.segment segment = system.cpu.segment segment := by
  cases segment <;> rfl

theorem idt_held_selectors {after : System} (held : IdtHeld link system after) :
    after.cpu.cs = system.cpu.cs ∧ after.ss = system.ss ∧
      ∀ segment, after.cpu.segment segment = system.cpu.segment segment := by
  rw [held.same]
  exact ⟨rfl, rfl, with_memory_segment system after.memory⟩

theorem descriptors_set_selectors {after : System} {first count : Nat} {isr : Nat → Word}
    (set : DescriptorsSet link system after first count isr) :
    after.cpu.cs = system.cpu.cs ∧ after.ss = system.ss ∧
      ∀ segment, after.cpu.segment segment = system.cpu.segment segment := by
  rw [set.same]
  exact ⟨rfl, rfl, with_memory_segment system after.memory⟩

theorem kernel_selectors (system : System) :
    (kernelTables link system).cpu.cs = kernelCs ∧ (kernelTables link system).ss = 0x10 ∧
      ∀ segment, (kernelTables link system).cpu.segment segment = 0x10 := by
  obtain ⟨exceptions, devices⟩ := kernel_tables_held link system
  obtain ⟨code, stack, data⟩ := gdt_init_selectors link system
  obtain ⟨codeKept, stackKept, dataKept⟩ := idt_held_selectors link exceptions
  obtain ⟨codeSame, stackSame, dataSame⟩ := descriptors_set_selectors link devices
  refine ⟨?_, ?_, fun segment => ?_⟩
  · rw [codeSame, codeKept, code]
  · rw [stackSame, stackKept, stack]
  · rw [dataSame, dataKept, data]

/-- After `gdt_init`, `idt_init` and `irq_init`, whatever memory and the registers held
before: what the processor finds for every vector and for every selector, and the
segments that its own registers name. -/
theorem tables_complete (system : System) :
    (∀ vector : UInt8, gateOf (kernelTables link system) vector =
      if vector.toNat < 32 then
        some { target := link.isrStubTable vector.toNat, selector := kernelCs, privilege := 0 }
      else if vector.toNat < 48 then
        some { target := link.irqStubTable (vector.toNat - 32), selector := kernelCs, privilege := 0 }
      else none) ∧
    (∀ selector : Selector, segmentOf (kernelTables link system) selector =
      if selector.getLsbD 2 then none
      else match selector.toNat / 8 with
        | 1 => some (flatSegment 0 true)
        | 2 => some (flatSegment 0 false)
        | 3 => some (flatSegment 3 true)
        | 4 => some (flatSegment 3 false)
        | _ => none) ∧
    segmentOf (kernelTables link system) (kernelTables link system).cpu.cs =
      some (flatSegment 0 true) ∧
    segmentOf (kernelTables link system) (kernelTables link system).ss =
      some (flatSegment 0 false) ∧
    ∀ segment, segmentOf (kernelTables link system)
      ((kernelTables link system).cpu.segment segment) = some (flatSegment 0 false) := by
  obtain ⟨code, stack, data⟩ := kernel_selectors link system
  refine ⟨kernel_gate link system, kernel_segment link system, ?_, ?_, fun segment => ?_⟩
  · rw [code]
    exact kernel_cs_segment link system
  · rw [stack, kernel_segment]
    rfl
  · rw [data, kernel_segment]
    rfl

end Stores

end SimplyOs.InterruptTables
