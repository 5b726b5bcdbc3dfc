import SimplyOs.Word

/-!
# The keyboard driver

Transcription of `kernel/arch/i386/drivers/keyboard.c`. `accepted` is not in the
source: it lists the characters that `kbd_buffer_push` has stored, the first one
first. `keyboard_getchar` and `keyboard_has_key` are cut at every access to shared
data and at every `cli`, `sti` and `hlt`; an interrupt handler runs as a whole
between two such steps, and only while interrupts are enabled.
-/

namespace SimplyOs.Keyboard

open SimplyOs.Word

set_option autoImplicit false

def kbdBufSize : Nat := 256

def scancodeLshift : UInt8 := 0x2A

def scancodeRshift : UInt8 := 0x36

def scancodeCaps : UInt8 := 0x3A

def scancodeLctrl : UInt8 := 0x1D

def scancodeLalt : UInt8 := 0x38

def scancodeExt : UInt8 := 0xE0

/-- `scancode_ascii`, without the zeros at its end. -/
def scancodeAscii : List UInt8 :=
  [0, 27] ++ ['1', '2', '3', '4', '5', '6', '7', '8', '9', '0', '-', '='].map Char.toUInt8 ++
  [0x08, 0x09] ++
  ['q', 'w', 'e', 'r', 't', 'y', 'u', 'i', 'o', 'p', '[', ']'].map Char.toUInt8 ++
  [0x0A, 0] ++ ['a', 's', 'd', 'f', 'g', 'h', 'j', 'k', 'l', ';'].map Char.toUInt8 ++
  [0x27, 0x60, 0, 0x5C] ++
  ['z', 'x', 'c', 'v', 'b', 'n', 'm', ',', '.', '/'].map Char.toUInt8 ++ [0, 0x2A, 0, 0x20]

/-- `scancode_ascii_shift`, without the zeros at its end. -/
def scancodeAsciiShift : List UInt8 :=
  [0, 27] ++ ['!', '@', '#', '$', '%', '^', '&', '*', '(', ')', '_', '+'].map Char.toUInt8 ++
  [0x08, 0x09] ++
  ['Q', 'W', 'E', 'R', 'T', 'Y', 'U', 'I', 'O', 'P', '\x7b', '\x7d'].map Char.toUInt8 ++
  [0x0A, 0] ++ ['A', 'S', 'D', 'F', 'G', 'H', 'J', 'K', 'L', ':'].map Char.toUInt8 ++
  [0x22, 0x7E, 0, 0x7C] ++
  ['Z', 'X', 'C', 'V', 'B', 'N', 'M', '<', '>', '?'].map Char.toUInt8 ++ [0, 0x2A, 0, 0x20]

structure KeyboardState where
  kbdBuffer : Nat → UInt8
  kbdReadPos : Nat
  kbdWritePos : Nat
  leftShift : Bool
  rightShift : Bool
  capsLock : Bool
  extended : Bool
  accepted : List UInt8

def isLetterScancode (scancode : UInt8) : Bool :=
  (0x10 ≤ scancode && scancode ≤ 0x19) || (0x1E ≤ scancode && scancode ≤ 0x26) ||
    (0x2C ≤ scancode && scancode ≤ 0x32)

def scancodeToAscii (keyboard : KeyboardState) (scancode : UInt8) : UInt8 :=
  let shift := keyboard.leftShift || keyboard.rightShift
  if 128 ≤ scancode then 0
  else
    let table :=
      if isLetterScancode scancode then
        if shift ^^ keyboard.capsLock then scancodeAsciiShift else scancodeAscii
      else if shift then scancodeAsciiShift
      else scancodeAscii
    table.getD scancode.toNat 0

def nextPos (pos : Nat) : Nat := add32 pos 1 % kbdBufSize

def pushRejected (keyboard : KeyboardState) : Bool :=
  nextPos keyboard.kbdWritePos == keyboard.kbdReadPos

def kbdBufferPush (keyboard : KeyboardState) (c : UInt8) : KeyboardState :=
  if pushRejected keyboard then keyboard
  else
    { keyboard with
      kbdBuffer := fun place =>
        if place = keyboard.kbdWritePos then c else keyboard.kbdBuffer place
      kbdWritePos := nextPos keyboard.kbdWritePos
      accepted := keyboard.accepted ++ [c] }

/-- `scancode` is the byte that `inb(KBD_DATA_PORT)` returns. -/
def keyboardIrqHandler (keyboard : KeyboardState) (scancode : UInt8) : KeyboardState :=
  if scancode = scancodeExt then { keyboard with extended := true }
  else if scancode &&& 0x80 ≠ 0 then
    let scancode := scancode &&& 0x7F
    let keyboard :=
      if scancode = scancodeLshift then { keyboard with leftShift := false }
      else if scancode = scancodeRshift then { keyboard with rightShift := false }
      else keyboard
    { keyboard with extended := false }
  else if keyboard.extended then { keyboard with extended := false }
  else if scancode = scancodeLshift then { keyboard with leftShift := true }
  else if scancode = scancodeRshift then { keyboard with rightShift := true }
  else if scancode = scancodeCaps then { keyboard with capsLock := !keyboard.capsLock }
  else if scancode = scancodeLctrl ∨ scancode = scancodeLalt then keyboard
  else
    let c := scancodeToAscii keyboard scancode
    if c ≠ 0 then kbdBufferPush keyboard c else keyboard

/-- Nothing has been accepted when the driver starts. -/
def keyboardInit (keyboard : KeyboardState) : KeyboardState :=
  { keyboard with
    kbdReadPos := 0
    kbdWritePos := 0
    leftShift := false
    rightShift := false
    capsLock := false
    extended := false
    accepted := [] }

def keyboardHasKey (keyboard : KeyboardState) : Bool := keyboard.kbdReadPos != keyboard.kbdWritePos

/-! ## The reader and its interrupts -/

inductive ReaderPoint where
  /-- The reader is in neither function. -/
  | outside
  /-- `cli`, at the head of the loop. -/
  | disable
  /-- `if (kbd_read_pos != kbd_write_pos)`. -/
  | test
  /-- `c = kbd_buffer[kbd_read_pos]`. -/
  | load
  /-- `kbd_read_pos = (kbd_read_pos + 1) % KBD_BUF_SIZE`. -/
  | advance (c : UInt8)
  /-- `sti`, with a character. -/
  | enable (c : UInt8)
  /-- `return c`. -/
  | leave (c : UInt8)
  /-- `sti`, without a character. -/
  | enableEmpty
  /-- `hlt`. -/
  | halt
  /-- The processor waits for an interrupt. -/
  | halted
  /-- `keyboard_has_key` reads `kbd_read_pos`. -/
  | hasKey
  /-- `keyboard_has_key` compares what it has read with `kbd_write_pos`. -/
  | compare (readPos : Nat)
  /-- `keyboard_has_key` returns. -/
  | answer (found : Bool)
  deriving DecidableEq, Repr

/-- `returned` lists the results of `keyboard_getchar`, the first one first. -/
structure Machine where
  keyboard : KeyboardState
  interrupts : Bool
  point : ReaderPoint
  returned : List UInt8

def readerStep (machine : Machine) : Option Machine :=
  let keyboard := machine.keyboard
  match machine.point with
  | .outside => none
  | .disable => some { machine with interrupts := false, point := .test }
  | .test =>
      if keyboard.kbdReadPos ≠ keyboard.kbdWritePos then some { machine with point := .load }
      else some { machine with point := .enableEmpty }
  | .load => some { machine with point := .advance (keyboard.kbdBuffer keyboard.kbdReadPos) }
  | .advance c =>
      some { machine with
        keyboard := { keyboard with kbdReadPos := nextPos keyboard.kbdReadPos }
        point := .enable c }
  | .enable c => some { machine with interrupts := true, point := .leave c }
  | .leave c => some { machine with returned := machine.returned ++ [c], point := .outside }
  | .enableEmpty => some { machine with interrupts := true, point := .halt }
  | .halt => some { machine with point := .halted }
  | .halted => none
  | .hasKey => some { machine with point := .compare keyboard.kbdReadPos }
  | .compare readPos =>
      some { machine with point := .answer (readPos != keyboard.kbdWritePos) }
  | .answer _ => some { machine with point := .outside }

/-- An interrupt ends a `hlt`; the loop starts again. -/
def wake : ReaderPoint → ReaderPoint
  | .halted => .disable
  | point => point

inductive Event where
  | keyboardInterrupt (scancode : UInt8)
  | otherInterrupt
  | setInterrupts (enabled : Bool)
  | callGetchar
  | callHasKey
  | reader

/-- The calls and `setInterrupts` belong to the code around the reader's calls. -/
def machineStep (machine : Machine) : Event → Option Machine
  | .keyboardInterrupt scancode =>
      if machine.interrupts then
        some { machine with
          keyboard := keyboardIrqHandler machine.keyboard scancode
          point := wake machine.point }
      else none
  | .otherInterrupt =>
      if machine.interrupts then some { machine with point := wake machine.point } else none
  | .setInterrupts enabled =>
      if machine.point = .outside then some { machine with interrupts := enabled } else none
  | .callGetchar =>
      if machine.point = .outside then some { machine with point := .disable } else none
  | .callHasKey =>
      if machine.point = .outside then some { machine with point := .hasKey } else none
  | .reader => readerStep machine

end SimplyOs.Keyboard
