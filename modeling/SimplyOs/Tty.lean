import SimplyOs.Word

/-!
# The text terminal

Transcription of `kernel/arch/i386/tty.c` and of the entry format in `vga.h`. The
screen is the memory behind `terminal_buffer`, one 16-bit entry for each index;
an index may lie outside the screen, so the model keeps every index. `written`
is not in the source: it lists the indices stored to, the latest first. Of the
memory behind `terminal_buffer` only one page is mapped, so a call returns what
`terminalReturns` says, and the first store behind the page is a page fault. Ports
0x3D4 and 0x3D5 select and access a register of the CRT controller.
-/

namespace SimplyOs.Tty

open SimplyOs.Word

set_option autoImplicit false

def vgaWidth : Nat := 80

def vgaHeight : Nat := 25

def tabWidth : Nat := 8

def vgaCrtcIndex : Nat := 0x3D4

def vgaCrtcData : Nat := 0x3D5

def vgaColorBlack : UInt8 := 0

def vgaColorLightGrey : UInt8 := 7

def vgaEntryColor (fg bg : UInt8) : UInt8 := fg ||| (bg <<< 4)

def vgaEntry (uc color : UInt8) : UInt16 := uc.toUInt16 ||| (color.toUInt16 <<< 8)

/-- The CRT controller: the selected register and the contents of all. -/
structure Crtc where
  selected : UInt8
  registers : UInt8 → UInt8

def outb (crtc : Crtc) (port : Nat) (value : UInt8) : Crtc :=
  if port = vgaCrtcIndex then { crtc with selected := value }
  else if port = vgaCrtcData then
    { crtc with registers := fun register =>
        if register = crtc.selected then value else crtc.registers register }
  else crtc

def inbData (crtc : Crtc) : UInt8 := crtc.registers crtc.selected

structure Terminal where
  row : Nat
  column : Nat
  color : UInt8
  buffer : Nat → UInt16
  written : List Nat
  crtc : Crtc

def storeEntry (terminal : Terminal) (index : Nat) (entry : UInt16) : Terminal :=
  { terminal with
    buffer := fun place => if place = index then entry else terminal.buffer place
    written := index :: terminal.written }

/-- The entries of the page 0xC03FF000; `boot.S` maps no page behind it. -/
def mappedEntries : Nat := 2048

def TextMapped (terminal : Terminal) : Prop := ∀ index ∈ terminal.written, index < mappedEntries

instance : DecidablePred TextMapped := fun terminal =>
  inferInstanceAs (Decidable (∀ index ∈ terminal.written, index < mappedEntries))

/-- The terminal that a call leaves behind, if no store of it has faulted. -/
def terminalReturns (terminal : Terminal) : Option Terminal :=
  if TextMapped terminal then some terminal else none

def cellIndex (x y : Nat) : Nat := add32 (y * vgaWidth) x

def terminalSyncCursor (terminal : Terminal) : Terminal :=
  let pos := (terminal.row * vgaWidth + terminal.column) % 2 ^ 16
  let crtc := outb terminal.crtc vgaCrtcIndex 0x0F
  let crtc := outb crtc vgaCrtcData (UInt8.ofNat (pos % 256))
  let crtc := outb crtc vgaCrtcIndex 0x0E
  { terminal with crtc := outb crtc vgaCrtcData (UInt8.ofNat (pos / 256)) }

def terminalEnableHwCursor (terminal : Terminal) : Terminal :=
  let crtc := outb terminal.crtc vgaCrtcIndex 0x0A
  let crtc := outb crtc vgaCrtcData (inbData crtc &&& 0xC0 ||| 0)
  let crtc := outb crtc vgaCrtcIndex 0x0B
  { terminal with crtc := outb crtc vgaCrtcData (inbData crtc &&& 0xE0 ||| 15) }

def scrollRow (terminal : Terminal) (y : Nat) : Terminal :=
  (List.range vgaWidth).foldl
    (fun terminal x =>
      storeEntry terminal (cellIndex x (y - 1)) (terminal.buffer (cellIndex x y))) terminal

def blankRow (terminal : Terminal) (y : Nat) : Terminal :=
  (List.range vgaWidth).foldl
    (fun terminal x => storeEntry terminal (cellIndex x y) (vgaEntry 0x20 terminal.color))
    terminal

def terminalScroll (terminal : Terminal) : Terminal :=
  let terminal :=
    (List.range (vgaHeight - 1)).foldl (fun terminal y => scrollRow terminal (y + 1)) terminal
  let terminal := blankRow terminal (vgaHeight - 1)
  if terminal.row > 0 then { terminal with row := terminal.row - 1 } else terminal

def terminalNewline (terminal : Terminal) : Terminal :=
  let terminal := { terminal with column := 0, row := add32 terminal.row 1 }
  if terminal.row ≥ vgaHeight then terminalScroll terminal else terminal

def blankScreen (terminal : Terminal) : Terminal :=
  (List.range vgaHeight).foldl blankRow terminal

def terminalInitialize (terminal : Terminal) : Terminal :=
  let terminal := { terminal with
    row := 0
    column := 0
    color := vgaEntryColor vgaColorLightGrey vgaColorBlack }
  terminalSyncCursor (terminalEnableHwCursor (blankScreen terminal))

def terminalSetcolor (terminal : Terminal) (color : UInt8) : Terminal :=
  { terminal with color := color }

def terminalPutentryat (terminal : Terminal) (c color : UInt8) (x y : Nat) : Terminal :=
  storeEntry terminal (cellIndex x y) (vgaEntry c color)

/-- `terminal_putentryat` at the cursor, and the step to the right that follows. -/
def putAtCursor (terminal : Terminal) (uc : UInt8) : Terminal :=
  let terminal := terminalPutentryat terminal uc terminal.color terminal.column terminal.row
  { terminal with column := add32 terminal.column 1 }

/-- The loop of a tab; one round less than `TAB_WIDTH` is the most it makes. -/
def terminalTab : Nat → Terminal → Terminal
  | 0, terminal => terminal
  | fuel + 1, terminal =>
      if terminal.column < vgaWidth ∧ terminal.column % tabWidth ≠ 0 then
        terminalTab fuel (putAtCursor terminal 0x20)
      else terminal

def terminalPutchar (terminal : Terminal) (uc : UInt8) : Terminal :=
  if uc = 0x0A then terminalSyncCursor (terminalNewline terminal)
  else if uc = 0x0D then terminalSyncCursor { terminal with column := 0 }
  else if uc = 0x08 then
    terminalSyncCursor
      (if terminal.column > 0 then
        let terminal := { terminal with column := terminal.column - 1 }
        terminalPutentryat terminal 0x20 terminal.color terminal.column terminal.row
      else terminal)
  else if uc = 0x09 then terminalSyncCursor (terminalTab tabWidth terminal)
  else if uc = 27 then terminal
  else
    let terminal := putAtCursor terminal uc
    terminalSyncCursor (if terminal.column = vgaWidth then terminalNewline terminal else terminal)

/-- `data` holds the `size` bytes of the call. -/
def terminalWrite (terminal : Terminal) (data : List UInt8) : Terminal :=
  data.foldl terminalPutchar terminal

/-- `data` is the memory from the pointer on; `strlen` stops at the first NUL. -/
def terminalWritestring (terminal : Terminal) (data : List UInt8) : Terminal :=
  terminalWrite terminal (data.takeWhile fun byte => byte != 0)

end SimplyOs.Tty
