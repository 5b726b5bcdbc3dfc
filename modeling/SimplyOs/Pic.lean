import SimplyOs.Library.ByteBitmap

/-!
# The interrupt controllers

Transcription of `pic.c` over two cascaded 8259A chips. After a first
initialization word on its command port, a chip takes the following words of its
data port for the rest of the initialization, and then for its interrupt mask.
-/

namespace SimplyOs.Pic

open SimplyOs.Library.ByteBitmap

set_option autoImplicit false

/-! ## The chips -/

/-- What a chip takes the next word on its data port for. -/
inductive DataWord where
  | icw2
  | icw3
  | icw4
  | mask
  deriving DecidableEq, Repr

structure Chip where
  expects : DataWord
  single : Bool
  needsIcw4 : Bool
  /-- The vector of its line 0. -/
  icw2 : UInt8
  /-- The lines of a master that have a slave, or the number of a slave. -/
  icw3 : UInt8
  icw4 : UInt8
  imr : UInt8

/-- Bit 4 of a command starts the initialization, which clears the mask. -/
def Chip.writeCommand (chip : Chip) (value : UInt8) : Chip :=
  if hasBit value 4 then
    { chip with expects := .icw2, single := hasBit value 1, needsIcw4 := hasBit value 0, imr := 0 }
  else chip

def Chip.afterIcw3 (chip : Chip) : DataWord := if chip.needsIcw4 then .icw4 else .mask

def Chip.writeData (chip : Chip) (value : UInt8) : Chip :=
  match chip.expects with
  | .icw2 =>
      { chip with icw2 := value, expects := if chip.single then chip.afterIcw3 else .icw3 }
  | .icw3 => { chip with icw3 := value, expects := chip.afterIcw3 }
  | .icw4 => { chip with icw4 := value, expects := .mask }
  | .mask => { chip with imr := value }

/-- `other` is what the remaining ports read. -/
structure Ports where
  master : Chip
  slave : Chip
  other : Nat → UInt8

/-! ## The driver -/

def pic1Command : Nat := 0x20

def pic1Data : Nat := 0x21

def pic2Command : Nat := 0xA0

def pic2Data : Nat := 0xA1

def pic1Offset : UInt8 := 0x20

def pic2Offset : UInt8 := 0x28

def icw1Init : UInt8 := 0x10

def icw1Icw4 : UInt8 := 0x01

def icw48086 : UInt8 := 0x01

def picEoi : UInt8 := 0x20

def outb (ports : Ports) (port : Nat) (val : UInt8) : Ports :=
  if port = pic1Command then { ports with master := ports.master.writeCommand val }
  else if port = pic1Data then { ports with master := ports.master.writeData val }
  else if port = pic2Command then { ports with slave := ports.slave.writeCommand val }
  else if port = pic2Data then { ports with slave := ports.slave.writeData val }
  else ports

def inb (ports : Ports) (port : Nat) : UInt8 :=
  if port = pic1Data then ports.master.imr
  else if port = pic2Data then ports.slave.imr
  else ports.other port

def ioWait (ports : Ports) : Ports := outb ports 0x80 0

def picMaskPort (irq : Nat) : Nat := if irq < 8 then pic1Data else pic2Data

def picIrqLine (irq : Nat) : Nat := if irq < 8 then irq else irq - 8

def picInit (ports : Ports) : Ports :=
  let ports := ioWait (outb ports pic1Command (icw1Init ||| icw1Icw4))
  let ports := ioWait (outb ports pic2Command (icw1Init ||| icw1Icw4))
  let ports := ioWait (outb ports pic1Data pic1Offset)
  let ports := ioWait (outb ports pic2Data pic2Offset)
  let ports := ioWait (outb ports pic1Data 4)
  let ports := ioWait (outb ports pic2Data 2)
  let ports := ioWait (outb ports pic1Data icw48086)
  let ports := ioWait (outb ports pic2Data icw48086)
  let ports := outb ports pic1Data 0xFF
  outb ports pic2Data 0xFF

def picSendEoi (ports : Ports) (irq : Nat) : Ports :=
  let ports := if irq ≥ 8 then outb ports pic2Command picEoi else ports
  outb ports pic1Command picEoi

def picMask (ports : Ports) (irq : Nat) : Ports :=
  let port := picMaskPort irq
  let line := picIrqLine irq
  outb ports port (inb ports port ||| bitMask line)

def picUnmask (ports : Ports) (irq : Nat) : Ports :=
  let port := picMaskPort irq
  let line := picIrqLine irq
  outb ports port (inb ports port &&& ~~~bitMask line)

/-! ## Runs of mask calls -/

inductive PicCall where
  | mask (irq : Fin 16)
  | unmask (irq : Fin 16)
  deriving DecidableEq, Repr

def PicCall.irq : PicCall → Fin 16
  | .mask irq => irq
  | .unmask irq => irq

def PicCall.masks : PicCall → Bool
  | .mask _ => true
  | .unmask _ => false

def picCall (ports : Ports) : PicCall → Ports
  | .mask irq => picMask ports irq
  | .unmask irq => picUnmask ports irq

def picCalls (ports : Ports) (calls : List PicCall) : Ports := calls.foldl picCall ports

/-! ## Lines that reach the CPU -/

def lineChip (ports : Ports) (line : Fin 16) : Chip :=
  if line.val < 8 then ports.master else ports.slave

def masked (ports : Ports) (line : Fin 16) : Bool :=
  hasBit (lineChip ports line).imr (line.val % 8)

def cascadeLine (ports : Ports) : Nat := ports.slave.icw3.toNat % 8

/-- A line of the slave passes the master on the cascade line. -/
def reachesCpu (ports : Ports) (line : Fin 16) : Bool :=
  !masked ports line &&
    (decide (line.val < 8) ||
      (hasBit ports.master.icw3 (cascadeLine ports) &&
        !hasBit ports.master.imr (cascadeLine ports)))

end SimplyOs.Pic
