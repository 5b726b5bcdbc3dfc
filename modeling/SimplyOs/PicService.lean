import SimplyOs.PicMasks
import SimplyOs.Library.PriorityLines
import SimplyOs.Library.Transition

/-!
# Interrupts in service

The cascaded chips with their request and service bits, as the driver programs them:
edges are latched, priorities are fixed, and an end of interrupt is a command. The
processor answers an interrupt with interrupts disabled by the gate, runs the handler,
and returns. A request can vanish before it is answered; the answer is then the last
line of its chip, without a service bit. `accepted`, `dropped` and `delivered` are not
in the source: they list the edges that set a request, the requests that vanished and
those that were answered, the first one first.
-/

namespace SimplyOs.PicService

open SimplyOs.Pic SimplyOs.PicMasks
open SimplyOs.Library.ByteBitmap SimplyOs.Library.PriorityLines SimplyOs.Library.Transition

set_option autoImplicit false

/-! ## The chips behind the ports -/

structure PicState where
  ports : Ports
  master : Lines 8
  slave : Lines 8

/-- The effect of a command on the lines; of the commands behind the initialization the
driver sends one. -/
def commandLines (lines : Lines 8) (value : UInt8) : Lines 8 :=
  if hasBit value 4 then Lines.reset else if value = picEoi then lines.endService else lines

def picOutb (pic : PicState) (port : Nat) (val : UInt8) : PicState where
  ports := outb pic.ports port val
  master := if port = pic1Command then commandLines pic.master val else pic.master
  slave := if port = pic2Command then commandLines pic.slave val else pic.slave

/-- Writes to ports, the first one first. -/
def picWrites (pic : PicState) (writes : List (Nat × UInt8)) : PicState :=
  writes.foldl (fun pic write => picOutb pic write.1 write.2) pic

def initWrites : List (Nat × UInt8) :=
  [(pic1Command, icw1Init ||| icw1Icw4), (0x80, 0), (pic2Command, icw1Init ||| icw1Icw4), (0x80, 0),
    (pic1Data, pic1Offset), (0x80, 0), (pic2Data, pic2Offset), (0x80, 0),
    (pic1Data, 4), (0x80, 0), (pic2Data, 2), (0x80, 0),
    (pic1Data, icw48086), (0x80, 0), (pic2Data, icw48086), (0x80, 0),
    (pic1Data, 0xFF), (pic2Data, 0xFF)]

def eoiWrites (irq : Nat) : List (Nat × UInt8) :=
  (if irq ≥ 8 then [(pic2Command, picEoi)] else []) ++ [(pic1Command, picEoi)]

def callWrites (ports : Ports) : PicCall → List (Nat × UInt8)
  | .mask irq =>
      [(picMaskPort irq, inb ports (picMaskPort irq) ||| bitMask (picIrqLine irq))]
  | .unmask irq =>
      [(picMaskPort irq, inb ports (picMaskPort irq) &&& ~~~bitMask (picIrqLine irq))]

theorem init_writes_ports (pic : PicState) :
    (picWrites pic initWrites).ports = picInit pic.ports := rfl

theorem eoi_writes_ports (pic : PicState) (irq : Nat) :
    (picWrites pic (eoiWrites irq)).ports = picSendEoi pic.ports irq := by
  unfold eoiWrites picSendEoi
  split <;> rfl

theorem call_writes_ports (pic : PicState) (call : PicCall) :
    (picWrites pic (callWrites pic.ports call)).ports = picCall pic.ports call := by
  cases call <;> rfl

/-! ## Requests -/

def chipMask (chip : Chip) (line : Fin 8) : Bool := hasBit chip.imr line

def slaveAsks (pic : PicState) : Bool := (pic.slave.candidate (chipMask pic.ports.slave)).isSome

def hasSlave (pic : PicState) (line : Fin 8) : Bool := hasBit pic.ports.master.icw3 line

/-- The master's lines: one that has a slave asks while the slave does. -/
def masterLines (pic : PicState) : Lines 8 :=
  { pic.master with
    request := fun line => if hasSlave pic line then slaveAsks pic else pic.master.request line }

/-- The line for which the master asks the processor. -/
def masterCandidate (pic : PicState) : Option (Fin 8) :=
  (masterLines pic).candidate (chipMask pic.ports.master)

def place (line : Fin 16) : Fin 8 := ⟨line.val % 8, Nat.mod_lt _ (by decide)⟩

def masterLine (line : Fin 8) : Fin 16 := ⟨line.val, by omega⟩

def slaveOf (line : Fin 8) : Fin 16 := ⟨8 + line.val, by omega⟩

def asks (pic : PicState) (line : Fin 16) : Bool :=
  if line.val < 8 then pic.master.request (place line) else pic.slave.request (place line)

def raiseLine (pic : PicState) (line : Fin 16) : PicState :=
  if line.val < 8 then { pic with master := pic.master.raise (place line) }
  else { pic with slave := pic.slave.raise (place line) }

def dropLine (pic : PicState) (line : Fin 16) : PicState :=
  if line.val < 8 then { pic with master := pic.master.drop (place line) }
  else { pic with slave := pic.slave.drop (place line) }

/-! ## Runs -/

/-- What the processor does with an interrupt. -/
inductive Phase where
  /-- Interrupts are not being handled. -/
  | idle
  /-- The master has answered for the slave, and the slave has not answered yet. -/
  | cascade
  /-- In front of the handler of a line. -/
  | entered (irq : Fin 16)
  /-- In front of `pic_send_eoi`. -/
  | handled (irq : Fin 16)
  /-- Behind `pic_send_eoi`, in front of the return of the interrupt. -/
  | returning
  deriving DecidableEq, Repr

structure PicRun where
  pic : PicState
  phase : Phase
  accepted : List (Fin 16)
  dropped : List (Fin 16)
  delivered : List (Fin 16)

inductive PicEvent where
  /-- An edge on the line of a device. -/
  | raise (line : Fin 16)
  /-- A request vanishes. -/
  | drop (line : Fin 16)
  | call (call : PicCall)
  | answer
  | answerSlave
  | handle
  | eoi
  | iret

def answer (run : PicRun) : PicRun :=
  match masterCandidate run.pic with
  | none => { run with phase := .entered ⟨7, by decide⟩ }
  | some line =>
      let pic := { run.pic with master := run.pic.master.take line }
      if hasSlave run.pic line then { run with pic := pic, phase := .cascade }
      else
        { run with
          pic := pic
          phase := .entered (masterLine line)
          delivered := run.delivered ++ [masterLine line] }

def answerSlave (run : PicRun) : PicRun :=
  match run.pic.slave.candidate (chipMask run.pic.ports.slave) with
  | none => { run with phase := .entered ⟨15, by decide⟩ }
  | some line =>
      { run with
        pic := { run.pic with slave := run.pic.slave.take line }
        phase := .entered (slaveOf line)
        delivered := run.delivered ++ [slaveOf line] }

def picStep (run : PicRun) : PicEvent → Option PicRun
  | .raise line =>
      if line = slaveLine then none
      else if asks run.pic line then some run
      else some { run with pic := raiseLine run.pic line, accepted := run.accepted ++ [line] }
  | .drop line =>
      if asks run.pic line then
        some { run with pic := dropLine run.pic line, dropped := run.dropped ++ [line] }
      else none
  | .call call =>
      if run.phase = .cascade then none
      else some { run with pic := picWrites run.pic (callWrites run.pic.ports call) }
  | .answer => if run.phase = .idle then some (answer run) else none
  | .answerSlave => if run.phase = .cascade then some (answerSlave run) else none
  | .handle =>
      match run.phase with
      | .entered irq => some { run with phase := .handled irq }
      | _ => none
  | .eoi =>
      match run.phase with
      | .handled irq =>
          some { run with pic := picWrites run.pic (eoiWrites irq), phase := .returning }
      | _ => none
  | .iret => if run.phase = .returning then some { run with phase := .idle } else none

/-- Every run from `pic_init` on, whatever the chips held before. -/
def picRuns : System PicRun PicEvent where
  initial run := (∃ before, run.pic = picWrites before initWrites) ∧ run.phase = .idle ∧
    run.accepted = [] ∧ run.dropped = [] ∧ run.delivered = []
  step before event after := picStep before event = some after

end SimplyOs.PicService
