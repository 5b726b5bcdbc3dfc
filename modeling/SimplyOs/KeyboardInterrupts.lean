import SimplyOs.InterruptDispatch
import SimplyOs.KeyboardBuffer

/-!
# The keyboard and its interrupt

The whole way of a scancode: the keyboard, the output buffer of its controller, the
interrupt controllers, the handler of the driver, and the code that reads characters.
The controller takes the next byte when its output buffer is empty, and the line of the
keyboard rises; a read of the data port empties the buffer. The processor answers an
interrupt while they are enabled and not right behind an `sti`, and the gate disables
them until the return. `typed` and `processed` are not in the source: they list the
bytes that the keyboard has sent since `pic_init` and those that the handler has read.
-/

namespace SimplyOs.KeyboardInterrupts

open SimplyOs.Keyboard SimplyOs.Pic SimplyOs.PicService SimplyOs.InterruptDispatch
open SimplyOs.Interrupts (Registers)
open SimplyOs.Library.Transition

set_option autoImplicit false

def kbdIrq : Fin 16 := ⟨1, by decide⟩

/-- The output buffer of the controller, and the bytes that the keyboard still holds. -/
structure Controller where
  full : Bool
  data : UInt8
  waiting : List UInt8

def inbData (controller : Controller) : UInt8 × Controller :=
  (controller.data, { controller with full := false })

abbrev World := Controller × KeyboardState

/-- `keyboard_irq_handler`, with its access to the port. -/
def keyboardCallback : IrqCallback World := fun _ world =>
  let (scancode, controller) := inbData world.1
  (controller, keyboardIrqHandler world.2 scancode)

/-- The call of a handler from `irq_handler`, in front of `pic_send_eoi`. -/
def callHandler (handlers : IrqHandlers World) (irq : Fin 16) (regs : Registers) (world : World) :
    World :=
  (handlers irq).elim world fun handler => handler regs world

structure KernelRun where
  pics : PicRun
  controller : Controller
  handlers : IrqHandlers World
  /-- Whether `keyboard_init` has returned. -/
  started : Bool
  machine : Machine
  typed : List UInt8
  processed : List UInt8

inductive KernelEvent where
  /-- The keyboard sends a byte. -/
  | press (scancode : UInt8)
  /-- The controller fills its output buffer. -/
  | transfer
  /-- The line of another device. -/
  | raise (line : Fin 16)
  | drop (line : Fin 16)
  | keyboardInit
  | answer
  | answerSlave
  | handle (regs : Registers)
  | eoi
  | iret
  /-- A step of the interrupted program. -/
  | program (event : Event)

def withPics (run : KernelRun) (pics : PicRun) : KernelRun := { run with pics := pics }

def programStep (machine : Machine) : Event → Option Machine
  | .keyboardInterrupt _ => none
  | .otherInterrupt => none
  | event => machineStep machine event

def kernelStep (run : KernelRun) : KernelEvent → Option KernelRun
  | .press scancode =>
      some { run with
        controller := { run.controller with waiting := run.controller.waiting ++ [scancode] }
        typed := run.typed ++ [scancode] }
  | .transfer =>
      match run.controller.full, run.controller.waiting with
      | false, scancode :: rest =>
          (picStep run.pics (.raise kbdIrq)).map fun pics =>
            { run with pics := pics, controller := ⟨true, scancode, rest⟩ }
      | _, _ => none
  | .raise line =>
      if line = kbdIrq then none else (picStep run.pics (.raise line)).map (withPics run)
  | .drop line =>
      if line = kbdIrq then none else (picStep run.pics (.drop line)).map (withPics run)
  | .keyboardInit =>
      if run.started then none
      else
        (picStep run.pics (.call (.unmask kbdIrq))).map fun pics =>
          { run with
            pics := pics
            handlers := irqRegister run.handlers 1 (some keyboardCallback)
            started := true
            machine := { run.machine with keyboard := keyboardInit run.machine.keyboard } }
  | .answer =>
      if run.machine.interrupts = true ∧ run.machine.point ≠ .halt then
        (picStep run.pics .answer).map fun pics =>
          { run with
            pics := pics
            machine := { run.machine with point := wake run.machine.point } }
      else none
  | .answerSlave => (picStep run.pics .answerSlave).map (withPics run)
  | .handle regs =>
      match run.pics.phase with
      | .entered irq =>
          (picStep run.pics .handle).map fun pics =>
            let world := callHandler run.handlers irq regs (run.controller, run.machine.keyboard)
            { run with
              pics := pics
              controller := world.1
              machine := { run.machine with keyboard := world.2 }
              processed :=
                if irq = kbdIrq then run.processed ++ [run.controller.data] else run.processed }
      | _ => none
  | .eoi => (picStep run.pics .eoi).map (withPics run)
  | .iret => (picStep run.pics .iret).map (withPics run)
  | .program event =>
      if run.started = true ∧ run.pics.phase = .idle then
        (programStep run.machine event).map fun machine => { run with machine := machine }
      else none

/-- The kernel right behind `pic_init`, with interrupts disabled. -/
structure Booted (full : Bool) (run : KernelRun) : Prop where
  pics : picRuns.initial run.pics
  full : run.controller.full = full
  handlers : run.handlers = fun _ => none
  started : run.started = false
  interrupts : run.machine.interrupts = false
  point : run.machine.point = .outside
  returned : run.machine.returned = []
  typed : run.typed = run.controller.waiting
  processed : run.processed = []

/-- Every run from `pic_init` on; `full` says whether the output buffer held a byte. -/
def kernelRuns (full : Bool) : System KernelRun KernelEvent where
  initial := Booted full
  step before event after := kernelStep before event = some after

end SimplyOs.KeyboardInterrupts
