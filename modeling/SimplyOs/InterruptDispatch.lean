import SimplyOs.InterruptFrames
import SimplyOs.InterruptTables
import SimplyOs.Library.LastWriter
import SimplyOs.PicPriority

/-!
# From a line to its handler

Transcription of `irq_register` and `irq_handler`, and the way of an interrupt: the
chip puts a vector on the bus, the processor goes through its gate into the stub of the
line, and `irq_handler` calls what was registered for the line and ends the interrupt
of the same line.
-/

namespace SimplyOs.InterruptDispatch

open SimplyOs.Interrupts SimplyOs.InterruptFrames SimplyOs.InterruptTables
open SimplyOs.Pic SimplyOs.PicMasks SimplyOs.PicService SimplyOs.PicServiceRuns
open SimplyOs.PicPriority
open SimplyOs.Library.LastWriter SimplyOs.Library.Transition SimplyOs.Library.WordStack

set_option autoImplicit false

/-! ## `irq.c` -/

section Handlers

variable {World : Type}

/-- `irq_handler_t`, as what a call does to all that it reaches. -/
abbrev IrqCallback (World : Type) := Registers → World → World

/-- `irq_handlers`; `none` is the null pointer. -/
abbrev IrqHandlers (World : Type) := Fin 16 → Option (IrqCallback World)

def irqRegister (handlers : IrqHandlers World) (irq : UInt8) (handler : Option (IrqCallback World)) :
    IrqHandlers World :=
  if inside : irq.toNat < 16 then Function.update handlers ⟨irq.toNat, inside⟩ handler else handlers

/-- The number is cut to a byte; the end of the interrupt is sent in every case. -/
def irqHandler (picSendEoi : Nat → World → World) (handlers : IrqHandlers World) (regs : Registers)
    (world : World) : World :=
  let irq := regs.intNo.toNat % 256
  let called :=
    if inside : irq < 16 then
      match handlers ⟨irq, inside⟩ with
      | some handler => handler regs world
      | none => world
    else world
  picSendEoi irq called

/-- The calls of `irq_register` since boot, the first one first. -/
def registered (calls : List (UInt8 × Option (IrqCallback World))) : IrqHandlers World :=
  calls.foldl (fun handlers call => irqRegister handlers call.1 call.2) fun _ => none

theorem registered_last (calls : List (UInt8 × Option (IrqCallback World))) (line : Fin 16) :
    registered calls line =
      ((lastWriter (fun call => decide (call.1.toNat = line.val)) calls).map Prod.snd).getD none := by
  have places : ∀ handlers : IrqHandlers World,
      calls.foldl (fun handlers call => irqRegister handlers call.1 call.2) handlers line =
        calls.foldl (fun old call => if decide (call.1.toNat = line.val) then call.2 else old)
          (handlers line) := by
    induction calls with
    | nil => exact fun _ => rfl
    | cons call calls ih =>
        intro handlers
        rw [List.foldl_cons, List.foldl_cons, ih]
        congr 1
        unfold irqRegister
        split
        · rename_i inside
          rw [Function.update_apply]
          simp only [Fin.ext_iff, decide_eq_true_eq, @eq_comm Nat call.1.toNat]
        · rename_i outside
          have apart : ¬call.1.toNat = line.val := by omega
          simp only [apart, decide_false, Bool.false_eq_true, if_false]
  rw [registered, places, foldl_last_rule]

theorem irq_handler_line (picSendEoi : Nat → World → World) (handlers : IrqHandlers World)
    {regs : Registers} {irq : Fin 16} (number : regs.intNo = BitVec.ofNat 32 irq.val)
    (world : World) :
    irqHandler picSendEoi handlers regs world =
      picSendEoi irq.val ((handlers irq).elim world fun handler => handler regs world) := by
  have value : regs.intNo.toNat % 256 = irq.val := by
    rw [number, BitVec.toNat_ofNat]
    omega
  have inside : regs.intNo.toNat % 256 < 16 := by omega
  have line : (⟨regs.intNo.toNat % 256, inside⟩ : Fin 16) = irq := Fin.ext value
  simp only [irqHandler, dif_pos inside, line]
  rw [value]
  cases handlers irq <;> rfl

end Handlers

/-! ## The vector on the bus -/

/-- The upper bits are those of the initialization, the lower ones the line of the chip. -/
def busVector (ports : Ports) (irq : Fin 16) : UInt8 :=
  (if irq.val < 8 then ports.master.icw2 else ports.slave.icw2) &&& 0xF8 |||
    UInt8.ofNat (irq.val % 8)

theorem bus_vector_programmed {ports : Ports} (programmed : Programmed ports) (irq : Fin 16) :
    (busVector ports irq).toNat = 32 + irq.val := by
  rw [busVector, programmed.masterVector, programmed.slaveVector]
  revert irq
  decide

/-! ## The whole way -/

/-- Every interrupt that the chips deliver in a run enters, through a present gate into
the flat code segment, the stub of its own line; `irq_handler` calls the handler that
was registered last for the line and ends the interrupt of this line; and the
interrupted program goes on with its registers, flags and segments. -/
theorem interrupt_dispatched {World : Type} {current : PicRun} {irq : Fin 16}
    (reachable : Reachable picRuns current) (entered : current.phase = .entered irq)
    (link : Link) (system : System) (processor : Processor) (returnAddress : Word) (cpu : Cpu)
    (calls : List (UInt8 × Option (IrqCallback World))) (picSendEoi : Nat → World → World)
    (world : World) :
    irq ≠ slaveLine ∧
    ∃ gate stub, gateOf (kernelTables link system) (busVector current.pic.ports irq) = some gate ∧
      gate.target = link.irqStubTable irq.val ∧ irqStubTable[irq.val]? = some stub ∧
      segmentOf (kernelTables link system) gate.selector = some (flatSegment 0 true) ∧
      ∃ called regs,
        run processor returnAddress stub (enterGate processor cpu gate.target none) =
          .calls .irqHandler restoreCode called ∧
        called.word 1 = regs ∧
        irqHandler picSendEoi (registered calls) (registersAt called.memory regs) world =
          picSendEoi irq.val ((((lastWriter (fun call => decide (call.1.toNat = irq.val)) calls).map
            Prod.snd).getD none).elim world fun handler =>
              handler (registersAt called.memory regs) world) ∧
        ∀ returned, HandlerReturned called returned regs →
          run processor returnAddress restoreCode returned =
            .resumes { cpu with memory := returned.memory } := by
  have invariant := pic_run_invariant reachable
  have serving := invariant.serving
  rw [entered] at serving
  have vector := bus_vector_programmed invariant.programmed irq
  have gate := kernel_gate link system (busVector current.pic.ports irq)
  have index : (busVector current.pic.ports irq).toNat - 32 = irq.val := by omega
  rw [if_neg (by omega), if_pos (by omega), index] at gate
  refine ⟨serving_device serving, _, irqStub irq.val, gate, rfl, irq_stub_table_get irq.isLt,
    kernel_cs_segment link system, ?_⟩
  have numbers : [0, BitVec.ofNat 32 irq.val].reverse ++ (none : Option Word).toList =
      [BitVec.ofNat 32 irq.val, 0] := rfl
  obtain ⟨called, regs, stops, _, pointer, reads, _, resumes⟩ :=
    stub_transparent processor returnAddress (link.irqStubTable irq.val) cpu .irqHandler numbers
  refine ⟨called, regs, stops, pointer, ?_, resumes⟩
  rw [irq_handler_line picSendEoi _ reads.intNo, registered_last]

def wholeWords : Processor where
  selectorWord := fun selector _ => selector.setWidth 32
  lowerHalf := fun selector _ => by
    rw [BitVec.setWidth_setWidth_of_le _ (by decide), BitVec.setWidth_eq]
  addFlags := fun eflags _ _ => eflags
  gateFlags := fun eflags => eflags

def stubsInARow : Link where
  isrStubTable := fun vector => BitVec.ofNat 32 (0xC0101000 + 16 * vector)
  irqStubTable := fun irq => BitVec.ofNat 32 (0xC0102000 + 16 * irq)
  gdtEntries := 0xC0104000
  gdtPtr := 0xC0104028
  idt := 0xC0105000
  idtr := 0xC0105800
  apart := by decide

def interruptedCpu : Cpu where
  eax := 1
  ecx := 2
  edx := 3
  ebx := 4
  esp := 0xC0110000
  ebp := 5
  esi := 6
  edi := 7
  ds := 0x10
  es := 0x10
  fs := 0x10
  gs := 0x10
  cs := 0x08
  eip := 0xC0100100
  eflags := 0x202
  memory := fun _ => 0

def interruptedSystem : System where
  cpu := interruptedCpu
  ss := 0x10
  gdtr := ⟨0, 0⟩
  idtr := ⟨0, 0⟩

/-- The keyboard interrupts first, and its handler counts the calls. -/
theorem interrupt_dispatched_keyboard :
    ∃ called regs, run wholeWords 0xC0100000 (irqStub 1) (enterGate wholeWords interruptedCpu 0xC0102010 none) =
        .calls .irqHandler restoreCode called ∧ called.word 1 = regs ∧
      irqHandler (fun _ count => count) (registered [(1, some fun _ count => count + 1)])
        (registersAt called.memory regs) 4 = (5 : Nat) := by
  have answered : Reachable picRuns (answer twoAsk) :=
    @Reachable.next _ _ picRuns _ _ .answer two_ask_reachable rfl
  obtain ⟨_, gate, stub, _, target, table, _, called, regs, calls, pointer, handled, _⟩ :=
    @interrupt_dispatched Nat _ 1 answered rfl stubsInARow interruptedSystem wholeWords 0xC0100000
      interruptedCpu [(1, some fun _ count => count + 1)] (fun _ count => count) 4
  have own : stub = irqStub 1 := (Option.some.inj table).symm
  rw [target, own] at calls
  exact ⟨called, regs, calls, pointer, handled⟩

end SimplyOs.InterruptDispatch
