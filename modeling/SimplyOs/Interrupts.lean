import SimplyOs.Library.WordStack

/-!
# The interrupt stubs

Transcription of `irq_stubs.S`, `isr_stubs.S` and `registers_t` over a stack machine.
A `jmp` goes on with the code of its target. Where the code lies is left to the
linker, so `eip` is followed only where it is pushed or popped. Interrupts do not
change the privilege level: `ss` stays, and the last two words of `registers_t` are
not pushed.
-/

namespace SimplyOs.Interrupts

open SimplyOs.Library.WordStack

set_option autoImplicit false

abbrev Selector := BitVec 16

structure Cpu where
  eax : Word
  ecx : Word
  edx : Word
  ebx : Word
  esp : Word
  ebp : Word
  esi : Word
  edi : Word
  ds : Selector
  es : Selector
  fs : Selector
  gs : Selector
  cs : Selector
  eip : Word
  eflags : Word
  memory : Memory

/-- What the manuals leave open or the stubs do not depend on. A push of a selector
writes its word whole or only the lower half of it. -/
structure Processor where
  selectorWord : (selector : Selector) → (before : Word) → Word
  lowerHalf : ∀ selector before, (selectorWord selector before).setWidth 16 = selector
  addFlags : (eflags left right : Word) → Word
  gateFlags : (eflags : Word) → Word

structure Registers where
  gs : Word
  fs : Word
  es : Word
  ds : Word
  edi : Word
  esi : Word
  ebp : Word
  esp : Word
  ebx : Word
  edx : Word
  ecx : Word
  eax : Word
  intNo : Word
  errCode : Word
  eip : Word
  cs : Word
  eflags : Word
  useresp : Word
  ss : Word

/-- What a handler reads through its pointer: the structure is packed. -/
def registersAt (memory : Memory) (regs : Word) : Registers where
  gs := readWord memory (above regs 0)
  fs := readWord memory (above regs 4)
  es := readWord memory (above regs 8)
  ds := readWord memory (above regs 12)
  edi := readWord memory (above regs 16)
  esi := readWord memory (above regs 20)
  ebp := readWord memory (above regs 24)
  esp := readWord memory (above regs 28)
  ebx := readWord memory (above regs 32)
  edx := readWord memory (above regs 36)
  ecx := readWord memory (above regs 40)
  eax := readWord memory (above regs 44)
  intNo := readWord memory (above regs 48)
  errCode := readWord memory (above regs 52)
  eip := readWord memory (above regs 56)
  cs := readWord memory (above regs 60)
  eflags := readWord memory (above regs 64)
  useresp := readWord memory (above regs 68)
  ss := readWord memory (above regs 72)

/-! ## Instructions -/

inductive Segment where
  | ds
  | es
  | fs
  | gs
  deriving DecidableEq, Repr

inductive Handler where
  | irqHandler
  | exceptionHandler
  deriving DecidableEq, Repr

inductive Instruction where
  /-- `pushl $value` -/
  | pushl (value : Word)
  /-- `pushl %esp` -/
  | pushlEsp
  /-- `pushl %segment` -/
  | pushlSegment (segment : Segment)
  /-- `popl %segment` -/
  | poplSegment (segment : Segment)
  | pusha
  | popa
  /-- `movw $value, %ax` -/
  | movwAx (value : Selector)
  /-- `movw %ax, %segment` -/
  | movwSegment (segment : Segment)
  /-- `addl $value, %esp` -/
  | addlEsp (value : Word)
  | call (handler : Handler)
  | iret

def Cpu.segment (cpu : Cpu) : Segment → Selector
  | .ds => cpu.ds
  | .es => cpu.es
  | .fs => cpu.fs
  | .gs => cpu.gs

def Cpu.setSegment (cpu : Cpu) (selector : Selector) : Segment → Cpu
  | .ds => { cpu with ds := selector }
  | .es => { cpu with es := selector }
  | .fs => { cpu with fs := selector }
  | .gs => { cpu with gs := selector }

def Cpu.push (cpu : Cpu) (value : Word) : Cpu :=
  { cpu with esp := cpu.esp - 4, memory := writeWord cpu.memory (cpu.esp - 4) value }

def Cpu.pushSelector (processor : Processor) (cpu : Cpu) (selector : Selector) : Cpu :=
  cpu.push (processor.selectorWord selector (readWord cpu.memory (cpu.esp - 4)))

/-- The word `index` from the top of the stack on. -/
def Cpu.word (cpu : Cpu) (index : Nat) : Word := readWord cpu.memory (above cpu.esp (4 * index))

def Cpu.pusha (cpu : Cpu) : Cpu :=
  [cpu.eax, cpu.ecx, cpu.edx, cpu.ebx, cpu.esp, cpu.ebp, cpu.esi, cpu.edi].foldl Cpu.push cpu

/-- The word for `esp` is skipped. -/
def Cpu.popa (cpu : Cpu) : Cpu :=
  { cpu with
    edi := cpu.word 0, esi := cpu.word 1, ebp := cpu.word 2, ebx := cpu.word 4, edx := cpu.word 5
    ecx := cpu.word 6, eax := cpu.word 7, esp := above cpu.esp 32 }

def Cpu.iret (cpu : Cpu) : Cpu :=
  { cpu with
    eip := cpu.word 0, cs := (cpu.word 1).setWidth 16, eflags := cpu.word 2, esp := above cpu.esp 12 }

inductive Stop where
  /-- In front of the first instruction of a handler, with the code to return to. -/
  | calls (handler : Handler) (rest : List Instruction) (cpu : Cpu)
  | resumes (cpu : Cpu)
  /-- Behind the last instruction. -/
  | leaves (cpu : Cpu)

def run (processor : Processor) (returnAddress : Word) : List Instruction → Cpu → Stop
  | [], cpu => .leaves cpu
  | .pushl value :: rest, cpu => run processor returnAddress rest (cpu.push value)
  | .pushlEsp :: rest, cpu => run processor returnAddress rest (cpu.push cpu.esp)
  | .pushlSegment segment :: rest, cpu =>
      run processor returnAddress rest (cpu.pushSelector processor (cpu.segment segment))
  | .poplSegment segment :: rest, cpu =>
      run processor returnAddress rest
        ({ cpu with esp := above cpu.esp 4 }.setSegment ((cpu.word 0).setWidth 16) segment)
  | .pusha :: rest, cpu => run processor returnAddress rest cpu.pusha
  | .popa :: rest, cpu => run processor returnAddress rest cpu.popa
  | .movwAx value :: rest, cpu =>
      run processor returnAddress rest { cpu with eax := cpu.eax.extractLsb' 16 16 ++ value }
  | .movwSegment segment :: rest, cpu =>
      run processor returnAddress rest (cpu.setSegment (cpu.eax.setWidth 16) segment)
  | .addlEsp value :: rest, cpu =>
      run processor returnAddress rest
        { cpu with
          esp := cpu.esp + value, eflags := processor.addFlags cpu.eflags cpu.esp value }
  | .call handler :: rest, cpu => .calls handler rest (cpu.push returnAddress)
  | .iret :: _, cpu => .resumes cpu.iret

/-! ## The stubs -/

def kernelDataSeg : Selector := 0x10

def restoreCode : List Instruction :=
  [.addlEsp 4, .poplSegment .gs, .poplSegment .fs, .poplSegment .es, .poplSegment .ds, .popa,
    .addlEsp 8, .iret]

def commonStub (handler : Handler) : List Instruction :=
  [.pusha, .pushlSegment .ds, .pushlSegment .es, .pushlSegment .fs, .pushlSegment .gs,
    .movwAx kernelDataSeg, .movwSegment .ds, .movwSegment .es, .movwSegment .fs, .movwSegment .gs,
    .pushlEsp, .call handler] ++ restoreCode

def irqCommonStub : List Instruction := commonStub .irqHandler

def isrCommonStub : List Instruction := commonStub .exceptionHandler

def irqStub (num : Nat) : List Instruction :=
  [.pushl 0, .pushl (BitVec.ofNat 32 num)] ++ irqCommonStub

def isrNoErrStub (num : Nat) : List Instruction :=
  [.pushl 0, .pushl (BitVec.ofNat 32 num)] ++ isrCommonStub

def isrErrStub (num : Nat) : List Instruction := [.pushl (BitVec.ofNat 32 num)] ++ isrCommonStub

def irqStubTable : List (List Instruction) :=
  [irqStub 0, irqStub 1, irqStub 2, irqStub 3, irqStub 4, irqStub 5, irqStub 6, irqStub 7,
    irqStub 8, irqStub 9, irqStub 10, irqStub 11, irqStub 12, irqStub 13, irqStub 14, irqStub 15]

def isrStubTable : List (List Instruction) :=
  [isrNoErrStub 0, isrNoErrStub 1, isrNoErrStub 2, isrNoErrStub 3, isrNoErrStub 4, isrNoErrStub 5,
    isrNoErrStub 6, isrNoErrStub 7, isrErrStub 8, isrNoErrStub 9, isrErrStub 10, isrErrStub 11,
    isrErrStub 12, isrErrStub 13, isrErrStub 14, isrNoErrStub 15, isrNoErrStub 16, isrErrStub 17,
    isrNoErrStub 18, isrNoErrStub 19, isrNoErrStub 20, isrNoErrStub 21, isrNoErrStub 22,
    isrNoErrStub 23, isrNoErrStub 24, isrNoErrStub 25, isrNoErrStub 26, isrNoErrStub 27,
    isrNoErrStub 28, isrNoErrStub 29, isrErrStub 30, isrNoErrStub 31]

/-! ## Entering a gate -/

def kernelCs : Selector := 0x08

/-- The exceptions 0 to 20 for which the processor pushes an error code. -/
def pushesErrorCode (vector : Nat) : Bool :=
  vector == 8 || (decide (10 ≤ vector) && decide (vector ≤ 14)) || vector == 17

/-- The processor in front of the first instruction of a stub at `target`. -/
def enterGate (processor : Processor) (cpu : Cpu) (target : Word) (errorCode : Option Word) : Cpu :=
  let pushed := ((cpu.push cpu.eflags).pushSelector processor cpu.cs).push cpu.eip
  let pushed := match errorCode with
    | some code => pushed.push code
    | none => pushed
  { pushed with cs := kernelCs, eip := target, eflags := processor.gateFlags cpu.eflags }

end SimplyOs.Interrupts
