import SimplyOs.Interrupts
import SimplyOs.KernelTests

/-!
# Exceptions

Transcription of `isr.c` and of `kernel/mm/page_fault.c`. Both handlers end in a loop
with interrupts disabled, so what they leave behind is the terminal; they fail (`none`)
where an access of theirs faults, a store to the text buffer or another one. `cr2` is what the processor loads in front of a page
fault.
-/

namespace SimplyOs.PageFault

open SimplyOs.Interrupts SimplyOs.Paging SimplyOs.Printf SimplyOs.Tty SimplyOs.KernelTests
open SimplyOs.Library.WordStack
open SimplyOs.Shell (asciiBytes)

set_option autoImplicit false

def vgaColorLightRed : UInt8 := 12

def pageFaultVector : Nat := 14

section Texts

def causeText : CString := ⟨asciiBytes "  cause:", by decide⟩

def notPresentText : CString := ⟨asciiBytes " not-present", by decide⟩

def protectionText : CString := ⟨asciiBytes " protection-violation", by decide⟩

def writeText : CString := ⟨asciiBytes " write", by decide⟩

def readText : CString := ⟨asciiBytes " read", by decide⟩

def userText : CString := ⟨asciiBytes " user-mode", by decide⟩

def supervisorText : CString := ⟨asciiBytes " supervisor", by decide⟩

def reservedText : CString := ⟨asciiBytes " reserved-bit-set", by decide⟩

def fetchText : CString := ⟨asciiBytes " instruction-fetch", by decide⟩

def errFormat : CString := ⟨asciiBytes " (err=0x%x)\n", by decide⟩

def pageFaultFormat : CString := ⟨asciiBytes "Page Fault (#%u)\n", by decide⟩

def cr2Format : CString := ⟨asciiBytes "  CR2 (fault addr): %p\n", by decide⟩

def eipFormat : CString := ⟨asciiBytes "  EIP: %p  CS: 0x%x\n", by decide⟩

def registersFormat : CString :=
  ⟨asciiBytes "  EAX: %p  EBX: %p  ECX: %p  EDX: %p\n", by decide⟩

def mappedFormat : CString := ⟨asciiBytes "  paging: mapped -> phys %p\n", by decide⟩

def notMappedText : CString := ⟨asciiBytes "  paging: not mapped in page tables\n", by decide⟩

end Texts

def argument (word : Word) : Argument := .word (UInt32.ofBitVec word)

section Handlers

variable {layout : PagingLayout} (stack : CharBuffer) (terminal : Terminal)

def pageFaultPrintErrorCode (err : Word) : Option Terminal := do
  let terminal ← kernelPrintf stack terminal causeText []
  let terminal ←
    kernelPrintf stack terminal (if err &&& 0x1 = 0 then notPresentText else protectionText) []
  let terminal ← kernelPrintf stack terminal (if err &&& 0x2 ≠ 0 then writeText else readText) []
  let terminal ←
    kernelPrintf stack terminal (if err &&& 0x4 ≠ 0 then userText else supervisorText) []
  let terminal ←
    (if err &&& 0x8 ≠ 0 then kernelPrintf stack terminal reservedText [] else some terminal)
  let terminal ←
    (if err &&& 0x10 ≠ 0 then kernelPrintf stack terminal fetchText [] else some terminal)
  kernelPrintf stack terminal errFormat [argument err]

def pageFaultHandler (machine : Machine layout) (cr2 : Word) (regs : Registers) :
    Option Terminal := do
  let terminal := terminalSetcolor terminal (vgaEntryColor vgaColorLightRed vgaColorBlack)
  let terminal ← kernelPrintf stack terminal pageFaultFormat [wordOf pageFaultVector]
  let terminal ← kernelPrintf stack terminal cr2Format [argument cr2]
  let terminal ← pageFaultPrintErrorCode stack terminal regs.errCode
  let terminal ← kernelPrintf stack terminal eipFormat [argument regs.eip, argument regs.cs]
  let terminal ← kernelPrintf stack terminal registersFormat
    [argument regs.eax, argument regs.ebx, argument regs.ecx, argument regs.edx]
  let mappedPhys ← pagingGetPhysical machine cr2.toNat
  if mappedPhys ≠ 0 then kernelPrintf stack terminal mappedFormat [wordOf mappedPhys]
  else kernelPrintf stack terminal notMappedText []

def exceptionMessages : List String :=
  ["Division By Zero", "Debug", "Non Maskable Interrupt", "Breakpoint", "Into Detected Overflow",
    "Out of Bounds", "Invalid Opcode", "No Coprocessor", "Double Fault",
    "Coprocessor Segment Overrun", "Bad TSS", "Segment Not Present", "Stack Fault",
    "General Protection Fault", "Page Fault", "Unknown Interrupt", "Coprocessor Fault",
    "Alignment Check", "Machine Check", "SIMD Floating-Point Exception",
    "Virtualization Exception", "Reserved", "Reserved", "Reserved", "Reserved", "Reserved",
    "Reserved", "Reserved", "Reserved", "Reserved", "Security Exception", "Reserved"]

/-- A string literal as `terminal_writestring` finds it in memory. -/
def literal (text : String) : List UInt8 := asciiBytes text ++ [0]

/-- `page_fault_handler` does not return. -/
def exceptionHandler (machine : Machine layout) (cr2 : Word) (regs : Registers) :
    Option Terminal :=
  if regs.intNo = 14 then pageFaultHandler stack terminal machine cr2 regs
  else do
    let terminal := terminalSetcolor terminal (vgaEntryColor vgaColorLightRed vgaColorBlack)
    let terminal ← terminalReturns (terminalWritestring terminal (literal "EXCEPTION! "))
    match exceptionMessages[regs.intNo.toNat]? with
    | some message => terminalReturns (terminalWritestring terminal (literal message))
    | none => some terminal

end Handlers

end SimplyOs.PageFault
