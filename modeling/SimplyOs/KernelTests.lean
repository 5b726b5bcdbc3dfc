import SimplyOs.Paging
import SimplyOs.Shell

/-!
# The self tests of the kernel

Transcription of the three self tests in `kernel/kernel/kernel.c`. A test returns
the terminal that it has printed to and the allocator that it has used; it fails
(`none`) where an access faults, the stores of `printf` to the text buffer included.
-/

namespace SimplyOs.KernelTests

open SimplyOs.Word SimplyOs.Pmm SimplyOs.Paging SimplyOs.Kheap SimplyOs.Printf SimplyOs.Tty
open SimplyOs.Shell (asciiBytes)

set_option autoImplicit false

/-- The result of `printf` is not used; `putchar` writes to the terminal. -/
def kernelPrintf (stack : CharBuffer) (terminal : Terminal) (format : CString)
    (parameters : List Argument) : Option Terminal :=
  (printf stack format parameters).toOption.bind fun printed =>
    terminalReturns (terminalWrite terminal printed.2)

def wordOf (value : Nat) : Argument := .word (UInt32.ofNat value)

section Texts

def pmmAllocFailed : CString := ⟨asciiBytes "PMM self-test: alloc failed\n", by decide⟩

def pmmDuplicate : CString := ⟨asciiBytes "PMM self-test: duplicate frame %p\n", by decide⟩

def pmmOk : CString := ⟨asciiBytes "PMM self-test: ok\n", by decide⟩

def kheapAllocFailed : CString := ⟨asciiBytes "Kheap self-test: alloc failed\n", by decide⟩

end Texts

variable (stack : CharBuffer) (terminal : Terminal)

def pmmSelfTest (pmm : PmmState) : Option (Terminal × PmmState) := do
  let (a, pmm) := pmmAllocFrame pmm
  let (b, pmm) := pmmAllocFrame pmm
  if a = 0 ∨ b = 0 then do
    let terminal ← kernelPrintf stack terminal pmmAllocFailed []
    some (terminal, pmm)
  else if a = b then do
    let terminal ← kernelPrintf stack terminal pmmDuplicate [wordOf a]
    some (terminal, pmm)
  else do
    let pmm := pmmFreeFrame pmm a
    let pmm := pmmFreeFrame pmm b
    let terminal ← kernelPrintf stack terminal pmmOk []
    some (terminal, pmm)

/-! ## Paging -/

variable {layout : PagingLayout}

variable {World : Type} [Platform World]

end SimplyOs.KernelTests
