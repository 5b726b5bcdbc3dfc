import Mathlib.Data.List.TakeWhile
import SimplyOs.Printf
import SimplyOs.Tty

/-!
# The shell

Transcription of `kernel/arch/i386/shell/shell.c`. `shellEdit` is what `shell_run`
does with a character other than Enter. In the whole loop a store outside of
`shell_line` or behind the page of the text buffer is a fault, and so are the reads
that are faults of `printf`. `events` is not in the source: it lists the calls of
`shell_execute` and the branches that it takes, the first one first.
-/

namespace SimplyOs.Shell

open SimplyOs.Word SimplyOs.Printf SimplyOs.Tty

set_option autoImplicit false

def shellLineMax : Nat := 128

structure ShellState where
  shellLine : Nat → UInt8
  shellLineLen : Nat
  terminal : Terminal

def shellIsPrintable (c : UInt8) : Bool := c == 0x09 || (32 ≤ c && c ≤ 126)

def storeLine (shell : ShellState) (index : Nat) (c : UInt8) : ShellState :=
  { shell with shellLine := fun place => if place = index then c else shell.shellLine place }

def promptText : List UInt8 := ['m', 'y', 'o', 's', '>', ' '].map Char.toUInt8

def shellPrompt (shell : ShellState) : ShellState :=
  { shell with terminal := terminalWritestring shell.terminal (promptText ++ [0]) }

def shellResetLine (shell : ShellState) : ShellState :=
  storeLine { shell with shellLineLen := 0 } 0 0

/-- The body of the inner loop behind its test for Enter. -/
def shellEdit (shell : ShellState) (c : UInt8) : ShellState :=
  if c = 0x08 then
    if shell.shellLineLen > 0 then
      let shell := { shell with shellLineLen := shell.shellLineLen - 1 }
      let shell := storeLine shell shell.shellLineLen 0
      { shell with terminal := terminalPutchar shell.terminal 0x08 }
    else shell
  else if !shellIsPrintable c then shell
  else if shell.shellLineLen ≥ shellLineMax - 1 then shell
  else
    let shell := { storeLine shell shell.shellLineLen c with shellLineLen := shell.shellLineLen + 1 }
    let shell := storeLine shell shell.shellLineLen 0
    { shell with terminal := terminalPutchar shell.terminal c }

def shellLineMemory (shell : ShellState) : List UInt8 :=
  (List.range shellLineMax).map shell.shellLine

/-! ## Commands -/

inductive ShellEvent where
  | executes (line : List UInt8)
  | help
  | mem
  | pfault
  | unknown
  deriving DecidableEq, Repr

/-- `halted` is set where the kernel does not go on. -/
structure ShellMachine where
  shell : ShellState
  halted : Bool
  events : List ShellEvent

def logEvent (machine : ShellMachine) (event : ShellEvent) : ShellMachine :=
  { machine with events := machine.events ++ [event] }

/-- What `shell_cmd_mem` asks for; no call in the shell changes it. -/
structure Statistics where
  pmmFreeFrames : UInt32
  pmmTotalFrames : UInt32
  pmmUsedFrames : UInt32
  kheapUsedBytes : UInt32
  kheapTotalBytes : UInt32

def asciiBytes (text : String) : List UInt8 := text.toList.map Char.toUInt8

/-- The shell goes on behind a call of the terminal unless a store of it has faulted. -/
def shellReturns (machine : ShellMachine) : Except Fault ShellMachine :=
  if TextMapped machine.shell.terminal then .ok machine else .error .unmapped

/-- The result of `printf` is not used; `putchar` writes to the terminal. -/
def shellPrintf (stack : CharBuffer) (machine : ShellMachine) (format : CString)
    (parameters : List Argument) : Except Fault ShellMachine := do
  let (_, output) ← printf stack format parameters
  shellReturns { machine with
    shell := { machine.shell with terminal := terminalWrite machine.shell.terminal output } }

def stringAt (object : List UInt8) : Except Fault CString :=
  if 0 ∈ object then
    .ok ⟨object.takeWhile fun byte => byte != 0,
      fun member => absurd (List.mem_takeWhile_imp member) (by decide)⟩
  else .error .pastEnd

/-- The pointers are taken for the bytes of their objects from there on. -/
def shellStreq : (a b : List UInt8) → Except Fault Bool
  | a :: as, b :: bs =>
      if a ≠ 0 ∧ b ≠ 0 then
        if a ≠ b then .ok false else shellStreq as bs
      else .ok (a == b)
  | _, _ => .error .pastEnd

def helpName : CString := ⟨asciiBytes "help", by decide⟩

def memName : CString := ⟨asciiBytes "mem", by decide⟩

def pfaultName : CString := ⟨asciiBytes "pfault", by decide⟩

def helpTitle : CString := ⟨asciiBytes "Commands:\n", by decide⟩

def helpOfHelp : CString := ⟨asciiBytes "  help   - this list\n", by decide⟩

def helpOfMem : CString := ⟨asciiBytes "  mem    - PMM and kheap statistics\n", by decide⟩

def helpOfPfault : CString :=
  ⟨asciiBytes "  pfault - trigger page fault (halts kernel)\n", by decide⟩

def framesFormat : CString := ⟨asciiBytes "PMM:  %u free / %u frames (%u used)\n", by decide⟩

def heapFormat : CString := ⟨asciiBytes "Kheap: %u used / %u bytes mapped\n", by decide⟩

def pfaultText : CString := ⟨asciiBytes "Triggering page fault at 0xDEAD0000...\n", by decide⟩

def unknownFormat : CString := ⟨asciiBytes "Unknown command: %s\n", by decide⟩

def hintText : CString := ⟨asciiBytes "Type 'help' for a list of commands.\n", by decide⟩

def bannerText : CString := ⟨asciiBytes "My-OS shell. Type 'help' for commands.\n", by decide⟩

section Commands

variable (stack : CharBuffer) (statistics : Statistics) (machine : ShellMachine)

def shellCmdHelp : Except Fault ShellMachine := do
  let machine := logEvent machine .help
  let machine ← shellPrintf stack machine helpTitle []
  let machine ← shellPrintf stack machine helpOfHelp []
  let machine ← shellPrintf stack machine helpOfMem []
  shellPrintf stack machine helpOfPfault []

def shellCmdMem : Except Fault ShellMachine := do
  let machine := logEvent machine .mem
  let machine ← shellPrintf stack machine framesFormat
    [.word statistics.pmmFreeFrames, .word statistics.pmmTotalFrames,
      .word statistics.pmmUsedFrames]
  shellPrintf stack machine heapFormat
    [.word statistics.kheapUsedBytes, .word statistics.kheapTotalBytes]

/-- The read faults or the loop behind it waits forever. -/
def shellCmdPfault : Except Fault ShellMachine := do
  let machine := logEvent machine .pfault
  let machine ← shellPrintf stack machine pfaultText []
  .ok { machine with halted := true }

def shellExecute : Except Fault ShellMachine := do
  let line := shellLineMemory machine.shell
  let first ← readAt line 0
  if first = 0 then .ok machine
  else do
    let isHelp ← shellStreq line helpName.object
    if isHelp then shellCmdHelp stack machine
    else do
      let isMem ← shellStreq line memName.object
      if isMem then shellCmdMem stack statistics machine
      else do
        let isPfault ← shellStreq line pfaultName.object
        if isPfault then shellCmdPfault stack machine
        else do
          let machine := logEvent machine .unknown
          let str ← stringAt line
          let machine ← shellPrintf stack machine unknownFormat [.string str]
          shellPrintf stack machine hintText []

end Commands

/-! ## The loop -/

/-- A store to `shell_line`, which has 128 bytes; `shell_reset_line` stores at index 0. -/
def storeLineChecked (shell : ShellState) (index : Nat) (c : UInt8) : Except Fault ShellState :=
  if index < shellLineMax then .ok (storeLine shell index c) else .error .pastEnd

/-- `shellEdit`, with the bounds of `shell_line`. -/
def shellEditChecked (shell : ShellState) (c : UInt8) : Except Fault ShellState :=
  if c = 0x08 then
    if shell.shellLineLen > 0 then do
      let shell := { shell with shellLineLen := shell.shellLineLen - 1 }
      let shell ← storeLineChecked shell shell.shellLineLen 0
      .ok { shell with terminal := terminalPutchar shell.terminal 0x08 }
    else .ok shell
  else if !shellIsPrintable c then .ok shell
  else if shell.shellLineLen ≥ shellLineMax - 1 then .ok shell
  else do
    let stored ← storeLineChecked shell shell.shellLineLen c
    let shell := { stored with shellLineLen := shell.shellLineLen + 1 }
    let shell ← storeLineChecked shell shell.shellLineLen 0
    .ok { shell with terminal := terminalPutchar shell.terminal c }

section Run

variable (stack : CharBuffer) (statistics : Statistics)

/-- The branch for Enter, and the prompt of the next line. -/
def shellEnter (machine : ShellMachine) : Except Fault ShellMachine := do
  let shell := machine.shell
  let shell := { shell with terminal := terminalPutchar shell.terminal 0x0A }
  let machine ← shellReturns { machine with shell := shell }
  let shell ← storeLineChecked machine.shell machine.shell.shellLineLen 0
  let str ← stringAt (shellLineMemory shell)
  let machine := logEvent { machine with shell := shell } (.executes str.bytes)
  let machine ← shellExecute stack statistics machine
  if machine.halted then .ok machine
  else shellReturns { machine with shell := shellPrompt (shellResetLine machine.shell) }

/-- `c` is what `keyboard_getchar` returns; a halted kernel does not call it. -/
def shellKey (machine : ShellMachine) (c : UInt8) : Except Fault ShellMachine :=
  if machine.halted then .ok machine
  else if c = 0x0A then shellEnter stack statistics machine
  else do
    let shell ← shellEditChecked machine.shell c
    shellReturns { machine with shell := shell }

def shellStart (shell : ShellState) : Except Fault ShellMachine := do
  let shell := { shell with terminal := terminalWritestring shell.terminal bannerText.object }
  let machine ← shellReturns { shell := shell, halted := false, events := [] }
  shellReturns { machine with shell := shellPrompt (shellResetLine machine.shell) }

def shellRun (shell : ShellState) (keys : List UInt8) : Except Fault ShellMachine := do
  let machine ← shellStart shell
  keys.foldlM (shellKey stack statistics) machine

end Run

end SimplyOs.Shell
