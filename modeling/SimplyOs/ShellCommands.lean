import SimplyOs.PrintfOutput
import SimplyOs.ShellEcho
import SimplyOs.TtyPage

/-!
# What the shell executes

At each Enter `shell_execute` is given the line that the keys since the last Enter
have edited, and it takes the branch of the command with that name. Behind `pfault`
no key is read any more. All this holds as long as the text of the shell stays on the
page of the terminal; a glyph behind the page ends the run with a page fault.
-/

namespace SimplyOs.ShellCommands

open SimplyOs.Printf SimplyOs.PrintfNumerals SimplyOs.PrintfOutput SimplyOs.Tty SimplyOs.Shell
open SimplyOs.ShellEcho SimplyOs.TtyBounds SimplyOs.TtyPage

set_option autoImplicit false

/-! ## Strings -/

section Strings

variable {stack : CharBuffer} {machine : ShellMachine}

/-- Two strings are told apart wherever the loop stops. -/
theorem shell_streq_eq {one other : List UInt8} (behind behindOther : List UInt8)
    (noNul : 0 ∉ one) (noNulOther : 0 ∉ other) :
    shellStreq (one ++ 0 :: behind) (other ++ 0 :: behindOther) = .ok (decide (one = other)) := by
  induction one generalizing other with
  | nil =>
      cases other with
      | nil => rfl
      | cons c other =>
          rw [List.mem_cons, not_or] at noNulOther
          have differ : ((0 : UInt8) == c) = false := beq_eq_false_iff_ne.mpr noNulOther.1
          rw [List.nil_append, List.cons_append, shellStreq, if_neg (fun both => both.1 rfl), differ]
          rfl
  | cons c one ih =>
      rw [List.mem_cons, not_or] at noNul
      have nonzero : c ≠ 0 := fun zero => noNul.1 zero.symm
      cases other with
      | nil =>
          have differ : (c == (0 : UInt8)) = false := beq_eq_false_iff_ne.mpr nonzero
          rw [List.nil_append, List.cons_append, shellStreq, if_neg (fun both => both.2 rfl), differ]
          rfl
      | cons d other =>
          rw [List.mem_cons, not_or] at noNulOther
          have both : c ≠ 0 ∧ d ≠ 0 := ⟨nonzero, fun zero => noNulOther.1 zero.symm⟩
          rw [List.cons_append, List.cons_append, shellStreq, if_pos both]
          by_cases same : c = d
          · subst same
            rw [if_neg (not_not.mpr rfl), ih noNul.2 noNulOther.2]
            simp only [List.cons.injEq, true_and]
          · rw [if_pos same]
            simp only [List.cons.injEq, same, false_and, decide_false]

theorem string_at_eq {bytes : List UInt8} (behind : List UInt8) (noNul : 0 ∉ bytes) :
    stringAt (bytes ++ 0 :: behind) = .ok ⟨bytes, noNul⟩ := by
  have member : 0 ∈ bytes ++ 0 :: behind := List.mem_append_right bytes List.mem_cons_self
  have front : (bytes ++ 0 :: behind).takeWhile (fun byte => byte != 0) = bytes := by
    rw [List.takeWhile_append_of_pos]
    · exact List.append_nil bytes
    · intro c inside
      rw [bne_iff_ne]
      rintro rfl
      exact noNul inside
  rw [stringAt, if_pos member]
  simp only [front]

def printed (machine : ShellMachine) (text : List UInt8) : ShellMachine :=
  { machine with
    shell := { machine.shell with terminal := terminalWrite machine.shell.terminal text } }

theorem printed_append (machine : ShellMachine) (one other : List UInt8) :
    printed (printed machine one) other = printed machine (one ++ other) := by
  rw [printed, printed, printed, ← terminal_write_append]

theorem returns_ok_iff : shellReturns machine = .ok machine ↔ TextMapped machine.shell.terminal := by
  rw [shellReturns]
  split
  · exact iff_of_true rfl ‹_›
  · exact iff_of_false (fun impossible => by cases impossible) ‹_›

theorem ok_bind {Value Result : Type} {call : Except Fault Value} {value : Value}
    {next : Value → Except Fault Result} (returned : call = .ok value) :
    call.bind next = next value := by
  rw [returned]
  rfl

/-- What comes behind a text is reached only if the text has not faulted. -/
theorem returns_bind {after : ShellMachine} {next : ShellMachine → Except Fault ShellMachine}
    (text : List UInt8)
    (writes : after.shell.terminal = terminalWrite machine.shell.terminal text)
    (goes : TextMapped machine.shell.terminal → next machine = shellReturns after) :
    (shellReturns machine).bind next = shellReturns after := by
  by_cases mapped : TextMapped machine.shell.terminal
  · rw [returns_ok_iff.mpr mapped]
    exact goes mapped
  · have later : ¬TextMapped after.shell.terminal := by
      rw [writes]
      exact fun both => mapped (mapped_before_write both)
    rw [shellReturns, if_neg mapped, shellReturns, if_neg later]
    rfl

theorem printed_then (one other : List UInt8) :
    (shellReturns (printed machine one)).bind (fun after => shellReturns (printed after other)) =
      shellReturns (printed machine (one ++ other)) := by
  refine returns_bind other ?_ fun _ => ?_
  · exact (terminal_write_append one other).symm
  · rw [printed_append]

theorem shell_printf_eq {format : CString} {parameters : List Argument} {output : List UInt8}
    (known : referenceFormat format.bytes parameters = some output)
    (short : output.length ≤ intMax) :
    shellPrintf stack machine format parameters = shellReturns (printed machine output) := by
  obtain ⟨result, run⟩ := (printf_prints_reference stack format parameters).2.2 output known short
  rw [shellPrintf, run]
  rfl

end Strings

/-! ## One command -/

def dispatch (line : List UInt8) : List ShellEvent :=
  if line = [] then []
  else if line = helpName.bytes then [.help]
  else if line = memName.bytes then [.mem]
  else if line = pfaultName.bytes then [.pfault]
  else [.unknown]

def helpText : List UInt8 :=
  helpTitle.bytes ++ (helpOfHelp.bytes ++ (helpOfMem.bytes ++ helpOfPfault.bytes))

def framesText (statistics : Statistics) : List UInt8 :=
  [asciiBytes "PMM:  ", numeral 10 statistics.pmmFreeFrames.toNat, asciiBytes " free / ",
    numeral 10 statistics.pmmTotalFrames.toNat, asciiBytes " frames (",
    numeral 10 statistics.pmmUsedFrames.toNat, asciiBytes " used)\n"].flatten

def heapText (statistics : Statistics) : List UInt8 :=
  [asciiBytes "Kheap: ", numeral 10 statistics.kheapUsedBytes.toNat, asciiBytes " used / ",
    numeral 10 statistics.kheapTotalBytes.toNat, asciiBytes " bytes mapped\n"].flatten

def unknownText (line : List UInt8) : List UInt8 :=
  [asciiBytes "Unknown command: ", line, asciiBytes "\n"].flatten

def reportText (statistics : Statistics) (line : List UInt8) : List UInt8 :=
  if line = [] then []
  else if line = helpName.bytes then helpText
  else if line = memName.bytes then framesText statistics ++ heapText statistics
  else if line = pfaultName.bytes then pfaultText.bytes
  else unknownText line ++ hintText.bytes

def executed (statistics : Statistics) (machine : ShellMachine) (line : List UInt8) :
    ShellMachine :=
  printed
    { machine with
      halted := machine.halted || line == pfaultName.bytes
      events := machine.events ++ dispatch line }
    (reportText statistics line)

section Execute

variable {stack : CharBuffer} {statistics : Statistics} {machine : ShellMachine}
  {line : List UInt8}

theorem word_numeral_short (value : UInt32) : (numeral 10 value.toNat).length ≤ 10 := by
  have small := value.toNat_lt
  rw [numeral, List.length_map, Nat.length_toDigits_le_iff (by decide) (by decide)]
  omega

theorem frames_text_short (statistics : Statistics) :
    (framesText statistics).length ≤ intMax := by
  have free := word_numeral_short statistics.pmmFreeFrames
  have total := word_numeral_short statistics.pmmTotalFrames
  have used := word_numeral_short statistics.pmmUsedFrames
  have texts : (asciiBytes "PMM:  ").length + (asciiBytes " free / ").length +
      (asciiBytes " frames (").length + (asciiBytes " used)\n").length = 30 := rfl
  simp only [framesText, List.length_flatten, List.map_cons, List.map_nil, List.sum_cons,
    List.sum_nil, intMax]
  omega

theorem heap_text_short (statistics : Statistics) : (heapText statistics).length ≤ intMax := by
  have used := word_numeral_short statistics.kheapUsedBytes
  have total := word_numeral_short statistics.kheapTotalBytes
  have texts : (asciiBytes "Kheap: ").length + (asciiBytes " used / ").length +
      (asciiBytes " bytes mapped\n").length = 29 := rfl
  simp only [heapText, List.length_flatten, List.map_cons, List.map_nil, List.sum_cons,
    List.sum_nil, intMax]
  omega

theorem unknown_text_short (fits : line.length < shellLineMax) :
    (unknownText line).length ≤ intMax := by
  have texts : (asciiBytes "Unknown command: ").length + (asciiBytes "\n").length = 18 := rfl
  simp only [unknownText, List.length_flatten, List.map_cons, List.map_nil, List.sum_cons,
    List.sum_nil, intMax]
  rw [shellLineMax] at fits
  omega

theorem shell_cmd_help_eq :
    shellCmdHelp stack machine = shellReturns (printed (logEvent machine .help) helpText) := by
  have title {machine : ShellMachine} : shellPrintf stack machine helpTitle [] =
      shellReturns (printed machine helpTitle.bytes) := shell_printf_eq rfl (by decide)
  have help {machine : ShellMachine} : shellPrintf stack machine helpOfHelp [] =
      shellReturns (printed machine helpOfHelp.bytes) := shell_printf_eq rfl (by decide)
  have mem {machine : ShellMachine} : shellPrintf stack machine helpOfMem [] =
      shellReturns (printed machine helpOfMem.bytes) := shell_printf_eq rfl (by decide)
  have pfault {machine : ShellMachine} : shellPrintf stack machine helpOfPfault [] =
      shellReturns (printed machine helpOfPfault.bytes) := shell_printf_eq rfl (by decide)
  simp only [shellCmdHelp, title, help, mem, pfault, bind, printed_then, helpText]

theorem shell_cmd_mem_eq :
    shellCmdMem stack statistics machine = shellReturns
      (printed (logEvent machine .mem) (framesText statistics ++ heapText statistics)) := by
  have frames {machine : ShellMachine} : shellPrintf stack machine framesFormat
      [.word statistics.pmmFreeFrames, .word statistics.pmmTotalFrames,
        .word statistics.pmmUsedFrames] = shellReturns (printed machine (framesText statistics)) :=
    shell_printf_eq rfl (frames_text_short statistics)
  have heap {machine : ShellMachine} : shellPrintf stack machine heapFormat
      [.word statistics.kheapUsedBytes, .word statistics.kheapTotalBytes] =
      shellReturns (printed machine (heapText statistics)) :=
    shell_printf_eq rfl (heap_text_short statistics)
  simp only [shellCmdMem, frames, heap, bind, printed_then]

theorem shell_cmd_pfault_eq :
    shellCmdPfault stack machine =
      shellReturns { printed (logEvent machine .pfault) pfaultText.bytes with halted := true } := by
  have text {machine : ShellMachine} : shellPrintf stack machine pfaultText [] =
      shellReturns (printed machine pfaultText.bytes) := shell_printf_eq rfl (by decide)
  simp only [shellCmdPfault, text, bind]
  refine returns_bind [] rfl fun mapped => ?_
  exact Eq.symm (if_pos mapped)

theorem line_no_nul {shell : ShellState} (holds : HoldsLine shell line) : 0 ∉ line :=
  fun member => printable_ne_nul (holds.printable 0 member) rfl

theorem executed_plain (other : line ≠ pfaultName.bytes) :
    executed statistics machine line =
      printed { machine with events := machine.events ++ dispatch line }
        (reportText statistics line) := by
  rw [executed, beq_eq_false_iff_ne.mpr other, Bool.or_false]

/-- `shell_execute` takes the branch of the line and writes its text. -/
theorem shell_execute_eq (holds : HoldsLine machine.shell line)
    (mapped : TextMapped machine.shell.terminal) :
    shellExecute stack statistics machine = shellReturns (executed statistics machine line) := by
  obtain ⟨rest, memory⟩ := line_memory_split holds
  have noNul := line_no_nul holds
  have compared (name : CString) :
      shellStreq (line ++ 0 :: rest) name.object = .ok (decide (line = name.bytes)) :=
    shell_streq_eq rest [] noNul name.noNul
  have str := string_at_eq rest noNul
  rw [shellExecute, memory]
  simp only [bind, Except.bind, compared, decide_eq_true_eq, str]
  by_cases empty : line = []
  · subst empty
    have first : readAt ([] ++ 0 :: rest) 0 = .ok 0 := rfl
    rw [executed_plain (by decide), first, dispatch, if_pos rfl, reportText, if_pos rfl]
    simp only [if_pos, List.append_nil]
    exact (returns_ok_iff.mpr mapped).symm
  have first : ∃ c, c ≠ 0 ∧ readAt (line ++ 0 :: rest) 0 = .ok c := by
    cases line with
    | nil => exact absurd rfl empty
    | cons c tail => exact ⟨c, fun zero => noNul (zero ▸ List.mem_cons_self), rfl⟩
  obtain ⟨c, nonzero, read⟩ := first
  rw [read]
  simp only
  rw [if_neg nonzero]
  by_cases help : line = helpName.bytes
  · subst help
    rw [if_pos rfl, shell_cmd_help_eq, executed_plain (by decide), dispatch, if_neg empty,
      if_pos rfl, reportText, if_neg empty, if_pos rfl]
    rfl
  rw [if_neg help]
  by_cases mem : line = memName.bytes
  · subst mem
    rw [if_pos rfl, shell_cmd_mem_eq, executed_plain (by decide), dispatch, if_neg empty,
      if_neg help, if_pos rfl, reportText, if_neg empty, if_neg help, if_pos rfl]
    rfl
  rw [if_neg mem]
  by_cases pfault : line = pfaultName.bytes
  · subst pfault
    rw [if_pos rfl, shell_cmd_pfault_eq, executed, dispatch, if_neg empty, if_neg help, if_neg mem,
      if_pos rfl, reportText, if_neg empty, if_neg help, if_neg mem, if_pos rfl,
      beq_self_eq_true, Bool.or_true]
    rfl
  have unknown {machine : ShellMachine} :
      shellPrintf stack machine unknownFormat [.string ⟨line, noNul⟩] =
        shellReturns (printed machine (unknownText line)) :=
    shell_printf_eq rfl (unknown_text_short holds.fits)
  have hint {machine : ShellMachine} : shellPrintf stack machine hintText [] =
      shellReturns (printed machine hintText.bytes) := shell_printf_eq rfl (by decide)
  rw [if_neg pfault]
  simp only [unknown, hint]
  rw [executed_plain pfault, dispatch, if_neg empty, if_neg help, if_neg mem, if_neg pfault,
    reportText, if_neg empty, if_neg help, if_neg mem, if_neg pfault]
  exact printed_then (unknownText line) hintText.bytes

end Execute

/-! ## One key -/

section Keys

variable {stack : CharBuffer} {statistics : Statistics} {shell : ShellState}
  {machine : ShellMachine} {line : List UInt8}

theorem holds_terminal (holds : HoldsLine shell line) (terminal : Terminal) :
    HoldsLine { shell with terminal := terminal } line :=
  ⟨holds.length, holds.fits, holds.printable, holds.stored, holds.ended⟩

theorem holds_ended (holds : HoldsLine shell line) :
    HoldsLine (storeLine shell shell.shellLineLen 0) line := by
  have length := holds.length
  refine ⟨length, holds.fits, holds.printable, ?_, ?_⟩
  · refine Eq.trans (List.map_congr_left ?_) holds.stored
    intro index member
    have before := List.mem_range.mp member
    exact if_neg (by omega)
  · exact if_pos length.symm

theorem store_line_checked_eq {index : Nat} (inside : index < shellLineMax) (c : UInt8) :
    storeLineChecked shell index c = .ok (storeLine shell index c) := if_pos inside

/-- While the line fits, the editing stores inside of `shell_line` only. -/
theorem shell_edit_checked_eq (fits : shell.shellLineLen < shellLineMax) (c : UInt8) :
    shellEditChecked shell c = .ok (shellEdit shell c) := by
  rw [shellEditChecked, shellEdit]
  by_cases backspace : c = 0x08
  · rw [if_pos backspace, if_pos backspace]
    by_cases filled : shell.shellLineLen > 0
    · rw [if_pos filled, if_pos filled]
      simp only [store_line_checked_eq (by omega : shell.shellLineLen - 1 < shellLineMax), bind,
        Except.bind]
    · rw [if_neg filled, if_neg filled]
  rw [if_neg backspace, if_neg backspace]
  by_cases printable : (!shellIsPrintable c) = true
  · rw [if_pos printable, if_pos printable]
  rw [if_neg printable, if_neg printable]
  by_cases full : shell.shellLineLen ≥ shellLineMax - 1
  · rw [if_pos full, if_pos full]
  · have room : shell.shellLineLen + 1 < shellLineMax := by omega
    rw [if_neg full, if_neg full, store_line_checked_eq fits]
    simp only [bind, Except.bind, store_line_checked_eq room]

def eventsOf (line : List UInt8) : List ShellEvent := .executes line :: dispatch line

/-- The shell holds a line, or it has been halted by the line. -/
structure Holds (machine : ShellMachine) (halted : Bool) (line : List UInt8)
    (events : List ShellEvent) : Prop where
  held : HoldsLine machine.shell line
  halts : machine.halted = halted
  traced : machine.events = events

/-- What Enter prints for a line; behind `pfault` there is no prompt. -/
def enterText (statistics : Statistics) (line : List UInt8) : List UInt8 :=
  [0x0A] ++ (reportText statistics line ++ if line = pfaultName.bytes then [] else promptText)

/-- The echo of a key other than Enter. -/
def echoText (line : List UInt8) (c : UInt8) : List UInt8 :=
  if c = 0x08 then if line = [] then [] else [0x08]
  else if shellIsPrintable c = true ∧ line.length < shellLineMax - 1 then [c]
  else []

theorem edit_writes (holds : HoldsLine shell line) (c : UInt8) :
    (shellEdit shell c).terminal = terminalWrite shell.terminal (echoText line c) := by
  rw [edit_terminal holds, echoText]
  split
  · split
    · rfl
    · rfl
  · split
    · rfl
    · rfl

theorem prompt_writes (shell : ShellState) :
    (shellPrompt (shellResetLine shell)).terminal = terminalWrite shell.terminal promptText := rfl

def lineEnded (machine : ShellMachine) (line : List UInt8) : ShellMachine :=
  let shell := (printed machine [0x0A]).shell
  logEvent { machine with shell := storeLine shell shell.shellLineLen 0 } (.executes line)

def entered (statistics : Statistics) (machine : ShellMachine) (line : List UInt8) : ShellMachine :=
  let machine := executed statistics (lineEnded machine line) line
  if line = pfaultName.bytes then machine
  else { machine with shell := shellPrompt (shellResetLine machine.shell) }

theorem line_ended_holds (holds : HoldsLine machine.shell line) :
    HoldsLine (lineEnded machine line).shell line :=
  holds_ended (holds_terminal holds (terminalPutchar machine.shell.terminal 0x0A))

theorem line_ended_halts (running : machine.halted = false) :
    (executed statistics (lineEnded machine line) line).halted = (line == pfaultName.bytes) := by
  have going : (lineEnded machine line).halted = false := running
  rw [executed, printed, going, Bool.false_or]

theorem entered_writes (machine : ShellMachine) (line : List UInt8) :
    (entered statistics machine line).shell.terminal =
      terminalWrite machine.shell.terminal (enterText statistics line) := by
  rw [entered, enterText]
  by_cases pfault : line = pfaultName.bytes
  · rw [if_pos pfault, if_pos pfault, List.append_nil]
    exact terminal_write_append [0x0A] (reportText statistics line)
  · rw [if_neg pfault, if_neg pfault, ← List.append_assoc, ← terminal_write_append]
    exact congrArg (terminalWrite · promptText)
      (terminal_write_append [0x0A] (reportText statistics line))

theorem shell_enter_eq (holds : HoldsLine machine.shell line) (running : machine.halted = false) :
    shellEnter stack statistics machine = shellReturns (entered statistics machine line) := by
  have fits := holds.fits
  have length := holds.length
  have ended := line_ended_holds holds
  have halts := @line_ended_halts statistics machine line running
  have checked : storeLineChecked (printed machine [0x0A]).shell machine.shell.shellLineLen 0 =
      .ok (lineEnded machine line).shell := if_pos (by omega)
  obtain ⟨rest, memory⟩ := line_memory_split ended
  have str := string_at_eq rest (line_no_nul ended)
  rw [← memory] at str
  have writes := @entered_writes statistics machine line
  rw [enterText, ← terminal_write_append] at writes
  rw [shellEnter]
  refine returns_bind _ writes fun mapped => ?_
  have executes : shellExecute stack statistics
      (logEvent { printed machine [0x0A] with shell := (lineEnded machine line).shell }
        (.executes line)) = shellReturns (executed statistics (lineEnded machine line) line) :=
    shell_execute_eq ended mapped
  refine (ok_bind checked).trans ?_
  refine (ok_bind str).trans ?_
  refine (congrArg (Except.bind · _) executes).trans ?_
  by_cases pfault : line = pfaultName.bytes
  · rw [entered, if_pos pfault]
    refine returns_bind [] rfl fun mapped => ?_
    rw [if_pos (halts.trans (beq_iff_eq.mpr pfault)), shellReturns, if_pos mapped]
  · rw [entered, if_neg pfault]
    refine returns_bind promptText rfl fun _ => ?_
    rw [if_neg (by rw [halts, beq_eq_false_iff_ne.mpr pfault]; exact Bool.false_ne_true)]

/-- Behind Enter the line is empty, but for `pfault`. -/
theorem entered_holds (holds : HoldsLine machine.shell line) (running : machine.halted = false) :
    Holds (entered statistics machine line) (line == pfaultName.bytes)
      (if line = pfaultName.bytes then line else []) (machine.events ++ eventsOf line) := by
  have halts := @line_ended_halts statistics machine line running
  have traced : (executed statistics (lineEnded machine line) line).events =
      machine.events ++ eventsOf line := List.append_assoc _ _ _
  rw [entered]
  by_cases pfault : line = pfaultName.bytes
  · rw [if_pos pfault, if_pos pfault]
    exact ⟨holds_terminal (line_ended_holds holds) _, halts, traced⟩
  · rw [if_neg pfault, if_neg pfault]
    exact ⟨holds_reset _, halts, traced⟩

theorem shell_key_spec (holds : HoldsLine machine.shell line) (running : machine.halted = false)
    (c : UInt8) :
    ∃ after, shellKey stack statistics machine c = shellReturns after ∧
      after.shell.terminal = terminalWrite machine.shell.terminal
        (if c = 0x0A then enterText statistics line else echoText line c) ∧
      if c = 0x0A then
        Holds after (line == pfaultName.bytes) (if line = pfaultName.bytes then line else [])
          (machine.events ++ eventsOf line)
      else Holds after false (editLine line c) machine.events := by
  have going : ¬machine.halted = true := by
    rw [running]
    exact Bool.false_ne_true
  rw [shellKey, if_neg going]
  by_cases enter : c = 0x0A
  · simp only [if_pos enter]
    exact ⟨entered statistics machine line, shell_enter_eq holds running,
      entered_writes machine line, entered_holds holds running⟩
  · have fits : machine.shell.shellLineLen < shellLineMax := holds.length ▸ holds.fits
    simp only [if_neg enter, shell_edit_checked_eq fits, bind, Except.bind]
    exact ⟨_, rfl, edit_writes holds c, holds_edit holds c, running, rfl⟩

end Keys

/-! ## Runs -/

/-- The keys in front of each Enter, from the Enter before it on, and those behind the last. -/
structure Typed where
  lines : List (List UInt8)
  current : List UInt8

def typeKey (typed : Typed) (c : UInt8) : Typed :=
  if c = 0x0A then { lines := typed.lines ++ [typed.current], current := [] }
  else { typed with current := typed.current ++ [c] }

def typed (keys : List UInt8) : Typed := keys.foldl typeKey { lines := [], current := [] }

def enteredLines (keys : List UInt8) : List (List UInt8) := (typed keys).lines.map editedLine

def throughPfault : List (List UInt8) → List (List UInt8)
  | [] => []
  | line :: rest => if line = pfaultName.bytes then [line] else line :: throughPfault rest

/-- The line behind the keys; `pfault` stays in the buffer. -/
def lineBehind (keys : List UInt8) : List UInt8 :=
  if pfaultName.bytes ∈ enteredLines keys then pfaultName.bytes else editedLine (typed keys).current

def keyText (statistics : Statistics) (keys : List UInt8) (c : UInt8) : List UInt8 :=
  if pfaultName.bytes ∈ enteredLines keys then []
  else if c = 0x0A then enterText statistics (editedLine (typed keys).current)
  else echoText (editedLine (typed keys).current) c

def textBehind (statistics : Statistics) : (front keys : List UInt8) → List UInt8
  | _, [] => []
  | front, c :: rest => keyText statistics front c ++ textBehind statistics (front ++ [c]) rest

/-- All that the shell prints for the keys. -/
def shellText (statistics : Statistics) (keys : List UInt8) : List UInt8 :=
  bannerText.bytes ++ (promptText ++ textBehind statistics [] keys)

/-- What is in `shell_line` behind the keys, and what has been executed by then. -/
structure ExecutesLines (machine : ShellMachine) (keys : List UInt8) : Prop where
  length : machine.shell.shellLineLen ≤ 127
  ended : machine.shell.shellLine machine.shell.shellLineLen = 0
  filled : ∀ index < machine.shell.shellLineLen, machine.shell.shellLine index ≠ 0
  stored : (List.range machine.shell.shellLineLen).map machine.shell.shellLine = lineBehind keys
  halted : machine.halted = true ↔ pfaultName.bytes ∈ enteredLines keys
  events : machine.events = (throughPfault (enteredLines keys)).flatMap eventsOf

section Runs

variable {stack : CharBuffer} {statistics : Statistics} {machine : ShellMachine}
  {keys : List UInt8} {c : UInt8}

theorem text_behind_concat (front keys : List UInt8) (c : UInt8) :
    textBehind statistics front (keys ++ [c]) =
      textBehind statistics front keys ++ keyText statistics (front ++ keys) c := by
  induction keys generalizing front with
  | nil =>
      rw [List.nil_append, textBehind, textBehind, textBehind, List.append_nil, List.append_nil,
        List.nil_append]
  | cons key keys ih =>
      rw [List.cons_append, textBehind, textBehind, ih, List.append_assoc, List.append_assoc,
        List.singleton_append]

theorem shell_text_concat (keys : List UInt8) (c : UInt8) :
    shellText statistics (keys ++ [c]) =
      shellText statistics keys ++ keyText statistics keys c := by
  simp only [shellText, text_behind_concat, List.nil_append, List.append_assoc]

theorem typed_concat (keys : List UInt8) (c : UInt8) :
    typed (keys ++ [c]) = typeKey (typed keys) c := by
  rw [typed, List.foldl_append]
  rfl

theorem entered_enter (keys : List UInt8) :
    enteredLines (keys ++ [0x0A]) = enteredLines keys ++ [editedLine (typed keys).current] := by
  rw [enteredLines, typed_concat, typeKey, if_pos rfl, List.map_append]
  rfl

theorem entered_other (other : c ≠ 0x0A) : enteredLines (keys ++ [c]) = enteredLines keys := by
  rw [enteredLines, typed_concat, typeKey, if_neg other]
  rfl

theorem current_other (other : c ≠ 0x0A) :
    editedLine (typed (keys ++ [c])).current = editLine (editedLine (typed keys).current) c := by
  rw [typed_concat, typeKey, if_neg other, editedLine, List.foldl_append]
  rfl

theorem through_pfault_concat (lines : List (List UInt8)) (line : List UInt8) :
    throughPfault (lines ++ [line]) =
      if pfaultName.bytes ∈ lines then throughPfault lines else throughPfault lines ++ [line] := by
  induction lines with
  | nil =>
      rw [if_neg List.not_mem_nil, List.nil_append, throughPfault, throughPfault]
      split
      · rfl
      · rfl
  | cons first lines ih =>
      rw [List.cons_append, throughPfault, throughPfault]
      by_cases pfault : first = pfaultName.bytes
      · rw [if_pos pfault, if_pos pfault, if_pos (pfault ▸ List.mem_cons_self)]
      · have same : pfaultName.bytes ∈ first :: lines ↔ pfaultName.bytes ∈ lines := by
          rw [List.mem_cons]
          exact or_iff_right fun equal => pfault equal.symm
        rw [if_neg pfault, if_neg pfault, ih]
        simp only [same]
        split
        · rfl
        · rfl

def Follows (machine : ShellMachine) (keys : List UInt8) : Prop :=
  Holds machine (decide (pfaultName.bytes ∈ enteredLines keys)) (lineBehind keys)
    ((throughPfault (enteredLines keys)).flatMap eventsOf)

theorem follows_halted (follows : Follows machine keys)
    (pfault : pfaultName.bytes ∈ enteredLines keys) (c : UInt8) :
    shellKey stack statistics machine c = .ok machine ∧ Follows machine (keys ++ [c]) := by
  have halted : machine.halted = true := follows.halts.trans (decide_eq_true pfault)
  refine ⟨by rw [shellKey, if_pos halted], ?_⟩
  have still : pfaultName.bytes ∈ enteredLines (keys ++ [c]) ∧
      throughPfault (enteredLines (keys ++ [c])) = throughPfault (enteredLines keys) := by
    by_cases enter : c = 0x0A
    · subst enter
      rw [entered_enter, through_pfault_concat, if_pos pfault]
      exact ⟨List.mem_append_left _ pfault, rfl⟩
    · rw [entered_other enter]
      exact ⟨pfault, rfl⟩
  have held := follows.held
  rw [lineBehind, if_pos pfault] at held
  refine ⟨?_, halted.trans (decide_eq_true still.1).symm, ?_⟩
  · rw [lineBehind, if_pos still.1]
    exact held
  · rw [still.2]
    exact follows.traced

theorem follows_running (follows : Follows machine keys)
    (running : pfaultName.bytes ∉ enteredLines keys) (c : UInt8) :
    ∃ after, shellKey stack statistics machine c = shellReturns after ∧
      after.shell.terminal = terminalWrite machine.shell.terminal (keyText statistics keys c) ∧
      Follows after (keys ++ [c]) := by
  have held := follows.held
  rw [lineBehind, if_neg running] at held
  obtain ⟨after, run, writes, holds⟩ := @shell_key_spec stack statistics machine _ held
    (follows.halts.trans (decide_eq_false running)) c
  rw [keyText, if_neg running]
  refine ⟨after, run, writes, ?_⟩
  by_cases enter : c = 0x0A
  · subst enter
    rw [if_pos rfl, follows.traced] at holds
    have entered := entered_enter keys
    have empty : editedLine (typed (keys ++ [0x0A])).current = [] := by
      rw [typed_concat, typeKey, if_pos rfl]
      rfl
    have found : pfaultName.bytes ∈ enteredLines (keys ++ [0x0A]) ↔
        editedLine (typed keys).current = pfaultName.bytes := by
      rw [entered, List.mem_append, List.mem_singleton, or_iff_right running]
      exact eq_comm
    refine ⟨?_, ?_, ?_⟩
    · rw [lineBehind, empty]
      by_cases pfault : editedLine (typed keys).current = pfaultName.bytes
      · have same := holds.held
        rw [if_pos pfault, pfault] at same
        rw [if_pos (found.mpr pfault)]
        exact same
      · have same := holds.held
        rw [if_neg pfault] at same
        rw [if_neg (fun member => pfault (found.mp member))]
        exact same
    · rw [holds.halts, decide_eq_decide.mpr found, beq_eq_decide]
    · rw [holds.traced, entered, through_pfault_concat, if_neg running, List.flatMap_append,
        List.flatMap_singleton]
  · rw [if_neg enter, follows.traced] at holds
    have same := @entered_other keys c enter
    refine ⟨?_, ?_, ?_⟩
    · rw [lineBehind, same, if_neg running, current_other enter]
      exact holds.held
    · rw [holds.halts, same, decide_eq_false running]
    · rw [holds.traced, same]

/-- The run prints its text and follows its keys, as far as the text stays on the page. -/
theorem shell_run_follows (stack : CharBuffer) (statistics : Statistics) (start : ShellState)
    (keys : List UInt8) :
    ∃ machine, shellRun stack statistics start keys = shellReturns machine ∧
      machine.shell.terminal = terminalWrite start.terminal (shellText statistics keys) ∧
      Follows machine keys := by
  induction keys using List.reverseRecOn with
  | nil =>
      have bannered : terminalWritestring start.terminal bannerText.object =
          terminalWrite start.terminal bannerText.bytes := rfl
      refine ⟨⟨shellPrompt (shellResetLine { start with
        terminal := terminalWrite start.terminal bannerText.bytes }), false, []⟩, ?_, ?_,
        holds_reset _, rfl, rfl⟩
      · rw [shellRun, shellStart, bannered]
        simp only [List.foldlM_nil, bind_pure]
        exact returns_bind promptText (prompt_writes _) fun _ => rfl
      · rw [prompt_writes, shellText, textBehind, List.append_nil, ← terminal_write_append]
  | append_singleton keys c ih =>
      obtain ⟨machine, run, writes, follows⟩ := ih
      have next : shellRun stack statistics start (keys ++ [c]) =
          (shellReturns machine).bind fun machine => shellKey stack statistics machine c := by
        rw [← run, shellRun, shellRun]
        simp only [List.foldlM_append, List.foldlM_cons, List.foldlM_nil, bind_pure]
        exact (bind_assoc _ _ _).symm
      rw [next, shell_text_concat, ← terminal_write_append, ← writes]
      by_cases pfault : pfaultName.bytes ∈ enteredLines keys
      · obtain ⟨same, still⟩ := @follows_halted stack statistics machine keys follows pfault c
        rw [keyText, if_pos pfault]
        refine ⟨machine, returns_bind [] rfl fun mapped => ?_, rfl, still⟩
        rw [same, returns_ok_iff.mpr mapped]
      · obtain ⟨after, goes, printed, still⟩ :=
          @follows_running stack statistics machine keys follows pfault c
        exact ⟨after, returns_bind _ printed fun _ => goes, printed, still⟩

theorem executes_lines_of_follows (follows : Follows machine keys) : ExecutesLines machine keys := by
  have held := follows.held
  have length := held.length
  have fits := held.fits
  have stored := held.stored
  refine ⟨?_, ?_, ?_, ?_, ?_, follows.traced⟩
  · rw [shellLineMax] at fits
    omega
  · rw [length]
    exact held.ended
  · intro index before
    rw [length] at before
    have member : machine.shell.shellLine index ∈ lineBehind keys := by
      rw [← stored]
      exact List.mem_map_of_mem (List.mem_range.mpr before)
    exact printable_ne_nul (held.printable _ member)
  · rw [length]
    exact stored
  · rw [follows.halts, decide_eq_true_eq]

theorem shell_run_stays (stack : CharBuffer) (statistics : Statistics) {start : ShellState}
    (shown : OnScreen start.terminal) (keys : List UInt8) :
    ∃ machine, Follows machine keys ∧
      machine.shell.terminal = terminalWrite start.terminal (shellText statistics keys) ∧
      shellRun stack statistics start keys =
        if StaysOnPage (cursorOf start.terminal) (shellText statistics keys) then .ok machine
        else .error .unmapped := by
  obtain ⟨machine, run, writes, follows⟩ := shell_run_follows stack statistics start keys
  refine ⟨machine, follows, writes, run.trans ?_⟩
  have stays := @write_mapped_iff start.terminal (shellText statistics keys) (in_page_of_shown shown)
  simp only [shellReturns, writes, stays]

/-- For every sequence of keys: as long as the text stays on the page, no store leaves
`shell_line`, the buffer holds the line as a string, and at each Enter exactly the edited line
is executed and reported. With a line in the buffer `shell_execute` does what its name, if it
is one, stands for. The first glyph behind the page ends the run with a page fault. -/
theorem shell_executes_lines_iff (stack : CharBuffer) (statistics : Statistics) (start : ShellState)
    (shown : OnScreen start.terminal) (keys : List UInt8) :
    ((∃ machine, shellRun stack statistics start keys = .ok machine ∧
        ExecutesLines machine keys ∧
        machine.shell.terminal = terminalWrite start.terminal (shellText statistics keys)) ↔
      StaysOnPage (cursorOf start.terminal) (shellText statistics keys)) ∧
    (¬StaysOnPage (cursorOf start.terminal) (shellText statistics keys) →
      shellRun stack statistics start keys = .error .unmapped) ∧
    ∀ (machine : ShellMachine) (line : List UInt8), InPage machine.shell.terminal →
      HoldsLine machine.shell line →
        (shellExecute stack statistics machine = .ok (executed statistics machine line) ↔
          StaysOnPage (cursorOf machine.shell.terminal) (reportText statistics line)) := by
  obtain ⟨machine, follows, writes, run⟩ := shell_run_stays stack statistics shown keys
  refine ⟨⟨?_, fun stays => ?_⟩, fun leaves => ?_, ?_⟩
  · rintro ⟨after, returned, _⟩
    by_contra leaves
    rw [run, if_neg leaves] at returned
    cases returned
  · rw [if_pos stays] at run
    exact ⟨machine, run, executes_lines_of_follows follows, writes⟩
  · rw [run, if_neg leaves]
  · intro machine line inPage holds
    rw [shell_execute_eq holds inPage.mapped, returns_ok_iff]
    exact write_mapped_iff inPage

end Runs

/-- A corrected line, an empty one, and keys behind `pfault`. -/
def correctedKeys : List UInt8 := asciiBytes "men\x08m\n\npfault\nhelp\n"

theorem blank_shell_shown : OnScreen blankShell.terminal := initialize_on_screen darkTerminal

theorem shell_executes_corrected :
    ∃ machine, shellRun ⟨List.replicate 32 0xAA, rfl⟩ ⟨10, 30, 20, 40, 50⟩ blankShell correctedKeys =
        .ok machine ∧
      machine.events = [.executes (asciiBytes "mem"), .mem, .executes [],
        .executes (asciiBytes "pfault"), .pfault] := by
  obtain ⟨machine, run, executes, _⟩ := (shell_executes_lines_iff ⟨List.replicate 32 0xAA, rfl⟩
    ⟨10, 30, 20, 40, 50⟩ blankShell blank_shell_shown correctedKeys).1.mpr (by decide +kernel)
  exact ⟨machine, run, executes.events.trans (by decide)⟩

/-- Down to the last row, 56 letters, a tab that is met in column 62, and 49 letters. -/
def wideKeys : List UInt8 :=
  List.replicate 23 0x0A ++ List.replicate 56 0x61 ++ 0x09 :: List.replicate 49 0x61

/-- The line is echoed on the page, but in its report the tab is met in column 73. -/
theorem wide_line_not_reported :
    (∃ machine, shellRun ⟨List.replicate 32 0xAA, rfl⟩ ⟨10, 30, 20, 40, 50⟩ blankShell wideKeys =
        .ok machine ∧ machine.shell.shellLineLen = 106) ∧
      shellRun ⟨List.replicate 32 0xAA, rfl⟩ ⟨10, 30, 20, 40, 50⟩ blankShell (wideKeys ++ [0x0A]) =
        .error .unmapped := by
  obtain ⟨machine, follows, _, run⟩ := shell_run_stays ⟨List.replicate 32 0xAA, rfl⟩
    ⟨10, 30, 20, 40, 50⟩ blank_shell_shown wideKeys
  obtain ⟨_, _, _, later⟩ := shell_run_stays ⟨List.replicate 32 0xAA, rfl⟩
    ⟨10, 30, 20, 40, 50⟩ blank_shell_shown (wideKeys ++ [0x0A])
  refine ⟨⟨machine, ?_, ?_⟩, ?_⟩
  · rw [run, if_pos (by decide +kernel)]
  · exact follows.held.length.trans (by decide +kernel)
  · rw [later, if_neg (by decide +kernel)]

end SimplyOs.ShellCommands
