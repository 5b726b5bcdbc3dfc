import Mathlib.Data.List.Infix
import SimplyOs.Shell
import SimplyOs.TtyScreen

/-!
# The echo of the line

A backspace takes one character from the line and moves the cursor one column back.
These agree unless the character filled the row, so that the cursor is in the first
column of the next one, or is a tab that does not fill exactly one column.
-/

namespace SimplyOs.ShellEcho

open SimplyOs.Word SimplyOs.Tty SimplyOs.TtyBounds SimplyOs.TtyScreen SimplyOs.Shell

set_option autoImplicit false

def screenSize : Nat := vgaWidth * vgaHeight

/-- The same cells of the screen and the same cursor. -/
structure SameScreen (left right : Terminal) : Prop where
  row : left.row = right.row
  column : left.column = right.column
  cells : ∀ place < screenSize, left.buffer place = right.buffer place

section Screens

variable {left right terminal : Terminal}

theorem same_screen_symm (same : SameScreen left right) : SameScreen right left :=
  ⟨same.row.symm, same.column.symm, fun place inside => (same.cells place inside).symm⟩

theorem same_screen_trans {third : Terminal} (one : SameScreen left right)
    (two : SameScreen right third) : SameScreen left third :=
  ⟨one.row.trans two.row, one.column.trans two.column,
    fun place inside => (one.cells place inside).trans (two.cells place inside)⟩

theorem sync_same_screen (terminal : Terminal) : SameScreen (terminalSyncCursor terminal) terminal :=
  ⟨rfl, rfl, fun _ _ => rfl⟩

/-! ## The color -/

theorem newline_color (terminal : Terminal) : (terminalNewline terminal).color = terminal.color := by
  rw [terminalNewline]
  simp only
  split
  · exact scroll_keeps Terminal.color (fun _ _ _ => rfl) (fun _ _ => rfl) _
  · rfl

theorem tab_color (fuel : Nat) (terminal : Terminal) :
    (terminalTab fuel terminal).color = terminal.color := by
  induction fuel generalizing terminal with
  | zero => rfl
  | succ fuel ih =>
      rw [terminalTab]
      split
      · exact ih (putAtCursor terminal 0x20)
      · rfl

theorem step_back_color (terminal : Terminal) : (stepBack terminal).color = terminal.color := by
  rw [stepBack]
  split
  · rfl
  · rfl

theorem glyph_color (terminal : Terminal) (uc : UInt8) :
    (writeGlyph terminal uc).color = terminal.color := by
  rw [writeGlyph]
  split
  · exact newline_color (putAtCursor terminal uc)
  · rfl

/-- Only `terminal_setcolor` changes the color. -/
theorem putchar_color (terminal : Terminal) (uc : UInt8) :
    (terminalPutchar terminal uc).color = terminal.color := by
  rcases putchar_cases uc with ⟨_, run⟩ | ⟨_, run⟩ | ⟨_, run⟩ | ⟨_, run⟩ | ⟨_, run⟩ |
    ⟨_, _, _, _, _, run⟩
  · rw [run]
    exact newline_color terminal
  · rw [run]
    rfl
  · rw [run]
    exact step_back_color terminal
  · rw [run]
    exact tab_color tabWidth terminal
  · rw [run]
  · rw [run]
    exact glyph_color terminal uc

theorem fold_color (bytes : List UInt8) (terminal : Terminal) :
    (bytes.foldl terminalPutchar terminal).color = terminal.color := by
  induction bytes generalizing terminal with
  | nil => rfl
  | cons byte bytes ih => rw [List.foldl_cons, ih, putchar_color]

/-! ## One character on two equal screens -/

theorem put_same_screen (same : SameScreen left right) (color : left.color = right.color)
    (uc : UInt8) : SameScreen (putAtCursor left uc) (putAtCursor right uc) := by
  refine ⟨same.row, ?_, ?_⟩
  · have next : add32 left.column 1 = add32 right.column 1 := by rw [same.column]
    exact next
  · intro place inside
    have stored (terminal : Terminal) : (putAtCursor terminal uc).buffer place =
        if place = cellIndex terminal.column terminal.row then vgaEntry uc terminal.color
        else terminal.buffer place := rfl
    rw [stored, stored, same.row, same.column, color, same.cells place inside]

theorem newline_same_screen (same : SameScreen left right) (color : left.color = right.color) :
    SameScreen (terminalNewline left) (terminalNewline right) := by
  rw [terminalNewline, terminalNewline, same.row]
  simp only
  by_cases last : add32 right.row 1 ≥ vgaHeight
  · rw [if_pos last, if_pos last]
    obtain ⟨leftRow, leftColumn, _⟩ :=
      terminal_scroll_spec { left with column := 0, row := add32 right.row 1 }
    obtain ⟨rightRow, rightColumn, _⟩ :=
      terminal_scroll_spec { right with column := 0, row := add32 right.row 1 }
    refine ⟨leftRow.trans rightRow.symm, leftColumn.trans rightColumn.symm, ?_⟩
    intro place inside
    rw [scroll_buffer, scroll_buffer]
    simp only [color]
    by_cases upper : place < (vgaHeight - 1) * vgaWidth
    · have source : place + vgaWidth < screenSize := by
        have size : screenSize = (vgaHeight - 1) * vgaWidth + vgaWidth := rfl
        omega
      rw [if_pos upper, if_pos upper]
      exact same.cells _ source
    · have within : place < vgaWidth * vgaHeight := inside
      rw [if_neg upper, if_neg upper, if_pos within, if_pos within]
  · rw [if_neg last, if_neg last]
    exact ⟨rfl, rfl, same.cells⟩

theorem tab_same_screen (same : SameScreen left right) (color : left.color = right.color)
    (fuel : Nat) : SameScreen (terminalTab fuel left) (terminalTab fuel right) := by
  induction fuel generalizing left right with
  | zero => exact same
  | succ fuel ih =>
      rw [terminalTab, terminalTab, same.column]
      split
      · exact ih (put_same_screen same color 0x20) color
      · exact same

theorem backspace_same_screen (same : SameScreen left right) (color : left.color = right.color) :
    SameScreen (stepBack left) (stepBack right) := by
  rw [stepBack, stepBack, same.column]
  by_cases moved : right.column > 0
  · rw [if_pos moved, if_pos moved]
    refine ⟨same.row, rfl, ?_⟩
    intro place inside
    have stored (terminal : Terminal) (column : Nat) :
        (terminalPutentryat { terminal with column := column } 0x20 terminal.color column
          terminal.row).buffer place =
        if place = cellIndex column terminal.row then vgaEntry 0x20 terminal.color
        else terminal.buffer place := rfl
    rw [stored, stored, same.row, color, same.cells place inside]
  · rw [if_neg moved, if_neg moved]
    exact same

theorem glyph_same_screen (same : SameScreen left right) (color : left.color = right.color)
    (uc : UInt8) : SameScreen (writeGlyph left uc) (writeGlyph right uc) := by
  have written := put_same_screen same color uc
  rw [writeGlyph, writeGlyph, written.column]
  by_cases full : (putAtCursor right uc).column = vgaWidth
  · rw [if_pos full, if_pos full]
    exact newline_same_screen written color
  · rw [if_neg full, if_neg full]
    exact written

theorem sync_both (same : SameScreen left right) :
    SameScreen (terminalSyncCursor left) (terminalSyncCursor right) :=
  ⟨same.row, same.column, same.cells⟩

theorem putchar_same_screen (same : SameScreen left right) (color : left.color = right.color)
    (uc : UInt8) : SameScreen (terminalPutchar left uc) (terminalPutchar right uc) := by
  rcases putchar_cases uc with ⟨_, run⟩ | ⟨_, run⟩ | ⟨_, run⟩ | ⟨_, run⟩ | ⟨_, run⟩ |
    ⟨_, _, _, _, _, run⟩
  · rw [run, run]
    exact sync_both (newline_same_screen same color)
  · rw [run, run]
    exact sync_both ⟨same.row, rfl, same.cells⟩
  · rw [run, run]
    exact sync_both (backspace_same_screen same color)
  · rw [run, run]
    exact sync_both (tab_same_screen same color tabWidth)
  · rw [run, run]
    exact same
  · rw [run, run]
    exact sync_both (glyph_same_screen same color uc)

end Screens

/-! ## Where glyphs go -/

def glyphColumn (column : Nat) (c : UInt8) : Nat :=
  if c = 0x09 then
    if column < vgaWidth then (column + 7) / tabWidth * tabWidth else column
  else if column + 1 = vgaWidth then 0
  else column + 1

/-- A backspace erases the glyph that begins in a column. -/
def Erasable (column : Nat) (c : UInt8) : Prop :=
  if c = 0x09 then column = 0 ∨ (column < vgaWidth ∧ column % tabWidth = 7)
  else column + 1 ≠ vgaWidth

instance (column : Nat) (c : UInt8) : Decidable (Erasable column c) :=
  inferInstanceAs (Decidable (if c = 0x09 then _ else _))

structure Ready (terminal : Terminal) : Prop where
  row : terminal.row < vgaHeight
  blank : ∀ place, terminal.row * vgaWidth + terminal.column ≤ place → place < screenSize →
    terminal.buffer place = vgaEntry 0x20 terminal.color

section Glyphs

variable {terminal : Terminal} {c : UInt8}

theorem glyph_column_le (column : Nat) (c : UInt8) : glyphColumn column c ≤ column + 8 := by
  have width : tabWidth = 8 := rfl
  rw [glyphColumn, width]
  split
  · split
    · omega
    · omega
  · split
    · omega
    · omega

theorem cursor_index (ready : Ready terminal) (small : terminal.column < 2 ^ 16) :
    cellIndex terminal.column terminal.row = terminal.row * vgaWidth + terminal.column := by
  have row := ready.row
  simp only [vgaHeight] at row
  have bound : terminal.row * vgaWidth ≤ 25 * vgaWidth := Nat.mul_le_mul_right vgaWidth (by omega)
  have width : 25 * vgaWidth = 2000 := rfl
  rw [cellIndex, add32_eq (by omega)]

theorem put_ready (ready : Ready terminal) (small : terminal.column < 2 ^ 16) (uc : UInt8) :
    Ready (putAtCursor terminal uc) ∧ (putAtCursor terminal uc).column = terminal.column + 1 := by
  have sum : add32 terminal.column 1 = terminal.column + 1 := add32_eq (by omega)
  have next : (putAtCursor terminal uc).column = terminal.column + 1 := sum
  refine ⟨⟨ready.row, ?_⟩, next⟩
  intro place behind inside
  rw [next] at behind
  have later : terminal.row * vgaWidth + (terminal.column + 1) ≤ place := behind
  have stored : (putAtCursor terminal uc).buffer place =
      if place = cellIndex terminal.column terminal.row then vgaEntry uc terminal.color
      else terminal.buffer place := rfl
  rw [stored, cursor_index ready small, if_neg (by omega)]
  exact ready.blank place (by omega) inside

theorem newline_ready (ready : Ready terminal) (full : terminal.column = vgaWidth) :
    Ready (terminalNewline terminal) ∧ (terminalNewline terminal).column = 0 := by
  have row := ready.row
  have height : vgaHeight = 25 := rfl
  have next : add32 terminal.row 1 = terminal.row + 1 := add32_eq (by omega)
  rw [terminalNewline]
  simp only [next]
  by_cases last : terminal.row + 1 ≥ vgaHeight
  · rw [if_pos last]
    generalize moved : ({ terminal with column := 0, row := terminal.row + 1 } : Terminal) = before
    have beforeRow : before.row = 25 := by
      rw [← moved]
      simp only
      omega
    have beforeColumn : before.column = 0 := by rw [← moved]
    obtain ⟨scrolledRow, scrolledColumn, _⟩ := terminal_scroll_spec before
    have color : (terminalScroll before).color = before.color :=
      scroll_keeps Terminal.color (fun _ _ _ => rfl) (fun _ _ => rfl) before
    refine ⟨⟨by rw [scrolledRow, beforeRow]; decide, ?_⟩, scrolledColumn.trans beforeColumn⟩
    intro place behind inside
    have lastRow : (25 - 1) * vgaWidth = (vgaHeight - 1) * vgaWidth := rfl
    have within : place < vgaWidth * vgaHeight := inside
    rw [scrolledRow, beforeRow, scrolledColumn, beforeColumn, lastRow] at behind
    rw [scroll_buffer, color, if_neg (by omega), if_pos within]
  · rw [if_neg last]
    refine ⟨⟨Nat.not_le.mp last, ?_⟩, rfl⟩
    intro place behind inside
    have rows : (terminal.row + 1) * vgaWidth = terminal.row * vgaWidth + vgaWidth :=
      Nat.succ_mul _ _
    simp only at behind
    exact ready.blank place (by omega) inside

/-- The tab loop ends at the next tab stop, the width of the screen included. -/
theorem tab_ready (fuel : Nat) (ready : Ready terminal) (small : terminal.column + 8 < 2 ^ 16)
    (enough : (terminal.column + 7) / tabWidth * tabWidth - terminal.column < fuel) :
    Ready (terminalTab fuel terminal) ∧
      (terminalTab fuel terminal).column = glyphColumn terminal.column 0x09 := by
  induction fuel generalizing terminal with
  | zero => exact absurd enough (Nat.not_lt_zero _)
  | succ fuel ih =>
      have wide : vgaWidth = 80 := rfl
      have width : tabWidth = 8 := rfl
      rw [terminalTab]
      by_cases between : terminal.column < vgaWidth ∧ terminal.column % tabWidth ≠ 0
      · obtain ⟨putReady, next⟩ := put_ready ready (by omega) 0x20
        rw [if_pos between]
        have rounds : (terminal.column + 1 + 7) / tabWidth * tabWidth - (terminal.column + 1) <
            fuel := by
          rw [tab_stop_next between.2]
          rw [width] at between enough ⊢
          omega
        have later := ih putReady (by rw [next]; omega) (by rw [next]; exact rounds)
        have same : glyphColumn (terminal.column + 1) 0x09 = glyphColumn terminal.column 0x09 := by
          rw [glyphColumn, glyphColumn, if_pos rfl, if_pos rfl, if_pos between.1,
            tab_stop_next between.2]
          split
          · rfl
          · rw [width] at between ⊢
            omega
        rwa [next, same] at later
      · have stop : glyphColumn terminal.column 0x09 = terminal.column := by
          rw [glyphColumn, if_pos rfl]
          split
          next inside => exact tab_stop_here (not_not.mp fun more => between ⟨inside, more⟩)
          next => rfl
        rw [if_neg between, stop]
        exact ⟨ready, rfl⟩

theorem sync_ready (ready : Ready terminal) : Ready (terminalSyncCursor terminal) :=
  ⟨ready.row, ready.blank⟩

theorem putchar_tab (terminal : Terminal) :
    terminalPutchar terminal 0x09 = terminalSyncCursor (terminalTab tabWidth terminal) := rfl

theorem putchar_backspace (terminal : Terminal) :
    terminalPutchar terminal 0x08 = terminalSyncCursor (stepBack terminal) := rfl

/-- Among the characters that the shell echoes only the tab is no glyph. -/
theorem putchar_glyph (terminal : Terminal) (printable : shellIsPrintable c = true)
    (glyph : c ≠ 0x09) :
    terminalPutchar terminal c = terminalSyncCursor (writeGlyph terminal c) := by
  rcases putchar_cases c with ⟨rfl, _⟩ | ⟨rfl, _⟩ | ⟨rfl, _⟩ | ⟨tab, _⟩ | ⟨rfl, _⟩ |
    ⟨_, _, _, _, _, run⟩
  · exact absurd printable (by decide)
  · exact absurd printable (by decide)
  · exact absurd printable (by decide)
  · exact absurd tab glyph
  · exact absurd printable (by decide)
  · exact run terminal

theorem glyph_ready (ready : Ready terminal) (small : terminal.column + 8 < 2 ^ 16)
    (printable : shellIsPrintable c = true) :
    Ready (terminalPutchar terminal c) ∧
      (terminalPutchar terminal c).column = glyphColumn terminal.column c := by
  by_cases tab : c = 0x09
  · subst tab
    have width : tabWidth = 8 := rfl
    obtain ⟨after, column⟩ := tab_ready tabWidth ready small (by rw [width]; omega)
    rw [putchar_tab]
    exact ⟨sync_ready after, column⟩
  · obtain ⟨after, next⟩ := put_ready ready (by omega) c
    rw [putchar_glyph terminal printable tab, writeGlyph, glyphColumn, if_neg tab, ← next]
    by_cases full : (putAtCursor terminal c).column = vgaWidth
    · obtain ⟨fresh, first⟩ := newline_ready after full
      rw [if_pos full, if_pos full]
      exact ⟨sync_ready fresh, first⟩
    · rw [if_neg full, if_neg full]
      exact ⟨sync_ready after, rfl⟩

theorem line_ready {line : List UInt8} (ready : Ready terminal)
    (small : terminal.column + 8 * (line.length + 1) < 2 ^ 16)
    (printable : ∀ c ∈ line, shellIsPrintable c = true) :
    Ready (line.foldl terminalPutchar terminal) ∧
      (line.foldl terminalPutchar terminal).column = line.foldl glyphColumn terminal.column ∧
      (line.foldl terminalPutchar terminal).column + 8 < 2 ^ 16 := by
  induction line generalizing terminal with
  | nil => exact ⟨ready, rfl, by rw [List.length_nil] at small; exact small⟩
  | cons c line ih =>
      rw [List.length_cons] at small
      obtain ⟨after, column⟩ := glyph_ready ready (by omega) (printable c List.mem_cons_self)
      have step := glyph_column_le terminal.column c
      have rest := ih after (by rw [column]; omega)
        (fun c member => printable c (List.mem_cons_of_mem _ member))
      rwa [column] at rest

theorem step_back_column (terminal : Terminal) : (stepBack terminal).column = terminal.column - 1 := by
  rw [stepBack]
  by_cases right : terminal.column > 0
  · rw [if_pos right]
    rfl
  · rw [if_neg right]
    omega

theorem put_then_back (ready : Ready terminal) (small : terminal.column < 2 ^ 16) (uc : UInt8) :
    SameScreen (stepBack (putAtCursor terminal uc)) terminal := by
  obtain ⟨_, next⟩ := put_ready ready small uc
  have right : (putAtCursor terminal uc).column > 0 := by
    rw [next]
    exact Nat.succ_pos _
  have left : (putAtCursor terminal uc).column - 1 = terminal.column := by
    rw [next]
    rfl
  rw [stepBack, if_pos right, left]
  refine ⟨rfl, rfl, ?_⟩
  intro place inside
  have stored : (terminalPutentryat { putAtCursor terminal uc with column := terminal.column } 0x20
      terminal.color terminal.column terminal.row).buffer place =
      if place = cellIndex terminal.column terminal.row then vgaEntry 0x20 terminal.color
      else if place = cellIndex terminal.column terminal.row then vgaEntry uc terminal.color
      else terminal.buffer place := rfl
  have index := cursor_index ready small
  change (terminalPutentryat { putAtCursor terminal uc with column := terminal.column } 0x20
      terminal.color terminal.column terminal.row).buffer place = terminal.buffer place
  rw [stored]
  by_cases here : place = cellIndex terminal.column terminal.row
  · rw [if_pos here]
    exact (ready.blank place (by omega) inside).symm
  · rw [if_neg here, if_neg here]

theorem tab_stop (fuel : Nat)
    (stop : ¬(terminal.column < vgaWidth ∧ terminal.column % tabWidth ≠ 0)) :
    terminalTab fuel terminal = terminal := by
  cases fuel with
  | zero => rfl
  | succ fuel => rw [terminalTab, if_neg stop]

/-- A tab in front of the last column before a stop is one blank. -/
theorem tab_single (ready : Ready terminal) (small : terminal.column < 2 ^ 16)
    (last : terminal.column < vgaWidth ∧ terminal.column % tabWidth = 7) :
    terminalTab tabWidth terminal = putAtCursor terminal 0x20 := by
  obtain ⟨_, next⟩ := put_ready ready small 0x20
  have width : tabWidth = 8 := rfl
  have rounds : terminalTab tabWidth terminal =
      if terminal.column < vgaWidth ∧ terminal.column % tabWidth ≠ 0 then
        terminalTab 7 (putAtCursor terminal 0x20)
      else terminal := rfl
  rw [rounds, if_pos ⟨last.1, by omega⟩]
  apply tab_stop
  rw [next]
  rw [width] at last ⊢
  omega

/-- A backspace takes back an echoed character exactly when its glyph is erasable. -/
theorem backspace_undoes_iff (ready : Ready terminal) (small : terminal.column + 8 < 2 ^ 16)
    (printable : shellIsPrintable c = true) :
    SameScreen (terminalPutchar (terminalPutchar terminal c) 0x08) terminal ↔
      Erasable terminal.column c := by
  have narrow : terminal.column < 2 ^ 16 := by omega
  have wide : vgaWidth = 80 := rfl
  have width : tabWidth = 8 := rfl
  constructor
  · intro same
    have column := same.column
    rw [putchar_backspace] at column
    have moved := step_back_column (terminalPutchar terminal c)
    rw [(glyph_ready ready small printable).2] at moved
    have back : glyphColumn terminal.column c - 1 = terminal.column := moved.symm.trans column
    rw [glyphColumn] at back
    rw [Erasable]
    by_cases tab : c = 0x09
    · rw [if_pos tab, width] at back
      rw [if_pos tab, width]
      split at back
      · omega
      · omega
    · rw [if_neg tab] at back
      rw [if_neg tab]
      split at back
      · omega
      · assumption
  · intro erasable
    have back {drawn : Terminal} (undone : SameScreen (stepBack drawn) terminal) :
        SameScreen (terminalPutchar (terminalSyncCursor drawn) 0x08) terminal := by
      have synced := backspace_same_screen (sync_same_screen drawn) rfl
      rw [putchar_backspace]
      exact same_screen_trans (sync_same_screen _) (same_screen_trans synced undone)
    rw [Erasable] at erasable
    by_cases tab : c = 0x09
    · subst tab
      rw [if_pos rfl] at erasable
      rw [putchar_tab]
      apply back
      rcases erasable with first | last
      · rw [tab_stop tabWidth (by rw [first]; decide), stepBack, if_neg (by omega)]
        exact ⟨rfl, rfl, fun _ _ => rfl⟩
      · rw [tab_single ready narrow last]
        exact put_then_back ready narrow 0x20
    · rw [if_neg tab] at erasable
      have next := (put_ready ready narrow c).2
      rw [putchar_glyph terminal printable tab, writeGlyph, if_neg (by rw [next]; exact erasable)]
      apply back
      exact put_then_back ready narrow c

end Glyphs

/-! ## The line -/

def editLine (line : List UInt8) (c : UInt8) : List UInt8 :=
  if c = 0x08 then line.dropLast
  else if shellIsPrintable c = true ∧ line.length < shellLineMax - 1 then line ++ [c]
  else line

def editedLine (keys : List UInt8) : List UInt8 := keys.foldl editLine []

structure HoldsLine (shell : ShellState) (line : List UInt8) : Prop where
  length : shell.shellLineLen = line.length
  fits : line.length < shellLineMax
  printable : ∀ c ∈ line, shellIsPrintable c = true
  stored : (List.range line.length).map shell.shellLine = line
  ended : shell.shellLine line.length = 0

section Line

variable {shell : ShellState} {line : List UInt8}

theorem printable_ne_nul {c : UInt8} (printable : shellIsPrintable c = true) : c ≠ 0 := by
  rintro rfl
  exact absurd printable (by decide)

/-- The line stands at the start of `shell_line`, with a NUL behind it. -/
theorem line_memory_split (holds : HoldsLine shell line) :
    ∃ rest, shellLineMemory shell = line ++ 0 :: rest := by
  have room : shellLineMax = line.length + (1 + (shellLineMax - line.length - 1)) := by
    have fits := holds.fits
    omega
  rw [shellLineMemory, room, List.range_add, List.map_append, holds.stored, Nat.add_comm 1,
    List.range_succ_eq_map, List.map_cons, List.map_cons, Nat.add_zero, holds.ended]
  exact ⟨_, rfl⟩

theorem line_memory_string (holds : HoldsLine shell line) :
    (shellLineMemory shell).takeWhile (fun byte => byte != 0) = line := by
  obtain ⟨rest, memory⟩ := line_memory_split holds
  rw [memory, List.takeWhile_append_of_pos]
  · exact List.append_nil line
  · intro c member
    rw [bne_iff_ne]
    exact printable_ne_nul (holds.printable c member)

theorem holds_backspace {c : UInt8} (holds : HoldsLine shell (line ++ [c])) (terminal : Terminal) :
    HoldsLine { storeLine { shell with shellLineLen := shell.shellLineLen - 1 }
      (shell.shellLineLen - 1) 0 with terminal := terminal } line := by
  have length := holds.length
  have fits := holds.fits
  have stored := holds.stored
  rw [List.length_append, List.length_singleton] at length fits stored
  rw [List.range_succ, List.map_append, List.map_singleton] at stored
  have shorter : shell.shellLineLen - 1 = line.length := by omega
  have front := (List.append_inj' stored rfl).1
  rw [shorter]
  refine ⟨rfl, by omega, fun c member => holds.printable c (List.mem_append_left _ member), ?_,
    if_pos rfl⟩
  refine (List.map_congr_left ?_).trans front
  intro index member
  exact if_neg (Nat.ne_of_lt (List.mem_range.mp member))

theorem holds_append {c : UInt8} (holds : HoldsLine shell line)
    (printable : shellIsPrintable c = true) (room : line.length < shellLineMax - 1)
    (terminal : Terminal) :
    HoldsLine { storeLine { storeLine shell shell.shellLineLen c with
        shellLineLen := shell.shellLineLen + 1 } (shell.shellLineLen + 1) 0 with
      terminal := terminal } (line ++ [c]) := by
  have length := holds.length
  have after : (line ++ [c]).length = line.length + 1 := List.length_append
  rw [length]
  refine ⟨after.symm, ?_, ?_, ?_, ?_⟩
  · rw [after]
    omega
  · intro other member
    rcases List.mem_append.mp member with older | last
    · exact holds.printable other older
    · rw [List.mem_singleton.mp last]
      exact printable
  · rw [after, List.range_succ, List.map_append, List.map_singleton]
    have last : (if line.length = line.length + 1 then 0
        else if line.length = line.length then c else shell.shellLine line.length) = c := by
      rw [if_neg (by omega), if_pos rfl]
    refine congrArg₂ (· ++ ·) ((List.map_congr_left ?_).trans holds.stored)
      (congrArg (fun byte => [byte]) last)
    intro index member
    have before := List.mem_range.mp member
    have outside : index ≠ line.length + 1 := by omega
    exact (if_neg outside).trans (if_neg (Nat.ne_of_lt before))
  · rw [after]
    exact if_pos rfl

theorem holds_edit (holds : HoldsLine shell line) (c : UInt8) :
    HoldsLine (shellEdit shell c) (editLine line c) := by
  have length := holds.length
  rw [shellEdit, editLine]
  by_cases backspace : c = 0x08
  · rw [if_pos backspace, if_pos backspace]
    by_cases filled : shell.shellLineLen > 0
    · have nonempty : line ≠ [] := by
        rw [← List.length_pos_iff]
        omega
      have split := List.dropLast_concat_getLast nonempty
      rw [← split] at holds
      rw [if_pos filled]
      exact holds_backspace holds _
    · have empty : line = [] := by
        rw [← List.length_eq_zero_iff]
        omega
      rw [if_neg filled, empty]
      rw [empty] at holds
      exact holds
  rw [if_neg backspace, if_neg backspace]
  by_cases printable : shellIsPrintable c = true
  · by_cases room : line.length < shellLineMax - 1
    · rw [if_neg (by rw [printable]; decide), if_neg (by omega), if_pos ⟨printable, room⟩]
      exact holds_append holds printable room _
    · rw [if_neg (by rw [printable]; decide), if_pos (by omega), if_neg (fun both => room both.2)]
      exact holds
  · rw [if_pos (by rw [Bool.not_eq_true] at printable; rw [printable]; rfl),
      if_neg (fun both => printable both.1)]
    exact holds

theorem holds_reset (shell : ShellState) : HoldsLine (shellPrompt (shellResetLine shell)) [] :=
  ⟨rfl, by decide, fun _ member => absurd member List.not_mem_nil, rfl, rfl⟩

theorem holds_keys (holds : HoldsLine shell line) (keys : List UInt8) :
    HoldsLine (keys.foldl shellEdit shell) (keys.foldl editLine line) := by
  induction keys generalizing shell line with
  | nil => exact holds
  | cons key keys ih => exact ih (holds_edit holds key)

end Line

/-! ## The echo -/

def promptColumn : Nat := 6

def lineColumn (line : List UInt8) : Nat := line.foldl glyphColumn promptColumn

/-- The last character of the line, if there is one, has a glyph that a backspace erases. -/
def BackspaceFits (line : List UInt8) : Prop :=
  ∀ c ∈ line.getLast?, Erasable (lineColumn line.dropLast) c

instance (line : List UInt8) : Decidable (BackspaceFits line) :=
  inferInstanceAs (Decidable (∀ c ∈ line.getLast?, _))

/-- The screen shows what `shell_line` would show if it were written once behind the prompt. -/
def LineShown (prompted : Terminal) (shell : ShellState) : Prop :=
  SameScreen shell.terminal (terminalWritestring prompted (shellLineMemory shell))

section Echo

variable {shell : ShellState} {line : List UInt8} {prompted : Terminal} {c : UInt8}

theorem line_shown_iff (holds : HoldsLine shell line) :
    LineShown prompted shell ↔
      SameScreen shell.terminal (line.foldl terminalPutchar prompted) := by
  rw [LineShown, terminalWritestring, line_memory_string holds, terminalWrite]

/-- What the shell sends to the terminal. -/
theorem edit_terminal (holds : HoldsLine shell line) (c : UInt8) :
    (shellEdit shell c).terminal =
      if c = 0x08 then
        if line = [] then shell.terminal else terminalPutchar shell.terminal 0x08
      else if shellIsPrintable c = true ∧ line.length < shellLineMax - 1 then
        terminalPutchar shell.terminal c
      else shell.terminal := by
  have length := holds.length
  rw [shellEdit]
  by_cases backspace : c = 0x08
  · rw [if_pos backspace, if_pos backspace]
    by_cases empty : line = []
    · rw [if_pos empty, if_neg (by rw [length, empty]; decide)]
    · have filled := List.length_pos_iff.mpr empty
      rw [if_neg empty, if_pos (by omega)]
      rfl
  rw [if_neg backspace, if_neg backspace]
  by_cases printable : shellIsPrintable c = true
  · by_cases room : line.length < shellLineMax - 1
    · rw [if_neg (by rw [printable]; decide), if_neg (by omega), if_pos ⟨printable, room⟩]
      rfl
    · rw [if_neg (by rw [printable]; decide), if_pos (by omega), if_neg (fun both => room both.2)]
  · rw [if_pos (by rw [Bool.not_eq_true] at printable; rw [printable]; rfl),
      if_neg (fun both => printable both.1)]

theorem edit_color (holds : HoldsLine shell line) (c : UInt8) :
    (shellEdit shell c).terminal.color = shell.terminal.color := by
  rw [edit_terminal holds]
  split
  · split
    · rfl
    · exact putchar_color _ _
  · split
    · exact putchar_color _ _
    · rfl

/-- A backspace keeps the line shown exactly when the glyph that it takes off is erasable. -/
theorem backspace_shown_iff (holds : HoldsLine shell (line ++ [c])) (ready : Ready prompted)
    (column : prompted.column = promptColumn) (color : shell.terminal.color = prompted.color)
    (shown : SameScreen shell.terminal ((line ++ [c]).foldl terminalPutchar prompted)) :
    SameScreen (terminalPutchar shell.terminal 0x08) (line.foldl terminalPutchar prompted) ↔
      Erasable (lineColumn line) c := by
  have fits := holds.fits
  rw [List.length_append, List.length_singleton, shellLineMax] at fits
  have small : prompted.column + 8 * (line.length + 1) < 2 ^ 16 := by
    rw [column, promptColumn]
    omega
  obtain ⟨before, place, narrow⟩ := line_ready ready small
    (fun other member => holds.printable other (List.mem_append_left _ member))
  have printable := holds.printable c (List.mem_append_right line List.mem_cons_self)
  have undoes := backspace_undoes_iff before narrow printable
  rw [place, column] at undoes
  have written : (line ++ [c]).foldl terminalPutchar prompted =
      terminalPutchar (line.foldl terminalPutchar prompted) c := by
    rw [List.foldl_append]
    rfl
  rw [written] at shown
  have sameColor : shell.terminal.color =
      (terminalPutchar (line.foldl terminalPutchar prompted) c).color := by
    rw [putchar_color, fold_color, color]
  have back := putchar_same_screen shown sameColor 0x08
  exact Iff.trans ⟨fun same => same_screen_trans (same_screen_symm back) same,
    fun same => same_screen_trans back same⟩ undoes

/-- One character keeps the line shown unless it is a backspace on such a glyph. -/
theorem edit_shown_iff (holds : HoldsLine shell line) (ready : Ready prompted)
    (column : prompted.column = promptColumn) (color : shell.terminal.color = prompted.color)
    (shown : LineShown prompted shell) (c : UInt8) :
    LineShown prompted (shellEdit shell c) ↔ (c = 0x08 → BackspaceFits line) := by
  have terminal := edit_terminal holds c
  rw [line_shown_iff holds] at shown
  rw [line_shown_iff (holds_edit holds c), terminal, editLine]
  by_cases backspace : c = 0x08
  · rw [if_pos backspace, if_pos backspace]
    by_cases empty : line = []
    · rw [if_pos empty, empty]
      rw [empty] at shown
      refine iff_of_true shown (fun _ last impossible => ?_)
      cases impossible
    · have split := List.dropLast_concat_getLast empty
      rw [if_neg empty]
      generalize line.dropLast = front at split
      generalize line.getLast empty = last at split
      subst split
      rw [backspace_shown_iff holds ready column color shown, BackspaceFits,
        List.getLast?_concat, List.dropLast_concat]
      constructor
      · intro erasable _ final same
        rw [← Option.some.inj same]
        exact erasable
      · intro fits
        exact fits backspace last rfl
  · rw [if_neg backspace, if_neg backspace]
    refine iff_of_true ?_ (fun impossible => absurd impossible backspace)
    by_cases echoed : shellIsPrintable c = true ∧ line.length < shellLineMax - 1
    · rw [if_pos echoed, if_pos echoed, List.foldl_append]
      exact putchar_same_screen shown (by rw [fold_color, color]) c
    · rw [if_neg echoed, if_neg echoed]
      exact shown

end Echo

/-! ## Runs -/

section Runs

variable {start : ShellState}

def promptedShell (start : ShellState) : ShellState := shellPrompt (shellResetLine start)

theorem prompt_ready (row : start.terminal.row < vgaHeight) (column : start.terminal.column = 0)
    (blank : ∀ place, start.terminal.row * vgaWidth ≤ place → place < screenSize →
      start.terminal.buffer place = vgaEntry 0x20 start.terminal.color) :
    Ready (promptedShell start).terminal ∧
      (promptedShell start).terminal.column = promptColumn := by
  have ready : Ready start.terminal := by
    refine ⟨row, fun place behind inside => blank place ?_ inside⟩
    omega
  have text : (promptedShell start).terminal = promptText.foldl terminalPutchar start.terminal := rfl
  have printable : ∀ c ∈ promptText, shellIsPrintable c = true := by decide +kernel
  obtain ⟨after, place, _⟩ := @line_ready start.terminal promptText ready
    (by rw [column]; decide) printable
  rw [column] at place
  rw [text]
  exact ⟨after, place⟩

theorem keys_color {shell : ShellState} {line : List UInt8} (holds : HoldsLine shell line)
    (keys : List UInt8) :
    (keys.foldl shellEdit shell).terminal.color = shell.terminal.color := by
  induction keys generalizing shell line with
  | nil => rfl
  | cons key keys ih => rw [List.foldl_cons, ih (holds_edit holds key), edit_color holds]

theorem run_shows_line_iff {shell : ShellState} (holds : HoldsLine shell [])
    (ready : Ready shell.terminal) (column : shell.terminal.column = promptColumn)
    (keys : List UInt8) :
    (∀ front, front <+: keys → LineShown shell.terminal (front.foldl shellEdit shell)) ↔
      ∀ front, front ++ [0x08] <+: keys → BackspaceFits (editedLine front) := by
  have held (front : List UInt8) :
      HoldsLine (front.foldl shellEdit shell) (editedLine front) := holds_keys holds front
  have step (front : List UInt8) (key : UInt8)
      (shown : LineShown shell.terminal (front.foldl shellEdit shell)) :=
    edit_shown_iff (held front) ready column (keys_color holds front) shown key
  constructor
  · intro shown front met
    have before := shown front ((List.prefix_append front _).trans met)
    have after := shown _ met
    rw [List.foldl_append] at after
    exact (step front 0x08 before).mp after rfl
  · intro fits front
    induction front using List.reverseRecOn with
    | nil =>
        intro _
        rw [line_shown_iff (held [])]
        exact ⟨rfl, rfl, fun _ _ => rfl⟩
    | append_singleton front key ih =>
        intro met
        have before := ih ((List.prefix_append front _).trans met)
        rw [List.foldl_append]
        apply (step front key before).mpr
        rintro rfl
        exact fits front met

/-- From a prompt at the left edge of a row, with the screen blank from there on: the echo
shows the line after every key other than Enter exactly when no backspace meets a
character that filled a row or a tab that does not fill one column. -/
theorem echo_shows_line_iff (start : ShellState) (row : start.terminal.row < vgaHeight)
    (column : start.terminal.column = 0)
    (blank : ∀ place, start.terminal.row * vgaWidth ≤ place → place < screenSize →
      start.terminal.buffer place = vgaEntry 0x20 start.terminal.color) (keys : List UInt8) :
    (∀ front, front <+: keys →
        LineShown (promptedShell start).terminal (front.foldl shellEdit (promptedShell start))) ↔
      ∀ front, front ++ [0x08] <+: keys → BackspaceFits (editedLine front) := by
  obtain ⟨ready, place⟩ := prompt_ready row column blank
  exact run_shows_line_iff (holds_reset start) ready place keys

end Runs

def blankShell : ShellState :=
  { shellLine := fun _ => 0, shellLineLen := 0, terminal := freshTerminal darkTerminal }

theorem blank_shell_blank (place : Nat) (inside : place < screenSize) :
    blankShell.terminal.buffer place = vgaEntry 0x20 blankShell.terminal.color :=
  fresh_terminal_buffer darkTerminal inside

def letterTabKeys : List UInt8 := [0x61, 0x09, 0x08, 0x08]

theorem echo_shows_letter_tab :
    LineShown (promptedShell blankShell).terminal
      (List.foldl shellEdit (promptedShell blankShell) letterTabKeys) := by
  have row : blankShell.terminal.row = 0 := by decide +kernel
  have column : blankShell.terminal.column = 0 := by decide +kernel
  have fits : ∀ front ∈ letterTabKeys.inits, front ++ [0x08] ∈ letterTabKeys.inits →
      BackspaceFits (editedLine front) := by decide +kernel
  apply (echo_shows_line_iff blankShell (by rw [row]; decide) column
    (fun place _ inside => blank_shell_blank place inside) letterTabKeys).mpr
  · intro front met
    have before := (List.prefix_append front _).trans met
    exact fits front ((List.mem_inits _ _).mpr before) ((List.mem_inits _ _).mpr met)
  · exact List.prefix_rfl

/-- A backspace on a tab of two columns erases one of them, and one on a letter that filled
the row erases nothing. -/
theorem echo_differs :
    ¬LineShown (promptedShell blankShell).terminal
        (List.foldl shellEdit (promptedShell blankShell) [0x09, 0x08]) ∧
      ¬LineShown (promptedShell blankShell).terminal
        (List.foldl shellEdit (promptedShell blankShell) (List.replicate 74 0x61 ++ [0x08])) := by
  constructor
  · intro shown
    exact absurd shown.column (by decide +kernel)
  · intro shown
    exact absurd shown.column (by decide +kernel)

end SimplyOs.ShellEcho
