import SimplyOs.TtyBounds

/-!
# The page of the terminal

A call returns exactly when no glyph is due behind the page at `terminal_buffer`. The
cursor alone tells: a tab in the last columns of the last row leaves it on the page, and
glyphs that follow carry it to the page's end.
-/

namespace SimplyOs.TtyPage

open SimplyOs.Word SimplyOs.Tty SimplyOs.TtyBounds

set_option autoImplicit false

/-! ## The cursor -/

structure Cursor where
  row : Nat
  column : Nat
  deriving DecidableEq, Repr

def cursorOf (terminal : Terminal) : Cursor := ⟨terminal.row, terminal.column⟩

def Cursor.cell (cursor : Cursor) : Nat := cursor.row * vgaWidth + cursor.column

def IsGlyph (c : UInt8) : Prop := c ≠ 0x0A ∧ c ≠ 0x0D ∧ c ≠ 0x08 ∧ c ≠ 0x09 ∧ c ≠ 27

instance : DecidablePred IsGlyph := fun c =>
  inferInstanceAs (Decidable (c ≠ 0x0A ∧ c ≠ 0x0D ∧ c ≠ 0x08 ∧ c ≠ 0x09 ∧ c ≠ 27))

def nextRow (cursor : Cursor) : Cursor := ⟨min (cursor.row + 1) (vgaHeight - 1), 0⟩

/-- The cursor behind a character; only a glyph that ends in column 80 wraps. -/
def moveCursor (cursor : Cursor) (c : UInt8) : Cursor :=
  if c = 0x0A then nextRow cursor
  else if c = 0x0D then { cursor with column := 0 }
  else if c = 0x08 then { cursor with column := cursor.column - 1 }
  else if c = 0x09 then
    if cursor.column < vgaWidth then
      { cursor with column := (cursor.column + 7) / tabWidth * tabWidth }
    else cursor
  else if c = 27 then cursor
  else if cursor.column + 1 = vgaWidth then nextRow cursor
  else { cursor with column := cursor.column + 1 }

/-- No glyph of the text is due behind the page. -/
def StaysOnPage : Cursor → List UInt8 → Prop
  | _, [] => True
  | cursor, c :: rest =>
      (IsGlyph c → cursor.cell < mappedEntries) ∧ StaysOnPage (moveCursor cursor c) rest

def decideStaysOnPage : (cursor : Cursor) → (text : List UInt8) → Decidable (StaysOnPage cursor text)
  | _, [] => inferInstanceAs (Decidable True)
  | cursor, c :: rest =>
      have := decideStaysOnPage (moveCursor cursor c) rest
      inferInstanceAs (Decidable ((IsGlyph c → cursor.cell < mappedEntries) ∧
        StaysOnPage (moveCursor cursor c) rest))

instance (cursor : Cursor) (text : List UInt8) : Decidable (StaysOnPage cursor text) :=
  decideStaysOnPage cursor text

/-! ## What has been stored stays on record -/

section Older

variable {terminal : Terminal}

theorem newline_older (terminal : Terminal) :
    terminal.written ⊆ (terminalNewline terminal).written := by
  rw [terminalNewline]
  simp only
  split
  · exact (terminal_scroll_spec
      { terminal with column := 0, row := add32 terminal.row 1 }).2.2.older
  · exact List.Subset.refl _

theorem put_older (terminal : Terminal) (uc : UInt8) :
    terminal.written ⊆ (putAtCursor terminal uc).written := List.subset_cons_self ..

theorem glyph_older (terminal : Terminal) (uc : UInt8) :
    (putAtCursor terminal uc).written ⊆ (writeGlyph terminal uc).written := by
  rw [writeGlyph]
  split
  · exact newline_older _
  · exact List.Subset.refl _

theorem tab_older (fuel : Nat) (terminal : Terminal) :
    terminal.written ⊆ (terminalTab fuel terminal).written := by
  induction fuel generalizing terminal with
  | zero => exact List.Subset.refl _
  | succ fuel ih =>
      rw [terminalTab]
      split
      · exact List.Subset.trans (put_older terminal 0x20) (ih _)
      · exact List.Subset.refl _

theorem putchar_older (terminal : Terminal) (uc : UInt8) :
    terminal.written ⊆ (terminalPutchar terminal uc).written := by
  rcases putchar_cases uc with ⟨_, run⟩ | ⟨_, run⟩ | ⟨_, run⟩ | ⟨_, run⟩ | ⟨_, run⟩ |
    ⟨_, _, _, _, _, run⟩
  · rw [run]
    exact newline_older terminal
  · rw [run]
    exact List.Subset.refl _
  · rw [run, stepBack]
    split
    · exact List.subset_cons_self ..
    · exact List.Subset.refl _
  · rw [run]
    exact tab_older tabWidth terminal
  · rw [run]
    exact List.Subset.refl _
  · rw [run]
    exact List.Subset.trans (put_older terminal uc) (glyph_older terminal uc)

theorem write_older (terminal : Terminal) (text : List UInt8) :
    terminal.written ⊆ (terminalWrite terminal text).written := by
  induction text generalizing terminal with
  | nil => exact List.Subset.refl _
  | cons c rest ih => exact List.Subset.trans (putchar_older terminal c) (ih _)

/-- A store behind the page is not undone. -/
theorem mapped_before_write {text : List UInt8}
    (mapped : TextMapped (terminalWrite terminal text)) : TextMapped terminal :=
  fun index member => mapped index (write_older terminal text member)

theorem terminal_write_append (front behind : List UInt8) :
    terminalWrite (terminalWrite terminal front) behind = terminalWrite terminal (front ++ behind) :=
  (List.foldl_append ..).symm

/-- A step that writes the text to any terminal that has not faulted. -/
def Writes (step : Terminal → Option Terminal) (text : List UInt8) : Prop :=
  ∀ terminal, TextMapped terminal → step terminal = terminalReturns (terminalWrite terminal text)

end Older

/-! ## One character -/

/-- The cursor is on the page or right behind it, and nothing has faulted. -/
structure InPage (terminal : Terminal) : Prop where
  row : terminal.row < vgaHeight
  cell : (cursorOf terminal).cell ≤ mappedEntries
  mapped : TextMapped terminal

section Characters

variable {terminal : Terminal} {c : UInt8}

theorem in_page_of_shown (shown : OnScreen terminal) : InPage terminal := by
  have row := shown.row
  have column := shown.column
  refine ⟨row, ?_, fun index member => Nat.lt_trans (shown.written index member) (by decide)⟩
  simp only [cursorOf, Cursor.cell, vgaWidth, vgaHeight, mappedEntries] at row column ⊢
  omega

theorem cursor_cell_index (inPage : InPage terminal) :
    cellIndex terminal.column terminal.row = (cursorOf terminal).cell := by
  have cell := inPage.cell
  simp only [cursorOf, Cursor.cell, mappedEntries] at cell ⊢
  rw [cellIndex, add32_eq (by omega)]

theorem newline_in_page (inPage : InPage terminal) :
    InPage (terminalNewline terminal) ∧
      cursorOf (terminalNewline terminal) = nextRow (cursorOf terminal) := by
  obtain ⟨row, column, adds⟩ := terminal_newline_spec inPage.row
  have moved : cursorOf (terminalNewline terminal) = nextRow (cursorOf terminal) := by
    rw [cursorOf, row, column]
    rfl
  have small : min (terminal.row + 1) (vgaHeight - 1) ≤ 24 := Nat.min_le_right ..
  refine ⟨⟨?_, ?_, adds_bounded (adds_mono adds (by decide)) inPage.mapped⟩, moved⟩
  · rw [row]
    exact Nat.lt_of_le_of_lt small (by decide)
  · rw [moved, nextRow, Cursor.cell]
    simp only [cursorOf, vgaWidth, mappedEntries]
    omega

theorem step_back_in_page (inPage : InPage terminal) :
    InPage (stepBack terminal) ∧
      cursorOf (stepBack terminal) = { cursorOf terminal with column := terminal.column - 1 } := by
  have cell := inPage.cell
  rw [stepBack]
  by_cases right : terminal.column > 0
  · rw [if_pos right]
    have index : cellIndex (terminal.column - 1) terminal.row < mappedEntries := by
      simp only [cursorOf, Cursor.cell, mappedEntries] at cell ⊢
      rw [cellIndex, add32_eq (by omega)]
      omega
    refine ⟨⟨inPage.row, ?_, adds_bounded (adds_store index terminal.written) inPage.mapped⟩, rfl⟩
    simp only [cursorOf, Cursor.cell, terminalPutentryat, storeEntry] at cell ⊢
    omega
  · have left : terminal.column - 1 = terminal.column := by omega
    rw [if_neg right, left]
    exact ⟨inPage, rfl⟩

theorem tab_in_page (inPage : InPage terminal) :
    InPage (terminalTab tabWidth terminal) ∧
      cursorOf (terminalTab tabWidth terminal) = moveCursor (cursorOf terminal) 0x09 := by
  have row := inPage.row
  by_cases inside : terminal.column < vgaWidth
  · have enough : (terminal.column + 7) / tabWidth * tabWidth - terminal.column < tabWidth := by
      simp only [tabWidth]
      omega
    obtain ⟨sameRow, stop, adds⟩ :=
      terminal_tab_spec tabWidth row (Nat.le_of_lt inside) enough
    have moved : cursorOf (terminalTab tabWidth terminal) = moveCursor (cursorOf terminal) 0x09 := by
      rw [cursorOf, sameRow, stop]
      exact (if_pos inside).symm
    refine ⟨⟨?_, ?_, adds_bounded (adds_mono adds (by decide)) inPage.mapped⟩, moved⟩
    · rw [sameRow]
      exact row
    · rw [Cursor.cell, cursorOf, sameRow, stop]
      simp only [vgaWidth, vgaHeight, tabWidth, mappedEntries] at row inside ⊢
      omega
  · have same : terminalTab tabWidth terminal = terminal := by
      rw [tabWidth, terminalTab, if_neg (fun both => inside both.1)]
    rw [same]
    exact ⟨inPage, (if_neg inside).symm⟩

theorem glyph_in_page (inPage : InPage terminal) (room : (cursorOf terminal).cell < mappedEntries) :
    InPage (writeGlyph terminal c) ∧
      cursorOf (writeGlyph terminal c) =
        if terminal.column + 1 = vgaWidth then nextRow (cursorOf terminal)
        else { cursorOf terminal with column := terminal.column + 1 } := by
  have small := room
  simp only [cursorOf, Cursor.cell, mappedEntries] at small
  have short : terminal.column + 1 < 2 ^ 32 := by omega
  have next : (putAtCursor terminal c).column = terminal.column + 1 := add32_eq short
  have index : cellIndex terminal.column terminal.row < mappedEntries := by
    rw [cursor_cell_index inPage]
    exact room
  have put : InPage (putAtCursor terminal c) := by
    refine ⟨inPage.row, ?_, adds_bounded (adds_store index terminal.written) inPage.mapped⟩
    rw [Cursor.cell, cursorOf, next]
    exact room
  rw [writeGlyph, next]
  by_cases full : terminal.column + 1 = vgaWidth
  · rw [if_pos full, if_pos full]
    obtain ⟨moved, cursor⟩ := newline_in_page put
    exact ⟨moved, cursor⟩
  · rw [if_neg full, if_neg full]
    refine ⟨put, ?_⟩
    rw [cursorOf, next]
    rfl

/-- A character that is no glyph behind the page moves the cursor as its class does. -/
theorem putchar_in_page (inPage : InPage terminal)
    (room : IsGlyph c → (cursorOf terminal).cell < mappedEntries) :
    InPage (terminalPutchar terminal c) ∧
      cursorOf (terminalPutchar terminal c) = moveCursor (cursorOf terminal) c := by
  have synced {after : Terminal} {cursor : Cursor} (moved : InPage after ∧ cursorOf after = cursor) :
      InPage (terminalSyncCursor after) ∧ cursorOf (terminalSyncCursor after) = cursor :=
    ⟨⟨moved.1.row, moved.1.cell, moved.1.mapped⟩, moved.2⟩
  rcases putchar_cases c with ⟨rfl, run⟩ | ⟨rfl, run⟩ | ⟨rfl, run⟩ | ⟨rfl, run⟩ | ⟨rfl, run⟩ |
    ⟨newline, carriage, backspace, tab, escape, run⟩
  · rw [run]
    exact synced (newline_in_page inPage)
  · rw [run]
    refine synced ⟨⟨inPage.row, ?_, inPage.mapped⟩, rfl⟩
    exact Nat.le_trans (Nat.add_le_add_left (Nat.zero_le _) _) inPage.cell
  · rw [run]
    exact synced (step_back_in_page inPage)
  · rw [run]
    exact synced (tab_in_page inPage)
  · rw [run]
    exact ⟨inPage, rfl⟩
  · have glyph : IsGlyph c := ⟨newline, carriage, backspace, tab, escape⟩
    have moved := @glyph_in_page _ c inPage (room glyph)
    rw [run, moveCursor, if_neg newline, if_neg carriage, if_neg backspace, if_neg tab,
      if_neg escape]
    exact synced moved

theorem putchar_leaves_page (inPage : InPage terminal) (glyph : IsGlyph c)
    (behind : ¬(cursorOf terminal).cell < mappedEntries) :
    ¬TextMapped (terminalPutchar terminal c) := by
  intro mapped
  obtain ⟨newline, carriage, backspace, tab, escape⟩ := glyph
  rcases putchar_cases c with ⟨same, _⟩ | ⟨same, _⟩ | ⟨same, _⟩ | ⟨same, _⟩ | ⟨same, _⟩ |
    ⟨_, _, _, _, _, run⟩
  · exact newline same
  · exact carriage same
  · exact backspace same
  · exact tab same
  · exact escape same
  · rw [run] at mapped
    have stored : cellIndex terminal.column terminal.row ∈ (putAtCursor terminal c).written :=
      List.mem_cons_self
    rw [cursor_cell_index inPage] at stored
    exact behind (mapped _ (glyph_older terminal c stored))

end Characters

/-! ## Texts -/

section Texts

variable {terminal : Terminal} {text : List UInt8}

/-- A text is written without a fault exactly when it stays on the page. -/
theorem write_mapped_iff (inPage : InPage terminal) :
    TextMapped (terminalWrite terminal text) ↔ StaysOnPage (cursorOf terminal) text := by
  induction text generalizing terminal with
  | nil => exact ⟨fun _ => trivial, fun _ => inPage.mapped⟩
  | cons c rest ih =>
      have split : terminalWrite terminal (c :: rest) =
          terminalWrite (terminalPutchar terminal c) rest := rfl
      rw [split, StaysOnPage]
      by_cases room : IsGlyph c → (cursorOf terminal).cell < mappedEntries
      · obtain ⟨after, moved⟩ := putchar_in_page inPage room
        rw [ih after, moved]
        exact (and_iff_right room).symm
      · have leaves : ¬TextMapped (terminalPutchar terminal c) := by
          rw [Classical.not_imp] at room
          exact putchar_leaves_page inPage room.1 room.2
        exact ⟨fun mapped => absurd (mapped_before_write mapped) leaves,
          fun stays => absurd stays.1 room⟩

/-- A text without tabs that starts on the screen ends there. -/
theorem write_on_screen (shown : OnScreen terminal) (noTab : 0x09 ∉ text) :
    OnScreen (terminalWrite terminal text) := by
  induction text generalizing terminal with
  | nil => exact shown
  | cons c rest ih =>
      rw [List.mem_cons, not_or] at noTab
      exact ih (putchar_other_on_screen shown fun same => noTab.1 same.symm) noTab.2

theorem write_returns (shown : OnScreen terminal) (noTab : 0x09 ∉ text) :
    terminalReturns (terminalWrite terminal text) = some (terminalWrite terminal text) :=
  if_pos (in_page_of_shown (write_on_screen shown noTab)).mapped

end Texts

end SimplyOs.TtyPage
