import SimplyOs.Library.TextPage
import SimplyOs.TtyBounds

/-!
# The screen shows the end of a page

The terminal scrolls by copying rows inside its buffer. Its characters and its
cursor are those of a page that never scrolls, seen through the window that ends in
the row of the cursor.
-/

namespace SimplyOs.TtyScreen

open SimplyOs.Word SimplyOs.Tty SimplyOs.TtyBounds SimplyOs.Library.TextPage

set_option autoImplicit false

def character (entry : UInt16) : UInt8 := entry.toUInt8

def shownAt (terminal : Terminal) (y x : Nat) : UInt8 :=
  character (terminal.buffer (y * vgaWidth + x))

theorem character_entry (uc color : UInt8) : character (vgaEntry uc color) = uc := by
  have colorless : (color.toUInt16 <<< 8).toUInt8 = 0 := by
    apply UInt8.toNat_inj.mp
    have shift : (8 : UInt16).toNat % 16 = 8 := rfl
    have none : (0 : UInt8).toNat = 0 := rfl
    rw [UInt16.toNat_toUInt8, UInt16.toNat_shiftLeft, shift, Nat.shiftLeft_eq, none]
    omega
  rw [character, vgaEntry, UInt16.toUInt8_or, colorless, UInt8.toUInt8_toUInt16, UInt8.or_zero]

/-! ## The loops -/

section Loops

variable {terminal : Terminal}

theorem range_fold_keeps {Part : Type} (part : Terminal → Part) (body : Terminal → Nat → Terminal)
    (round : ∀ terminal place, part (body terminal place) = part terminal) (count : Nat)
    (terminal : Terminal) : part ((List.range count).foldl body terminal) = part terminal := by
  apply List.foldlRecOn (motive := fun after => part after = part terminal)
  · rfl
  · intro after soFar place _
    rw [round, soFar]

theorem store_buffer (terminal : Terminal) {x y : Nat} (entry : UInt16) (column : x < vgaWidth)
    (row : y < vgaHeight) (place : Nat) :
    (storeEntry terminal (cellIndex x y) entry).buffer place =
      if place = y * vgaWidth + x then entry else terminal.buffer place := by
  rw [(cell_index_eq column row).1]
  rfl

/-- A loop over the first columns of a row stores what its entries are as long as nothing
but that row has been written to. -/
theorem store_columns_buffer (terminal : Terminal) {entry : Terminal → Nat → UInt16}
    {value : Nat → UInt16} {y count : Nat} (row : y < vgaHeight) (columns : count ≤ vgaWidth)
    (stable : ∀ after x, after.color = terminal.color →
      (∀ place, y * vgaWidth + vgaWidth ≤ place → after.buffer place = terminal.buffer place) →
        x < vgaWidth → entry after x = value x) (place : Nat) :
    ((List.range count).foldl
      (fun terminal x => storeEntry terminal (cellIndex x y) (entry terminal x))
      terminal).buffer place =
      if y * vgaWidth ≤ place ∧ place < y * vgaWidth + count then value (place - y * vgaWidth)
      else terminal.buffer place := by
  induction count generalizing place with
  | zero =>
      rw [if_neg (by omega)]
      rfl
  | succ count ih =>
      have column : count < vgaWidth := columns
      have soFar := ih (Nat.le_of_lt column)
      have color := range_fold_keeps Terminal.color
        (fun terminal x => storeEntry terminal (cellIndex x y) (entry terminal x))
        (fun _ _ => rfl) count terminal
      have stored := stable _ count color
        (fun place below => (soFar place).trans (if_neg (by omega))) column
      rw [List.range_succ, List.foldl_append, List.foldl_cons, List.foldl_nil,
        store_buffer _ _ column row, stored, soFar]
      by_cases here : place = y * vgaWidth + count
      · rw [if_pos here, if_pos (by omega)]
        congr 1
        omega
      · rw [if_neg here]
        by_cases before : y * vgaWidth ≤ place ∧ place < y * vgaWidth + count
        · rw [if_pos before, if_pos (by omega)]
        · rw [if_neg before, if_neg (by omega)]

theorem scroll_row_buffer (terminal : Terminal) {y : Nat} (row : y + 1 < vgaHeight) (place : Nat) :
    (scrollRow terminal (y + 1)).buffer place =
      if y * vgaWidth ≤ place ∧ place < y * vgaWidth + vgaWidth then
        terminal.buffer (place + vgaWidth)
      else terminal.buffer place := by
  have next : (y + 1) * vgaWidth = y * vgaWidth + vgaWidth := Nat.succ_mul y vgaWidth
  have copied := @store_columns_buffer terminal
    (fun terminal x => terminal.buffer (cellIndex x (y + 1)))
    (fun x => terminal.buffer ((y + 1) * vgaWidth + x)) y vgaWidth (Nat.lt_of_succ_lt row)
    (Nat.le_refl _) (by
      intro after x _ same column
      rw [(cell_index_eq column row).1]
      exact same _ (by omega)) place
  rw [scrollRow, Nat.add_sub_cancel, copied]
  by_cases inside : y * vgaWidth ≤ place ∧ place < y * vgaWidth + vgaWidth
  · have source : (y + 1) * vgaWidth + (place - y * vgaWidth) = place + vgaWidth := by omega
    rw [if_pos inside, if_pos inside, source]
  · rw [if_neg inside, if_neg inside]

theorem blank_row_buffer (terminal : Terminal) {y : Nat} (row : y < vgaHeight) (place : Nat) :
    (blankRow terminal y).buffer place =
      if y * vgaWidth ≤ place ∧ place < y * vgaWidth + vgaWidth then vgaEntry 0x20 terminal.color
      else terminal.buffer place := by
  rw [blankRow]
  exact @store_columns_buffer terminal (fun terminal _ => vgaEntry 0x20 terminal.color)
    (fun _ => vgaEntry 0x20 terminal.color) y vgaWidth row (Nat.le_refl _)
    (fun after _ color _ _ => by simp only [color]) place

/-- After the copies every row of the upper part holds what the next one held. -/
theorem scroll_rows_buffer (terminal : Terminal) {count : Nat} (rows : count < vgaHeight)
    (place : Nat) :
    ((List.range count).foldl (fun terminal y => scrollRow terminal (y + 1)) terminal).buffer place =
      if place < count * vgaWidth then terminal.buffer (place + vgaWidth)
      else terminal.buffer place := by
  induction count generalizing place with
  | zero =>
      rw [if_neg (by omega)]
      rfl
  | succ count ih =>
      have soFar := ih (Nat.lt_of_succ_lt rows)
      rw [List.range_succ, List.foldl_append, List.foldl_cons, List.foldl_nil,
        scroll_row_buffer _ rows, soFar, soFar]
      have next : (count + 1) * vgaWidth = count * vgaWidth + vgaWidth := Nat.succ_mul count vgaWidth
      -- the row that is copied has not been written to yet
      by_cases upper : place < count * vgaWidth
      · rw [if_neg (by omega), if_pos upper, if_pos (by omega)]
      · by_cases copied : place < count * vgaWidth + vgaWidth
        · rw [if_pos (by omega), if_neg (by omega), if_pos (by omega)]
        · rw [if_neg (by omega), if_neg upper, if_neg (by omega)]

theorem row_loops_keep {Part : Type} (part : Terminal → Part)
    (store : ∀ terminal index entry, part (storeEntry terminal index entry) = part terminal)
    (terminal : Terminal) (y : Nat) :
    part (scrollRow terminal y) = part terminal ∧ part (blankRow terminal y) = part terminal := by
  constructor
  · unfold scrollRow
    apply range_fold_keeps part
    intro after x
    exact store after _ _
  · unfold blankRow
    apply range_fold_keeps part
    intro after x
    exact store after _ _

theorem scroll_keeps {Part : Type} (part : Terminal → Part)
    (store : ∀ terminal index entry, part (storeEntry terminal index entry) = part terminal)
    (cursor : ∀ terminal row, part { terminal with row := row } = part terminal)
    (terminal : Terminal) : part (terminalScroll terminal) = part terminal := by
  have copied := range_fold_keeps part (fun terminal y => scrollRow terminal (y + 1))
    (fun terminal y => (row_loops_keep part store terminal (y + 1)).1) (vgaHeight - 1) terminal
  have blanked := ((row_loops_keep part store _ (vgaHeight - 1)).2).trans copied
  simp only [terminalScroll]
  generalize blankRow _ _ = after at blanked ⊢
  split
  · exact (cursor after _).trans blanked
  · exact blanked

theorem scroll_buffer (terminal : Terminal) (place : Nat) :
    (terminalScroll terminal).buffer place =
      if place < (vgaHeight - 1) * vgaWidth then terminal.buffer (place + vgaWidth)
      else if place < vgaWidth * vgaHeight then vgaEntry 0x20 terminal.color
      else terminal.buffer place := by
  have buffer : (terminalScroll terminal).buffer = (blankRow
      ((List.range (vgaHeight - 1)).foldl (fun terminal y => scrollRow terminal (y + 1)) terminal)
      (vgaHeight - 1)).buffer := by
    simp only [terminalScroll]
    split
    · rfl
    · rfl
  have color := range_fold_keeps Terminal.color (fun terminal y => scrollRow terminal (y + 1))
    (fun terminal y => (row_loops_keep Terminal.color (fun _ _ _ => rfl) terminal (y + 1)).1)
    (vgaHeight - 1) terminal
  have last : (vgaHeight - 1) * vgaWidth + vgaWidth = vgaWidth * vgaHeight := rfl
  rw [buffer, blank_row_buffer _ (by decide), scroll_rows_buffer _ (by decide), color]
  by_cases upper : place < (vgaHeight - 1) * vgaWidth
  · rw [if_neg (by omega), if_pos upper, if_pos upper]
  · rw [if_neg upper, if_neg upper]
    by_cases inside : place < vgaWidth * vgaHeight
    · rw [if_pos (by omega), if_pos inside]
    · rw [if_neg (by omega), if_neg inside]

/-- The screen after a scroll: every row moves up and the last one is blank. -/
theorem scroll_shown (terminal : Terminal) {y x : Nat} (row : y < vgaHeight)
    (column : x < vgaWidth) :
    shownAt (terminalScroll terminal) y x =
      if y + 1 < vgaHeight then shownAt terminal (y + 1) x else 0x20 := by
  have height : vgaHeight - 1 = 24 := rfl
  have rows : vgaHeight = 25 := rfl
  rw [shownAt, shownAt, scroll_buffer, height]
  by_cases upper : y + 1 < vgaHeight
  · have place : y * vgaWidth + x + vgaWidth = (y + 1) * vgaWidth + x := by
      rw [Nat.succ_mul]
      omega
    have within : (y + 1) * vgaWidth ≤ 24 * vgaWidth := Nat.mul_le_mul_right vgaWidth (by omega)
    rw [if_pos upper, if_pos (by omega), place]
  · have last : y * vgaWidth = 24 * vgaWidth := congrArg (· * vgaWidth) (by omega)
    have inside := (cell_index_eq column row).2
    rw [(cell_index_eq column row).1] at inside
    rw [if_neg upper, if_neg (by omega), if_pos inside, character_entry]

theorem blank_rows_buffer (terminal : Terminal) {count : Nat} (rows : count ≤ vgaHeight)
    (place : Nat) :
    ((List.range count).foldl blankRow terminal).buffer place =
      if place < count * vgaWidth then vgaEntry 0x20 terminal.color
      else terminal.buffer place := by
  induction count generalizing place with
  | zero =>
      rw [if_neg (by omega)]
      rfl
  | succ count ih =>
      have color := range_fold_keeps Terminal.color blankRow
        (fun terminal y => (row_loops_keep Terminal.color (fun _ _ _ => rfl) terminal y).2) count
        terminal
      have next : (count + 1) * vgaWidth = count * vgaWidth + vgaWidth := Nat.succ_mul count vgaWidth
      rw [List.range_succ, List.foldl_append, List.foldl_cons, List.foldl_nil,
        blank_row_buffer _ rows, ih (Nat.le_of_succ_le rows), color]
      by_cases earlier : place < count * vgaWidth
      · rw [if_neg (by omega), if_pos earlier, if_pos (by omega)]
      · by_cases last : place < count * vgaWidth + vgaWidth
        · rw [if_pos (by omega), if_pos (by omega)]
        · rw [if_neg (by omega), if_neg earlier, if_neg (by omega)]

theorem blank_screen_buffer (terminal : Terminal) {place : Nat}
    (inside : place < vgaWidth * vgaHeight) :
    (blankScreen terminal).buffer place = vgaEntry 0x20 terminal.color := by
  have size : vgaWidth * vgaHeight = vgaHeight * vgaWidth := rfl
  rw [blankScreen, blank_rows_buffer terminal (Nat.le_refl _), if_pos (by omega)]

/-- Every cell of the screen is blank after `terminal_initialize`. -/
theorem fresh_terminal_buffer (power : Terminal) {place : Nat}
    (inside : place < vgaWidth * vgaHeight) :
    (freshTerminal power).buffer place = vgaEntry 0x20 (freshTerminal power).color := by
  have drawn (terminal : Terminal) :
      (terminalSyncCursor (terminalEnableHwCursor terminal)).buffer = terminal.buffer ∧
        (terminalSyncCursor (terminalEnableHwCursor terminal)).color = terminal.color := ⟨rfl, rfl⟩
  have color (terminal : Terminal) : (blankScreen terminal).color = terminal.color := by
    rw [blankScreen]
    exact range_fold_keeps Terminal.color blankRow
      (fun terminal y => (row_loops_keep Terminal.color (fun _ _ _ => rfl) terminal y).2) vgaHeight
      terminal
  rw [freshTerminal, terminalInitialize, (drawn _).1, (drawn _).2, color,
    blank_screen_buffer _ inside]

end Loops

/-! ## The page -/

/-- What a character does on the page. -/
def pagePutchar (page : Page UInt8) (uc : UInt8) : Page UInt8 :=
  if uc = 0x0A then lineFeed page
  else if uc = 0x0D then toColumn page 0
  else if uc = 0x08 then erase 0x20 page
  else if uc = 27 then page
  else write vgaWidth page uc

def pageStep (page : Page UInt8) : TerminalStep → Page UInt8
  | .character c => pagePutchar page c
  | .color _ => page

def sentCursor (crtc : Crtc) : Nat :=
  256 * (crtc.registers 0x0E).toNat + (crtc.registers 0x0F).toNat

/-- The screen is the window of the page that ends in the row of its cursor. -/
structure Shows (page : Page UInt8) (terminal : Terminal) : Prop where
  row : terminal.row = page.row - top vgaHeight page
  column : terminal.column = page.column
  cells : ∀ y < vgaHeight, ∀ x < vgaWidth, shownAt terminal y x = view vgaHeight page y x

/-- The page is shown and the controller knows the cursor. -/
structure InStep (page : Page UInt8) (terminal : Terminal) : Prop where
  shows : Shows page terminal
  inside : page.column < vgaWidth
  fresh : Fresh 0x20 page
  cursor : sentCursor terminal.crtc = terminal.row * vgaWidth + terminal.column

section Steps

variable {page : Page UInt8} {terminal : Terminal}

theorem shows_row (shows : Shows page terminal) : terminal.row < vgaHeight := by
  rw [shows.row]
  exact cursor_shown (by decide)

theorem newline_shows (shows : Shows page terminal) (fresh : Fresh 0x20 page) :
    Shows (lineFeed page) (terminalNewline terminal) := by
  have row := shows_row shows
  have height : vgaHeight = 25 := rfl
  have next : add32 terminal.row 1 = terminal.row + 1 := add32_eq (by omega)
  have cursor := shows.row
  rw [terminalNewline]
  simp only [next]
  by_cases last : terminal.row + 1 ≥ vgaHeight
  · have scrolls : vgaHeight ≤ page.row + 1 := by
      unfold top at cursor
      omega
    obtain ⟨scrolledRow, column, _⟩ :=
      terminal_scroll_spec { terminal with column := 0, row := terminal.row + 1 }
    rw [if_pos last]
    refine ⟨?_, column, ?_⟩
    · rw [scrolledRow, cursor]
      unfold top lineFeed
      simp only
      omega
    · intro y inRow x inColumn
      rw [scroll_shown _ inRow inColumn, view_line_feed_last scrolls]
      by_cases upper : y + 1 < vgaHeight
      · rw [if_pos upper]
        exact shows.cells (y + 1) upper x inColumn
      · rw [if_neg upper, view_below fresh]
        omega
  · have above : page.row + 1 < vgaHeight := by
      unfold top at cursor
      omega
    rw [if_neg last]
    refine ⟨?_, rfl, ?_⟩
    · unfold top at cursor
      unfold top lineFeed
      simp only
      omega
    · intro y inRow x inColumn
      rw [view_line_feed_above above]
      exact shows.cells y inRow x inColumn

theorem putentry_shows (shows : Shows page terminal) (inside : page.column < vgaWidth)
    (uc : UInt8) :
    Shows (put page uc)
      (terminalPutentryat terminal uc terminal.color terminal.column terminal.row) := by
  have row := shows_row shows
  have column : terminal.column < vgaWidth := by
    rw [shows.column]
    exact inside
  refine ⟨shows.row, shows.column, ?_⟩
  intro y inRow x inColumn
  have cell := shows.cells y inRow x inColumn
  rw [shownAt] at cell
  have place : y * vgaWidth + x = terminal.row * vgaWidth + terminal.column ↔
      y = page.row - top vgaHeight page ∧ x = page.column := by
    rw [← shows.row, ← shows.column]
    simp only [vgaWidth] at inColumn column ⊢
    omega
  rw [shownAt, terminalPutentryat, store_buffer terminal _ column row, view_put (by decide)]
  by_cases here : y * vgaWidth + x = terminal.row * vgaWidth + terminal.column
  · rw [if_pos here, if_pos (place.mp here), character_entry]
  · rw [if_neg here, if_neg (fun same => here (place.mpr same)), cell]

theorem sync_sends (row : terminal.row < vgaHeight) (column : terminal.column < vgaWidth) :
    sentCursor (terminalSyncCursor terminal).crtc =
      terminal.row * vgaWidth + terminal.column := by
  simp only [vgaWidth, vgaHeight] at row column
  have width : vgaWidth = 80 := rfl
  have sent : sentCursor (terminalSyncCursor terminal).crtc =
      256 * (UInt8.ofNat ((terminal.row * vgaWidth + terminal.column) % 2 ^ 16 / 256)).toNat +
        (UInt8.ofNat ((terminal.row * vgaWidth + terminal.column) % 2 ^ 16 % 256)).toNat := rfl
  rw [sent, UInt8.toNat_ofNat', UInt8.toNat_ofNat', width]
  omega

theorem sync_in_step (shows : Shows page terminal) (inside : page.column < vgaWidth)
    (fresh : Fresh 0x20 page) : InStep page (terminalSyncCursor terminal) := by
  have column : terminal.column < vgaWidth := by
    rw [shows.column]
    exact inside
  exact ⟨⟨shows.row, shows.column, shows.cells⟩, inside, fresh, sync_sends (shows_row shows) column⟩

theorem putchar_newline_in_step (inStep : InStep page terminal) :
    InStep (lineFeed page) (terminalSyncCursor (terminalNewline terminal)) :=
  sync_in_step (newline_shows inStep.shows inStep.fresh) (by decide : 0 < vgaWidth)
    (fresh_line_feed inStep.fresh)

theorem putchar_backspace_in_step (inStep : InStep page terminal) :
    InStep (erase 0x20 page) (terminalSyncCursor (stepBack terminal)) := by
  have shows := inStep.shows
  have inside := inStep.inside
  rw [erase, stepBack]
  by_cases right : terminal.column > 0
  · have pageRight : page.column > 0 := by
      rw [← shows.column]
      exact right
    have left : page.column - 1 < vgaWidth := Nat.lt_of_le_of_lt (Nat.sub_le _ _) inside
    have moved : Shows (toColumn page (page.column - 1))
        { terminal with column := terminal.column - 1 } :=
      ⟨shows.row, congrArg (· - 1) shows.column, shows.cells⟩
    rw [if_pos right, if_pos pageRight]
    exact sync_in_step (putentry_shows moved left 0x20) left
      (fresh_put (fresh_to_column inStep.fresh _) 0x20)
  · rw [if_neg right, if_neg (by rw [← shows.column]; exact right)]
    exact sync_in_step shows inside inStep.fresh

/-- A printable byte is written at the cursor; behind the last column a row is full. -/
theorem putchar_printable_in_step (inStep : InStep page terminal) (uc : UInt8) :
    InStep (write vgaWidth page uc) (terminalSyncCursor (writeGlyph terminal uc)) := by
  have shows := putentry_shows inStep.shows inStep.inside uc
  have fresh := fresh_put inStep.fresh uc
  have inside := inStep.inside
  have width : vgaWidth = 80 := rfl
  have column : (putAtCursor terminal uc).column = page.column + 1 := by
    have same := inStep.shows.column
    have next : (putAtCursor terminal uc).column = add32 terminal.column 1 := rfl
    rw [next, add32_eq (by omega), same]
  rw [write, writeGlyph, column]
  by_cases full : page.column + 1 = vgaWidth
  · have same : terminalNewline (putAtCursor terminal uc) = terminalNewline
        (terminalPutentryat terminal uc terminal.color terminal.column terminal.row) := rfl
    rw [if_pos full, if_pos full, same]
    exact sync_in_step (newline_shows shows fresh) (by decide : 0 < vgaWidth)
      (fresh_line_feed fresh)
  · rw [if_neg full, if_neg full]
    have moved : Shows (toColumn (put page uc) (page.column + 1)) (putAtCursor terminal uc) :=
      ⟨shows.row, column, shows.cells⟩
    exact sync_in_step moved (by simp only [toColumn]; omega) (fresh_to_column fresh _)

theorem putchar_in_step (inStep : InStep page terminal) {uc : UInt8} (noTab : uc ≠ 0x09) :
    InStep (pagePutchar page uc) (terminalPutchar terminal uc) := by
  rcases putchar_cases uc with ⟨rfl, run⟩ | ⟨rfl, run⟩ | ⟨rfl, run⟩ | ⟨tab, _⟩ | ⟨rfl, run⟩ |
    ⟨newline, carriage, backspace, _, escape, run⟩
  · rw [run]
    exact putchar_newline_in_step inStep
  · rw [run]
    exact sync_in_step ⟨inStep.shows.row, rfl, inStep.shows.cells⟩ (by decide : 0 < vgaWidth)
      (fresh_to_column inStep.fresh 0)
  · rw [run]
    exact putchar_backspace_in_step inStep
  · exact absurd tab noTab
  · rw [run]
    exact inStep
  · rw [run, pagePutchar, if_neg newline, if_neg carriage, if_neg backspace, if_neg escape]
    exact putchar_printable_in_step inStep uc

theorem step_in_step (inStep : InStep page terminal) {step : TerminalStep}
    (noTab : step ≠ .character 0x09) : InStep (pageStep page step) (terminalStep terminal step) := by
  cases step with
  | character c => exact putchar_in_step inStep (fun tab => noTab (by rw [tab]))
  | color color =>
      have shows := inStep.shows
      exact ⟨⟨shows.row, shows.column, shows.cells⟩, inStep.inside, inStep.fresh, inStep.cursor⟩

/-- The screen and the page stay in step over any run without a tab. -/
theorem run_in_step (inStep : InStep page terminal) {steps : List TerminalStep}
    (noTab : .character 0x09 ∉ steps) :
    InStep (steps.foldl pageStep page) (steps.foldl terminalStep terminal) := by
  induction steps generalizing page terminal with
  | nil => exact inStep
  | cons step steps ih =>
      rw [List.mem_cons, not_or] at noTab
      exact ih (step_in_step inStep (fun same => noTab.1 same.symm)) noTab.2

end Steps

theorem enable_cursor_shows {page : Page UInt8} {terminal : Terminal}
    (shows : Shows page terminal) : Shows page (terminalEnableHwCursor terminal) :=
  ⟨shows.row, shows.column, shows.cells⟩

theorem initialize_in_step (power : Terminal) :
    InStep (emptyPage 0x20) (freshTerminal power) := by
  rw [freshTerminal, terminalInitialize]
  generalize cleared : ({ power with
    written := [], row := 0, column := 0,
    color := vgaEntryColor vgaColorLightGrey vgaColorBlack } : Terminal) = terminal
  have kept := range_fold_stores blankRow
    (fun terminal y (row : y < vgaHeight) => blank_row_stores terminal row) terminal
  have row : (blankScreen terminal).row = 0 := by
    rw [blankScreen, kept.row, ← cleared]
  have column : (blankScreen terminal).column = 0 := by
    rw [blankScreen, kept.column, ← cleared]
  apply sync_in_step
  · apply enable_cursor_shows
    refine ⟨row, column, fun y inRow x inColumn => ?_⟩
    have inside := (cell_index_eq inColumn inRow).2
    rw [(cell_index_eq inColumn inRow).1] at inside
    rw [shownAt, blank_screen_buffer terminal inside, character_entry]
    rfl
  · exact (by decide : 0 < vgaWidth)
  · exact fresh_empty 0x20

/-- After `terminal_initialize` and any calls that deliver no tab, the screen is the last
rows of a page that never scrolls, and the controller has been sent the cursor. -/
theorem screen_shows_page (power : Terminal) (calls : List TerminalCall)
    (noTab : .character 0x09 ∉ calls.flatMap callSteps) :
    let page := (calls.flatMap callSteps).foldl pageStep (emptyPage 0x20)
    let terminal := calls.foldl terminalCall (freshTerminal power)
    terminal.row = page.row - top vgaHeight page ∧ terminal.column = page.column ∧
      (∀ y < vgaHeight, ∀ x < vgaWidth,
        (terminal.buffer (y * vgaWidth + x)).toUInt8 = view vgaHeight page y x) ∧
      sentCursor terminal.crtc = terminal.row * vgaWidth + terminal.column := by
  have inStep := run_in_step (initialize_in_step power) noTab
  rw [← calls_eq_steps] at inStep
  exact ⟨inStep.shows.row, inStep.shows.column, inStep.shows.cells, inStep.cursor⟩

deriving instance DecidableEq for TerminalStep

def lineCalls : List TerminalCall :=
  .setcolor 0x1F :: List.replicate 30 (.write [0x61, 0x62, 0x0A]) ++ [.putchar 0x63, .putchar 0x08]

/-- Six rows have left the screen; its first row is the seventh of the page. -/
theorem screen_shows_lines :
    let page := (lineCalls.flatMap callSteps).foldl pageStep (emptyPage 0x20)
    page.row = 30 ∧ ∀ y < vgaHeight, ∀ x < vgaWidth,
      ((lineCalls.foldl terminalCall (freshTerminal darkTerminal)).buffer
        (y * vgaWidth + x)).toUInt8 = page.cells (6 + y) x := by
  intro page
  have row : page.row = 30 := by decide +kernel
  have first : top vgaHeight page = 6 := by rw [top, row]; rfl
  refine ⟨row, fun y inRow x inColumn => ?_⟩
  have shown := screen_shows_page darkTerminal lineCalls (by decide +kernel)
  have cell := shown.2.2.1 y inRow x inColumn
  rw [view, first] at cell
  exact cell

end SimplyOs.TtyScreen
