import Mathlib.Data.List.Induction
import SimplyOs.Tty

/-!
# Bounds of the terminal

The cursor stays on the screen and every store hits the screen as long as no tab
is met in the last eight columns: there the tab loop stops at the width itself
and, unlike the path of a printable byte, does not go to the next row.
-/

namespace SimplyOs.TtyBounds

open SimplyOs.Word SimplyOs.Tty

set_option autoImplicit false

/-- The cursor is on the screen and so is every cell stored to. -/
structure OnScreen (terminal : Terminal) : Prop where
  row : terminal.row < vgaHeight
  column : terminal.column < vgaWidth
  written : ∀ index ∈ terminal.written, index < vgaWidth * vgaHeight

/-- What has been stored stays on record, and each store since hits a cell below the limit. -/
structure Adds (limit : Nat) (before after : List Nat) : Prop where
  older : before ⊆ after
  newer : ∀ index ∈ after, index ∈ before ∨ index < limit

section Records

variable {limit larger index : Nat} {first second third : List Nat}

theorem adds_refl (limit : Nat) (written : List Nat) : Adds limit written written :=
  ⟨List.Subset.refl _, fun _ member => Or.inl member⟩

theorem adds_trans (one : Adds limit first second) (two : Adds limit second third) :
    Adds limit first third := by
  refine ⟨List.Subset.trans one.older two.older, fun index member => ?_⟩
  rcases two.newer index member with earlier | inside
  · exact one.newer index earlier
  · exact Or.inr inside

theorem adds_mono (adds : Adds limit first second) (le : limit ≤ larger) :
    Adds larger first second :=
  ⟨adds.older, fun index member => (adds.newer index member).imp_right fun inside =>
    Nat.lt_of_lt_of_le inside le⟩

theorem adds_store (inside : index < limit) (written : List Nat) :
    Adds limit written (index :: written) := by
  refine ⟨List.subset_cons_self .., fun place member => ?_⟩
  rcases List.mem_cons.mp member with rfl | older
  · exact Or.inr inside
  · exact Or.inl older

theorem adds_bounded (adds : Adds limit first second) (before : ∀ index ∈ first, index < limit) :
    ∀ index ∈ second, index < limit :=
  fun index member => (adds.newer index member).elim (before index) id

end Records

/-- Two terminals with the same cursor and color, the second with more stores on
the screen. -/
structure Stores (terminal after : Terminal) : Prop where
  row : after.row = terminal.row
  column : after.column = terminal.column
  color : after.color = terminal.color
  adds : Adds (vgaWidth * vgaHeight) terminal.written after.written

theorem stores_refl (terminal : Terminal) : Stores terminal terminal :=
  ⟨rfl, rfl, rfl, adds_refl _ _⟩

theorem stores_trans {first second third : Terminal} (one : Stores first second)
    (two : Stores second third) : Stores first third :=
  ⟨two.row.trans one.row, two.column.trans one.column, two.color.trans one.color,
    adds_trans one.adds two.adds⟩

theorem cell_index_eq {x y : Nat} (column : x < vgaWidth) (row : y < vgaHeight) :
    cellIndex x y = y * vgaWidth + x ∧ cellIndex x y < vgaWidth * vgaHeight := by
  simp only [vgaWidth, vgaHeight] at column row
  have small : y * 80 + x < 2 ^ 32 := by omega
  rw [cellIndex, vgaWidth, vgaHeight, add32_eq small]
  omega

theorem store_entry_stores (terminal : Terminal) {x y : Nat} (entry : UInt16)
    (column : x < vgaWidth) (row : y < vgaHeight) :
    Stores terminal (storeEntry terminal (cellIndex x y) entry) :=
  ⟨rfl, rfl, rfl, adds_store (cell_index_eq column row).2 terminal.written⟩

theorem range_fold_stores {count : Nat} (body : Terminal → Nat → Terminal)
    (round : ∀ terminal, ∀ place < count, Stores terminal (body terminal place))
    (terminal : Terminal) : Stores terminal ((List.range count).foldl body terminal) := by
  apply List.foldlRecOn (motive := fun after => Stores terminal after)
  · exact stores_refl terminal
  · intro after soFar place member
    exact stores_trans soFar (round after place (List.mem_range.mp member))

theorem scroll_row_stores (terminal : Terminal) {y : Nat} (row : y < vgaHeight) :
    Stores terminal (scrollRow terminal y) :=
  range_fold_stores _ (fun terminal _ column =>
    store_entry_stores terminal _ column (Nat.lt_of_le_of_lt (Nat.sub_le y 1) row)) terminal

theorem blank_row_stores (terminal : Terminal) {y : Nat} (row : y < vgaHeight) :
    Stores terminal (blankRow terminal y) :=
  range_fold_stores _ (fun terminal _ column => store_entry_stores terminal _ column row) terminal

theorem terminal_scroll_spec (terminal : Terminal) :
    (terminalScroll terminal).row = terminal.row - 1 ∧
      (terminalScroll terminal).column = terminal.column ∧
      Adds (vgaWidth * vgaHeight) terminal.written (terminalScroll terminal).written := by
  have copied := range_fold_stores (fun terminal y => scrollRow terminal (y + 1))
    (fun terminal y (small : y < vgaHeight - 1) => scroll_row_stores terminal
      (Nat.add_lt_of_lt_sub small)) terminal
  have blanked := stores_trans copied (blank_row_stores _ (by decide : vgaHeight - 1 < vgaHeight))
  simp only [terminalScroll]
  generalize blankRow _ _ = after at blanked ⊢
  have row := blanked.row
  by_cases lower : after.row > 0
  · rw [if_pos lower]
    exact ⟨congrArg (· - 1) row, blanked.column, blanked.adds⟩
  · rw [if_neg lower]
    exact ⟨by omega, blanked.column, blanked.adds⟩

theorem terminal_newline_spec {terminal : Terminal} (row : terminal.row < vgaHeight) :
    (terminalNewline terminal).row = min (terminal.row + 1) (vgaHeight - 1) ∧
      (terminalNewline terminal).column = 0 ∧
      Adds (vgaWidth * vgaHeight) terminal.written (terminalNewline terminal).written := by
  simp only [vgaHeight] at row
  have next : add32 terminal.row 1 = terminal.row + 1 := add32_eq (by omega)
  rw [terminalNewline]
  simp only [next]
  by_cases last : terminal.row + 1 ≥ vgaHeight
  · rw [if_pos last]
    obtain ⟨scrolled, column, adds⟩ :=
      terminal_scroll_spec { terminal with column := 0, row := terminal.row + 1 }
    refine ⟨?_, column, adds⟩
    rw [scrolled]
    simp only [vgaHeight] at last ⊢
    omega
  · rw [if_neg last]
    refine ⟨?_, rfl, adds_refl _ _⟩
    simp only [vgaHeight] at last ⊢
    omega

theorem terminal_newline_on_screen {terminal : Terminal} (row : terminal.row < vgaHeight)
    (written : ∀ index ∈ terminal.written, index < vgaWidth * vgaHeight) :
    OnScreen (terminalNewline terminal) := by
  obtain ⟨next, column, adds⟩ := terminal_newline_spec row
  refine ⟨?_, ?_, adds_bounded adds written⟩
  · rw [next]
    exact Nat.lt_of_le_of_lt (Nat.min_le_right ..) (by decide)
  · rw [column]
    exact (by decide : 0 < vgaWidth)

theorem put_at_cursor_spec {terminal : Terminal} (uc : UInt8) (row : terminal.row < vgaHeight)
    (column : terminal.column < vgaWidth) :
    (putAtCursor terminal uc).row = terminal.row ∧
      (putAtCursor terminal uc).column = terminal.column + 1 ∧
      Adds (vgaWidth * vgaHeight) terminal.written (putAtCursor terminal uc).written := by
  have next : add32 terminal.column 1 = terminal.column + 1 := by
    simp only [vgaWidth] at column
    exact add32_eq (by omega)
  exact ⟨rfl, next, (store_entry_stores terminal (vgaEntry uc terminal.color) column row).adds⟩

/-! ## One character -/

def stepBack (terminal : Terminal) : Terminal :=
  if terminal.column > 0 then
    let terminal := { terminal with column := terminal.column - 1 }
    terminalPutentryat terminal 0x20 terminal.color terminal.column terminal.row
  else terminal

def writeGlyph (terminal : Terminal) (uc : UInt8) : Terminal :=
  if (putAtCursor terminal uc).column = vgaWidth then terminalNewline (putAtCursor terminal uc)
  else putAtCursor terminal uc

theorem putchar_cases (uc : UInt8) :
    (uc = 0x0A ∧ ∀ terminal, terminalPutchar terminal uc =
        terminalSyncCursor (terminalNewline terminal)) ∨
      (uc = 0x0D ∧ ∀ terminal, terminalPutchar terminal uc =
        terminalSyncCursor { terminal with column := 0 }) ∨
      (uc = 0x08 ∧ ∀ terminal, terminalPutchar terminal uc =
        terminalSyncCursor (stepBack terminal)) ∨
      (uc = 0x09 ∧ ∀ terminal, terminalPutchar terminal uc =
        terminalSyncCursor (terminalTab tabWidth terminal)) ∨
      (uc = 27 ∧ ∀ terminal, terminalPutchar terminal uc = terminal) ∨
      (uc ≠ 0x0A ∧ uc ≠ 0x0D ∧ uc ≠ 0x08 ∧ uc ≠ 0x09 ∧ uc ≠ 27 ∧
        ∀ terminal, terminalPutchar terminal uc =
          terminalSyncCursor (writeGlyph terminal uc)) := by
  by_cases newline : uc = 0x0A
  · exact Or.inl ⟨newline, fun terminal => if_pos newline⟩
  by_cases carriage : uc = 0x0D
  · refine Or.inr (Or.inl ⟨carriage, fun terminal => ?_⟩)
    rw [terminalPutchar, if_neg newline, if_pos carriage]
  by_cases backspace : uc = 0x08
  · refine Or.inr (Or.inr (Or.inl ⟨backspace, fun terminal => ?_⟩))
    rw [terminalPutchar, if_neg newline, if_neg carriage, if_pos backspace]
    rfl
  by_cases tab : uc = 0x09
  · refine Or.inr (Or.inr (Or.inr (Or.inl ⟨tab, fun terminal => ?_⟩)))
    rw [terminalPutchar, if_neg newline, if_neg carriage, if_neg backspace, if_pos tab]
  by_cases escape : uc = 27
  · refine Or.inr (Or.inr (Or.inr (Or.inr (Or.inl ⟨escape, fun terminal => ?_⟩))))
    rw [terminalPutchar, if_neg newline, if_neg carriage, if_neg backspace, if_neg tab,
      if_pos escape]
  · refine Or.inr (Or.inr (Or.inr (Or.inr (Or.inr
      ⟨newline, carriage, backspace, tab, escape, fun terminal => ?_⟩))))
    rw [terminalPutchar, if_neg newline, if_neg carriage, if_neg backspace, if_neg tab,
      if_neg escape]
    rfl

/-- The next tab stop is the same one column further on, unless there is one here. -/
theorem tab_stop_next {column : Nat} (between : column % tabWidth ≠ 0) :
    (column + 1 + 7) / tabWidth * tabWidth = (column + 7) / tabWidth * tabWidth := by
  simp only [tabWidth] at between ⊢
  omega

theorem tab_stop_here {column : Nat} (stop : column % tabWidth = 0) :
    (column + 7) / tabWidth * tabWidth = column := by
  simp only [tabWidth] at stop ⊢
  omega

/-- The tab loop ends at the next multiple of the tab width, which may be the
width of the screen. -/
theorem terminal_tab_spec {terminal : Terminal} (fuel : Nat) (row : terminal.row < vgaHeight)
    (column : terminal.column ≤ vgaWidth)
    (enough : (terminal.column + 7) / tabWidth * tabWidth - terminal.column < fuel) :
    (terminalTab fuel terminal).row = terminal.row ∧
      (terminalTab fuel terminal).column = (terminal.column + 7) / tabWidth * tabWidth ∧
      Adds (vgaWidth * vgaHeight) terminal.written (terminalTab fuel terminal).written := by
  induction fuel generalizing terminal with
  | zero => exact absurd enough (Nat.not_lt_zero _)
  | succ fuel ih =>
      rw [terminalTab]
      by_cases between : terminal.column < vgaWidth ∧ terminal.column % tabWidth ≠ 0
      · obtain ⟨sameRow, next, stored⟩ := put_at_cursor_spec 0x20 row between.1
        have same := tab_stop_next between.2
        have rounds : (terminal.column + 7) / tabWidth * tabWidth - (terminal.column + 1) < fuel := by
          simp only [tabWidth] at between enough ⊢
          omega
        rw [← next] at same rounds
        obtain ⟨laterRow, laterStop, later⟩ := ih (by rw [sameRow]; exact row)
          (by rw [next]; exact between.1) (by rw [same]; exact rounds)
        rw [if_pos between]
        exact ⟨laterRow.trans sameRow, laterStop.trans same, adds_trans stored later⟩
      · have stop : (terminal.column + 7) / tabWidth * tabWidth = terminal.column := by
          simp only [vgaWidth, tabWidth] at column between ⊢
          omega
        rw [if_neg between, stop]
        exact ⟨rfl, rfl, adds_refl _ _⟩

theorem sync_cursor_on_screen {terminal : Terminal} :
    OnScreen (terminalSyncCursor terminal) ↔ OnScreen terminal :=
  ⟨fun shown => ⟨shown.row, shown.column, shown.written⟩,
    fun shown => ⟨shown.row, shown.column, shown.written⟩⟩

/-- The first column in which a tab leaves the screen. -/
def lastTabStop : Nat := vgaWidth - tabWidth

theorem putchar_tab_on_screen {terminal : Terminal} (shown : OnScreen terminal) :
    OnScreen (terminalPutchar terminal 0x09) ↔ terminal.column ≤ lastTabStop := by
  have column := shown.column
  have enough : (terminal.column + 7) / tabWidth * tabWidth - terminal.column < tabWidth := by
    simp only [tabWidth]
    omega
  obtain ⟨row, stop, adds⟩ := terminal_tab_spec tabWidth shown.row (Nat.le_of_lt column) enough
  have unfolded : terminalPutchar terminal 0x09 = terminalSyncCursor (terminalTab tabWidth terminal) :=
    rfl
  rw [unfolded, sync_cursor_on_screen]
  constructor
  · intro after
    have inside := after.column
    rw [stop] at inside
    simp only [vgaWidth, tabWidth, lastTabStop] at inside column ⊢
    omega
  · intro before
    refine ⟨by rw [row]; exact shown.row, ?_, adds_bounded adds shown.written⟩
    rw [stop]
    simp only [vgaWidth, tabWidth, lastTabStop] at before ⊢
    omega

theorem putchar_other_on_screen {terminal : Terminal} (shown : OnScreen terminal) {uc : UInt8}
    (other : uc ≠ 0x09) : OnScreen (terminalPutchar terminal uc) := by
  rcases putchar_cases uc with ⟨_, run⟩ | ⟨_, run⟩ | ⟨_, run⟩ | ⟨tab, _⟩ | ⟨_, run⟩ |
    ⟨_, _, _, _, _, run⟩
  · rw [run, sync_cursor_on_screen]
    exact terminal_newline_on_screen shown.row shown.written
  · rw [run, sync_cursor_on_screen]
    exact ⟨shown.row, (by decide : 0 < vgaWidth), shown.written⟩
  · rw [run, sync_cursor_on_screen, stepBack]
    by_cases right : terminal.column > 0
    · have left : terminal.column - 1 < vgaWidth := Nat.lt_of_le_of_lt (Nat.sub_le _ _) shown.column
      rw [if_pos right]
      exact ⟨shown.row, left, adds_bounded
        (store_entry_stores terminal (vgaEntry 0x20 terminal.color) left shown.row).adds
        shown.written⟩
    · rw [if_neg right]
      exact shown
  · exact absurd tab other
  · rw [run]
    exact shown
  · obtain ⟨row, next, stored⟩ := put_at_cursor_spec uc shown.row shown.column
    rw [run, sync_cursor_on_screen, writeGlyph]
    by_cases full : (putAtCursor terminal uc).column = vgaWidth
    · rw [if_pos full]
      exact terminal_newline_on_screen (by rw [row]; exact shown.row)
        (adds_bounded stored shown.written)
    · rw [if_neg full]
      refine ⟨by rw [row]; exact shown.row, ?_, adds_bounded stored shown.written⟩
      exact Nat.lt_of_le_of_ne (by rw [next]; exact shown.column) full

theorem enable_cursor_on_screen {terminal : Terminal} (shown : OnScreen terminal) :
    OnScreen (terminalEnableHwCursor terminal) :=
  ⟨shown.row, shown.column, shown.written⟩

theorem blank_screen_on_screen {terminal : Terminal} (shown : OnScreen terminal) :
    OnScreen (blankScreen terminal) := by
  have blanked := range_fold_stores blankRow
    (fun terminal y (row : y < vgaHeight) => blank_row_stores terminal row) terminal
  rw [blankScreen]
  refine ⟨?_, ?_, adds_bounded blanked.adds shown.written⟩
  · rw [blanked.row]
    exact shown.row
  · rw [blanked.column]
    exact shown.column

theorem initialize_on_screen (terminal : Terminal) :
    OnScreen (terminalInitialize { terminal with written := [] }) := by
  rw [terminalInitialize, sync_cursor_on_screen]
  apply enable_cursor_on_screen
  apply blank_screen_on_screen
  exact ⟨(by decide : 0 < vgaHeight), (by decide : 0 < vgaWidth), by simp⟩

/-! ## Runs -/

inductive TerminalCall where
  | putchar (c : UInt8)
  | write (data : List UInt8)
  | writestring (data : List UInt8)
  | setcolor (color : UInt8)

def terminalCall (terminal : Terminal) : TerminalCall → Terminal
  | .putchar c => terminalPutchar terminal c
  | .write data => terminalWrite terminal data
  | .writestring data => terminalWritestring terminal data
  | .setcolor color => terminalSetcolor terminal color

inductive TerminalStep where
  | character (c : UInt8)
  | color (color : UInt8)

def terminalStep (terminal : Terminal) : TerminalStep → Terminal
  | .character c => terminalPutchar terminal c
  | .color color => terminalSetcolor terminal color

def callSteps : TerminalCall → List TerminalStep
  | .putchar c => [.character c]
  | .write data => data.map .character
  | .writestring data => (data.takeWhile fun byte => byte != 0).map .character
  | .setcolor color => [.color color]

theorem terminal_call_eq_steps (terminal : Terminal) (call : TerminalCall) :
    terminalCall terminal call = (callSteps call).foldl terminalStep terminal := by
  cases call with
  | putchar c => rfl
  | write data => rw [callSteps, List.foldl_map]; rfl
  | writestring data => rw [callSteps, List.foldl_map]; rfl
  | setcolor color => rfl

theorem calls_eq_steps (terminal : Terminal) (calls : List TerminalCall) :
    calls.foldl terminalCall terminal = (calls.flatMap callSteps).foldl terminalStep terminal := by
  induction calls generalizing terminal with
  | nil => rfl
  | cons call rest ih =>
      rw [List.foldl_cons, ih, List.flatMap_cons, List.foldl_append, terminal_call_eq_steps]

def freshTerminal (power : Terminal) : Terminal := terminalInitialize { power with written := [] }

theorem step_on_screen {terminal : Terminal} (shown : OnScreen terminal) (step : TerminalStep) :
    OnScreen (terminalStep terminal step) ↔
      (step = .character 0x09 → terminal.column ≤ lastTabStop) := by
  cases step with
  | color color =>
      refine ⟨fun _ => ?_, fun _ => ⟨shown.row, shown.column, shown.written⟩⟩
      intro impossible
      cases impossible
  | character c =>
      by_cases tab : c = 0x09
      · subst tab
        exact ⟨fun after _ => (putchar_tab_on_screen shown).mp after,
          fun before => (putchar_tab_on_screen shown).mpr (before rfl)⟩
      · refine ⟨fun _ same => ?_, fun _ => putchar_other_on_screen shown tab⟩
        injection same with equal
        exact absurd equal tab

/-- Nothing outside the screen is addressed after any character of a run, if and
only if the run meets no tab in columns 73 to 79. -/
theorem terminal_on_screen_iff (power : Terminal) (calls : List TerminalCall) :
    (∀ front, front <+: calls.flatMap callSteps →
        OnScreen (front.foldl terminalStep (freshTerminal power))) ↔
      ∀ front, front ++ [.character 0x09] <+: calls.flatMap callSteps →
        (front.foldl terminalStep (freshTerminal power)).column ≤ lastTabStop := by
  constructor
  · intro shown front met
    have before := shown front ((List.prefix_append front _).trans met)
    have after := shown _ met
    rw [List.foldl_append] at after
    exact (step_on_screen before (.character 0x09)).mp after rfl
  · intro stops front
    induction front using List.reverseRecOn with
    | nil => exact fun _ => initialize_on_screen power
    | append_singleton front step ih =>
        intro met
        have before := ih ((List.prefix_append front _).trans met)
        rw [List.foldl_append]
        apply (step_on_screen before step).mpr
        rintro rfl
        exact stops front met

/-- On the last row, 73 letters, a tab and a letter. -/
def tabCalls : List TerminalCall :=
  [.write (List.replicate 24 0x0A ++ List.replicate 73 0x61), .putchar 0x09, .putchar 0x61]

def darkTerminal : Terminal :=
  { row := 0, column := 0, color := 0, buffer := fun _ => 0, written := [],
    crtc := { selected := 0, registers := fun _ => 0 } }

/-- The letter is stored one cell behind the screen. -/
theorem tab_calls_leave_screen :
    vgaWidth * vgaHeight ∈ (tabCalls.foldl terminalCall (freshTerminal darkTerminal)).written ∧
      ¬∀ front, front <+: tabCalls.flatMap callSteps →
        OnScreen (front.foldl terminalStep (freshTerminal darkTerminal)) := by
  have stored : vgaWidth * vgaHeight ∈
      (tabCalls.foldl terminalCall (freshTerminal darkTerminal)).written := by decide +kernel
  refine ⟨stored, fun shown => ?_⟩
  have whole := (shown _ List.prefix_rfl).written
  rw [← calls_eq_steps] at whole
  exact absurd (whole _ stored) (Nat.lt_irrefl _)

end SimplyOs.TtyBounds
