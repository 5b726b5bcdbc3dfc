import SimplyOs.ShellEcho

/-!
# A tab and the spaces up to the next stop

The tab loop blanks the cells up to the next stop as spaces would. It makes no round
when the cursor is at a stop already, where eight spaces would be due, and behind the
last stop it ends in the column behind the row and not in the next row.
-/

namespace SimplyOs.TtyTabs

open SimplyOs.Word SimplyOs.Tty SimplyOs.TtyBounds SimplyOs.TtyScreen SimplyOs.ShellEcho

set_option autoImplicit false

def tabSpaces (column : Nat) : List UInt8 := List.replicate (tabWidth - column % tabWidth) 0x20

/-- What stands for a character that is met at a column. -/
def tabPiece (column : Nat) (c : UInt8) : List UInt8 := if c = 0x09 then tabSpaces column else [c]

/-- The bytes with every tab replaced by the spaces from the column at which it is met. -/
def expandTabs (terminal : Terminal) : List UInt8 → List UInt8
  | [] => []
  | c :: rest => tabPiece terminal.column c ++ expandTabs (terminalPutchar terminal c) rest

/-- A column between two tab stops, in front of the last one. -/
def TabFits (column : Nat) : Prop := column % tabWidth ≠ 0 ∧ column < lastTabStop

instance (column : Nat) : Decidable (TabFits column) := inferInstanceAs (Decidable (_ ∧ _))

section Spaces

variable {terminal left right : Terminal}

theorem same_screen_refl (terminal : Terminal) : SameScreen terminal terminal :=
  ⟨rfl, rfl, fun _ _ => rfl⟩

theorem fold_same_screen (same : SameScreen left right) (color : left.color = right.color)
    (bytes : List UInt8) :
    SameScreen (bytes.foldl terminalPutchar left) (bytes.foldl terminalPutchar right) := by
  induction bytes generalizing left right with
  | nil => exact same
  | cons byte bytes ih =>
      exact ih (putchar_same_screen same color byte) (by rw [putchar_color, putchar_color, color])

theorem putchar_space (terminal : Terminal) :
    terminalPutchar terminal 0x20 = terminalSyncCursor (writeGlyph terminal 0x20) := rfl

theorem put_column (small : terminal.column < vgaWidth) (uc : UInt8) :
    (putAtCursor terminal uc).column = terminal.column + 1 := by
  have width : vgaWidth = 80 := rfl
  have next : add32 terminal.column 1 = terminal.column + 1 := add32_eq (by omega)
  exact next

theorem newline_column (terminal : Terminal) : (terminalNewline terminal).column = 0 := by
  rw [terminalNewline]
  simp only
  split
  · exact (terminal_scroll_spec _).2.1
  · rfl

theorem spaces_column (count : Nat) (small : terminal.column < vgaWidth)
    (within : terminal.column + count ≤ vgaWidth) :
    ((List.replicate count 0x20).foldl terminalPutchar terminal).column =
      if terminal.column + count = vgaWidth then 0 else terminal.column + count := by
  induction count generalizing terminal with
  | zero =>
      rw [if_neg (by omega)]
      rfl
  | succ count ih =>
      rw [List.replicate_succ, List.foldl_cons, putchar_space, writeGlyph, put_column small]
      by_cases full : terminal.column + 1 = vgaWidth
      · have last : count = 0 := by omega
        subst last
        rw [if_pos full, if_pos full]
        exact newline_column _
      · have next : (terminalSyncCursor (putAtCursor terminal 0x20)).column = terminal.column + 1 :=
          put_column small 0x20
        rw [if_neg full, ih (by rw [next]; omega) (by rw [next]; omega), next, Nat.add_assoc,
          Nat.add_comm 1 count]

/-- In front of the last stop the tab loop does what the spaces do. -/
theorem tab_as_spaces (fuel : Nat) (fits : TabFits terminal.column)
    (enough : tabWidth - terminal.column % tabWidth ≤ fuel) :
    SameScreen ((tabSpaces terminal.column).foldl terminalPutchar terminal)
      (terminalTab fuel terminal) := by
  have below := Nat.mod_lt terminal.column (by decide : 0 < tabWidth)
  induction fuel generalizing terminal with
  | zero => omega
  | succ fuel ih =>
      obtain ⟨between, front⟩ := fits
      have width : tabWidth = 8 := rfl
      have wide : vgaWidth = 80 := rfl
      have stop : lastTabStop = 72 := rfl
      have small : terminal.column < vgaWidth := by omega
      have next := put_column small 0x20
      have spaces : tabSpaces terminal.column =
          0x20 :: List.replicate (tabWidth - terminal.column % tabWidth - 1) 0x20 := by
        rw [tabSpaces, ← List.replicate_succ]
        congr 1
        omega
      have first : SameScreen (terminalPutchar terminal 0x20) (putAtCursor terminal 0x20) := by
        rw [putchar_space, writeGlyph, next, if_neg (by omega)]
        exact sync_same_screen _
      have rest := fold_same_screen first (putchar_color terminal 0x20)
        (List.replicate (tabWidth - terminal.column % tabWidth - 1) 0x20)
      rw [terminalTab, if_pos ⟨small, between⟩, spaces]
      refine same_screen_trans rest ?_
      by_cases last : (terminal.column + 1) % tabWidth = 0
      · have none : tabWidth - terminal.column % tabWidth - 1 = 0 := by
          rw [width] at last ⊢
          omega
        have stopped : ¬((putAtCursor terminal 0x20).column < vgaWidth ∧
            (putAtCursor terminal 0x20).column % tabWidth ≠ 0) := by
          rw [next]
          exact fun more => more.2 last
        rw [none, tab_stop fuel stopped]
        exact same_screen_refl _
      · have shorter : tabWidth - terminal.column % tabWidth - 1 =
            tabWidth - (terminal.column + 1) % tabWidth := by
          rw [width] at last between ⊢
          omega
        have inFront : terminal.column + 1 < lastTabStop := by
          rw [width] at last
          omega
        have later := @ih (putAtCursor terminal 0x20)
        rw [next] at later
        rw [shorter]
        exact later ⟨last, inFront⟩ (by rw [← shorter]; omega) (Nat.mod_lt _ (by decide))

end Spaces

/-! ## Runs -/

section Runs

variable {terminal other : Terminal}

/-- The columns behind a tab and behind the spaces differ unless the tab fits. -/
theorem tab_fits_of_same_column (shown : OnScreen terminal)
    (same : (terminalPutchar terminal 0x09).column =
      ((tabSpaces terminal.column).foldl terminalPutchar terminal).column) :
    TabFits terminal.column := by
  have column := shown.column
  have width : tabWidth = 8 := rfl
  have wide : vgaWidth = 80 := rfl
  have stop : lastTabStop = 72 := rfl
  have tab : (terminalPutchar terminal 0x09).column =
      (terminal.column + 7) / tabWidth * tabWidth := by
    rw [putchar_tab]
    exact (terminal_tab_spec tabWidth shown.row (Nat.le_of_lt column)
      (by rw [width]; omega)).2.1
  have within : terminal.column + (tabWidth - terminal.column % tabWidth) ≤ vgaWidth := by
    rw [wide] at column ⊢
    rw [width]
    omega
  rw [tab, tabSpaces, spaces_column _ column within, width, wide] at same
  rw [wide] at column
  rw [TabFits, stop, width]
  split at same
  · omega
  · omega

/-- A character and what stands for it leave the same screen unless it is a tab that does
not fit. -/
theorem piece_same_screen_iff (shown : OnScreen terminal) (same : SameScreen terminal other)
    (color : terminal.color = other.color) (c : UInt8) :
    SameScreen (terminalPutchar terminal c)
        ((tabPiece terminal.column c).foldl terminalPutchar other) ↔
      (c = 0x09 → TabFits terminal.column) := by
  have moved := fold_same_screen same color (tabPiece terminal.column c)
  by_cases tab : c = 0x09
  · subst tab
    rw [tabPiece, if_pos rfl] at moved ⊢
    constructor
    · intro equal _
      exact tab_fits_of_same_column shown (equal.column.trans moved.column.symm)
    · intro fits
      have loop := tab_as_spaces tabWidth (fits rfl) (Nat.sub_le _ _)
      rw [putchar_tab]
      exact same_screen_trans (sync_same_screen _)
        (same_screen_trans (same_screen_symm loop) moved)
  · rw [tabPiece, if_neg tab]
    exact iff_of_true (putchar_same_screen same color c) fun impossible => absurd impossible tab

theorem expand_tabs_append (terminal : Terminal) (front back : List UInt8) :
    expandTabs terminal (front ++ back) =
      expandTabs terminal front ++ expandTabs (front.foldl terminalPutchar terminal) back := by
  induction front generalizing terminal with
  | nil => rfl
  | cons c front ih =>
      rw [List.cons_append, expandTabs, expandTabs, ih, List.append_assoc]
      rfl

theorem expanded_step (terminal : Terminal) (front : List UInt8) (c : UInt8) :
    (front ++ [c]).foldl terminalPutchar terminal =
        terminalPutchar (front.foldl terminalPutchar terminal) c ∧
      (expandTabs terminal (front ++ [c])).foldl terminalPutchar terminal =
        (tabPiece (front.foldl terminalPutchar terminal).column c).foldl terminalPutchar
          ((expandTabs terminal front).foldl terminalPutchar terminal) := by
  constructor
  · rw [List.foldl_append]
    rfl
  · rw [expand_tabs_append, List.foldl_append, expandTabs, expandTabs, List.append_nil]

/-- From a screen: the run and its expansion agree after every prefix exactly when every tab
fits where it is met. -/
theorem run_tabs_iff (shown : OnScreen terminal) (bytes : List UInt8) :
    (∀ front, front <+: bytes →
        SameScreen (front.foldl terminalPutchar terminal)
          ((expandTabs terminal front).foldl terminalPutchar terminal)) ↔
      ∀ front, front ++ [0x09] <+: bytes →
        TabFits (front.foldl terminalPutchar terminal).column := by
  have color (front : List UInt8) : (front.foldl terminalPutchar terminal).color =
      ((expandTabs terminal front).foldl terminalPutchar terminal).color := by
    rw [fold_color, fold_color]
  have step (front : List UInt8) (c : UInt8)
      (onScreen : OnScreen (front.foldl terminalPutchar terminal))
      (same : SameScreen (front.foldl terminalPutchar terminal)
        ((expandTabs terminal front).foldl terminalPutchar terminal)) :
      SameScreen ((front ++ [c]).foldl terminalPutchar terminal)
          ((expandTabs terminal (front ++ [c])).foldl terminalPutchar terminal) ↔
        (c = 0x09 → TabFits (front.foldl terminalPutchar terminal).column) := by
    rw [(expanded_step terminal front c).1, (expanded_step terminal front c).2]
    exact piece_same_screen_iff onScreen same (color front) c
  -- a tab that fits keeps the cursor on the screen, and so does any other character
  have stays (front : List UInt8) (c : UInt8)
      (onScreen : OnScreen (front.foldl terminalPutchar terminal))
      (fits : c = 0x09 → TabFits (front.foldl terminalPutchar terminal).column) :
      OnScreen ((front ++ [c]).foldl terminalPutchar terminal) := by
    rw [(expanded_step terminal front c).1]
    exact (step_on_screen onScreen (.character c)).mpr fun tab =>
      Nat.le_of_lt (fits (TerminalStep.character.inj tab)).2
  constructor
  · intro agree
    have onScreen (front : List UInt8) (met : front <+: bytes) :
        OnScreen (front.foldl terminalPutchar terminal) := by
      induction front using List.reverseRecOn with
      | nil => exact shown
      | append_singleton front c ih =>
          have before := (List.prefix_append front _).trans met
          exact stays front c (ih before)
            ((step front c (ih before) (agree front before)).mp (agree _ met))
    intro front met
    have before := (List.prefix_append front _).trans met
    exact (step front 0x09 (onScreen front before) (agree front before)).mp (agree _ met) rfl
  · intro fits front met
    have both : OnScreen (front.foldl terminalPutchar terminal) ∧
        SameScreen (front.foldl terminalPutchar terminal)
          ((expandTabs terminal front).foldl terminalPutchar terminal) := by
      induction front using List.reverseRecOn with
      | nil => exact ⟨shown, same_screen_refl terminal⟩
      | append_singleton front c ih =>
          obtain ⟨onScreen, same⟩ := ih ((List.prefix_append front _).trans met)
          have fitsHere : c = 0x09 → TabFits (front.foldl terminalPutchar terminal).column := by
            rintro rfl
            exact fits front met
          exact ⟨stays front c onScreen fitsHere, (step front c onScreen same).mpr fitsHere⟩
    exact both.2

/-- After `terminal_initialize`: any bytes and the same bytes with spaces for the tabs give the
same screen after every prefix exactly when each tab is met between two tab stops, in front of
the last one. -/
theorem tabs_are_spaces_iff (power : Terminal) (bytes : List UInt8) :
    (∀ front, front <+: bytes →
        SameScreen (terminalWrite (freshTerminal power) front)
          (terminalWrite (freshTerminal power) (expandTabs (freshTerminal power) front))) ↔
      ∀ front, front ++ [0x09] <+: bytes →
        TabFits (terminalWrite (freshTerminal power) front).column :=
  run_tabs_iff (initialize_on_screen power) bytes

end Runs

/-- A tab at the left edge moves nothing, and one in column 73 does not reach the next row. -/
theorem tabs_differ :
    ¬SameScreen (terminalWrite (freshTerminal darkTerminal) [0x09])
        (terminalWrite (freshTerminal darkTerminal)
          (expandTabs (freshTerminal darkTerminal) [0x09])) ∧
      ¬SameScreen
        (terminalWrite (freshTerminal darkTerminal) (List.replicate 73 0x61 ++ [0x09]))
        (terminalWrite (freshTerminal darkTerminal)
          (expandTabs (freshTerminal darkTerminal) (List.replicate 73 0x61 ++ [0x09]))) := by
  constructor
  · intro same
    exact absurd same.column (by decide +kernel)
  · intro same
    exact absurd same.column (by decide +kernel)

end SimplyOs.TtyTabs
