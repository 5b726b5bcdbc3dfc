import Mathlib.Algebra.Order.Ring.Nat
import Mathlib.Tactic.Common

/-!
# Pages of text

A page has rows without end and a cursor that never moves up. A screen shows a
window of it: the rows up to the row of the cursor, or the first ones while the
cursor is among them. The rows below the cursor are blank, so the row that comes
into view is.
-/

namespace SimplyOs.Library.TextPage

set_option autoImplicit false

structure Page (Item : Type*) where
  row : Nat
  column : Nat
  cells : Nat → Nat → Item

section Page

variable {Item : Type*} {page : Page Item} {blank item : Item} {width height : Nat}

def emptyPage (blank : Item) : Page Item := ⟨0, 0, fun _ _ => blank⟩

def put (page : Page Item) (item : Item) : Page Item :=
  { page with
    cells := fun row column =>
      if row = page.row ∧ column = page.column then item else page.cells row column }

def toColumn (page : Page Item) (column : Nat) : Page Item := { page with column := column }

def lineFeed (page : Page Item) : Page Item := { page with row := page.row + 1, column := 0 }

/-- Sets the cell at the cursor and moves right, after the last column to the next row. -/
def write (width : Nat) (page : Page Item) (item : Item) : Page Item :=
  if page.column + 1 = width then lineFeed (put page item)
  else toColumn (put page item) (page.column + 1)

/-- Moves left and blanks the cell there, unless the cursor is in the first column. -/
def erase (blank : Item) (page : Page Item) : Page Item :=
  if page.column > 0 then put (toColumn page (page.column - 1)) blank else page

def top (height : Nat) (page : Page Item) : Nat := page.row + 1 - height

def view (height : Nat) (page : Page Item) (row column : Nat) : Item :=
  page.cells (top height page + row) column

def Fresh (blank : Item) (page : Page Item) : Prop :=
  ∀ row column, page.row < row → page.cells row column = blank

theorem fresh_empty (blank : Item) : Fresh blank (emptyPage blank) := fun _ _ _ => rfl

theorem fresh_put (fresh : Fresh blank page) (item : Item) : Fresh blank (put page item) := by
  intro row column below
  have other : ¬(row = page.row ∧ column = page.column) :=
    fun same => absurd same.1 (Nat.ne_of_gt below)
  exact (if_neg other).trans (fresh row column below)

theorem fresh_to_column (fresh : Fresh blank page) (column : Nat) :
    Fresh blank (toColumn page column) :=
  fresh

theorem fresh_line_feed (fresh : Fresh blank page) : Fresh blank (lineFeed page) :=
  fun row column below => fresh row column (Nat.lt_of_succ_lt below)

theorem cursor_shown (positive : 0 < height) : page.row - top height page < height := by
  unfold top
  omega

theorem view_put (positive : 0 < height) (item : Item) (row column : Nat) :
    view height (put page item) row column =
      if row = page.row - top height page ∧ column = page.column then item
      else view height page row column := by
  have place : top height page + row = page.row ↔ row = page.row - top height page := by
    unfold top
    omega
  have unfolded : view height (put page item) row column =
      if top height page + row = page.row ∧ column = page.column then item
      else view height page row column := rfl
  rw [unfolded]
  simp only [place]

/-- Above the last row of the window a line feed moves the cursor only. -/
theorem view_line_feed_above (above : page.row + 1 < height) (row column : Nat) :
    view height (lineFeed page) row column = view height page row column := by
  have same : top height (lineFeed page) = top height page := by
    unfold top lineFeed
    simp only
    omega
  rw [view, view, same]
  rfl

theorem view_line_feed_last (last : height ≤ page.row + 1) (row column : Nat) :
    view height (lineFeed page) row column = view height page (row + 1) column := by
  have next : top height (lineFeed page) = top height page + 1 := by
    unfold top lineFeed
    simp only
    omega
  rw [view, view, next]
  have place : top height page + 1 + row = top height page + (row + 1) := by omega
  rw [place]
  rfl

theorem view_below (fresh : Fresh blank page) {row : Nat}
    (below : page.row - top height page < row) (column : Nat) :
    view height page row column = blank := by
  apply fresh
  omega

end Page

end SimplyOs.Library.TextPage
