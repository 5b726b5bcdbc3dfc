import Mathlib.Algebra.BigOperators.Group.List.Basic
import Mathlib.Algebra.Order.Ring.Nat

/-!
# A counter with a limit

Items are counted one after the other. A guarded item that no longer fits is
refused; one without a guard drives the counter over its limit. Which of the two
happens is decided by the first item that does not fit.
-/

namespace SimplyOs.Library.LimitedCounter

set_option autoImplicit false

inductive Tally where
  | total (count : Nat)
  | refused
  | overflowed
  deriving DecidableEq, Repr

section Counting

variable {Item : Type*} (limit : Nat) (amount : Item → Nat) (guarded : Item → Bool)

/-- What becomes of the counter at an item that does not fit. -/
def beyond (item : Item) : Tally := if guarded item then .refused else .overflowed

def tally : Nat → List Item → Tally
  | count, [] => .total count
  | count, item :: rest =>
      if limit < count + amount item then beyond guarded item
      else tally (count + amount item) rest

/-- Nothing is counted behind a refusal or an overflow. -/
def tallyOn (items : List Item) : Tally → Tally
  | .total count => tally limit amount guarded count items
  | outcome => outcome

def weight (items : List Item) : Nat := (items.map amount).sum

/-- Counting from `count` on, `item` is the first one that does not fit. -/
def FirstBeyond (count : Nat) (items : List Item) (item : Item) : Prop :=
  ∃ front back, items = front ++ item :: back ∧ count + weight amount front ≤ limit ∧
    limit < count + weight amount front + amount item

variable {limit amount guarded}

theorem tally_append (front back : List Item) (count : Nat) :
    tally limit amount guarded count (front ++ back) =
      tallyOn limit amount guarded back (tally limit amount guarded count front) := by
  induction front generalizing count with
  | nil => rfl
  | cons item front ih =>
      rw [List.cons_append, tally, tally]
      by_cases fits : limit < count + amount item
      · rw [if_pos fits, if_pos fits, beyond]
        split
        · rfl
        · rfl
      · rw [if_neg fits, if_neg fits, ih]

theorem weight_cons (item : Item) (items : List Item) :
    weight amount (item :: items) = amount item + weight amount items := List.sum_cons

/-- As long as everything fits, the counter holds the sum. -/
theorem tally_total {items : List Item} {count : Nat}
    (fits : count + weight amount items ≤ limit) :
    tally limit amount guarded count items = .total (count + weight amount items) := by
  induction items generalizing count with
  | nil => rfl
  | cons item items ih =>
      rw [weight_cons, ← Nat.add_assoc] at fits ⊢
      rw [tally, if_neg (by omega), ih fits]

theorem tally_beyond {items : List Item} {item : Item} {count : Nat}
    (first : FirstBeyond limit amount count items item) :
    tally limit amount guarded count items = beyond guarded item := by
  obtain ⟨front, back, rfl, fits, exceeds⟩ := first
  rw [tally_append, tally_total fits, tallyOn, tally, if_pos exceeds]

/-- Either everything fits or there is a first item that does not. -/
theorem fits_or_beyond {count : Nat} (within : count ≤ limit) (items : List Item) :
    count + weight amount items ≤ limit ∨ ∃ item, FirstBeyond limit amount count items item := by
  induction items generalizing count with
  | nil => exact Or.inl within
  | cons item items ih =>
      by_cases exceeds : limit < count + amount item
      · exact Or.inr ⟨item, [], items, rfl, within, exceeds⟩
      · rcases ih (Nat.le_of_not_lt exceeds) with fits | ⟨late, front, back, rfl, fits, exceeds⟩
        · rw [weight_cons]
          exact Or.inl (by omega)
        · refine Or.inr ⟨late, item :: front, back, rfl, ?_, ?_⟩
          · rw [weight_cons]
            omega
          · rw [weight_cons]
            omega

theorem total_within {items : List Item} {count total : Nat} (within : count ≤ limit)
    (counted : tally limit amount guarded count items = .total total) : total ≤ limit := by
  rcases fits_or_beyond within items with fits | ⟨item, first⟩
  · rw [tally_total fits] at counted
    exact (Tally.total.inj counted) ▸ fits
  · rw [tally_beyond first, beyond] at counted
    split at counted
    · cases counted
    · cases counted

theorem beyond_weight {items : List Item} {item : Item} {count : Nat}
    (first : FirstBeyond limit amount count items item) :
    limit < count + weight amount items := by
  obtain ⟨front, back, rfl, -, exceeds⟩ := first
  have more : weight amount (front ++ item :: back) =
      weight amount front + (amount item + weight amount back) := by
    rw [weight, List.map_append, List.sum_append, ← weight, ← weight, weight_cons]
  omega

theorem beyond_mem {items : List Item} {item : Item} {count : Nat}
    (first : FirstBeyond limit amount count items item) : item ∈ items := by
  obtain ⟨front, back, rfl, -, -⟩ := first
  exact List.mem_append_right front List.mem_cons_self

/-- Where all items are guarded, only the sum counts. -/
theorem tally_guarded {items : List Item} {count : Nat} (within : count ≤ limit)
    (all : ∀ item ∈ items, guarded item = true) :
    tally limit amount guarded count items =
      if limit < count + weight amount items then .refused
      else .total (count + weight amount items) := by
  rcases fits_or_beyond within items with fits | ⟨item, first⟩
  · rw [if_neg (Nat.not_lt.mpr fits), tally_total fits]
  · rw [tally_beyond first, beyond, if_pos (all item (beyond_mem first)),
      if_pos (beyond_weight first)]

end Counting

end SimplyOs.Library.LimitedCounter
