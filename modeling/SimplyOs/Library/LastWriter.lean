import Mathlib.Data.List.Induction
import Mathlib.Data.List.Perm.Basic

/-!
# The last writer

A list of rules is applied in order to one place; the last rule that applies
decides. The result is the same for every order of the rules exactly when all rules
that apply agree.
-/

namespace SimplyOs.Library.LastWriter

set_option autoImplicit false

variable {Item Value : Type} (applies : Item → Bool)

def lastWriter (items : List Item) : Option Item := items.reverse.find? applies

theorem last_writer_concat (items : List Item) (item : Item) :
    lastWriter applies (items ++ [item]) =
      if applies item then some item else lastWriter applies items := by
  rw [lastWriter, List.reverse_append]
  cases found : applies item <;> simp [found, lastWriter]

/-- The last rule that applies wins. -/
theorem foldl_last_rule (value : Item → Value) (items : List Item) (initial : Value) :
    items.foldl (fun old item => if applies item then value item else old) initial =
      ((lastWriter applies items).map value).getD initial := by
  induction items using List.reverseRecOn with
  | nil => rfl
  | append_singleton items item ih =>
      rw [List.foldl_append, last_writer_concat, List.foldl_cons, List.foldl_nil, ih]
      cases applies item <;> rfl

variable {applies}

theorem last_writer_eq_some_iff {items : List Item} {item : Item} :
    lastWriter applies items = some item ↔
      applies item = true ∧ ∃ front behind, items = front ++ item :: behind ∧
        ∀ later ∈ behind, applies later = false := by
  rw [lastWriter, List.find?_eq_some_iff_append]
  apply and_congr_right
  intro _
  constructor
  · rintro ⟨behind, front, split, none⟩
    refine ⟨front.reverse, behind.reverse, ?_, ?_⟩
    · rw [← List.reverse_reverse items, split, List.reverse_append, List.reverse_cons,
        List.append_assoc, List.singleton_append]
    · intro later member
      simpa using none later (List.mem_reverse.mp member)
  · rintro ⟨front, behind, split, none⟩
    refine ⟨behind.reverse, front.reverse, ?_, ?_⟩
    · rw [split, List.reverse_append, List.reverse_cons, List.append_assoc,
        List.singleton_append]
    · intro later member
      simpa using none later (List.mem_reverse.mp member)

/-- The same for a property that the test decides on these rules. -/
theorem last_writer_iff {Writes : Item → Prop} {items : List Item} {item : Item}
    (decides : ∀ item ∈ items, applies item = true ↔ Writes item) :
    lastWriter applies items = some item ↔
      Writes item ∧ ∃ front behind, items = front ++ item :: behind ∧
        ∀ later ∈ behind, ¬Writes later := by
  rw [last_writer_eq_some_iff]
  have here {front behind : List Item} (split : items = front ++ item :: behind) :
      applies item = true ↔ Writes item :=
    decides item (by rw [split]; exact List.mem_append_right front List.mem_cons_self)
  have later {front behind : List Item} (split : items = front ++ item :: behind) :
      (∀ later ∈ behind, applies later = false) ↔ ∀ later ∈ behind, ¬Writes later := by
    apply forall₂_congr
    intro later member
    have inItems : later ∈ items := by
      rw [split]
      exact List.mem_append_right front (List.mem_cons_of_mem item member)
    rw [← decides later inItems, Bool.not_eq_true]
  constructor
  · rintro ⟨writes, front, behind, split, none⟩
    exact ⟨(here split).mp writes, front, behind, split, (later split).mp none⟩
  · rintro ⟨writes, front, behind, split, none⟩
    exact ⟨(here split).mpr writes, front, behind, split, (later split).mpr none⟩

theorem last_writer_eq_none_iff {items : List Item} :
    lastWriter applies items = none ↔ ∀ item ∈ items, applies item = false := by
  rw [lastWriter, List.find?_eq_none]
  simp only [List.mem_reverse, Bool.not_eq_true]

theorem last_writer_mem {items : List Item} {item : Item}
    (found : lastWriter applies items = some item) : item ∈ items ∧ applies item = true :=
  ⟨List.mem_reverse.mp (List.mem_of_find?_eq_some found), List.find?_some found⟩

theorem exists_last_writer {items : List Item} {item : Item} (member : item ∈ items)
    (writes : applies item = true) : ∃ last, lastWriter applies items = some last := by
  cases found : lastWriter applies items with
  | some last => exact ⟨last, rfl⟩
  | none =>
      have nobody := last_writer_eq_none_iff.mp found item member
      rw [writes] at nobody
      cases nobody

/-- Any rule that applies can be made the last writer. -/
theorem exists_perm_last [DecidableEq Item] {items : List Item} {item : Item}
    (member : item ∈ items) (writes : applies item = true) :
    ∃ other, items.Perm other ∧ lastWriter applies other = some item := by
  refine ⟨items.erase item ++ [item], ?_, ?_⟩
  · exact (List.perm_cons_erase member).trans (List.perm_append_singleton item _).symm
  · exact last_writer_eq_some_iff.mpr
      ⟨writes, items.erase item, [], rfl, fun _ impossible => nomatch impossible⟩

/-- The value that is left does not depend on the order exactly when all rules that
apply have the same value. -/
theorem last_value_perm_iff [DecidableEq Item] (value : Item → Value) (items : List Item)
    (initial : Value) :
    (∀ other, items.Perm other →
        ((lastWriter applies other).map value).getD initial =
          ((lastWriter applies items).map value).getD initial) ↔
      ∀ one ∈ items, ∀ other ∈ items, applies one = true → applies other = true →
        value one = value other := by
  constructor
  · intro same one oneMember other otherMember oneApplies otherApplies
    obtain ⟨oneLast, onePerm, oneWrites⟩ := exists_perm_last oneMember oneApplies
    obtain ⟨otherLast, otherPerm, otherWrites⟩ := exists_perm_last otherMember otherApplies
    have first := same oneLast onePerm
    have second := same otherLast otherPerm
    rw [oneWrites] at first
    rw [otherWrites] at second
    exact first.trans second.symm
  · intro agree other perm
    cases found : lastWriter applies items with
    | none =>
        have nobody := last_writer_eq_none_iff.mp found
        have none : lastWriter applies other = none :=
          last_writer_eq_none_iff.mpr fun item member => nobody item (perm.mem_iff.mpr member)
        rw [none]
    | some item =>
        obtain ⟨member, writes⟩ := last_writer_mem found
        obtain ⟨last, lastFound⟩ := exists_last_writer (perm.mem_iff.mp member) writes
        obtain ⟨lastMember, lastWrites⟩ := last_writer_mem lastFound
        rw [lastFound]
        exact agree last (perm.mem_iff.mpr lastMember) item member lastWrites writes

end SimplyOs.Library.LastWriter
