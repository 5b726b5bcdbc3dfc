import Mathlib.Data.List.FinRange
import Mathlib.Logic.Function.Basic

/-!
# Lines served by priority

A controller with numbered lines. A line asks with its request bit and is served
until its service bit is cleared; a lower number has the higher priority. A line
passes when it asks, is not masked, and neither it nor a line in front of it is being
served.
-/

namespace SimplyOs.Library.PriorityLines

set_option autoImplicit false

variable {count : Nat}

/-! ## The first line of a set -/

def firstLine (holds : Fin count → Bool) : Option (Fin count) := (List.finRange count).find? holds

theorem first_line_some_iff {holds : Fin count → Bool} {line : Fin count} :
    firstLine holds = some line ↔ holds line = true ∧ ∀ other < line, holds other = false := by
  rw [firstLine, List.find?_eq_some_iff_getElem]
  simp only [List.getElem_finRange, List.length_finRange]
  constructor
  · rintro ⟨found, index, inside, same, before⟩
    refine ⟨found, fun other smaller => ?_⟩
    have place : other.val < index := by
      rw [← same] at smaller
      exact smaller
    simpa using before other.val place
  · rintro ⟨found, before⟩
    refine ⟨found, line.val, line.isLt, by simp, fun index smaller => ?_⟩
    simpa using before ⟨index, Nat.lt_trans smaller line.isLt⟩ smaller

theorem first_line_none_iff {holds : Fin count → Bool} :
    firstLine holds = none ↔ ∀ line, holds line = false := by
  simp [firstLine, List.find?_eq_none]

/-! ## The controller -/

structure Lines (count : Nat) where
  request : Fin count → Bool
  service : Fin count → Bool

def Lines.raise (lines : Lines count) (line : Fin count) : Lines count :=
  { lines with request := Function.update lines.request line true }

def Lines.drop (lines : Lines count) (line : Fin count) : Lines count :=
  { lines with request := Function.update lines.request line false }

def Lines.reset : Lines count where
  request := fun _ => false
  service := fun _ => false

def Lines.blocked (lines : Lines count) (line : Fin count) : Bool :=
  (List.finRange count).any fun other => decide (other ≤ line) && lines.service other

def Lines.passes (lines : Lines count) (mask : Fin count → Bool) (line : Fin count) : Bool :=
  lines.request line && !mask line && !lines.blocked line

def Lines.candidate (lines : Lines count) (mask : Fin count → Bool) : Option (Fin count) :=
  firstLine (lines.passes mask)

/-- The line has been answered: its request is taken for service. -/
def Lines.take (lines : Lines count) (line : Fin count) : Lines count where
  request := Function.update lines.request line false
  service := Function.update lines.service line true

/-- The end of an interrupt that does not say of which: the first one in service. -/
def Lines.endService (lines : Lines count) : Lines count :=
  match firstLine lines.service with
  | some line => { lines with service := Function.update lines.service line false }
  | none => lines

def Idle (lines : Lines count) : Prop := ∀ line, lines.service line = false

def Only (lines : Lines count) (line : Fin count) : Prop :=
  ∀ other, other ≠ line → lines.service other = false

section Facts

variable {lines : Lines count} {mask : Fin count → Bool} {line : Fin count}

theorem blocked_false_iff :
    lines.blocked line = false ↔ ∀ other ≤ line, lines.service other = false := by
  simp [Lines.blocked]

theorem idle_not_blocked (idle : Idle lines) :
    lines.blocked line = false := blocked_false_iff.mpr fun other _ => idle other

/-- Without service a line passes exactly when it asks and is not masked. -/
theorem idle_passes (idle : Idle lines) (line : Fin count) :
    lines.passes mask line = (lines.request line && !mask line) := by
  rw [Lines.passes, idle_not_blocked idle, Bool.not_false, Bool.and_true]

theorem passes_request (passes : lines.passes mask line = true) : lines.request line = true := by
  simp only [Lines.passes, Bool.and_eq_true] at passes
  exact passes.1.1

theorem candidate_passes (chosen : lines.candidate mask = some line) :
    lines.passes mask line = true := (first_line_some_iff.mp chosen).1

theorem take_service (other : Fin count) :
    (lines.take line).service other = if other = line then true else lines.service other := by
  simp [Lines.take, Function.update_apply]

theorem take_only (idle : Idle lines) (line : Fin count) :
    Only (lines.take line) line ∧ (lines.take line).service line = true := by
  refine ⟨fun other different => ?_, by rw [take_service, if_pos rfl]⟩
  rw [take_service, if_neg different]
  exact idle other

theorem end_service_request (lines : Lines count) : lines.endService.request = lines.request := by
  unfold Lines.endService
  split <;> rfl

theorem end_service_only (only : Only lines line) : Idle lines.endService := by
  intro other
  unfold Lines.endService
  split
  · rename_i first found
    have served := (first_line_some_iff.mp found).1
    by_cases here : other = first
    · simp [here]
    · have own : first = line := by
        by_contra different
        rw [only first different] at served
        contradiction
      simp only [Function.update_of_ne here]
      exact only other (own ▸ here)
  · rename_i missing
    exact first_line_none_iff.mp missing other

theorem end_service_idle (idle : Idle lines) : lines.endService = lines := by
  rw [Lines.endService, first_line_none_iff.mpr idle]

end Facts

end SimplyOs.Library.PriorityLines
