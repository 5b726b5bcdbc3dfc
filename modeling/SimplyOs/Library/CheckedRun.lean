import Mathlib.Tactic.Common

/-!
# Operations that can fault

A checked operation is `none` where an access is out of bounds or a number leaves
its range. It agrees with a total operation when it has no fault and gives what the
total one does, in a state that keeps the invariant.
-/

namespace SimplyOs.Library.CheckedRun

set_option autoImplicit false

variable {State Checked Item : Type*} {view : State → Checked} {invariant : State → Prop}

/-- `view` forgets what the invariant says of a state. -/
def Agrees (view : State → Checked) (invariant : State → Prop) (checked : Option Checked)
    (result : State) : Prop :=
  checked = some (view result) ∧ invariant result

theorem agrees_some {state : State} (holds : invariant state) :
    Agrees view invariant (some (view state)) state :=
  ⟨rfl, holds⟩

theorem agrees_bind {first : Option Checked} {second : Checked → Option Checked}
    {middle last : State} (before : Agrees view invariant first middle)
    (after : Agrees view invariant (second (view middle)) last) :
    Agrees view invariant (first.bind second) last := by
  rw [before.1, Option.bind_some]
  exact after

/-- A loop agrees with a loop when each of its rounds does. -/
theorem agrees_fold {checked : Checked → Item → Option Checked} {operation : State → Item → State}
    (round : ∀ item state, invariant state →
      Agrees view invariant (checked (view state) item) (operation state item))
    (items : List Item) {state : State} (holds : invariant state) :
    Agrees view invariant (items.foldlM checked (view state)) (items.foldl operation state) := by
  induction items generalizing state with
  | nil => exact agrees_some holds
  | cons item items ih =>
      have first := round item state holds
      rw [List.foldlM_cons, List.foldl_cons]
      exact agrees_bind first (ih first.2)

end SimplyOs.Library.CheckedRun
