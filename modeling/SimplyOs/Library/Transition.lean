import Mathlib.Tactic.Common

/-!
# Transition systems and their invariants

A system is a set of initial states and a labelled step relation. The single
induction over runs is packaged here: a client proves that its invariant holds
initially and that one step keeps it. For a step function, `CanReach` says what some
further steps lead to.
-/

namespace SimplyOs.Library.Transition

set_option autoImplicit false

structure System (State Label : Type*) where
  initial : State → Prop
  step : State → Label → State → Prop

variable {State Label : Type*}

/-- States at the end of some finite run, whatever its labels. -/
inductive Reachable (system : System State Label) : State → Prop where
  | start {state : State} (initial : system.initial state) : Reachable system state
  | next {before after : State} {label : Label} (prior : Reachable system before)
      (taken : system.step before label after) : Reachable system after

theorem reachable_invariant {system : System State Label} {invariant : State → Prop}
    (initially : ∀ state, system.initial state → invariant state)
    (preserved : ∀ before label after, invariant before →
      system.step before label after → invariant after)
    {state : State} (reachable : Reachable system state) : invariant state := by
  induction reachable with
  | start initial => exact initially _ initial
  | next prior taken ih => exact preserved _ _ _ ih taken

/-! ## Some further steps -/

section Further

variable {advance : State → Label → Option State} {before middle after : State}

/-- Some labels lead from one state to the other. -/
def CanReach (advance : State → Label → Option State) (before after : State) : Prop :=
  ∃ labels : List Label, labels.foldlM advance before = some after

theorem can_reach_self (state : State) : CanReach advance state state := ⟨[], rfl⟩

theorem can_reach_step {label : Label} (taken : advance before label = some middle)
    (rest : CanReach advance middle after) : CanReach advance before after := by
  obtain ⟨labels, run⟩ := rest
  refine ⟨label :: labels, ?_⟩
  rw [List.foldlM_cons, taken]
  exact run

theorem can_reach_trans (first : CanReach advance before middle)
    (rest : CanReach advance middle after) : CanReach advance before after := by
  obtain ⟨labels, run⟩ := first
  obtain ⟨further, ending⟩ := rest
  refine ⟨labels ++ further, ?_⟩
  rw [List.foldlM_append, run]
  exact ending

theorem can_reach_invariant {invariant : State → Prop}
    (preserved : ∀ before label after, invariant before →
      advance before label = some after → invariant after)
    (reached : CanReach advance before after) (holds : invariant before) : invariant after := by
  obtain ⟨labels, run⟩ := reached
  induction labels generalizing before with
  | nil => exact Option.some.inj run ▸ holds
  | cons label labels ih =>
      rw [List.foldlM_cons] at run
      obtain ⟨middle, taken, rest⟩ := Option.bind_eq_some_iff.mp run
      exact ih (preserved _ _ _ holds taken) rest

theorem reachable_can_reach {system : System State Label}
    (steps : ∀ before label after, advance before label = some after →
      system.step before label after)
    (reachable : Reachable system before) (reached : CanReach advance before after) :
    Reachable system after :=
  can_reach_invariant (fun before label after prior taken => .next prior (steps before label after taken))
    reached reachable

end Further

end SimplyOs.Library.Transition
