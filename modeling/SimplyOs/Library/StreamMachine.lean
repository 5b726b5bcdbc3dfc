import Mathlib.Data.List.Induction

/-!
# Machines on streams

A machine that reads a stream and writes some outputs for each input. A transducer
may be replaced by one on fewer states when a projection of the states determines
the outputs and the next projection. An input may be repeated: one that changes
nothing the second time counts once, one that undoes itself by its parity.
-/

namespace SimplyOs.Library.StreamMachine

set_option autoImplicit false

structure Transducer (State Input Output : Type*) where
  next : State → Input → State
  emits : State → Input → List Output

variable {State Small Input Output : Type*}

section Runs

variable (machine : Transducer State Input Output) (state : State)

def run (inputs : List Input) : State := inputs.foldl machine.next state

def outputs : State → List Input → List Output
  | _, [] => []
  | state, input :: rest => machine.emits state input ++ outputs (machine.next state input) rest

theorem run_append (front back : List Input) :
    run machine state (front ++ back) = run machine (run machine state front) back :=
  List.foldl_append

theorem run_concat (front : List Input) (input : Input) :
    run machine state (front ++ [input]) = machine.next (run machine state front) input := by
  rw [run_append]
  rfl

theorem outputs_append (front back : List Input) :
    outputs machine state (front ++ back) =
      outputs machine state front ++ outputs machine (run machine state front) back := by
  induction front generalizing state with
  | nil => rfl
  | cons input front ih =>
      rw [List.cons_append, outputs, outputs, ih, List.append_assoc]
      rfl

theorem outputs_concat (front : List Input) (input : Input) :
    outputs machine state (front ++ [input]) =
      outputs machine state front ++ machine.emits (run machine state front) input := by
  rw [outputs_append, outputs, outputs, List.append_nil]

/-- Each output is one for an input in the state behind what is in front of it. -/
theorem outputs_by_prefix (inputs : List Input) :
    outputs machine state inputs =
      (inputs.mapIdx fun index input =>
        machine.emits (run machine state (inputs.take index)) input).flatten := by
  induction inputs using List.reverseRecOn with
  | nil => rfl
  | append_singleton front input ih =>
      have earlier : (front.mapIdx fun index read =>
          machine.emits (run machine state ((front ++ [input]).take index)) read) =
          front.mapIdx fun index read =>
            machine.emits (run machine state (front.take index)) read := by
        rw [List.mapIdx_eq_mapIdx_iff]
        intro index inside
        rw [List.take_append_of_le_length (Nat.le_of_lt inside)]
      rw [outputs_concat, List.mapIdx_concat, List.flatten_append, ih, List.take_left, earlier,
        List.flatten_singleton]

/-! ### One input again and again -/

/-- An input that changes nothing the second time may be repeated. -/
theorem run_replicate_same {input : Input}
    (same : machine.next (machine.next state input) input = machine.next state input)
    (count : Nat) :
    run machine state (List.replicate (count + 1) input) = machine.next state input := by
  induction count with
  | zero => rfl
  | succ count ih => rw [List.replicate_succ', run_concat, ih, same]

theorem run_replicate_toggle {input : Input}
    (toggled : machine.next (machine.next state input) input = state) (count : Nat) :
    run machine state (List.replicate count input) =
      if count % 2 = 1 then machine.next state input else state := by
  induction count with
  | zero => rfl
  | succ count ih =>
      rw [List.replicate_succ', run_concat, ih]
      by_cases odd : count % 2 = 1
      · have even : ¬(count + 1) % 2 = 1 := by omega
        rw [if_pos odd, if_neg even, toggled]
      · have next : (count + 1) % 2 = 1 := by omega
        rw [if_neg odd, if_pos next]

theorem outputs_replicate_silent {input : Input}
    (silent : ∀ state, machine.emits state input = []) (count : Nat) :
    outputs machine state (List.replicate count input) = [] := by
  induction count with
  | zero => rfl
  | succ count ih => rw [List.replicate_succ', outputs_concat, ih, silent, List.nil_append]

end Runs

/-! ## Projections -/

/-- The projection determines what is written and where it leads. -/
structure Projects (machine : Transducer State Input Output)
    (small : Transducer Small Input Output) (project : State → Small) : Prop where
  next : ∀ state input, project (machine.next state input) = small.next (project state) input
  emits : ∀ state input, machine.emits state input = small.emits (project state) input

section Projection

variable {machine : Transducer State Input Output} {small : Transducer Small Input Output}
  {project : State → Small}

theorem project_run (projects : Projects machine small project) (state : State)
    (inputs : List Input) :
    project (run machine state inputs) = run small (project state) inputs := by
  induction inputs generalizing state with
  | nil => rfl
  | cons input inputs ih =>
      have rest := ih (machine.next state input)
      rw [projects.next] at rest
      exact rest

theorem project_outputs (projects : Projects machine small project) (state : State)
    (inputs : List Input) :
    outputs machine state inputs = outputs small (project state) inputs := by
  induction inputs generalizing state with
  | nil => rfl
  | cons input inputs ih => rw [outputs, outputs, ih, projects.emits, projects.next]

end Projection

end SimplyOs.Library.StreamMachine
