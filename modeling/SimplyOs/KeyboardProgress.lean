import SimplyOs.KeyboardService

/-!
# Every scancode can reach the reader

Nothing that was typed gets stuck: from every state of a run the interrupt at hand can be
finished, the reader comes to a point where interrupts are enabled, each byte is served
in its turn, and calls of `keyboard_getchar` take out what the driver has accepted.
-/

namespace SimplyOs.KeyboardProgress

open SimplyOs.Keyboard SimplyOs.KeyboardDecoding SimplyOs.KeyboardBuffer
open SimplyOs.KeyboardInterrupts SimplyOs.KeyboardService
open SimplyOs.Pic SimplyOs.PicMasks SimplyOs.PicService SimplyOs.PicServiceRuns SimplyOs.PicPriority
open SimplyOs.Interrupts (Registers)
open SimplyOs.Library.Transition SimplyOs.Library.RingBuffer

set_option autoImplicit false

/-! ## The reader -/

section Reader

variable {machine next : Machine}

/-- The steps to the end of a call or of a wait, at the most. -/
def stepsLeft : ReaderPoint → Nat
  | .outside => 0
  | .halted => 0
  | .disable => 6
  | .test => 5
  | .load => 4
  | .advance _ => 3
  | .enable _ => 2
  | .leave _ => 1
  | .enableEmpty => 2
  | .halt => 1
  | .hasKey => 3
  | .compare _ => 2
  | .answer _ => 1

theorem reader_step_left (inside : machine.point ≠ .outside) (awake : machine.point ≠ .halted) :
    ∃ next, readerStep machine = some next ∧ stepsLeft next.point < stepsLeft machine.point := by
  cases place : machine.point with
  | outside => exact absurd place inside
  | halted => exact absurd place awake
  | test =>
      simp only [readerStep, place]
      by_cases filled : machine.keyboard.kbdReadPos ≠ machine.keyboard.kbdWritePos
      · rw [if_pos filled]
        exact ⟨_, rfl, by simp [stepsLeft]⟩
      · rw [if_neg filled]
        exact ⟨_, rfl, by simp [stepsLeft]⟩
  | _ =>
      simp only [readerStep, place]
      exact ⟨_, rfl, by simp [stepsLeft]⟩

theorem reader_settles (machine : Machine) :
    ∃ last, CanReach programStep machine last ∧
      (last.point = .outside ∨ last.point = .halted) := by
  induction left : stepsLeft machine.point using Nat.strong_induction_on generalizing machine with
  | _ steps ih =>
      by_cases outside : machine.point = .outside
      · exact ⟨machine, can_reach_self machine, Or.inl outside⟩
      by_cases halted : machine.point = .halted
      · exact ⟨machine, can_reach_self machine, Or.inr halted⟩
      obtain ⟨next, taken, fewer⟩ := reader_step_left outside halted
      obtain ⟨last, reached, settled⟩ := ih _ (left ▸ fewer) next rfl
      have stepped : programStep machine .reader = some next := taken
      exact ⟨last, can_reach_step stepped reached, settled⟩

theorem can_reach_asleep (reached : CanReach programStep machine next) (asleep : Asleep machine) :
    Asleep next :=
  can_reach_invariant (fun _ _ _ asleep taken => program_step_asleep asleep taken) reached asleep

theorem can_reach_lossless (reached : CanReach programStep machine next)
    (lossless : Lossless machine) : Lossless next :=
  can_reach_invariant (fun _ _ _ lossless taken =>
    machine_step_lossless lossless (program_machine_step taken)) reached lossless

theorem reader_enables (asleep : Asleep machine) :
    ∃ last, CanReach programStep machine last ∧ last.interrupts = true ∧ last.point ≠ .halt := by
  obtain ⟨settled, reached, outside | halted⟩ := reader_settles machine
  · have enabled : programStep settled (.setInterrupts true) =
        some { settled with interrupts := true } := if_pos outside
    refine ⟨_, can_reach_trans reached (can_reach_step enabled (can_reach_self _)), rfl, ?_⟩
    rw [outside]
    exact ReaderPoint.noConfusion
  · refine ⟨settled, reached, (can_reach_asleep reached asleep).2 (Or.inr halted), ?_⟩
    rw [halted]
    exact ReaderPoint.noConfusion

theorem getchar_run (outside : machine.point = .outside)
    (filled : machine.keyboard.kbdReadPos ≠ machine.keyboard.kbdWritePos) :
    CanReach programStep machine
      { keyboard := { machine.keyboard with kbdReadPos := nextPos machine.keyboard.kbdReadPos }
        interrupts := true
        point := .outside
        returned := machine.returned ++ [machine.keyboard.kbdBuffer machine.keyboard.kbdReadPos] } := by
  refine ⟨.callGetchar :: List.replicate 6 .reader, ?_⟩
  simp only [List.replicate, List.foldlM_cons, List.foldlM_nil, programStep, machineStep, outside,
    if_true, readerStep, if_pos filled, Option.bind_eq_bind, Option.bind_some, Option.pure_def]

theorem reader_drains_outside (machine : Machine) (lossless : Lossless machine)
    (outside : machine.point = .outside) :
    ∃ last, CanReach programStep machine last ∧ pending last.keyboard = [] ∧
      inHand last.point = [] := by
  induction held : (pending machine.keyboard).length generalizing machine with
  | zero =>
      refine ⟨machine, can_reach_self machine, List.eq_nil_of_length_eq_zero held, ?_⟩
      rw [outside]
      rfl
  | succ count ih =>
      have positioned := lossless.positioned
      have filled : machine.keyboard.kbdReadPos ≠ machine.keyboard.kbdWritePos := by
        intro same
        rw [pending, (empty_iff positioned).mpr same, List.length_nil] at held
        contradiction
      have called := getchar_run outside filled
      have oldest := contents_advance positioned filled
      have ring : kbdRing { machine.keyboard with
          kbdReadPos := nextPos machine.keyboard.kbdReadPos } =
          Library.RingBuffer.advance kbdBufSize (kbdRing machine.keyboard) := by
        rw [next_read_eq positioned]
        rfl
      rw [pending, oldest, List.length_cons, ← ring] at held
      obtain ⟨last, reached, drained⟩ :=
        ih _ (can_reach_lossless called lossless) rfl (Nat.succ.inj held)
      exact ⟨last, can_reach_trans called reached, drained⟩

theorem reader_drains (lossless : Lossless machine) (asleep : Asleep machine) :
    ∃ last, CanReach programStep machine last ∧ pending last.keyboard = [] ∧
      inHand last.point = [] := by
  obtain ⟨settled, reached, outside | halted⟩ := reader_settles machine
  · obtain ⟨last, further, drained⟩ :=
      reader_drains_outside settled (can_reach_lossless reached lossless) outside
    exact ⟨last, can_reach_trans reached further, drained⟩
  · have empty := (can_reach_asleep reached asleep).1 (by rw [halted]; rfl)
    refine ⟨settled, reached,
      (empty_iff (can_reach_lossless reached lossless).positioned).mpr empty, ?_⟩
    rw [halted]
    rfl

end Reader

/-! ## The kernel -/

section Kernel

variable {run after : KernelRun}

/-- The program runs while no interrupt is being handled. -/
theorem program_can_reach {machine last : Machine} (started : run.started = true)
    (idle : run.pics.phase = .idle) (reached : CanReach programStep machine last) :
    CanReach kernelStep { run with machine := machine } { run with machine := last } := by
  obtain ⟨events, steps⟩ := reached
  refine ⟨events.map .program, ?_⟩
  induction events generalizing machine with
  | nil =>
      obtain rfl := Option.some.inj steps
      rfl
  | cons event events ih =>
      rw [List.foldlM_cons] at steps
      obtain ⟨next, taken, rest⟩ := Option.bind_eq_some_iff.mp steps
      have stepped : kernelStep { run with machine := machine } (.program event) =
          some { run with machine := next } := by
        simp only [kernelStep, started, idle, and_self, if_true, taken, Option.map_some]
      rw [List.map_cons, List.foldlM_cons, stepped]
      exact ih rest

theorem can_reach_kernel_invariant {stale : Bool} (reached : CanReach kernelStep run after)
    (invariant : KernelInvariant stale run) : KernelInvariant stale after :=
  can_reach_invariant (fun _ _ _ invariant taken => kernel_step_invariant invariant taken) reached
    invariant

/-- What the bytes of the keyboard and the start of the driver are at the end of some steps. -/
structure SameTyped (run after : KernelRun) : Prop where
  reached : CanReach kernelStep run after
  typed : after.typed = run.typed
  started : after.started = run.started

theorem same_typed_self (run : KernelRun) : SameTyped run run := ⟨can_reach_self run, rfl, rfl⟩

theorem same_typed_step {event : KernelEvent} {next : KernelRun}
    (taken : kernelStep run event = some next) (typed : next.typed = run.typed)
    (started : next.started = run.started) (rest : SameTyped next after) : SameTyped run after :=
  ⟨can_reach_step taken rest.reached, rest.typed.trans typed, rest.started.trans started⟩

theorem same_typed_trans {middle : KernelRun} (first : SameTyped run middle)
    (rest : SameTyped middle after) : SameTyped run after :=
  ⟨can_reach_trans first.reached rest.reached, rest.typed.trans first.typed,
    rest.started.trans first.started⟩

/-! ### The end of an interrupt -/

theorem returning_finishes (returning : run.pics.phase = .returning) :
    ∃ after, SameTyped run after ∧ after.pics.phase = .idle := by
  have taken : kernelStep run .iret = some (withPics run { run.pics with phase := .idle }) := by
    simp only [kernelStep, picStep, returning, if_true, Option.map_some]
  exact ⟨_, same_typed_step taken rfl rfl (same_typed_self _), rfl⟩

theorem handled_finishes {irq : Fin 16} (handled : run.pics.phase = .handled irq) :
    ∃ after, SameTyped run after ∧ after.pics.phase = .idle := by
  obtain ⟨next, taken, typed, started, returning⟩ : ∃ next, kernelStep run .eoi = some next ∧
      next.typed = run.typed ∧ next.started = run.started ∧ next.pics.phase = .returning := by
    simp only [kernelStep, picStep, handled, Option.map_some]
    exact ⟨_, rfl, rfl, rfl, rfl⟩
  obtain ⟨after, same, idle⟩ := returning_finishes returning
  exact ⟨after, same_typed_step taken typed started same, idle⟩

theorem entered_finishes (regs : Registers) {irq : Fin 16} (entered : run.pics.phase = .entered irq) :
    ∃ after, SameTyped run after ∧ after.pics.phase = .idle := by
  obtain ⟨next, taken, typed, started, handled⟩ : ∃ next, kernelStep run (.handle regs) = some next ∧
      next.typed = run.typed ∧ next.started = run.started ∧ next.pics.phase = .handled irq := by
    simp only [kernelStep, picStep, entered, Option.map_some]
    exact ⟨_, rfl, rfl, rfl, rfl⟩
  obtain ⟨after, same, idle⟩ := handled_finishes handled
  exact ⟨after, same_typed_step taken typed started same, idle⟩

theorem cascade_finishes (regs : Registers) (cascade : run.pics.phase = .cascade) :
    ∃ after, SameTyped run after ∧ after.pics.phase = .idle := by
  have taken : kernelStep run .answerSlave = some (withPics run (answerSlave run.pics)) := by
    simp only [kernelStep, picStep, cascade, if_true, Option.map_some]
  obtain ⟨irq, entered⟩ : ∃ irq, (withPics run (answerSlave run.pics)).pics.phase = .entered irq := by
    unfold withPics answerSlave
    split
    · exact ⟨_, rfl⟩
    · exact ⟨_, rfl⟩
  obtain ⟨after, same, idle⟩ := entered_finishes regs entered
  exact ⟨after, same_typed_step taken rfl rfl same, idle⟩

theorem interrupt_finishes (regs : Registers) (run : KernelRun) :
    ∃ after, SameTyped run after ∧ after.pics.phase = .idle := by
  cases phase : run.pics.phase with
  | idle => exact ⟨run, same_typed_self run, phase⟩
  | cascade => exact cascade_finishes regs phase
  | entered irq => exact entered_finishes regs phase
  | handled irq => exact handled_finishes phase
  | returning => exact returning_finishes phase

/-! ### A byte is served -/

theorem keyboard_first (invariant : KernelInvariant false run) (started : run.started = true)
    (idle : run.pics.phase = .idle) (full : run.controller.full = true) :
    First run.pics.pic kbdIrq := by
  obtain ⟨station, -, ledger⟩ := invariant
  have asking : asks run.pics.pic kbdIrq = true := by
    have found := ledger.full.symm.trans full
    rw [announced, idle] at found
    simpa using found
  have unmasked : masked run.pics.pic.ports kbdIrq = false := by
    rw [station.masks, started]
    rfl
  refine ⟨by decide, ?_, fun other _ waiting => ?_⟩
  · rw [waits, asking, reachesCpu, unmasked]
    rfl
  · by_cases same : other = kbdIrq
    · rw [same]
    · have silent : masked run.pics.pic.ports other = true := by
        rw [station.masks, decide_eq_false same, Bool.and_false, Bool.not_false]
      rw [waits, reachesCpu, silent] at waiting
      simp at waiting

theorem keyboard_answered (invariant : KernelInvariant false run) (started : run.started = true)
    (idle : run.pics.phase = .idle) (full : run.controller.full = true) :
    answer run.pics = { run.pics with
      pic := takeLine run.pics.pic kbdIrq
      phase := .entered kbdIrq
      delivered := run.pics.delivered ++ [kbdIrq] } := by
  have chips := pic_run_invariant invariant.station.pics
  have resting := resting_of_invariant chips idle
  rcases first_answered resting (keyboard_first invariant started idle full) with
    ⟨low, device, chosen⟩ | ⟨high, _⟩
  · have own : masterLine (place kbdIrq) = kbdIrq := rfl
    simp only [answer, chosen, has_slave_eq resting.ready, decide_eq_false device,
      Bool.false_eq_true, if_false, own, takeLine, if_pos low]
  · exact absurd high (by decide)

def serviceEvents (regs : Registers) : List KernelEvent := [.answer, .handle regs, .eoi, .iret]

/-- The next interrupt hands the byte in the output buffer to the driver. -/
theorem byte_served (invariant : KernelInvariant false run) (idle : run.pics.phase = .idle)
    (enabled : run.machine.interrupts = true) (shadow : run.machine.point ≠ .halt)
    (full : run.controller.full = true) (regs : Registers) :
    ∃ after, (serviceEvents regs).foldlM kernelStep run = some after ∧
      after.pics.phase = .idle ∧ after.started = run.started ∧ after.typed = run.typed ∧
      after.processed = run.processed ++ [run.controller.data] ∧
      after.controller = { run.controller with full := false } ∧
      after.machine = { run.machine with
        keyboard := keyboardIrqHandler run.machine.keyboard run.controller.data
        point := wake run.machine.point } := by
  have started := started_of_enabled invariant.station enabled
  have answered := keyboard_answered invariant started idle full
  have called := call_handler_eq invariant.station started kbdIrq regs
  simp only [serviceEvents, List.foldlM_cons, List.foldlM_nil, kernelStep, picStep, enabled, shadow,
    idle, ne_eq, not_false_eq_true, and_self, if_true, Option.map_some, Option.bind_eq_bind,
    Option.bind_some, answered, withPics, called, Option.pure_def]
  exact ⟨_, rfl, rfl, rfl, rfl, rfl, rfl, rfl⟩

structure Answering (run : KernelRun) : Prop where
  idle : run.pics.phase = .idle
  enabled : run.machine.interrupts = true
  shadow : run.machine.point ≠ .halt

theorem full_served (regs : Registers) (invariant : KernelInvariant false run)
    (answering : Answering run) :
    ∃ after, SameTyped run after ∧ Answering after ∧ after.controller.full = false ∧
      after.controller.waiting = run.controller.waiting := by
  by_cases full : run.controller.full = true
  · obtain ⟨after, steps, idle, started, typed, -, controller, machine⟩ :=
      byte_served invariant answering.idle answering.enabled answering.shadow full regs
    refine ⟨after, ⟨⟨_, steps⟩, typed, started⟩, ⟨idle, ?_, ?_⟩, ?_, ?_⟩
    · rw [machine]
      exact answering.enabled
    · rw [machine]
      have shadow := answering.shadow
      cases place : run.machine.point with
      | halt => exact absurd place shadow
      | _ => exact ReaderPoint.noConfusion
    · rw [controller]
    · rw [controller]
  · exact ⟨run, same_typed_self run, answering, Bool.not_eq_true _ ▸ full, rfl⟩

theorem transfer_taken (idle : run.pics.phase = .idle) (empty : run.controller.full = false)
    {scancode : UInt8} {rest : List UInt8} (waits : run.controller.waiting = scancode :: rest) :
    ∃ next, kernelStep run .transfer = some next ∧ next.pics.phase = .idle ∧
      next.machine = run.machine ∧ next.started = run.started ∧ next.typed = run.typed ∧
      next.controller.waiting = rest := by
  have device : kbdIrq ≠ slaveLine := by decide
  simp only [kernelStep, empty, waits, picStep, if_neg device]
  by_cases asking : asks run.pics.pic kbdIrq = true
  · rw [if_pos asking, Option.map_some]
    exact ⟨_, rfl, idle, rfl, rfl, rfl, rfl⟩
  · rw [if_neg asking, Option.map_some]
    exact ⟨_, rfl, idle, rfl, rfl, rfl, rfl⟩

theorem bytes_served (regs : Registers) (run : KernelRun) (invariant : KernelInvariant false run)
    (answering : Answering run) :
    ∃ after, SameTyped run after ∧ Answering after ∧ after.controller.full = false ∧
      after.controller.waiting = [] := by
  induction bytes : run.controller.waiting generalizing run with
  | nil =>
      obtain ⟨after, same, answers, empty, waits⟩ := full_served regs invariant answering
      exact ⟨after, same, answers, empty, waits.trans bytes⟩
  | cons scancode rest ih =>
      obtain ⟨served, same, answers, empty, waits⟩ := full_served regs invariant answering
      obtain ⟨filled, taken, idle, machine, started, typed, fewer⟩ :=
        transfer_taken answers.idle empty (waits.trans bytes)
      have step : SameTyped served filled :=
        same_typed_step taken typed started (same_typed_self filled)
      have reached := same_typed_trans same step
      obtain ⟨after, last, ends⟩ := ih filled (can_reach_kernel_invariant reached.reached invariant)
        ⟨idle, by rw [machine]; exact answers.enabled, by rw [machine]; exact answers.shadow⟩ fewer
      exact ⟨after, same_typed_trans reached last, ends⟩

end Kernel

/-! ## A run -/

def freshKernel (full : Bool) : KernelRun where
  pics :=
    { pic := picWrites ⟨idlePorts, .reset, .reset⟩ initWrites
      phase := .idle
      accepted := []
      dropped := []
      delivered := [] }
  controller := ⟨full, 0xFA, []⟩
  handlers := fun _ => none
  started := false
  machine := freshMachine
  typed := []
  processed := []

theorem fresh_kernel_booted (full : Bool) : Booted full (freshKernel full) :=
  ⟨⟨⟨_, rfl⟩, rfl, rfl, rfl, rfl⟩, rfl, rfl, rfl, rfl, rfl, rfl, rfl, rfl⟩

def savedRegisters : Registers := ⟨0, 0, 0, 0, 0, 0, 0, 0, 0, 0, 0, 0, 33, 0, 0, 0, 0, 0, 0⟩

theorem kernel_reachable {full : Bool} {after : KernelRun}
    (reached : CanReach kernelStep (freshKernel full) after) : Reachable (kernelRuns full) after :=
  reachable_can_reach (fun _ _ _ taken => taken) (.start (fresh_kernel_booted full)) reached

/-- The reader waits for a key, and the controller has taken the next byte. -/
def waitingEvents : List KernelEvent :=
  [.press 0x1E, .keyboardInit, .program (.setInterrupts true), .program .callGetchar,
    .program .reader, .program .reader, .program .reader, .program .reader, .transfer]

theorem waiting_kernel : ∃ run, waitingEvents.foldlM kernelStep (freshKernel false) = some run ∧
    run.started = true ∧ run.machine.point = .halted ∧ run.controller.full = true ∧
      run.controller.data = 0x1E ∧ run.processed = [] ∧ run.typed = [0x1E] := by
  have ends : (waitingEvents.foldlM kernelStep (freshKernel false)).map
      (fun run => (run.started, run.machine.point, run.controller.full, run.controller.data,
        run.processed, run.typed)) = some (true, .halted, true, 0x1E, [], [0x1E]) := rfl
  obtain ⟨run, steps, same⟩ := Option.map_eq_some_iff.mp ends
  simp only [Prod.mk.injEq] at same
  exact ⟨run, steps, same⟩

section Results

variable {run : KernelRun}

/-- In every run from a `pic_init` with an empty output buffer: the bytes that the keyboard
has sent are those that the handler has read, the one on its way and those that wait,
in order and once; a byte in the output buffer is announced once; and what the reader has
got, holds and finds in the buffer is the text of the bytes read, less the characters
that a full buffer has refused. -/
theorem no_scancode_lost (reachable : Reachable (kernelRuns false) run) :
    run.typed = run.processed ++ onTheWay run ++ run.controller.waiting ∧
      (run.controller.full = true ↔
        asks run.pics.pic kbdIrq = true ∨ run.pics.phase = .entered kbdIrq) ∧
      ¬(asks run.pics.pic kbdIrq = true ∧ run.pics.phase = .entered kbdIrq) ∧
      (run.started = true →
        (run.machine.returned ++ inHand run.machine.point ++ pending run.machine.keyboard).Sublist
            (typedText run.processed) ∧
          ((typedText run.processed).length ≤ 255 →
            run.machine.returned ++ inHand run.machine.point ++ pending run.machine.keyboard =
              typedText run.processed)) := by
  obtain ⟨-, reads, ledger⟩ := kernel_run_invariant reachable
  refine ⟨ledger.conserved, ?_, fun both => ledger.once both.1 both.2, fun started => ?_⟩
  · rw [ledger.full, Bool.false_or, announced, Bool.or_eq_true, decide_eq_true_iff]
  · obtain ⟨-, kept, whole⟩ := reads.decoded started
    rw [(run_lossless (reads.machine started)).conserved]
    exact ⟨kept, whole⟩

theorem no_scancode_lost_waiting :
    ∃ run, waitingEvents.foldlM kernelStep (freshKernel false) = some run ∧
      run.typed = run.processed ++ onTheWay run ++ run.controller.waiting := by
  obtain ⟨run, steps, _⟩ := waiting_kernel
  exact ⟨run, steps, (no_scancode_lost (kernel_reachable ⟨_, steps⟩)).1⟩

/-- The reader that waits for an interrupt has an empty buffer and interrupts enabled;
a byte in the output buffer is then the next to interrupt, and the reader looks again. -/
theorem reader_never_sleeps_on_input (reachable : Reachable (kernelRuns false) run)
    (dozing : dozes run.machine.point = true) :
    run.pics.phase = .idle ∧ pending run.machine.keyboard = [] ∧
      (run.machine.point = .halted → run.machine.interrupts = true ∧
        (run.controller.full = true → ∀ regs,
          ∃ after, (serviceEvents regs).foldlM kernelStep run = some after ∧
            after.pics.phase = .idle ∧ after.controller.full = false ∧
            after.processed = run.processed ++ [run.controller.data] ∧
            after.machine = { run.machine with
              keyboard := keyboardIrqHandler run.machine.keyboard run.controller.data
              point := .disable })) := by
  have invariant := kernel_run_invariant reachable
  have station := invariant.station
  have reads := invariant.reads
  have idle : run.pics.phase = .idle := by
    by_contra busy
    exact Bool.noConfusion (dozing.symm.trans (station.busy busy).2)
  have started : run.started = true := by
    rw [← Bool.not_eq_false]
    intro early
    rw [(station.boots early).2.2.1] at dozing
    contradiction
  refine ⟨idle, ?_, fun halted => ?_⟩
  · exact (empty_iff (run_lossless (reads.machine started)).positioned).mpr (reads.asleep.1 dozing)
  · have enabled := reads.asleep.2 (Or.inr halted)
    refine ⟨enabled, fun full regs => ?_⟩
    have shadow : run.machine.point ≠ .halt := by
      rw [halted]
      exact ReaderPoint.noConfusion
    obtain ⟨after, steps, ended, -, -, processed, controller, machine⟩ :=
      byte_served invariant idle enabled shadow full regs
    rw [halted] at machine
    exact ⟨after, steps, ended, by rw [controller], processed, machine⟩

theorem reader_woken_waiting :
    ∃ run after, waitingEvents.foldlM kernelStep (freshKernel false) = some run ∧
      pending run.machine.keyboard = [] ∧
      (serviceEvents savedRegisters).foldlM kernelStep run =
        some after ∧ after.processed = [0x1E] ∧ after.machine.point = .disable := by
  obtain ⟨run, steps, _, halted, full, data, processed, _⟩ := waiting_kernel
  obtain ⟨_, empty, wakes⟩ := reader_never_sleeps_on_input (kernel_reachable ⟨_, steps⟩)
    (by rw [halted]; rfl)
  obtain ⟨after, served, _, _, read, machine⟩ := (wakes halted).2 full _
  refine ⟨run, after, steps, empty, served, ?_, ?_⟩
  · rw [read, processed, data]
    rfl
  · rw [machine]

/-- From every state of a run behind `keyboard_init` the kernel can still hand every byte
that was typed to the driver, and every character that the driver has accepted to a reader. -/
theorem typed_bytes_served (reachable : Reachable (kernelRuns false) run)
    (started : run.started = true) (regs : Registers) :
    ∃ after, CanReach kernelStep run after ∧ after.typed = run.typed ∧
      after.processed = run.typed ∧
      after.machine.returned = after.machine.keyboard.accepted ∧
      after.machine.returned.Sublist (typedText run.typed) ∧
      ((typedText run.typed).length ≤ 255 → after.machine.returned = typedText run.typed) := by
  have invariant := kernel_run_invariant reachable
  obtain ⟨finished, first, idle⟩ := interrupt_finishes regs run
  have finishedInvariant := can_reach_kernel_invariant first.reached invariant
  have running : finished.started = true := first.started.trans started
  obtain ⟨machine, reached, enabled, shadow⟩ := reader_enables finishedInvariant.reads.asleep
  have second : SameTyped finished { finished with machine := machine } :=
    ⟨program_can_reach running idle reached, rfl, rfl⟩
  have upToHere := same_typed_trans first second
  obtain ⟨served, third, answering, empty, nothing⟩ := bytes_served regs _
    (can_reach_kernel_invariant upToHere.reached invariant) ⟨idle, enabled, shadow⟩
  have upToServed := same_typed_trans upToHere third
  have servedInvariant := can_reach_kernel_invariant upToServed.reached invariant
  have servedStarted : served.started = true := upToServed.started.trans started
  obtain ⟨last, drained, noneLeft, noHand⟩ := reader_drains
    (run_lossless (servedInvariant.reads.machine servedStarted)) servedInvariant.reads.asleep
  have fourth : SameTyped served { served with machine := last } :=
    ⟨program_can_reach servedStarted answering.idle drained, rfl, rfl⟩
  have whole := same_typed_trans upToServed fourth
  have lastInvariant := can_reach_kernel_invariant whole.reached invariant
  have processed : served.processed = run.typed := by
    have unannounced := servedInvariant.ledger.full.symm.trans empty
    rw [Bool.false_or] at unannounced
    have conserved := servedInvariant.ledger.conserved
    rw [onTheWay, unannounced, nothing, upToServed.typed] at conserved
    simpa using conserved.symm
  have returned : last.returned = last.keyboard.accepted := by
    have conserved := (run_lossless (lastInvariant.reads.machine servedStarted)).conserved
    simp only [noneLeft, noHand, List.append_nil] at conserved
    exact conserved
  obtain ⟨-, kept, full⟩ := lastInvariant.reads.decoded servedStarted
  refine ⟨_, whole.reached, whole.typed, processed, returned, ?_, ?_⟩
  · rw [← processed, returned]
    exact kept
  · rw [← processed, returned]
    exact full

theorem typed_bytes_served_waiting :
    ∃ run after, waitingEvents.foldlM kernelStep (freshKernel false) = some run ∧
      CanReach kernelStep run after ∧ after.processed = [0x1E] ∧
        after.machine.returned = typedText [0x1E] := by
  obtain ⟨run, steps, started, _, _, _, _, typed⟩ := waiting_kernel
  obtain ⟨after, reached, _, processed, _, _, whole⟩ :=
    typed_bytes_served (kernel_reachable ⟨_, steps⟩) started
      savedRegisters
  rw [typed] at processed whole
  exact ⟨run, after, steps, reached, processed, whole (by decide +kernel)⟩

/-- When the output buffer is full at `pic_init`, no edge announces its byte, and the
keyboard stays silent for good. -/
theorem stale_byte_silences_keyboard (reachable : Reachable (kernelRuns true) run) :
    run.controller.full = true ∧ run.processed = [] ∧ run.machine.returned = [] ∧
      run.typed = run.controller.waiting ∧ run.pics.phase ≠ .entered kbdIrq := by
  obtain ⟨station, reads, ledger⟩ := kernel_run_invariant reachable
  obtain ⟨unannounced, processed⟩ := ledger.silent rfl
  refine ⟨ledger.full, processed, ?_, ?_, fun entered => ?_⟩
  · cases started : run.started with
    | false => exact (station.boots started).2.2.2.1
    | true =>
        obtain ⟨-, kept, -⟩ := reads.decoded started
        have conserved := (run_lossless (reads.machine started)).conserved
        rw [processed] at kept
        rw [List.eq_nil_of_sublist_nil kept] at conserved
        exact (List.append_eq_nil_iff.mp (List.append_eq_nil_iff.mp conserved).1).1
  · have conserved := ledger.conserved
    rw [onTheWay, unannounced, processed] at conserved
    exact conserved
  · rw [announced, entered] at unannounced
    simp at unannounced

theorem stale_byte_silences_typed :
    ∃ run, [KernelEvent.press 0x1E, .keyboardInit].foldlM kernelStep (freshKernel true) = some run ∧
      run.controller.full = true ∧ run.processed = [] := by
  have ends : ([KernelEvent.press 0x1E, .keyboardInit].foldlM kernelStep
      (freshKernel true)).isSome = true := by decide +kernel
  obtain ⟨run, steps⟩ := Option.isSome_iff_exists.mp ends
  obtain ⟨full, processed, _⟩ := stale_byte_silences_keyboard (kernel_reachable ⟨_, steps⟩)
  exact ⟨run, steps, full, processed⟩

end Results

end SimplyOs.KeyboardProgress
