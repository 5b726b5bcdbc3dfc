import SimplyOs.KeyboardDecoding
import SimplyOs.Library.RingBuffer
import SimplyOs.Library.Transition

/-!
# The keyboard buffer is a queue

The buffer between the interrupt handler and the reader is a ring. The invariant
holds at every step of the reader: what it has returned, the character it holds
and the pending characters are what `kbd_buffer_push` has accepted, in order.
-/

namespace SimplyOs.KeyboardBuffer

open SimplyOs.Word SimplyOs.Keyboard SimplyOs.KeyboardDecoding SimplyOs.Library.RingBuffer
open SimplyOs.Library.Transition

set_option autoImplicit false

def kbdRing (keyboard : KeyboardState) : Buffer UInt8 :=
  ⟨keyboard.kbdBuffer, keyboard.kbdReadPos, keyboard.kbdWritePos⟩

/-- The characters in the buffer, the oldest first. -/
def pending (keyboard : KeyboardState) : List UInt8 := contents kbdBufSize (kbdRing keyboard)

abbrev Positioned (keyboard : KeyboardState) : Prop := WellFormed kbdBufSize (kbdRing keyboard)

section Driver

variable {keyboard : KeyboardState}

theorem next_pos_eq {pos : Nat} (inside : pos < kbdBufSize) :
    nextPos pos = next kbdBufSize pos := by
  simp only [kbdBufSize] at inside
  rw [nextPos, next, add32_eq (by omega)]

theorem next_write_eq (positioned : Positioned keyboard) :
    nextPos keyboard.kbdWritePos = next kbdBufSize (kbdRing keyboard).writePos :=
  next_pos_eq positioned.write

theorem next_read_eq (positioned : Positioned keyboard) :
    nextPos keyboard.kbdReadPos = next kbdBufSize (kbdRing keyboard).readPos :=
  next_pos_eq positioned.read

theorem push_rejected_eq (positioned : Positioned keyboard) :
    pushRejected keyboard = true ↔
      next kbdBufSize (kbdRing keyboard).writePos = (kbdRing keyboard).readPos := by
  rw [pushRejected, beq_iff_eq, next_write_eq positioned]
  rfl

theorem push_rejected_iff (positioned : Positioned keyboard) :
    pushRejected keyboard = true ↔ (pending keyboard).length = 255 :=
  (push_rejected_eq positioned).trans (full_iff positioned)

theorem push_ring (positioned : Positioned keyboard) (c : UInt8) :
    kbdRing (kbdBufferPush keyboard c) = push kbdBufSize (kbdRing keyboard) c := by
  rw [kbdBufferPush, push]
  by_cases full : pushRejected keyboard = true
  · rw [if_pos full, if_pos ((push_rejected_eq positioned).mp full)]
  · rw [if_neg full, if_neg (fun equal => full ((push_rejected_eq positioned).mpr equal)), put,
      next_write_eq positioned]
    rfl

theorem push_outcome (positioned : Positioned keyboard) (c : UInt8) :
    ((pending keyboard).length = 255 ∧ kbdBufferPush keyboard c = keyboard) ∨
      ((pending keyboard).length ≠ 255 ∧ Positioned (kbdBufferPush keyboard c) ∧
        (kbdBufferPush keyboard c).kbdReadPos = keyboard.kbdReadPos ∧
        pending (kbdBufferPush keyboard c) = pending keyboard ++ [c] ∧
        (kbdBufferPush keyboard c).accepted = keyboard.accepted ++ [c]) := by
  by_cases full : (pending keyboard).length = 255
  · left
    exact ⟨full, if_pos ((push_rejected_iff positioned).mpr full)⟩
  · right
    have appended : contents kbdBufSize (push kbdBufSize (kbdRing keyboard) c) =
        pending keyboard ++ [c] := by
      rw [contents_push positioned]
      exact if_neg full
    rw [← push_ring positioned] at appended
    have wellFormed := push_well_formed positioned c
    rw [← push_ring positioned] at wellFormed
    have room : ¬pushRejected keyboard = true :=
      fun rejected => full ((push_rejected_iff positioned).mp rejected)
    refine ⟨full, wellFormed, ?_, appended, ?_⟩
    · rw [kbdBufferPush, if_neg room]
    · rw [kbdBufferPush, if_neg room]

theorem has_key_iff (positioned : Positioned keyboard) :
    keyboardHasKey keyboard = true ↔ pending keyboard ≠ [] := by
  rw [keyboardHasKey, bne_iff_ne]
  exact not_congr (empty_iff positioned).symm

structure SameQueue (keyboard after : KeyboardState) : Prop where
  ring : kbdRing after = kbdRing keyboard
  accepted : after.accepted = keyboard.accepted

theorem irq_handler_outcome (keyboard : KeyboardState) (scancode : UInt8) :
    SameQueue keyboard (keyboardIrqHandler keyboard scancode) ∨
      ∃ before c, SameQueue keyboard before ∧
        keyboardIrqHandler keyboard scancode = kbdBufferPush before c := by
  have decodes := handler_decodes keyboard scancode
  rw [Decodes] at decodes
  rw [decodes]
  rcases key_chars_cases (modifiersOf keyboard) scancode with none | ⟨c, one⟩
  · rw [none]
    exact Or.inl ⟨rfl, rfl⟩
  · rw [one]
    exact Or.inr ⟨withModifiers keyboard (nextModifiers (modifiersOf keyboard) scancode), c,
      ⟨rfl, rfl⟩, rfl⟩

end Driver

/-! ## Runs -/

def keyboardRuns : System Machine Event where
  initial machine := machine.point = .outside ∧ machine.returned = [] ∧
    ∃ before, machine.keyboard = keyboardInit before
  step before event after := machineStep before event = some after

/-- The character that a call has taken out of the buffer and not yet returned. -/
def inHand : ReaderPoint → List UInt8
  | .enable c => [c]
  | .leave c => [c]
  | _ => []

/-- What the reader relies on at a step: interrupts are off while it looks at the buffer,
and what it has loaded is still there. -/
def PointFact (machine : Machine) : Prop :=
  match machine.point with
  | .test => machine.interrupts = false
  | .load => machine.interrupts = false ∧
      machine.keyboard.kbdReadPos ≠ machine.keyboard.kbdWritePos
  | .advance c => machine.interrupts = false ∧
      machine.keyboard.kbdReadPos ≠ machine.keyboard.kbdWritePos ∧
      c = machine.keyboard.kbdBuffer machine.keyboard.kbdReadPos
  | .enable _ => machine.interrupts = false
  | .enableEmpty => machine.interrupts = false
  | .compare readPos => readPos = machine.keyboard.kbdReadPos
  | _ => True

structure Lossless (machine : Machine) : Prop where
  positioned : Positioned machine.keyboard
  conserved : machine.returned ++ inHand machine.point ++ pending machine.keyboard =
    machine.keyboard.accepted
  fact : PointFact machine

section Runs

variable {machine after : Machine}

theorem lossless_initially (initial : keyboardRuns.initial machine) : Lossless machine := by
  obtain ⟨point, returned, before, keyboard⟩ := initial
  have positioned : Positioned machine.keyboard := by
    rw [keyboard]
    exact ⟨(by decide : 0 < 256), (by decide : 0 < 256)⟩
  refine ⟨positioned, ?_, ?_⟩
  · have empty : pending machine.keyboard = [] := by
      apply (empty_iff positioned).mpr
      rw [keyboard]
      rfl
    rw [point, returned, empty, keyboard]
    rfl
  · unfold PointFact
    rw [point]
    trivial

theorem in_hand_wake (point : ReaderPoint) : inHand (wake point) = inHand point := by
  cases point <;> rfl

/-- Outside the critical section the reader relies on the read position only. -/
theorem point_fact_interrupt (fact : PointFact machine) (enabled : machine.interrupts = true)
    {keyboard : KeyboardState} (same : keyboard.kbdReadPos = machine.keyboard.kbdReadPos) :
    PointFact { machine with keyboard := keyboard, point := wake machine.point } := by
  unfold PointFact at fact ⊢
  cases place : machine.point with
  | test =>
      simp only [place, enabled, Bool.true_eq_false] at fact
  | load =>
      simp only [place, enabled, Bool.true_eq_false, false_and] at fact
  | advance c =>
      simp only [place, enabled, Bool.true_eq_false, false_and] at fact
  | enable c =>
      simp only [place, enabled, Bool.true_eq_false] at fact
  | enableEmpty =>
      simp only [place, enabled, Bool.true_eq_false] at fact
  | compare readPos =>
      simp only [place] at fact
      simp only [wake, same, fact]
  | outside => trivial
  | disable => trivial
  | leave c => trivial
  | halt => trivial
  | halted => trivial
  | hasKey => trivial
  | answer found => trivial

theorem interrupt_lossless (lossless : Lossless machine) (enabled : machine.interrupts = true)
    (scancode : UInt8) :
    Lossless { machine with
      keyboard := keyboardIrqHandler machine.keyboard scancode
      point := wake machine.point } := by
  have unchanged {keyboard : KeyboardState} (same : SameQueue machine.keyboard keyboard) :
      Lossless { machine with keyboard := keyboard, point := wake machine.point } := by
    refine ⟨?_, ?_, ?_⟩
    · unfold Positioned
      rw [same.ring]
      exact lossless.positioned
    · rw [in_hand_wake, pending, same.ring, same.accepted]
      exact lossless.conserved
    · exact point_fact_interrupt lossless.fact enabled (congrArg Buffer.readPos same.ring)
  rcases irq_handler_outcome machine.keyboard scancode with same | ⟨before, c, same, pushed⟩
  · exact unchanged same
  · have positioned : Positioned before := by
      unfold Positioned
      rw [same.ring]
      exact lossless.positioned
    rw [pushed]
    rcases push_outcome positioned c with
      ⟨_, refused⟩ | ⟨_, positionedAfter, readPos, appended, accepted⟩
    · rw [refused]
      exact unchanged same
    · have sameReadPos := readPos.trans (congrArg Buffer.readPos same.ring)
      refine ⟨positionedAfter, ?_, point_fact_interrupt lossless.fact enabled sameReadPos⟩
      rw [in_hand_wake, appended, accepted, pending, same.ring, same.accepted,
        ← lossless.conserved]
      simp only [pending, List.append_assoc]

theorem reader_moves (lossless : Lossless machine) (interrupts : Bool) (point : ReaderPoint)
    (hand : inHand point = inHand machine.point)
    (fact : PointFact { machine with interrupts := interrupts, point := point }) :
    Lossless { machine with interrupts := interrupts, point := point } := by
  refine ⟨lossless.positioned, ?_, fact⟩
  rw [hand]
  exact lossless.conserved

/-- The oldest key goes from the buffer into the hand of the reader. -/
theorem advance_lossless (lossless : Lossless machine) {c : UInt8}
    (place : machine.point = .advance c)
    (taken : readerStep machine = some after) : Lossless after := by
  have fact := lossless.fact
  unfold PointFact at fact
  unfold readerStep at taken
  simp only [place] at fact taken
  obtain ⟨disabled, filled, loaded⟩ := fact
  obtain rfl := Option.some.inj taken
  have ring : kbdRing { machine.keyboard with
      kbdReadPos := nextPos machine.keyboard.kbdReadPos } =
      Library.RingBuffer.advance kbdBufSize (kbdRing machine.keyboard) := by
    rw [next_read_eq lossless.positioned]
    rfl
  refine ⟨?_, ?_, disabled⟩
  · unfold Positioned
    rw [ring]
    exact advance_well_formed lossless.positioned
  · have conserved := lossless.conserved
    have oldest := contents_advance lossless.positioned filled
    rw [place, pending, oldest, ← ring] at conserved
    rw [← conserved, pending, loaded]
    simp only [inHand, List.append_nil, List.append_assoc, List.cons_append, List.nil_append]
    rfl

theorem reader_step_lossless (lossless : Lossless machine)
    (taken : readerStep machine = some after) : Lossless after := by
  have fact := lossless.fact
  unfold PointFact at fact
  cases place : machine.point with
  | outside =>
      simp only [readerStep, place, reduceCtorEq] at taken
  | halted =>
      simp only [readerStep, place, reduceCtorEq] at taken
  | disable =>
      simp only [readerStep, place] at taken
      obtain rfl := Option.some.inj taken
      exact reader_moves lossless false .test (by rw [place]; rfl) rfl
  | test =>
      simp only [place] at fact
      simp only [readerStep, place] at taken
      by_cases filled : machine.keyboard.kbdReadPos ≠ machine.keyboard.kbdWritePos
      · rw [if_pos filled] at taken
        obtain rfl := Option.some.inj taken
        exact reader_moves lossless machine.interrupts .load (by rw [place]; rfl) ⟨fact, filled⟩
      · rw [if_neg filled] at taken
        obtain rfl := Option.some.inj taken
        exact reader_moves lossless machine.interrupts .enableEmpty (by rw [place]; rfl) fact
  | load =>
      simp only [place] at fact
      simp only [readerStep, place] at taken
      obtain rfl := Option.some.inj taken
      exact reader_moves lossless machine.interrupts (.advance _) (by rw [place]; rfl)
        ⟨fact.1, fact.2, rfl⟩
  | advance c => exact advance_lossless lossless place taken
  | enable c =>
      simp only [readerStep, place] at taken
      obtain rfl := Option.some.inj taken
      exact reader_moves lossless true (.leave c) (by rw [place]; rfl) trivial
  | leave c =>
      simp only [readerStep, place] at taken
      obtain rfl := Option.some.inj taken
      refine ⟨lossless.positioned, ?_, trivial⟩
      have conserved := lossless.conserved
      rw [place] at conserved
      simpa only [inHand, List.append_nil] using conserved
  | enableEmpty =>
      simp only [readerStep, place] at taken
      obtain rfl := Option.some.inj taken
      exact reader_moves lossless true .halt (by rw [place]; rfl) trivial
  | halt =>
      simp only [readerStep, place] at taken
      obtain rfl := Option.some.inj taken
      exact reader_moves lossless machine.interrupts .halted (by rw [place]; rfl) trivial
  | hasKey =>
      simp only [readerStep, place] at taken
      obtain rfl := Option.some.inj taken
      exact reader_moves lossless machine.interrupts (.compare _) (by rw [place]; rfl) rfl
  | compare readPos =>
      simp only [readerStep, place] at taken
      obtain rfl := Option.some.inj taken
      exact reader_moves lossless machine.interrupts (.answer _) (by rw [place]; rfl) trivial
  | answer found =>
      simp only [readerStep, place] at taken
      obtain rfl := Option.some.inj taken
      exact reader_moves lossless machine.interrupts .outside (by rw [place]; rfl) trivial

theorem machine_step_lossless {event : Event} (lossless : Lossless machine)
    (taken : machineStep machine event = some after) : Lossless after := by
  cases event with
  | keyboardInterrupt scancode =>
      obtain ⟨enabled, same⟩ := Option.ite_none_right_eq_some.mp taken
      obtain rfl := Option.some.inj same
      exact interrupt_lossless lossless enabled scancode
  | otherInterrupt =>
      obtain ⟨enabled, same⟩ := Option.ite_none_right_eq_some.mp taken
      obtain rfl := Option.some.inj same
      exact reader_moves lossless machine.interrupts (wake machine.point)
        (in_hand_wake machine.point) (point_fact_interrupt lossless.fact enabled rfl)
  | setInterrupts enabled =>
      obtain ⟨place, same⟩ := Option.ite_none_right_eq_some.mp taken
      obtain rfl := Option.some.inj same
      refine ⟨lossless.positioned, lossless.conserved, ?_⟩
      unfold PointFact
      rw [place]
      trivial
  | callGetchar =>
      obtain ⟨place, same⟩ := Option.ite_none_right_eq_some.mp taken
      obtain rfl := Option.some.inj same
      exact reader_moves lossless machine.interrupts .disable (by rw [place]; rfl) trivial
  | callHasKey =>
      obtain ⟨place, same⟩ := Option.ite_none_right_eq_some.mp taken
      obtain rfl := Option.some.inj same
      exact reader_moves lossless machine.interrupts .hasKey (by rw [place]; rfl) trivial
  | reader => exact reader_step_lossless lossless taken

theorem run_lossless (reachable : Reachable keyboardRuns machine) : Lossless machine :=
  reachable_invariant (fun _ initial => lossless_initially initial)
    (fun _ _ _ lossless taken => machine_step_lossless lossless taken) reachable

theorem compare_answers (lossless : Lossless machine) {readPos : Nat}
    (place : machine.point = .compare readPos) (taken : readerStep machine = some after) :
    after.point = .answer (keyboardHasKey machine.keyboard) := by
  have fact := lossless.fact
  unfold PointFact at fact
  simp only [place] at fact
  simp only [readerStep, place] at taken
  obtain rfl := Option.some.inj taken
  rw [fact, keyboardHasKey]

/-- In every interleaving the buffer hands on what was accepted, in order and once,
refuses a character only when it holds 255, and tells whether it holds any. -/
theorem keyboard_buffer_fifo (reachable : Reachable keyboardRuns machine) :
    machine.keyboard.kbdReadPos < 256 ∧ machine.keyboard.kbdWritePos < 256 ∧
      machine.returned ++ inHand machine.point ++ pending machine.keyboard =
        machine.keyboard.accepted ∧
      (pushRejected machine.keyboard = true ↔ (pending machine.keyboard).length = 255) ∧
      (∀ c, (pushRejected machine.keyboard = true →
          kbdBufferPush machine.keyboard c = machine.keyboard) ∧
        (pushRejected machine.keyboard = false →
          pending (kbdBufferPush machine.keyboard c) = pending machine.keyboard ++ [c] ∧
          (kbdBufferPush machine.keyboard c).accepted = machine.keyboard.accepted ++ [c])) ∧
      (keyboardHasKey machine.keyboard = true ↔ pending machine.keyboard ≠ []) ∧
      ∀ readPos after, machine.point = .compare readPos → readerStep machine = some after →
        after.point = .answer (decide (pending machine.keyboard ≠ [])) := by
  have lossless := run_lossless reachable
  have positioned := lossless.positioned
  have hasKey := has_key_iff positioned
  have rejected := push_rejected_iff positioned
  refine ⟨positioned.read, positioned.write, lossless.conserved, rejected, ?_, hasKey, ?_⟩
  · intro c
    refine ⟨fun refused => if_pos refused, fun stored => ?_⟩
    rcases push_outcome positioned c with ⟨full, _⟩ | ⟨_, _, _, appended, accepted⟩
    · rw [rejected.mpr full] at stored
      cases stored
    · exact ⟨appended, accepted⟩
  · intro readPos after place taken
    rw [compare_answers lossless place taken]
    congr 1
    rw [Bool.eq_iff_iff, hasKey, decide_eq_true_iff]

theorem events_reachable {events : List Event} (reachable : Reachable keyboardRuns machine)
    (run : events.foldlM machineStep machine = some after) : Reachable keyboardRuns after := by
  induction events generalizing machine with
  | nil =>
      obtain rfl := Option.some.inj run
      exact reachable
  | cons event events ih =>
      rw [List.foldlM_cons] at run
      obtain ⟨middle, taken, rest⟩ := Option.bind_eq_some_iff.mp run
      exact ih (.next reachable taken) rest

end Runs

def freshMachine : Machine :=
  { keyboard := keyboardInit ⟨fun _ => 0, 0, 0, false, false, false, false, []⟩
    interrupts := false
    point := .outside
    returned := [] }

/-- A call waits for a key; one is pressed while it waits and one while it holds a character. -/
def typedEvents : List Event :=
  [.setInterrupts true, .callGetchar, .reader, .reader, .reader, .reader,
    .keyboardInterrupt 0x1E, .reader, .reader, .reader, .reader, .reader,
    .keyboardInterrupt 0x30]

/-- The first character is in hand, the second one pending. -/
theorem keyboard_buffer_fifo_typed :
    ∃ machine, typedEvents.foldlM machineStep freshMachine = some machine ∧
      machine.point = .leave 0x61 ∧ pending machine.keyboard = [0x62] ∧
      machine.returned ++ inHand machine.point ++ pending machine.keyboard =
        machine.keyboard.accepted := by
  have points : (typedEvents.foldlM machineStep freshMachine).map
      (fun machine => (machine.point, pending machine.keyboard)) =
      some (.leave 0x61, [0x62]) := by decide +kernel
  obtain ⟨machine, run, same⟩ := Option.map_eq_some_iff.mp points
  have started : Reachable keyboardRuns freshMachine := .start ⟨rfl, rfl, _, rfl⟩
  injection same with point waiting
  exact ⟨machine, run, point, waiting,
    (keyboard_buffer_fifo (events_reachable started run)).2.2.1⟩

end SimplyOs.KeyboardBuffer
