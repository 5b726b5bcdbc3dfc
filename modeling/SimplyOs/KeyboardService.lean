import SimplyOs.KeyboardInterrupts
import SimplyOs.PicPriority

/-!
# No scancode is lost between the keyboard and the reader

What holds in every run from `pic_init` on. A byte in the output buffer is announced by
one request, from the time the controller has filled the buffer until the handler has
read it, unless the buffer was full at `pic_init`. The reader that has found its buffer
empty is not interrupted before the `hlt`, so that it cannot sleep on a character.
-/

namespace SimplyOs.KeyboardService

open SimplyOs.Keyboard SimplyOs.KeyboardDecoding SimplyOs.KeyboardBuffer
open SimplyOs.KeyboardInterrupts SimplyOs.InterruptDispatch
open SimplyOs.Pic SimplyOs.PicMasks SimplyOs.PicService SimplyOs.PicServiceRuns SimplyOs.PicPriority
open SimplyOs.Interrupts (Registers)
open SimplyOs.Library.Transition SimplyOs.Library.StreamMachine

set_option autoImplicit false

/-! ## The chips, step by step -/

section Chips

variable {run next : PicRun} {line : Fin 16}

theorem raise_step (taken : picStep run (.raise line) = some next) :
    next.pic.ports = run.pic.ports ∧ next.phase = run.phase ∧
      ∀ other, asks next.pic other = if other = line then true else asks run.pic other := by
  simp only [picStep] at taken
  split at taken
  · contradiction
  · split at taken
    · rename_i asking
      obtain rfl := Option.some.inj taken
      refine ⟨rfl, rfl, fun other => ?_⟩
      split
      · rename_i same
        rw [same, asking]
      · rfl
    · obtain rfl := Option.some.inj taken
      exact ⟨(raise_line_service run.pic line).1, rfl, asks_raise line⟩

theorem drop_step (taken : picStep run (.drop line) = some next) :
    next.pic.ports = run.pic.ports ∧ next.phase = run.phase ∧
      ∀ other, asks next.pic other = if other = line then false else asks run.pic other := by
  obtain ⟨_, same⟩ := Option.ite_none_right_eq_some.mp taken
  obtain rfl := Option.some.inj same
  exact ⟨(drop_line_service run.pic line).1, rfl, asks_drop line⟩

theorem call_step {call : PicCall} (taken : picStep run (.call call) = some next) :
    next.pic.ports = picCall run.pic.ports call ∧ next.phase = run.phase ∧
      ∀ other, asks next.pic other = asks run.pic other := by
  obtain ⟨_, same⟩ := Option.ite_none_left_eq_some.mp taken
  obtain rfl := Option.some.inj same
  obtain ⟨master, slave⟩ := call_writes_lines run.pic call
  refine ⟨call_writes_ports run.pic call, rfl, asks_congr ?_ ?_⟩
  · rw [master]
  · rw [slave]

theorem answer_step (invariant : PicInvariant run) (taken : picStep run .answer = some next) :
    run.phase = .idle ∧ next.pic.ports = run.pic.ports ∧
      ((next.phase = .entered 7 ∨ next.phase = .cascade) ∧
          (∀ other, asks next.pic other = asks run.pic other) ∨
        ∃ line, next.phase = .entered line ∧ asks run.pic line = true ∧
          ∀ other, asks next.pic other = if other = line then false else asks run.pic other) := by
  obtain ⟨idle, same⟩ := Option.ite_none_right_eq_some.mp taken
  obtain rfl := Option.some.inj same
  refine ⟨idle, ?_⟩
  unfold answer
  cases chosen : masterCandidate run.pic with
  | none => exact ⟨rfl, Or.inl ⟨Or.inl rfl, fun _ => rfl⟩⟩
  | some place =>
      by_cases cascade : hasSlave run.pic place = true
      · have placed : place = cascadePlace := by
          rw [has_slave_eq invariant.programmed.ready] at cascade
          exact of_decide_eq_true cascade
        dsimp only
        rw [if_pos cascade]
        refine ⟨rfl, Or.inl ⟨Or.inr rfl, fun other => ?_⟩⟩
        rw [asks_take_master]
        split
        · rename_i same
          rw [same, placed]
          exact invariant.quiet.symm
        · rfl
      · dsimp only
        rw [if_neg cascade]
        rw [Bool.not_eq_true] at cascade
        exact ⟨rfl, Or.inr ⟨masterLine place, rfl, master_candidate_asks chosen cascade,
          asks_take_master place⟩⟩

theorem answer_slave_step (taken : picStep run .answerSlave = some next) :
    run.phase = .cascade ∧ next.pic.ports = run.pic.ports ∧
      ∃ line : Fin 16, 8 ≤ line.val ∧ next.phase = .entered line ∧
        ∀ other : Fin 16, other.val < 8 → asks next.pic other = asks run.pic other := by
  obtain ⟨cascade, same⟩ := Option.ite_none_right_eq_some.mp taken
  obtain rfl := Option.some.inj same
  refine ⟨cascade, ?_⟩
  unfold answerSlave
  cases run.pic.slave.candidate (chipMask run.pic.ports.slave) with
  | none => exact ⟨rfl, 15, by decide, rfl, fun _ _ => rfl⟩
  | some place =>
      refine ⟨rfl, slaveOf place, Nat.le_add_right 8 _, rfl, fun other low => ?_⟩
      rw [asks_take_slave, if_neg]
      intro same
      rw [same] at low
      exact absurd low (Nat.not_lt.mpr (Nat.le_add_right 8 _))

theorem handle_step (taken : picStep run .handle = some next) :
    ∃ irq, run.phase = .entered irq ∧ next = { run with phase := .handled irq } := by
  simp only [picStep] at taken
  split at taken
  · rename_i irq entered
    exact ⟨irq, entered, (Option.some.inj taken).symm⟩
  · contradiction

theorem eoi_step (taken : picStep run .eoi = some next) :
    (∃ irq, run.phase = .handled irq) ∧ next.phase = .returning ∧
      next.pic.ports = run.pic.ports ∧ ∀ other, asks next.pic other = asks run.pic other := by
  simp only [picStep] at taken
  split at taken
  · rename_i irq handled
    obtain rfl := Option.some.inj taken
    exact ⟨⟨irq, handled⟩, rfl, eoi_writes_keep_ports run.pic irq.val, eoi_waits run.pic irq.val⟩
  · contradiction

theorem iret_step (taken : picStep run .iret = some next) :
    run.phase = .returning ∧ next = { run with phase := .idle } := by
  obtain ⟨returning, same⟩ := Option.ite_none_right_eq_some.mp taken
  exact ⟨returning, (Option.some.inj same).symm⟩

end Chips

/-! ## The invariant -/

/-- The request for the byte in the output buffer is on its way to the handler. -/
def announced (run : KernelRun) : Bool :=
  asks run.pics.pic kbdIrq || decide (run.pics.phase = .entered kbdIrq)

def onTheWay (run : KernelRun) : List UInt8 := if announced run then [run.controller.data] else []

def typedText (scancodes : List UInt8) : List UInt8 :=
  outputs decoder ⟨false, false, false, false⟩ scancodes

/-- The reader has found the buffer empty and has not been woken. -/
def dozes : ReaderPoint → Bool
  | .enableEmpty => true
  | .halt => true
  | .halted => true
  | _ => false

/-- What the reader knows while it dozes; the `sti` in front of the `hlt` is the only step
that enables interrupts there. -/
def Asleep (machine : Machine) : Prop :=
  (dozes machine.point = true → machine.keyboard.kbdReadPos = machine.keyboard.kbdWritePos) ∧
    (machine.point = .halt ∨ machine.point = .halted → machine.interrupts = true)

theorem asleep_of_awake {machine : Machine} (awake : dozes machine.point = false) :
    Asleep machine := by
  unfold Asleep
  cases place : machine.point with
  | enableEmpty =>
      rw [place] at awake
      contradiction
  | halt =>
      rw [place] at awake
      contradiction
  | halted =>
      rw [place] at awake
      contradiction
  | _ => exact ⟨fun never => Bool.noConfusion never, by rintro (never | never) <;> contradiction⟩

structure Station (run : KernelRun) : Prop where
  pics : Reachable picRuns run.pics
  masks : ∀ line, masked run.pics.pic.ports line = !(run.started && decide (line = kbdIrq))
  handlers : run.handlers =
    if run.started then irqRegister (fun _ => none) 1 (some keyboardCallback) else fun _ => none
  boots : run.started = false → run.pics.phase = .idle ∧ run.machine.interrupts = false ∧
    run.machine.point = .outside ∧ run.machine.returned = [] ∧ run.processed = []
  busy : run.pics.phase ≠ .idle →
    run.machine.interrupts = true ∧ dozes run.machine.point = false

structure Decoded (keyboard : KeyboardState) (processed : List UInt8) : Prop where
  flags : modifiersOf keyboard =
    Library.StreamMachine.run decoder ⟨false, false, false, false⟩ processed
  kept : keyboard.accepted.Sublist (typedText processed)
  whole : (typedText processed).length ≤ 255 → keyboard.accepted = typedText processed

structure Reads (run : KernelRun) : Prop where
  machine : run.started = true → Reachable keyboardRuns run.machine
  decoded : run.started = true → Decoded run.machine.keyboard run.processed
  asleep : Asleep run.machine

/-- The bytes of the keyboard; `stale` says whether the output buffer was full at `pic_init`. -/
structure Ledger (stale : Bool) (run : KernelRun) : Prop where
  full : run.controller.full = (stale || announced run)
  once : asks run.pics.pic kbdIrq = true → run.pics.phase ≠ .entered kbdIrq
  silent : stale = true → announced run = false ∧ run.processed = []
  conserved : run.typed = run.processed ++ onTheWay run ++ run.controller.waiting

structure KernelInvariant (stale : Bool) (run : KernelRun) : Prop where
  station : Station run
  reads : Reads run
  ledger : Ledger stale run

section Steps

variable {stale : Bool} {run after : KernelRun}

theorem kernel_invariant_initially (booted : Booted stale run) : KernelInvariant stale run := by
  obtain ⟨initial, full, handlers, started, interrupts, point, returned, typed, processed⟩ := booted
  have pics : Reachable picRuns run.pics := .start initial
  obtain ⟨⟨before, written⟩, idle, -⟩ := initial
  have quiet : announced run = false := by
    obtain ⟨master, -⟩ := init_writes_lines before
    rw [announced, idle, written, asks, master]
    rfl
  refine ⟨⟨pics, fun line => ?_, ?_, fun _ => ⟨idle, interrupts, point, returned, processed⟩,
    fun busy => absurd idle busy⟩, ⟨?_, ?_, ?_⟩, ⟨?_, fun _ => ?_, fun _ => ⟨quiet, processed⟩, ?_⟩⟩
  · rw [started, written, init_writes_ports, pic_init_masked]
    rfl
  · rw [started, handlers]
    rfl
  · intro already
    rw [started] at already
    contradiction
  · intro already
    rw [started] at already
    contradiction
  · exact asleep_of_awake (by rw [point]; rfl)
  · rw [full, quiet, Bool.or_false]
  · rw [idle]
    exact Phase.noConfusion
  · rw [typed, processed, onTheWay, quiet]
    rfl

/-! ### Steps of the chips -/

theorem station_moves (station : Station run) {event : PicEvent}
    (taken : picStep run.pics event = some after.pics)
    (ports : after.pics.pic.ports = run.pics.pic.ports)
    (busy : after.pics.phase ≠ .idle → run.pics.phase ≠ .idle)
    (handlers : after.handlers = run.handlers) (started : after.started = run.started)
    (machine : after.machine = run.machine) (processed : after.processed = run.processed) :
    Station after := by
  obtain ⟨pics, masks, registered, boots, interrupted⟩ := station
  refine ⟨.next pics taken, fun line => ?_, ?_, fun early => ?_, fun entered => ?_⟩
  · rw [ports, masks, started]
  · rw [handlers, registered, started]
  · rw [started] at early
    obtain ⟨idle, rest⟩ := boots early
    rw [machine, processed]
    exact ⟨not_not.mp fun entered => busy entered idle, rest⟩
  · rw [machine]
    exact interrupted (busy entered)

/-- A step that leaves the request for the byte where it is. -/
theorem ledger_aside (ledger : Ledger stale run)
    (asking : asks after.pics.pic kbdIrq = asks run.pics.pic kbdIrq)
    (entered : after.pics.phase = .entered kbdIrq ↔ run.pics.phase = .entered kbdIrq)
    (controller : after.controller = run.controller) (typed : after.typed = run.typed)
    (processed : after.processed = run.processed) : Ledger stale after := by
  have same : announced after = announced run := by
    rw [announced, announced, asking, decide_eq_decide.mpr entered]
  obtain ⟨full, once, silent, conserved⟩ := ledger
  refine ⟨?_, ?_, ?_, ?_⟩
  · rw [controller, same, full]
  · rw [asking, ne_eq, entered]
    exact once
  · rw [same, processed]
    exact silent
  · rw [typed, processed, onTheWay, same, controller, conserved, onTheWay]

/-- The request for the byte has become an entry of the handler. -/
theorem ledger_entered (ledger : Ledger stale run) (asking : asks run.pics.pic kbdIrq = true)
    (taken : asks after.pics.pic kbdIrq = false) (entered : after.pics.phase = .entered kbdIrq)
    (controller : after.controller = run.controller) (typed : after.typed = run.typed)
    (processed : after.processed = run.processed) : Ledger stale after := by
  have same : announced after = announced run := by
    rw [announced, announced, asking, entered, decide_eq_true rfl, Bool.or_true, Bool.true_or]
  obtain ⟨full, once, silent, conserved⟩ := ledger
  refine ⟨?_, ?_, ?_, ?_⟩
  · rw [controller, same, full]
  · rw [taken]
    intro never
    contradiction
  · rw [same, processed]
    exact silent
  · rw [typed, processed, onTheWay, same, controller, conserved, onTheWay]

theorem aside_invariant (invariant : KernelInvariant stale run) {event : PicEvent} {pics : PicRun}
    (taken : picStep run.pics event = some pics) (ports : pics.pic.ports = run.pics.pic.ports)
    (asking : asks pics.pic kbdIrq = asks run.pics.pic kbdIrq)
    (busy : pics.phase ≠ .idle → run.pics.phase ≠ .idle)
    (entered : pics.phase = .entered kbdIrq ↔ run.pics.phase = .entered kbdIrq) :
    KernelInvariant stale (withPics run pics) := by
  obtain ⟨station, reads, ledger⟩ := invariant
  exact ⟨station_moves station taken ports busy rfl rfl rfl rfl,
    ⟨reads.machine, reads.decoded, reads.asleep⟩,
    ledger_aside ledger asking entered rfl rfl rfl⟩

/-! ### Steps of the devices -/

theorem press_invariant (invariant : KernelInvariant stale run) (scancode : UInt8) :
    KernelInvariant stale { run with
      controller := { run.controller with waiting := run.controller.waiting ++ [scancode] }
      typed := run.typed ++ [scancode] } := by
  obtain ⟨station, reads, ledger⟩ := invariant
  refine ⟨⟨station.pics, station.masks, station.handlers, station.boots, station.busy⟩,
    ⟨reads.machine, reads.decoded, reads.asleep⟩,
    ⟨ledger.full, ledger.once, ledger.silent, ?_⟩⟩
  have sent : run.typed ++ [scancode] =
      run.processed ++ onTheWay run ++ (run.controller.waiting ++ [scancode]) := by
    rw [ledger.conserved, List.append_assoc]
  exact sent

theorem transfer_invariant (invariant : KernelInvariant stale run) {pics : PicRun}
    {scancode : UInt8} {rest : List UInt8} (empty : run.controller.full = false)
    (waits : run.controller.waiting = scancode :: rest)
    (taken : picStep run.pics (.raise kbdIrq) = some pics) :
    KernelInvariant stale { run with pics := pics, controller := ⟨true, scancode, rest⟩ } := by
  obtain ⟨station, reads, ledger⟩ := invariant
  obtain ⟨ports, phase, asking⟩ := raise_step taken
  have nothing := ledger.full.symm.trans empty
  rw [Bool.or_eq_false_iff] at nothing
  obtain ⟨fresh, unannounced⟩ := nothing
  have elsewhere : run.pics.phase ≠ .entered kbdIrq := by
    rw [announced, Bool.or_eq_false_iff, decide_eq_false_iff_not] at unannounced
    exact unannounced.2
  have asks' : asks pics.pic kbdIrq = true := by rw [asking, if_pos rfl]
  have now : announced { run with pics := pics, controller := ⟨true, scancode, rest⟩ } = true := by
    rw [announced, asks', Bool.true_or]
  refine ⟨station_moves station taken ports (fun busy => phase ▸ busy) rfl rfl rfl rfl,
    ⟨reads.machine, reads.decoded, reads.asleep⟩, ⟨?_, fun _ => ?_, ?_, ?_⟩⟩
  · rw [now, Bool.or_true]
  · rw [phase]
    exact elsewhere
  · rw [fresh]
    intro never
    contradiction
  · rw [onTheWay, now, if_pos rfl]
    have conserved := ledger.conserved
    rw [onTheWay, unannounced, waits] at conserved
    rw [conserved]
    simp only [Bool.false_eq_true, if_false, List.append_nil, List.append_assoc,
      List.singleton_append]

theorem line_invariant (invariant : KernelInvariant stale run) {event : PicEvent} {pics : PicRun}
    {line : Fin 16} (device : line ≠ kbdIrq) {value : Bool}
    (taken : picStep run.pics event = some pics)
    (moves : pics.pic.ports = run.pics.pic.ports ∧ pics.phase = run.pics.phase ∧
      ∀ other, asks pics.pic other = if other = line then value else asks run.pics.pic other) :
    KernelInvariant stale (withPics run pics) := by
  obtain ⟨ports, phase, asking⟩ := moves
  refine aside_invariant invariant taken ports ?_ (fun busy => phase ▸ busy) (by rw [phase])
  rw [asking, if_neg (Ne.symm device)]

/-! ### Steps of the processor -/

theorem keyboard_init_invariant (invariant : KernelInvariant stale run) {pics : PicRun}
    (early : run.started = false)
    (taken : picStep run.pics (.call (.unmask kbdIrq)) = some pics) :
    KernelInvariant stale { run with
      pics := pics
      handlers := irqRegister run.handlers 1 (some keyboardCallback)
      started := true
      machine := { run.machine with keyboard := keyboardInit run.machine.keyboard } } := by
  obtain ⟨station, reads, ledger⟩ := invariant
  obtain ⟨ports, phase, asking⟩ := call_step taken
  obtain ⟨idle, interrupts, point, returned, processed⟩ := station.boots early
  have ready := (pic_run_invariant station.pics).programmed.ready
  refine ⟨⟨.next station.pics taken, fun line => ?_, ?_, fun early => ?_, fun busy => ?_⟩,
    ⟨fun _ => .start ⟨point, returned, _, rfl⟩, fun _ => ?_, ?_⟩,
    ledger_aside ledger (asking kbdIrq) (by rw [phase]) rfl rfl rfl⟩
  · rw [ports, (pic_call_masked ready (.unmask kbdIrq)).2, station.masks, early]
    by_cases same : line = kbdIrq
    · simp only [PicCall.irq, PicCall.masks, same, if_true, decide_true, Bool.and_true, Bool.not_true]
    · simp only [PicCall.irq, same, if_false, decide_false, Bool.and_false]
  · rw [station.handlers, early]
    rfl
  · contradiction
  · exact absurd (phase.trans idle) busy
  · rw [processed]
    exact ⟨rfl, List.Sublist.refl _, fun _ => rfl⟩
  · exact asleep_of_awake (by rw [point]; rfl)

/-- Interrupts stay disabled until `keyboard_init` has returned. -/
theorem started_of_enabled (station : Station run) (enabled : run.machine.interrupts = true) :
    run.started = true := by
  rw [← Bool.not_eq_false]
  intro early
  rw [(station.boots early).2.1] at enabled
  contradiction

theorem wake_awake {machine : Machine} (fact : PointFact machine)
    (enabled : machine.interrupts = true) (shadow : machine.point ≠ .halt) :
    dozes (wake machine.point) = false := by
  unfold PointFact at fact
  cases place : machine.point with
  | enableEmpty =>
      rw [place, enabled] at fact
      contradiction
  | halt => exact absurd place shadow
  | _ => rfl

theorem interrupt_invariant (invariant : KernelInvariant stale run) {pics : PicRun}
    (enabled : run.machine.interrupts = true) (shadow : run.machine.point ≠ .halt)
    (taken : picStep run.pics .answer = some pics) :
    KernelInvariant stale { run with
      pics := pics
      machine := { run.machine with point := wake run.machine.point } } := by
  obtain ⟨station, reads, ledger⟩ := invariant
  obtain ⟨idle, ports, outcome⟩ := answer_step (pic_run_invariant station.pics) taken
  have started := started_of_enabled station enabled
  have reachable := reads.machine started
  have awake := wake_awake (run_lossless reachable).fact enabled shadow
  refine ⟨⟨.next station.pics taken, fun line => ?_, station.handlers, fun early => ?_,
    fun _ => ⟨enabled, awake⟩⟩, ⟨fun _ => ?_, reads.decoded, asleep_of_awake awake⟩, ?_⟩
  · rw [ports, station.masks]
  · rw [started] at early
    contradiction
  · have stepped : machineStep run.machine .otherInterrupt =
        some { run.machine with point := wake run.machine.point } := if_pos enabled
    exact .next reachable stepped
  · rcases outcome with ⟨phase, asking⟩ | ⟨line, phase, asking, taken⟩
    · refine ledger_aside ledger (asking kbdIrq) ?_ rfl rfl rfl
      rw [idle]
      rcases phase with phase | phase
      · rw [phase]
        decide
      · rw [phase]
        decide
    · by_cases keyboard : line = kbdIrq
      · subst keyboard
        refine ledger_entered ledger asking ?_ phase rfl rfl rfl
        rw [taken, if_pos rfl]
      · refine ledger_aside ledger ?_ ?_ rfl rfl rfl
        · rw [taken, if_neg (Ne.symm keyboard)]
        · rw [idle, phase, Phase.entered.injEq]
          exact ⟨fun same => absurd same keyboard, fun never => Phase.noConfusion never⟩

/-- `keyboard_init` has registered the only handler. -/
theorem call_handler_eq (station : Station run) (started : run.started = true) (irq : Fin 16)
    (regs : Registers) (world : World) :
    callHandler run.handlers irq regs world =
      if irq = kbdIrq then keyboardCallback regs world else world := by
  have place : (⟨(1 : UInt8).toNat, by decide⟩ : Fin 16) = kbdIrq := rfl
  rw [station.handlers, started, if_pos rfl, irqRegister, dif_pos (by decide), place, callHandler]
  by_cases keyboard : irq = kbdIrq
  · rw [keyboard, Function.update_self, if_pos rfl]
    rfl
  · rw [Function.update_of_ne keyboard, if_neg keyboard]
    rfl

/-- The handler appends what the decoder makes of the byte, while the buffer has room. -/
theorem decoded_handler {machine : Machine} {processed : List UInt8} (lossless : Lossless machine)
    (decoded : Decoded machine.keyboard processed) (scancode : UInt8) :
    Decoded (keyboardIrqHandler machine.keyboard scancode) (processed ++ [scancode]) := by
  obtain ⟨flags, kept, whole⟩ := decoded
  have decodes := handler_decodes machine.keyboard scancode
  rw [Decodes] at decodes
  have text : typedText (processed ++ [scancode]) =
      typedText processed ++ keyChars (modifiersOf machine.keyboard) scancode := by
    rw [typedText, outputs_concat, ← flags]
    rfl
  have next : run decoder ⟨false, false, false, false⟩ (processed ++ [scancode]) =
      nextModifiers (modifiersOf machine.keyboard) scancode := by
    rw [run_concat, ← flags]
    rfl
  rw [decodes]
  generalize moved : withModifiers machine.keyboard
    (nextModifiers (modifiersOf machine.keyboard) scancode) = before
  have same : before.accepted = machine.keyboard.accepted := by rw [← moved]; rfl
  have ring : kbdRing before = kbdRing machine.keyboard := by rw [← moved]; rfl
  have keys : modifiersOf before = nextModifiers (modifiersOf machine.keyboard) scancode := by
    rw [← moved]
    rfl
  rcases key_chars_cases (modifiersOf machine.keyboard) scancode with none | ⟨c, one⟩
  · rw [none, List.append_nil] at text
    rw [none, List.foldl_nil]
    refine ⟨?_, ?_, ?_⟩
    · rw [keys, next]
    · rw [same, text]
      exact kept
    · rw [same, text]
      exact whole
  · rw [one] at text
    rw [one, List.foldl_cons, List.foldl_nil]
    have positioned : Positioned before := by
      unfold Positioned
      rw [ring]
      exact lossless.positioned
    have held : (pending before).length ≤ machine.keyboard.accepted.length := by
      rw [pending, ring, ← lossless.conserved]
      simp only [List.length_append, pending]
      omega
    refine ⟨?_, ?_, fun short => ?_⟩
    · rw [push_modifiers, keys, next]
    · rw [text]
      rcases push_outcome positioned c with ⟨_, refused⟩ | ⟨_, _, _, _, accepted⟩
      · rw [refused, same]
        exact kept.trans (List.sublist_append_left _ _)
      · rw [accepted, same]
        exact kept.append (List.Sublist.refl _)
    · rw [text, List.length_append, List.length_singleton] at short
      have all := whole (by omega)
      have room : (pending before).length ≠ 255 := by
        rw [all] at held
        omega
      rcases push_outcome positioned c with ⟨full, _⟩ | ⟨_, _, _, _, accepted⟩
      · exact absurd full room
      · rw [accepted, same, all, text]

theorem ledger_handled (ledger : Ledger stale run) (entered : run.pics.phase = .entered kbdIrq)
    (asking : asks after.pics.pic kbdIrq = asks run.pics.pic kbdIrq)
    (handled : after.pics.phase = .handled kbdIrq)
    (controller : after.controller = { run.controller with full := false })
    (typed : after.typed = run.typed)
    (processed : after.processed = run.processed ++ [run.controller.data]) :
    Ledger stale after := by
  obtain ⟨full, once, silent, conserved⟩ := ledger
  have before : announced run = true := by
    rw [announced, entered, decide_eq_true rfl, Bool.or_true]
  have taken : asks run.pics.pic kbdIrq = false :=
    Bool.eq_false_iff.mpr fun asking => once asking entered
  have now : announced after = false := by
    rw [announced, asking, taken, handled]
    rfl
  have fresh : stale = false := by
    rw [← Bool.not_eq_true]
    intro old
    rw [(silent old).1] at before
    contradiction
  refine ⟨?_, fun never => ?_, fun old => ?_, ?_⟩
  · rw [controller, now, fresh]
    rfl
  · rw [asking, taken] at never
    contradiction
  · rw [fresh] at old
    contradiction
  · rw [typed, processed, onTheWay, now, controller, conserved, onTheWay, before]
    simp only [if_true, Bool.false_eq_true, if_false, List.append_nil]

theorem handle_invariant (invariant : KernelInvariant stale run) {pics : PicRun} {irq : Fin 16}
    {regs : Registers} {world : World} (entered : run.pics.phase = .entered irq)
    (taken : picStep run.pics .handle = some pics)
    (called : callHandler run.handlers irq regs (run.controller, run.machine.keyboard) = world) :
    KernelInvariant stale { run with
      pics := pics
      controller := world.1
      machine := { run.machine with keyboard := world.2 }
      processed :=
        if irq = kbdIrq then run.processed ++ [run.controller.data] else run.processed } := by
  obtain ⟨station, reads, ledger⟩ := invariant
  obtain ⟨same, again, handled⟩ := handle_step taken
  obtain rfl : same = irq := Phase.entered.inj (again.symm.trans entered)
  have running : run.pics.phase ≠ .idle := by
    rw [entered]
    exact Phase.noConfusion
  obtain ⟨enabled, awake⟩ := station.busy running
  have started := started_of_enabled station enabled
  have reachable := reads.machine started
  have moved {controller : Controller} {keyboard : KeyboardState} {processed : List UInt8} :
      Station { run with
        pics := pics
        controller := controller
        machine := { run.machine with keyboard := keyboard }
        processed := processed } := by
    refine ⟨.next station.pics taken, fun line => ?_, station.handlers, fun early => ?_,
      fun _ => ⟨enabled, awake⟩⟩
    · rw [handled, station.masks]
    · rw [started] at early
      contradiction
  rw [call_handler_eq station started] at called
  by_cases keyboard : same = kbdIrq
  · subst keyboard
    rw [if_pos rfl] at called
    subst called
    rw [if_pos rfl]
    refine ⟨moved, ⟨fun _ => ?_, fun _ => ?_, asleep_of_awake awake⟩, ?_⟩
    · have still : wake run.machine.point = run.machine.point := by
        cases place : run.machine.point with
        | halted =>
            rw [place] at awake
            contradiction
        | _ => rfl
      have stepped : machineStep run.machine (.keyboardInterrupt run.controller.data) =
          some { run.machine with
            keyboard := keyboardIrqHandler run.machine.keyboard run.controller.data } := by
        rw [machineStep, if_pos enabled, still]
      exact .next reachable stepped
    · exact decoded_handler (run_lossless reachable) (reads.decoded started) run.controller.data
    · refine ledger_handled ledger entered ?_ ?_ rfl rfl rfl
      · rw [handled]
      · rw [handled]
  · rw [if_neg keyboard] at called
    subst called
    rw [if_neg keyboard]
    refine ⟨moved, ⟨fun _ => reachable, fun _ => reads.decoded started,
      asleep_of_awake awake⟩, ledger_aside ledger ?_ ?_ rfl rfl rfl⟩
    · rw [handled]
    · rw [handled, entered, Phase.entered.injEq]
      exact ⟨fun never => Phase.noConfusion never, fun same => absurd same keyboard⟩

/-! ### Steps of the program -/

/-- The program takes characters out of the buffer; the decoder and what has been accepted
belong to the handler. -/
theorem program_step_keeps {machine next : Machine} {event : Event}
    (taken : programStep machine event = some next) :
    modifiersOf next.keyboard = modifiersOf machine.keyboard ∧
      next.keyboard.accepted = machine.keyboard.accepted := by
  cases event with
  | keyboardInterrupt scancode => contradiction
  | otherInterrupt => contradiction
  | setInterrupts enabled =>
      obtain ⟨_, same⟩ := Option.ite_none_right_eq_some.mp taken
      exact Option.some.inj same ▸ ⟨rfl, rfl⟩
  | callGetchar =>
      obtain ⟨_, same⟩ := Option.ite_none_right_eq_some.mp taken
      exact Option.some.inj same ▸ ⟨rfl, rfl⟩
  | callHasKey =>
      obtain ⟨_, same⟩ := Option.ite_none_right_eq_some.mp taken
      exact Option.some.inj same ▸ ⟨rfl, rfl⟩
  | reader =>
      have step : readerStep machine = some next := taken
      cases place : machine.point with
      | outside =>
          simp only [readerStep, place, reduceCtorEq] at step
      | halted =>
          simp only [readerStep, place, reduceCtorEq] at step
      | test =>
          simp only [readerStep, place] at step
          split at step
          · exact Option.some.inj step ▸ ⟨rfl, rfl⟩
          · exact Option.some.inj step ▸ ⟨rfl, rfl⟩
      | _ =>
          simp only [readerStep, place] at step
          exact Option.some.inj step ▸ ⟨rfl, rfl⟩

theorem program_step_asleep {machine next : Machine} {event : Event} (asleep : Asleep machine)
    (taken : programStep machine event = some next) : Asleep next := by
  cases event with
  | keyboardInterrupt scancode => contradiction
  | otherInterrupt => contradiction
  | setInterrupts enabled =>
      obtain ⟨place, same⟩ := Option.ite_none_right_eq_some.mp taken
      obtain rfl := Option.some.inj same
      exact asleep_of_awake (by rw [place]; rfl)
  | callGetchar =>
      obtain ⟨_, same⟩ := Option.ite_none_right_eq_some.mp taken
      exact Option.some.inj same ▸ asleep_of_awake rfl
  | callHasKey =>
      obtain ⟨_, same⟩ := Option.ite_none_right_eq_some.mp taken
      exact Option.some.inj same ▸ asleep_of_awake rfl
  | reader =>
      have step : readerStep machine = some next := taken
      cases place : machine.point with
      | outside =>
          simp only [readerStep, place, reduceCtorEq] at step
      | halted =>
          simp only [readerStep, place, reduceCtorEq] at step
      | test =>
          simp only [readerStep, place] at step
          split at step
          · exact Option.some.inj step ▸ asleep_of_awake rfl
          · rename_i empty
            obtain rfl := Option.some.inj step
            exact ⟨fun _ => not_not.mp empty, by rintro (never | never) <;> contradiction⟩
      | enableEmpty =>
          simp only [readerStep, place] at step
          obtain rfl := Option.some.inj step
          exact ⟨fun _ => asleep.1 (by rw [place]; rfl), fun _ => rfl⟩
      | halt =>
          simp only [readerStep, place] at step
          obtain rfl := Option.some.inj step
          exact ⟨fun _ => asleep.1 (by rw [place]; rfl), fun _ => asleep.2 (Or.inl place)⟩
      | _ =>
          simp only [readerStep, place] at step
          exact Option.some.inj step ▸ asleep_of_awake rfl

theorem program_machine_step {machine next : Machine} {event : Event}
    (taken : programStep machine event = some next) : machineStep machine event = some next := by
  cases event with
  | keyboardInterrupt scancode => contradiction
  | otherInterrupt => contradiction
  | _ => exact taken

theorem program_invariant (invariant : KernelInvariant stale run) {event : Event} {machine : Machine}
    (started : run.started = true) (idle : run.pics.phase = .idle)
    (taken : programStep run.machine event = some machine) :
    KernelInvariant stale { run with machine := machine } := by
  obtain ⟨station, reads, ledger⟩ := invariant
  obtain ⟨modifiers, accepted⟩ := program_step_keeps taken
  refine ⟨⟨station.pics, station.masks, station.handlers, fun early => ?_, fun busy => ?_⟩,
    ⟨fun _ => .next (reads.machine started) (program_machine_step taken), fun _ => ?_,
      program_step_asleep reads.asleep taken⟩,
    ⟨ledger.full, ledger.once, ledger.silent, ledger.conserved⟩⟩
  · exact Bool.noConfusion (started.symm.trans early)
  · exact absurd idle busy
  · obtain ⟨flags, kept, whole⟩ := reads.decoded started
    refine ⟨?_, ?_, ?_⟩
    · rw [modifiers]
      exact flags
    · rw [accepted]
      exact kept
    · rw [accepted]
      exact whole

theorem kernel_step_invariant {event : KernelEvent} (invariant : KernelInvariant stale run)
    (taken : kernelStep run event = some after) : KernelInvariant stale after := by
  cases event with
  | press scancode => exact Option.some.inj taken ▸ press_invariant invariant scancode
  | transfer =>
      simp only [kernelStep] at taken
      split at taken
      · rename_i empty waits
        obtain ⟨pics, raised, rfl⟩ := Option.map_eq_some_iff.mp taken
        exact transfer_invariant invariant empty waits raised
      · contradiction
  | raise line =>
      obtain ⟨device, moved⟩ := Option.ite_none_left_eq_some.mp taken
      obtain ⟨pics, raised, rfl⟩ := Option.map_eq_some_iff.mp moved
      exact line_invariant invariant device raised (raise_step raised)
  | drop line =>
      obtain ⟨device, moved⟩ := Option.ite_none_left_eq_some.mp taken
      obtain ⟨pics, dropped, rfl⟩ := Option.map_eq_some_iff.mp moved
      exact line_invariant invariant device dropped (drop_step dropped)
  | keyboardInit =>
      obtain ⟨early, moved⟩ := Option.ite_none_left_eq_some.mp taken
      obtain ⟨pics, unmasked, rfl⟩ := Option.map_eq_some_iff.mp moved
      exact keyboard_init_invariant invariant (Bool.not_eq_true _ ▸ early) unmasked
  | answer =>
      obtain ⟨⟨enabled, shadow⟩, moved⟩ := Option.ite_none_right_eq_some.mp taken
      obtain ⟨pics, answered, rfl⟩ := Option.map_eq_some_iff.mp moved
      exact interrupt_invariant invariant enabled shadow answered
  | answerSlave =>
      obtain ⟨pics, answered, rfl⟩ := Option.map_eq_some_iff.mp taken
      obtain ⟨cascade, ports, line, high, phase, asking⟩ := answer_slave_step answered
      refine aside_invariant invariant answered ports (asking kbdIrq (by decide)) (fun _ => ?_) ?_
      · rw [cascade]
        exact Phase.noConfusion
      · rw [cascade, phase, Phase.entered.injEq]
        refine ⟨fun same => ?_, fun never => Phase.noConfusion never⟩
        rw [same] at high
        exact absurd high (by decide)
  | handle regs =>
      simp only [kernelStep] at taken
      split at taken
      · rename_i irq entered
        obtain ⟨pics, handled, rfl⟩ := Option.map_eq_some_iff.mp taken
        exact handle_invariant invariant entered handled rfl
      · contradiction
  | eoi =>
      obtain ⟨pics, ended, rfl⟩ := Option.map_eq_some_iff.mp taken
      obtain ⟨⟨irq, handled⟩, phase, ports, asking⟩ := eoi_step ended
      refine aside_invariant invariant ended ports (asking kbdIrq) (fun _ => ?_) ?_
      · rw [handled]
        exact Phase.noConfusion
      · rw [handled, phase]
        exact ⟨fun never => Phase.noConfusion never, fun never => Phase.noConfusion never⟩
  | iret =>
      obtain ⟨pics, returned, rfl⟩ := Option.map_eq_some_iff.mp taken
      obtain ⟨returning, rfl⟩ := iret_step returned
      refine aside_invariant invariant returned rfl rfl (fun busy => absurd rfl busy) ?_
      rw [returning]
      exact ⟨fun never => Phase.noConfusion never, fun never => Phase.noConfusion never⟩
  | program event =>
      obtain ⟨⟨started, idle⟩, moved⟩ := Option.ite_none_right_eq_some.mp taken
      obtain ⟨machine, stepped, rfl⟩ := Option.map_eq_some_iff.mp moved
      exact program_invariant invariant started idle stepped

theorem kernel_run_invariant (reachable : Reachable (kernelRuns stale) run) :
    KernelInvariant stale run :=
  @reachable_invariant _ _ (kernelRuns stale) (KernelInvariant stale)
    (fun _ booted => kernel_invariant_initially booted)
    (fun _ _ _ invariant taken => kernel_step_invariant invariant taken) run reachable

end Steps

end SimplyOs.KeyboardService
