import SimplyOs.PicService
import Mathlib.Data.List.Count
import Mathlib.Data.List.Nodup

/-!
# Every interrupt is ended once

The end of an interrupt names no line, and still it ends the one that is being served:
no interrupt is answered while another one is handled. So between two interrupts no
line is blocked, whatever devices do meanwhile and however requests vanish; each edge is
answered once, vanishes or still waits; and what waits is answered by priority.
-/

namespace SimplyOs.PicServiceRuns

open SimplyOs.Pic SimplyOs.PicMasks SimplyOs.PicService
open SimplyOs.Library.ByteBitmap SimplyOs.Library.PriorityLines SimplyOs.Library.Transition

set_option autoImplicit false

/-! ## The programmed chips -/

/-- The chips as `pic_init` leaves them, whatever their masks. -/
structure Programmed (ports : Ports) : Prop where
  ready : Ready ports
  masterVector : ports.master.icw2 = pic1Offset
  slaveVector : ports.slave.icw2 = pic2Offset

theorem programmed_init (ports : Ports) : Programmed (picInit ports) := by
  obtain ⟨master, slave⟩ := pic_init_chips ports
  exact ⟨pic_init_ready ports, by rw [master], by rw [slave]⟩

theorem programmed_call {ports : Ports} (programmed : Programmed ports) (call : PicCall) :
    Programmed (picCall ports call) := by
  obtain ⟨value, written, _⟩ := pic_call_write programmed.ready call
  rw [written]
  refine ⟨write_imr_ready programmed.ready _ _, ?_, ?_⟩
  · unfold writeImr
    split <;> exact programmed.masterVector
  · unfold writeImr
    split <;> exact programmed.slaveVector

section Writes

variable {pic : PicState}

theorem init_writes_lines (pic : PicState) :
    (picWrites pic initWrites).master = Lines.reset ∧
      (picWrites pic initWrites).slave = Lines.reset := ⟨rfl, rfl⟩

theorem command_lines_eoi (lines : Lines 8) : commandLines lines picEoi = lines.endService := by
  rw [commandLines, if_neg (by decide), if_pos rfl]

theorem eoi_writes_lines (pic : PicState) (irq : Nat) :
    (picWrites pic (eoiWrites irq)).master = pic.master.endService ∧
      (picWrites pic (eoiWrites irq)).slave =
        if irq ≥ 8 then pic.slave.endService else pic.slave := by
  unfold eoiWrites
  split
  · exact ⟨command_lines_eoi _, command_lines_eoi _⟩
  · exact ⟨command_lines_eoi _, rfl⟩

theorem eoi_writes_keep_ports (pic : PicState) (irq : Nat) :
    (picWrites pic (eoiWrites irq)).ports = pic.ports := by
  rw [eoi_writes_ports, pic_send_eoi_keeps]

theorem mask_port_no_command (irq : Nat) :
    picMaskPort irq ≠ pic1Command ∧ picMaskPort irq ≠ pic2Command := by
  unfold picMaskPort
  split <;> decide

theorem call_writes_lines (pic : PicState) (call : PicCall) :
    (picWrites pic (callWrites pic.ports call)).master = pic.master ∧
      (picWrites pic (callWrites pic.ports call)).slave = pic.slave := by
  obtain ⟨first, second⟩ := mask_port_no_command call.irq
  cases call with
  | mask irq => exact ⟨if_neg first, if_neg second⟩
  | unmask irq => exact ⟨if_neg first, if_neg second⟩

def cascadePlace : Fin 8 := ⟨2, by decide⟩

theorem has_slave_eq (ready : Ready pic.ports) (line : Fin 8) :
    hasSlave pic line = decide (line = cascadePlace) := by
  rw [hasSlave, ready.cascade]
  revert line
  decide

end Writes

/-! ## Requests of devices -/

section Requests

variable {pic after : PicState}

theorem place_same_iff {line other : Fin 16} (sameChip : line.val < 8 ↔ other.val < 8) :
    place other = place line ↔ other = line := by
  rw [← same_place_iff sameChip]
  exact Fin.ext_iff

theorem asks_update (line : Fin 16) (value : Bool)
    (master : after.master.request = if line.val < 8 then
      Function.update pic.master.request (place line) value else pic.master.request)
    (slave : after.slave.request = if line.val < 8 then pic.slave.request else
      Function.update pic.slave.request (place line) value) (other : Fin 16) :
    asks after other = if other = line then value else asks pic other := by
  unfold asks
  rw [master, slave]
  by_cases own : line.val < 8 <;> by_cases low : other.val < 8
  · have same := place_same_iff (by omega : line.val < 8 ↔ other.val < 8)
    simp only [own, low, if_true, Function.update_apply, same]
  · have different : other ≠ line := by
      rintro rfl
      exact low own
    simp only [own, low, if_true, if_false, different]
  · have different : other ≠ line := by
      rintro rfl
      exact own low
    simp only [own, low, if_true, if_false, different]
  · have same := place_same_iff (by omega : line.val < 8 ↔ other.val < 8)
    simp only [own, low, if_false, Function.update_apply, same]

theorem asks_raise (line other : Fin 16) :
    asks (raiseLine pic line) other = if other = line then true else asks pic other := by
  apply asks_update
  · unfold raiseLine
    split <;> rfl
  · unfold raiseLine
    split <;> rfl

theorem asks_drop (line other : Fin 16) :
    asks (dropLine pic line) other = if other = line then false else asks pic other := by
  apply asks_update
  · unfold dropLine
    split <;> rfl
  · unfold dropLine
    split <;> rfl

theorem asks_take_master (line : Fin 8) (other : Fin 16) :
    asks { pic with master := pic.master.take line } other =
      if other = masterLine line then false else asks pic other := by
  have low : (masterLine line).val < 8 := line.isLt
  have own : place (masterLine line) = line := Fin.ext (Nat.mod_eq_of_lt line.isLt)
  apply asks_update
  · rw [if_pos low, own]
    rfl
  · rw [if_pos low]

theorem asks_take_slave (line : Fin 8) (other : Fin 16) :
    asks { pic with slave := pic.slave.take line } other =
      if other = slaveOf line then false else asks pic other := by
  have high : ¬(slaveOf line).val < 8 := by simp [slaveOf]
  have own : place (slaveOf line) = line := by
    apply Fin.ext
    simp only [place, slaveOf]
    omega
  apply asks_update
  · rw [if_neg high]
  · rw [if_neg high, own]
    rfl

theorem asks_congr (master : after.master.request = pic.master.request)
    (slave : after.slave.request = pic.slave.request) (line : Fin 16) :
    asks after line = asks pic line := by
  rw [asks, asks, master, slave]

end Requests

/-! ## What is being served -/

/-- The service bits while a line is handled; a spurious interrupt has none. -/
def ServingLine (pic : PicState) (irq : Fin 16) : Prop :=
  if irq.val < 8 then
    irq ≠ slaveLine ∧ Only pic.master (place irq) ∧
      (irq.val ≠ 7 → pic.master.service (place irq) = true) ∧ Idle pic.slave
  else
    Only pic.master cascadePlace ∧ pic.master.service cascadePlace = true ∧
      Only pic.slave (place irq) ∧ (irq.val ≠ 15 → pic.slave.service (place irq) = true)

theorem serving_device {pic : PicState} {irq : Fin 16} (serving : ServingLine pic irq) :
    irq ≠ slaveLine := by
  unfold ServingLine at serving
  split at serving
  · exact serving.1
  · rename_i high
    rintro rfl
    exact high (by decide)

theorem serving_line_only {pic : PicState} {irq : Fin 16} (serving : ServingLine pic irq) :
    ∃ master slave, Only pic.master master ∧ Only pic.slave slave := by
  unfold ServingLine at serving
  split at serving
  · exact ⟨_, 0, serving.2.1, fun other _ => serving.2.2.2 other⟩
  · exact ⟨_, _, serving.1, serving.2.2.1⟩

/-- The service bits are those of the interrupt that is handled, and no others. -/
def Serving (pic : PicState) : Phase → Prop
  | .idle => Idle pic.master ∧ Idle pic.slave
  | .cascade => Only pic.master cascadePlace ∧ pic.master.service cascadePlace = true ∧ Idle pic.slave
  | .entered irq => ServingLine pic irq
  | .handled irq => ServingLine pic irq
  | .returning => Idle pic.master ∧ Idle pic.slave

/-- The edges of a line: each one has vanished, has been answered or still asks. -/
def Tallied (run : PicRun) : Prop :=
  ∀ line, run.accepted.count line =
    run.dropped.count line + run.delivered.count line + (asks run.pic line).toNat

structure PicInvariant (run : PicRun) : Prop where
  programmed : Programmed run.pic.ports
  serving : Serving run.pic run.phase
  quiet : asks run.pic slaveLine = false
  tallied : Tallied run

section Serving

variable {pic after : PicState} {run next : PicRun} {line : Fin 16}

theorem serving_congr (master : after.master.service = pic.master.service)
    (slave : after.slave.service = pic.slave.service) {phase : Phase} (serving : Serving pic phase) :
    Serving after phase := by
  cases phase <;>
    simpa only [Serving, ServingLine, Idle, Only, master, slave] using serving

theorem raise_line_service (pic : PicState) (line : Fin 16) :
    (raiseLine pic line).ports = pic.ports ∧
      (raiseLine pic line).master.service = pic.master.service ∧
      (raiseLine pic line).slave.service = pic.slave.service := by
  unfold raiseLine
  split <;> exact ⟨rfl, rfl, rfl⟩

theorem drop_line_service (pic : PicState) (line : Fin 16) :
    (dropLine pic line).ports = pic.ports ∧
      (dropLine pic line).master.service = pic.master.service ∧
      (dropLine pic line).slave.service = pic.slave.service := by
  unfold dropLine
  split <;> exact ⟨rfl, rfl, rfl⟩

theorem count_concat (list : List (Fin 16)) (line other : Fin 16) :
    (list ++ [line]).count other = list.count other + if other = line then 1 else 0 := by
  rw [List.count_append, List.count_singleton']
  simp only [eq_comm]

theorem invariant_initially (initial : picRuns.initial run) : PicInvariant run := by
  obtain ⟨⟨before, programmed⟩, phase, accepted, dropped, delivered⟩ := initial
  obtain ⟨master, slave⟩ := init_writes_lines before
  have silent : ∀ line, asks run.pic line = false := by
    intro line
    rw [programmed, asks, master, slave]
    split <;> rfl
  refine ⟨?_, ?_, silent _, ?_⟩
  · rw [programmed, init_writes_ports]
    exact programmed_init _
  · rw [phase, programmed]
    exact ⟨fun _ => by rw [master]; rfl, fun _ => by rw [slave]; rfl⟩
  · intro line
    rw [accepted, dropped, delivered, silent line]
    rfl

theorem raise_invariant (invariant : PicInvariant run) (device : line ≠ slaveLine)
    (silent : asks run.pic line = false) :
    PicInvariant { run with pic := raiseLine run.pic line, accepted := run.accepted ++ [line] } := by
  obtain ⟨programmed, serving, quiet, tallied⟩ := invariant
  obtain ⟨ports, master, slave⟩ := raise_line_service run.pic line
  refine ⟨by rw [ports]; exact programmed, serving_congr master slave serving, ?_, ?_⟩
  · rw [asks_raise, if_neg device.symm]
    exact quiet
  · intro other
    have before := tallied other
    simp only [count_concat, asks_raise]
    by_cases same : other = line
    · rw [same, silent, Bool.toNat_false] at before
      rw [if_pos same, if_pos same, same, Bool.toNat_true]
      omega
    · rw [if_neg same, if_neg same]
      omega

theorem drop_invariant (invariant : PicInvariant run) (asking : asks run.pic line = true) :
    PicInvariant { run with pic := dropLine run.pic line, dropped := run.dropped ++ [line] } := by
  obtain ⟨programmed, serving, quiet, tallied⟩ := invariant
  obtain ⟨ports, master, slave⟩ := drop_line_service run.pic line
  refine ⟨by rw [ports]; exact programmed, serving_congr master slave serving, ?_, ?_⟩
  · rw [asks_drop]
    split
    · rfl
    · exact quiet
  · intro other
    have before := tallied other
    simp only [count_concat, asks_drop]
    by_cases same : other = line
    · rw [same, asking, Bool.toNat_true] at before
      rw [if_pos same, if_pos same, same, Bool.toNat_false]
      omega
    · rw [if_neg same, if_neg same]
      omega

theorem call_invariant (invariant : PicInvariant run) (call : PicCall) :
    PicInvariant { run with pic := picWrites run.pic (callWrites run.pic.ports call) } := by
  obtain ⟨programmed, serving, quiet, tallied⟩ := invariant
  obtain ⟨master, slave⟩ := call_writes_lines run.pic call
  have same := asks_congr (congrArg Lines.request master) (congrArg Lines.request slave)
  refine ⟨?_, serving_congr (by rw [master]) (by rw [slave]) serving, ?_, ?_⟩
  · simp only [call_writes_ports]
    exact programmed_call programmed call
  · rw [same]
    exact quiet
  · intro line
    rw [same]
    exact tallied line

/-! ## Answers and ends -/

theorem master_candidate_asks {place : Fin 8}
    (chosen : masterCandidate run.pic = some place) (device : hasSlave run.pic place = false) :
    asks run.pic (masterLine place) = true := by
  have asking := passes_request (candidate_passes chosen)
  simp only [masterLines, device, Bool.false_eq_true, if_false] at asking
  have own : PicService.place (masterLine place) = place := Fin.ext (Nat.mod_eq_of_lt place.isLt)
  have low : (masterLine place).val < 8 := place.isLt
  rw [asks, if_pos low, own]
  exact asking

theorem slave_candidate_asks {place : Fin 8}
    (chosen : run.pic.slave.candidate (chipMask run.pic.ports.slave) = some place) :
    asks run.pic (slaveOf place) = true := by
  have high : ¬(slaveOf place).val < 8 := by simp [slaveOf]
  have own : PicService.place (slaveOf place) = place := by
    apply Fin.ext
    simp only [PicService.place, slaveOf]
    omega
  rw [asks, if_neg high, own]
  exact passes_request (candidate_passes chosen)

theorem taken_tallied (tallied : Tallied run) (asking : asks run.pic line = true)
    (taken : ∀ other, asks after other = if other = line then false else asks run.pic other)
    {phase : Phase} :
    Tallied { run with
      pic := after, phase := phase, delivered := run.delivered ++ [line] } := by
  intro other
  have before := tallied other
  simp only [count_concat, taken]
  by_cases same : other = line
  · rw [same, asking, Bool.toNat_true] at before
    rw [if_pos same, if_pos same, same, Bool.toNat_false]
    omega
  · rw [if_neg same, if_neg same]
    omega

theorem answer_invariant (invariant : PicInvariant run) (idle : run.phase = .idle) :
    PicInvariant (answer run) := by
  obtain ⟨programmed, serving, quiet, tallied⟩ := invariant
  rw [idle] at serving
  obtain ⟨masterIdle, slaveIdle⟩ := serving
  unfold answer
  cases chosen : masterCandidate run.pic with
  | none =>
      refine ⟨programmed, ?_, quiet, tallied⟩
      exact ⟨by decide, fun other _ => masterIdle other, fun notSpurious => absurd rfl notSpurious,
        slaveIdle⟩
  | some chosenPlace =>
      obtain ⟨only, served⟩ := take_only masterIdle chosenPlace
      have slaved := has_slave_eq programmed.ready chosenPlace
      simp only
      by_cases cascaded : chosenPlace = cascadePlace
      · rw [decide_eq_true cascaded] at slaved
        rw [if_pos slaved]
        -- no device is wired to the line of the slave
        have silent : ∀ other, asks { run.pic with master := run.pic.master.take chosenPlace } other =
            asks run.pic other := by
          intro other
          rw [asks_take_master, cascaded]
          split
          · rename_i same
            rw [same]
            exact quiet.symm
          · rfl
        refine ⟨programmed, ⟨cascaded ▸ only, cascaded ▸ served, slaveIdle⟩, ?_, ?_⟩
        · rw [silent]
          exact quiet
        · intro other
          simp only [silent]
          exact tallied other
      · rw [decide_eq_false cascaded] at slaved
        have asking := master_candidate_asks chosen slaved
        rw [if_neg (by rw [slaved]; exact Bool.false_ne_true)]
        have own : PicService.place (masterLine chosenPlace) = chosenPlace :=
          Fin.ext (Nat.mod_eq_of_lt chosenPlace.isLt)
        have device : masterLine chosenPlace ≠ slaveLine := by
          intro same
          have value : (masterLine chosenPlace).val = slaveLine.val := congrArg Fin.val same
          exact cascaded (Fin.ext value)
        refine ⟨programmed, ?_, ?_, taken_tallied tallied asking (asks_take_master chosenPlace)⟩
        · have low : (masterLine chosenPlace).val < 8 := chosenPlace.isLt
          simp only [Serving, ServingLine, if_pos low, own]
          exact ⟨device, only, fun _ => served, slaveIdle⟩
        · rw [asks_take_master, if_neg device.symm]
          exact quiet

theorem answer_slave_invariant (invariant : PicInvariant run) (cascade : run.phase = .cascade) :
    PicInvariant (answerSlave run) := by
  obtain ⟨programmed, serving, quiet, tallied⟩ := invariant
  rw [cascade] at serving
  obtain ⟨masterOnly, masterServed, slaveIdle⟩ := serving
  unfold answerSlave
  cases chosen : run.pic.slave.candidate (chipMask run.pic.ports.slave) with
  | none =>
      refine ⟨programmed, ?_, quiet, tallied⟩
      exact ⟨masterOnly, masterServed, fun other _ => slaveIdle other,
        fun notSpurious => absurd rfl notSpurious⟩
  | some chosenPlace =>
      obtain ⟨only, served⟩ := take_only slaveIdle chosenPlace
      have high : ¬(slaveOf chosenPlace).val < 8 := by simp [slaveOf]
      have own : PicService.place (slaveOf chosenPlace) = chosenPlace := by
        apply Fin.ext
        simp only [PicService.place, slaveOf]
        omega
      have device : slaveOf chosenPlace ≠ slaveLine := by
        intro same
        rw [same] at high
        exact high (by decide)
      refine ⟨programmed, ?_, ?_,
        taken_tallied tallied (slave_candidate_asks chosen) (asks_take_slave chosenPlace)⟩
      · simp only [Serving, ServingLine, if_neg high, own]
        exact ⟨masterOnly, masterServed, only, fun _ => served⟩
      · rw [asks_take_slave, if_neg device.symm]
        exact quiet

/-- The commands of `pic_send_eoi` end what is being served, on each chip. -/
theorem eoi_idle {irq : Fin 16} (serving : ServingLine pic irq) :
    Idle (picWrites pic (eoiWrites irq.val)).master ∧
      Idle (picWrites pic (eoiWrites irq.val)).slave := by
  obtain ⟨master, slave⟩ := eoi_writes_lines pic irq.val
  rw [master, slave]
  unfold ServingLine at serving
  split at serving
  · rename_i low
    obtain ⟨_, only, _, slaveIdle⟩ := serving
    rw [if_neg (by omega)]
    exact ⟨end_service_only only, slaveIdle⟩
  · rename_i high
    obtain ⟨masterOnly, _, slaveOnly, _⟩ := serving
    rw [if_pos (by omega)]
    exact ⟨end_service_only masterOnly, end_service_only slaveOnly⟩

theorem eoi_invariant (invariant : PicInvariant run) {irq : Fin 16} (handled : run.phase = .handled irq) :
    PicInvariant { run with
      pic := picWrites run.pic (eoiWrites irq.val), phase := .returning } := by
  obtain ⟨programmed, serving, quiet, tallied⟩ := invariant
  rw [handled] at serving
  obtain ⟨master, slave⟩ := eoi_writes_lines run.pic irq.val
  have same := @asks_congr run.pic (picWrites run.pic (eoiWrites irq.val))
    (by rw [master, end_service_request]) (by
      rw [slave]
      split
      · exact end_service_request _
      · rfl)
  refine ⟨?_, eoi_idle serving, ?_, ?_⟩
  · simp only [eoi_writes_keep_ports]
    exact programmed
  · rw [same]
    exact quiet
  · intro other
    simp only [same]
    exact tallied other

theorem pic_step_invariant {event : PicEvent} (invariant : PicInvariant run)
    (taken : picStep run event = some next) : PicInvariant next := by
  cases event with
  | raise line =>
      simp only [picStep] at taken
      split at taken
      · contradiction
      · rename_i device
        split at taken
        · exact Option.some.inj taken ▸ invariant
        · rename_i silent
          exact Option.some.inj taken ▸ raise_invariant invariant device (by simpa using silent)
  | drop line =>
      simp only [picStep] at taken
      split at taken
      · rename_i asking
        exact Option.some.inj taken ▸ drop_invariant invariant asking
      · contradiction
  | call call =>
      simp only [picStep] at taken
      split at taken
      · contradiction
      · exact Option.some.inj taken ▸ call_invariant invariant call
  | answer =>
      simp only [picStep] at taken
      split at taken
      · rename_i idle
        exact Option.some.inj taken ▸ answer_invariant invariant idle
      · contradiction
  | answerSlave =>
      simp only [picStep] at taken
      split at taken
      · rename_i cascade
        exact Option.some.inj taken ▸ answer_slave_invariant invariant cascade
      · contradiction
  | handle =>
      simp only [picStep] at taken
      split at taken
      · rename_i irq entered
        obtain ⟨programmed, serving, quiet, tallied⟩ := invariant
        rw [entered] at serving
        exact Option.some.inj taken ▸ ⟨programmed, serving, quiet, tallied⟩
      · contradiction
  | eoi =>
      simp only [picStep] at taken
      split at taken
      · rename_i irq handled
        exact Option.some.inj taken ▸ eoi_invariant invariant handled
      · contradiction
  | iret =>
      simp only [picStep] at taken
      split at taken
      · rename_i returning
        obtain ⟨programmed, serving, quiet, tallied⟩ := invariant
        rw [returning] at serving
        exact Option.some.inj taken ▸ ⟨programmed, serving, quiet, tallied⟩
      · contradiction

theorem pic_run_invariant (reachable : Reachable picRuns run) : PicInvariant run :=
  reachable_invariant (fun _ initial => invariant_initially initial)
    (fun _ _ _ invariant taken => pic_step_invariant invariant taken) reachable

end Serving

end SimplyOs.PicServiceRuns
