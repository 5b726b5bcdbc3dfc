import SimplyOs.PicServiceRuns

/-!
# Waiting interrupts are answered by priority

Between two interrupts the processor is asked exactly when some line waits that is not
masked and, on the slave, whose way through the master is open. Round by round the
waiting lines are answered in their fixed order, each one once; the lines of the slave
stand at the place of its line on the master.
-/

namespace SimplyOs.PicPriority

open SimplyOs.Pic SimplyOs.PicMasks SimplyOs.PicService SimplyOs.PicServiceRuns
open SimplyOs.Library.ByteBitmap SimplyOs.Library.PriorityLines SimplyOs.Library.Transition

set_option autoImplicit false

/-- The lines of devices, the first one first. -/
def priorityOrder : List (Fin 16) := [0, 1, 8, 9, 10, 11, 12, 13, 14, 15, 3, 4, 5, 6, 7]

def rank (line : Fin 16) : Nat := if line.val < 8 then 8 * line.val else line.val + 8

def waits (pic : PicState) (line : Fin 16) : Bool := asks pic line && reachesCpu pic.ports line

def waiting (pic : PicState) : List (Fin 16) := priorityOrder.filter (waits pic)

theorem priority_ranked : priorityOrder.Pairwise fun line other => rank line < rank other := by
  decide

theorem mem_priority {line : Fin 16} (device : line ≠ slaveLine) : line ∈ priorityOrder := by
  revert line
  decide

section Masks

variable {ports : Ports}

theorem reaches_master (line : Fin 8) :
    reachesCpu ports (masterLine line) = !chipMask ports.master line := by
  have low : (masterLine line).val < 8 := line.isLt
  have own : (masterLine line).val % 8 = line.val := Nat.mod_eq_of_lt line.isLt
  rw [reachesCpu, masked, lineChip, if_pos low, own, decide_eq_true low, Bool.true_or, Bool.and_true]
  rfl

theorem reaches_slave (ready : Ready ports) (line : Fin 8) :
    reachesCpu ports (slaveOf line) =
      (!chipMask ports.slave line && !chipMask ports.master cascadePlace) := by
  have high : ¬(slaveOf line).val < 8 := by simp [slaveOf]
  have own : (slaveOf line).val % 8 = line.val := by
    simp only [slaveOf]
    omega
  have cascade : cascadeLine ports = 2 := by
    rw [cascadeLine, ready.number]
    rfl
  have wired : hasBit ports.master.icw3 2 = true := by
    rw [ready.cascade]
    rfl
  rw [reachesCpu, masked, lineChip, if_neg high, own, decide_eq_false high, cascade, wired,
    Bool.false_or, Bool.true_and]
  rfl

end Masks

/-! ## Who is asked for -/

section Candidates

variable {pic : PicState}

/-- The chips between two interrupts. -/
structure Resting (pic : PicState) : Prop where
  ready : Ready pic.ports
  master : Idle pic.master
  slave : Idle pic.slave

theorem slave_passes (resting : Resting pic) (place : Fin 8) :
    pic.slave.passes (chipMask pic.ports.slave) place =
      (asks pic (slaveOf place) && !chipMask pic.ports.slave place) := by
  have high : ¬(slaveOf place).val < 8 := by simp [slaveOf]
  have own : PicService.place (slaveOf place) = place := by
    apply Fin.ext
    simp only [PicService.place, slaveOf]
    omega
  rw [idle_passes resting.slave, asks, if_neg high, own]

theorem master_passes (resting : Resting pic) {place : Fin 8} (device : place ≠ cascadePlace) :
    (masterLines pic).passes (chipMask pic.ports.master) place = waits pic (masterLine place) := by
  have low : (masterLine place).val < 8 := place.isLt
  have own : PicService.place (masterLine place) = place := Fin.ext (Nat.mod_eq_of_lt place.isLt)
  have plain : hasSlave pic place = false := by
    rw [has_slave_eq resting.ready, decide_eq_false device]
  rw [idle_passes (show Idle (masterLines pic) from resting.master), waits, reaches_master, asks,
    if_pos low, own]
  simp only [masterLines, plain, Bool.false_eq_true, if_false]

theorem cascade_passes (resting : Resting pic) :
    (masterLines pic).passes (chipMask pic.ports.master) cascadePlace =
      (slaveAsks pic && !chipMask pic.ports.master cascadePlace) := by
  have slaved : hasSlave pic cascadePlace = true := by
    rw [has_slave_eq resting.ready, decide_eq_true rfl]
  rw [idle_passes (show Idle (masterLines pic) from resting.master)]
  simp only [masterLines, slaved, if_true]

theorem waits_slave (resting : Resting pic) (place : Fin 8) :
    waits pic (slaveOf place) = (pic.slave.passes (chipMask pic.ports.slave) place &&
      !chipMask pic.ports.master cascadePlace) := by
  rw [waits, reaches_slave resting.ready, slave_passes resting, Bool.and_assoc]

theorem passing_waits (resting : Resting pic) {place : Fin 8}
    (passes : (masterLines pic).passes (chipMask pic.ports.master) place = true) :
    ∃ line, line ≠ slaveLine ∧ waits pic line = true ∧ 8 * place.val ≤ rank line ∧
      rank line < 8 * place.val + 8 := by
  by_cases cascaded : place = cascadePlace
  · subst cascaded
    rw [cascade_passes resting, Bool.and_eq_true, slaveAsks, Option.isSome_iff_exists] at passes
    obtain ⟨⟨line, chosen⟩, way⟩ := passes
    have high : ¬(slaveOf line).val < 8 := by simp [slaveOf]
    refine ⟨slaveOf line, ?_, ?_, ?_⟩
    · intro same
      rw [same] at high
      exact high (by decide)
    · rw [waits_slave resting, candidate_passes chosen, way]
      rfl
    · have small := line.isLt
      have value : (slaveOf line).val = 8 + line.val := rfl
      have middle : cascadePlace.val = 2 := rfl
      rw [rank, if_neg high]
      omega
  · have low : (masterLine place).val < 8 := place.isLt
    refine ⟨masterLine place, ?_, (master_passes resting cascaded).symm.trans passes, ?_⟩
    · intro same
      have value : (masterLine place).val = slaveLine.val := congrArg Fin.val same
      exact cascaded (Fin.ext value)
    · have value : (masterLine place).val = place.val := rfl
      rw [rank, if_pos low]
      omega

/-- A line waits and no other one waits in front of it. -/
structure First (pic : PicState) (line : Fin 16) : Prop where
  device : line ≠ slaveLine
  waits : waits pic line = true
  least : ∀ other, other ≠ slaveLine → PicPriority.waits pic other = true → rank line ≤ rank other

theorem first_answered (resting : Resting pic) {line : Fin 16} (first : First pic line) :
    (line.val < 8 ∧ place line ≠ cascadePlace ∧ masterCandidate pic = some (place line)) ∨
      (8 ≤ line.val ∧ masterCandidate pic = some cascadePlace ∧
        pic.slave.candidate (chipMask pic.ports.slave) = some (place line)) := by
  obtain ⟨device, waiting, least⟩ := first
  have infront : ∀ other : Fin 8, 8 * other.val + 8 ≤ rank line →
      (masterLines pic).passes (chipMask pic.ports.master) other = false := by
    intro other before
    by_contra passes
    rw [Bool.not_eq_false] at passes
    obtain ⟨found, foundDevice, foundWaits, _, upper⟩ := passing_waits resting passes
    have order := least found foundDevice foundWaits
    omega
  rcases Nat.lt_or_ge line.val 8 with low | high
  · have value : (place line).val = line.val := Nat.mod_eq_of_lt low
    have notCascade : place line ≠ cascadePlace := by
      intro same
      have two : (place line).val = 2 := congrArg Fin.val same
      exact device (Fin.ext (value.symm.trans two))
    have own : masterLine (place line) = line := Fin.ext value
    refine Or.inl ⟨low, notCascade, first_line_some_iff.mpr ⟨?_, ?_⟩⟩
    · rw [master_passes resting notCascade, own]
      exact waiting
    · intro other before
      apply infront other
      have smaller : other.val < line.val := value ▸ before
      simp only [rank, if_pos low]
      omega
  · have value : (place line).val = line.val - 8 := by
      simp only [place]
      omega
    have own : slaveOf (place line) = line := by
      apply Fin.ext
      simp only [slaveOf, value]
      omega
    have notLow : ¬line.val < 8 := by omega
    rw [← own, waits_slave resting, Bool.and_eq_true] at waiting
    have chosen : pic.slave.candidate (chipMask pic.ports.slave) = some (place line) := by
      refine first_line_some_iff.mpr ⟨waiting.1, ?_⟩
      intro other before
      by_contra passes
      rw [Bool.not_eq_false] at passes
      have otherHigh : ¬(slaveOf other).val < 8 := by simp [slaveOf]
      have otherDevice : slaveOf other ≠ slaveLine := by
        intro same
        rw [same] at otherHigh
        exact otherHigh (by decide)
      have order := least (slaveOf other) otherDevice (by
        rw [waits_slave resting, passes, waiting.2]
        rfl)
      have smaller : other.val < line.val - 8 := value ▸ before
      have otherValue : (slaveOf other).val = 8 + other.val := rfl
      rw [rank, if_neg notLow, rank, if_neg otherHigh] at order
      omega
    refine Or.inr ⟨high, first_line_some_iff.mpr ⟨?_, ?_⟩, chosen⟩
    · rw [cascade_passes resting, slaveAsks, chosen, waiting.2]
      rfl
    · intro other before
      apply infront other
      have smaller : other.val < 2 := before
      simp only [rank, if_neg notLow]
      omega

theorem first_of_waiting {line : Fin 16} {rest : List (Fin 16)} (list : waiting pic = line :: rest) :
    First pic line := by
  have member : line ∈ waiting pic := list ▸ List.mem_cons_self ..
  have found := (List.mem_filter.mp member).2
  have ranked : (waiting pic).Pairwise fun line other => rank line < rank other :=
    priority_ranked.filter _
  have listed : line ≠ slaveLine := by
    rintro rfl
    exact absurd (List.mem_filter.mp member).1 (by decide)
  refine ⟨listed, found, ?_⟩
  intro other device otherWaits
  have otherMember : other ∈ waiting pic := List.mem_filter.mpr ⟨mem_priority device, otherWaits⟩
  rw [list] at ranked otherMember
  rcases List.mem_cons.mp otherMember with rfl | behind
  · exact Nat.le_refl _
  · exact Nat.le_of_lt ((List.pairwise_cons.mp ranked).1 other behind)

theorem waiting_nil_silent (resting : Resting pic) (list : waiting pic = []) :
    masterCandidate pic = none := by
  apply first_line_none_iff.mpr
  intro place
  by_contra passes
  rw [Bool.not_eq_false] at passes
  obtain ⟨line, device, waits, _⟩ := passing_waits resting passes
  have member : line ∈ waiting pic := List.mem_filter.mpr ⟨mem_priority device, waits⟩
  rw [list] at member
  contradiction

end Candidates

/-! ## Rounds -/

/-- One interrupt, from the answer of the master to the return. -/
def serviceRound (run : PicRun) : Option PicRun :=
  (picStep run .answer).bind fun answered =>
    (if answered.phase = .cascade then picStep answered .answerSlave else some answered).bind
      fun entered => (picStep entered .handle).bind fun handled =>
        (picStep handled .eoi).bind fun ended => picStep ended .iret

def serviceRounds (rounds : Nat) (run : PicRun) : Option PicRun :=
  match rounds with
  | 0 => some run
  | rounds + 1 => (serviceRound run).bind (serviceRounds rounds)

section Rounds

variable {pic : PicState} {run after : PicRun} {line : Fin 16}

/-- A line has been taken for service, on the slave together with its line of the master. -/
def takeLine (pic : PicState) (line : Fin 16) : PicState :=
  if line.val < 8 then { pic with master := pic.master.take (place line) }
  else { pic with master := pic.master.take cascadePlace, slave := pic.slave.take (place line) }

theorem take_line_asks (line other : Fin 16) (quiet : asks pic slaveLine = false) :
    asks (takeLine pic line) other = if other = line then false else asks pic other := by
  unfold takeLine
  split
  · rename_i low
    have own : masterLine (place line) = line := Fin.ext (Nat.mod_eq_of_lt low)
    rw [asks_take_master, own]
  · rename_i high
    have own : slaveOf (place line) = line := by
      apply Fin.ext
      simp only [slaveOf, place]
      omega
    have taken := @asks_take_slave { pic with master := pic.master.take cascadePlace } (place line) other
    rw [taken, own, asks_take_master]
    split
    · rfl
    · split
      · rename_i same
        rw [same]
        exact quiet.symm
      · rfl

theorem eoi_waits (pic : PicState) (irq : Nat) (line : Fin 16) :
    asks (picWrites pic (eoiWrites irq)) line = asks pic line := by
  obtain ⟨master, slave⟩ := eoi_writes_lines pic irq
  apply asks_congr
  · rw [master, end_service_request]
  · rw [slave]
    split
    · exact end_service_request _
    · rfl

theorem resting_of_invariant (invariant : PicInvariant run) (idle : run.phase = .idle) :
    Resting run.pic := by
  have serving := invariant.serving
  rw [idle] at serving
  exact ⟨invariant.programmed.ready, serving.1, serving.2⟩

theorem round_first (resting : Resting run.pic) (idle : run.phase = .idle)
    (first : First run.pic line) :
    serviceRound run = some { run with
      pic := picWrites (takeLine run.pic line) (eoiWrites line.val)
      delivered := run.delivered ++ [line] } := by
  have slaved := fun place => has_slave_eq resting.ready place
  rcases first_answered resting first with ⟨low, device, chosen⟩ | ⟨high, chosen, slaveChosen⟩
  · have own : masterLine (place line) = line := Fin.ext (Nat.mod_eq_of_lt low)
    have answered : answer run = { run with
        pic := takeLine run.pic line
        phase := .entered line
        delivered := run.delivered ++ [line] } := by
      simp only [answer, chosen, slaved, decide_eq_false device, Bool.false_eq_true, if_false, own,
        takeLine, if_pos low]
    simp only [serviceRound, picStep, idle, if_true, answered, reduceCtorEq, if_false,
      Option.bind_some]
  · have notLow : ¬line.val < 8 := by omega
    have own : slaveOf (place line) = line := by
      apply Fin.ext
      simp only [slaveOf, place]
      omega
    have answered : answer run = { run with
        pic := { run.pic with master := run.pic.master.take cascadePlace }
        phase := .cascade } := by
      simp only [answer, chosen, slaved, decide_true, if_true]
    simp only [serviceRound, picStep, idle, if_true, answered, answerSlave, slaveChosen, own,
      takeLine, if_neg notLow, Option.bind_some]

/-- Without a waiting line the answer is spurious: the round leaves all as it was. -/
theorem round_spurious (resting : Resting run.pic) (idle : run.phase = .idle)
    (silent : masterCandidate run.pic = none) : serviceRound run = some run := by
  have ended : picWrites run.pic (eoiWrites 7) = run.pic := by
    obtain ⟨master, slave⟩ := eoi_writes_lines run.pic 7
    have ports := eoi_writes_keep_ports run.pic 7
    rw [end_service_idle resting.master] at master
    rw [if_neg (by decide)] at slave
    cases pic : run.pic
    simp only [pic] at master slave ports
    cases ends : picWrites _ (eoiWrites 7)
    rw [ends] at master slave ports
    subst master slave ports
    rfl
  have answered : answer run = { run with phase := .entered ⟨7, by decide⟩ } := by
    simp only [answer, silent]
  simp only [serviceRound, picStep, idle, if_true, answered, reduceCtorEq, if_false,
    Option.bind_some, ended]
  rw [← idle]

theorem round_waiting (quiet : asks run.pic slaveLine = false) {rest : List (Fin 16)}
    (list : waiting run.pic = line :: rest) :
    waiting (picWrites (takeLine run.pic line) (eoiWrites line.val)) = rest := by
  have ports : (picWrites (takeLine run.pic line) (eoiWrites line.val)).ports = run.pic.ports := by
    rw [eoi_writes_keep_ports]
    unfold takeLine
    split <;> rfl
  have still : ∀ other, waits (picWrites (takeLine run.pic line) (eoiWrites line.val)) other =
      (waits run.pic other && decide (other ≠ line)) := by
    intro other
    rw [waits, waits, ports, eoi_waits, take_line_asks line other quiet]
    by_cases same : other = line
    · simp [same]
    · simp [same]
  have distinct : (waiting run.pic).Nodup :=
    (priority_ranked.filter _).imp fun before same => absurd (same ▸ before) (Nat.lt_irrefl _)
  have behind : waiting (picWrites (takeLine run.pic line) (eoiWrites line.val)) =
      (waiting run.pic).filter fun other => decide (other ≠ line) := by
    rw [waiting, waiting, List.filter_filter]
    congr 1
    funext other
    rw [still, Bool.and_comm]
  rw [list] at distinct
  rw [behind, list, List.filter_cons_of_neg (by simp)]
  exact List.filter_eq_self.mpr fun other member =>
    decide_eq_true fun same => (List.nodup_cons.mp distinct).1 (same ▸ member)

theorem round_reachable (reachable : Reachable picRuns run) (round : serviceRound run = some after) :
    Reachable picRuns after := by
  simp only [serviceRound, Option.bind_eq_some_iff] at round
  obtain ⟨answered, first, entered, second, handled, third, ended, fourth, last⟩ := round
  have answeredRun : Reachable picRuns answered := .next reachable first
  have enteredRun : Reachable picRuns entered := by
    split at second
    · exact .next answeredRun second
    · exact Option.some.inj second ▸ answeredRun
  exact .next (.next (.next enteredRun third) fourth) last

/-- The lines that reach the processor from the master, as it sees them. -/
theorem candidate_some_iff (resting : Resting pic) :
    (masterCandidate pic).isSome = true ↔ ∃ line, line ≠ slaveLine ∧ waits pic line = true := by
  constructor
  · intro chosen
    obtain ⟨place, found⟩ := Option.isSome_iff_exists.mp chosen
    obtain ⟨line, device, asking, _⟩ := passing_waits resting (candidate_passes found)
    exact ⟨line, device, asking⟩
  · rintro ⟨line, device, asking⟩
    have member : line ∈ waiting pic := List.mem_filter.mpr ⟨mem_priority device, asking⟩
    cases list : waiting pic with
    | nil => rw [list] at member; contradiction
    | cons head rest =>
        rcases first_answered resting (first_of_waiting list) with ⟨_, _, chosen⟩ | ⟨_, chosen, _⟩
        · rw [chosen]
          rfl
        · rw [chosen]
          rfl

theorem take_line_ports (pic : PicState) (line : Fin 16) :
    (takeLine pic line).ports = pic.ports := by
  unfold takeLine
  split <;> rfl

end Rounds

section Results

variable {run : PicRun}

/-- In every run: the edges of a line have each been answered once, have vanished or
still ask; each chip serves at most one line, and none between two interrupts; and
there the processor is asked exactly when a line waits. -/
theorem interrupts_ended_once (reachable : Reachable picRuns run) :
    (∀ line, run.accepted.count line =
      run.dropped.count line + run.delivered.count line + (asks run.pic line).toNat) ∧
    (∃ master slave, Only run.pic.master master ∧ Only run.pic.slave slave) ∧
    (run.phase = .idle ∨ run.phase = .returning → Idle run.pic.master ∧ Idle run.pic.slave) ∧
    (run.phase = .idle → ((masterCandidate run.pic).isSome = true ↔
      ∃ line, line ≠ slaveLine ∧ waits run.pic line = true)) := by
  have invariant := pic_run_invariant reachable
  have serving := invariant.serving
  refine ⟨invariant.tallied, ?_, ?_, fun idle =>
    candidate_some_iff (resting_of_invariant invariant idle)⟩
  · cases phase : run.phase with
    | idle =>
        rw [phase] at serving
        exact ⟨0, 0, fun other _ => serving.1 other, fun other _ => serving.2 other⟩
    | cascade =>
        rw [phase] at serving
        exact ⟨cascadePlace, 0, serving.1, fun other _ => serving.2.2 other⟩
    | entered irq =>
        rw [phase] at serving
        exact serving_line_only serving
    | handled irq =>
        rw [phase] at serving
        exact serving_line_only serving
    | returning =>
        rw [phase] at serving
        exact ⟨0, 0, fun other _ => serving.1 other, fun other _ => serving.2 other⟩
  · rintro (phase | phase)
    · rw [phase] at serving
      exact serving
    · rw [phase] at serving
      exact serving

/-- Without further edges each round answers the next waiting line, in the order of
priority; the rounds after the last one are spurious and leave all as it is. -/
theorem waiting_answered_by_priority (reachable : Reachable picRuns run) (idle : run.phase = .idle)
    (rounds : Nat) :
    ∃ after, serviceRounds rounds run = some after ∧ after.phase = .idle ∧
      after.delivered = run.delivered ++ (waiting run.pic).take rounds ∧
      waiting after.pic = (waiting run.pic).drop rounds ∧
      after.pic.ports = run.pic.ports ∧ after.accepted = run.accepted ∧
      after.dropped = run.dropped := by
  induction rounds generalizing run with
  | zero => exact ⟨run, rfl, idle, by simp, by simp, rfl, rfl, rfl⟩
  | succ rounds ih =>
      have invariant := pic_run_invariant reachable
      have resting := resting_of_invariant invariant idle
      cases list : waiting run.pic with
      | nil =>
          have round := round_spurious resting idle (waiting_nil_silent resting list)
          obtain ⟨after, rest, phase, delivered, waits, kept⟩ := ih reachable idle
          refine ⟨after, ?_, phase, ?_, ?_, kept⟩
          · rw [serviceRounds, round]
            exact rest
          · rw [delivered, list]
            simp
          · rw [waits, list]
            simp
      | cons line others =>
          have round := round_first resting idle (first_of_waiting list)
          have next := round_reachable reachable round
          obtain ⟨after, rest, phase, delivered, waits, ports, accepted, dropped⟩ := ih next idle
          rw [round_waiting invariant.quiet list] at delivered waits
          refine ⟨after, ?_, phase, ?_, waits, ?_, accepted, dropped⟩
          · rw [serviceRounds, round]
            exact rest
          · rw [delivered, List.append_assoc]
            rfl
          · rw [ports, eoi_writes_keep_ports, take_line_ports]

def twoAsk : PicRun where
  pic := raiseLine (raiseLine (picWrites (picWrites (picWrites (picWrites
    ⟨idlePorts, Lines.reset, Lines.reset⟩ initWrites)
      [(pic1Data, 0xFD)]) [(pic1Data, 0xF9)]) [(pic2Data, 0xFE)]) 8) 1
  phase := .idle
  accepted := [8, 1]
  dropped := []
  delivered := []

theorem two_ask_reachable : Reachable picRuns twoAsk := by
  have begun : Reachable picRuns ⟨picWrites ⟨idlePorts, Lines.reset, Lines.reset⟩ initWrites,
      .idle, [], [], []⟩ := .start ⟨⟨_, rfl⟩, rfl, rfl, rfl, rfl⟩
  have first := @Reachable.next _ _ picRuns _ _ (.call (.unmask 1)) begun rfl
  have second := @Reachable.next _ _ picRuns _ _ (.call (.unmask 2)) first rfl
  have third := @Reachable.next _ _ picRuns _ _ (.call (.unmask 8)) second rfl
  have fourth := @Reachable.next _ _ picRuns _ _ (.raise 8) third rfl
  exact @Reachable.next _ _ picRuns _ twoAsk (.raise 1) fourth rfl

theorem interrupts_ended_once_two :
    twoAsk.accepted.count 8 = twoAsk.dropped.count 8 + twoAsk.delivered.count 8 +
      (asks twoAsk.pic 8).toNat := (interrupts_ended_once two_ask_reachable).1 8

theorem waiting_answered_two :
    ∃ after, serviceRounds 3 twoAsk = some after ∧ after.delivered = [1, 8] := by
  obtain ⟨after, rounds, _, delivered, _⟩ := waiting_answered_by_priority two_ask_reachable rfl 3
  exact ⟨after, rounds, delivered⟩

end Results

end SimplyOs.PicPriority
