import SimplyOs.Library.LastWriter
import SimplyOs.Pic

/-!
# Unmasked lines

A mask bit is as the last call on its line left it. A line of the slave is live
only while the cascade line of the master is unmasked too, which `pic_unmask`
does not see to.
-/

namespace SimplyOs.PicMasks

open SimplyOs.Pic SimplyOs.Library.ByteBitmap SimplyOs.Library.LastWriter

set_option autoImplicit false

/-- The line of the master that `pic_init` reserves for the slave. -/
def slaveLine : Fin 16 := ⟨2, by decide⟩

def onLine (line : Fin 16) (call : PicCall) : Bool := decide (call.irq = line)

def LastUnmasked (calls : List PicCall) (line : Fin 16) : Prop :=
  lastWriter (onLine line) calls = some (.unmask line)

/-- After the calls exactly the lines that were unmasked last reach the CPU, and
no call changed the mask bit of another line. -/
def LinesFollowCalls (ports : Ports) (calls : List PicCall) : Prop :=
  (∀ line, reachesCpu (picCalls (picInit ports) calls) line = true ↔ LastUnmasked calls line) ∧
    ∀ front call behind, calls = front ++ call :: behind → ∀ line, line ≠ call.irq →
      masked (picCalls (picInit ports) (front ++ [call])) line =
        masked (picCalls (picInit ports) front) line

/-- No line of the slave is left unmasked behind a masked cascade line. -/
def CascadeFollows (calls : List PicCall) : Prop :=
  ∀ line : Fin 16, 8 ≤ line.val → LastUnmasked calls line → LastUnmasked calls slaveLine

/-! ## One call -/

/-- Both chips are initialized, the slave on the cascade line of the master. -/
structure Ready (ports : Ports) : Prop where
  master : ports.master.expects = .mask
  slave : ports.slave.expects = .mask
  cascade : ports.master.icw3 = 4
  number : ports.slave.icw3 = 2

/-- What `pic_init` leaves in the chips, whatever they held before. -/
theorem pic_init_chips (ports : Ports) :
    (picInit ports).master =
        { expects := .mask, single := false, needsIcw4 := true, icw2 := pic1Offset, icw3 := 4,
          icw4 := icw48086, imr := 0xFF } ∧
      (picInit ports).slave =
        { expects := .mask, single := false, needsIcw4 := true, icw2 := pic2Offset, icw3 := 2,
          icw4 := icw48086, imr := 0xFF } :=
  ⟨rfl, rfl⟩

theorem pic_init_ready (ports : Ports) : Ready (picInit ports) := by
  obtain ⟨master, slave⟩ := pic_init_chips ports
  constructor
  · rw [master]
  · rw [slave]
  · rw [master]
  · rw [slave]

theorem pic_init_masked (ports : Ports) (line : Fin 16) : masked (picInit ports) line = true := by
  obtain ⟨master, slave⟩ := pic_init_chips ports
  have full : (lineChip (picInit ports) line).imr = 0xFF := by
    unfold lineChip
    by_cases low : line.val < 8
    · rw [if_pos low, master]
    · rw [if_neg low, slave]
  rw [masked, full]
  exact has_bit_full (bit_position_lt line.val)

theorem write_command_eoi (chip : Chip) : chip.writeCommand picEoi = chip := by
  have noInit : hasBit picEoi 4 = false := rfl
  rw [Chip.writeCommand, noInit]
  rfl

theorem pic_send_eoi_keeps (ports : Ports) (irq : Nat) : picSendEoi ports irq = ports := by
  have master (ports : Ports) : outb ports pic1Command picEoi = ports :=
    congrArg (fun chip => { ports with master := chip }) (write_command_eoi ports.master)
  have slave : outb ports pic2Command picEoi = ports :=
    congrArg (fun chip => { ports with slave := chip }) (write_command_eoi ports.slave)
  rw [picSendEoi]
  simp only [slave, ite_self]
  exact master ports

def writeImr (ports : Ports) (irq : Fin 16) (value : UInt8) : Ports :=
  if irq.val < 8 then { ports with master := { ports.master with imr := value } }
  else { ports with slave := { ports.slave with imr := value } }

section Calls

variable {ports : Ports}

theorem inb_mask_port (ports : Ports) (irq : Fin 16) :
    inb ports (picMaskPort irq) = (lineChip ports irq).imr := by
  unfold picMaskPort lineChip
  by_cases low : irq.val < 8
  · rw [if_pos low, if_pos low]
    rfl
  · rw [if_neg low, if_neg low]
    rfl

theorem write_data_mask {chip : Chip} (initialized : chip.expects = .mask) (value : UInt8) :
    chip.writeData value = { chip with imr := value } := by
  simp only [Chip.writeData, initialized]

theorem outb_mask_port (ready : Ready ports) (irq : Fin 16) (value : UInt8) :
    outb ports (picMaskPort irq) value = writeImr ports irq value := by
  unfold picMaskPort writeImr
  by_cases low : irq.val < 8
  · have stored : outb ports pic1Data value =
        { ports with master := ports.master.writeData value } := rfl
    rw [if_pos low, if_pos low, stored, write_data_mask ready.master]
  · have stored : outb ports pic2Data value =
        { ports with slave := ports.slave.writeData value } := rfl
    rw [if_neg low, if_neg low, stored, write_data_mask ready.slave]

theorem write_imr_ready (ready : Ready ports) (irq : Fin 16) (value : UInt8) :
    Ready (writeImr ports irq value) := by
  unfold writeImr
  by_cases low : irq.val < 8
  · rw [if_pos low]
    exact ⟨ready.master, ready.slave, ready.cascade, ready.number⟩
  · rw [if_neg low]
    exact ⟨ready.master, ready.slave, ready.cascade, ready.number⟩

theorem masked_write_imr (ports : Ports) (irq line : Fin 16) (value : UInt8) :
    masked (writeImr ports irq value) line =
      if (irq.val < 8 ↔ line.val < 8) then hasBit value (line.val % 8) else masked ports line := by
  unfold masked writeImr lineChip
  by_cases low : irq.val < 8
  · by_cases lineLow : line.val < 8
    · simp only [low, lineLow, if_true]
    · simp only [low, lineLow, if_true, if_false, iff_false, not_true_eq_false]
  · by_cases lineLow : line.val < 8
    · simp only [low, lineLow, if_true, if_false, iff_true]
    · simp only [low, lineLow, if_false]
      rw [if_pos trivial]

theorem pic_irq_line_eq (irq : Fin 16) : picIrqLine irq = irq.val % 8 := by
  unfold picIrqLine
  by_cases low : irq.val < 8
  · rw [if_pos low, Nat.mod_eq_of_lt low]
  · rw [if_neg low]
    omega

theorem same_place_iff {irq line : Fin 16} (sameChip : irq.val < 8 ↔ line.val < 8) :
    line.val % 8 = irq.val % 8 ↔ line = irq := by
  rw [Fin.ext_iff]
  omega

theorem masked_write_bit (ports : Ports) (irq line : Fin 16) {value : UInt8} {bit : Bool}
    (changes : ∀ place < 8, hasBit value place =
      if place = irq.val % 8 then bit else hasBit (lineChip ports irq).imr place) :
    masked (writeImr ports irq value) line = if line = irq then bit else masked ports line := by
  rw [masked_write_imr, changes _ (bit_position_lt line.val)]
  by_cases sameChip : irq.val < 8 ↔ line.val < 8
  · have chip : lineChip ports irq = lineChip ports line := by
      simp only [lineChip, sameChip]
    rw [if_pos sameChip, chip]
    by_cases same : line = irq
    · rw [if_pos same, if_pos (by rw [same])]
    · have elsewhere := mt (same_place_iff sameChip).mp same
      rw [if_neg same, if_neg elsewhere]
      rfl
  · have differ : line ≠ irq := by
      rintro rfl
      exact sameChip Iff.rfl
    rw [if_neg sameChip, if_neg differ]

theorem pic_call_write (ready : Ready ports) (call : PicCall) :
    ∃ value, picCall ports call = writeImr ports call.irq value ∧
      ∀ place < 8, hasBit value place = if place = call.irq.val % 8 then call.masks
        else hasBit (lineChip ports call.irq).imr place := by
  cases call with
  | mask irq =>
      refine ⟨(lineChip ports irq).imr ||| bitMask (irq.val % 8), ?_, ?_⟩
      · rw [picCall, picMask, inb_mask_port, outb_mask_port ready, pic_irq_line_eq]
        rfl
      · intro place small
        rw [has_bit_or (bit_position_lt irq.val) small]
        by_cases here : place = irq.val % 8
        · simp [here, PicCall.irq, PicCall.masks]
        · simp [here, PicCall.irq]
  | unmask irq =>
      refine ⟨(lineChip ports irq).imr &&& ~~~bitMask (irq.val % 8), ?_, ?_⟩
      · rw [picCall, picUnmask, inb_mask_port, outb_mask_port ready, pic_irq_line_eq]
        rfl
      · intro place small
        rw [has_bit_and_not (bit_position_lt irq.val) small]
        by_cases here : place = irq.val % 8
        · simp [here, PicCall.irq, PicCall.masks]
        · simp [here, PicCall.irq]

/-- A call gives the mask bit of its line the new value and leaves all others. -/
theorem pic_call_masked (ready : Ready ports) (call : PicCall) :
    Ready (picCall ports call) ∧ ∀ line, masked (picCall ports call) line =
      if line = call.irq then call.masks else masked ports line := by
  obtain ⟨value, effect, changes⟩ := pic_call_write ready call
  rw [effect]
  exact ⟨write_imr_ready ready call.irq value, fun line =>
    masked_write_bit ports call.irq line changes⟩

end Calls

/-! ## Runs -/

theorem pic_calls_masked (calls : List PicCall) {ports : Ports} (ready : Ready ports)
    (line : Fin 16) :
    Ready (picCalls ports calls) ∧ masked (picCalls ports calls) line =
      calls.foldl (fun old call => if onLine line call then call.masks else old)
        (masked ports line) := by
  induction calls generalizing ports with
  | nil => exact ⟨ready, rfl⟩
  | cons call rest ih =>
      obtain ⟨readyAfter, changed⟩ := pic_call_masked ready call
      obtain ⟨readyEnd, maskedEnd⟩ := ih readyAfter
      refine ⟨readyEnd, ?_⟩
      have step : masked (picCall ports call) line =
          if onLine line call then call.masks else masked ports line := by
        rw [changed line, onLine]
        by_cases same : line = call.irq
        · simp [same]
        · simp [same, Ne.symm same]
      rw [List.foldl_cons, ← step]
      exact maskedEnd

/-- A mask bit is as the last call on its line left it, and set without one. -/
theorem run_masked_iff (ports : Ports) (calls : List PicCall) (line : Fin 16) :
    masked (picCalls (picInit ports) calls) line = false ↔ LastUnmasked calls line := by
  rw [(pic_calls_masked calls (pic_init_ready ports) line).2, foldl_last_rule, LastUnmasked,
    pic_init_masked]
  cases found : lastWriter (onLine line) calls with
  | none => simp
  | some call =>
      have here : call.irq = line := of_decide_eq_true (last_writer_mem found).2
      cases call with
      | mask irq => simp [PicCall.masks]
      | unmask irq =>
          have same : irq = line := here
          simp [PicCall.masks, same]

theorem run_reaches_iff (ports : Ports) (calls : List PicCall) (line : Fin 16) :
    reachesCpu (picCalls (picInit ports) calls) line = true ↔
      LastUnmasked calls line ∧ (line.val < 8 ∨ LastUnmasked calls slaveLine) := by
  have ready := (pic_calls_masked calls (pic_init_ready ports) line).1
  have number : cascadeLine (picCalls (picInit ports) calls) = 2 := by
    rw [cascadeLine, ready.number]
    rfl
  have wired : hasBit (picCalls (picInit ports) calls).master.icw3 2 = true := by
    rw [ready.cascade]
    rfl
  have cascade : hasBit (picCalls (picInit ports) calls).master.imr 2 =
      masked (picCalls (picInit ports) calls) slaveLine := rfl
  rw [reachesCpu, number, wired, cascade, ← run_masked_iff ports, ← run_masked_iff ports]
  simp

/-- The lines follow their calls if and only if no slave line is left unmasked
behind a masked cascade line. -/
theorem lines_follow_calls_iff (ports : Ports) (calls : List PicCall) :
    LinesFollowCalls ports calls ↔ CascadeFollows calls := by
  constructor
  · rintro ⟨follows, _⟩ line slave unmasked
    obtain ⟨_, low | cascade⟩ := (run_reaches_iff ports calls line).mp ((follows line).mpr unmasked)
    · omega
    · exact cascade
  · intro cascade
    constructor
    · intro line
      rw [run_reaches_iff]
      constructor
      · exact And.left
      · intro unmasked
        refine ⟨unmasked, ?_⟩
        by_cases low : line.val < 8
        · exact Or.inl low
        · exact Or.inr (cascade line (Nat.not_lt.mp low) unmasked)
    · intro front call behind _ line other
      have ready := (pic_calls_masked front (pic_init_ready ports) line).1
      have last : picCalls (picInit ports) (front ++ [call]) =
          picCall (picCalls (picInit ports) front) call := List.foldl_concat _ _ _ _
      rw [last, (pic_call_masked ready call).2 line, if_neg other]

def idlePorts : Ports where
  master := ⟨.mask, false, false, 0, 0, 0, 0⟩
  slave := ⟨.mask, false, false, 0, 0, 0, 0⟩
  other := fun _ => 0

/-- Unmasking line 8 alone does not let it through. -/
theorem unmasked_slave_line_silent : ¬LinesFollowCalls idlePorts [.unmask 8] := by
  intro follows
  have here := follows.1 8
  exact absurd (here.mpr rfl) (by decide)

end SimplyOs.PicMasks
