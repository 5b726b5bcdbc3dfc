import SimplyOs.Interrupts

/-!
# Transparent interrupts

The words that gate and stub push are, from the top on, `registers_t`. The code
behind the call pops them in the reverse order, so that all registers are again what
they were, whatever the handler did to them.
-/

namespace SimplyOs.InterruptFrames

open SimplyOs.Interrupts SimplyOs.Library.WordStack

set_option autoImplicit false

/-- A field of `registers_t` for a selector: its lower half, and all of it on
processors that extend a pushed selector with zeros. -/
def FieldReads (processor : Processor) (field : Word) (selector : Selector) : Prop :=
  field.setWidth 16 = selector ∧
    ((∀ selector before, processor.selectorWord selector before = selector.setWidth 32) →
      field = selector.setWidth 32)

/-- Every field that is pushed reads what it names; `esp` is the stack pointer in
front of `pusha`, five words below the interrupted one. -/
structure FrameReads (processor : Processor) (regs : Registers) (cpu : Cpu)
    (intNo errCode : Word) : Prop where
  gs : FieldReads processor regs.gs cpu.gs
  fs : FieldReads processor regs.fs cpu.fs
  es : FieldReads processor regs.es cpu.es
  ds : FieldReads processor regs.ds cpu.ds
  edi : regs.edi = cpu.edi
  esi : regs.esi = cpu.esi
  ebp : regs.ebp = cpu.ebp
  esp : regs.esp = cpu.esp - 20
  ebx : regs.ebx = cpu.ebx
  edx : regs.edx = cpu.edx
  ecx : regs.ecx = cpu.ecx
  eax : regs.eax = cpu.eax
  intNo : regs.intNo = intNo
  errCode : regs.errCode = errCode
  eip : regs.eip = cpu.eip
  cs : FieldReads processor regs.cs cpu.cs
  eflags : regs.eflags = cpu.eflags

/-- The 17 words of `registers_t` that are pushed. -/
def frameBytes : Nat := 68

def pushedBytes : Nat := 76

/-- The handler has returned by cdecl and has not changed the frame. All registers but
`esp`, and all other memory, may have changed. -/
structure HandlerReturned (called returned : Cpu) (regs : Word) : Prop where
  esp : returned.esp = called.esp + 4
  frame : ∀ offset < frameBytes,
    returned.memory (above regs offset) = called.memory (above regs offset)

example (called : Cpu) (regs : Word) :
    HandlerReturned called { called with esp := called.esp + 4 } regs :=
  ⟨rfl, fun _ _ => rfl⟩

/-- The stub calls the handler with the address of the frame, above which nothing has
changed, and resumes with all registers as they were and memory as the handler left it. -/
def Transparent (processor : Processor) (returnAddress target : Word) (cpu : Cpu)
    (stub : List Instruction) (pushed : Option Word) (handler : Handler)
    (intNo errCode : Word) : Prop :=
  ∃ called regs,
    run processor returnAddress stub (enterGate processor cpu target pushed) =
        .calls handler restoreCode called ∧
      called.word 0 = returnAddress ∧ called.word 1 = regs ∧
      FrameReads processor (registersAt called.memory regs) cpu intNo errCode ∧
      (∀ offset < 2 ^ 32 - pushedBytes,
        called.memory (above cpu.esp offset) = cpu.memory (above cpu.esp offset)) ∧
      ∀ returned, HandlerReturned called returned regs →
        run processor returnAddress restoreCode returned =
          .resumes { cpu with memory := returned.memory }

/-! ## Pushing -/

section Pushing

variable {initial : Memory} {base : Word} {cpu : Cpu} {words : List Word}

/-- The words that are on the stack of a processor since its top was `base`. -/
abbrev OnStack (initial : Memory) (base : Word) (cpu : Cpu) (words : List Word) : Prop :=
  Stacked initial base cpu.memory cpu.esp words

theorem on_stack_push (stacked : OnStack initial base cpu words)
    (room : 4 * words.length + 4 ≤ 2 ^ 32) (value : Word) :
    OnStack initial base (cpu.push value) (value :: words) :=
  stacked_push stacked room value

theorem on_stack_pushes (values : List Word) (stacked : OnStack initial base cpu words)
    (room : 4 * (words.length + values.length) ≤ 2 ^ 32) :
    OnStack initial base (values.foldl Cpu.push cpu) (values.reverse ++ words) := by
  induction values generalizing cpu words with
  | nil => exact stacked
  | cons value values ih =>
      rw [List.length_cons] at room
      have first := on_stack_push stacked (by omega) value
      rw [List.foldl_cons, List.reverse_cons, List.append_assoc, List.singleton_append]
      exact ih first (by rw [List.length_cons]; omega)

theorem field_reads_word (processor : Processor) (selector : Selector) (before : Word) :
    FieldReads processor (processor.selectorWord selector before) selector :=
  ⟨processor.lowerHalf selector before, fun zeroExtends => zeroExtends selector before⟩

theorem on_stack_push_selector (processor : Processor) (stacked : OnStack initial base cpu words)
    (room : 4 * words.length + 4 ≤ 2 ^ 32) (selector : Selector) :
    ∃ word, FieldReads processor word selector ∧
      OnStack initial base (cpu.pushSelector processor selector) (word :: words) :=
  ⟨_, field_reads_word processor selector _, on_stack_push stacked room _⟩

theorem gate_on_stack (processor : Processor) (cpu : Cpu) (target : Word) (pushed : Option Word) :
    ∃ csWord, FieldReads processor csWord cpu.cs ∧
      OnStack cpu.memory cpu.esp (enterGate processor cpu target pushed)
        (pushed.toList ++ [cpu.eip, csWord, cpu.eflags]) := by
  have flags := on_stack_push (stacked_nil cpu.memory cpu.esp) (by decide) cpu.eflags
  obtain ⟨csWord, reads, selector⟩ := on_stack_push_selector processor flags (by simp) cpu.cs
  have address := on_stack_push selector (by simp) cpu.eip
  refine ⟨csWord, reads, ?_⟩
  cases pushed with
  | none => exact address
  | some code => exact on_stack_push address (by simp) code

def saved (processor : Processor) (cpu : Cpu) : Cpu :=
  ((((cpu.pusha).pushSelector processor cpu.ds).pushSelector processor cpu.es).pushSelector
    processor cpu.fs).pushSelector processor cpu.gs

theorem saved_on_stack (processor : Processor) (stacked : OnStack initial base cpu words)
    (room : 4 * words.length + 48 ≤ 2 ^ 32) :
    ∃ gs fs es ds, FieldReads processor gs cpu.gs ∧ FieldReads processor fs cpu.fs ∧
      FieldReads processor es cpu.es ∧ FieldReads processor ds cpu.ds ∧
      OnStack initial base (saved processor cpu)
        ([gs, fs, es, ds, cpu.edi, cpu.esi, cpu.ebp, cpu.esp, cpu.ebx, cpu.edx, cpu.ecx, cpu.eax] ++
          words) := by
  have general := on_stack_pushes
    [cpu.eax, cpu.ecx, cpu.edx, cpu.ebx, cpu.esp, cpu.ebp, cpu.esi, cpu.edi] stacked
    (by simp only [List.length_cons, List.length_nil]; omega)
  obtain ⟨ds, dsReads, one⟩ := on_stack_push_selector processor general
    (by simp; omega) cpu.ds
  obtain ⟨es, esReads, two⟩ := on_stack_push_selector processor one
    (by simp; omega) cpu.es
  obtain ⟨fs, fsReads, three⟩ := on_stack_push_selector processor two
    (by simp; omega) cpu.fs
  obtain ⟨gs, gsReads, four⟩ := on_stack_push_selector processor three
    (by simp; omega) cpu.gs
  exact ⟨gs, fs, es, ds, gsReads, fsReads, esReads, dsReads, four⟩

def loadSegments (cpu : Cpu) : Cpu :=
  let loaded := { cpu with eax := cpu.eax.extractLsb' 16 16 ++ kernelDataSeg }
  let loaded := loaded.setSegment (loaded.eax.setWidth 16) .ds
  let loaded := loaded.setSegment (loaded.eax.setWidth 16) .es
  let loaded := loaded.setSegment (loaded.eax.setWidth 16) .fs
  loaded.setSegment (loaded.eax.setWidth 16) .gs

def called (processor : Processor) (returnAddress : Word) (cpu : Cpu) : Cpu :=
  let loaded := loadSegments (saved processor cpu)
  (loaded.push loaded.esp).push returnAddress

@[simp] theorem push_segment (cpu : Cpu) (value : Word) (segment : Segment) :
    (cpu.push value).segment segment = cpu.segment segment := by
  cases segment <;> rfl

@[simp] theorem push_selector_segment (processor : Processor) (cpu : Cpu) (selector : Selector)
    (segment : Segment) :
    (cpu.pushSelector processor selector).segment segment = cpu.segment segment :=
  push_segment cpu _ segment

@[simp] theorem pusha_segment (cpu : Cpu) (segment : Segment) :
    cpu.pusha.segment segment = cpu.segment segment := by
  simp only [Cpu.pusha, List.foldl_cons, List.foldl_nil, push_segment]

theorem common_stub_run (processor : Processor) (returnAddress : Word) (handler : Handler)
    (cpu : Cpu) :
    run processor returnAddress (commonStub handler) cpu =
      .calls handler restoreCode (called processor returnAddress cpu) := by
  rw [commonStub, List.cons_append]
  simp only [List.cons_append, List.nil_append, run, push_selector_segment, pusha_segment]
  simp only [called, loadSegments, saved, Cpu.segment]

@[simp] theorem set_segment_esp (cpu : Cpu) (selector : Selector) (segment : Segment) :
    (cpu.setSegment selector segment).esp = cpu.esp := by
  cases segment <;> rfl

@[simp] theorem set_segment_memory (cpu : Cpu) (selector : Selector) (segment : Segment) :
    (cpu.setSegment selector segment).memory = cpu.memory := by
  cases segment <;> rfl

theorem load_segments_on_stack (stacked : OnStack initial base cpu words) :
    OnStack initial base (loadSegments cpu) words := by
  have esp : (loadSegments cpu).esp = cpu.esp := by simp only [loadSegments, set_segment_esp]
  have memory : (loadSegments cpu).memory = cpu.memory := by
    simp only [loadSegments, set_segment_memory]
  rw [OnStack, esp, memory]
  exact stacked

/-- The words in front of a handler: the return address, the argument, and what the
argument points to. -/
theorem called_on_stack (processor : Processor) (returnAddress : Word)
    (stacked : OnStack initial base cpu words) (room : 4 * words.length + 56 ≤ 2 ^ 32) :
    ∃ gs fs es ds, FieldReads processor gs cpu.gs ∧ FieldReads processor fs cpu.fs ∧
      FieldReads processor es cpu.es ∧ FieldReads processor ds cpu.ds ∧
      OnStack initial base (called processor returnAddress cpu)
        (returnAddress :: above (called processor returnAddress cpu).esp 8 ::
          [gs, fs, es, ds, cpu.edi, cpu.esi, cpu.ebp, cpu.esp, cpu.ebx, cpu.edx, cpu.ecx,
            cpu.eax] ++ words) := by
  obtain ⟨gs, fs, es, ds, gsReads, fsReads, esReads, dsReads, onStack⟩ :=
    saved_on_stack processor stacked (by omega)
  have loaded := load_segments_on_stack onStack
  have argument := on_stack_push loaded (by simp; omega) (loadSegments (saved processor cpu)).esp
  have address := on_stack_push argument (by simp; omega) returnAddress
  have place : above (called processor returnAddress cpu).esp 8 =
      (loadSegments (saved processor cpu)).esp := by
    rw [called, Cpu.push, Cpu.push]
    simp only
    rw [above_pushed _ 4, above_pushed _ 0, above_zero]
  rw [place]
  exact ⟨gs, fs, es, ds, gsReads, fsReads, esReads, dsReads, address⟩

end Pushing

/-! ## The frame -/

def pushedFields (regs : Registers) : List Word :=
  [regs.gs, regs.fs, regs.es, regs.ds, regs.edi, regs.esi, regs.ebp, regs.esp, regs.ebx, regs.edx,
    regs.ecx, regs.eax, regs.intNo, regs.errCode, regs.eip, regs.cs, regs.eflags]

section Frame

variable {processor : Processor} {memory : Memory} {regs : Word} {words : List Word}

theorem pushed_fields_of_holds (holds : Holds memory regs words) (full : words.length = 17) :
    pushedFields (registersAt memory regs) = words := by
  have count : (pushedFields (registersAt memory regs)).length = 17 := rfl
  apply List.ext_getElem (count.trans full.symm)
  intro index inside inWords
  rw [count] at inside
  have reads := holds index _ (List.getElem?_eq_getElem inWords)
  rw [← reads]
  interval_cases index <;> rfl

theorem frame_reads_congr {left right : Registers} {cpu : Cpu} {intNo errCode : Word}
    (reads : FrameReads processor left cpu intNo errCode)
    (same : pushedFields right = pushedFields left) :
    FrameReads processor right cpu intNo errCode := by
  simp only [pushedFields, List.cons.injEq, and_true] at same
  obtain ⟨gs, fs, es, ds, edi, esi, ebp, esp, ebx, edx, ecx, eax, number, code, eip, cs, eflags⟩ :=
    same
  exact ⟨gs ▸ reads.gs, fs ▸ reads.fs, es ▸ reads.es, ds ▸ reads.ds, edi ▸ reads.edi,
    esi ▸ reads.esi, ebp ▸ reads.ebp, esp ▸ reads.esp, ebx ▸ reads.ebx, edx ▸ reads.edx,
    ecx ▸ reads.ecx, eax ▸ reads.eax, number ▸ reads.intNo, code ▸ reads.errCode, eip ▸ reads.eip,
    cs ▸ reads.cs, eflags ▸ reads.eflags⟩

theorem restore_run (processor : Processor) (returnAddress : Word) (returned : Cpu)
    (top : above returned.esp 4 = regs) :
    run processor returnAddress restoreCode returned =
      let frame := registersAt returned.memory regs
      .resumes
        { eax := frame.eax, ecx := frame.ecx, edx := frame.edx, ebx := frame.ebx
          esp := above regs frameBytes, ebp := frame.ebp, esi := frame.esi, edi := frame.edi
          ds := frame.ds.setWidth 16, es := frame.es.setWidth 16, fs := frame.fs.setWidth 16
          gs := frame.gs.setWidth 16, cs := frame.cs.setWidth 16, eip := frame.eip
          eflags := frame.eflags, memory := returned.memory } := by
  have argument (esp : Word) : esp + 4 = above esp 4 := rfl
  have number (esp : Word) : esp + 8 = above esp 8 := rfl
  simp only [restoreCode, run, argument, number, top, Cpu.setSegment, Cpu.word, Cpu.popa, Cpu.iret,
    above_above]
  rfl

theorem restores {cpu returned : Cpu} {intNo errCode : Word} (returnAddress : Word)
    (top : above returned.esp 4 = regs) (bottom : above regs frameBytes = cpu.esp)
    (reads : FrameReads processor (registersAt returned.memory regs) cpu intNo errCode) :
    run processor returnAddress restoreCode returned =
      .resumes { cpu with memory := returned.memory } := by
  rw [restore_run processor returnAddress returned top]
  simp only
  rw [bottom, reads.eax, reads.ecx, reads.edx, reads.ebx, reads.ebp, reads.esi, reads.edi,
    reads.eip, reads.eflags, reads.ds.1, reads.es.1, reads.fs.1, reads.gs.1, reads.cs.1]

end Frame

/-! ## The stubs -/

theorem pushes_keep (values : List Word) (cpu : Cpu) :
    ∃ esp memory, values.foldl Cpu.push cpu = { cpu with esp := esp, memory := memory } := by
  induction values generalizing cpu with
  | nil => exact ⟨cpu.esp, cpu.memory, rfl⟩
  | cons value values ih =>
      obtain ⟨esp, memory, pushed⟩ := ih (cpu.push value)
      exact ⟨esp, memory, pushed⟩

theorem enter_gate_keeps (processor : Processor) (cpu : Cpu) (target : Word)
    (pushed : Option Word) :
    ∃ esp memory, enterGate processor cpu target pushed =
      { cpu with
        esp := esp, memory := memory, cs := kernelCs, eip := target
        eflags := processor.gateFlags cpu.eflags } := by
  cases pushed with
  | none => exact ⟨_, _, rfl⟩
  | some code => exact ⟨_, _, rfl⟩

theorem run_pushes (processor : Processor) (returnAddress : Word) (values : List Word)
    (rest : List Instruction) (cpu : Cpu) :
    run processor returnAddress (values.map .pushl ++ rest) cpu =
      run processor returnAddress rest (values.foldl Cpu.push cpu) := by
  induction values generalizing cpu with
  | nil => rfl
  | cons value values ih => exact ih (cpu.push value)

/-- What is on the stack in front of a handler when gate and stub have pushed the two
numbers. -/
theorem frame_on_stack (processor : Processor) (returnAddress target : Word) (cpu : Cpu)
    {pushed : Option Word} {values : List Word} {intNo errCode : Word}
    (numbers : values.reverse ++ pushed.toList = [intNo, errCode])
    {top : Cpu} (top_eq : top = called processor returnAddress
      (values.foldl Cpu.push (enterGate processor cpu target pushed))) :
    ∃ gs fs es ds cs, FieldReads processor gs cpu.gs ∧ FieldReads processor fs cpu.fs ∧
      FieldReads processor es cpu.es ∧ FieldReads processor ds cpu.ds ∧
      FieldReads processor cs cpu.cs ∧
      OnStack cpu.memory cpu.esp top
        [returnAddress, above top.esp 8, gs, fs, es, ds, cpu.edi, cpu.esi, cpu.ebp, cpu.esp - 20,
          cpu.ebx, cpu.edx, cpu.ecx, cpu.eax, intNo, errCode, cpu.eip, cs, cpu.eflags] := by
  obtain ⟨cs, csReads, gate⟩ := gate_on_stack processor cpu target pushed
  have count : values.length + pushed.toList.length = 2 := by
    have := congrArg List.length numbers
    rwa [List.length_append, List.length_reverse] at this
  have entered := on_stack_pushes values gate (by simp; omega)
  rw [← List.append_assoc, numbers] at entered
  obtain ⟨gs, fs, es, ds, gsReads, fsReads, esReads, dsReads, onStack⟩ :=
    called_on_stack processor returnAddress entered (by simp)
  have esp : (values.foldl Cpu.push (enterGate processor cpu target pushed)).esp =
      cpu.esp - 20 := by
    have began : cpu.esp = _ := entered.began
    rw [began]
    exact (BitVec.add_sub_cancel _ _).symm
  rw [← top_eq, esp] at onStack
  obtain ⟨gateEsp, gateMemory, gateKeeps⟩ := enter_gate_keeps processor cpu target pushed
  obtain ⟨lastEsp, lastMemory, keeps⟩ :=
    pushes_keep values (enterGate processor cpu target pushed)
  rw [gateKeeps] at keeps
  rw [gateKeeps, keeps] at onStack gsReads fsReads esReads dsReads
  exact ⟨gs, fs, es, ds, cs, gsReads, fsReads, esReads, dsReads, csReads, onStack⟩

/-- A stub is transparent when it and the gate push the two numbers. -/
theorem stub_transparent (processor : Processor) (returnAddress target : Word) (cpu : Cpu)
    {pushed : Option Word} {values : List Word} (handler : Handler) {intNo errCode : Word}
    (numbers : values.reverse ++ pushed.toList = [intNo, errCode]) :
    Transparent processor returnAddress target cpu (values.map .pushl ++ commonStub handler) pushed
      handler intNo errCode := by
  obtain ⟨top, top_eq⟩ : ∃ top, top = called processor returnAddress
      (values.foldl Cpu.push (enterGate processor cpu target pushed)) := ⟨_, rfl⟩
  obtain ⟨gs, fs, es, ds, cs, gsReads, fsReads, esReads, dsReads, csReads, stacked⟩ :=
    frame_on_stack processor returnAddress target cpu numbers top_eq
  obtain ⟨returns, popped⟩ := holds_pop stacked.holds
  obtain ⟨argument, frame⟩ := holds_pop popped
  have place : top.esp + 4 + 4 = above top.esp 8 := above_above top.esp 4 4
  rw [place] at frame
  have fields := pushed_fields_of_holds frame rfl
  have image : FrameReads processor
      ⟨gs, fs, es, ds, cpu.edi, cpu.esi, cpu.ebp, cpu.esp - 20, cpu.ebx, cpu.edx, cpu.ecx, cpu.eax,
        intNo, errCode, cpu.eip, cs, cpu.eflags, 0, 0⟩ cpu intNo errCode :=
    ⟨gsReads, fsReads, esReads, dsReads, rfl, rfl, rfl, rfl, rfl, rfl, rfl, rfl, rfl, rfl, rfl,
      csReads, rfl⟩
  have reads := frame_reads_congr image fields
  have bottom : above (above top.esp 8) frameBytes = cpu.esp :=
    (above_above top.esp 8 frameBytes).trans stacked.began.symm
  refine ⟨top, above top.esp 8, ?_, ?_, argument, reads, stacked.beyond, ?_⟩
  · rw [run_pushes, common_stub_run, top_eq]
  · rw [Cpu.word, Nat.mul_zero, above_zero]
    exact returns
  · intro returned unchanged
    have same := holds_of_same frame unchanged.frame
    have again := pushed_fields_of_holds same rfl
    have top : above returned.esp 4 = above top.esp 8 := by
      rw [unchanged.esp]
      exact above_above top.esp 4 4
    exact restores returnAddress top bottom (frame_reads_congr reads (again.trans fields.symm))

/-! ## The tables -/

theorem irq_stub_table_get {irq : Nat} (line : irq < 16) :
    irqStubTable[irq]? = some (irqStub irq) := by
  interval_cases irq <;> rfl

theorem isr_stub_table_get {vector : Nat} (exception : vector ≤ 20) :
    isrStubTable[vector]? =
      some (if pushesErrorCode vector then isrErrStub vector else isrNoErrStub vector) := by
  interval_cases vector <;> rfl

/-! ## Every stub -/

/-- The stub of every line and of every exception is transparent. Under the argument lies
one layout for all of them, with the error code or 0. -/
theorem interrupts_transparent (processor : Processor) (returnAddress target : Word) (cpu : Cpu) :
    (∀ irq < 16, ∃ stub, irqStubTable[irq]? = some stub ∧
      Transparent processor returnAddress target cpu stub none .irqHandler
        (BitVec.ofNat 32 irq) 0) ∧
    ∀ vector ≤ 20, ∀ code : Word, ∃ stub, isrStubTable[vector]? = some stub ∧
      Transparent processor returnAddress target cpu stub
        (if pushesErrorCode vector then some code else none) .exceptionHandler
        (BitVec.ofNat 32 vector) (if pushesErrorCode vector then code else 0) := by
  constructor
  · intro irq line
    refine ⟨irqStub irq, irq_stub_table_get line, ?_⟩
    have numbers : [0, BitVec.ofNat 32 irq].reverse ++ (none : Option Word).toList =
        [BitVec.ofNat 32 irq, 0] := rfl
    exact stub_transparent processor returnAddress target cpu .irqHandler numbers
  · intro vector exception code
    refine ⟨_, isr_stub_table_get exception, ?_⟩
    cases pushesErrorCode vector with
    | true =>
        have numbers : [BitVec.ofNat 32 vector].reverse ++ (some code).toList =
            [BitVec.ofNat 32 vector, code] := rfl
        exact stub_transparent processor returnAddress target cpu .exceptionHandler numbers
    | false =>
        have numbers : [0, BitVec.ofNat 32 vector].reverse ++ (none : Option Word).toList =
            [BitVec.ofNat 32 vector, 0] := rfl
        exact stub_transparent processor returnAddress target cpu .exceptionHandler numbers

end SimplyOs.InterruptFrames
