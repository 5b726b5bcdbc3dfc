import SimplyOs.Keyboard
import SimplyOs.Library.LastWriter
import SimplyOs.Library.StreamMachine

/-!
# What the scancodes mean

The interrupt handler looks at the modifier flags and the scancode only: it decodes
the scancode to new flags and to at most one character, which it passes to
`kbd_buffer_push`. Without prefixed codes the flags say which shift key is down and
how often Caps Lock has been pressed.
-/

namespace SimplyOs.KeyboardDecoding

open SimplyOs.Keyboard SimplyOs.Library.StreamMachine SimplyOs.Library.LastWriter

set_option autoImplicit false

/-! ## The handler as a decoder -/

structure Modifiers where
  leftShift : Bool
  rightShift : Bool
  capsLock : Bool
  extended : Bool
  deriving DecidableEq, Repr

def modifiersOf (keyboard : KeyboardState) : Modifiers :=
  ⟨keyboard.leftShift, keyboard.rightShift, keyboard.capsLock, keyboard.extended⟩

def withModifiers (keyboard : KeyboardState) (modifiers : Modifiers) : KeyboardState :=
  { keyboard with
    leftShift := modifiers.leftShift
    rightShift := modifiers.rightShift
    capsLock := modifiers.capsLock
    extended := modifiers.extended }

def breakLshift : UInt8 := 0xAA

def breakRshift : UInt8 := 0xB6

/-- The flags behind a scancode. A break code is not looked at behind a prefix. -/
def nextModifiers (modifiers : Modifiers) (scancode : UInt8) : Modifiers :=
  if scancode = scancodeExt then { modifiers with extended := true }
  else if scancode = breakLshift then { modifiers with leftShift := false, extended := false }
  else if scancode = breakRshift then { modifiers with rightShift := false, extended := false }
  else if 0x80 ≤ scancode ∨ modifiers.extended = true then { modifiers with extended := false }
  else if scancode = scancodeLshift then { modifiers with leftShift := true }
  else if scancode = scancodeRshift then { modifiers with rightShift := true }
  else if scancode = scancodeCaps then { modifiers with capsLock := !modifiers.capsLock }
  else modifiers

/-- The keys that stand for no character whatever is in the tables. -/
def silentKeys : List UInt8 :=
  [scancodeLshift, scancodeRshift, scancodeCaps, scancodeLctrl, scancodeLalt]

/-- Which table is used: letters heed Caps Lock, other keys do not. -/
def usesShiftTable (scancode : UInt8) (shift capsLock : Bool) : Bool :=
  if isLetterScancode scancode then shift ^^ capsLock else shift

def tableEntry (scancode : UInt8) (shifted : Bool) : UInt8 :=
  (if shifted then scancodeAsciiShift else scancodeAscii).getD scancode.toNat 0

/-- The character of a make code that is not a modifier key, if the table has one. -/
def keyChars (modifiers : Modifiers) (scancode : UInt8) : List UInt8 :=
  if 0x80 ≤ scancode ∨ modifiers.extended = true ∨ scancode ∈ silentKeys then []
  else
    let entry := tableEntry scancode (usesShiftTable scancode
      (modifiers.leftShift || modifiers.rightShift) modifiers.capsLock)
    if entry ≠ 0 then [entry] else []

def decoder : Transducer Modifiers UInt8 UInt8 := ⟨nextModifiers, keyChars⟩

section Handler

theorem byte_forall {holds : UInt8 → Prop} (all : ∀ value < 256, holds (UInt8.ofNat value)) :
    ∀ byte, holds byte := by
  intro byte
  have here := all byte.toNat byte.toNat_lt
  rwa [UInt8.ofNat_toNat] at here

theorem break_code_iff : ∀ scancode : UInt8, scancode &&& 0x80 ≠ 0 ↔ 0x80 ≤ scancode :=
  byte_forall (by decide +kernel)

theorem break_lshift_iff : ∀ scancode : UInt8, 0x80 ≤ scancode →
    (scancode &&& 0x7F = scancodeLshift ↔ scancode = breakLshift) :=
  byte_forall (by decide +kernel)

theorem break_rshift_iff : ∀ scancode : UInt8, 0x80 ≤ scancode →
    (scancode &&& 0x7F = scancodeRshift ↔ scancode = breakRshift) :=
  byte_forall (by decide +kernel)

variable (keyboard : KeyboardState) (scancode : UInt8)

theorem scancode_to_ascii_eq (make : ¬0x80 ≤ scancode) :
    scancodeToAscii keyboard scancode = tableEntry scancode (usesShiftTable scancode
      ((modifiersOf keyboard).leftShift || (modifiersOf keyboard).rightShift)
      (modifiersOf keyboard).capsLock) := by
  rw [scancodeToAscii, tableEntry, usesShiftTable]
  simp only
  have wide : ¬(128 : UInt8) ≤ scancode := make
  rw [if_neg wide]
  split
  · rfl
  · rfl

variable {keyboard scancode}

theorem key_chars_silent {modifiers : Modifiers} (silent : 0x80 ≤ scancode ∨
    modifiers.extended = true ∨ scancode ∈ silentKeys) : keyChars modifiers scancode = [] :=
  if_pos silent

def Decodes (keyboard : KeyboardState) (scancode : UInt8) : Prop :=
  keyboardIrqHandler keyboard scancode =
    (keyChars (modifiersOf keyboard) scancode).foldl kbdBufferPush
      (withModifiers keyboard (nextModifiers (modifiersOf keyboard) scancode))

theorem break_code_decodes (released : 0x80 ≤ scancode) (plain : scancode ≠ scancodeExt) :
    Decodes keyboard scancode := by
  unfold Decodes keyboardIrqHandler nextModifiers
  rw [if_neg plain, if_neg plain, if_pos ((break_code_iff scancode).mpr released),
    key_chars_silent (Or.inl released)]
  dsimp only
  simp only [break_lshift_iff scancode released, break_rshift_iff scancode released]
  by_cases left : scancode = breakLshift
  · rw [if_pos left, if_pos left]
    rfl
  · rw [if_neg left, if_neg left]
    by_cases right : scancode = breakRshift
    · rw [if_pos right, if_pos right]
      rfl
    · rw [if_neg right, if_neg right, if_pos (Or.inl released)]
      rfl

theorem make_code_plain (make : ¬0x80 ≤ scancode) :
    scancode ≠ scancodeExt ∧ ¬scancode &&& 0x80 ≠ 0 ∧ scancode ≠ breakLshift ∧
      scancode ≠ breakRshift := by
  refine ⟨?_, fun broken => make ((break_code_iff scancode).mp broken), ?_, ?_⟩
  · rintro rfl
    exact make (by decide)
  · rintro rfl
    exact make (by decide)
  · rintro rfl
    exact make (by decide)

theorem make_code_decodes (make : ¬0x80 ≤ scancode) : Decodes keyboard scancode := by
  obtain ⟨prefixed, released, leftBreak, rightBreak⟩ := make_code_plain make
  unfold Decodes keyboardIrqHandler nextModifiers
  rw [if_neg prefixed, if_neg prefixed, if_neg released, if_neg leftBreak, if_neg rightBreak]
  by_cases extended : (modifiersOf keyboard).extended = true
  · have here : keyboard.extended = true := extended
    rw [if_pos here, if_pos (Or.inr extended), key_chars_silent (Or.inr (Or.inl extended))]
    rfl
  have here : ¬keyboard.extended = true := extended
  rw [if_neg here, if_neg (not_or.mpr ⟨make, extended⟩)]
  by_cases left : scancode = scancodeLshift
  · rw [if_pos left, if_pos left, key_chars_silent (Or.inr (Or.inr (by rw [left]; decide)))]
    rfl
  rw [if_neg left, if_neg left]
  by_cases right : scancode = scancodeRshift
  · rw [if_pos right, if_pos right, key_chars_silent (Or.inr (Or.inr (by rw [right]; decide)))]
    rfl
  rw [if_neg right, if_neg right]
  by_cases caps : scancode = scancodeCaps
  · rw [if_pos caps, if_pos caps, key_chars_silent (Or.inr (Or.inr (by rw [caps]; decide)))]
    rfl
  rw [if_neg caps, if_neg caps]
  have silent : scancode ∈ silentKeys ↔ scancode = scancodeLctrl ∨ scancode = scancodeLalt := by
    simp only [silentKeys, List.mem_cons, List.not_mem_nil, or_false, left, right, caps, false_or]
  by_cases modifier : scancode = scancodeLctrl ∨ scancode = scancodeLalt
  · rw [if_pos modifier, key_chars_silent (Or.inr (Or.inr (silent.mpr modifier)))]
    rfl
  · rw [if_neg modifier, keyChars, if_neg (not_or.mpr ⟨make, not_or.mpr
      ⟨extended, fun member => modifier (silent.mp member)⟩⟩)]
    simp only [scancode_to_ascii_eq keyboard scancode make]
    generalize tableEntry scancode _ = entry
    by_cases filled : entry ≠ 0
    · rw [if_pos filled, if_pos filled]
      rfl
    · rw [if_neg filled, if_neg filled]
      rfl

theorem handler_decodes (keyboard : KeyboardState) (scancode : UInt8) :
    Decodes keyboard scancode := by
  by_cases prefixed : scancode = scancodeExt
  · subst prefixed
    rfl
  · by_cases released : 0x80 ≤ scancode
    · exact break_code_decodes released prefixed
    · exact make_code_decodes released

end Handler

/-! ## The driver as a machine -/

/-- The characters that the handler passes to `kbd_buffer_push`: an empty buffer takes
every one of them. -/
def pushedBy (keyboard : KeyboardState) (scancode : UInt8) : List UInt8 :=
  (keyboardIrqHandler { keyboard with kbdReadPos := 0, kbdWritePos := 0, accepted := [] }
    scancode).accepted

/-- The handler on a stream of scancodes, with the characters that it pushes. -/
def driver : Transducer KeyboardState UInt8 UInt8 := ⟨keyboardIrqHandler, pushedBy⟩

theorem push_modifiers (keyboard : KeyboardState) (c : UInt8) :
    modifiersOf (kbdBufferPush keyboard c) = modifiersOf keyboard := by
  rw [kbdBufferPush]
  split
  · rfl
  · rfl

theorem key_chars_cases (modifiers : Modifiers) (scancode : UInt8) :
    keyChars modifiers scancode = [] ∨ ∃ c, keyChars modifiers scancode = [c] := by
  rw [keyChars]
  split
  · exact Or.inl rfl
  · simp only
    split
    · exact Or.inr ⟨_, rfl⟩
    · exact Or.inl rfl

/-- The driver acts on its flags as the decoder does. -/
theorem driver_projects : Projects driver decoder modifiersOf := by
  constructor
  · intro keyboard scancode
    have run : driver.next keyboard scancode = keyboardIrqHandler keyboard scancode := rfl
    rw [run, handler_decodes]
    rcases key_chars_cases (modifiersOf keyboard) scancode with none | ⟨c, one⟩
    · rw [none]
      rfl
    · rw [one, List.foldl_cons, List.foldl_nil, push_modifiers]
      rfl
  · intro keyboard scancode
    have run : driver.emits keyboard scancode = pushedBy keyboard scancode := rfl
    rw [run, pushedBy, handler_decodes]
    have same : modifiersOf { keyboard with kbdReadPos := 0, kbdWritePos := 0, accepted := [] } =
        modifiersOf keyboard := rfl
    rw [same]
    rcases key_chars_cases (modifiersOf keyboard) scancode with none | ⟨c, one⟩
    · rw [none]
      exact none.symm
    · rw [one]
      exact one.symm

/-- Whatever the buffer holds, the handler pushes these characters. -/
theorem handler_pushes (keyboard : KeyboardState) (scancode : UInt8) :
    keyboardIrqHandler keyboard scancode =
      (pushedBy keyboard scancode).foldl kbdBufferPush
        (withModifiers keyboard (modifiersOf (keyboardIrqHandler keyboard scancode))) := by
  have next := driver_projects.next keyboard scancode
  have emits := driver_projects.emits keyboard scancode
  have flags : modifiersOf (keyboardIrqHandler keyboard scancode) =
      nextModifiers (modifiersOf keyboard) scancode := next
  have pushed : pushedBy keyboard scancode = keyChars (modifiersOf keyboard) scancode := emits
  rw [flags, pushed]
  exact handler_decodes keyboard scancode

/-! ## The key history -/

/-- The most recent of the two codes of a key is its make code. -/
def heldDown (make breakCode : UInt8) (seen : List UInt8) : Bool :=
  lastWriter (fun scancode => scancode == make || scancode == breakCode) seen == some make

def shiftHeld (seen : List UInt8) : Bool :=
  heldDown scancodeLshift breakLshift seen || heldDown scancodeRshift breakRshift seen

def capsOn (seen : List UInt8) : Bool := seen.count scancodeCaps % 2 == 1

def letterCode (scancode : UInt8) : Bool :=
  let entry := tableEntry scancode false
  'a'.toUInt8 ≤ entry && entry ≤ 'z'.toUInt8

/-- What a scancode should give behind the codes seen so far. -/
def referenceChars (seen : List UInt8) (scancode : UInt8) : List UInt8 :=
  if scancode < 0x80 ∧ scancode ∉ silentKeys then
    let shifted := if letterCode scancode then shiftHeld seen ^^ capsOn seen else shiftHeld seen
    let entry := tableEntry scancode shifted
    if entry ≠ 0 then [entry] else []
  else []

section History

theorem letter_scancode_eq : ∀ scancode : UInt8, isLetterScancode scancode = letterCode scancode :=
  byte_forall (by decide +kernel)

/-- Without a prefix each flag depends on the codes of its own key only. -/
theorem next_plain : ∀ scancode : UInt8, ∀ left right caps : Bool, scancode ≠ scancodeExt →
    nextModifiers ⟨left, right, caps, false⟩ scancode =
      ⟨if scancode = breakLshift then false else if scancode = scancodeLshift then true else left,
        if scancode = breakRshift then false else if scancode = scancodeRshift then true else right,
        if scancode = scancodeCaps then !caps else caps, false⟩ :=
  byte_forall (by decide +kernel)

theorem held_down_concat {make breakCode : UInt8} (differ : make ≠ breakCode)
    (seen : List UInt8) (scancode : UInt8) :
    heldDown make breakCode (seen ++ [scancode]) =
      if scancode = breakCode then false else if scancode = make then true
        else heldDown make breakCode seen := by
  rw [heldDown, last_writer_concat]
  by_cases released : scancode = breakCode
  · subst released
    have other : (some scancode == some make) = false :=
      beq_eq_false_iff_ne.mpr fun same => differ (Option.some.inj same).symm
    rw [if_pos rfl, if_pos (by rw [beq_self_eq_true, Bool.or_true]), other]
  · rw [if_neg released]
    by_cases pressed : scancode = make
    · subst pressed
      rw [if_pos rfl, if_pos (by rw [beq_self_eq_true, Bool.true_or]), beq_self_eq_true]
    · rw [if_neg pressed, if_neg]
      · rfl
      · rw [beq_eq_false_iff_ne.mpr pressed, beq_eq_false_iff_ne.mpr released]
        decide

theorem caps_on_concat (seen : List UInt8) (scancode : UInt8) :
    capsOn (seen ++ [scancode]) =
      if scancode = scancodeCaps then !capsOn seen else capsOn seen := by
  rw [capsOn, capsOn, List.count_append, List.count_singleton]
  by_cases caps : scancode = scancodeCaps
  · rw [if_pos caps, if_pos (beq_iff_eq.mpr caps)]
    have parity : (seen.count scancodeCaps + 1) % 2 = 1 - seen.count scancodeCaps % 2 := by omega
    rw [parity]
    rcases Nat.mod_two_eq_zero_or_one (seen.count scancodeCaps) with even | odd
    · rw [even]
      rfl
    · rw [odd]
      rfl
  · rw [if_neg caps, if_neg (fun same => caps (beq_iff_eq.mp same))]
    rfl

theorem modifiers_by_history (stream : List UInt8) (plain : scancodeExt ∉ stream) :
    run decoder ⟨false, false, false, false⟩ stream =
      ⟨heldDown scancodeLshift breakLshift stream, heldDown scancodeRshift breakRshift stream,
        capsOn stream, false⟩ := by
  induction stream using List.reverseRecOn with
  | nil => rfl
  | append_singleton seen scancode ih =>
      rw [List.mem_append, List.mem_singleton, not_or] at plain
      have next : run decoder ⟨false, false, false, false⟩ (seen ++ [scancode]) =
          nextModifiers (run decoder ⟨false, false, false, false⟩ seen) scancode :=
        run_concat decoder _ seen scancode
      rw [next, ih plain.1, next_plain _ _ _ _ (fun same => plain.2 same.symm),
        held_down_concat (by decide), held_down_concat (by decide), caps_on_concat]

theorem key_chars_reference (seen : List UInt8) (scancode : UInt8) :
    keyChars ⟨heldDown scancodeLshift breakLshift seen, heldDown scancodeRshift breakRshift seen,
        capsOn seen, false⟩ scancode = referenceChars seen scancode := by
  rw [keyChars, referenceChars, usesShiftTable, letter_scancode_eq]
  by_cases sounding : scancode < 0x80 ∧ scancode ∉ silentKeys
  · rw [if_pos sounding, if_neg]
    · rfl
    · rintro (broken | behindPrefix | silent)
      · exact UInt8.not_le.mpr sounding.1 broken
      · cases behindPrefix
      · exact sounding.2 silent
  · rw [if_neg sounding, if_pos]
    by_cases make : scancode < 0x80
    · exact Or.inr (Or.inr (not_not.mp fun sounds => sounding ⟨make, sounds⟩))
    · exact Or.inl (UInt8.not_lt.mp make)

/-- From `keyboard_init` on and without prefixes: one character for each make code that is not
a modifier and has an entry, by the shift keys that are down and by Caps Lock. -/
theorem decoding_by_history (before : KeyboardState) (stream : List UInt8)
    (plain : scancodeExt ∉ stream) :
    outputs driver (keyboardInit before) stream =
      (stream.mapIdx fun index scancode =>
        referenceChars (stream.take index) scancode).flatten := by
  have initial : modifiersOf (keyboardInit before) = ⟨false, false, false, false⟩ := rfl
  rw [project_outputs driver_projects, initial, outputs_by_prefix]
  congr 1
  rw [List.mapIdx_eq_mapIdx_iff]
  intro index inside
  have plainPrefix : scancodeExt ∉ stream.take index :=
    fun member => plain (List.mem_of_mem_take member)
  rw [modifiers_by_history _ plainPrefix]
  exact key_chars_reference _ _

end History

def staleKeyboard : KeyboardState := ⟨fun _ => 0, 7, 9, true, false, true, true, []⟩

/-- Both shift keys overlap around two letters and a digit, then Caps Lock and a letter. -/
def overlappingShifts : List UInt8 :=
  [0x2A, 0x1E, 0x36, 0xAA, 0x30, 0x02, 0xB6, 0x02, 0x3A, 0xBA, 0x2E]

/-- The characters are `AB!1C`. -/
theorem decoding_overlapping_shifts :
    outputs driver (keyboardInit staleKeyboard) overlappingShifts =
      ['A', 'B', '!', '1', 'C'].map Char.toUInt8 :=
  (decoding_by_history staleKeyboard overlappingShifts (by decide)).trans (by decide +kernel)

end SimplyOs.KeyboardDecoding
