import Mathlib.Data.List.Infix
import SimplyOs.KeyboardDecoding

/-!
# Streams that should mean the same

Two laws compare the driver on two streams. Codes of extended keys should be ignored:
the break-code branch does not look at the prefix, so the second byte of an extended
code may release a shift key. A held modifier key repeats its make code: the shift
flags are set again, but Caps Lock is toggled by every repetition.
-/

namespace SimplyOs.KeyboardStreams

open SimplyOs.Keyboard SimplyOs.KeyboardDecoding SimplyOs.Library.StreamMachine

set_option autoImplicit false

/-! ## Extended codes -/

/-- A byte of the stream, or the pair of a prefix and `code` that is inserted. -/
inductive Stroke where
  | byte (scancode : UInt8)
  | pair (code : UInt8)
  deriving DecidableEq, Repr

def plainBytes : Stroke → List UInt8
  | .byte scancode => [scancode]
  | .pair _ => []

def fullBytes : Stroke → List UInt8
  | .byte scancode => [scancode]
  | .pair code => [scancodeExt, code]

def plainStream (strokes : List Stroke) : List UInt8 := strokes.flatMap plainBytes

def fullStream (strokes : List Stroke) : List UInt8 := strokes.flatMap fullBytes

/-- The second byte of a pair is no prefix, and no pair stands directly behind one. -/
def WellPlaced (strokes : List Stroke) : Prop :=
  ∀ front code, front ++ [.pair code] <+: strokes →
    code ≠ scancodeExt ∧ (fullStream front).getLast? ≠ some scancodeExt

/-- Two streams leave the same shift and lock flags and push the same characters. -/
structure SameDecoding (keyboard : KeyboardState) (one other : List UInt8) : Prop where
  leftShift : (run driver keyboard other).leftShift = (run driver keyboard one).leftShift
  rightShift : (run driver keyboard other).rightShift = (run driver keyboard one).rightShift
  capsLock : (run driver keyboard other).capsLock = (run driver keyboard one).capsLock
  pushed : outputs driver keyboard other = outputs driver keyboard one

/-- The pair does not end in the break code of a shift key that is down. -/
def Harmless (modifiers : Modifiers) (code : UInt8) : Prop :=
  (code = breakLshift → modifiers.leftShift = false) ∧
    (code = breakRshift → modifiers.rightShift = false)

section Extended

theorem next_extended : ∀ scancode : UInt8, ∀ left right caps extended : Bool,
    (nextModifiers ⟨left, right, caps, extended⟩ scancode).extended =
      (scancode == scancodeExt) :=
  byte_forall (by decide +kernel)

theorem pair_flags : ∀ code : UInt8, ∀ left right caps : Bool, code ≠ scancodeExt →
    nextModifiers (nextModifiers ⟨left, right, caps, false⟩ scancodeExt) code =
      ⟨if code = breakLshift then false else left, if code = breakRshift then false else right,
        caps, false⟩ :=
  byte_forall (by decide +kernel)

variable {modifiers : Modifiers} {keyboard : KeyboardState} {front : List Stroke} {code : UInt8}

theorem pair_chars (modifiers : Modifiers) (code : UInt8) :
    outputs decoder modifiers [scancodeExt, code] = [] := by
  have first : keyChars modifiers scancodeExt = [] := key_chars_silent (Or.inl (by decide))
  have prefixed : (nextModifiers modifiers scancodeExt).extended = true := rfl
  have second : keyChars (nextModifiers modifiers scancodeExt) code = [] :=
    key_chars_silent (Or.inr (Or.inl prefixed))
  have all : outputs decoder modifiers [scancodeExt, code] =
      keyChars modifiers scancodeExt ++
        (keyChars (nextModifiers modifiers scancodeExt) code ++ []) := rfl
  rw [all, first, second]
  rfl

theorem cleared_iff (released : Prop) [Decidable released] (flag : Bool) :
    (if released then false else flag) = flag ↔ (released → flag = false) := by
  by_cases cleared : released
  · rw [if_pos cleared]
    exact ⟨fun same _ => same.symm, fun down => (down cleared).symm⟩
  · rw [if_neg cleared]
    exact iff_of_true rfl fun impossible => absurd impossible cleared

/-- A pair that is not behind a prefix leaves the flags as they are when it is harmless. -/
theorem pair_harmless_iff (other : code ≠ scancodeExt) (plain : modifiers.extended = false) :
    run decoder modifiers [scancodeExt, code] = modifiers ↔ Harmless modifiers code := by
  obtain ⟨left, right, caps, extended⟩ := modifiers
  simp only at plain
  subst plain
  have flags : run decoder ⟨left, right, caps, false⟩ [scancodeExt, code] =
      ⟨if code = breakLshift then false else left, if code = breakRshift then false else right,
        caps, false⟩ := pair_flags code left right caps other
  rw [flags, Modifiers.mk.injEq, Harmless, cleared_iff, cleared_iff]
  simp only [and_true]

theorem run_extended (plain : modifiers.extended = false) (stream : List UInt8) :
    (run decoder modifiers stream).extended = (stream.getLast? == some scancodeExt) := by
  induction stream using List.reverseRecOn with
  | nil => exact plain
  | append_singleton stream scancode _ =>
      rw [run_concat, List.getLast?_concat]
      exact next_extended scancode _ _ _ _

theorem full_stream_concat (front : List Stroke) (stroke : Stroke) :
    fullStream (front ++ [stroke]) = fullStream front ++ fullBytes stroke := by
  rw [fullStream, List.flatMap_append, List.flatMap_singleton]
  rfl

theorem plain_stream_concat (front : List Stroke) (stroke : Stroke) :
    plainStream (front ++ [stroke]) = plainStream front ++ plainBytes stroke := by
  rw [plainStream, List.flatMap_append, List.flatMap_singleton]
  rfl

/-- All flags agree, the prefix included, and so do the characters. -/
structure Agree (modifiers : Modifiers) (front : List Stroke) : Prop where
  flags : run decoder modifiers (fullStream front) = run decoder modifiers (plainStream front)
  chars : outputs decoder modifiers (fullStream front) =
    outputs decoder modifiers (plainStream front)

theorem agree_byte (agree : Agree modifiers front) (scancode : UInt8) :
    Agree modifiers (front ++ [.byte scancode]) := by
  have full : fullStream (front ++ [.byte scancode]) = fullStream front ++ [scancode] :=
    full_stream_concat front _
  have plain : plainStream (front ++ [.byte scancode]) = plainStream front ++ [scancode] :=
    plain_stream_concat front _
  constructor
  · rw [full, plain, run_concat, run_concat, agree.flags]
  · rw [full, plain, outputs_concat, outputs_concat, agree.flags, agree.chars]

/-- After a pair the characters still agree, and the flags do when the pair was harmless. -/
theorem agree_pair_iff (agree : Agree modifiers front) (other : code ≠ scancodeExt)
    (plain : (run decoder modifiers (fullStream front)).extended = false) :
    Agree modifiers (front ++ [.pair code]) ↔
      Harmless (run decoder modifiers (fullStream front)) code := by
  have full : fullStream (front ++ [.pair code]) = fullStream front ++ [scancodeExt, code] :=
    full_stream_concat front _
  have same : plainStream (front ++ [.pair code]) = plainStream front :=
    (plain_stream_concat front _).trans (List.append_nil _)
  rw [← pair_harmless_iff other plain]
  constructor
  · intro after
    have flags := after.flags
    rw [full, same, run_append, ← agree.flags] at flags
    exact flags
  · intro unchanged
    constructor
    · rw [full, same, run_append, unchanged, agree.flags]
    · rw [full, same, outputs_append, pair_chars, List.append_nil, agree.chars]

theorem same_decoding_of_agree (agree : Agree (modifiersOf keyboard) front) :
    SameDecoding keyboard (plainStream front) (fullStream front) := by
  have flags := agree.flags
  rw [← project_run driver_projects, ← project_run driver_projects] at flags
  refine ⟨congrArg Modifiers.leftShift flags, congrArg Modifiers.rightShift flags,
    congrArg Modifiers.capsLock flags, ?_⟩
  rw [project_outputs driver_projects, project_outputs driver_projects]
  exact agree.chars

/-- The prefix flag is equal as well where a pair has just been inserted. -/
theorem agree_of_same_decoding (agree : Agree (modifiersOf keyboard) front)
    (other : code ≠ scancodeExt)
    (plain : (run decoder (modifiersOf keyboard) (fullStream front)).extended = false)
    (same : SameDecoding keyboard (plainStream (front ++ [.pair code]))
      (fullStream (front ++ [.pair code]))) :
    Agree (modifiersOf keyboard) (front ++ [.pair code]) := by
  have full : fullStream (front ++ [.pair code]) = fullStream front ++ [scancodeExt, code] :=
    full_stream_concat front _
  have kept : plainStream (front ++ [.pair code]) = plainStream front :=
    (plain_stream_concat front _).trans (List.append_nil _)
  have chars := same.pushed
  rw [project_outputs driver_projects, project_outputs driver_projects] at chars
  refine ⟨?_, chars⟩
  have left := same.leftShift
  have right := same.rightShift
  have caps := same.capsLock
  have flags (stream : List UInt8) := project_run driver_projects keyboard stream
  have extended : (run decoder (modifiersOf keyboard)
      (fullStream (front ++ [.pair code]))).extended =
      (run decoder (modifiersOf keyboard) (plainStream (front ++ [.pair code]))).extended := by
    rw [kept, ← agree.flags, plain, full, run_append]
    exact (next_extended code _ _ _ _).trans (beq_eq_false_iff_ne.mpr other)
  rw [← flags, ← flags] at extended ⊢
  generalize run driver keyboard (fullStream (front ++ [.pair code])) = one at *
  generalize run driver keyboard (plainStream (front ++ [.pair code])) = two at *
  rw [modifiersOf, modifiersOf, left, right, caps]
  exact congrArg _ extended

/-- From `keyboard_init` on: the driver decodes a stream and the same stream with inserted
pairs alike, up to every point of the stream, exactly when no pair releases a shift key that
is down. -/
theorem extended_codes_ignored_iff (before : KeyboardState) {strokes : List Stroke}
    (placed : WellPlaced strokes) :
    (∀ front, front <+: strokes →
        SameDecoding (keyboardInit before) (plainStream front) (fullStream front)) ↔
      ∀ front code, front ++ [.pair code] <+: strokes →
        Harmless (modifiersOf (run driver (keyboardInit before) (fullStream front))) code := by
  have initial : modifiersOf (keyboardInit before) = ⟨false, false, false, false⟩ := rfl
  have unprefixed (front : List Stroke) (code : UInt8) (met : front ++ [.pair code] <+: strokes) :
      (run decoder (modifiersOf (keyboardInit before)) (fullStream front)).extended = false := by
    rw [run_extended (by rw [initial])]
    exact beq_eq_false_iff_ne.mpr (placed front code met).2
  have empty : Agree (modifiersOf (keyboardInit before)) [] := ⟨rfl, rfl⟩
  simp only [project_run driver_projects]
  constructor
  · intro same
    have agree (front : List Stroke) (met : front <+: strokes) :
        Agree (modifiersOf (keyboardInit before)) front := by
      induction front using List.reverseRecOn with
      | nil => exact empty
      | append_singleton front stroke ih =>
          have soFar := ih ((List.prefix_append front _).trans met)
          cases stroke with
          | byte scancode => exact agree_byte soFar scancode
          | pair code =>
              exact agree_of_same_decoding soFar (placed front code met).1
                (unprefixed front code met) (same _ met)
    intro front code met
    have soFar := agree front ((List.prefix_append front _).trans met)
    exact (agree_pair_iff soFar (placed front code met).1 (unprefixed front code met)).mp
      (agree _ met)
  · intro harmless front met
    apply same_decoding_of_agree
    induction front using List.reverseRecOn with
    | nil => exact empty
    | append_singleton front stroke ih =>
        have soFar := ih ((List.prefix_append front _).trans met)
        cases stroke with
        | byte scancode => exact agree_byte soFar scancode
        | pair code =>
            exact (agree_pair_iff soFar (placed front code met).1
              (unprefixed front code met)).mpr (harmless front code met)

end Extended

/-- The test at the last stroke of a stream. -/
def lastPairPlaced (strokes : List Stroke) : Bool :=
  match strokes.getLast? with
  | some (.pair code) =>
      code != scancodeExt && (fullStream strokes.dropLast).getLast? != some scancodeExt
  | _ => true

theorem well_placed_iff (strokes : List Stroke) :
    WellPlaced strokes ↔ ∀ whole ∈ strokes.inits, lastPairPlaced whole = true := by
  constructor
  · intro placed whole member
    have met := (List.mem_inits whole strokes).mp member
    rcases List.eq_nil_or_concat whole with rfl | ⟨front, stroke, rfl⟩
    · rfl
    · cases stroke with
      | byte scancode => rw [lastPairPlaced, List.concat_eq_append, List.getLast?_concat]
      | pair code =>
          rw [List.concat_eq_append] at met ⊢
          obtain ⟨other, free⟩ := placed front code met
          rw [lastPairPlaced, List.getLast?_concat, List.dropLast_concat]
          simp only [bne_iff_ne.mpr other, bne_iff_ne.mpr free, Bool.and_self]
  · intro all front code met
    have placed := all _ ((List.mem_inits _ strokes).mpr met)
    rw [lastPairPlaced, List.getLast?_concat, List.dropLast_concat] at placed
    simp only [Bool.and_eq_true, bne_iff_ne] at placed
    exact placed

instance (strokes : List Stroke) : Decidable (WellPlaced strokes) :=
  decidable_of_iff _ (well_placed_iff strokes).symm

def arrowStrokes : List Stroke := [.byte 0x1E, .pair 0x48, .pair 0xC8, .byte 0x30]

theorem extended_codes_ignored_arrow :
    SameDecoding (keyboardInit staleKeyboard) (plainStream arrowStrokes)
      (fullStream arrowStrokes) := by
  apply (extended_codes_ignored_iff staleKeyboard (by decide : WellPlaced arrowStrokes)).mpr
  · intro front code met
    have member := met.subset (List.mem_append_right front List.mem_cons_self)
    simp only [arrowStrokes, List.mem_cons, List.not_mem_nil, or_false, reduceCtorEq, false_or,
      Stroke.pair.injEq] at member
    constructor
    · rintro rfl
      exact absurd member (by decide)
    · rintro rfl
      exact absurd member (by decide)
  · exact List.prefix_rfl

/-- With a shift key down the keyboard sends `0xE0 0xAA` in front of an arrow key; the letter
behind it is then a small one. -/
theorem extended_code_releases_shift :
    WellPlaced [.byte 0x2A, .pair 0xAA, .pair 0x48, .byte 0x1E] ∧
      ¬SameDecoding (keyboardInit staleKeyboard)
        (plainStream [.byte 0x2A, .pair 0xAA, .pair 0x48, .byte 0x1E])
        (fullStream [.byte 0x2A, .pair 0xAA, .pair 0x48, .byte 0x1E]) := by
  refine ⟨by decide, fun same => ?_⟩
  exact absurd same.pushed (by decide +kernel)

/-! ## Repeated make codes -/

def IsModifier (scancode : UInt8) : Prop :=
  scancode = scancodeLshift ∨ scancode = scancodeRshift ∨ scancode = scancodeCaps

section Repeats

variable {scancode : UInt8} {modifiers : Modifiers} {keyboard : KeyboardState}

/-- Caps Lock is released by the next press. -/
theorem caps_toggles : ∀ left right caps : Bool,
    nextModifiers (nextModifiers ⟨left, right, caps, false⟩ scancodeCaps) scancodeCaps =
      ⟨left, right, caps, false⟩ := by decide

theorem caps_changes : ∀ left right caps : Bool,
    nextModifiers ⟨left, right, caps, false⟩ scancodeCaps ≠ ⟨left, right, caps, false⟩ := by decide

theorem shift_repeats : ∀ scancode : UInt8, ∀ left right caps : Bool,
    scancode = scancodeLshift ∨ scancode = scancodeRshift →
      nextModifiers (nextModifiers ⟨left, right, caps, false⟩ scancode) scancode =
        nextModifiers ⟨left, right, caps, false⟩ scancode :=
  byte_forall (by decide +kernel)

theorem modifier_silent (modifier : IsModifier scancode) (modifiers : Modifiers) :
    keyChars modifiers scancode = [] := by
  apply key_chars_silent (Or.inr (Or.inr _))
  rcases modifier with rfl | rfl | rfl
  · decide
  · decide
  · decide

theorem repeat_flags_iff (modifier : IsModifier scancode) (plain : modifiers.extended = false)
    {count : Nat} (positive : 1 ≤ count) :
    run decoder modifiers (List.replicate count scancode) = nextModifiers modifiers scancode ↔
      (scancode = scancodeCaps → count % 2 = 1) := by
  obtain ⟨left, right, caps, extended⟩ := modifiers
  simp only at plain
  subst plain
  obtain ⟨more, rfl⟩ : ∃ more, count = more + 1 := ⟨count - 1, by omega⟩
  by_cases locks : scancode = scancodeCaps
  · subst locks
    rw [@run_replicate_toggle _ _ _ decoder ⟨left, right, caps, false⟩ scancodeCaps
      (caps_toggles left right caps)]
    by_cases odd : (more + 1) % 2 = 1
    · rw [if_pos odd]
      exact iff_of_true rfl fun _ => odd
    · rw [if_neg odd]
      exact iff_of_false (caps_changes left right caps).symm fun parity => odd (parity rfl)
  · have shift : scancode = scancodeLshift ∨ scancode = scancodeRshift := by
      rcases modifier with isLeft | isRight | isCaps
      · exact Or.inl isLeft
      · exact Or.inr isRight
      · exact absurd isCaps locks
    rw [@run_replicate_same _ _ _ decoder ⟨left, right, caps, false⟩ scancode
      (shift_repeats scancode left right caps shift)]
    exact iff_of_true rfl fun isCaps => absurd isCaps locks

/-- The two streams leave the same flags, and whatever follows them is decoded alike. -/
structure SameLater (keyboard : KeyboardState) (one other : List UInt8) : Prop where
  flags : modifiersOf (run driver keyboard other) = modifiersOf (run driver keyboard one)
  pushed : ∀ back, outputs driver keyboard (other ++ back) = outputs driver keyboard (one ++ back)

/-- From `keyboard_init` on: `count` copies of the make code of a modifier key are as good as
one, exactly for the shift keys and for an odd number of copies. -/
theorem repeat_harmless_iff (before : KeyboardState) (front : List UInt8) (scancode : UInt8)
    (count : Nat) (modifier : IsModifier scancode)
    (unprefixed : front.getLast? ≠ some scancodeExt) (positive : 1 ≤ count) :
    SameLater (keyboardInit before) (front ++ [scancode])
        (front ++ List.replicate count scancode) ↔
      (scancode = scancodeCaps → count % 2 = 1) := by
  have initial : modifiersOf (keyboardInit before) = ⟨false, false, false, false⟩ := rfl
  have plain : (run decoder (modifiersOf (keyboardInit before)) front).extended = false := by
    rw [run_extended (by rw [initial])]
    exact beq_eq_false_iff_ne.mpr unprefixed
  rw [← repeat_flags_iff modifier plain positive]
  constructor
  · intro same
    have flags := same.flags
    rw [project_run driver_projects, project_run driver_projects, run_append, run_concat] at flags
    exact flags
  · intro flags
    have copies : run decoder (modifiersOf (keyboardInit before))
        (front ++ List.replicate count scancode) =
        run decoder (modifiersOf (keyboardInit before)) (front ++ [scancode]) := by
      rw [run_append, run_concat]
      exact flags
    have silent (times : Nat) :
        outputs decoder (run decoder (modifiersOf (keyboardInit before)) front)
          (List.replicate times scancode) = [] :=
      outputs_replicate_silent decoder _ (modifier_silent modifier) times
    constructor
    · rw [project_run driver_projects, project_run driver_projects, copies]
    · intro back
      rw [project_outputs driver_projects, project_outputs driver_projects, outputs_append,
        outputs_append _ _ (front ++ [scancode]), copies, outputs_append, silent count,
        outputs_append _ _ front [scancode]]
      have once := silent 1
      rw [List.replicate_one] at once
      rw [once]

end Repeats

/-- A shift key is held over a letter, with a prefixed key in front of it. -/
theorem repeat_harmless_shift :
    SameLater (keyboardInit staleKeyboard) ([0xE0, 0x48, 0xE0, 0xC8] ++ [0x2A])
      ([0xE0, 0x48, 0xE0, 0xC8] ++ List.replicate 4 0x2A) :=
  (repeat_harmless_iff staleKeyboard [0xE0, 0x48, 0xE0, 0xC8] 0x2A 4 (Or.inl rfl) (by decide)
    (by decide)).mpr (by decide)

/-- Caps Lock is held until its code has come twice. -/
theorem repeat_toggles_caps :
    ¬SameLater (keyboardInit staleKeyboard) ([] ++ [scancodeCaps])
      ([] ++ List.replicate 2 scancodeCaps) := by
  intro same
  exact absurd (same.pushed [0x1E]) (by decide +kernel)

end SimplyOs.KeyboardStreams
