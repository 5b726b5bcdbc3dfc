import SimplyOs.PrintfNumerals

/-!
# What is printed

The reference reads the format one conversion or byte at a time. The scanner takes
literal runs as a whole, enters them one byte later for a doubled percent sign and
leaves an unknown letter to the next round; each of its rounds prints what the
reference gives for the bytes that it consumes.
-/

namespace SimplyOs.PrintfOutput

open SimplyOs.Word SimplyOs.Printf SimplyOs.PrintfNumerals

set_option autoImplicit false

/-! ## The reference -/

inductive Conversion where
  | char
  | string
  | unsigned
  | signed
  | hex
  | pointer

def conversionOf (letter : UInt8) : Option Conversion :=
  if letter = 'c'.toUInt8 then some .char
  else if letter = 's'.toUInt8 then some .string
  else if letter = 'u'.toUInt8 then some .unsigned
  else if letter = 'd'.toUInt8 then some .signed
  else if letter = 'x'.toUInt8 then some .hex
  else if letter = 'p'.toUInt8 then some .pointer
  else none

/-- The text of the first argument and the arguments behind it; `none` when there is
no argument of the kind. -/
def convert : Conversion → List Argument → Option (List UInt8 × List Argument)
  | .char, .word value :: parameters => some ([UInt8.ofNat value.toNat], parameters)
  | .string, .string str :: parameters => some (str.bytes, parameters)
  | .unsigned, .word value :: parameters => some (numeral 10 value.toNat, parameters)
  | .signed, .word value :: parameters =>
      some (signedNumeral value.toBitVec.toInt, parameters)
  | .hex, .word value :: parameters => some (numeral 16 value.toNat, parameters)
  | .pointer, .word value :: parameters =>
      some (0x30 :: 0x78 :: numeral 16 value.toNat, parameters)
  | _, _ => none

/-- The text of a format, when the arguments match its conversions. -/
def referenceFormat : List UInt8 → List Argument → Option (List UInt8)
  | [], _ => some []
  | [byte], _ => some [byte]
  | byte :: letter :: rest, parameters =>
      if byte ≠ percent then (referenceFormat (letter :: rest) parameters).map (byte :: ·)
      else if letter = percent then (referenceFormat rest parameters).map (percent :: ·)
      else
        match conversionOf letter with
        | none => (referenceFormat (letter :: rest) parameters).map (percent :: ·)
        | some conversion => do
            let (piece, parameters) ← convert conversion parameters
            let output ← referenceFormat rest parameters
            some (piece ++ output)

theorem reference_literal {run behind : List UInt8} (plain : percent ∉ run)
    (parameters : List Argument) :
    referenceFormat (run ++ behind) parameters =
      (referenceFormat behind parameters).map (run ++ ·) := by
  induction run with
  | nil => simp only [List.nil_append, Option.map_id']
  | cons byte run ih =>
      rw [List.mem_cons, not_or] at plain
      have other : byte ≠ percent := fun same => plain.1 same.symm
      have first : referenceFormat (byte :: (run ++ behind)) parameters =
          (referenceFormat (run ++ behind) parameters).map (byte :: ·) := by
        cases run ++ behind with
        | nil => rfl
        | cons letter rest => rw [referenceFormat, if_pos other]
      rw [List.cons_append, first, ih plain.2, Option.map_map]
      rfl

/-! ## Rounds -/

/-- What a round can come to; `bytes` is the rest of the format in front of its NUL. -/
inductive Proceeds (bytes : List UInt8) : Except Fault Progress → Prop where
  | badArgument : Proceeds bytes (.error .badArgument)
  | overflow : Proceeds bytes (.error .overflow)
  | stop (result : Int) (output : List UInt8) : Proceeds bytes (.ok (.stop result output))
  | next (behind : List UInt8) (state : PrintfState) (noNul : 0 ∉ behind)
      (shorter : behind.length < bytes.length) :
      Proceeds bytes (.ok (.next (behind ++ [0]) state))

def Prints (state : PrintfState) (format piece : List UInt8) (parameters : List Argument)
    (result : Except Fault Progress) : Prop :=
  ∃ after, result = .ok (.next format after) ∧ after.output = state.output ++ piece ∧
    after.parameters = parameters ∧ after.written ≤ after.output.length

structure Fits (state : PrintfState) (piece : List UInt8) : Prop where
  counted : state.written ≤ state.output.length
  room : state.output.length + piece.length ≤ intMax

section Rounds

variable {state : PrintfState} {bytes behind piece : List UInt8} {parameters : List Argument}
  {stack : CharBuffer} {amount : Nat}

theorem finish_print_proceeds (noNul : 0 ∉ behind) (shorter : behind.length < bytes.length)
    (written : Nat) (printed : Bool × List UInt8) :
    Proceeds bytes (finishPrint (behind ++ [0]) parameters written amount printed) := by
  obtain ⟨ok, output⟩ := printed
  cases ok with
  | false => exact .stop (-1) output
  | true =>
      unfold finishPrint
      simp only [Bool.not_true, Bool.false_eq_true, if_false]
      split
      · exact .overflow
      · exact .next behind _ noNul shorter

theorem finish_print_prints (fits : Fits state piece) (format : List UInt8)
    (counted : amount ≤ piece.length) :
    Prints state format piece parameters
      (finishPrint format parameters state.written amount (true, state.output ++ piece)) := by
  have before := fits.counted
  have room := fits.room
  unfold finishPrint
  simp only [Bool.not_true, Bool.false_eq_true, if_false]
  rw [if_neg (by omega)]
  refine ⟨_, rfl, rfl, rfl, ?_⟩
  simp only [List.length_append]
  omega

/-- A round for a conversion: it goes on or stops, and prints the text of the reference. -/
structure Converts (bytes behind : List UInt8) (state : PrintfState) (conversion : Conversion)
    (result : Except Fault Progress) : Prop where
  proceeds : Proceeds bytes result
  prints : ∀ piece parameters, convert conversion state.parameters = some (piece, parameters) →
    Fits state piece → Prints state (behind ++ [0]) piece parameters result

theorem word_converts {conversion : Conversion} (text : UInt32 → List UInt8)
    {result : Except Fault Progress}
    (converted : ∀ value rest, convert conversion (.word value :: rest) = some (text value, rest))
    (refused : ∀ str rest, convert conversion (.string str :: rest) = none)
    (missing : convert conversion [] = none)
    (invalid : vaWord state.parameters = .error .badArgument → result = .error .badArgument)
    (proceeds : ∀ value rest, vaWord state.parameters = .ok (value, rest) → Proceeds bytes result)
    (prints : ∀ value rest, vaWord state.parameters = .ok (value, rest) →
      Fits state (text value) → Prints state (behind ++ [0]) (text value) rest result) :
    Converts bytes behind state conversion result := by
  cases given : state.parameters with
  | nil =>
      rw [given] at invalid
      rw [invalid rfl]
      refine ⟨.badArgument, fun piece parameters known => ?_⟩
      rw [given, missing] at known
      cases known
  | cons argument rest =>
      cases argument with
      | word value =>
          have taken : vaWord state.parameters = .ok (value, rest) := by rw [given]; rfl
          refine ⟨proceeds value rest taken, fun piece parameters known fits => ?_⟩
          rw [given, converted] at known
          injection known with known
          injection known with text parameters
          subst text parameters
          exact prints value rest taken fits
      | string str =>
          rw [given] at invalid
          rw [invalid rfl]
          refine ⟨.badArgument, fun piece parameters known => ?_⟩
          rw [given, refused] at known
          cases known

/-! ### What the conversions come to -/

section Equations

variable {format : List UInt8} {value : UInt32} {rest : List Argument}

theorem printf_char_eq (taken : vaWord state.parameters = .ok (value, rest)) :
    printfChar format state =
      if intMax - state.written = 0 then .ok (.stop (-1) state.output)
      else finishPrint format rest state.written 1
        (true, state.output ++ [UInt8.ofNat value.toNat]) := by
  have printed : print state.output [UInt8.ofNat value.toNat] 1 =
      .ok (true, state.output ++ [UInt8.ofNat value.toNat]) := print_eq _ [_] []
  rw [printfChar, taken]
  simp only [bind, Except.bind, printed]

theorem printf_string_eq {str : CString} (given : state.parameters = .string str :: rest) :
    printfString format state =
      if intMax - state.written < str.bytes.length then .ok (.stop (-1) state.output)
      else finishPrint format rest state.written str.bytes.length
        (true, state.output ++ str.bytes) := by
  rw [printfString, given]
  simp only [vaString, bind, Except.bind, CString.object, strlen_eq [] str.noNul, print_eq]

theorem printf_unsigned_eq (taken : vaWord state.parameters = .ok (value, rest)) :
    printfUnsigned stack format state =
      finishPrint format rest state.written (numeral 10 value.toNat).length
        (true, state.output ++ numeral 10 value.toNat) := by
  rw [printfUnsigned, taken]
  simp only [bind, Except.bind]
  by_cases zero : value.toNat = 0
  · have printed : print state.output [0x30, 0] 1 = .ok (true, state.output ++ [0x30]) :=
      print_eq _ [0x30] [0]
    rw [if_pos zero, zero, numeral, Nat.toDigits_zero, printed]
    rfl
  · have str := digit_string_eq stack (by decide : 2 ≤ 10) decimal_digit_byte_eq zero
      (word_fits value).1
    have noNulDigit := numeral_no_nul (by decide : 2 ≤ 10) (by decide) value.toNat
    rw [if_neg zero, str]
    simp only [strlen_eq [] noNulDigit, print_eq]

theorem printf_signed_eq (taken : vaWord state.parameters = .ok (value, rest)) :
    printfSigned stack format state =
      finishPrint format rest state.written 1
        (true, state.output ++ signedNumeral value.toBitVec.toInt) := by
  rw [printfSigned, taken]
  simp only [bind, Except.bind, print_int_eq]

theorem printf_hex_eq (taken : vaWord state.parameters = .ok (value, rest)) :
    printfHex stack format state =
      finishPrint format rest state.written 1
        (true, state.output ++ numeral 16 value.toNat) := by
  rw [printfHex, taken]
  simp only [bind, Except.bind]
  rw [print_uint_eq stack _ (by decide) (by decide) (word_fits value).2]

theorem printf_pointer_eq (taken : vaWord state.parameters = .ok (value, rest)) :
    printfPointer stack format state =
      finishPrint format rest state.written 1
        (true, state.output ++ 0x30 :: 0x78 :: numeral 16 value.toNat) := by
  have printed : print state.output [0x30, 0x78, 0] 2 = .ok (true, state.output ++ [0x30, 0x78]) :=
    print_eq _ [0x30, 0x78] [0]
  rw [printfPointer, taken]
  simp only [bind, Except.bind, printed, Bool.not_true, Bool.false_eq_true, if_false]
  rw [print_uint_eq stack _ (by decide) (by decide) (word_fits value).2, List.append_assoc]
  rfl

theorem printf_percent_eq :
    printfPercent format state =
      if intMax - state.written = 0 then .ok (.stop (-1) state.output)
      else finishPrint format state.parameters state.written 1
        (true, state.output ++ [percent]) := by
  have printed : print state.output [percent, 0] 1 = .ok (true, state.output ++ [percent]) :=
    print_eq _ [percent] [0]
  rw [printfPercent, printed]
  rfl

end Equations

variable (noNul : 0 ∉ behind) (shorter : behind.length < bytes.length)

include noNul shorter

theorem printf_char_converts :
    Converts bytes behind state .char (printfChar (behind ++ [0]) state) := by
  apply word_converts (fun value => [UInt8.ofNat value.toNat]) (fun _ _ => rfl) (fun _ _ => rfl) rfl
  · intro taken
    rw [printfChar, taken]
    rfl
  · intro value rest taken
    rw [printf_char_eq taken]
    split
    · exact .stop (-1) state.output
    · exact finish_print_proceeds noNul shorter _ _
  · intro value rest taken fits
    have room := fits.room
    have counted := fits.counted
    rw [List.length_singleton] at room
    rw [printf_char_eq taken, if_neg (by omega)]
    exact finish_print_prints fits _ (Nat.le_refl _)

theorem printed_converts {conversion : Conversion} (text : UInt32 → List UInt8)
    (amount : UInt32 → Nat) {result : Except Fault Progress}
    (converted : ∀ value rest, convert conversion (.word value :: rest) = some (text value, rest))
    (refused : ∀ str rest, convert conversion (.string str :: rest) = none)
    (missing : convert conversion [] = none)
    (invalid : vaWord state.parameters = .error .badArgument → result = .error .badArgument)
    (counted : ∀ value, amount value ≤ (text value).length)
    (run : ∀ value rest, vaWord state.parameters = .ok (value, rest) →
      result = finishPrint (behind ++ [0]) rest state.written (amount value)
        (true, state.output ++ text value)) :
    Converts bytes behind state conversion result := by
  apply word_converts text converted refused missing invalid
  · intro value rest taken
    rw [run value rest taken]
    exact finish_print_proceeds noNul shorter _ _
  · intro value rest taken fits
    rw [run value rest taken]
    exact finish_print_prints fits _ (counted value)

theorem printf_unsigned_converts :
    Converts bytes behind state .unsigned (printfUnsigned stack (behind ++ [0]) state) := by
  apply printed_converts noNul shorter (fun value => numeral 10 value.toNat)
    (fun value => (numeral 10 value.toNat).length) (fun _ _ => rfl) (fun _ _ => rfl) rfl
  · intro taken
    rw [printfUnsigned, taken]
    rfl
  · exact fun _ => Nat.le_refl _
  · exact fun value rest taken => printf_unsigned_eq taken

theorem printf_signed_converts :
    Converts bytes behind state .signed (printfSigned stack (behind ++ [0]) state) := by
  apply printed_converts noNul shorter (fun value => signedNumeral value.toBitVec.toInt)
    (fun _ => 1) (fun _ _ => rfl) (fun _ _ => rfl) rfl
  · intro taken
    rw [printfSigned, taken]
    rfl
  · exact fun value => signed_numeral_length_pos _
  · exact fun value rest taken => printf_signed_eq taken

theorem printf_hex_converts :
    Converts bytes behind state .hex (printfHex stack (behind ++ [0]) state) := by
  apply printed_converts noNul shorter (fun value => numeral 16 value.toNat) (fun _ => 1)
    (fun _ _ => rfl) (fun _ _ => rfl) rfl
  · intro taken
    rw [printfHex, taken]
    rfl
  · exact fun value => numeral_length_pos 16 _
  · exact fun value rest taken => printf_hex_eq taken

theorem printf_pointer_converts :
    Converts bytes behind state .pointer (printfPointer stack (behind ++ [0]) state) := by
  apply printed_converts noNul shorter (fun value => 0x30 :: 0x78 :: numeral 16 value.toNat)
    (fun _ => 1) (fun _ _ => rfl) (fun _ _ => rfl) rfl
  · intro taken
    rw [printfPointer, taken]
    rfl
  · exact fun value => Nat.succ_le_succ (Nat.zero_le _)
  · exact fun value rest taken => printf_pointer_eq taken

theorem printf_string_converts :
    Converts bytes behind state .string (printfString (behind ++ [0]) state) := by
  cases given : state.parameters with
  | nil =>
      have invalid : printfString (behind ++ [0]) state = .error .badArgument := by
        rw [printfString, given]
        rfl
      rw [invalid]
      refine ⟨.badArgument, fun piece parameters known => ?_⟩
      rw [given] at known
      cases known
  | cons argument rest =>
      cases argument with
      | word value =>
          have invalid : printfString (behind ++ [0]) state = .error .badArgument := by
            rw [printfString, given]
            rfl
          rw [invalid]
          refine ⟨.badArgument, fun piece parameters known => ?_⟩
          rw [given] at known
          cases known
      | string str =>
          rw [printf_string_eq given]
          constructor
          · split
            · exact .stop (-1) state.output
            · exact finish_print_proceeds noNul shorter _ _
          · intro piece parameters known fits
            rw [given] at known
            injection known with known
            injection known with text parameters
            subst text parameters
            have room := fits.room
            have counted := fits.counted
            rw [if_neg (by omega)]
            exact finish_print_prints fits _ (Nat.le_refl _)

end Rounds

/-! ## Literal runs -/

section Literals

variable {state : PrintfState} {bytes run behind : List UInt8} {head : UInt8}

theorem split_literal (bytes : List UInt8) :
    ∃ run behind, bytes = run ++ behind ∧ percent ∉ run ∧
      (behind = [] ∨ ∃ tail, behind = percent :: tail) := by
  induction bytes with
  | nil => exact ⟨[], [], rfl, List.not_mem_nil, Or.inl rfl⟩
  | cons byte bytes ih =>
      by_cases sign : byte = percent
      · exact ⟨[], byte :: bytes, rfl, List.not_mem_nil, Or.inr ⟨bytes, by rw [sign]⟩⟩
      · obtain ⟨run, behind, split, plain, stop⟩ := ih
        refine ⟨byte :: run, behind, by rw [split]; rfl, ?_, stop⟩
        rw [List.mem_cons, not_or]
        exact ⟨fun same => sign same.symm, plain⟩

theorem literal_run_eq (plain : percent ∉ run) (noNul : 0 ∉ run)
    (stop : behind = [] ∨ ∃ tail, behind = percent :: tail) :
    literalRun (run ++ (behind ++ [0])) = .ok run.length := by
  induction run with
  | nil =>
      rcases stop with rfl | ⟨tail, rfl⟩
      · rfl
      · rfl
  | cons byte run ih =>
      rw [List.mem_cons, not_or] at plain noNul
      have more : byte ≠ 0 ∧ byte ≠ percent :=
        ⟨fun zero => noNul.1 zero.symm, fun same => plain.1 same.symm⟩
      rw [List.cons_append, literalRun, if_pos more, ih plain.2 noNul.2]
      rfl

theorem printf_literal_eq {format : List UInt8} {first : UInt8}
    (read : readAt format 0 = .ok first)
    (entered : (if first = percent then format.drop 1 else format) =
      head :: (run ++ (behind ++ [0])))
    (plain : percent ∉ run) (noNul : 0 ∉ run)
    (stop : behind = [] ∨ ∃ tail, behind = percent :: tail) :
    printfLiteral format state =
      if intMax - state.written < run.length + 1 then .ok (.stop (-1) state.output)
      else finishPrint (behind ++ [0]) state.parameters state.written (run.length + 1)
        (true, state.output ++ head :: run) := by
  have printed : print state.output (head :: (run ++ (behind ++ [0]))) (run.length + 1) =
      .ok (true, state.output ++ head :: run) := print_eq _ (head :: run) (behind ++ [0])
  have dropped : (head :: (run ++ (behind ++ [0]))).drop (run.length + 1) = behind ++ [0] := by
    rw [List.drop_succ_cons, List.drop_left]
  rw [printfLiteral, read]
  simp only [bind, Except.bind, entered]
  rw [List.drop_succ_cons, List.drop_zero, literal_run_eq plain noNul stop]
  simp only [printed, dropped]

end Literals

/-! ## The loop -/

/-- A round on the rest of a format in front of its NUL. -/
structure RoundSound (bytes : List UInt8) (state : PrintfState)
    (result : Except Fault Progress) : Prop where
  proceeds : Proceeds bytes result
  prints : ∀ output, referenceFormat bytes state.parameters = some output → Fits state output →
    ∃ piece later behind parameters, output = piece ++ later ∧ 0 ∉ behind ∧
      behind.length < bytes.length ∧ referenceFormat behind parameters = some later ∧
      Prints state (behind ++ [0]) piece parameters result

section Loop

variable {state : PrintfState} {bytes run behind : List UInt8} {head : UInt8} {stack : CharBuffer}

theorem fits_piece {piece later : List UInt8} (fits : Fits state (piece ++ later)) :
    Fits state piece := by
  have room := fits.room
  rw [List.length_append] at room
  exact ⟨fits.counted, by omega⟩

/-- A literal round is sound where the reference copies the same bytes. -/
theorem literal_round_sound {format : List UInt8} {first : UInt8}
    (read : readAt format 0 = .ok first)
    (entered : (if first = percent then format.drop 1 else format) =
      head :: (run ++ (behind ++ [0])))
    (plain : percent ∉ run) (noNulRun : 0 ∉ run) (noNul : 0 ∉ behind)
    (stop : behind = [] ∨ ∃ tail, behind = percent :: tail)
    (shorter : behind.length < bytes.length)
    (copied : referenceFormat bytes state.parameters =
      (referenceFormat behind state.parameters).map (head :: run ++ ·)) :
    RoundSound bytes state (printfLiteral format state) := by
  rw [printf_literal_eq read entered plain noNulRun stop]
  constructor
  · split
    · exact .stop (-1) state.output
    · exact finish_print_proceeds noNul shorter _ _
  · intro output known fits
    rw [copied] at known
    obtain ⟨later, rest, rfl⟩ := Option.map_eq_some_iff.mp known
    have fitsPiece := fits_piece fits
    have room := fitsPiece.room
    have counted := fitsPiece.counted
    rw [List.length_cons] at room
    rw [if_neg (by omega)]
    exact ⟨head :: run, later, behind, state.parameters, rfl, noNul, shorter, rest,
      finish_print_prints fitsPiece _ (Nat.le_refl _)⟩

theorem percent_round_sound {rest : List UInt8} (noNul : 0 ∉ rest)
    (copied : referenceFormat (percent :: rest) state.parameters =
      (referenceFormat rest state.parameters).map (percent :: ·)) :
    RoundSound (percent :: rest) state (printfPercent (rest ++ [0]) state) := by
  rw [printf_percent_eq]
  constructor
  · split
    · exact .stop (-1) state.output
    · exact finish_print_proceeds noNul (Nat.lt_succ_self _) _ _
  · intro output known fits
    rw [copied] at known
    obtain ⟨later, behind, rfl⟩ := Option.map_eq_some_iff.mp known
    have fitsPiece : Fits state [percent] := @fits_piece state [percent] later fits
    have room := fitsPiece.room
    have counted := fitsPiece.counted
    rw [List.length_singleton] at room
    rw [if_neg (by omega)]
    exact ⟨[percent], later, rest, state.parameters, rfl, noNul, Nat.lt_succ_self _, behind,
      finish_print_prints fitsPiece _ (Nat.le_refl _)⟩

/-- A conversion that is right for the reference's text makes a sound round. -/
theorem converts_round_sound {letter : UInt8} {rest : List UInt8} {conversion : Conversion}
    {result : Except Fault Progress} (other : letter ≠ percent) (noNul : 0 ∉ rest)
    (named : conversionOf letter = some conversion)
    (converts : Converts (percent :: letter :: rest) rest state conversion result) :
    RoundSound (percent :: letter :: rest) state result := by
  refine ⟨converts.proceeds, fun output known fits => ?_⟩
  rw [referenceFormat, if_neg (not_not.mpr rfl), if_neg other, named] at known
  obtain ⟨⟨piece, parameters⟩, converted, known⟩ := Option.bind_eq_some_iff.mp known
  obtain ⟨later, behind, known⟩ := Option.bind_eq_some_iff.mp known
  obtain rfl := Option.some.inj known
  exact ⟨piece, later, rest, parameters, rfl, noNul, by simp only [List.length_cons]; omega, behind,
    converts.prints piece parameters converted (fits_piece fits)⟩

def conversionRound (stack : CharBuffer) (format : List UInt8) (state : PrintfState) :
    Conversion → Except Fault Progress
  | .char => printfChar format state
  | .string => printfString format state
  | .unsigned => printfUnsigned stack format state
  | .signed => printfSigned stack format state
  | .hex => printfHex stack format state
  | .pointer => printfPointer stack format state

/-- The letters that are told apart are the conversions of the reference. -/
theorem printf_conversion_eq (letter : UInt8) (rest : List UInt8) :
    printfConversion stack (letter :: rest ++ [0]) state =
      match conversionOf letter with
      | none => printfPercent (letter :: rest ++ [0]) state
      | some conversion => conversionRound stack (rest ++ [0]) state conversion := by
  have read : readAt (letter :: rest ++ [0]) 0 = .ok letter := rfl
  have behind : (letter :: rest ++ [0]).drop 1 = rest ++ [0] := rfl
  rw [printfConversion, conversionOf, read]
  simp only [bind, Except.bind, behind]
  by_cases char : letter = 'c'.toUInt8
  · rw [if_pos char, if_pos char]
    rfl
  rw [if_neg char, if_neg char]
  by_cases string : letter = 's'.toUInt8
  · rw [if_pos string, if_pos string]
    rfl
  rw [if_neg string, if_neg string]
  by_cases unsigned : letter = 'u'.toUInt8
  · rw [if_pos unsigned, if_pos unsigned]
    rfl
  rw [if_neg unsigned, if_neg unsigned]
  by_cases signed : letter = 'd'.toUInt8
  · rw [if_pos signed, if_pos signed]
    rfl
  rw [if_neg signed, if_neg signed]
  by_cases hex : letter = 'x'.toUInt8
  · rw [if_pos hex, if_pos hex]
    rfl
  rw [if_neg hex, if_neg hex]
  by_cases pointer : letter = 'p'.toUInt8
  · rw [if_pos pointer, if_pos pointer]
    rfl
  rw [if_neg pointer, if_neg pointer]

theorem conversion_round_sound {letter : UInt8} {rest : List UInt8} (other : letter ≠ percent)
    (noNul : 0 ∉ letter :: rest) :
    RoundSound (percent :: letter :: rest) state
      (printfConversion stack (letter :: rest ++ [0]) state) := by
  have noNulRest : 0 ∉ rest := fun member => noNul (List.mem_cons_of_mem letter member)
  have shorter : rest.length < (percent :: letter :: rest).length := by
    simp only [List.length_cons]
    omega
  rw [printf_conversion_eq]
  cases named : conversionOf letter with
  | none =>
      -- the round ends in front of the letter, and so does the reference
      apply percent_round_sound noNul
      rw [referenceFormat, if_neg (not_not.mpr rfl), if_neg other, named]
  | some conversion =>
      apply converts_round_sound other noNulRest named
      cases conversion with
      | char => exact printf_char_converts noNulRest shorter
      | string => exact printf_string_converts noNulRest shorter
      | unsigned => exact printf_unsigned_converts noNulRest shorter
      | signed => exact printf_signed_converts noNulRest shorter
      | hex => exact printf_hex_converts noNulRest shorter
      | pointer => exact printf_pointer_converts noNulRest shorter

theorem literal_entry_sound {first : UInt8} {rest tail : List UInt8} (noNul : 0 ∉ tail)
    (entered : (if first = percent then (first :: rest ++ [0]).drop 1
      else first :: rest ++ [0]) = head :: (tail ++ [0]))
    (within : tail.length ≤ rest.length)
    (copied : referenceFormat (first :: rest) state.parameters =
      (referenceFormat tail state.parameters).map (head :: ·)) :
    RoundSound (first :: rest) state (printfLiteral (first :: rest ++ [0]) state) := by
  obtain ⟨run, behind, split, plain, stop⟩ := split_literal tail
  subst split
  rw [List.mem_append, not_or] at noNul
  rw [List.length_append] at within
  rw [List.append_assoc] at entered
  rw [reference_literal plain, Option.map_map] at copied
  exact literal_round_sound rfl entered plain noNul.1 noNul.2 stop
    (by rw [List.length_cons]; omega) copied

theorem printf_round_sound (filled : bytes ≠ []) (noNul : 0 ∉ bytes) :
    RoundSound bytes state (printfRound stack (bytes ++ [0]) state) := by
  cases bytes with
  | nil => exact absurd rfl filled
  | cons first rest =>
      have noNulRest : 0 ∉ rest := fun member => noNul (List.mem_cons_of_mem first member)
      have read : readAt (first :: rest ++ [0]) 0 = .ok first := rfl
      rw [printfRound, read]
      simp only [bind, Except.bind]
      by_cases sign : first = percent
      · subst sign
        rw [if_neg (not_not.mpr rfl)]
        cases rest with
        | nil =>
            have second : readAt (percent :: [] ++ [0]) 1 = .ok 0 := rfl
            rw [second]
            exact percent_round_sound noNulRest rfl
        | cons letter rest =>
            have second : readAt (percent :: letter :: rest ++ [0]) 1 = .ok letter := rfl
            rw [second]
            simp only
            by_cases doubled : letter = percent
            · subst doubled
              have noNulTail : 0 ∉ rest := fun member => noNulRest (List.mem_cons_of_mem _ member)
              have copied : referenceFormat (percent :: percent :: rest) state.parameters =
                  (referenceFormat rest state.parameters).map (percent :: ·) := by
                rw [referenceFormat, if_neg (not_not.mpr rfl), if_pos rfl]
              rw [if_pos rfl]
              exact literal_entry_sound noNulTail (if_pos rfl) (Nat.le_succ _) copied
            · rw [if_neg doubled]
              exact conversion_round_sound doubled noNulRest
      · have copied := @reference_literal [first] rest
          (fun member => sign (List.mem_singleton.mp member).symm) state.parameters
        rw [if_pos sign]
        exact literal_entry_sound noNulRest (if_neg sign) (Nat.le_refl _) copied

theorem printf_loop_end (fuel : Nat) :
    printfLoop stack (fuel + 1) ([] ++ [0]) state = .ok (state.written, state.output) := rfl

theorem printf_loop_round (fuel : Nat) (filled : bytes ≠ []) (noNul : 0 ∉ bytes) :
    printfLoop stack (fuel + 1) (bytes ++ [0]) state =
      match printfRound stack (bytes ++ [0]) state with
      | .error fault => .error fault
      | .ok (.next format after) => printfLoop stack fuel format after
      | .ok (.stop result output) => .ok (result, output) := by
  cases bytes with
  | nil => exact absurd rfl filled
  | cons first rest =>
      have read : readAt (first :: rest ++ [0]) 0 = .ok first := rfl
      have nonzero : first ≠ 0 := fun zero => noNul (by rw [zero]; exact List.mem_cons_self)
      rw [printfLoop, read]
      simp only [bind, Except.bind]
      rw [if_pos nonzero]
      cases printfRound stack (first :: rest ++ [0]) state with
      | error fault => rfl
      | ok progress => cases progress <;> rfl

/-- No read leaves the format, and the rounds come to an end. -/
theorem printf_loop_ends (fuel : Nat) (enough : bytes.length < fuel) (noNul : 0 ∉ bytes) :
    printfLoop stack fuel (bytes ++ [0]) state ≠ .error .pastEnd ∧
      printfLoop stack fuel (bytes ++ [0]) state ≠ .error .unfinished := by
  induction fuel generalizing bytes state with
  | zero => exact absurd enough (Nat.not_lt_zero _)
  | succ fuel ih =>
      by_cases filled : bytes = []
      · rw [filled, printf_loop_end]
        simp only [ne_eq, reduceCtorEq, not_false_eq_true, and_self]
      · have proceeds := (@printf_round_sound state bytes stack filled noNul).proceeds
        rw [printf_loop_round fuel filled noNul]
        generalize printfRound stack (bytes ++ [0]) state = result at proceeds
        cases proceeds with
        | badArgument =>
            simp only [ne_eq, Except.error.injEq, reduceCtorEq, not_false_eq_true, and_self]
        | overflow =>
            simp only [ne_eq, Except.error.injEq, reduceCtorEq, not_false_eq_true, and_self]
        | stop => simp only [ne_eq, reduceCtorEq, not_false_eq_true, and_self]
        | next behind after noNulBehind shorter =>
            exact ih (Nat.lt_of_lt_of_le shorter (Nat.le_of_lt_succ enough)) noNulBehind

/-- The rounds together print what the reference gives. -/
theorem printf_loop_prints (fuel : Nat) (enough : bytes.length < fuel) (noNul : 0 ∉ bytes)
    {output : List UInt8} (known : referenceFormat bytes state.parameters = some output)
    (fits : Fits state output) :
    ∃ result, printfLoop stack fuel (bytes ++ [0]) state =
      .ok (result, state.output ++ output) := by
  induction fuel generalizing bytes state output with
  | zero => exact absurd enough (Nat.not_lt_zero _)
  | succ fuel ih =>
      by_cases filled : bytes = []
      · subst filled
        obtain rfl := Option.some.inj known
        rw [printf_loop_end, List.append_nil]
        exact ⟨_, rfl⟩
      · have sound := @printf_round_sound state bytes stack filled noNul
        obtain ⟨piece, later, behind, parameters, rfl, noNulBehind, shorter, rest, after, round,
          printed, given, counted⟩ := sound.prints output known fits
        have room := fits.room
        rw [List.length_append] at room
        have fitsLater : Fits after later := by
          refine ⟨counted, ?_⟩
          rw [printed, List.length_append]
          omega
        rw [← given] at rest
        obtain ⟨result, run⟩ :=
          ih (Nat.lt_of_lt_of_le shorter (Nat.le_of_lt_succ enough)) noNulBehind rest fitsLater
        refine ⟨result, ?_⟩
        rw [printf_loop_round fuel filled noNul, round]
        simp only
        rw [run, printed, List.append_assoc]

end Loop

/-- On every format the scan ends in front of or at the NUL; when the arguments match and
the text is not longer than `INT_MAX`, it is exactly what is passed to `putchar`. -/
theorem printf_prints_reference (stack : CharBuffer) (format : CString)
    (parameters : List Argument) :
    printf stack format parameters ≠ .error .pastEnd ∧
      printf stack format parameters ≠ .error .unfinished ∧
      ∀ output, referenceFormat format.bytes parameters = some output → output.length ≤ intMax →
        ∃ result, printf stack format parameters = .ok (result, output) := by
  have enough : format.bytes.length < format.object.length := by
    rw [CString.object, List.length_append]
    exact Nat.lt_succ_self _
  have ends := @printf_loop_ends ⟨[], parameters, 0⟩ format.bytes stack _ enough format.noNul
  refine ⟨ends.1, ends.2, ?_⟩
  intro output known short
  have fits : Fits ⟨[], parameters, 0⟩ output := ⟨Nat.le_refl 0, by rw [List.length_nil]; omega⟩
  exact printf_loop_prints _ enough format.noNul known fits

def mixedFormat : CString :=
  ⟨['%', 'd', '%', '%', '%', 'x', '%', 'z', '%', 'p', '%'].map Char.toUInt8, by decide⟩

/-- The smallest `int`, `0xBEEF` and the null pointer give `-2147483648%beef%z0x0%`. -/
theorem printf_prints_mixed :
    ∃ result, printf ⟨List.replicate 32 0xAA, rfl⟩ mixedFormat
        [.word 0x80000000, .word 0xBEEF, .word 0] =
      .ok (result, ['-', '2', '1', '4', '7', '4', '8', '3', '6', '4', '8', '%', 'b', 'e', 'e', 'f',
        '%', 'z', '0', 'x', '0', '%'].map Char.toUInt8) :=
  (printf_prints_reference _ mixedFormat _).2.2 _ (by decide +kernel) (by decide)

end SimplyOs.PrintfOutput
