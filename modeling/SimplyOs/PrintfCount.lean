import SimplyOs.Library.LimitedCounter
import SimplyOs.PrintfOutput

/-!
# What `printf` returns

The result should be the number of bytes written. `%d`, `%x` and `%p` are counted
as one byte each, and the room that is left is not looked at for them and for `%u`.
The output is cut into pieces; the scanner counts them as a counter with a limit.
-/

namespace SimplyOs.PrintfCount

open SimplyOs.Printf SimplyOs.PrintfNumerals SimplyOs.PrintfOutput SimplyOs.Library.LimitedCounter

set_option autoImplicit false

/-! ## The pieces of a format -/

/-- A piece of the output; bytes of the format itself belong to no conversion. -/
structure Piece where
  conversion : Option Conversion
  text : List UInt8

def textOf (pieces : List Piece) : List UInt8 := pieces.flatMap Piece.text

/-- The pieces of a format, when the arguments match its conversions. -/
def formatPieces : List UInt8 → List Argument → Option (List Piece)
  | [], _ => some []
  | [byte], _ => some [⟨none, [byte]⟩]
  | byte :: letter :: rest, parameters =>
      if byte ≠ percent then (formatPieces (letter :: rest) parameters).map (⟨none, [byte]⟩ :: ·)
      else if letter = percent then (formatPieces rest parameters).map (⟨none, [percent]⟩ :: ·)
      else
        match conversionOf letter with
        | none => (formatPieces (letter :: rest) parameters).map (⟨none, [percent]⟩ :: ·)
        | some conversion => do
            let (text, parameters) ← convert conversion parameters
            let pieces ← formatPieces rest parameters
            some (⟨some conversion, text⟩ :: pieces)

/-- The conversions that are counted as one byte. -/
def countedAsOne : Conversion → Bool
  | .signed | .hex | .pointer => true
  | .char | .string | .unsigned => false

/-- The conversions in front of which the room is not looked at. -/
def unguarded : Conversion → Bool
  | .unsigned | .signed | .hex | .pointer => true
  | .char | .string => false

def Piece.amount (piece : Piece) : Nat :=
  if piece.conversion.any countedAsOne then 1 else piece.text.length

def Piece.guarded (piece : Piece) : Bool := !piece.conversion.any unguarded

section Pieces

theorem reference_pieces (bytes : List UInt8) (parameters : List Argument) :
    referenceFormat bytes parameters = (formatPieces bytes parameters).map textOf := by
  induction bytes, parameters using formatPieces.induct with
  | case1 parameters => rfl
  | case2 byte parameters => rfl
  | case3 byte letter rest parameters other ih =>
      rw [referenceFormat, formatPieces, if_pos other, if_pos other, ih, Option.map_map,
        Option.map_map]
      rfl
  | case4 byte rest parameters sign ih =>
      rw [referenceFormat, formatPieces, if_neg sign, if_neg sign, if_pos rfl, if_pos rfl, ih,
        Option.map_map, Option.map_map]
      rfl
  | case5 byte letter rest parameters sign other unknown ih =>
      rw [referenceFormat, formatPieces, if_neg sign, if_neg sign, if_neg other, if_neg other,
        unknown]
      simp only
      rw [ih, Option.map_map, Option.map_map]
      rfl
  | case6 byte letter rest parameters sign other conversion named ih =>
      rw [referenceFormat, formatPieces, if_neg sign, if_neg sign, if_neg other, if_neg other,
        named]
      simp only
      cases convert conversion parameters with
      | none => rfl
      | some converted =>
          have behind := ih converted.2
          simp only [Option.bind_eq_bind, Option.bind_some, behind]
          cases formatPieces rest converted.2 with
          | none => rfl
          | some pieces => rfl

def literal (byte : UInt8) : Piece := ⟨none, [byte]⟩

theorem literal_pieces {run behind : List UInt8} (plain : percent ∉ run)
    (parameters : List Argument) :
    formatPieces (run ++ behind) parameters =
      (formatPieces behind parameters).map (run.map literal ++ ·) := by
  induction run with
  | nil => simp only [List.nil_append, List.map_nil, Option.map_id']
  | cons byte run ih =>
      rw [List.mem_cons, not_or] at plain
      have other : byte ≠ percent := fun same => plain.1 same.symm
      have first : formatPieces (byte :: (run ++ behind)) parameters =
          (formatPieces (run ++ behind) parameters).map (literal byte :: ·) := by
        cases run ++ behind with
        | nil => rfl
        | cons letter rest =>
            rw [formatPieces, if_pos other]
            rfl
      rw [List.cons_append, first, ih plain.2, Option.map_map]
      rfl

theorem literal_text (run : List UInt8) : textOf (run.map literal) = run := by
  induction run with
  | nil => rfl
  | cons byte run ih =>
      rw [List.map_cons, textOf, List.flatMap_cons, ← textOf, ih]
      rfl

theorem literal_weight (run : List UInt8) :
    weight Piece.amount (run.map literal) = run.length := by
  induction run with
  | nil => rfl
  | cons byte run ih =>
      have one : (literal byte).amount = 1 := rfl
      rw [List.map_cons, weight_cons, ih, one, List.length_cons, Nat.add_comm]

theorem literal_guarded (run : List UInt8) : ∀ piece ∈ run.map literal, piece.guarded = true := by
  intro piece member
  obtain ⟨byte, -, rfl⟩ := List.mem_map.mp member
  rfl

end Pieces

/-! ## Rounds -/

def scan (written : Nat) (pieces : List Piece) : Tally :=
  tally intMax Piece.amount Piece.guarded written pieces

def roundResult (state : PrintfState) (pieces : List Piece) (behind : List UInt8)
    (parameters : List Argument) : Except Fault Progress :=
  match scan state.written pieces with
  | .total written =>
      .ok (.next (behind ++ [0])
        { output := state.output ++ textOf pieces, parameters := parameters, written := written })
  | .refused => .ok (.stop (-1) state.output)
  | .overflowed => .error .overflow

/-- A round prints the first of the pieces and leaves the others to the rest of the format. -/
def RoundCounts (bytes : List UInt8) (state : PrintfState) (pieces : List Piece)
    (result : Except Fault Progress) : Prop :=
  ∃ front later behind parameters, pieces = front ++ later ∧ 0 ∉ behind ∧
    behind.length < bytes.length ∧ formatPieces behind parameters = some later ∧
    result = roundResult state front behind parameters

section Rounds

variable {state : PrintfState} {bytes behind run : List UInt8} {parameters : List Argument}
  {piece : Piece} {pieces : List Piece} {stack : CharBuffer} {head : UInt8}

theorem guarded_round (within : state.written ≤ intMax)
    (guarded : ∀ piece ∈ pieces, piece.guarded = true) :
    roundResult state pieces behind parameters =
      if intMax - state.written < weight Piece.amount pieces then .ok (.stop (-1) state.output)
      else finishPrint (behind ++ [0]) parameters state.written (weight Piece.amount pieces)
        (true, state.output ++ textOf pieces) := by
  rw [roundResult, scan, tally_guarded within guarded, finishPrint]
  by_cases exceeds : intMax < state.written + weight Piece.amount pieces
  · rw [if_pos exceeds, if_pos (by omega)]
  · rw [if_neg exceeds, if_neg (by omega)]
    simp only [Bool.not_true, Bool.false_eq_true, if_false, if_neg exceeds]

theorem unguarded_round (free : piece.guarded = false) :
    roundResult state [piece] behind parameters =
      finishPrint (behind ++ [0]) parameters state.written piece.amount
        (true, state.output ++ piece.text) := by
  have text : textOf [piece] = piece.text := List.append_nil _
  have exceeds : beyond Piece.guarded piece = .overflowed := by rw [beyond, free]; rfl
  rw [roundResult, scan, tally, tally, exceeds, finishPrint, text]
  simp only [Bool.not_true, Bool.false_eq_true, if_false]
  by_cases full : intMax < state.written + piece.amount
  · rw [if_pos full, if_pos full]
  · rw [if_neg full, if_neg full]

theorem guarded_piece_round (within : state.written ≤ intMax) (guarded : piece.guarded = true) :
    roundResult state [piece] behind parameters =
      if intMax - state.written < piece.amount then .ok (.stop (-1) state.output)
      else finishPrint (behind ++ [0]) parameters state.written piece.amount
        (true, state.output ++ piece.text) := by
  have text : textOf [piece] = piece.text := List.append_nil _
  have amount : weight Piece.amount [piece] = piece.amount := List.sum_singleton
  have all : ∀ other ∈ [piece], other.guarded = true :=
    fun other member => (List.mem_singleton.mp member) ▸ guarded
  rw [guarded_round within all, text, amount]

theorem conversion_round {conversion : Conversion} {text : List UInt8}
    (within : state.written ≤ intMax)
    (converted : convert conversion state.parameters = some (text, parameters)) :
    conversionRound stack (behind ++ [0]) state conversion =
      roundResult state [⟨some conversion, text⟩] behind parameters := by
  generalize given : state.parameters = arguments at converted
  have word {value : UInt32} {rest : List Argument} (first : arguments = .word value :: rest) :
      vaWord state.parameters = .ok (value, rest) := by
    rw [given, first]
    rfl
  fun_cases convert conversion arguments with
  | case1 value rest =>
      obtain ⟨rfl, rfl⟩ := Prod.mk.inj (Option.some.inj converted)
      rw [conversionRound, printf_char_eq (word rfl), guarded_piece_round within rfl]
      simp only [← Nat.lt_one_iff]
      rfl
  | case2 str rest =>
      obtain ⟨rfl, rfl⟩ := Prod.mk.inj (Option.some.inj converted)
      rw [conversionRound, printf_string_eq given, guarded_piece_round within rfl]
      rfl
  | case3 value rest =>
      obtain ⟨rfl, rfl⟩ := Prod.mk.inj (Option.some.inj converted)
      rw [conversionRound, printf_unsigned_eq (word rfl), unguarded_round rfl]
      rfl
  | case4 value rest =>
      obtain ⟨rfl, rfl⟩ := Prod.mk.inj (Option.some.inj converted)
      rw [conversionRound, printf_signed_eq (word rfl), unguarded_round rfl]
      rfl
  | case5 value rest =>
      obtain ⟨rfl, rfl⟩ := Prod.mk.inj (Option.some.inj converted)
      rw [conversionRound, printf_hex_eq (word rfl), unguarded_round rfl]
      rfl
  | case6 value rest =>
      obtain ⟨rfl, rfl⟩ := Prod.mk.inj (Option.some.inj converted)
      rw [conversionRound, printf_pointer_eq (word rfl), unguarded_round rfl]
      rfl
  | case7 =>
      rw [convert] at converted
      · cases converted
      all_goals assumption

theorem percent_round_counts {rest : List UInt8} (within : state.written ≤ intMax)
    (noNul : 0 ∉ rest) (known : (formatPieces rest state.parameters).map (literal percent :: ·) =
      some pieces) :
    RoundCounts (percent :: rest) state pieces (printfPercent (rest ++ [0]) state) := by
  obtain ⟨later, behind, rfl⟩ := Option.map_eq_some_iff.mp known
  refine ⟨[literal percent], later, rest, state.parameters, rfl, noNul, Nat.lt_succ_self _,
    behind, ?_⟩
  rw [printf_percent_eq, guarded_piece_round within rfl]
  simp only [← Nat.lt_one_iff]
  rfl

/-- A literal round that is entered at `head` takes the bytes up to the next percent sign. -/
theorem literal_round_counts {first : UInt8} {rest tail : List UInt8}
    (within : state.written ≤ intMax) (noNul : 0 ∉ tail)
    (entered : (if first = percent then (first :: rest ++ [0]).drop 1
      else first :: rest ++ [0]) = head :: (tail ++ [0]))
    (shorter : tail.length ≤ rest.length)
    (known : (formatPieces tail state.parameters).map (literal head :: ·) = some pieces) :
    RoundCounts (first :: rest) state pieces (printfLiteral (first :: rest ++ [0]) state) := by
  obtain ⟨run, behind, rfl, plain, stop⟩ := split_literal tail
  rw [List.mem_append, not_or] at noNul
  rw [List.length_append] at shorter
  rw [List.append_assoc] at entered
  rw [literal_pieces plain, Option.map_map] at known
  obtain ⟨later, rest, rfl⟩ := Option.map_eq_some_iff.mp known
  refine ⟨(head :: run).map literal, later, behind, state.parameters, rfl, noNul.2,
    by rw [List.length_cons]; omega, rest, ?_⟩
  rw [printf_literal_eq rfl entered plain noNul.1 stop, guarded_round within (literal_guarded _),
    literal_weight, literal_text]
  rfl

theorem printf_round_counts (within : state.written ≤ intMax) (filled : bytes ≠ [])
    (noNul : 0 ∉ bytes) (known : formatPieces bytes state.parameters = some pieces) :
    RoundCounts bytes state pieces (printfRound stack (bytes ++ [0]) state) := by
  cases bytes with
  | nil => exact absurd rfl filled
  | cons first rest =>
      have noNulRest : 0 ∉ rest := fun member => noNul (List.mem_cons_of_mem first member)
      have read : readAt (first :: rest ++ [0]) 0 = .ok first := rfl
      rw [printfRound, read]
      simp only [bind, Except.bind]
      by_cases sign : first = percent
      · subst sign
        rw [if_neg (not_not.mpr rfl)]
        cases rest with
        | nil => exact percent_round_counts within noNulRest known
        | cons letter rest =>
            have second : readAt (percent :: letter :: rest ++ [0]) 1 = .ok letter := rfl
            have noNulTail : 0 ∉ rest := fun member => noNulRest (List.mem_cons_of_mem _ member)
            rw [formatPieces, if_neg (not_not.mpr rfl)] at known
            rw [second]
            simp only
            by_cases doubled : letter = percent
            · subst doubled
              rw [if_pos rfl] at known ⊢
              exact literal_round_counts within noNulTail (if_pos rfl) (Nat.le_succ _) known
            · rw [if_neg doubled] at known ⊢
              have behind : (percent :: letter :: rest ++ [0]).drop 1 = letter :: rest ++ [0] := rfl
              rw [behind, printf_conversion_eq]
              cases named : conversionOf letter with
              | none =>
                  rw [named] at known
                  exact percent_round_counts within noNulRest known
              | some conversion =>
                  rw [named] at known
                  obtain ⟨⟨text, parameters⟩, converted, known⟩ :=
                    Option.bind_eq_some_iff.mp known
                  obtain ⟨later, behind, known⟩ := Option.bind_eq_some_iff.mp known
                  obtain rfl := Option.some.inj known
                  exact ⟨[⟨some conversion, text⟩], later, rest, parameters, rfl, noNulTail,
                    by simp only [List.length_cons]; omega, behind,
                    conversion_round within converted⟩
      · have copied := @literal_pieces [first] rest
          (fun member => sign (List.mem_singleton.mp member).symm) state.parameters
        rw [if_pos sign]
        exact literal_round_counts within noNulRest (if_neg sign) (Nat.le_refl _)
          (copied.symm.trans known)

end Rounds

/-! ## The whole output -/

def Ends (state : PrintfState) (pieces : List Piece)
    (result : Except Fault (Int × List UInt8)) : Tally → Prop
  | .total written => result = .ok (written, state.output ++ textOf pieces)
  | .refused => ∃ output, result = .ok (-1, output)
  | .overflowed => result = .error .overflow

section Loop

variable {state : PrintfState} {bytes : List UInt8} {pieces : List Piece} {stack : CharBuffer}

theorem ends_append {front later : List Piece} {result : Except Fault (Int × List UInt8)}
    {after : PrintfState} (printed : after.output = state.output ++ textOf front)
    {outcome : Tally} (ends : Ends after later result outcome) :
    Ends state (front ++ later) result outcome := by
  cases outcome with
  | total written =>
      have text : state.output ++ textOf (front ++ later) = after.output ++ textOf later := by
        rw [printed, textOf, List.flatMap_append, ← textOf, ← textOf, List.append_assoc]
      rw [Ends, text]
      exact ends
  | refused => exact ends
  | overflowed => exact ends

/-- The loop returns what the counter gives for the pieces. -/
theorem printf_loop_counts (fuel : Nat) (enough : bytes.length < fuel) (noNul : 0 ∉ bytes)
    (within : state.written ≤ intMax)
    (known : formatPieces bytes state.parameters = some pieces) :
    Ends state pieces (printfLoop stack fuel (bytes ++ [0]) state) (scan state.written pieces) := by
  induction fuel generalizing bytes state pieces with
  | zero => exact absurd enough (Nat.not_lt_zero _)
  | succ fuel ih =>
      by_cases filled : bytes = []
      · subst filled
        obtain rfl := Option.some.inj known
        rw [printf_loop_end, scan, tally, Ends, textOf, List.flatMap_nil, List.append_nil]
      · obtain ⟨front, later, behind, parameters, rfl, noNulBehind, shorter, rest, round⟩ :=
          @printf_round_counts state bytes pieces stack within filled noNul known
        have split : scan state.written (front ++ later) =
            tallyOn intMax Piece.amount Piece.guarded later (scan state.written front) :=
          tally_append front later state.written
        rw [printf_loop_round fuel filled noNul, round, roundResult, split]
        cases counted : scan state.written front with
        | total written =>
            have behindShorter := Nat.lt_of_lt_of_le shorter (Nat.le_of_lt_succ enough)
            have follows := @ih
              { output := state.output ++ textOf front, parameters := parameters, written := written }
              behind later behindShorter noNulBehind (total_within within counted) rest
            exact ends_append rfl follows
        | refused => exact ⟨state.output, rfl⟩
        | overflowed => rfl

theorem convert_filled {conversion : Conversion} {arguments parameters : List Argument}
    {text : List UInt8} (converted : convert conversion arguments = some (text, parameters))
    (one : countedAsOne conversion = true) : 1 ≤ text.length := by
  fun_cases convert conversion arguments with
  | case1 value rest => cases one
  | case2 str rest => cases one
  | case3 value rest => cases one
  | case4 value rest =>
      obtain ⟨rfl, rfl⟩ := Prod.mk.inj (Option.some.inj converted)
      exact signed_numeral_length_pos _
  | case5 value rest =>
      obtain ⟨rfl, rfl⟩ := Prod.mk.inj (Option.some.inj converted)
      exact numeral_length_pos 16 _
  | case6 value rest =>
      obtain ⟨rfl, rfl⟩ := Prod.mk.inj (Option.some.inj converted)
      exact Nat.succ_le_succ (Nat.zero_le _)
  | case7 =>
      rw [convert] at converted
      · cases converted
      all_goals assumption

theorem amount_le_text {parameters : List Argument}
    (known : formatPieces bytes parameters = some pieces) :
    ∀ piece ∈ pieces, piece.amount ≤ piece.text.length := by
  induction bytes, parameters using formatPieces.induct generalizing pieces with
  | case1 parameters =>
      obtain rfl := Option.some.inj known
      exact fun piece member => absurd member List.not_mem_nil
  | case2 byte parameters =>
      obtain rfl := Option.some.inj known
      exact fun piece member => (List.mem_singleton.mp member) ▸ Nat.le_refl 1
  | case3 byte letter rest parameters other ih =>
      rw [formatPieces, if_pos other] at known
      obtain ⟨later, behind, rfl⟩ := Option.map_eq_some_iff.mp known
      exact List.forall_mem_cons.mpr ⟨Nat.le_refl 1, ih behind⟩
  | case4 byte rest parameters sign ih =>
      rw [formatPieces, if_neg sign, if_pos rfl] at known
      obtain ⟨later, behind, rfl⟩ := Option.map_eq_some_iff.mp known
      exact List.forall_mem_cons.mpr ⟨Nat.le_refl 1, ih behind⟩
  | case5 byte letter rest parameters sign other unknown ih =>
      rw [formatPieces, if_neg sign, if_neg other, unknown] at known
      obtain ⟨later, behind, rfl⟩ := Option.map_eq_some_iff.mp known
      exact List.forall_mem_cons.mpr ⟨Nat.le_refl 1, ih behind⟩
  | case6 byte letter rest parameters sign other conversion named ih =>
      rw [formatPieces, if_neg sign, if_neg other, named] at known
      obtain ⟨⟨text, arguments⟩, converted, known⟩ := Option.bind_eq_some_iff.mp known
      obtain ⟨later, behind, known⟩ := Option.bind_eq_some_iff.mp known
      obtain rfl := Option.some.inj known
      refine List.forall_mem_cons.mpr ⟨?_, ih arguments behind⟩
      rw [Piece.amount]
      split
      · next one => exact convert_filled converted one
      · exact Nat.le_refl _

theorem weight_le_text (small : ∀ piece ∈ pieces, piece.amount ≤ piece.text.length) :
    weight Piece.amount pieces ≤ (textOf pieces).length := by
  induction pieces with
  | nil => exact Nat.le_refl 0
  | cons piece pieces ih =>
      obtain ⟨first, later⟩ := List.forall_mem_cons.mp small
      have rest := ih later
      rw [weight_cons, textOf, List.flatMap_cons, List.length_append, ← textOf]
      omega

/-- The sum is right exactly when every piece is counted for the bytes that it has. -/
theorem weight_eq_text_iff (small : ∀ piece ∈ pieces, piece.amount ≤ piece.text.length) :
    weight Piece.amount pieces = (textOf pieces).length ↔
      ∀ piece ∈ pieces, piece.amount = piece.text.length := by
  induction pieces with
  | nil => exact iff_of_true rfl fun piece member => absurd member List.not_mem_nil
  | cons piece pieces ih =>
      obtain ⟨first, later⟩ := List.forall_mem_cons.mp small
      have rest := weight_le_text later
      rw [weight_cons, textOf, List.flatMap_cons, List.length_append, ← textOf,
        List.forall_mem_cons, ← ih later]
      omega

theorem amount_eq_text_iff (piece : Piece) :
    piece.amount = piece.text.length ↔
      (piece.conversion.any countedAsOne = true → piece.text.length = 1) := by
  rw [Piece.amount]
  split
  · next one => exact ⟨fun same _ => same.symm, fun single => (single one).symm⟩
  · next many => exact iff_of_true rfl fun one => absurd one many

end Loop

/-! ## The result -/

/-- A result that is not negative is the number of bytes written, the counter stays in its
range, and an output that is too long is refused. -/
structure CountsOutput (result : Except Fault (Int × List UInt8)) (text : List UInt8) : Prop where
  counter : result ≠ .error .overflow
  exact : ∀ value output, result = .ok (value, output) → 0 ≤ value → value = output.length
  refuses : intMax < text.length → ∃ output, result = .ok (-1, output)

/-- Every `%d`, `%x` and `%p` gives a single byte, and the output is not too long. -/
def CountedExactly (pieces : List Piece) : Prop :=
  (∀ piece ∈ pieces, piece.conversion.any countedAsOne = true → piece.text.length = 1) ∧
    (textOf pieces).length ≤ intMax

/-- The first piece for which there is no room, as they are counted, looks at the room. -/
def RefusedInTime (pieces : List Piece) : Prop :=
  ∃ piece, FirstBeyond intMax Piece.amount 0 pieces piece ∧ piece.guarded = true

section Result

variable {pieces : List Piece} {result : Except Fault (Int × List UInt8)}

theorem counts_output_total
    (returned : result = .ok ((weight Piece.amount pieces : Nat), textOf pieces))
    (small : ∀ piece ∈ pieces, piece.amount ≤ piece.text.length)
    (fits : weight Piece.amount pieces ≤ intMax) :
    CountsOutput result (textOf pieces) ↔ CountedExactly pieces := by
  have single : (∀ piece ∈ pieces, piece.conversion.any countedAsOne = true →
      piece.text.length = 1) ↔ weight Piece.amount pieces = (textOf pieces).length := by
    rw [weight_eq_text_iff small]
    exact forall₂_congr fun piece _ => (amount_eq_text_iff piece).symm
  rw [CountedExactly, single]
  constructor
  · intro counts
    have same := Int.ofNat.inj (counts.exact _ _ returned (Int.natCast_nonneg _))
    exact ⟨same, same ▸ fits⟩
  · rintro ⟨same, short⟩
    refine ⟨fun full => ?_, fun value output known _ => ?_, fun long => ?_⟩
    · rw [returned] at full
      cases full
    · rw [returned] at known
      injection known with known
      obtain ⟨rfl, rfl⟩ := Prod.mk.inj known
      exact congrArg Int.ofNat same
    · exact absurd short (Nat.not_le.mpr long)

theorem counts_output_refused {output : List UInt8} (refused : result = .ok (-1, output))
    (text : List UInt8) : CountsOutput result text := by
  refine ⟨fun full => ?_, fun value written known positive => ?_, fun _ => ⟨output, refused⟩⟩
  · rw [refused] at full
    cases full
  · rw [refused] at known
    injection known with known
    obtain ⟨rfl, rfl⟩ := Prod.mk.inj known
    exact absurd positive (by decide)

/-- For every format with arguments that match: the result is the number of bytes written
exactly when each piece is counted for what it is, or when the counter meets its limit at a
piece that looks at the room. -/
theorem printf_counts_iff (stack : CharBuffer) (format : CString) (parameters : List Argument)
    (known : formatPieces format.bytes parameters = some pieces) :
    CountsOutput (printf stack format parameters) (textOf pieces) ↔
      CountedExactly pieces ∨ RefusedInTime pieces := by
  have enough : format.bytes.length < format.object.length := by
    rw [CString.object, List.length_append]
    exact Nat.lt_succ_self _
  have ends : Ends ⟨[], parameters, 0⟩ pieces (printf stack format parameters) (scan 0 pieces) :=
    printf_loop_counts _ enough format.noNul (Nat.zero_le _) known
  have small := amount_le_text known
  rcases fits_or_beyond (Nat.zero_le intMax) pieces with fits | ⟨piece, first⟩
  · rw [scan, tally_total fits, Nat.zero_add] at ends
    rw [Nat.zero_add] at fits
    rw [counts_output_total ends small fits]
    refine ⟨Or.inl, fun either => either.resolve_right ?_⟩
    rintro ⟨piece, first, -⟩
    have exceeds := beyond_weight first
    omega
  · rw [scan, tally_beyond first, beyond] at ends
    by_cases guarded : piece.guarded = true
    · rw [if_pos guarded] at ends
      obtain ⟨output, refused⟩ := ends
      exact iff_of_true (counts_output_refused refused _) (Or.inr ⟨piece, first, guarded⟩)
    · rw [if_neg guarded] at ends
      refine iff_of_false (fun counts => counts.counter ends) ?_
      rintro (exactly | ⟨other, firstOther, looks⟩)
      · have same := (weight_eq_text_iff small).mpr fun piece member =>
          (amount_eq_text_iff piece).mpr (exactly.1 piece member)
        have exceeds := beyond_weight first
        have short := exactly.2
        omega
      · have outcome := (tally_beyond first).symm.trans (@tally_beyond _ _ _ Piece.guarded _ _ _ firstOther)
        rw [beyond, beyond, if_neg guarded, if_pos looks] at outcome
        cases outcome

end Result

def countedFormat : CString :=
  ⟨['%', 's', '=', '%', 'u', '%', '%', '%', 'd'].map Char.toUInt8, by decide⟩

/-- `ab`, `150` and `7` give `ab=150%7`. -/
theorem printf_counts_mixed :
    CountsOutput
      (printf ⟨List.replicate 32 0xAA, rfl⟩ countedFormat
        [.string ⟨['a', 'b'].map Char.toUInt8, by decide⟩, .word 150, .word 7])
      (['a', 'b', '=', '1', '5', '0', '%', '7'].map Char.toUInt8) := by
  apply (@printf_counts_iff
    [⟨some .string, ['a', 'b'].map Char.toUInt8⟩, literal 0x3D,
      ⟨some .unsigned, ['1', '5', '0'].map Char.toUInt8⟩, literal percent,
      ⟨some .signed, ['7'].map Char.toUInt8⟩] _ countedFormat _ rfl).mpr
  exact Or.inl ⟨by decide, by decide⟩

/-- `printf("%d", 10)` writes two bytes and returns 1. -/
theorem printf_miscounts_ten :
    formatPieces (['%', 'd'].map Char.toUInt8) [.word 10] =
        some [⟨some .signed, ['1', '0'].map Char.toUInt8⟩] ∧
      ¬CountsOutput
        (printf ⟨List.replicate 32 0xAA, rfl⟩ ⟨['%', 'd'].map Char.toUInt8, by decide⟩ [.word 10])
        (['1', '0'].map Char.toUInt8) := by
  refine ⟨rfl, fun counts => ?_⟩
  have returned : printf ⟨List.replicate 32 0xAA, rfl⟩ ⟨['%', 'd'].map Char.toUInt8, by decide⟩
      [.word 10] = .ok (1, ['1', '0'].map Char.toUInt8) := rfl
  exact absurd (counts.exact _ _ returned (by decide)) (by decide)

end SimplyOs.PrintfCount
