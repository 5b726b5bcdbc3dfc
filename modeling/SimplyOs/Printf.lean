import SimplyOs.Word

/-!
# Formatted output

Transcription of `libc/stdio/printf.c`, `libc/stdio/putchar.c` and `strlen`. A
pointer is the list of the bytes of its object from there on, so a read behind the
object is a fault; so are a missing argument or one of the wrong kind, and an
overflow of `written`. `stack` is what the character buffers hold before they are
written, `output` the bytes passed to `putchar`.
-/

namespace SimplyOs.Printf

open SimplyOs.Word

set_option autoImplicit false

inductive Fault where
  | pastEnd
  | badArgument
  | overflow
  | unfinished
  /-- A store to the text buffer behind its page; `printf` itself does not end with it. -/
  | unmapped
  deriving DecidableEq, Repr

def intMax : Nat := 2147483647

def eof : Int := -1

def percent : UInt8 := 0x25

/-- The bytes of a string in front of its NUL. -/
structure CString where
  bytes : List UInt8
  noNul : 0 ∉ bytes

def CString.object (str : CString) : List UInt8 := str.bytes ++ [0]

structure CharBuffer where
  bytes : List UInt8
  size : bytes.length = 32

inductive Argument where
  | word (value : UInt32)
  | string (str : CString)

def readAt (object : List UInt8) (index : Nat) : Except Fault UInt8 :=
  match object[index]? with
  | some byte => .ok byte
  | none => .error .pastEnd

def strlen : List UInt8 → Except Fault Nat
  | [] => .error .pastEnd
  | byte :: rest =>
      if byte ≠ 0 then do
        let len ← strlen rest
        .ok (len + 1)
      else .ok 0

/-- The byte is `(char) ic`; the result is `ic` itself. -/
def putchar (output : List UInt8) (ic : Nat) : Int × List UInt8 :=
  (ic, output ++ [UInt8.ofNat ic])

def printLoop (data : List UInt8) : (count i : Nat) → (output : List UInt8) →
    Except Fault (Bool × List UInt8)
  | 0, _, output => .ok (true, output)
  | count + 1, i, output => do
      let byte ← readAt data i
      let (result, output) := putchar output byte.toNat
      if result = eof then .ok (false, output) else printLoop data count (i + 1) output

def print (output data : List UInt8) (length : Nat) : Except Fault (Bool × List UInt8) :=
  printLoop data length 0 output

/-- `while (value != 0 && pos > buffer)`; `pos` counts the bytes in front of it. -/
def digitLoop (base : Nat) (digitByte : Nat → UInt8) :
    (pos value : Nat) → (buffer : List UInt8) → Nat × List UInt8
  | 0, _, buffer => (0, buffer)
  | pos + 1, value, buffer =>
      if value ≠ 0 then
        digitLoop base digitByte pos (value / base) (buffer.set pos (digitByte (value % base)))
      else (pos + 1, buffer)

def digitString (stack : CharBuffer) (base : Nat) (digitByte : Nat → UInt8) (value : Nat) :
    List UInt8 :=
  let (pos, buffer) := digitLoop base digitByte 31 value (stack.bytes.set 31 0)
  buffer.drop pos

def digitByte (digit : Nat) : UInt8 :=
  if digit < 10 then 0x30 + UInt8.ofNat digit else 0x61 + UInt8.ofNat digit - 10

def decimalDigitByte (digit : Nat) : UInt8 := 0x30 + UInt8.ofNat digit

def printUint (stack : CharBuffer) (output : List UInt8) (value base : Nat) :
    Except Fault (Bool × List UInt8) :=
  if base < 2 ∨ base > 16 then .ok (false, output)
  else if value = 0 then print output [0x30, 0] 1
  else do
    let str := digitString stack base digitByte value
    let len ← strlen str
    print output str len

def toInt (value : UInt32) : Int :=
  if value.toNat < 2 ^ 31 then value.toNat else value.toNat - 2 ^ 32

def printInt (stack : CharBuffer) (output : List UInt8) (value : Int) :
    Except Fault (Bool × List UInt8) :=
  if value < 0 then do
    let (ok, output) ← print output [0x2D, 0] 1
    if !ok then .ok (false, output)
    else printUint stack output (add32 (-(value + 1)).toNat 1) 10
  else printUint stack output value.toNat 10

structure PrintfState where
  output : List UInt8
  parameters : List Argument
  written : Nat

/-- `stop` is a return from inside the loop. -/
inductive Progress where
  | next (format : List UInt8) (state : PrintfState)
  | stop (result : Int) (output : List UInt8)

def vaWord : List Argument → Except Fault (UInt32 × List Argument)
  | .word value :: parameters => .ok (value, parameters)
  | _ => .error .badArgument

def vaString : List Argument → Except Fault (CString × List Argument)
  | .string str :: parameters => .ok (str, parameters)
  | _ => .error .badArgument

/-- `if (!print(...)) return -1; written += amount;` and the next round at `format`. -/
def finishPrint (format : List UInt8) (parameters : List Argument) (written amount : Nat)
    (printed : Bool × List UInt8) : Except Fault Progress :=
  let (ok, output) := printed
  if !ok then .ok (.stop (-1) output)
  else if intMax < written + amount then .error .overflow
  else .ok (.next format
    { output := output, parameters := parameters, written := written + amount })

/-- How far `while (format[amount] && format[amount] != '%')` goes. -/
def literalRun : List UInt8 → Except Fault Nat
  | [] => .error .pastEnd
  | byte :: rest =>
      if byte ≠ 0 ∧ byte ≠ percent then do
        let amount ← literalRun rest
        .ok (amount + 1)
      else .ok 0

def printfLiteral (format : List UInt8) (state : PrintfState) : Except Fault Progress := do
  let maxrem := intMax - state.written
  let first ← readAt format 0
  let format := if first = percent then format.drop 1 else format
  let run ← literalRun (format.drop 1)
  let amount := run + 1
  if maxrem < amount then .ok (.stop (-1) state.output)
  else do
    let printed ← print state.output format amount
    finishPrint (format.drop amount) state.parameters state.written amount printed

def printfChar (format : List UInt8) (state : PrintfState) : Except Fault Progress := do
  let maxrem := intMax - state.written
  let (value, parameters) ← vaWord state.parameters
  if maxrem = 0 then .ok (.stop (-1) state.output)
  else do
    let printed ← print state.output [UInt8.ofNat value.toNat] 1
    finishPrint format parameters state.written 1 printed

def printfString (format : List UInt8) (state : PrintfState) : Except Fault Progress := do
  let maxrem := intMax - state.written
  let (str, parameters) ← vaString state.parameters
  let len ← strlen str.object
  if maxrem < len then .ok (.stop (-1) state.output)
  else do
    let printed ← print state.output str.object len
    finishPrint format parameters state.written len printed

def printfUnsigned (stack : CharBuffer) (format : List UInt8) (state : PrintfState) :
    Except Fault Progress := do
  let (value, parameters) ← vaWord state.parameters
  if value.toNat = 0 then do
    let printed ← print state.output [0x30, 0] 1
    finishPrint format parameters state.written 1 printed
  else do
    let str := digitString stack 10 decimalDigitByte value.toNat
    let len ← strlen str
    let printed ← print state.output str len
    finishPrint format parameters state.written len printed

def printfSigned (stack : CharBuffer) (format : List UInt8) (state : PrintfState) :
    Except Fault Progress := do
  let (value, parameters) ← vaWord state.parameters
  let printed ← printInt stack state.output (toInt value)
  finishPrint format parameters state.written 1 printed

def printfHex (stack : CharBuffer) (format : List UInt8) (state : PrintfState) :
    Except Fault Progress := do
  let (value, parameters) ← vaWord state.parameters
  let printed ← printUint stack state.output value.toNat 16
  finishPrint format parameters state.written 1 printed

def printfPointer (stack : CharBuffer) (format : List UInt8) (state : PrintfState) :
    Except Fault Progress := do
  let (value, parameters) ← vaWord state.parameters
  let (ok, output) ← print state.output [0x30, 0x78, 0] 2
  if !ok then .ok (.stop (-1) output)
  else do
    let printed ← printUint stack output value.toNat 16
    finishPrint format parameters state.written 1 printed

/-- Any other letter: it is left to the next round. -/
def printfPercent (format : List UInt8) (state : PrintfState) : Except Fault Progress := do
  let maxrem := intMax - state.written
  if maxrem = 0 then .ok (.stop (-1) state.output)
  else do
    let printed ← print state.output [percent, 0] 1
    finishPrint format state.parameters state.written 1 printed

/-- The conversions; `format` is behind the percent sign. -/
def printfConversion (stack : CharBuffer) (format : List UInt8) (state : PrintfState) :
    Except Fault Progress := do
  let letter ← readAt format 0
  let behind := format.drop 1
  if letter = 'c'.toUInt8 then printfChar behind state
  else if letter = 's'.toUInt8 then printfString behind state
  else if letter = 'u'.toUInt8 then printfUnsigned stack behind state
  else if letter = 'd'.toUInt8 then printfSigned stack behind state
  else if letter = 'x'.toUInt8 then printfHex stack behind state
  else if letter = 'p'.toUInt8 then printfPointer stack behind state
  else printfPercent format state

def printfRound (stack : CharBuffer) (format : List UInt8) (state : PrintfState) :
    Except Fault Progress := do
  let first ← readAt format 0
  if first ≠ percent then printfLiteral format state
  else do
    let second ← readAt format 1
    if second = percent then printfLiteral format state
    else printfConversion stack (format.drop 1) state

def printfLoop (stack : CharBuffer) : (fuel : Nat) → List UInt8 → PrintfState →
    Except Fault (Int × List UInt8)
  | 0, _, _ => .error .unfinished
  | fuel + 1, format, state => do
      let first ← readAt format 0
      if first ≠ 0 then do
        let progress ← printfRound stack format state
        match progress with
        | .next format state => printfLoop stack fuel format state
        | .stop result output => .ok (result, output)
      else .ok (state.written, state.output)

/-- The result and the bytes passed to `putchar`; each round consumes at least a byte. -/
def printf (stack : CharBuffer) (format : CString) (parameters : List Argument) :
    Except Fault (Int × List UInt8) :=
  printfLoop stack format.object.length format.object
    { output := [], parameters := parameters, written := 0 }

end SimplyOs.Printf
