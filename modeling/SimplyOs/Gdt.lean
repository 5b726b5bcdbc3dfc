import Mathlib.Logic.Function.Basic
import SimplyOs.Printf

/-!
# Segment descriptors

Transcription of the two encoders in `kernel/arch/i386/gdt/gdt.c` and of the types
in `gdt.h`. The fields and the shifts are those of fixed-width words, so they are
bit vectors; a cast between them is `setWidth`.
-/

namespace SimplyOs.Gdt

open SimplyOs.Printf

set_option autoImplicit false

structure GdtDescriptor where
  base : BitVec 32
  limit : BitVec 32
  flags : BitVec 16
  deriving DecidableEq, Repr

structure GdtEntry where
  limitLow : BitVec 16
  baseLow : BitVec 16
  baseMiddle : BitVec 8
  access : BitVec 8
  granularity : BitVec 8
  baseHigh : BitVec 8
  deriving DecidableEq, Repr

/-- The 64-bit value that `create_descriptor` puts together. -/
def descriptorWord (base limit : BitVec 32) (flag : BitVec 16) : BitVec 64 :=
  let descriptor := limit.setWidth 64 &&& 0x000F0000
  let descriptor := descriptor ||| ((flag.setWidth 64 <<< 8) &&& 0x00F0FF00)
  let descriptor := descriptor ||| ((base >>> 16).setWidth 64 &&& 0x000000FF)
  let descriptor := descriptor ||| (base.setWidth 64 &&& 0xFF000000)
  let descriptor := descriptor <<< 32
  let descriptor := descriptor ||| (base.setWidth 64 <<< 16)
  descriptor ||| (limit.setWidth 64 &&& 0x0000FFFF)

/-- Every field of `*entry` is assigned. -/
def createDescriptor (base limit : BitVec 32) (flag : BitVec 16) : GdtEntry :=
  let descriptor := descriptorWord base limit flag
  { limitLow := (descriptor &&& 0xFFFF).setWidth 16
    baseLow := ((descriptor >>> 16) &&& 0xFFFF).setWidth 16
    baseMiddle := ((descriptor >>> 32) &&& 0xFF).setWidth 8
    access := ((descriptor >>> 40) &&& 0xFF).setWidth 8
    granularity := ((descriptor >>> 48) &&& 0xFF).setWidth 8
    baseHigh := ((descriptor >>> 56) &&& 0xFF).setWidth 8 }

/-- The bytes of an entry are numbered from 0 on. -/
instance entry_size_ne_zero : NeZero 8 := ⟨by decide⟩

/-- The bytes behind the pointer `target`. -/
abbrev EntryBytes := Fin 8 → BitVec 8

def maxLimit : Nat := 0xFFFFF

def limitErrorText : CString where
  bytes := "ERROR: GDT cannot encode limits larger than 0xFFFFF\n".toList.map Char.toUInt8
  noNul := by decide

/-- The bytes after the call, and the format that is passed to `printf`. -/
def encodeGdtEntry (target : EntryBytes) (source : GdtDescriptor) :
    EntryBytes × Option CString :=
  if source.limit.toNat > maxLimit then (target, some limitErrorText)
  else
    let target := Function.update target 0 ((source.limit &&& 0xFF).setWidth 8)
    let target := Function.update target 1 (((source.limit >>> 8) &&& 0xFF).setWidth 8)
    let target := Function.update target 6 (((source.limit >>> 16) &&& 0x0F).setWidth 8)
    let target := Function.update target 2 ((source.base &&& 0xFF).setWidth 8)
    let target := Function.update target 3 (((source.base >>> 8) &&& 0xFF).setWidth 8)
    let target := Function.update target 4 (((source.base >>> 16) &&& 0xFF).setWidth 8)
    let target := Function.update target 7 (((source.base >>> 24) &&& 0xFF).setWidth 8)
    let target := Function.update target 5 ((source.flags &&& 0xFF).setWidth 8)
    (Function.update target 6 (target 6 ||| ((source.flags >>> 8) &&& 0xF0).setWidth 8), none)

end SimplyOs.Gdt
