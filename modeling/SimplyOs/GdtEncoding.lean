import Mathlib.Data.Fin.VecNotation
import Mathlib.Data.Fintype.Basic
import Mathlib.Tactic.FinCases
import Mathlib.Tactic.IntervalCases
import SimplyOs.Gdt
import SimplyOs.Library.WordBytes

/-!
# The two encoders and the layout

Both encoders are read byte by byte. They differ in one byte: `create_descriptor`
shifts the whole base by 16, so its bits 24 to 31 fall on the access byte as well.
-/

namespace SimplyOs.GdtEncoding

open SimplyOs.Gdt SimplyOs.Library.WordBytes

set_option autoImplicit false

def entryBytes (entry : GdtEntry) : EntryBytes :=
  ![byteAt entry.limitLow 0, byteAt entry.limitLow 1, byteAt entry.baseLow 0,
    byteAt entry.baseLow 1, entry.baseMiddle, entry.access, entry.granularity, entry.baseHigh]

theorem and_full (byte : BitVec 8) : byte &&& 255#8 = byte := BitVec.and_allOnes

/-! ## What each encoder stores -/

section Bytes

variable (base limit : BitVec 32) (flag : BitVec 16)

theorem descriptor_bytes :
    byteAt (descriptorWord base limit flag) 0 = byteAt limit 0 ∧
      byteAt (descriptorWord base limit flag) 1 = byteAt limit 1 ∧
      byteAt (descriptorWord base limit flag) 2 = byteAt base 0 ∧
      byteAt (descriptorWord base limit flag) 3 = byteAt base 1 ∧
      byteAt (descriptorWord base limit flag) 4 = byteAt base 2 ∧
      byteAt (descriptorWord base limit flag) 5 = byteAt flag 0 ||| byteAt base 3 ∧
      byteAt (descriptorWord base limit flag) 6 =
        byteAt limit 2 &&& 0x0F ||| byteAt flag 1 &&& 0xF0 ∧
      byteAt (descriptorWord base limit flag) 7 = byteAt base 3 := by
  refine ⟨?_, ?_, ?_, ?_, ?_, ?_, ?_, ?_⟩ <;>
    simp (disch := decide) [descriptorWord, byte_at_or, byte_at_and, byte_at_shift_left,
      byte_at_shift_left_low, byte_at_shift_right, byte_at_cast, byte_at_outside,
      byte_at_constant, and_full]

theorem create_descriptor_bytes :
    entryBytes (createDescriptor base limit flag) =
      ![byteAt limit 0, byteAt limit 1, byteAt base 0, byteAt base 1, byteAt base 2,
        byteAt flag 0 ||| byteAt base 3, byteAt limit 2 &&& 0x0F ||| byteAt flag 1 &&& 0xF0,
        byteAt base 3] := by
  obtain ⟨first, second, third, fourth, fifth, sixth, seventh, eighth⟩ :=
    descriptor_bytes base limit flag
  rw [entryBytes, createDescriptor]
  simp (disch := decide) only [cast_byte, byte_at_cast, byte_at_and, byte_at_shift_right,
    BitVec.ofNat_eq_ofNat, byte_at_constant, Nat.reduceMul, Nat.reduceDiv, Nat.reduceAdd,
    Nat.reducePow, Nat.reduceMod, and_full, first, second, third, fourth, fifth, sixth, seventh,
    eighth]

/-- Each byte of `target` is assigned once, but for byte 6, which takes two parts. -/
theorem encode_bytes (target : EntryBytes) (source : GdtDescriptor)
    (small : source.limit.toNat ≤ maxLimit) :
    (encodeGdtEntry target source).1 =
      ![byteAt source.limit 0, byteAt source.limit 1, byteAt source.base 0, byteAt source.base 1,
        byteAt source.base 2, byteAt source.flags 0,
        byteAt source.limit 2 &&& 0x0F ||| byteAt source.flags 1 &&& 0xF0,
        byteAt source.base 3] := by
  rw [encodeGdtEntry, if_neg (Nat.not_lt.mpr small)]
  simp (disch := decide) only [cast_byte, byte_at_and, byte_at_shift_right,
    BitVec.ofNat_eq_ofNat, byte_at_constant, Nat.reduceMul, Nat.reduceDiv, Nat.reduceAdd,
    Nat.reducePow, Nat.reduceMod, and_full]
  funext place
  fin_cases place <;> rfl

end Bytes

/-! ## Agreement -/

theorem or_eq_left_iff (left right : BitVec 8) :
    left ||| right = left ↔
      ∀ bit < 8, right.getLsbD bit = true → left.getLsbD bit = true := by
  constructor
  · intro same bit _ set
    rw [← same, BitVec.getLsbD_or, set, Bool.or_true]
  · intro within
    apply BitVec.eq_of_getLsbD_eq
    intro bit inside
    rw [BitVec.getLsbD_or]
    cases set : right.getLsbD bit with
    | false => exact Bool.or_false _
    | true => rw [within bit inside set, Bool.or_true]

/-- The encoders agree exactly when every bit of the base's top byte is also set in the
access byte. -/
theorem encoders_agree_iff (base limit : BitVec 32) (flags : BitVec 16) (target : EntryBytes)
    (small : limit.toNat ≤ maxLimit) :
    entryBytes (createDescriptor base limit flags) =
        (encodeGdtEntry target ⟨base, limit, flags⟩).1 ↔
      ∀ bit < 8, base.getLsbD (24 + bit) = true → flags.getLsbD bit = true := by
  have access : byteAt flags 0 ||| byteAt base 3 = byteAt flags 0 ↔
      ∀ bit < 8, base.getLsbD (24 + bit) = true → flags.getLsbD bit = true := by
    rw [or_eq_left_iff]
    apply forall₂_congr
    intro bit inside
    rw [byte_at_bit base 3 inside, byte_at_bit flags 0 inside, Nat.mul_zero, Nat.zero_add]
  rw [create_descriptor_bytes, encode_bytes target ⟨base, limit, flags⟩ small, ← access]
  constructor
  · intro same
    exact congrFun same 5
  · intro same
    rw [same]

/-- The bits of 0x12 are set in the access byte 0x9A. -/
theorem encoders_agree_high_base :
    entryBytes (createDescriptor 0x12345678 0xFFFFF 0xC09A) =
      (encodeGdtEntry (fun _ => 0xFF) ⟨0x12345678, 0xFFFFF, 0xC09A⟩).1 :=
  (encoders_agree_iff 0x12345678 0xFFFFF 0xC09A _ (by decide)).mpr (by decide)

/-- The base 0x01000000 sets the accessed bit of a code segment. -/
theorem encoders_differ :
    entryBytes (createDescriptor 0x01000000 0xFFFFF 0xC09A) ≠
      (encodeGdtEntry (fun _ => 0) ⟨0x01000000, 0xFFFFF, 0xC09A⟩).1 := by
  decide

/-! ## The round trip -/

def decodeLimit (bytes : EntryBytes) : BitVec 32 :=
  (bytes 0).setWidth 32 ||| ((bytes 1).setWidth 32 <<< 8) |||
    ((bytes 6 &&& 0x0F).setWidth 32 <<< 16)

def decodeBase (bytes : EntryBytes) : BitVec 32 :=
  (bytes 2).setWidth 32 ||| ((bytes 3).setWidth 32 <<< 8) ||| ((bytes 4).setWidth 32 <<< 16) |||
    ((bytes 7).setWidth 32 <<< 24)

def decodeFlags (bytes : EntryBytes) : BitVec 16 :=
  (bytes 5).setWidth 16 ||| ((bytes 6 &&& 0xF0).setWidth 16 <<< 8)

/-- The descriptor that the processor reads from the eight bytes. -/
def decodeEntry (bytes : EntryBytes) : GdtDescriptor :=
  ⟨decodeBase bytes, decodeLimit bytes, decodeFlags bytes⟩

section RoundTrip

variable (target : EntryBytes) (source : GdtDescriptor)

theorem nibbles_apart (low high : BitVec 8) :
    (low &&& 0x0F ||| high &&& 0xF0) &&& 0x0F = low &&& 0x0F ∧
      (low &&& 0x0F ||| high &&& 0xF0) &&& 0xF0 = high &&& 0xF0 := by
  have apart : (0xF0 : BitVec 8) &&& 0x0F = 0#8 := by decide
  constructor
  · rw [BitVec.and_or_distrib_right, BitVec.and_assoc, BitVec.and_self, BitVec.and_assoc, apart,
      BitVec.and_zero, BitVec.or_zero]
  · rw [BitVec.and_or_distrib_right, BitVec.and_assoc, BitVec.and_assoc, BitVec.and_self,
      BitVec.and_comm 0x0F, apart, BitVec.and_zero, BitVec.zero_or]

theorem limit_bytes {limit : BitVec 32} (small : limit.toNat ≤ maxLimit) :
    byteAt limit 2 &&& 0x0F = byteAt limit 2 ∧ byteAt limit 3 = 0#8 := by
  have above (index : Nat) (high : 20 ≤ index) : limit.getLsbD index = false := by
    rw [← BitVec.testBit_toNat]
    apply Nat.testBit_lt_two_pow
    calc limit.toNat ≤ maxLimit := small
      _ < 2 ^ 20 := by decide
      _ ≤ 2 ^ index := Nat.pow_le_pow_right (by decide) high
  constructor
  · apply BitVec.eq_of_getLsbD_eq
    intro bit inside
    rw [BitVec.getLsbD_and, byte_at_bit limit 2 inside]
    by_cases low : bit < 4
    · have set : ∀ bit < 4, (0x0F : BitVec 8).getLsbD bit = true := by decide
      rw [set bit low, Bool.and_true]
    · rw [above _ (by omega), Bool.false_and]
  · apply BitVec.eq_of_getLsbD_eq
    intro bit inside
    rw [byte_at_bit limit 3 inside, above _ (by omega), BitVec.getLsbD_zero]

theorem decode_base (small : source.limit.toNat ≤ maxLimit) :
    decodeBase (encodeGdtEntry target source).1 = source.base := by
  rw [encode_bytes target source small, decodeBase]
  apply word_ext 4 rfl
  intro place inside
  interval_cases place <;>
    simp (disch := decide) [byte_at_or, byte_at_shift_left, byte_at_shift_left_low, byte_at_cast,
      byte_at_outside, byte_at_byte]

theorem decode_limit (small : source.limit.toNat ≤ maxLimit) :
    decodeLimit (encodeGdtEntry target source).1 = source.limit := by
  obtain ⟨nibble, last⟩ := limit_bytes small
  have low := (nibbles_apart (byteAt source.limit 2) (byteAt source.flags 1)).1
  have read : decodeLimit (encodeGdtEntry target source).1 =
      (byteAt source.limit 0).setWidth 32 ||| ((byteAt source.limit 1).setWidth 32 <<< 8) |||
        ((byteAt source.limit 2).setWidth 32 <<< 16) := by
    rw [← nibble, ← low, encode_bytes target source small]
    rfl
  rw [read]
  apply word_ext 4 rfl
  intro place inside
  interval_cases place <;>
    simp (disch := decide) [byte_at_or, byte_at_shift_left, byte_at_shift_left_low, byte_at_cast,
      byte_at_outside, byte_at_byte, last]

/-- The four bits of the flags that no byte has room for are lost. -/
theorem decode_flags (small : source.limit.toNat ≤ maxLimit) :
    decodeFlags (encodeGdtEntry target source).1 = source.flags &&& 0xF0FF := by
  have high := (nibbles_apart (byteAt source.limit 2) (byteAt source.flags 1)).2
  have read : decodeFlags (encodeGdtEntry target source).1 =
      (byteAt source.flags 0).setWidth 16 |||
        ((byteAt source.flags 1 &&& 0xF0).setWidth 16 <<< 8) := by
    rw [← high, encode_bytes target source small]
    rfl
  rw [read]
  apply word_ext 2 rfl
  intro place inside
  interval_cases place <;>
    simp (disch := decide) [byte_at_or, byte_at_and, byte_at_shift_left, byte_at_shift_left_low,
      byte_at_cast, byte_at_outside, byte_at_byte, byte_at_constant, and_full]

theorem decode_encode (small : source.limit.toNat ≤ maxLimit) :
    decodeEntry (encodeGdtEntry target source).1 =
      { source with flags := source.flags &&& 0xF0FF } := by
  rw [decodeEntry, decode_base target source small, decode_limit target source small,
    decode_flags target source small]

theorem flags_kept {flags : BitVec 16} (clear : flags &&& 0x0F00 = 0) :
    flags &&& 0xF0FF = flags := by
  have parts : flags &&& 0xF0FF ||| flags &&& 0x0F00 = flags := by
    rw [← BitVec.and_or_distrib_left]
    exact BitVec.and_allOnes
  rw [clear] at parts
  exact (BitVec.or_zero).symm.trans parts

/-- What is encoded can be decoded again, up to the four bits of the flags; so two
descriptors without these bits have different bytes. A limit that does not fit leaves the
bytes as they were. -/
theorem gdt_round_trip :
    (source.limit.toNat ≤ maxLimit →
        decodeEntry (encodeGdtEntry target source).1 =
          { source with flags := source.flags &&& 0xF0FF }) ∧
      (∀ (otherTarget : EntryBytes) (other : GdtDescriptor),
        source.limit.toNat ≤ maxLimit → other.limit.toNat ≤ maxLimit →
          source.flags &&& 0x0F00 = 0 → other.flags &&& 0x0F00 = 0 →
            (encodeGdtEntry target source).1 = (encodeGdtEntry otherTarget other).1 →
              source = other) ∧
      (source.limit.toNat > maxLimit → (encodeGdtEntry target source).1 = target) := by
  refine ⟨decode_encode target source, ?_, ?_⟩
  · intro otherTarget other small otherSmall clear otherClear same
    have decoded := decode_encode target source small
    rw [same, decode_encode otherTarget other otherSmall, flags_kept clear,
      flags_kept otherClear] at decoded
    exact decoded.symm
  · intro large
    rw [encodeGdtEntry, if_pos large]

end RoundTrip

/-- The kernel's code segment, over bytes that held something else. -/
theorem gdt_round_trip_code :
    decodeEntry (encodeGdtEntry (fun _ => 0xFF) ⟨0x12345678, 0xFFFFF, 0xC09A⟩).1 =
      ⟨0x12345678, 0xFFFFF, 0xC09A⟩ :=
  (gdt_round_trip (fun _ => 0xFF) ⟨0x12345678, 0xFFFFF, 0xC09A⟩).1 (by decide)

end SimplyOs.GdtEncoding
