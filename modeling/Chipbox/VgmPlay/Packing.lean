import Chipbox.Foundation.Bits
import Chipbox.VgmPlay.DataBlock
import Mathlib.Tactic.Common
import Mathlib.Tactic.NormNum

/-! What a packed data block stands for: each value is stored in groups of eight bits, the low
group first, and unpacking gives back the samples that were packed. -/
namespace Chipbox.VgmPlay

open Bits

def stream (data : List UInt8) (place : Place) : List Bool :=
  (ofBytes (data.drop place.inPos)).drop place.inShift

def Place.bit (place : Place) : Nat := 8 * place.inPos + place.inShift

structure Taken (data : List UInt8) (place after : Place) (count : Nat) (more : List Bool) : Prop where
  aligned : after.inShift < 8
  left : stream data after = more
  passed : after.bit = place.bit + count

theorem bits_drop (front back value : Nat) : (bits (front + back) value).drop front = bits back value := by
  rw [bits_add,List.drop_left' (bits_length front _)]

theorem stream_byte {data : List UInt8} {pos shift : Nat} {byte : UInt8} (found : data[pos]? = some byte)
    (aligned : shift ≤ 8) :
    stream data ⟨pos,shift⟩ = bits (8 - shift) byte.toNat ++ ofBytes (data.drop (pos + 1)) := by
  obtain ⟨inside,same⟩ := List.getElem?_eq_some_iff.mp found
  have low := bits_drop shift (8 - shift) byte.toNat
  rw [Nat.add_sub_cancel' aligned] at low
  rw [stream,List.drop_eq_getElem_cons inside,same,ofBytes_cons,
    List.drop_append_of_le_length (by rw [bits_length]; exact aligned),low]

theorem byte_of_stream {data : List UInt8} {pos shift : Nat} {front more : List Bool}
    (held : stream data ⟨pos,shift⟩ = front ++ more) (positive : 0 < front.length) :
    ∃ byte, data[pos]? = some byte := by
  by_cases inside : pos < data.length
  · exact ⟨data[pos],List.getElem?_eq_getElem inside⟩
  · have empty : stream data ⟨pos,shift⟩ = [] := by
      rw [stream,List.drop_eq_nil_of_le (Nat.le_of_not_lt inside)]
      exact List.drop_nil
    rw [held] at empty
    rw [(List.append_eq_nil_iff.mp empty).1] at positive
    exact absurd positive (Nat.lt_irrefl 0)

theorem shiftLeft_byte (byte : Nat) {k : Nat} (fits : k ≤ 8) : byte <<< k >>> 8 = byte / 2 ^ (8 - k) := by
  have whole : 2 ^ 8 = 2 ^ (8 - k) * 2 ^ k := by rw [← pow_add,Nat.sub_add_cancel fits]
  rw [Nat.shiftLeft_eq,Nat.shiftRight_eq_div_pow,whole,Nat.mul_div_mul_right _ _ (Nat.two_pow_pos _)]

/-- The bits of a byte below some and above others, as the code cuts them out. -/
theorem cut_inside (byte s k : Nat) (fits : s + k ≤ 8) :
    (byte <<< (s + k) >>> 8) &&& ((1 <<< k) - 1) = byte / 2 ^ (8 - s - k) % 2 ^ k := by
  rw [Nat.one_shiftLeft,Nat.and_two_pow_sub_one_eq_mod,shiftLeft_byte byte fits,Nat.sub_add_eq]

theorem cut_across (byte s k r : Nat) (across : s + k = 8 + r) :
    (byte <<< (s + k) >>> 8) &&& ((1 <<< k) - 1) = byte * 2 ^ r % 2 ^ k := by
  rw [Nat.one_shiftLeft,Nat.and_two_pow_sub_one_eq_mod,Nat.shiftLeft_eq,Nat.shiftRight_eq_div_pow,across,
    Nat.add_comm 8 r,pow_add,← Nat.mul_assoc,Nat.mul_div_cancel _ (Nat.two_pow_pos 8)]

theorem cut_next {byte r k : Nat} (small : byte < 2 ^ 8) (fits : r ≤ 8) (less : r ≤ k) :
    (byte <<< r >>> 8) &&& ((1 <<< k) - 1) = byte / 2 ^ (8 - r) % 2 ^ r := by
  have upper : byte / 2 ^ (8 - r) < 2 ^ r := by
    rw [Nat.div_lt_iff_lt_mul (Nat.two_pow_pos _),← pow_add,Nat.add_sub_cancel' fits]
    exact small
  rw [Nat.one_shiftLeft,Nat.and_two_pow_sub_one_eq_mod,shiftLeft_byte byte fits,Nat.mod_eq_of_lt upper,
    Nat.mod_eq_of_lt]
  exact upper.trans_le (Nat.pow_le_pow_right (by decide) less)

theorem readChunk_inside {data : List UInt8} {pos shift : Nat} {front more : List Bool}
    (held : stream data ⟨pos,shift⟩ = front ++ more) (positive : 0 < front.length)
    (within : shift + front.length < 8) : ∃ after, readChunk data ⟨pos,shift⟩ front.length =
      some (number front,after) ∧ Taken data ⟨pos,shift⟩ after front.length more := by
  obtain ⟨byte,found⟩ := byte_of_stream held positive
  have cons := stream_byte found (by omega : shift ≤ 8)
  have split : 8 - shift = front.length + (8 - shift - front.length) := by omega
  rw [held,split,bits_add,List.append_assoc] at cons
  have value := congrArg number (List.append_inj cons (by rw [bits_length])).1
  rw [number_bits,← cut_inside _ shift _ within.le] at value
  refine ⟨⟨pos,shift + front.length⟩,?_,within,?_,(Nat.add_assoc _ _ _).symm⟩
  · simp only [readChunk,found,Option.bind_eq_bind,Option.bind_some]
    rw [if_neg (by omega),value]
  · rw [stream,← List.drop_drop]
    change (stream data ⟨pos,shift⟩).drop _ = _
    rw [held,List.drop_left]

/-- A pass whose bits end with the byte or inside the next one: those up to the end of the byte, and
what is left. -/
theorem front_across {data : List UInt8} {pos shift r : Nat} {front more : List Bool} {byte : UInt8}
    (held : stream data ⟨pos,shift⟩ = front ++ more) (found : data[pos]? = some byte)
    (aligned : shift < 8) (across : shift + front.length = 8 + r) :
    ∃ back, front = bits (8 - shift) byte.toNat ++ back ∧ back.length = r ∧
      back ++ more = stream data ⟨pos + 1,0⟩ := by
  have cons := stream_byte found aligned.le
  rw [held] at cons
  have long : (bits (8 - shift) byte.toNat).length ≤ front.length := by
    rw [bits_length]
    omega
  obtain ⟨back,split⟩ := List.prefix_of_prefix_length_le (List.prefix_append _ _)
    (cons ▸ List.prefix_append front more) long
  refine ⟨back,split.symm,?_,?_⟩
  · have sizes := congrArg List.length split
    rw [List.length_append,bits_length] at sizes
    omega
  · rw [← split,List.append_assoc] at cons
    exact List.append_cancel_left cons

theorem readChunk_across {data : List UInt8} {pos shift r : Nat} {front more : List Bool}
    (held : stream data ⟨pos,shift⟩ = front ++ more) (positive : 0 < front.length) (short : front.length ≤ 8)
    (aligned : shift < 8) (across : shift + front.length = 8 + r) :
    ∃ after, readChunk data ⟨pos,shift⟩ front.length = some (number front,after) ∧
      Taken data ⟨pos,shift⟩ after front.length more := by
  obtain ⟨byte,found⟩ := byte_of_stream held positive
  obtain ⟨back,split,size,rest⟩ := front_across held found aligned across
  have count : front.length = 8 - shift + r := by omega
  have value : number front = byte.toNat * 2 ^ r % 2 ^ front.length + number back := by
    rw [count,pow_add,Nat.mul_mod_mul_right]
    rw [split,number_append,number_bits,size]
  have left : 8 ≤ shift + front.length := by omega
  simp only [readChunk,found,Option.bind_eq_bind,Option.bind_some]
  rw [if_pos left,cut_across _ _ _ r across,show shift + front.length - 8 = r by omega]
  by_cases none : r = 0
  · have empty : back = [] := List.length_eq_zero_iff.mp (size.trans none)
    subst empty none
    refine ⟨⟨pos + 1,0⟩,?_,Nat.zero_lt_succ 7,rest.symm,?_⟩
    · rw [if_pos rfl,value,number_nil]
      rfl
    · unfold Place.bit
      dsimp only
      omega
  · -- The rest of the bits are the upper ones of the next byte.
    obtain ⟨next,nextFound⟩ := byte_of_stream rest.symm (by omega)
    have sizes : r < 8 := by omega
    have nextCons := stream_byte nextFound (Nat.zero_le 8)
    rw [← rest,show 8 - 0 = r + (8 - r) by omega,bits_add,List.append_assoc] at nextCons
    obtain ⟨same,after⟩ := List.append_inj nextCons (by rw [size,bits_length])
    have low : (next.toNat <<< r >>> 8) &&& ((1 <<< front.length) - 1) = number back := by
      rw [cut_next next.toNat_lt sizes.le (by omega),same,number_bits]
    refine ⟨⟨pos + 1,r⟩,?_,sizes,?_,?_⟩
    · have small : number back < 2 ^ r := size ▸ number_lt back
      rw [if_neg none,nextFound]
      simp only [Option.bind_some]
      rw [low,value,count,pow_add,Nat.mul_mod_mul_right,← Nat.shiftLeft_eq,
        Nat.shiftLeft_add_eq_or_of_lt small]
    · rw [after,stream_byte nextFound sizes.le]
    · unfold Place.bit
      dsimp only
      omega

theorem readChunk_taken {data : List UInt8} {place : Place} {front more : List Bool}
    (held : stream data place = front ++ more) (positive : 0 < front.length) (short : front.length ≤ 8)
    (aligned : place.inShift < 8) : ∃ after, readChunk data place front.length = some (number front,after) ∧
      Taken data place after front.length more := by
  by_cases within : place.inShift + front.length < 8
  · exact readChunk_inside held positive within
  · obtain ⟨r,across⟩ := Nat.exists_eq_add_of_le (Nat.le_of_not_lt within)
    exact readChunk_across held positive short aligned across

/-- A value as it is packed: in groups of eight bits, the low group first. -/
def pack : Nat → Nat → List Bool
  | width + 9,value => bits 8 value ++ pack (width + 1) (value / 2 ^ 8)
  | width,value => bits width value

theorem pack_long {width : Nat} (long : 8 < width) (value : Nat) :
    pack width value = bits 8 value ++ pack (width - 8) (value / 2 ^ 8) := by
  obtain ⟨more,rfl⟩ := Nat.exists_eq_add_of_le' (Nat.succ_le_of_lt long)
  rfl

theorem pack_short {width : Nat} (short : width ≤ 8) (value : Nat) : pack width value = bits width value := by
  unfold pack
  split
  · omega
  · rfl

@[simp] theorem pack_length (width value : Nat) : (pack width value).length = width := by
  induction width using Nat.strongRecOn generalizing value with
  | ind width ih =>
    by_cases long : 8 < width
    · rw [pack_long long,List.length_append,bits_length,ih _ (by omega)]
      omega
    · rw [pack_short (by omega),bits_length]

theorem or_group {inVal outBit count group : Nat} (low : inVal < 2 ^ outBit) (high : group < 2 ^ count)
    (fits : outBit + count ≤ 32) : inVal ||| uint32 (group <<< outBit) = inVal + 2 ^ outBit * group := by
  have small : group <<< outBit < 0x100000000 := by
    rw [Nat.shiftLeft_eq,Nat.mul_comm]
    exact (Nat.mul_lt_mul_of_pos_left high (Nat.two_pow_pos outBit)).trans_le
      (by rw [← pow_add]; exact Nat.pow_le_pow_right (by decide) fits)
  rw [uint32,Nat.mod_eq_of_lt small,Nat.or_comm,← Nat.shiftLeft_add_eq_or_of_lt low,Nat.shiftLeft_eq,
    Nat.mul_comm,Nat.add_comm]

theorem readBitsLoop_zero (data : List UInt8) (fuel : Nat) (place : Place) (outBit inVal : Nat) :
    readBitsLoop data (fuel + 1) 0 place outBit inVal = some (inVal,place) := rfl

theorem readBitsLoop_step {data : List UInt8} (fuel : Nat) {width outBit inVal : Nat} {place : Place}
    {front more : List Bool} (held : stream data place = front ++ more) (positive : 0 < width)
    (group : front.length = if width ≥ 8 then 8 else width) (aligned : place.inShift < 8)
    (low : inVal < 2 ^ outBit) (fits : outBit + width ≤ 32) :
    ∃ after, Taken data place after front.length more ∧
      readBitsLoop data (fuel + 1) width place outBit inVal =
        readBitsLoop data fuel (width - front.length) after (outBit + front.length)
          (inVal + 2 ^ outBit * number front) := by
  have bounds : 0 < front.length ∧ front.length ≤ 8 ∧ front.length ≤ width := by
    rw [group]
    split <;> omega
  obtain ⟨after,read,taken⟩ := readChunk_taken held bounds.1 bounds.2.1 aligned
  refine ⟨after,taken,?_⟩
  rw [readBitsLoop,if_neg (by omega),← group]
  simp only [read,Option.bind_eq_bind,Option.bind_some]
  rw [if_pos (by omega),or_group low (number_lt front) (by omega)]

theorem readBitsLoop_pack {data : List UInt8} (width : Nat) : ∀ {fuel value outBit inVal : Nat}
    {place : Place} {more : List Bool}, width < fuel → place.inShift < 8 →
    stream data place = pack width value ++ more → inVal < 2 ^ outBit → outBit + width ≤ 32 →
    ∃ after, readBitsLoop data fuel width place outBit inVal =
      some (inVal + 2 ^ outBit * (value % 2 ^ width),after) ∧ Taken data place after width more := by
  induction width using Nat.strongRecOn with
  | ind width ih =>
    intro fuel value outBit inVal place more enough aligned held low fits
    obtain ⟨fuel,rfl⟩ := Nat.exists_eq_add_of_lt (Nat.zero_lt_of_lt enough)
    rw [Nat.zero_add] at enough ⊢
    by_cases long : 8 < width
    · -- One group, then the rest of the value above it.
      rw [pack_long long,List.append_assoc] at held
      obtain ⟨next,taken,step⟩ := readBitsLoop_step fuel held (by omega)
        (by rw [bits_length,if_pos (by omega)]) aligned low fits
      rw [bits_length,number_bits] at step
      have grown : inVal + 2 ^ outBit * (value % 2 ^ 8) < 2 ^ (outBit + 8) := by
        have group : value % 2 ^ 8 < 2 ^ 8 := Nat.mod_lt _ (Nat.two_pow_pos 8)
        rw [pow_add]
        calc inVal + 2 ^ outBit * (value % 2 ^ 8)
            < 2 ^ outBit * 1 + 2 ^ outBit * (value % 2 ^ 8) := by omega
          _ = 2 ^ outBit * (1 + value % 2 ^ 8) := (Nat.mul_add _ _ _).symm
          _ ≤ 2 ^ outBit * 2 ^ 8 := Nat.mul_le_mul_left _ (by omega)
      obtain ⟨after,read,rest⟩ := @ih (width - 8) (by omega) fuel _ _ _ _ _ (by omega) taken.aligned
        taken.left grown (by omega)
      refine ⟨after,?_,rest.aligned,rest.left,?_⟩
      · have split : 2 ^ width = 2 ^ 8 * 2 ^ (width - 8) := by
          rw [← pow_add]
          congr 1
          omega
        rw [step,read,split,Nat.mod_mul,pow_add,Nat.mul_add,Nat.mul_assoc,Nat.add_assoc]
      · rw [rest.passed,taken.passed,bits_length]
        omega
    · obtain rfl | positive := Nat.eq_zero_or_pos width
      · exact ⟨place,by rw [readBitsLoop_zero]; simp [Nat.mod_one],aligned,held,rfl⟩
      · rw [pack_short (by omega)] at held
        obtain ⟨fuel,rfl⟩ := Nat.exists_eq_add_of_lt (by omega : 0 < fuel)
        rw [Nat.zero_add]
        obtain ⟨after,taken,step⟩ := readBitsLoop_step (fuel + 1) held positive
          (by rw [bits_length]; split <;> omega) aligned low fits
        rw [bits_length] at step taken
        exact ⟨after,by rw [step,Nat.sub_self,readBitsLoop_zero,number_bits],taken⟩

theorem readBits_pack {data : List UInt8} {place : Place} {width value : Nat} {more : List Bool}
    (aligned : place.inShift < 8) (held : stream data place = pack width value ++ more)
    (fits : width ≤ 32) : ∃ after, readBits data width place = some (value % 2 ^ width,after) ∧
      Taken data place after width more := by
  obtain ⟨after,read,taken⟩ := readBitsLoop_pack width (Nat.lt_succ_self width) aligned held
    (by decide : 0 < 2 ^ 0) (by omega)
  exact ⟨after,by rw [readBits,read,pow_zero,Nat.one_mul,Nat.zero_add],taken⟩

/-- What a block holds: samples copied, shifted up, looked up in the table, or as differences. -/
inductive Kind | copy | shift | table | delta
deriving DecidableEq

/-- How a block is packed; `addVal` is the first sample of a block of differences. -/
structure Format where
  kind : Kind
  bitDec : Nat
  bitCmp : Nat
  addVal : Nat

namespace Format

structure Fine (f : Format) : Prop where
  decoded : 0 < f.bitDec ∧ f.bitDec ≤ 16
  packed : 0 < f.bitCmp ∧ f.bitCmp ≤ 16
  added : f.addVal < 0x10000
  shifted : f.kind = .shift → f.bitCmp ≤ f.bitDec

def valSize (f : Format) : Nat := valSizeOf f.bitDec

def comprType (f : Format) : UInt8 := if f.kind = .delta then 1 else 0

def cmpSubType (f : Format) : Nat := match f.kind with
  | .copy => 0
  | .shift => 1
  | .table => 2
  | .delta => 0

def next (f : Format) (entry : Nat → Nat) (last value : Nat) : Nat := match f.kind with
  | .copy => value + f.addVal
  | .shift => value * 2 ^ (f.bitDec - f.bitCmp) + f.addVal
  | .table => entry value
  | .delta => (last + entry value) % 2 ^ f.bitDec

def samples (f : Format) (entry : Nat → Nat) : Nat → List Nat → List Nat
  | _,[] => []
  | last,value::values => f.next entry last value::f.samples entry (f.next entry last value) values

def first (f : Format) : Nat := if f.kind = .delta then f.addVal else 0

def sampleBytes (f : Format) (entry : Nat → Nat) (values : List Nat) : List UInt8 :=
  (f.samples entry f.first values).flatMap (valueBytes f.valSize)

def header (f : Format) (size : Nat) : List UInt8 :=
  [f.comprType,lowByte size,highByte size,lowByte (size / 0x10000),highByte (size / 0x10000),
    UInt8.ofNat f.bitDec,UInt8.ofNat f.bitCmp,UInt8.ofNat f.cmpSubType,lowByte f.addVal,highByte f.addVal]

def block (f : Format) (values : List Nat) : List UInt8 :=
  f.header (values.length * f.valSize) ++ toBytes (values.flatMap (pack f.bitCmp))

def emit (f : Format) (table : PcmTable) : Nat → Nat → Option (Nat × List UInt8) := match f.kind with
  | .delta => emitDelta table f.bitDec
  | _ => emitBits table f.bitDec f.bitCmp f.cmpSubType f.addVal

structure Served (f : Format) (table : PcmTable) (entry : Nat → Nat) (values : List Nat) : Prop where
  fit : f.kind = .table ∨ f.kind = .delta → tableUnfit table f.bitDec f.bitCmp = false
  found : f.kind = .table ∨ f.kind = .delta → ∀ value ∈ values,
    tableEntry table f.valSize value = some (entry value)

variable {f : Format} {table : PcmTable} {entry : Nat → Nat}

theorem Fine.valSize (fine : f.Fine) : f.valSize = 1 ∨ f.valSize = 2 := by
  have bounds := fine.decoded
  unfold Format.valSize valSizeOf
  omega

theorem valueBytes_length {valSize : Nat} (usual : valSize = 1 ∨ valSize = 2) (value : Nat) :
    (valueBytes valSize value).length = valSize := by
  obtain rfl | rfl := usual <;> rfl

theorem two_pow_small {width : Nat} (small : width ≤ 16) : 2 ^ width ≤ 0x10000 :=
  (Nat.pow_le_pow_right (by decide) small).trans (by norm_num)

theorem uint32_small {value : Nat} (small : value < 0x20000) : uint32 value = value :=
  Nat.mod_eq_of_lt (small.trans (by norm_num))

theorem mask_eq {bitDec : Nat} (small : bitDec ≤ 16) (value : Nat) :
    value &&& (((1 <<< bitDec) - 1) % 0x10000) = value % 2 ^ bitDec := by
  have bound := two_pow_small small
  have positive := Nat.two_pow_pos bitDec
  rw [Nat.one_shiftLeft,Nat.mod_eq_of_lt (by omega),Nat.and_two_pow_sub_one_eq_mod]

theorem emitBits_copy (table : PcmTable) (bitDec bitCmp addVal value last : Nat)
    (small : value < 0x10000) (added : addVal < 0x10000) :
    emitBits table bitDec bitCmp 0 addVal value last =
      some (value + addVal,valueBytes (valSizeOf bitDec) (value + addVal)) := by
  have whole : uint32 (value + addVal) = value + addVal := uint32_small (by omega)
  rw [emitBits,bitsValue,whole,Option.map_some]

theorem emitBits_shift (table : PcmTable) {bitDec bitCmp addVal value : Nat} (last : Nat)
    (less : bitCmp ≤ bitDec) (decoded : bitDec ≤ 16) (small : value < 2 ^ bitCmp) (added : addVal < 0x10000) :
    emitBits table bitDec bitCmp 1 addVal value last = some (value * 2 ^ (bitDec - bitCmp) + addVal,
      valueBytes (valSizeOf bitDec) (value * 2 ^ (bitDec - bitCmp) + addVal)) := by
  have top : value * 2 ^ (bitDec - bitCmp) < 0x10000 := by
    have scaled := Nat.mul_lt_mul_of_pos_right small (Nat.two_pow_pos (bitDec - bitCmp))
    rw [← pow_add,Nat.add_sub_cancel' less] at scaled
    exact scaled.trans_le (two_pow_small decoded)
  have whole : uint32 (value <<< (bitDec - bitCmp) + addVal) = value * 2 ^ (bitDec - bitCmp) + addVal := by
    rw [Nat.shiftLeft_eq]
    exact uint32_small (by omega)
  have inside : bitCmp ≤ bitDec ∧ bitDec - bitCmp < 32 := ⟨less,by omega⟩
  rw [emitBits,bitsValue,if_pos inside,whole,Option.map_some]

theorem emitBits_table {table : PcmTable} {bitDec value sample : Nat} (bitCmp addVal last : Nat)
    (usual : valSizeOf bitDec = 1 ∨ valSizeOf bitDec = 2)
    (looked : tableEntry table (valSizeOf bitDec) value = some sample) :
    emitBits table bitDec bitCmp 2 addVal value last = some (sample,valueBytes (valSizeOf bitDec) sample) := by
  rw [emitBits,bitsValue,if_pos usual,looked,Option.map_some]

theorem emitDelta_eq {table : PcmTable} {bitDec value sample : Nat} (last : Nat) (decoded : bitDec ≤ 16)
    (usual : valSizeOf bitDec = 1 ∨ valSizeOf bitDec = 2)
    (looked : tableEntry table (valSizeOf bitDec) value = some sample) :
    emitDelta table bitDec value last = some ((last + sample) % 2 ^ bitDec,
      valueBytes (valSizeOf bitDec) ((last + sample) % 2 ^ bitDec)) := by
  have whole : 2 ^ bitDec ∣ 0x100000000 := by
    rw [show 0x100000000 = 2 ^ 32 by norm_num]
    exact pow_dvd_pow 2 (by omega)
  have masked : uint32 (last + sample) &&& (((1 <<< bitDec) - 1) % 0x10000) = (last + sample) % 2 ^ bitDec := by
    rw [mask_eq decoded,uint32,Nat.mod_mod_of_dvd _ whole]
  simp only [emitDelta,usual,looked,masked,if_true,Option.bind_eq_bind,Option.bind_some]

theorem emit_eq (fine : f.Fine) {values : List Nat} (served : f.Served table entry values) {value : Nat}
    (member : value ∈ values) (small : value < 2 ^ f.bitCmp) (last : Nat) :
    f.emit table value last = some (f.next entry last value,valueBytes f.valSize (f.next entry last value)) := by
  have bounded : value < 0x10000 := small.trans_le (two_pow_small fine.packed.2)
  cases kind : f.kind with
  | copy =>
    simp only [emit,next,kind,cmpSubType]
    exact emitBits_copy _ _ _ _ _ _ bounded fine.added
  | shift =>
    simp only [emit,next,kind,cmpSubType]
    exact emitBits_shift _ _ (fine.shifted kind) fine.decoded.2 small fine.added
  | table =>
    simp only [emit,next,kind,cmpSubType]
    exact emitBits_table _ _ _ fine.valSize (served.found (.inl kind) value member)
  | delta =>
    simp only [emit,next,kind]
    exact emitDelta_eq _ fine.decoded.2 fine.valSize (served.found (.inr kind) value member)

theorem Served.tail {value : Nat} {values : List Nat} (served : f.Served table entry (value::values)) :
    f.Served table entry values where
  fit := served.fit
  found kind other member := served.found kind other (.tail _ member)

open Native (memcpy memcpy_nil memcpy_append)

theorem unpackLoop_step (fine : f.Fine) {data : List UInt8} {inDataEnd outDataEnd value : Nat} (fuel : Nat)
    {values : List Nat} {p : Progress} {more : List Bool} (served : f.Served table entry (value::values))
    (small : value < 2 ^ f.bitCmp) (aligned : p.place.inShift < 8)
    (held : stream data p.place = pack f.bitCmp value ++ more)
    (reads : p.place.bit + f.bitCmp ≤ 8 * inDataEnd) (room : p.outPos + f.valSize ≤ outDataEnd) :
    ∃ after, Taken data p.place after f.bitCmp more ∧
      unpackLoop data inDataEnd outDataEnd f.bitCmp f.valSize (f.emit table) (fuel + 1) p =
        unpackLoop data inDataEnd outDataEnd f.bitCmp f.valSize (f.emit table) fuel
          ⟨p.outPos + f.valSize,after,f.next entry p.outVal value,
            memcpy p.bank p.outPos ((valueBytes f.valSize (f.next entry p.outVal value)).map some)⟩ := by
  have sizes := fine.valSize
  have width := fine.packed
  obtain ⟨after,read,taken⟩ := readBits_pack aligned held (by omega)
  rw [Nat.mod_eq_of_lt small] at read
  have before : p.outPos < outDataEnd ∧ p.place.inPos < inDataEnd := by
    unfold Place.bit at reads
    omega
  refine ⟨after,taken,?_⟩
  rw [unpackLoop,if_pos before,read]
  simp only [Option.bind_eq_bind,Option.bind_some]
  rw [emit_eq fine served List.mem_cons_self small]
  simp only [Option.bind_some]
  rw [if_pos (by rw [valueBytes_length sizes]; exact room)]

theorem unpackLoop_samples (fine : f.Fine) {data : List UInt8} {inDataEnd outDataEnd : Nat}
    {values : List Nat} : ∀ {fuel : Nat} {p : Progress} {fill : List Bool}, values.length < fuel →
    (∀ value ∈ values, value < 2 ^ f.bitCmp) → f.Served table entry values → p.place.inShift < 8 →
    stream data p.place = values.flatMap (pack f.bitCmp) ++ fill →
    p.place.bit + values.length * f.bitCmp ≤ 8 * inDataEnd →
    p.outPos + values.length * f.valSize = outDataEnd →
    ∃ done, unpackLoop data inDataEnd outDataEnd f.bitCmp f.valSize (f.emit table) fuel p = some done ∧
      done.bank = memcpy p.bank p.outPos
        (((f.samples entry p.outVal values).flatMap (valueBytes f.valSize)).map some) := by
  induction values with
  | nil =>
    intro fuel p fill enough small served aligned held reads room
    obtain ⟨fuel,rfl⟩ := Nat.exists_eq_add_of_lt (Nat.zero_lt_of_lt enough)
    refine ⟨p,?_,?_⟩
    · rw [Nat.zero_add,unpackLoop,if_neg]
      rw [List.length_nil,Nat.zero_mul] at room
      omega
    · exact (memcpy_nil p.bank p.outPos).symm
  | cons value values ih =>
    intro fuel p fill enough small served aligned held reads room
    obtain ⟨fuel,rfl⟩ := Nat.exists_eq_add_of_lt (Nat.zero_lt_of_lt enough)
    rw [List.length_cons,Nat.succ_mul] at reads room
    rw [List.flatMap_cons,List.append_assoc] at held
    rw [Nat.zero_add,List.length_cons] at enough
    obtain ⟨after,taken,step⟩ := unpackLoop_step fine fuel served (small value List.mem_cons_self) aligned held
      (by omega : _ ≤ 8 * inDataEnd) (by omega : _ ≤ outDataEnd)
    have passed := taken.passed
    obtain ⟨done,run,bank⟩ := @ih fuel ⟨p.outPos + f.valSize,after,f.next entry p.outVal value,
        memcpy p.bank p.outPos ((valueBytes f.valSize (f.next entry p.outVal value)).map some)⟩ _ (by omega)
      (fun other member => small other (.tail _ member)) served.tail taken.aligned taken.left
      (by dsimp only; omega) (by dsimp only; omega)
    refine ⟨done,by rw [Nat.zero_add,step,run],?_⟩
    have size : ((valueBytes f.valSize (f.next entry p.outVal value)).map some).length = f.valSize := by
      rw [List.length_map,valueBytes_length fine.valSize]
    have joined := memcpy_append p.bank p.outPos
      ((valueBytes f.valSize (f.next entry p.outVal value)).map some)
      (((f.samples entry (f.next entry p.outVal value) values).flatMap (valueBytes f.valSize)).map some)
    rw [size] at joined
    rw [bank,joined,samples,List.flatMap_cons,List.map_append]

theorem lowByte_toNat (value : Nat) : (lowByte value).toNat = value % 0x100 := UInt8.toNat_ofNat'

theorem highByte_toNat (value : Nat) : (highByte value).toNat = value / 0x100 % 0x100 := UInt8.toNat_ofNat'

structure Headed (f : Format) (size : Nat) (data : List UInt8) : Prop where
  compr : data[0]? = some f.comprType
  sized : readLE32 data 1 = some size
  decoded : (data[5]?).map UInt8.toNat = some f.bitDec
  packed : (data[6]?).map UInt8.toNat = some f.bitCmp
  sub : (data[7]?).map UInt8.toNat = some f.cmpSubType
  added : readLE16 data 8 = some f.addVal

theorem header_headed (fine : f.Fine) {size : Nat} (fits : size < 0x100000000) (packed : List UInt8) :
    f.Headed size (f.header size ++ packed) := by
  have sub : f.cmpSubType < 0x100 := by
    unfold cmpSubType
    split <;> decide
  have small (value : Nat) (less : value < 0x100) : some (UInt8.ofNat value).toNat = some value := by
    rw [UInt8.toNat_ofNat_of_lt' less]
  refine ⟨rfl,?_,small _ (by have := fine.decoded; omega),small _ (by have := fine.packed; omega),
    small _ sub,?_⟩
  · change some ((lowByte size).toNat + 0x100 * (highByte size).toNat +
      0x10000 * ((lowByte (size / 0x10000)).toNat + 0x100 * (highByte (size / 0x10000)).toNat)) = some size
    simp only [lowByte_toNat,highByte_toNat]
    congr 1
    omega
  · change some ((lowByte f.addVal).toNat + 0x100 * (highByte f.addVal).toNat) = some f.addVal
    have := fine.added
    simp only [lowByte_toNat,highByte_toNat]
    congr 1
    omega

theorem unpackLoop_block (fine : f.Fine) {fuel : Nat} {values : List Nat} (enough : values.length < fuel)
    (small : ∀ value ∈ values, value < 2 ^ f.bitCmp) (served : f.Served table entry values)
    (rest : List UInt8) (bank : Nat → Option UInt8) :
    ∃ done, unpackLoop (f.block values ++ rest) (f.block values).length (values.length * f.valSize)
      f.bitCmp f.valSize (f.emit table) fuel ⟨0,⟨0x0A,0⟩,f.first,bank⟩ = some done ∧
      done.bank = memcpy bank 0 ((f.sampleBytes entry values).map some) := by
  obtain ⟨fill,held,_⟩ := ofBytes_toBytes (values.flatMap (pack f.bitCmp))
  have count : (values.flatMap (pack f.bitCmp)).length = values.length * f.bitCmp := by
    simp [List.length_flatMap]
  have bits : stream (f.block values ++ rest) ⟨0x0A,0⟩ = values.flatMap (pack f.bitCmp) ++ (fill ++ ofBytes rest) := by
    rw [stream,List.drop_zero,block,List.append_assoc]
    change ofBytes (toBytes (values.flatMap (pack f.bitCmp)) ++ rest) = _
    rw [ofBytes_append,held,List.append_assoc]
  have long : (Place.mk 0x0A 0).bit + values.length * f.bitCmp ≤ 8 * (f.block values).length := by
    rw [block,List.length_append,toBytes_length,count]
    change 8 * 10 + 0 + _ ≤ 8 * (10 + _)
    omega
  exact unpackLoop_samples fine enough small served (Nat.zero_lt_succ 7) bits long (Nat.zero_add _)

/-- Unpacking a block gives the samples of the values that were packed. -/
theorem decompressDataBlk_block (fine : f.Fine) {fuel : Nat} {values : List Nat} (enough : values.length < fuel)
    (small : ∀ value ∈ values, value < 2 ^ f.bitCmp) (served : f.Served table entry values)
    (fits : values.length * f.valSize < 0x100000000) (rest : List UInt8) (bank : Nat → Option UInt8) :
    decompressDataBlk fuel table (f.block values ++ rest) (f.block values).length bank =
      some (true,values.length * f.valSize,memcpy bank 0 ((f.sampleBytes entry values).map some)) := by
  have headed := header_headed fine fits (toBytes (values.flatMap (pack f.bitCmp)) ++ rest)
  rw [← List.append_assoc,← block] at headed
  obtain ⟨done,run,written⟩ := unpackLoop_block fine enough small served rest bank
  have looks : f.cmpSubType = 2 → tableUnfit table f.bitDec f.bitCmp = false := by
    intro sub
    cases kind : f.kind <;> simp only [cmpSubType,kind,OfNat.zero_ne_ofNat,OfNat.one_ne_ofNat] at sub
    exact served.fit (.inl kind)
  unfold valSize at run
  by_cases delta : f.kind = .delta
  · have compr : f.comprType.toNat = 1 := by rw [comprType,if_pos delta]; rfl
    have passes : f.emit table = emitDelta table f.bitDec := by rw [emit,delta]
    have few : f.bitDec < 31 := by have := fine.decoded; omega
    have unfit := served.fit (.inr delta)
    rw [passes,first,if_pos delta] at run
    simp only [decompressDataBlk,headed.compr,headed.sized,compr,headed.decoded,headed.packed,headed.added,
      Option.bind_eq_bind,Option.bind_some,unfit,few,if_true,Bool.false_eq_true,if_false,valSize,run]
    rw [written]
  · have compr : f.comprType.toNat = 0 := by rw [comprType,if_neg delta]; rfl
    have passes : f.emit table = emitBits table f.bitDec f.bitCmp f.cmpSubType f.addVal := by
      unfold emit
      split
      · contradiction
      · rfl
    have fit : ¬(f.cmpSubType = 2 ∧ tableUnfit table f.bitDec f.bitCmp = true) := by
      rintro ⟨sub,unfit⟩
      rw [looks sub] at unfit
      exact Bool.false_ne_true unfit
    rw [passes,first,if_neg delta] at run
    simp only [decompressDataBlk,headed.compr,headed.sized,compr,headed.decoded,headed.packed,headed.sub,
      headed.added,Option.bind_eq_bind,Option.bind_some,fit,if_false,valSize,run]
    rw [written]

def steps : PcmTable := ⟨0,0,8,3,3,[0,1,0xff]⟩

def differences : Format := ⟨.delta,8,3,0x80⟩

theorem decompressDataBlk_differences :
    decompressDataBlk 5 steps (differences.block [1,2,0,2] ++ [0x66]) (differences.block [1,2,0,2]).length
      (fun _ => none) = some (true,4,memcpy (fun _ => none) 0 ([0x81,0x80,0x80,0x7f].map some)) :=
  @decompressDataBlk_block differences steps (fun index => (tableEntry steps 1 index).getD 0)
    ⟨by decide,by decide,by decide,nofun⟩ 5 [1,2,0,2] (by decide) (by decide)
    ⟨fun _ => by decide,fun _ => by decide⟩ (by decide) [0x66] fun _ => none

end Format

end Chipbox.VgmPlay
