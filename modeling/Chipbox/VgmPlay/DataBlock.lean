import Chipbox.Native.Fifo

/-! The data blocks of a VGM file: samples packed into a few bits each, as `DecompressDataBlk` of
`VGMPlay.c` unpacks them. Reads outside the file and shifts by 32 or more have no outcome. -/
namespace Chipbox.VgmPlay

open Native (memcpy)

def uint32 (value : Nat) : Nat := value % 0x100000000

def readLE16 (data : List UInt8) (pos : Nat) : Option Nat := do
  let low ← data[pos]?
  let high ← data[pos + 1]?
  some (low.toNat + 0x100 * high.toNat)

def readLE32 (data : List UInt8) (pos : Nat) : Option Nat := do
  let low ← readLE16 data pos
  let high ← readLE16 data (pos + 2)
  some (low + 0x10000 * high)

/-- `PCMBANK_TBL`, the values that packed samples may index. -/
structure PcmTable where
  comprType : Nat
  cmpSubType : Nat
  bitDec : Nat
  bitCmp : Nat
  entryCount : Nat
  entries : List UInt8

def valSizeOf (bitDec : Nat) : Nat := (bitDec + 7) / 8

/-- `ReadPCMTable`; `data` is the file from the block on. -/
def readPCMTable (data : List UInt8) : Option PcmTable := do
  let comprType ← data[0]?
  let cmpSubType ← data[1]?
  let bitDec ← data[2]?
  let bitCmp ← data[3]?
  let entryCount ← readLE16 data 4
  let tblSize := entryCount * valSizeOf bitDec.toNat
  if 6 + tblSize ≤ data.length then
    some ⟨comprType.toNat,cmpSubType.toNat,bitDec.toNat,bitCmp.toNat,entryCount,
      (data.drop 6).take tblSize⟩
  else none

structure Place where
  inPos : Nat
  inShift : Nat

/-- One pass of the loop that reads a value: `bitReadVal` bits, at most eight. -/
def readChunk (data : List UInt8) (place : Place) (bitReadVal : Nat) : Option (Nat × Place) := do
  let bitMask := (1 <<< bitReadVal) - 1
  let inShift := place.inShift + bitReadVal
  let byte ← data[place.inPos]?
  let inValB := (byte.toNat <<< inShift >>> 8) &&& bitMask
  if inShift ≥ 8 then
    if inShift - 8 = 0 then some (inValB,⟨place.inPos + 1,0⟩)
    else
      let next ← data[place.inPos + 1]?
      some (inValB ||| ((next.toNat <<< (inShift - 8) >>> 8) &&& bitMask),⟨place.inPos + 1,inShift - 8⟩)
  else some (inValB,⟨place.inPos,inShift⟩)

/-- The loop that reads a value, the low eight bits first; every pass reads at least one bit. -/
def readBitsLoop (data : List UInt8) : Nat → Nat → Place → Nat → Nat → Option (Nat × Place)
  | 0,_,_,_,_ => none
  | fuel + 1,bitsToRead,place,outBit,inVal =>
    if bitsToRead = 0 then some (inVal,place)
    else do
      let bitReadVal := if bitsToRead ≥ 8 then 8 else bitsToRead
      let (inValB,place) ← readChunk data place bitReadVal
      if outBit < 32 then
        readBitsLoop data fuel (bitsToRead - bitReadVal) place (outBit + bitReadVal)
          (inVal ||| uint32 (inValB <<< outBit))
      else none

def readBits (data : List UInt8) (bitCmp : Nat) (place : Place) : Option (Nat × Place) :=
  readBitsLoop data (bitCmp + 1) bitCmp place 0 0

structure Progress where
  outPos : Nat
  place : Place
  outVal : Nat
  bank : Nat → Option UInt8

/-- The loop over the values. `emit` is what a pass makes of the value read and of the last value
written, and the bytes it writes; the caller has room for exactly `outDataEnd` bytes. -/
def unpackLoop (data : List UInt8) (inDataEnd outDataEnd bitCmp valSize : Nat)
    (emit : Nat → Nat → Option (Nat × List UInt8)) : Nat → Progress → Option Progress
  | 0,_ => none
  | fuel + 1,p =>
    if p.outPos < outDataEnd ∧ p.place.inPos < inDataEnd then do
      let (inVal,place) ← readBits data bitCmp p.place
      let (outVal,bytes) ← emit inVal p.outVal
      if p.outPos + bytes.length ≤ outDataEnd then
        unpackLoop data inDataEnd outDataEnd bitCmp valSize emit fuel
          ⟨p.outPos + valSize,place,outVal,memcpy p.bank p.outPos (bytes.map some)⟩
      else none
    else some p

def lowByte (value : Nat) : UInt8 := UInt8.ofNat value
def highByte (value : Nat) : UInt8 := UInt8.ofNat (value / 0x100)

/-- What is written of a value: one byte, or two with the low one first. -/
def valueBytes (valSize value : Nat) : List UInt8 :=
  if valSize = 1 then [lowByte value] else [lowByte value,highByte value]

def tableEntry (table : PcmTable) (valSize index : Nat) : Option Nat :=
  if valSize = 1 then (table.entries[index]?).map UInt8.toNat else readLE16 table.entries (2 * index)

/-- `OutVal` of a pass of the n-bit compression: copied, shifted up or looked up. -/
def bitsValue (table : PcmTable) (bitDec bitCmp cmpSubType addVal inVal outVal : Nat) : Option Nat :=
  match cmpSubType with
  | 0x00 => some (uint32 (inVal + addVal))
  | 0x01 =>
    -- The difference is unsigned: where it is negative the shift is by far more than 32.
    if bitCmp ≤ bitDec ∧ bitDec - bitCmp < 32 then some (uint32 (inVal <<< (bitDec - bitCmp) + addVal))
    else none
  | 0x02 =>
    if valSizeOf bitDec = 1 ∨ valSizeOf bitDec = 2 then tableEntry table (valSizeOf bitDec) inVal
    else some outVal
  | _ => some outVal

def emitBits (table : PcmTable) (bitDec bitCmp cmpSubType addVal inVal outVal : Nat) :
    Option (Nat × List UInt8) :=
  (bitsValue table bitDec bitCmp cmpSubType addVal inVal outVal).map fun outVal =>
    (outVal,valueBytes (valSizeOf bitDec) outVal)

def emitDelta (table : PcmTable) (bitDec inVal outVal : Nat) : Option (Nat × List UInt8) :=
  let valSize := valSizeOf bitDec
  if valSize = 1 ∨ valSize = 2 then do
    let addVal ← tableEntry table valSize inVal
    let outVal := uint32 (outVal + addVal) &&& (((1 <<< bitDec) - 1) % 0x10000)
    some (outVal,valueBytes valSize outVal)
  else some (outVal,[])

def tableUnfit (table : PcmTable) (bitDec bitCmp : Nat) : Bool :=
  table.entryCount = 0 ∨ bitDec ≠ table.bitDec ∨ bitCmp ≠ table.bitCmp

/-- `DecompressDataBlk`: whether it succeeds, the size of the bank's block and its bytes. `data` is
the file from the block on, `dataSize` the length of the block; `fuel` bounds the passes. -/
def decompressDataBlk (fuel : Nat) (table : PcmTable) (data : List UInt8) (dataSize : Nat)
    (bank : Nat → Option UInt8) : Option (Bool × Nat × (Nat → Option UInt8)) := do
  let comprType ← data[0]?
  let size ← readLE32 data 1
  let start := Place.mk 0x0A 0
  match comprType.toNat with
  | 0x00 => do
    let bitDec ← (data[5]?).map UInt8.toNat
    let bitCmp ← (data[6]?).map UInt8.toNat
    let cmpSubType ← (data[7]?).map UInt8.toNat
    let addVal ← readLE16 data 8
    if cmpSubType = 0x02 ∧ tableUnfit table bitDec bitCmp then some (false,0,bank)
    else
      let done ← unpackLoop data dataSize size bitCmp (valSizeOf bitDec)
        (emitBits table bitDec bitCmp cmpSubType addVal) fuel ⟨0,start,0,bank⟩
      some (true,size,done.bank)
  | 0x01 => do
    let bitDec ← (data[5]?).map UInt8.toNat
    let bitCmp ← (data[6]?).map UInt8.toNat
    let outVal ← readLE16 data 8
    if tableUnfit table bitDec bitCmp then some (false,0,bank)
    else if bitDec < 31 then
      let done ← unpackLoop data dataSize size bitCmp (valSizeOf bitDec)
        (emitDelta table bitDec) fuel ⟨0,start,outVal,bank⟩
      some (true,size,done.bank)
    else none
  | _ => some (false,size,bank)

end Chipbox.VgmPlay
