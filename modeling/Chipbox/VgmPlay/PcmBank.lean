import Chipbox.Foundation.Run
import Chipbox.VgmPlay.DataBlock
import Mathlib.Logic.Function.Basic
import Mathlib.Tactic.Common

/-! The banks of samples that the data blocks of a VGM file fill and its DAC commands read. A file
that is played again finds its blocks loaded and skips them. -/
namespace Chipbox.VgmPlay

open Native (memcpy)

/-- `VGM_PCM_DATA`, whose pointer is the start in the bank. -/
structure PcmData where
  dataSize : Nat
  dataStart : Nat

/-- `VGM_PCM_BANK`; its `BankCount` is the length of `bank`. -/
structure PcmBank where
  bank : List PcmData
  dataSize : Nat
  data : Nat → Option UInt8
  dataPos : Nat
  bnkPos : Nat

structure Pcm where
  pcmBank : Nat → PcmBank
  pcmTbl : PcmTable
  vgmCurLoop : Nat

namespace PcmBank

def empty : PcmBank := ⟨[],0,fun _ => none,0,0⟩

/-- The bank after `realloc`, with what is written behind its data. -/
def joined (b : PcmBank) (behind : Nat → Option UInt8) : Nat → Option UInt8 := fun cell =>
  if cell < b.dataSize then b.data cell else behind (cell - b.dataSize)

/-- The part of `AddPCMData` that loads a block; sizes past 32 bits have no outcome. -/
def loadBlock (fuel : Nat) (table : PcmTable) (b : PcmBank) (type : UInt8) (dataSize : Nat)
    (data : List UInt8) : Option PcmBank :=
  if type &&& 0x40 = 0 then
    if dataSize ≤ data.length ∧ b.dataSize + dataSize < 0x100000000 then
      some { b with
        bank := b.bank ++ [⟨dataSize,b.dataSize⟩]
        dataSize := b.dataSize + dataSize
        data := b.joined (memcpy (fun _ => none) 0 ((data.take dataSize).map some)) }
    else none
  else (readLE32 data 1).bind fun bankSize =>
    if b.dataSize + bankSize < 0x100000000 then
      (decompressDataBlk fuel table data dataSize fun _ => none).map fun (retVal,size,bytes) =>
        if retVal then { b with
          bank := b.bank ++ [⟨size,b.dataSize⟩]
          dataSize := b.dataSize + bankSize
          data := b.joined bytes }
        else { b with bank := b.bank ++ [⟨0,b.dataSize⟩], data := b.joined bytes }
    else none

end PcmBank

namespace Pcm

/-- The state after `Chips_GeneralActions(0x00)`. -/
def initial : Pcm := ⟨fun _ => .empty,⟨0,0,0,0,0,[]⟩,0⟩

def setBank (s : Pcm) (type : Nat) (b : PcmBank) : Pcm := { s with pcmBank := Function.update s.pcmBank type b }

/-- `AddPCMData` of a block of the file. -/
def addPCMData (fuel : Nat) (s : Pcm) (type : UInt8) (dataSize : Nat) (data : List UInt8) : Option Pcm :=
  let bnkType := (type &&& 0x3F).toNat
  if bnkType ≥ 0x40 ∨ s.vgmCurLoop ≠ 0 then some s
  else if type = 0x7F then (readPCMTable data).map fun table => { s with pcmTbl := table }
  else
    let b : PcmBank := { s.pcmBank bnkType with bnkPos := (s.pcmBank bnkType).bnkPos + 1 }
    -- A block that was loaded when the file was played before.
    if b.bnkPos ≤ b.bank.length then some (s.setBank bnkType b)
    else (b.loadBlock fuel s.pcmTbl type dataSize data).map (s.setBank bnkType)

def getDACFromPCMBank (s : Pcm) : Option UInt8 × Pcm :=
  let b := s.pcmBank 0
  if b.dataPos ≥ b.dataSize then (some 0x80,s)
  else (b.data b.dataPos,s.setBank 0 { b with dataPos := b.dataPos + 1 })

/-- What `RestartPlaying` does to the banks. -/
def restart (s : Pcm) : Pcm where
  pcmBank type := { s.pcmBank type with dataPos := 0, bnkPos := 0 }
  pcmTbl := { s.pcmTbl with entryCount := 0 }
  vgmCurLoop := 0

end Pcm

/-- The commands of a file that concern the banks; `loop` is the jump back at its end. -/
inductive PcmCommand
  | block (type : UInt8) (dataSize : Nat) (data : List UInt8)
  | seek (dataPos : Nat)
  | read
  | loop

/-- The banks with the samples that the DAC was given, the last first. -/
structure Listening where
  pcm : Pcm
  heard : List (Option UInt8)

namespace Listening

def step (fuel : Nat) (l : Listening) : PcmCommand → Option Listening
  | .block type dataSize data => (l.pcm.addPCMData fuel type dataSize data).map fun pcm => ⟨pcm,l.heard⟩
  | .seek dataPos => some ⟨l.pcm.setBank 0 { l.pcm.pcmBank 0 with dataPos },l.heard⟩
  | .read => some ⟨l.pcm.getDACFromPCMBank.2,l.pcm.getDACFromPCMBank.1::l.heard⟩
  | .loop => some ⟨{ l.pcm with vgmCurLoop := l.pcm.vgmCurLoop + 1 },l.heard⟩

/-- A read does not run past what is loaded. -/
def ReadsInside (l : Listening) : PcmCommand → Prop
  | .read => (l.pcm.pcmBank 0).dataPos < (l.pcm.pcmBank 0).dataSize
  | _ => True

instance (l : Listening) : ∀ command, Decidable (l.ReadsInside command)
  | .read => inferInstanceAs (Decidable (_ < _))
  | .block _ _ _ | .seek _ | .loop => .isTrue trivial

end Listening

/-- The second bank has all that the first one has, at the same places. -/
structure PcmBank.Grows (b later : PcmBank) : Prop where
  count : b.bank.length ≤ later.bank.length
  size : b.dataSize ≤ later.dataSize
  kept : ∀ cell < b.dataSize, later.data cell = b.data cell

def Pcm.Grows (s later : Pcm) : Prop := ∀ type, (s.pcmBank type).Grows (later.pcmBank type)

namespace PcmBank.Grows

theorem refl (b : PcmBank) : b.Grows b := ⟨le_rfl,le_rfl,fun _ _ => rfl⟩

theorem trans {b c d : PcmBank} (first : b.Grows c) (second : c.Grows d) : b.Grows d where
  count := first.count.trans second.count
  size := first.size.trans second.size
  kept cell inside := (second.kept cell (inside.trans_le first.size)).trans (first.kept cell inside)

end PcmBank.Grows

namespace PcmBank

theorem joined_kept (b : PcmBank) (behind : Nat → Option UInt8) {cell : Nat} (inside : cell < b.dataSize) :
    b.joined behind cell = b.data cell := if_pos inside

structure Loads (b after : PcmBank) : Prop where
  count : after.bank.length = b.bank.length + 1
  grows : b.Grows after
  pos : after.dataPos = b.dataPos
  bnk : after.bnkPos = b.bnkPos

theorem loads_of_joined (b : PcmBank) (block : PcmData) (more : Nat) (behind : Nat → Option UInt8) :
    b.Loads { b with bank := b.bank ++ [block], dataSize := b.dataSize + more, data := b.joined behind } where
  count := List.length_append
  grows := ⟨by simp,Nat.le_add_right _ _,fun _ inside => b.joined_kept behind inside⟩
  pos := rfl
  bnk := rfl

theorem loadBlock_loads {fuel : Nat} {table : PcmTable} {b after : PcmBank} {type : UInt8} {dataSize : Nat}
    {data : List UInt8} (loaded : b.loadBlock fuel table type dataSize data = some after) : b.Loads after := by
  unfold loadBlock at loaded
  split at loaded
  · split at loaded
    · obtain rfl := Option.some.inj loaded
      exact b.loads_of_joined _ _ _
    · contradiction
  · obtain ⟨bankSize,_,loaded⟩ := Option.bind_eq_some_iff.mp loaded
    split at loaded
    · obtain ⟨⟨retVal,size,bytes⟩,_,rfl⟩ := Option.map_eq_some_iff.mp loaded
      cases retVal with
      | true => exact b.loads_of_joined _ _ _
      | false => exact b.loads_of_joined _ 0 _
    · contradiction

end PcmBank

namespace Pcm

@[simp] theorem setBank_same (s : Pcm) (type : Nat) (b : PcmBank) : (s.setBank type b).pcmBank type = b :=
  Function.update_self _ _ _

theorem setBank_other (s : Pcm) {type other : Nat} (b : PcmBank) (apart : other ≠ type) :
    (s.setBank type b).pcmBank other = s.pcmBank other := Function.update_of_ne apart _ _

theorem setBank_grows {s : Pcm} {type : Nat} {b : PcmBank} (grows : (s.pcmBank type).Grows b) :
    s.Grows (s.setBank type b) := by
  intro other
  by_cases same : other = type
  · subst same
    rw [setBank_same]
    exact grows
  · rw [setBank_other s b same]
    exact .refl _

theorem bankType_lt (type : UInt8) : (type &&& 0x3F).toNat < 0x40 := by
  rw [UInt8.toNat_and]
  exact Nat.lt_succ_of_le Nat.and_le_right

theorem not_stopped {s : Pcm} (type : UInt8) (going : s.vgmCurLoop = 0) :
    ¬((type &&& 0x3F).toNat ≥ 0x40 ∨ s.vgmCurLoop ≠ 0) :=
  not_or.mpr ⟨Nat.not_le_of_lt (bankType_lt type),not_not.mpr going⟩

/-- What a block does: nothing, in the second and later rounds of a loop; it sets the table; it is skipped;
or it is loaded behind the others. -/
theorem addPCMData_cases {fuel : Nat} {s t : Pcm} {type : UInt8} {dataSize : Nat} {data : List UInt8}
    (added : s.addPCMData fuel type dataSize data = some t) :
    (s.vgmCurLoop ≠ 0 ∧ t = s) ∨
    (s.vgmCurLoop = 0 ∧ type = 0x7F ∧ ∃ table, readPCMTable data = some table ∧ t = { s with pcmTbl := table }) ∨
    (s.vgmCurLoop = 0 ∧ type ≠ 0x7F ∧ ∃ bnkType b,
      bnkType = (type &&& 0x3F).toNat ∧ b = { s.pcmBank bnkType with bnkPos := (s.pcmBank bnkType).bnkPos + 1 } ∧
      ((b.bnkPos ≤ b.bank.length ∧ t = s.setBank bnkType b) ∨
        (b.bank.length < b.bnkPos ∧ ∃ after, b.Loads after ∧ t = s.setBank bnkType after))) := by
  by_cases stopped : s.vgmCurLoop ≠ 0
  · rw [addPCMData,if_pos (.inr stopped)] at added
    exact .inl ⟨stopped,(Option.some.inj added).symm⟩
  · have going : s.vgmCurLoop = 0 := not_not.mp stopped
    rw [addPCMData,if_neg (not_stopped type going)] at added
    by_cases isTable : type = 0x7F
    · rw [if_pos isTable] at added
      obtain ⟨table,read,rfl⟩ := Option.map_eq_some_iff.mp added
      exact .inr (.inl ⟨going,isTable,table,read,rfl⟩)
    · rw [if_neg isTable] at added
      refine .inr (.inr ⟨going,isTable,_,_,rfl,rfl,?_⟩)
      dsimp only at added ⊢
      split at added
      · rename_i skipped
        exact .inl ⟨skipped,(Option.some.inj added).symm⟩
      · rename_i fresh
        obtain ⟨after,loaded,rfl⟩ := Option.map_eq_some_iff.mp added
        exact .inr ⟨Nat.lt_of_not_le fresh,after,PcmBank.loadBlock_loads loaded,rfl⟩

end Pcm

end Chipbox.VgmPlay
