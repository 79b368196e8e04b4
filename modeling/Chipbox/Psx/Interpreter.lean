import Mathlib.Logic.Function.Basic
import Mathlib.Tactic.Common

/-! The interpreter of the PlayStation's R3000A: `PsxInterpreter.c` and `R3000A.c`, over the memory,
the devices and the BIOS calls of a machine. What C leaves undefined has no outcome. -/
namespace Chipbox.Psx

abbrev Word := BitVec 32

abbrev Reg := BitVec 5

structure Cpu (World : Type) where
  gpr : Reg → Word
  lo : Word
  hi : Word
  cp0 : Reg → Word
  pc : Word
  code : Word
  cycle : Word
  branch : Bool
  branch2 : Bool
  branchPC : Word
  world : World

variable {World : Type}

structure Machine (World : Type) where
  PSXMu32 : World → Word → Option Word
  psxMemRead8 : World → Word → Option (BitVec 8 × World)
  psxMemRead16 : World → Word → Option (BitVec 16 × World)
  psxMemRead32 : World → Word → Option (BitVec 32 × World)
  psxMemWrite8 : World → Word → BitVec 8 → Option World
  psxMemWrite16 : World → Word → BitVec 16 → Option World
  psxMemWrite32 : World → Word → BitVec 32 → Option World
  /-- `psxRcntUpdate` at a cycle, where it is due. -/
  psxRcntUpdate : World → Word → World
  /-- An interrupt is set in `0x1070` and its mask in `0x1074`. -/
  interrupt : World → Bool
  /-- The cycles that `CounterDeadLoopSkip` adds. -/
  deadLoopSkip : World → Word → Word
  psxHLEt : BitVec 8 → Cpu World → Option (Cpu World)
  psxBiosException : Cpu World → Option (Cpu World)

section Fields

def opcode (code : Word) : Nat := (code.extractLsb' 26 6).toNat
def funct (code : Word) : Nat := (code.extractLsb' 0 6).toNat
def rd (code : Word) : Reg := code.extractLsb' 11 5
def rt (code : Word) : Reg := code.extractLsb' 16 5
def rs (code : Word) : Reg := code.extractLsb' 21 5
def sa (code : Word) : Nat := (code.extractLsb' 6 5).toNat
def imm (code : Word) : Word := (code.extractLsb' 0 16).signExtend 32
def immU (code : Word) : Word := (code.extractLsb' 0 16).setWidth 32

end Fields

namespace Cpu

def setReg (c : Cpu World) (reg : Reg) (value : Word) : Cpu World :=
  { c with gpr := Function.update c.gpr reg value }

/-- A result, which register zero does not take. -/
def put (c : Cpu World) (reg : Reg) (value : Word) : Cpu World :=
  if reg = 0 then c else c.setReg reg value

def rRs (c : Cpu World) : Word := c.gpr (rs c.code)
def rRt (c : Cpu World) : Word := c.gpr (rt c.code)
def jumpTarget (c : Cpu World) : Word :=
  (c.code &&& 0x03ffffff#32) * 4 + (c.pc &&& 0xf0000000#32)
def branchTarget (c : Cpu World) : Word := imm c.code * 4 + c.pc
def setLink (c : Cpu World) (reg : Reg) : Cpu World := c.setReg reg (c.pc + 4)

end Cpu

def regStatus : Reg := 12
def regCause : Reg := 13
def regEPC : Reg := 14

def psxException (m : Machine World) (code : Word) (bd : Bool) (c : Cpu World) : Option (Cpu World) :=
  let status := c.cp0 regStatus
  let cp0 := Function.update c.cp0 regCause (if bd then code ||| 0x80000000#32 else code)
  let cp0 := Function.update cp0 regEPC (if bd then c.pc - 4 else c.pc)
  let pc : Word := if status &&& 0x400000#32 ≠ 0 then 0xbfc00180 else 0x80000080
  let cp0 := Function.update cp0 regStatus ((status &&& ~~~0x3f#32) ||| ((status &&& 0xf#32) <<< 2))
  m.psxBiosException { c with cp0 := cp0, pc := pc }

def psxBranchTest (m : Machine World) (c : Cpu World) : Option (Cpu World) :=
  let c := { c with world := m.psxRcntUpdate c.world c.cycle }
  if m.interrupt c.world ∧ c.cp0 regStatus &&& 0x401#32 = 0x401 then psxException m 0x400 false c
  else some c

/-- What an instruction does: the state after it, and where `doBranch` is called the target. -/
abbrev Instr (World : Type) := Cpu World → Option (Cpu World × Option Word)

section Families

/-- `rt` from `rs` and the instruction. -/
def immediate (f : Word → Word → Word) : Instr World := fun c =>
  some (c.put (rt c.code) (f c.rRs c.code),none)

/-- `rd` from `rs` and `rt`. -/
def register (f : Word → Word → Word) : Instr World := fun c =>
  some (c.put (rd c.code) (f c.rRs c.rRt),none)

/-- `rd` from `rt` and the number of bits. -/
def shift (f : Word → Nat → Word) : Instr World := fun c =>
  some (c.put (rd c.code) (f c.rRt (sa c.code)),none)

/-- `rd` from `rt` and `rs`, of which C leaves 32 bits and more undefined. -/
def shiftV (f : Word → Nat → Word) : Instr World := fun c =>
  if rd c.code = 0 then some (c,none)
  else if 32 ≤ c.rRs.toNat then none
  else some (c.put (rd c.code) (f c.rRt c.rRs.toNat),none)

/-- `lo` and `hi` from `rs` and `rt`. -/
def product (f : Word → Word → BitVec 64) : Instr World := fun c =>
  some ({ c with lo := (f c.rRs c.rRt).extractLsb' 0 32, hi := (f c.rRs c.rRt).extractLsb' 32 32 },none)

def load {n : Nat} (read : World → Word → Option (BitVec n × World)) (extend : BitVec n → Word) :
    Instr World := fun c =>
  (read c.world (c.rRs + imm c.code)).map fun (value,world) =>
    ({ c with world := world }.put (rt c.code) (extend value),none)

/-- `rt` from itself and the aligned word, by the place in the word. -/
def loadPart (m : Machine World) (merge : Nat → Word → Word → Word) : Instr World := fun c =>
  (m.psxMemRead32 c.world ((c.rRs + imm c.code) &&& ~~~3#32)).map fun (mem,world) =>
    ({ c with world := world }.put (rt c.code)
      (merge ((c.rRs + imm c.code) &&& 3#32).toNat c.rRt mem),none)

def storeWith {n : Nat} (write : World → Word → BitVec n → Option World) (narrow : Word → BitVec n) :
    Instr World := fun c =>
  (write c.world (c.rRs + imm c.code) (narrow c.rRt)).map fun world => ({ c with world := world },none)

/-- The aligned word from `rt` and itself, by the place in the word. -/
def storePart (m : Machine World) (merge : Nat → Word → Word → Word) : Instr World := fun c =>
  match m.psxMemRead32 c.world ((c.rRs + imm c.code) &&& ~~~3#32) with
  | none => none
  | some (mem,world) =>
    (m.psxMemWrite32 world ((c.rRs + imm c.code) &&& ~~~3#32)
      (merge ((c.rRs + imm c.code) &&& 3#32).toNat c.rRt mem)).map fun world =>
        ({ c with world := world },none)

/-- `doBranch` where a condition holds. -/
def branchIf (condition : Cpu World → Bool) : Instr World := fun c =>
  some (c,if condition c then some c.branchTarget else none)

def branchLinkIf (condition : Cpu World → Bool) : Instr World := fun c =>
  if condition c then some (c.setLink 31,some (c.setLink 31).branchTarget) else some (c,none)

def asBit (condition : Bool) : Word := if condition then 1 else 0

end Families

section Instructions

def psxADDI : Instr World := immediate fun rs code => rs + imm code
def psxADDIU : Instr World := immediate fun rs code => rs + imm code
def psxANDI : Instr World := immediate fun rs code => rs &&& immU code
def psxORI : Instr World := immediate fun rs code => rs ||| immU code
def psxXORI : Instr World := immediate fun rs code => rs ^^^ immU code
def psxSLTI : Instr World := immediate fun rs code => asBit (rs.slt (imm code))
def psxSLTIU : Instr World := immediate fun rs code => asBit (rs.ult (immU code))
def psxLUI : Instr World := immediate fun _ code => code <<< 16

def psxADD : Instr World := register (· + ·)
def psxADDU : Instr World := register (· + ·)
def psxSUB : Instr World := register (· - ·)
def psxSUBU : Instr World := register (· - ·)
def psxAND : Instr World := register (· &&& ·)
def psxOR : Instr World := register (· ||| ·)
def psxXOR : Instr World := register (· ^^^ ·)
def psxNOR : Instr World := register fun rs rt => ~~~(rs ||| rt)
def psxSLT : Instr World := register fun rs rt => asBit (rs.slt rt)
def psxSLTU : Instr World := register fun rs rt => asBit (rs.ult rt)

def psxDIV : Instr World := fun c =>
  if c.rRt = 0 then some (c,none)
  else if c.rRs = 0x80000000 ∧ c.rRt = 0xffffffff then none
  else some ({ c with lo := c.rRs.sdiv c.rRt, hi := c.rRs.srem c.rRt },none)

def psxDIVU : Instr World := fun c =>
  if c.rRt = 0 then some (c,none)
  else some ({ c with lo := c.rRs.udiv c.rRt, hi := c.rRs.umod c.rRt },none)

def psxMULT : Instr World := product fun rs rt => rs.signExtend 64 * rt.signExtend 64
def psxMULTU : Instr World := product fun rs rt => rs.setWidth 64 * rt.setWidth 64

def psxBGEZ : Instr World := branchIf fun c => decide (0 ≤ c.rRs.toInt)
def psxBGEZAL : Instr World := branchLinkIf fun c => decide (0 ≤ c.rRs.toInt)
def psxBGTZ : Instr World := branchIf fun c => decide (0 < c.rRs.toInt)
def psxBLEZ : Instr World := branchIf fun c => decide (c.rRs.toInt ≤ 0)
def psxBLTZ : Instr World := branchIf fun c => decide (c.rRs.toInt < 0)
def psxBLTZAL : Instr World := branchLinkIf fun c => decide (c.rRs.toInt < 0)

def psxSLL : Instr World := shift fun rt sa => rt <<< sa
def psxSRA : Instr World := shift fun rt sa => rt.sshiftRight sa
def psxSRL : Instr World := shift fun rt sa => rt >>> sa
def psxSLLV : Instr World := shiftV fun rt rs => rt <<< rs
def psxSRAV : Instr World := shiftV fun rt rs => rt.sshiftRight rs
def psxSRLV : Instr World := shiftV fun rt rs => rt >>> rs

def psxMFHI : Instr World := fun c => some (c.put (rd c.code) c.hi,none)
def psxMFLO : Instr World := fun c => some (c.put (rd c.code) c.lo,none)
def psxMTHI : Instr World := fun c => some ({ c with hi := c.rRs },none)
def psxMTLO : Instr World := fun c => some ({ c with lo := c.rRs },none)

def psxBREAK : Instr World := fun c => some (c,none)

def psxSYSCALL (m : Machine World) : Instr World := fun c =>
  (psxException m 0x20 c.branch { c with pc := c.pc - 4 }).map fun c => (c,none)

def psxRFE : Instr World := fun c =>
  let status := c.cp0 regStatus
  let status := (status &&& 0xfffffff0#32) ||| ((status &&& 0x3c#32) >>> 2)
  some ({ c with cp0 := Function.update c.cp0 regStatus status },none)

def psxBEQ : Instr World := branchIf fun c => decide (c.rRs = c.rRt)
def psxBNE : Instr World := branchIf fun c => decide (c.rRs ≠ c.rRt)

def psxJ : Instr World := fun c => some (c,some c.jumpTarget)
def psxJAL : Instr World := fun c => some (c.setLink 31,some (c.setLink 31).jumpTarget)
def psxJR : Instr World := fun c => some (c,some c.rRs)

/-- The target is read after the link is set. -/
def psxJALR : Instr World := fun c =>
  let c := if rd c.code = 0 then c else c.setLink (rd c.code)
  some (c,some c.rRs)

def psxLB (m : Machine World) : Instr World := load m.psxMemRead8 fun value => value.signExtend 32
def psxLBU (m : Machine World) : Instr World := load m.psxMemRead8 fun value => value.setWidth 32
def psxLH (m : Machine World) : Instr World := load m.psxMemRead16 fun value => value.signExtend 32
def psxLHU (m : Machine World) : Instr World := load m.psxMemRead16 fun value => value.setWidth 32
def psxLW (m : Machine World) : Instr World := load m.psxMemRead32 fun value => value

/-- The masks and shifts of the four tables, by the place in the word. -/
def lwlMerge (place : Nat) (reg mem : Word) : Word :=
  match place with
  | 0 => (reg &&& 0xffffff#32) ||| (mem <<< 24)
  | 1 => (reg &&& 0xffff#32) ||| (mem <<< 16)
  | 2 => (reg &&& 0xff#32) ||| (mem <<< 8)
  | _ => (reg &&& 0#32) ||| (mem <<< 0)

def lwrMerge (place : Nat) (reg mem : Word) : Word :=
  match place with
  | 0 => (reg &&& 0#32) ||| (mem >>> 0)
  | 1 => (reg &&& 0xff000000#32) ||| (mem >>> 8)
  | 2 => (reg &&& 0xffff0000#32) ||| (mem >>> 16)
  | _ => (reg &&& 0xffffff00#32) ||| (mem >>> 24)

def swlMerge (place : Nat) (reg mem : Word) : Word :=
  match place with
  | 0 => (reg >>> 24) ||| (mem &&& 0xffffff00#32)
  | 1 => (reg >>> 16) ||| (mem &&& 0xffff0000#32)
  | 2 => (reg >>> 8) ||| (mem &&& 0xff000000#32)
  | _ => (reg >>> 0) ||| (mem &&& 0#32)

def swrMerge (place : Nat) (reg mem : Word) : Word :=
  match place with
  | 0 => (reg <<< 0) ||| (mem &&& 0#32)
  | 1 => (reg <<< 8) ||| (mem &&& 0xff#32)
  | 2 => (reg <<< 16) ||| (mem &&& 0xffff#32)
  | _ => (reg <<< 24) ||| (mem &&& 0xffffff#32)

def psxLWL (m : Machine World) : Instr World := loadPart m lwlMerge
def psxLWR (m : Machine World) : Instr World := loadPart m lwrMerge
def psxSB (m : Machine World) : Instr World := storeWith m.psxMemWrite8 fun reg => reg.setWidth 8
def psxSH (m : Machine World) : Instr World := storeWith m.psxMemWrite16 fun reg => reg.setWidth 16
def psxSW (m : Machine World) : Instr World := storeWith m.psxMemWrite32 fun reg => reg
def psxSWL (m : Machine World) : Instr World := storePart m swlMerge
def psxSWR (m : Machine World) : Instr World := storePart m swrMerge

def psxMFC0 : Instr World := fun c => some (c.put (rt c.code) (c.cp0 (rd c.code)),none)
def psxCFC0 : Instr World := fun c => some (c.put (rt c.code) (c.cp0 (rd c.code)),none)

def psxMTC0 (m : Machine World) : Instr World := fun c =>
  if rd c.code = regCause then
    let c := { c with cp0 := Function.update c.cp0 regCause (c.rRt &&& ~~~0xfc00#32) }
    if c.cp0 regCause &&& c.cp0 regStatus &&& 0x0300#32 ≠ 0 ∧ c.cp0 regStatus &&& 1#32 ≠ 0 then
      (psxException m (c.cp0 regCause) false c).map fun c => (c,none)
    else some (c,none)
  else some ({ c with cp0 := Function.update c.cp0 (rd c.code) c.rRt },none)

def psxCTC0 (m : Machine World) : Instr World := psxMTC0 m

def psxNULL : Instr World := fun c => some (c,none)

def psxHLE (m : Machine World) : Instr World := fun c =>
  (m.psxHLEt (c.code.extractLsb' 0 8) c).map fun c => (c,none)

end Instructions

section Tables

def psxSPC (m : Machine World) : Nat → Instr World
  | 0x00 => psxSLL | 0x02 => psxSRL | 0x03 => psxSRA
  | 0x04 => psxSLLV | 0x06 => psxSRLV | 0x07 => psxSRAV
  | 0x08 => psxJR | 0x09 => psxJALR | 0x0c => psxSYSCALL m | 0x0d => psxBREAK
  | 0x10 => psxMFHI | 0x11 => psxMTHI | 0x12 => psxMFLO | 0x13 => psxMTLO
  | 0x18 => psxMULT | 0x19 => psxMULTU | 0x1a => psxDIV | 0x1b => psxDIVU
  | 0x20 => psxADD | 0x21 => psxADDU | 0x22 => psxSUB | 0x23 => psxSUBU
  | 0x24 => psxAND | 0x25 => psxOR | 0x26 => psxXOR | 0x27 => psxNOR
  | 0x2a => psxSLT | 0x2b => psxSLTU
  | _ => psxNULL

def psxREG : Nat → Instr World
  | 0x00 => psxBLTZ | 0x01 => psxBGEZ | 0x10 => psxBLTZAL | 0x11 => psxBGEZAL
  | _ => psxNULL

def psxCP0 (m : Machine World) : Nat → Instr World
  | 0x00 => psxMFC0 | 0x02 => psxCFC0 | 0x04 => psxMTC0 m | 0x06 => psxCTC0 m | 0x10 => psxRFE
  | _ => psxNULL

def psxBSC (m : Machine World) (code : Word) : Instr World :=
  match opcode code with
  | 0x00 => psxSPC m (funct code) | 0x01 => psxREG (rt code).toNat
  | 0x02 => psxJ | 0x03 => psxJAL | 0x04 => psxBEQ | 0x05 => psxBNE | 0x06 => psxBLEZ | 0x07 => psxBGTZ
  | 0x08 => psxADDI | 0x09 => psxADDIU | 0x0a => psxSLTI | 0x0b => psxSLTIU
  | 0x0c => psxANDI | 0x0d => psxORI | 0x0e => psxXORI | 0x0f => psxLUI
  | 0x10 => psxCP0 m (rs code).toNat
  | 0x20 => psxLB m | 0x21 => psxLH m | 0x22 => psxLWL m | 0x23 => psxLW m
  | 0x24 => psxLBU m | 0x25 => psxLHU m | 0x26 => psxLWR m
  | 0x28 => psxSB m | 0x29 => psxSH m | 0x2a => psxSWL m | 0x2b => psxSW m | 0x2e => psxSWR m
  | 0x3b => psxHLE m
  | _ => psxNULL

end Tables

section Branches

/-- What the instruction at the target of a branch does with the register loaded in the slot. -/
inductive Hazard
  | none
  | read
  | write
  | readWrite

def hazardOf (reads writes : Bool) : Hazard :=
  if reads && writes then .readWrite else if reads then .read else if writes then .write else .none

def hazardSPC (tmp : Word) (reg : Reg) : Nat → Hazard
  | 0x00 => if tmp = 0 then .none else hazardOf (decide (rt tmp = reg)) (decide (rd tmp = reg))
  | 0x02 | 0x03 => hazardOf (decide (rt tmp = reg)) (decide (rd tmp = reg))
  | 0x08 => hazardOf (decide (rs tmp = reg)) false
  | 0x09 => hazardOf (decide (rs tmp = reg)) (decide (rd tmp = reg))
  | 0x20 | 0x21 | 0x22 | 0x23 | 0x24 | 0x25 | 0x26 | 0x27 | 0x2a | 0x2b | 0x04 | 0x06 | 0x07 =>
    hazardOf (decide (rt tmp = reg) || decide (rs tmp = reg)) (decide (rd tmp = reg))
  | 0x10 | 0x12 => hazardOf false (decide (rd tmp = reg))
  | 0x11 | 0x13 => hazardOf (decide (rs tmp = reg)) false
  | 0x18 | 0x19 | 0x1a | 0x1b => hazardOf (decide (rt tmp = reg) || decide (rs tmp = reg)) false
  | _ => .none

def hazardREG (tmp : Word) (reg : Reg) : Nat → Hazard
  | 0x00 | 0x02 | 0x10 | 0x12 => hazardOf (decide (rs tmp = reg)) false
  | _ => .none

/-- By the function, where the instruction is told by `rs`. -/
def hazardCP0 (tmp : Word) (reg : Reg) : Nat → Hazard
  | 0x00 | 0x02 => hazardOf false (decide (rt tmp = reg))
  | 0x04 | 0x06 => hazardOf (decide (rt tmp = reg)) false
  | _ => .none

/-- The switches of `psxDelayTest`. -/
def hazard (tmp : Word) (reg : Reg) : Hazard :=
  match opcode tmp with
  | 0x00 => hazardSPC tmp reg (funct tmp)
  | 0x01 => hazardREG tmp reg (rt tmp).toNat
  | 0x03 => hazardOf false (decide (31 = reg))
  | 0x04 | 0x05 => hazardOf (decide (rs tmp = reg) || decide (rt tmp = reg)) false
  | 0x06 | 0x07 => hazardOf (decide (rs tmp = reg)) false
  | 0x08 | 0x09 | 0x0a | 0x0b | 0x0c | 0x0d | 0x0e =>
    hazardOf (decide (rs tmp = reg)) (decide (rt tmp = reg))
  | 0x0f => hazardOf false (decide (rt tmp = reg))
  | 0x10 => hazardCP0 tmp reg (funct tmp)
  | 0x22 | 0x26 => if rt tmp = reg then .readWrite else hazardOf (decide (rs tmp = reg)) false
  | 0x20 | 0x21 | 0x23 | 0x24 | 0x25 => hazardOf (decide (rs tmp = reg)) (decide (rt tmp = reg))
  | 0x28 | 0x29 | 0x2a | 0x2b | 0x2e => hazardOf (decide (rt tmp = reg) || decide (rs tmp = reg)) false
  | 0x32 | 0x3a => hazardOf (decide (rs tmp = reg)) false
  | _ => .none

/-- The instructions whose result `doBranch` takes for late. -/
def loads (code : Word) : Bool :=
  match opcode code with
  | 0x10 => (rs code).toNat = 0x00 || (rs code).toNat = 0x02
  | 0x32 => true
  | op => 0x20 ≤ op && op ≤ 0x26

variable (m : Machine World) (run : Cpu World → Option (Cpu World))

def execI (c : Cpu World) : Option (Cpu World) :=
  match m.PSXMu32 c.world c.pc with
  | none => none
  | some code => run { c with code := code, pc := c.pc + 4, cycle := c.cycle + 1 }

def delayRead (reg : Reg) (bpc : Word) (c : Cpu World) : Option (Cpu World) :=
  match run c with
  | none => none
  | some slot =>
    match psxBranchTest m { slot with pc := bpc } with
    | none => none
    | some tested =>
      (execI m run (tested.setReg reg (c.gpr reg))).map fun last =>
        { last.setReg reg (slot.gpr reg) with branch := false }

def delayWrite (bpc : Word) (c : Cpu World) : Option (Cpu World) :=
  match run c with
  | none => none
  | some slot => psxBranchTest m { slot with branch := false, pc := bpc }

/-- The instruction of the slot is left out. -/
def delayReadWrite (bpc : Word) (c : Cpu World) : Option (Cpu World) :=
  psxBranchTest m { c with branch := false, pc := bpc }

def psxDelayTest (reg : Reg) (bpc : Word) (c : Cpu World) : Option (Cpu World) :=
  match m.PSXMu32 c.world bpc with
  | none => none
  | some tmp =>
    match hazard tmp reg with
    | .readWrite => delayReadWrite m bpc { c with branch := true }
    | .read => delayRead m run reg bpc { c with branch := true }
    | .write | .none => delayWrite m run bpc { c with branch := true }

def doBranch (tar : Word) (c : Cpu World) : Option (Cpu World) :=
  match m.PSXMu32 c.world c.pc with
  | none => none
  | some code =>
    let c := { c with branch2 := true, branch := true, branchPC := tar, code := code, pc := c.pc + 4,
                      cycle := c.cycle + 1 }
    if loads code then psxDelayTest m run (rt code) tar c
    else match run c with
      | none => none
      | some c =>
        let skip := if c.pc - 8 = c.branchPC ∧ opcode c.code = 0 then m.deadLoopSkip c.world c.cycle else 0
        psxBranchTest m { c with cycle := c.cycle + skip, branch := false, pc := c.branchPC }

end Branches

/-- `psxBSC[psxRegs.code >> 26]()`, by the number of branches in the slots of branches. -/
def exec (m : Machine World) : Nat → Cpu World → Option (Cpu World)
  | 0,_ => none
  | fuel + 1,c =>
    match psxBSC m c.code c with
    | none => none
    | some (c,none) => some c
    | some (c,some tar) => doBranch m (exec m fuel) tar c

/-- One turn of `intExecuteBlock`. -/
def step (m : Machine World) (fuel : Nat) (c : Cpu World) : Option (Cpu World) := execI m (exec m fuel) c

end Chipbox.Psx
