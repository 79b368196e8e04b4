import Chipbox.Psx.Operands

/-! A register loaded in the slot of a branch comes too late for the instruction at the target. The
interpreter gets there by looking at that instruction, and by running it ahead of the load where it
must. -/
namespace Chipbox.Psx

variable {World : Type}

/-- The instruction at the program counter where a load is under way: it does not see the value yet,
and the value comes after it unless it wrote the register itself. -/
def late (m : Machine World) (reg : Reg) (value : Word) (c : Cpu World) : Option (Cpu World) :=
  match m.PSXMu32 c.world c.pc with
  | none => none
  | some code =>
    (psxBSC m code { c with code := code, pc := c.pc + 4, cycle := c.cycle + 1 }).map fun out =>
      if dest code = some reg then out.1 else out.1.setReg reg value

/-- What the answer of `psxDelayTest` has to be right about. -/
structure Sound (answer : Hazard) (reg : Reg) (sources : List Reg) (dest : Option Reg) : Prop where
  clear : answer = .none ∨ answer = .write → reg ∉ sources
  read : answer = .read → dest ≠ some reg
  readWrite : answer = .readWrite → dest = some reg

def Calm (m : Machine World) (c : Cpu World) : Prop :=
  ¬(m.interrupt (m.psxRcntUpdate c.world c.cycle) = true ∧ c.cp0 regStatus &&& 0x401#32 = 0x401)

theorem Tame.flag {code : Word} {i : Instr World} {sources : List Reg} {dest : Option Reg}
    (tame : Tame code i sources dest) {c : Cpu World} {out : Cpu World × Option Word} (here : c.code = code)
    (ran : i c = some out) : out.1.branch = c.branch := by
  have same := tame.branch c c.branch here
  have whole : i { c with branch := c.branch } = some out := ran
  rw [whole,Option.map_some] at same
  exact congrArg (fun next => next.1.branch) (Option.some.inj same)

/-- A program: `jr r31`, in its slot `lw r8,0(r9)`, and from `0x80020000` on `addu r10,r8,r0` and
`nop`. -/
def lateMachine : Machine Unit where
  PSXMu32 := fun _ pc =>
    if pc = 0x80010000 then some 0x03e00008
    else if pc = 0x80010004 then some 0x8d280000
    else if pc = 0x80020000 then some 0x01005021
    else if pc = 0x80020004 then some 0
    else none
  psxMemRead8 := fun _ _ => none
  psxMemRead16 := fun _ _ => none
  psxMemRead32 := fun world _ => some (42,world)
  psxMemWrite8 := fun _ _ _ => none
  psxMemWrite16 := fun _ _ _ => none
  psxMemWrite32 := fun _ _ _ => none
  psxRcntUpdate := fun world _ => world
  interrupt := fun _ => false
  deadLoopSkip := fun _ _ => 0
  psxHLEt := fun _ _ => none
  psxBiosException := fun _ => none

def lateCpu : Cpu Unit where
  gpr := fun reg => if reg = 8 then 7 else if reg = 31 then 0x80020000 else 0
  lo := 0
  hi := 0
  cp0 := fun _ => 0
  pc := 0x80010004
  code := 0x03e00008
  cycle := 0
  branch := false
  branch2 := false
  branchPC := 0
  world := ()

end Chipbox.Psx
