import Chipbox.Psx.Interpreter

/-! The registers that an instruction reads and writes, and that it depends on no others and
changes no others. -/
namespace Chipbox.Psx

variable {World : Type}

def plainSPC : Nat → Bool
  | 0x08 | 0x09 | 0x0c => false
  | _ => true

def plainREG : Nat → Bool
  | 0x00 | 0x01 | 0x10 | 0x11 => false
  | _ => true

def plainCP0 : Nat → Bool
  | 0x04 | 0x06 => false
  | _ => true

/-- The instructions that neither branch nor leave the processor. -/
def plain (code : Word) : Bool :=
  match opcode code with
  | 0x00 => plainSPC (funct code)
  | 0x01 => plainREG (rt code).toNat
  | 0x02 | 0x03 | 0x04 | 0x05 | 0x06 | 0x07 | 0x3b => false
  | 0x10 => plainCP0 (rs code).toNat
  | _ => true

def destSPC (code : Word) : Nat → Option Reg
  | 0x00 | 0x02 | 0x03 | 0x04 | 0x06 | 0x07 | 0x10 | 0x12 | 0x20 | 0x21 | 0x22 | 0x23 | 0x24 | 0x25 | 0x26
  | 0x27 | 0x2a | 0x2b => some (rd code)
  | _ => none

def destCP0 (code : Word) : Nat → Option Reg
  | 0x00 | 0x02 => some (rt code)
  | _ => none

def dest (code : Word) : Option Reg :=
  match opcode code with
  | 0x00 => destSPC code (funct code)
  | 0x08 | 0x09 | 0x0a | 0x0b | 0x0c | 0x0d | 0x0e | 0x0f => some (rt code)
  | 0x10 => destCP0 code (rs code).toNat
  | 0x20 | 0x21 | 0x22 | 0x23 | 0x24 | 0x25 | 0x26 => some (rt code)
  | _ => none

def sourcesSPC (code : Word) : Nat → List Reg
  | 0x00 | 0x02 | 0x03 => [rt code]
  | 0x04 | 0x06 | 0x07 | 0x18 | 0x19 | 0x1a | 0x1b | 0x20 | 0x21 | 0x22 | 0x23 | 0x24 | 0x25 | 0x26 | 0x27
  | 0x2a | 0x2b => [rs code,rt code]
  | 0x11 | 0x13 => [rs code]
  | _ => []

def sources (code : Word) : List Reg :=
  match opcode code with
  | 0x00 => sourcesSPC code (funct code)
  | 0x08 | 0x09 | 0x0a | 0x0b | 0x0c | 0x0d | 0x0e => [rs code]
  | 0x20 | 0x21 | 0x23 | 0x24 | 0x25 => [rs code]
  | 0x22 | 0x26 | 0x28 | 0x29 | 0x2a | 0x2b | 0x2e => [rs code,rt code]
  | _ => []

/-- An instruction that goes on to the next, does not look at the flag of the branch, reads only
its sources and writes only its destination. -/
structure Tame (code : Word) (i : Instr World) (sources : List Reg) (dest : Option Reg) : Prop where
  falls : ∀ c out, c.code = code → i c = some out → out.2 = none
  branch : ∀ c b, c.code = code →
    i { c with branch := b } = (i c).map fun out => ({ out.1 with branch := b },out.2)
  blind : ∀ c reg value, c.code = code → reg ≠ 0 → reg ∉ sources → i (c.setReg reg value) =
    (i c).map fun out => (if dest = some reg then out.1 else out.1.setReg reg value,out.2)
  keeps : ∀ c out reg, c.code = code → i c = some out → dest ≠ some reg → out.1.gpr reg = c.gpr reg
  zero : ∀ c out, c.code = code → i c = some out → out.1.gpr 0 = c.gpr 0

theorem setReg_gpr (c : Cpu World) (reg other : Reg) (value : Word) :
    (c.setReg reg value).gpr other = if other = reg then value else c.gpr other :=
  Function.update_apply _ _ _ _

theorem setReg_rRs {c : Cpu World} {reg : Reg} (value : Word) (apart : reg ≠ rs c.code) :
    (c.setReg reg value).rRs = c.rRs := by
  unfold Cpu.rRs
  rw [setReg_gpr]
  exact if_neg apart.symm

theorem setReg_rRt {c : Cpu World} {reg : Reg} (value : Word) (apart : reg ≠ rt c.code) :
    (c.setReg reg value).rRt = c.rRt := by
  unfold Cpu.rRt
  rw [setReg_gpr]
  exact if_neg apart.symm

theorem put_keeps (c : Cpu World) {reg other : Reg} (value : Word) (apart : reg ≠ other) :
    (c.put reg value).gpr other = c.gpr other := by
  unfold Cpu.put
  split
  · rfl
  · rw [setReg_gpr,if_neg (Ne.symm apart)]

theorem put_zero (c : Cpu World) (reg : Reg) (value : Word) : (c.put reg value).gpr 0 = c.gpr 0 := by
  by_cases zero : reg = 0
  · rw [Cpu.put,if_pos zero]
  · exact put_keeps c value zero

theorem put_branch (c : Cpu World) (reg : Reg) (value : Word) (b : Bool) :
    ({ c with branch := b } : Cpu World).put reg value = { c.put reg value with branch := b } := by
  unfold Cpu.put
  split <;> rfl

theorem setReg_put (c : Cpu World) {reg : Reg} (target : Reg) (value result : Word) (positive : reg ≠ 0) :
    (c.setReg reg value).put target result =
      if some target = some reg then c.put target result else (c.put target result).setReg reg value := by
  unfold Cpu.put
  by_cases zero : target = 0
  · have apart : ¬some target = some reg := by
      rw [zero]
      exact fun same => positive (Option.some.inj same).symm
    rw [if_pos zero,if_pos zero,if_neg apart]
  · rw [if_neg zero,if_neg zero]
    by_cases same : target = reg
    · subst same
      simp [Cpu.setReg]
    · simp [Cpu.setReg,same,Function.update_comm (Ne.symm same)]

/-- Instructions that write a register: their result and what reading does to the world depend on
the sources only. -/
theorem tame_of_put {code : Word} {i : Instr World} {sources : List Reg} {target : Reg}
    (result : Cpu World → Option (Word × World))
    (form : ∀ c, c.code = code → i c =
      (result c).map fun out => ({ c with world := out.2 }.put target out.1,none))
    (still : ∀ c b, c.code = code → result { c with branch := b } = result c)
    (blind : ∀ c reg value, c.code = code → reg ∉ sources → result (c.setReg reg value) = result c) :
    Tame code i sources (some target) where
  falls := by
    intro c out here ran
    rw [form c here] at ran
    obtain ⟨_,_,rfl⟩ := Option.map_eq_some_iff.mp ran
    rfl
  branch := by
    intro c b here
    rw [form c here,form { c with branch := b } here,still c b here,Option.map_map]
    congr 1
    funext out
    exact congrArg (·,none) (put_branch { c with world := out.2 } target out.1 b)
  blind := by
    intro c reg value here positive apart
    rw [form c here,form (c.setReg reg value) here,blind c reg value here apart,Option.map_map]
    congr 1
    funext out
    exact congrArg (·,none) (setReg_put { c with world := out.2 } target value out.1 positive)
  keeps := by
    intro c out reg here ran apart
    rw [form c here] at ran
    obtain ⟨out,_,rfl⟩ := Option.map_eq_some_iff.mp ran
    exact put_keeps _ _ fun same => apart (congrArg some same)
  zero := by
    intro c out here ran
    rw [form c here] at ran
    obtain ⟨out,_,rfl⟩ := Option.map_eq_some_iff.mp ran
    exact put_zero _ _ _

structure Rest (World : Type) where
  lo : Word
  hi : Word
  cp0 : Reg → Word
  world : World

theorem tame_of_rest {code : Word} {i : Instr World} {sources : List Reg}
    (result : Cpu World → Option (Rest World))
    (form : ∀ c, c.code = code → i c = (result c).map fun out =>
      ({ c with lo := out.lo, hi := out.hi, cp0 := out.cp0, world := out.world },none))
    (still : ∀ c b, c.code = code → result { c with branch := b } = result c)
    (blind : ∀ c reg value, c.code = code → reg ∉ sources → result (c.setReg reg value) = result c) :
    Tame code i sources none where
  falls := by
    intro c out here ran
    rw [form c here] at ran
    obtain ⟨_,_,rfl⟩ := Option.map_eq_some_iff.mp ran
    rfl
  branch := by
    intro c b here
    rw [form c here,form { c with branch := b } here,still c b here,Option.map_map]
    rfl
  blind := by
    intro c reg value here positive apart
    rw [form c here,form (c.setReg reg value) here,blind c reg value here apart,Option.map_map]
    rfl
  keeps := by
    intro c out reg here ran apart
    rw [form c here] at ran
    obtain ⟨out,_,rfl⟩ := Option.map_eq_some_iff.mp ran
    rfl
  zero := by
    intro c out here ran
    rw [form c here] at ran
    obtain ⟨out,_,rfl⟩ := Option.map_eq_some_iff.mp ran
    rfl

theorem immediate_tame (code : Word) (f : Word → Word → Word) :
    Tame code (immediate f : Instr World) [rs code] (some (rt code)) := by
  refine tame_of_put (fun c => some (f c.rRs c.code,c.world)) ?_ (fun _ _ _ => rfl) ?_
  · rintro c rfl
    rfl
  · rintro c reg value rfl apart
    rw [setReg_rRs value (by simpa using apart)]
    rfl

theorem psxLUI_tame (code : Word) : Tame code (psxLUI : Instr World) [] (some (rt code)) := by
  refine tame_of_put (fun c => some (c.code <<< 16,c.world)) ?_ (fun _ _ _ => rfl) fun _ _ _ _ _ => rfl
  rintro c rfl
  rfl

theorem register_tame (code : Word) (f : Word → Word → Word) :
    Tame code (register f : Instr World) [rs code,rt code] (some (rd code)) := by
  refine tame_of_put (fun c => some (f c.rRs c.rRt,c.world)) ?_ (fun _ _ _ => rfl) ?_
  · rintro c rfl
    rfl
  · rintro c reg value rfl apart
    simp only [List.mem_cons,List.not_mem_nil,or_false,not_or] at apart
    rw [setReg_rRs value apart.1,setReg_rRt value apart.2]
    rfl

theorem shift_tame (code : Word) (f : Word → Nat → Word) :
    Tame code (shift f : Instr World) [rt code] (some (rd code)) := by
  refine tame_of_put (fun c => some (f c.rRt (sa c.code),c.world)) ?_ (fun _ _ _ => rfl) ?_
  · rintro c rfl
    rfl
  · rintro c reg value rfl apart
    rw [setReg_rRt value (by simpa using apart)]
    rfl

theorem shiftV_tame (code : Word) (f : Word → Nat → Word) :
    Tame code (shiftV f : Instr World) [rs code,rt code] (some (rd code)) := by
  refine tame_of_put (fun c => if rd c.code = 0 then some (0,c.world)
    else if 32 ≤ c.rRs.toNat then none else some (f c.rRt c.rRs.toNat,c.world)) ?_ (fun _ _ _ => rfl) ?_
  · rintro c rfl
    unfold shiftV
    split
    next zero => simp [Cpu.put,zero]
    next => split <;> rfl
  · rintro c reg value rfl apart
    simp only [List.mem_cons,List.not_mem_nil,or_false,not_or] at apart
    rw [setReg_rRs value apart.1,setReg_rRt value apart.2]
    rfl

theorem load_tame (code : Word) {n : Nat} (read : World → Word → Option (BitVec n × World))
    (extend : BitVec n → Word) : Tame code (load read extend) [rs code] (some (rt code)) := by
  refine tame_of_put (fun c => (read c.world (c.rRs + imm c.code)).map fun found =>
    (extend found.1,found.2)) ?_ (fun _ _ _ => rfl) ?_
  · rintro c rfl
    simp only [load,Option.map_map]
    rfl
  · rintro c reg value rfl apart
    rw [setReg_rRs value (by simpa using apart)]
    rfl

theorem loadPart_tame (m : Machine World) (code : Word) (merge : Nat → Word → Word → Word) :
    Tame code (loadPart m merge) [rs code,rt code] (some (rt code)) := by
  refine tame_of_put (fun c => (m.psxMemRead32 c.world ((c.rRs + imm c.code) &&& ~~~3#32)).map
    fun found => (merge ((c.rRs + imm c.code) &&& 3#32).toNat c.rRt found.1,found.2)) ?_ (fun _ _ _ => rfl) ?_
  · rintro c rfl
    simp only [loadPart,Option.map_map]
    rfl
  · rintro c reg value rfl apart
    simp only [List.mem_cons,List.not_mem_nil,or_false,not_or] at apart
    rw [setReg_rRs value apart.1,setReg_rRt value apart.2]
    rfl

theorem storeWith_tame (code : Word) {n : Nat} (write : World → Word → BitVec n → Option World)
    (narrow : Word → BitVec n) : Tame code (storeWith write narrow) [rs code,rt code] none := by
  refine tame_of_rest (fun c => (write c.world (c.rRs + imm c.code) (narrow c.rRt)).map fun world =>
    ⟨c.lo,c.hi,c.cp0,world⟩) ?_ (fun _ _ _ => rfl) ?_
  · rintro c rfl
    simp only [storeWith,Option.map_map]
    rfl
  · rintro c reg value rfl apart
    simp only [List.mem_cons,List.not_mem_nil,or_false,not_or] at apart
    rw [setReg_rRs value apart.1,setReg_rRt value apart.2]
    rfl

theorem storePart_tame (m : Machine World) (code : Word) (merge : Nat → Word → Word → Word) :
    Tame code (storePart m merge) [rs code,rt code] none := by
  refine tame_of_rest (fun c =>
    (m.psxMemRead32 c.world ((c.rRs + imm c.code) &&& ~~~3#32)).bind fun found =>
      (m.psxMemWrite32 found.2 ((c.rRs + imm c.code) &&& ~~~3#32)
        (merge ((c.rRs + imm c.code) &&& 3#32).toNat c.rRt found.1)).map fun world =>
          ⟨c.lo,c.hi,c.cp0,world⟩) ?_ (fun _ _ _ => rfl) ?_
  · rintro c rfl
    unfold storePart
    cases m.psxMemRead32 c.world ((c.rRs + imm c.code) &&& ~~~3#32) with
    | none => rfl
    | some read =>
      simp only [Option.bind_some,Option.map_map]
      rfl
  · rintro c reg value rfl apart
    simp only [List.mem_cons,List.not_mem_nil,or_false,not_or] at apart
    rw [setReg_rRs value apart.1,setReg_rRt value apart.2]
    rfl

theorem product_tame (code : Word) (f : Word → Word → BitVec 64) :
    Tame code (product f : Instr World) [rs code,rt code] none := by
  refine tame_of_rest (fun c => some ⟨(f c.rRs c.rRt).extractLsb' 0 32,
    (f c.rRs c.rRt).extractLsb' 32 32,c.cp0,c.world⟩) ?_ (fun _ _ _ => rfl) ?_
  · rintro c rfl
    rfl
  · rintro c reg value rfl apart
    simp only [List.mem_cons,List.not_mem_nil,or_false,not_or] at apart
    rw [setReg_rRs value apart.1,setReg_rRt value apart.2]
    rfl

theorem psxDIV_tame (code : Word) : Tame code (psxDIV : Instr World) [rs code,rt code] none := by
  refine tame_of_rest (fun c =>
    if c.rRt = 0 then some ⟨c.lo,c.hi,c.cp0,c.world⟩
    else if c.rRs = 0x80000000 ∧ c.rRt = 0xffffffff then none
    else some ⟨c.rRs.sdiv c.rRt,c.rRs.srem c.rRt,c.cp0,c.world⟩) ?_ (fun _ _ _ => rfl) ?_
  · rintro c rfl
    unfold psxDIV
    split
    · rfl
    · split <;> rfl
  · rintro c reg value rfl apart
    simp only [List.mem_cons,List.not_mem_nil,or_false,not_or] at apart
    rw [setReg_rRs value apart.1,setReg_rRt value apart.2]
    rfl

theorem psxDIVU_tame (code : Word) : Tame code (psxDIVU : Instr World) [rs code,rt code] none := by
  refine tame_of_rest (fun c =>
    if c.rRt = 0 then some ⟨c.lo,c.hi,c.cp0,c.world⟩
    else some ⟨c.rRs.udiv c.rRt,c.rRs.umod c.rRt,c.cp0,c.world⟩) ?_ (fun _ _ _ => rfl) ?_
  · rintro c rfl
    unfold psxDIVU
    split <;> rfl
  · rintro c reg value rfl apart
    simp only [List.mem_cons,List.not_mem_nil,or_false,not_or] at apart
    rw [setReg_rRs value apart.1,setReg_rRt value apart.2]
    rfl

theorem psxMFHI_tame (code : Word) : Tame code (psxMFHI : Instr World) [] (some (rd code)) := by
  refine tame_of_put (fun c => some (c.hi,c.world)) ?_ (fun _ _ _ => rfl) fun _ _ _ _ _ => rfl
  rintro c rfl
  rfl

theorem psxMFLO_tame (code : Word) : Tame code (psxMFLO : Instr World) [] (some (rd code)) := by
  refine tame_of_put (fun c => some (c.lo,c.world)) ?_ (fun _ _ _ => rfl) fun _ _ _ _ _ => rfl
  rintro c rfl
  rfl

theorem psxMTHI_tame (code : Word) : Tame code (psxMTHI : Instr World) [rs code] none := by
  refine tame_of_rest (fun c => some ⟨c.lo,c.rRs,c.cp0,c.world⟩) (fun _ _ => rfl) (fun _ _ _ => rfl) ?_
  rintro c reg value rfl apart
  rw [setReg_rRs value (by simpa using apart)]
  rfl

theorem psxMTLO_tame (code : Word) : Tame code (psxMTLO : Instr World) [rs code] none := by
  refine tame_of_rest (fun c => some ⟨c.rRs,c.hi,c.cp0,c.world⟩) (fun _ _ => rfl) (fun _ _ _ => rfl) ?_
  rintro c reg value rfl apart
  rw [setReg_rRs value (by simpa using apart)]
  rfl

theorem psxMFC0_tame (code : Word) : Tame code (psxMFC0 : Instr World) [] (some (rt code)) := by
  refine tame_of_put (fun c => some (c.cp0 (rd c.code),c.world)) ?_ (fun _ _ _ => rfl) fun _ _ _ _ _ => rfl
  rintro c rfl
  rfl

theorem psxRFE_tame (code : Word) : Tame code (psxRFE : Instr World) [] none :=
  tame_of_rest (fun c => some ⟨c.lo,c.hi,Function.update c.cp0 regStatus
    ((c.cp0 regStatus &&& 0xfffffff0#32) ||| ((c.cp0 regStatus &&& 0x3c#32) >>> 2)),c.world⟩)
    (fun _ _ => rfl) (fun _ _ _ => rfl) fun _ _ _ _ _ => rfl

theorem psxNULL_tame (code : Word) : Tame code (psxNULL : Instr World) [] none :=
  tame_of_rest (fun c => some ⟨c.lo,c.hi,c.cp0,c.world⟩) (fun _ _ => rfl) (fun _ _ _ => rfl)
    fun _ _ _ _ _ => rfl

theorem psxBREAK_tame (code : Word) : Tame code (psxBREAK : Instr World) [] none := psxNULL_tame code

theorem psxSPC_tame (m : Machine World) (code : Word) {f : Nat} (ordinary : plainSPC f = true) :
    Tame code (psxSPC m f) (sourcesSPC code f) (destSPC code f) := by
  unfold psxSPC
  split
  case h_29 =>
    rw [sourcesSPC,destSPC]
    · exact psxNULL_tame code
    all_goals assumption
  all_goals first
    | exact absurd ordinary (by decide)
    | exact shift_tame code _
    | exact shiftV_tame code _
    | exact register_tame code _
    | exact product_tame code _
    | exact psxBREAK_tame code
    | exact psxMFHI_tame code
    | exact psxMFLO_tame code
    | exact psxMTHI_tame code
    | exact psxMTLO_tame code
    | exact psxDIV_tame code
    | exact psxDIVU_tame code

theorem psxREG_tame (code : Word) {f : Nat} (ordinary : plainREG f = true) :
    Tame code (psxREG f : Instr World) [] none := by
  unfold psxREG
  split
  case h_5 => exact psxNULL_tame code
  all_goals exact absurd ordinary (by decide)

theorem psxCP0_tame (m : Machine World) (code : Word) {f : Nat} (ordinary : plainCP0 f = true) :
    Tame code (psxCP0 m f) [] (destCP0 code f) := by
  unfold psxCP0
  split
  case h_6 =>
    rw [destCP0]
    · exact psxNULL_tame code
    all_goals assumption
  all_goals first
    | exact absurd ordinary (by decide)
    | exact psxMFC0_tame code
    | exact psxRFE_tame code

/-- Each instruction that goes on to the next reads and writes what its operands say. -/
theorem psxBSC_tame (m : Machine World) {code : Word} (ordinary : plain code = true) :
    Tame code (psxBSC m code) (sources code) (dest code) := by
  unfold plain at ordinary
  unfold psxBSC sources dest
  generalize opcode code = op at *
  split
  case h_31 =>
    split
    case h_21 =>
      split
      case h_18 => exact psxNULL_tame code
      all_goals contradiction
    all_goals contradiction
  all_goals first
    | exact psxSPC_tame m code ordinary
    | exact psxREG_tame code ordinary
    | exact psxCP0_tame m code ordinary
    | exact absurd ordinary Bool.false_ne_true
    | exact immediate_tame code _
    | exact psxLUI_tame code
    | exact load_tame code _ _
    | exact loadPart_tame m code _
    | exact storeWith_tame code _ _
    | exact storePart_tame m code _

end Chipbox.Psx
