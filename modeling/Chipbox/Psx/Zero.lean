import Chipbox.Foundation.Run
import Chipbox.Psx.LoadDelay

/-! Register zero over whole runs of the interpreter. -/
namespace Chipbox.Psx

variable {World : Type}

structure BiosKeepsZero (m : Machine World) : Prop where
  exception : ∀ c d, m.psxBiosException c = some d → c.gpr 0 = 0 → d.gpr 0 = 0
  call : ∀ n c d, m.psxHLEt n c = some d → c.gpr 0 = 0 → d.gpr 0 = 0

def KeepsZero (part : Cpu World → Option (Cpu World)) : Prop :=
  ∀ c d, part c = some d → c.gpr 0 = 0 → d.gpr 0 = 0

theorem setReg_zero {c : Cpu World} {reg : Reg} {value : Word} (zero : c.gpr 0 = 0)
    (fits : reg = 0 → value = 0) : (c.setReg reg value).gpr 0 = 0 := by
  rw [setReg_gpr]
  split
  next same => exact fits same.symm
  next => exact zero

theorem psxException_zero {m : Machine World} (bios : BiosKeepsZero m) (code : Word) (bd : Bool) :
    KeepsZero (psxException m code bd) := fun _ _ ran zero => bios.exception _ _ ran zero

theorem psxBranchTest_zero {m : Machine World} (bios : BiosKeepsZero m) : KeepsZero (psxBranchTest m) := by
  intro c d ran zero
  dsimp only [psxBranchTest] at ran
  split at ran
  · exact psxException_zero bios _ _ _ _ ran zero
  · obtain rfl := Option.some.inj ran
    exact zero

def Leaves (i : Instr World) : Prop := ∀ c out, i c = some out → c.gpr 0 = 0 → out.1.gpr 0 = 0

theorem branchIf_leaves (condition : Cpu World → Bool) : Leaves (branchIf condition) := by
  intro c out ran zero
  obtain rfl := Option.some.inj ran
  exact zero

theorem setLink_zero {c : Cpu World} {reg : Reg} (zero : c.gpr 0 = 0) (positive : reg ≠ 0) :
    (c.setLink reg).gpr 0 = 0 := setReg_zero zero fun same => absurd same positive

theorem branchLinkIf_leaves (condition : Cpu World → Bool) : Leaves (branchLinkIf condition) := by
  intro c out ran zero
  unfold branchLinkIf at ran
  split at ran
  · obtain rfl := Option.some.inj ran
    exact setLink_zero zero (by decide)
  · obtain rfl := Option.some.inj ran
    exact zero

theorem psxJ_leaves : Leaves (psxJ : Instr World) := by
  intro c out ran zero
  obtain rfl := Option.some.inj ran
  exact zero

theorem psxJAL_leaves : Leaves (psxJAL : Instr World) := by
  intro c out ran zero
  obtain rfl := Option.some.inj ran
  exact setLink_zero zero (by decide)

theorem psxJR_leaves : Leaves (psxJR : Instr World) := by
  intro c out ran zero
  obtain rfl := Option.some.inj ran
  exact zero

theorem psxJALR_leaves : Leaves (psxJALR : Instr World) := by
  intro c out ran zero
  obtain rfl := Option.some.inj ran
  dsimp only
  split
  · exact zero
  next positive => exact setLink_zero zero positive

theorem psxSYSCALL_leaves {m : Machine World} (bios : BiosKeepsZero m) : Leaves (psxSYSCALL m) := by
  intro c out ran zero
  obtain ⟨d,raised,rfl⟩ := Option.map_eq_some_iff.mp ran
  exact psxException_zero bios _ _ _ _ raised zero

theorem psxMTC0_leaves {m : Machine World} (bios : BiosKeepsZero m) : Leaves (psxMTC0 m) := by
  intro c out ran zero
  dsimp only [psxMTC0] at ran
  split at ran
  · split at ran
    · obtain ⟨d,raised,rfl⟩ := Option.map_eq_some_iff.mp ran
      exact psxException_zero bios _ _ _ _ raised zero
    · obtain rfl := Option.some.inj ran
      exact zero
  · obtain rfl := Option.some.inj ran
    exact zero

theorem psxHLE_leaves {m : Machine World} (bios : BiosKeepsZero m) : Leaves (psxHLE m) := by
  intro c out ran zero
  obtain ⟨d,called,rfl⟩ := Option.map_eq_some_iff.mp ran
  exact bios.call _ _ _ called zero

theorem psxSPC_leaves {m : Machine World} (bios : BiosKeepsZero m) {f : Nat} (special : ¬plainSPC f = true) :
    Leaves (psxSPC m f) := by
  unfold plainSPC at special
  split at special
  · exact psxJR_leaves
  · exact psxJALR_leaves
  · exact psxSYSCALL_leaves bios
  · exact absurd rfl special

theorem psxREG_leaves {f : Nat} (special : ¬plainREG f = true) : Leaves (psxREG f : Instr World) := by
  unfold plainREG at special
  split at special
  · exact branchIf_leaves _
  · exact branchIf_leaves _
  · exact branchLinkIf_leaves _
  · exact branchLinkIf_leaves _
  · exact absurd rfl special

theorem psxCP0_leaves {m : Machine World} (bios : BiosKeepsZero m) {f : Nat} (special : ¬plainCP0 f = true) :
    Leaves (psxCP0 m f) := by
  unfold plainCP0 at special
  split at special
  · exact psxMTC0_leaves bios
  · exact psxMTC0_leaves bios
  · exact absurd rfl special

/-- No instruction writes register zero. -/
theorem psxBSC_zero {m : Machine World} (bios : BiosKeepsZero m) {c : Cpu World}
    {out : Cpu World × Option Word} (ran : psxBSC m c.code c = some out) (zero : c.gpr 0 = 0) :
    out.1.gpr 0 = 0 := by
  by_cases ordinary : plain c.code = true
  · exact ((psxBSC_tame m ordinary).zero c out rfl ran).trans zero
  · have leaves : Leaves (psxBSC m c.code) := by
      unfold plain at ordinary
      unfold psxBSC
      generalize opcode c.code = op at *
      split at ordinary
      case h_1 => exact psxSPC_leaves bios ordinary
      case h_2 => exact psxREG_leaves ordinary
      case h_3 => exact psxJ_leaves
      case h_4 => exact psxJAL_leaves
      case h_9 => exact psxHLE_leaves bios
      case h_10 => exact psxCP0_leaves bios ordinary
      case h_11 => exact absurd rfl ordinary
      all_goals exact branchIf_leaves _
    exact leaves c out ran zero

variable {m : Machine World} {run : Cpu World → Option (Cpu World)}

theorem execI_zero (kept : KeepsZero run) : KeepsZero (execI m run) := by
  intro c d ran zero
  unfold execI at ran
  split at ran
  · cases ran
  · exact kept _ _ ran zero

/-- The register that is put back and forth around the instruction at the target is zero both
times where it is register zero. -/
theorem delayRead_zero (bios : BiosKeepsZero m) (kept : KeepsZero run) (reg : Reg) (bpc : Word) :
    KeepsZero (delayRead m run reg bpc) := by
  intro c d ran zero
  unfold delayRead at ran
  split at ran
  · cases ran
  next slot slotted =>
    have slot_zero := kept _ _ slotted zero
    split at ran
    · cases ran
    next tested returned =>
      have tested_zero := psxBranchTest_zero bios _ _ returned slot_zero
      obtain ⟨last,ahead,rfl⟩ := Option.map_eq_some_iff.mp ran
      have last_zero := execI_zero kept _ _ ahead
        (setReg_zero tested_zero fun same => by rw [same]; exact zero)
      exact setReg_zero last_zero fun same => by rw [same]; exact slot_zero

theorem delayWrite_zero (bios : BiosKeepsZero m) (kept : KeepsZero run) (bpc : Word) :
    KeepsZero (delayWrite m run bpc) := by
  intro c d ran zero
  unfold delayWrite at ran
  split at ran
  · cases ran
  next slot slotted =>
    have slot_zero := kept _ _ slotted zero
    exact psxBranchTest_zero bios _ _ ran slot_zero

theorem psxDelayTest_zero (bios : BiosKeepsZero m) (kept : KeepsZero run) (reg : Reg) (bpc : Word) :
    KeepsZero (psxDelayTest m run reg bpc) := by
  intro c d ran zero
  unfold psxDelayTest at ran
  split at ran
  · cases ran
  · split at ran
    · exact psxBranchTest_zero bios _ _ ran zero
    · exact delayRead_zero bios kept _ _ _ _ ran zero
    · exact delayWrite_zero bios kept _ _ _ ran zero
    · exact delayWrite_zero bios kept _ _ _ ran zero

theorem doBranch_zero (bios : BiosKeepsZero m) (kept : KeepsZero run) (tar : Word) :
    KeepsZero (doBranch m run tar) := by
  intro c d ran zero
  unfold doBranch at ran
  split at ran
  · cases ran
  · dsimp only at ran
    split at ran
    · exact psxDelayTest_zero bios kept _ _ _ _ ran zero
    · split at ran
      · cases ran
      next slot slotted =>
        have slot_zero := kept _ _ slotted zero
        exact psxBranchTest_zero bios _ _ ran slot_zero

theorem exec_zero (bios : BiosKeepsZero m) (fuel : Nat) : KeepsZero (exec m fuel) := by
  induction fuel with
  | zero =>
    intro c d ran
    cases ran
  | succ fuel ih =>
    intro c d ran zero
    rw [exec] at ran
    split at ran
    · cases ran
    next next ran_on =>
      obtain rfl := Option.some.inj ran
      exact psxBSC_zero bios ran_on zero
    next next tar jumped => exact doBranch_zero bios ih _ _ _ ran (psxBSC_zero bios jumped zero)

/-- Whatever program runs, for as long as it runs, with branches in the slots of branches, loads in
them, exceptions and interrupts: register zero stays zero. -/
theorem run_zero (bios : BiosKeepsZero m) {c d : Cpu World} {turns : List Nat} (zero : c.gpr 0 = 0)
    (ran : Run.exec (fun c fuel => step m fuel c) c turns = some d) : d.gpr 0 = 0 :=
  Run.invariant_of_step (fun _ _ _ zero ran => execI_zero (exec_zero bios _) _ _ ran zero) zero ran

theorem run_zero_late : ∃ d, Run.exec (fun c fuel => step lateMachine fuel c)
    { lateCpu with pc := 0x80010000 } [2,1] = some d ∧ d.gpr 0 = 0 := by
  have bios : BiosKeepsZero lateMachine :=
    ⟨fun _ _ ran => (nomatch ran),fun _ _ _ ran => (nomatch ran)⟩
  obtain ⟨d,ran⟩ := Option.isSome_iff_exists.mp (show (Run.exec (fun c fuel => step lateMachine fuel c)
    { lateCpu with pc := 0x80010000 } [2,1]).isSome = true by decide +kernel)
  exact ⟨d,ran,run_zero bios rfl ran⟩

end Chipbox.Psx
