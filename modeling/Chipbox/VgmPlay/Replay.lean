import Chipbox.VgmPlay.PcmBank

/-! Playing a file again after a restart: its blocks are skipped, and the DAC is given the samples it
was given the first time. -/
namespace Chipbox.VgmPlay

open Run

theorem Pcm.getDAC_inside {s : Pcm} (inside : (s.pcmBank 0).dataPos < (s.pcmBank 0).dataSize) :
    s.getDACFromPCMBank = ((s.pcmBank 0).data (s.pcmBank 0).dataPos,
      s.setBank 0 { s.pcmBank 0 with dataPos := (s.pcmBank 0).dataPos + 1 }) :=
  if_neg (Nat.not_le_of_lt inside)

namespace Listening

variable {fuel : Nat}

theorem step_grows {l after : Listening} {command : PcmCommand} (stepped : l.step fuel command = some after) :
    l.pcm.Grows after.pcm := by
  cases command with
  | block type dataSize data =>
    obtain ⟨pcm,added,rfl⟩ := Option.map_eq_some_iff.mp stepped
    obtain ⟨_,rfl⟩ | ⟨_,_,table,_,rfl⟩ | ⟨_,_,bnkType,b,_,rfl,⟨_,rfl⟩ | ⟨_,after,loads,rfl⟩⟩ :=
      Pcm.addPCMData_cases added
    · exact fun _ => .refl _
    · exact fun _ => .refl _
    · exact Pcm.setBank_grows ⟨le_rfl,le_rfl,fun _ _ => rfl⟩
    · exact Pcm.setBank_grows ⟨loads.grows.count,loads.grows.size,loads.grows.kept⟩
  | seek dataPos =>
    cases stepped
    exact Pcm.setBank_grows ⟨le_rfl,le_rfl,fun _ _ => rfl⟩
  | read =>
    cases stepped
    unfold Pcm.getDACFromPCMBank
    dsimp only
    split
    · exact fun _ => .refl _
    · exact Pcm.setBank_grows ⟨le_rfl,le_rfl,fun _ _ => rfl⟩
  | loop =>
    cases stepped
    exact fun _ => .refl _

theorem exec_grows {l after : Listening} {commands : List PcmCommand}
    (run : exec (step fuel) l commands = some after) : l.pcm.Grows after.pcm := by
  induction commands generalizing l with
  | nil =>
    cases run
    exact fun _ => .refl _
  | cons command commands ih =>
    obtain ⟨middle,stepped,run⟩ := exec_cons.mp run
    exact fun type => (step_grows stepped type).trans (ih run type)

end Listening

/-- A bank of the later playing: all that was loaded, at the place of the earlier one. -/
def PcmBank.placed (last b : PcmBank) : PcmBank := { last with dataPos := b.dataPos, bnkPos := b.bnkPos }

structure Replays (last : Pcm) (l m : Listening) : Prop where
  heard : m.heard = l.heard
  loop : m.pcm.vgmCurLoop = l.pcm.vgmCurLoop
  banks : ∀ type, m.pcm.pcmBank type = (last.pcmBank type).placed (l.pcm.pcmBank type)
  counted : ∀ type, (l.pcm.pcmBank type).bnkPos ≤ (l.pcm.pcmBank type).bank.length

namespace Replays

variable {last : Pcm} {l m : Listening} {fuel : Nat}

theorem setBank (replays : Replays last l m) (type : Nat) {b c : PcmBank}
    (placed : c = (last.pcmBank type).placed b) (counted : b.bnkPos ≤ b.bank.length) :
    Replays last ⟨l.pcm.setBank type b,l.heard⟩ ⟨m.pcm.setBank type c,m.heard⟩ where
  heard := replays.heard
  loop := replays.loop
  banks other := by
    by_cases same : other = type
    · subst same
      rw [Pcm.setBank_same,Pcm.setBank_same,placed]
    · rw [Pcm.setBank_other _ _ same,Pcm.setBank_other _ _ same,replays.banks]
  counted other := by
    by_cases same : other = type
    · subst same
      rw [Pcm.setBank_same]
      exact counted
    · rw [Pcm.setBank_other _ _ same]
      exact replays.counted other

theorem skip (replays : Replays last l m) {type : UInt8} {dataSize : Nat} {data : List UInt8} {after : PcmBank}
    (going : l.pcm.vgmCurLoop = 0) (other : type ≠ 0x7F)
    (pos : after.dataPos = (l.pcm.pcmBank (type &&& 0x3F).toNat).dataPos)
    (bnk : after.bnkPos = (l.pcm.pcmBank (type &&& 0x3F).toNat).bnkPos + 1)
    (counted : after.bnkPos ≤ after.bank.length)
    (grows : after.Grows (last.pcmBank (type &&& 0x3F).toNat)) :
    ∃ again, m.step fuel (.block type dataSize data) = some again ∧
      Replays last ⟨l.pcm.setBank (type &&& 0x3F).toNat after,l.heard⟩ again := by
  have same := replays.banks (type &&& 0x3F).toNat
  have loaded : (m.pcm.pcmBank (type &&& 0x3F).toNat).bnkPos + 1 ≤
      (m.pcm.pcmBank (type &&& 0x3F).toNat).bank.length := by
    rw [same]
    exact bnk ▸ counted.trans grows.count
  refine ⟨_,?_,replays.setBank _ (c := { m.pcm.pcmBank (type &&& 0x3F).toNat with
    bnkPos := (m.pcm.pcmBank (type &&& 0x3F).toNat).bnkPos + 1 }) ?_ counted⟩
  · rw [Listening.step,Pcm.addPCMData,
      if_neg (Pcm.not_stopped type (replays.loop.trans going)),if_neg other,if_pos loaded]
    rfl
  · rw [same]
    unfold PcmBank.placed
    rw [pos,bnk]

theorem step (replays : Replays last l m) {after : Listening} {command : PcmCommand}
    (stepped : l.step fuel command = some after) (inside : l.ReadsInside command)
    (grows : after.pcm.Grows last) : ∃ again, m.step fuel command = some again ∧ Replays last after again := by
  cases command with
  | block type dataSize data =>
    obtain ⟨pcm,added,rfl⟩ := Option.map_eq_some_iff.mp stepped
    obtain ⟨looping,rfl⟩ | ⟨going,isTable,table,read,rfl⟩ |
      ⟨going,other,bnkType,b,rfl,rfl,⟨skipped,rfl⟩ | ⟨_,after,loads,rfl⟩⟩ := Pcm.addPCMData_cases added
    · have looping' : m.pcm.vgmCurLoop ≠ 0 := by rwa [replays.loop]
      refine ⟨m,?_,replays⟩
      rw [Listening.step,Pcm.addPCMData,if_pos (.inr looping')]
      rfl
    · subst isTable
      refine ⟨⟨{ m.pcm with pcmTbl := table },m.heard⟩,?_,replays.heard,replays.loop,replays.banks,
        replays.counted⟩
      rw [Listening.step,Pcm.addPCMData,if_neg (Pcm.not_stopped _ (replays.loop.trans going)),if_pos rfl,read]
      rfl
    · have grown := grows (type &&& 0x3F).toNat
      rw [Pcm.setBank_same] at grown
      exact replays.skip going other rfl rfl skipped grown
    · have grown := grows (type &&& 0x3F).toNat
      rw [Pcm.setBank_same] at grown
      refine replays.skip going other loads.pos loads.bnk ?_ grown
      rw [loads.bnk,loads.count]
      exact Nat.succ_le_succ (replays.counted _)
  | seek dataPos =>
    cases stepped
    refine ⟨_,rfl,replays.setBank 0 ?_ (replays.counted 0)⟩
    rw [replays.banks]
    rfl
  | read =>
    cases stepped
    have grown := (@Listening.step_grows fuel l _ .read rfl 0).trans (grows 0)
    have same := replays.banks 0
    have later : (m.pcm.pcmBank 0).dataPos < (m.pcm.pcmBank 0).dataSize := by
      rw [same]
      exact Nat.lt_of_lt_of_le inside grown.size
    have sample : (m.pcm.pcmBank 0).data (m.pcm.pcmBank 0).dataPos =
        (l.pcm.pcmBank 0).data (l.pcm.pcmBank 0).dataPos := by
      rw [same]
      exact grown.kept _ inside
    rw [Listening.step,Pcm.getDAC_inside inside,Pcm.getDAC_inside later,sample]
    have moved := replays.setBank 0 (b := { l.pcm.pcmBank 0 with dataPos := (l.pcm.pcmBank 0).dataPos + 1 })
      (c := { m.pcm.pcmBank 0 with dataPos := (m.pcm.pcmBank 0).dataPos + 1 }) (by rw [same]; rfl)
      (replays.counted 0)
    exact ⟨_,rfl,congrArg (_::·) moved.heard,moved.loop,moved.banks,moved.counted⟩
  | loop =>
    cases stepped
    exact ⟨_,rfl,replays.heard,congrArg (· + 1) replays.loop,replays.banks,replays.counted⟩

theorem exec_replays {commands : List PcmCommand} {l m after : Listening} (replays : Replays after.pcm l m)
    (run : exec (Listening.step fuel) l commands = some after)
    (inside : Meets (Listening.step fuel) Listening.ReadsInside l commands) :
    ∃ again, exec (Listening.step fuel) m commands = some again ∧ Replays after.pcm after again := by
  induction commands generalizing l m with
  | nil =>
    cases run
    exact ⟨m,rfl,replays⟩
  | cons command commands ih =>
    obtain ⟨middle,stepped,run⟩ := exec_cons.mp run
    obtain ⟨here,inside⟩ := (meets_cons stepped).mp inside
    obtain ⟨next,taken,replays⟩ := replays.step stepped here (Listening.exec_grows run)
    obtain ⟨again,rest,replays⟩ := ih replays run inside
    exact ⟨again,exec_cons.mpr ⟨next,taken,rest⟩,replays⟩

/-- A file whose reads stay inside what is loaded plays again as it played, after a restart: the same
commands give the DAC the same samples and leave the banks as they were. -/
theorem restart_replays {commands : List PcmCommand} (s : Pcm) {first : Listening}
    (played : exec (Listening.step fuel) ⟨s.restart,[]⟩ commands = some first)
    (inside : Meets (Listening.step fuel) Listening.ReadsInside ⟨s.restart,[]⟩ commands) :
    ∃ again, exec (Listening.step fuel) ⟨first.pcm.restart,[]⟩ commands = some again ∧
      again.heard = first.heard ∧ again.pcm.pcmBank = first.pcm.pcmBank := by
  have start : Replays first.pcm ⟨s.restart,[]⟩ ⟨first.pcm.restart,[]⟩ :=
    ⟨rfl,rfl,fun _ => rfl,fun _ => Nat.zero_le _⟩
  obtain ⟨again,run,replays⟩ := exec_replays start played inside
  exact ⟨again,run,replays.heard,funext replays.banks⟩

end Replays

def drums : List PcmCommand :=
  [.block 0 2 [0x10,0x20],.seek 1,.read,.block 0 1 [0x30,0x66],.read,.loop,.block 0 2 [0x10,0x20],.seek 0,.read]

theorem restart_replays_drums : ∃ first again,
    exec (Listening.step 0) ⟨Pcm.initial.restart,[]⟩ drums = some first ∧
    exec (Listening.step 0) ⟨first.pcm.restart,[]⟩ drums = some again ∧
    again.heard = [some 0x10,some 0x30,some 0x20] := by
  obtain ⟨again,run,heard,_⟩ := @Replays.restart_replays 0 drums Pcm.initial _ rfl (by decide)
  exact ⟨_,again,rfl,run,heard⟩

end Chipbox.VgmPlay
