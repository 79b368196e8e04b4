import Chipbox.Gme.Position

/-! The fade of the GME player along a run of reads. -/
namespace Chipbox.Gme

variable {Core : Type} {emulator : Emulator Core}

theorem fadeLoop_getElem? (s : MusicEmu Core) {blocks i : Nat} (start : Nat) {io : List Int} {sample : Int}
    (listed : io[i]? = some sample) (covered : i < blocks * fadeBlockSize) :
    (fadeLoop s blocks start io).2[i]? =
      some (fadeSample (fadeGain s (start + i / fadeBlockSize * fadeBlockSize)) sample) := by
  have size : fadeBlockSize = 512 := rfl
  induction blocks generalizing start i io with
  | zero => omega
  | succ blocks ih =>
    simp only [fadeLoop]
    have bound : i < io.length := (List.getElem?_eq_some_iff.mp listed).1
    rcases Nat.lt_or_ge i fadeBlockSize with inside | after
    · have first : i < ((io.take fadeBlockSize).map (fadeSample (fadeGain s start))).length := by
        rw [List.length_map,List.length_take]
        omega
      rw [List.getElem?_append_left first,List.getElem?_map,List.getElem?_take_of_lt inside,listed,
        Nat.div_eq_of_lt inside]
      simp
    · have whole : ((io.take fadeBlockSize).map (fadeSample (fadeGain s start))).length =
          fadeBlockSize := by
        rw [List.length_map,List.length_take]
        omega
      rw [List.getElem?_append_right (by omega),whole]
      have moved : (io.drop fadeBlockSize)[i - fadeBlockSize]? = some sample := by
        rw [List.getElem?_drop,Nat.add_sub_cancel' after]
        exact listed
      have rest := ih (start + fadeBlockSize) moved (by
        rw [Nat.succ_mul] at covered
        omega)
      have place : start + fadeBlockSize + (i - fadeBlockSize) / fadeBlockSize * fadeBlockSize =
          start + i / fadeBlockSize * fadeBlockSize := by
        rw [size] at after ⊢
        omega
      rwa [place] at rest

theorem faded_getElem? {s : MusicEmu Core} (fading : s.fadeStart < s.outTime) {raw : List Int}
    {i : Nat} {sample : Int} (listed : raw[i]? = some sample) :
    (faded s raw)[i]? =
      some (fadeSample (fadeGain s (i / fadeBlockSize * fadeBlockSize)) sample) := by
  obtain ⟨bound,_⟩ := List.getElem?_eq_some_iff.mp listed
  have covered : i < (raw.length + (fadeBlockSize - 1)) / fadeBlockSize * fadeBlockSize := by
    have size : fadeBlockSize = 512 := rfl
    rw [size]
    omega
  have scaled := fadeLoop_getElem? s 0 listed covered
  rw [Nat.zero_add] at scaled
  simpa only [faded,fading,if_true,handleFade] using scaled

theorem fadeSample_le {gain : Int} (low : 0 ≤ gain) (high : gain ≤ fadeUnit) (sample : Int) :
    (fadeSample gain sample).natAbs ≤ sample.natAbs := by
  have positive : (0 : Int) < fadeUnit := by decide
  have divided : fadeSample gain sample = sample * gain / fadeUnit :=
    Int.shiftRight_eq_div_pow (sample * gain) 14
  rw [divided]
  rcases Int.le_total 0 sample with up | down
  · have least : 0 ≤ sample * gain / fadeUnit :=
      Int.ediv_nonneg (Int.mul_nonneg up low) (Int.le_of_lt positive)
    have most : sample * gain / fadeUnit ≤ sample := by
      apply Int.ediv_le_of_le_mul positive
      exact Int.mul_le_mul_of_nonneg_left high up
    omega
  · have most : sample * gain / fadeUnit ≤ 0 := by
      apply Int.ediv_le_of_le_mul positive
      rw [Int.zero_mul]
      exact Int.mul_nonpos_of_nonpos_of_nonneg down low
    have least : sample ≤ sample * gain / fadeUnit := by
      rw [Int.le_ediv_iff_mul_le positive]
      exact Int.mul_le_mul_of_nonpos_left down high
    omega

theorem intLog_le_unit {x step : Nat} (positive : 0 < step) (fine : step ≤ fadeUnit) :
    0 ≤ intLog x step fadeUnit ∧ intLog x step fadeUnit ≤ fadeUnit := by
  obtain ⟨fraction,less,_,value⟩ := intLog_mantissa (x := x) positive fine
  rw [value]
  refine ⟨Int.natCast_nonneg _,Int.ofNat_le.mpr ?_⟩
  exact (Nat.div_le_self _ _).trans (by omega)

theorem step_fade {b after : Backend Core} {s : MusicEmu Core} (loaded : b.emu = some s)
    {command : Command Core} (only : PlaysOn command) (taken : step emulator b command = some after) :
    ∃ t, after.emu = some t ∧ t.fadeStart = s.fadeStart ∧
      t.fadeStep = s.fadeStep ∧ s.outTime ≤ t.outTime := by
  obtain ⟨performed,_⟩ := step_perform taken
  cases command with
  | readNextSamples =>
    simp only [perform,readNextSamples,loaded,Option.some.injEq] at performed
    subst performed
    refine ⟨_,rfl,?_,(play_fadeStep emulator s _).1,?_⟩
    · cases going : s.trackEnded with
      | true => simp only [play,going,if_true]
      | false =>
        rcases played : playRaw emulator s b.bufferSize with ⟨t,raw⟩
        have onward := playRaw_onward emulator s b.bufferSize
        rw [played] at onward
        rw [play_going going played]
        exact onward.fadeStart
    · rw [(play_time emulator s _).1]
      exact Nat.le_add_right _ _
  | muteVoice voiceNumber enabled =>
    simp only [perform,loaded,Option.map_some,Option.some.injEq] at performed
    subst performed
    exact ⟨_,rfl,rfl,rfl,Nat.le_refl _⟩
  | _ => exact only.elim

theorem run_fade {rest : List (Command Core)} (only : ∀ command ∈ rest, PlaysOn command)
    {b after : Backend Core} {s : MusicEmu Core} (loaded : b.emu = some s)
    (ran : Run.exec (step emulator) b rest = some after) :
    ∃ t, after.emu = some t ∧ t.fadeStart = s.fadeStart ∧
      t.fadeStep = s.fadeStep ∧ s.outTime ≤ t.outTime := by
  induction rest generalizing b s with
  | nil =>
    cases ran
    exact ⟨s,loaded,rfl,rfl,Nat.le_refl _⟩
  | cons command rest ih =>
    obtain ⟨next,taken,resumed⟩ := Run.exec_cons.mp ran
    obtain ⟨middle,held,start,step,time⟩ := step_fade loaded (only command List.mem_cons_self) taken
    obtain ⟨t,last,later_start,later_step,later_time⟩ :=
      ih (fun other member => only other (.tail _ member)) held resumed
    exact ⟨t,last,later_start.trans start,later_step.trans step,time.trans later_time⟩

/-- Along a run of reads the fade only falls, for 32 steps from its start: of two blocks of output the
one that starts later is scaled by no more than the other, and by no more than one. -/
theorem fade_falls {rest : List (Command Core)} (only : ∀ command ∈ rest, PlaysOn command)
    {b after : Backend Core} {s t : MusicEmu Core} (before : b.emu = some s)
    (ran : Run.exec (step emulator) b rest = some after) (held : after.emu = some t) (fits : StepFits s)
    (fading : s.fadeStart < s.outTime) {i j : Nat}
    (later : s.outTime + i / fadeBlockSize * fadeBlockSize ≤
      t.outTime + j / fadeBlockSize * fadeBlockSize)
    (near : (t.outTime + j / fadeBlockSize * fadeBlockSize : Nat) < fadeReturns s) :
    ∃ gain next : Int, next ≤ gain ∧ gain ≤ fadeUnit ∧
      (∀ raw sample, raw[i]? = some sample → (faded s raw)[i]? = some (fadeSample gain sample)) ∧
      (∀ raw sample, raw[j]? = some sample → (faded t raw)[j]? = some (fadeSample next sample)) ∧
      ∀ sample, (fadeSample next sample).natAbs ≤ sample.natAbs := by
  obtain ⟨u,last,start,same,time⟩ := run_fade only before ran
  obtain rfl : t = u := Option.some.inj (held.symm.trans last)
  have still : t.fadeStart < t.outTime := by omega
  obtain ⟨positive,fine⟩ := fits
  obtain ⟨step,equal⟩ := Int.eq_ofNat_of_zero_le (Int.le_of_lt positive)
  have block : (fadeBlockSize : Int) = 512 := rfl
  have size : fadeBlockSize = 512 := rfl
  have unit : (fadeUnit : Int) = 16384 := by decide
  unfold fadeReturns at near
  rw [block,equal] at near
  rw [equal,unit] at fine
  have exact_step : 0 < step := by omega
  have small : step ≤ fadeUnit := by omega
  have one : fadeGain s (i / fadeBlockSize * fadeBlockSize) = _ := fadeGain_eq equal fading (by omega)
  have other : fadeGain t (j / fadeBlockSize * fadeBlockSize) = _ :=
    fadeGain_eq (same.trans equal) still (by omega)
  have falls : fadeGain t (j / fadeBlockSize * fadeBlockSize) ≤
      fadeGain s (i / fadeBlockSize * fadeBlockSize) := by
    rw [one,other]
    apply intLog_anti exact_step small
    · apply Nat.div_le_div_right
      omega
    · rw [Nat.div_lt_iff_lt_mul exact_step,Nat.div_lt_iff_lt_mul (by decide)]
      generalize j / fadeBlockSize * fadeBlockSize = offset at near
      rw [size]
      omega
  have whole : fadeGain s (i / fadeBlockSize * fadeBlockSize) ≤ fadeUnit := by
    rw [one]
    exact (intLog_le_unit exact_step small).2
  have some_left : 0 ≤ fadeGain t (j / fadeBlockSize * fadeBlockSize) := by
    rw [other]
    exact (intLog_le_unit exact_step small).1
  exact ⟨_,_,falls,whole,fun raw sample => faded_getElem? fading,fun raw sample => faded_getElem? still,
    fadeSample_le some_left (falls.trans whole)⟩

def fadingRun : List (Command Unit) := [.loadFile (.loaded ()) 0 1000 8 0,.readNextSamples]

theorem fadingRun_fades : ∃ b s after t, run tone fadingRun = some b ∧ b.emu = some s ∧
    Run.exec (step tone) b [.readNextSamples] = some after ∧ after.emu = some t ∧
    s.fadeStep = 3 ∧ s.fadeStart = 0 ∧ s.outTime = 8 ∧ t.outTime = 16 := by
  have facts : ((run tone fadingRun).bind fun b => b.emu.bind fun s =>
      (Run.exec (step tone) b [.readNextSamples]).bind fun after => after.emu.map fun t =>
        (s.fadeStep,s.fadeStart,s.outTime,t.outTime)) = some (3,0,8,16) := by
    decide +kernel
  obtain ⟨b,ran,held⟩ := Option.bind_eq_some_iff.mp facts
  obtain ⟨s,loaded,held⟩ := Option.bind_eq_some_iff.mp held
  obtain ⟨after,read,held⟩ := Option.bind_eq_some_iff.mp held
  obtain ⟨t,last,values⟩ := Option.map_eq_some_iff.mp held
  simp only [Prod.mk.injEq] at values
  exact ⟨b,s,after,t,ran,loaded,read,last,values⟩

theorem fade_falls_tone : ∃ b s after t, run tone fadingRun = some b ∧ b.emu = some s ∧
    Run.exec (step tone) b [.readNextSamples] = some after ∧ after.emu = some t ∧
    ∃ gain next : Int, next ≤ gain ∧ gain ≤ fadeUnit ∧
      (∀ raw sample, raw[3]? = some sample → (faded s raw)[3]? = some (fadeSample gain sample)) ∧
      (∀ raw sample, raw[3]? = some sample → (faded t raw)[3]? = some (fadeSample next sample)) ∧
      ∀ sample, (fadeSample next sample).natAbs ≤ sample.natAbs := by
  obtain ⟨b,s,after,t,ran,loaded,read,last,step,start,time,later⟩ := fadingRun_fades
  have fits : StepFits s := by
    rw [StepFits,step]
    decide
  have ends : fadeReturns s = 49152 := by
    rw [fadeReturns,step,start]
    rfl
  refine ⟨b,s,after,t,ran,loaded,read,last,fade_falls (by simp [PlaysOn]) loaded read last fits
    (by omega) (i := 3) (j := 3) ?_ ?_⟩
  · omega
  · rw [ends,later]
    decide

end Chipbox.Gme
