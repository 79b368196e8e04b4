import Chipbox.Native.Stream

/-! What the read after a seek takes from the emulator of a loaded track. -/
namespace Chipbox.Native
open Globals

theorem seekLoop_loaded {lib : Lib} {generateFuel fuel : Nat} {g after : Globals} {remaining : Nat}
    (loaded : Loaded lib g) (going : g.stopSeek = false) (small : remaining < 2^64)
    (ran : seekLoop lib generateFuel fuel g remaining = some after) :
    Loaded lib after ∧ after.bufferLengthSamplesTrack = g.bufferLengthSamplesTrack ∧
      (lib = .psf → takenNow lib after = takenNow lib g) ∧
      (lib = .usf → after.produced = g.produced + 4 * g.bufferLengthSamplesTrack *
        seekPasses remaining g.bufferLengthSamplesTrack) := by
  induction fuel generalizing g remaining with
  | zero => cases ran
  | succ fuel ih =>
    simp only [seekLoop,going,Bool.false_eq_true,if_false] at ran
    split at ran
    next more =>
      split at ran
      · cases ran
      next result middle generated =>
        have control := generateAudio_control generated
        obtain ⟨kept,same,rendered⟩ := generateAudio_loaded loaded generated
        generalize step : (if remaining > g.bufferLengthSamplesTrack
          then g.bufferLengthSamplesTrack else remaining) = samplesToRead at ran
        have stepped : samplesToRead ≤ remaining := by
          rw [← step]
          split <;> omega
        rw [Word.sub_of_le stepped small] at ran
        have stays : (middle.addPlayed samplesToRead).bufferLengthSamplesTrack =
            g.bufferLengthSamplesTrack := control.samplesTrack
        obtain ⟨last,length,psf,usf⟩ := ih (kept.addPlayed samplesToRead)
          (control.stopSeek.trans going) (by omega) ran
        have moved : takenNow lib (middle.addPlayed samplesToRead) = takenNow lib middle := by
          cases lib <;> rfl
        have position : (middle.addPlayed samplesToRead).produced = middle.produced := rfl
        rw [stays] at length usf
        rw [moved] at psf
        rw [position] at usf
        refine ⟨last,length,fun is_psf => (psf is_psf).trans (same is_psf),fun is_usf => ?_⟩
        have passes : seekPasses remaining g.bufferLengthSamplesTrack =
            seekPasses (remaining - samplesToRead) g.bufferLengthSamplesTrack + 1 := by
          by_cases whole : remaining > g.bufferLengthSamplesTrack
          · rw [← step,if_pos whole,seekPasses_step whole loaded.frames]
          · rw [← step,if_neg whole,Nat.sub_self,seekPasses_zero,seekPasses_last more (by omega)]
        rw [usf is_usf,rendered is_usf,passes,Nat.mul_succ]
        omega
    next done =>
      cases ran
      have none_left : remaining = 0 := by omega
      exact ⟨loaded,rfl,fun _ => rfl,fun _ => by rw [none_left,seekPasses_zero]; rfl⟩

theorem seekLoop_settles {lib : Lib} {g : Globals} {remaining : Nat} (loaded : Loaded lib g)
    (going : g.stopSeek = false) (small : remaining < 2^64) :
    ∃ bound after, ∀ generateFuel fuel, bound ≤ generateFuel → bound ≤ fuel →
      seekLoop lib generateFuel fuel g remaining = some after := by
  induction remaining using Nat.strong_induction_on generalizing g with
  | _ remaining ih =>
    rcases Nat.eq_zero_or_pos remaining with rfl | more
    · refine ⟨1,g,fun generateFuel fuel _ positive => ?_⟩
      obtain ⟨fuel,rfl⟩ := Nat.exists_eq_add_of_le' positive
      simp [seekLoop]
    · generalize step : (if remaining > g.bufferLengthSamplesTrack
        then g.bufferLengthSamplesTrack else remaining) = samplesToRead
      have frames := loaded.frames
      have stepped : samplesToRead ≤ remaining ∧ 0 < samplesToRead := by
        rw [← step]
        split <;> omega
      obtain ⟨first,result,middle,generated⟩ :=
        generateAudio_settles loaded (Word.mul samplesToRead bytesPerSample)
      have taken := generated first (Nat.le_refl _)
      have control := generateAudio_control taken
      obtain ⟨second,after,settled⟩ := ih (remaining - samplesToRead) (by omega)
        ((generateAudio_loaded loaded taken).1.addPlayed samplesToRead)
        (control.stopSeek.trans going) (by omega)
      refine ⟨first + second + 1,after,fun generateFuel fuel enough positive => ?_⟩
      obtain ⟨fuel,rfl⟩ := Nat.exists_eq_add_of_le' (Nat.le_of_add_left_le positive)
      simp only [seekLoop,going,more,if_true,Bool.false_eq_true,if_false,step]
      rw [generated generateFuel (by omega)]
      dsimp only
      rw [Word.sub_of_le stepped.1 small]
      exact settled generateFuel fuel (by omega) (by omega)

theorem seekStart_loaded {lib : Lib} {g : Globals} {reply : LoadReply} {emulator : Emulator}
    (loaded : Loaded lib g) (timeInMs : Int) (accepted : reply.emulator = some emulator)
    (endless : emulator.Endless) :
    ∃ start, seekStart lib g timeInMs reply = some start ∧ Loaded lib start ∧
      start.stopSeek = false ∧ start.bufferLengthSamplesTrack = g.bufferLengthSamplesTrack ∧
      (seekTarget g timeInMs ≤ g.playedSampleCountTrack → start.fifoFromLib.content = [] ∧
        start.produced = 0 ∧ start.playedSampleCountTrack = 0) ∧
      (¬ seekTarget g timeInMs ≤ g.playedSampleCountTrack → start = {g with stopSeek := false}) := by
  by_cases back : seekTarget g timeInMs ≤ g.playedSampleCountTrack
  · have length : loadedSamples lib g.sampleRateDevice g.bufferLengthShortsDevice =
        g.bufferLengthSamplesTrack := by
      rw [loaded.samples,loaded.rate,loadedSamples]
    have room := loaded.room
    obtain ⟨_,_,_,_,_,torn⟩ := teardownInternal_same lib {g with stopSeek := false}
    obtain ⟨start,started,reloaded,samples,content,produced⟩ := loadFileInternal_loaded
      (teardownInternal lib {g with stopSeek := false}) g.trackLengthMs loaded.device accepted endless
      (by rw [length]; exact loaded.frames) (by rw [length]; omega)
    obtain ⟨going,played⟩ := loadFileInternal_frame started
    rw [teardownInternal_stopSeek] at going
    rw [teardownInternal_initialized,teardownInternal_played] at played
    refine ⟨start,?_,reloaded,going,samples.trans length,fun _ => ⟨content,produced,played⟩,
      fun forward => absurd back forward⟩
    unfold seekStart
    dsimp only
    rw [torn] at started ⊢
    rw [← started]
    exact if_pos back
  · refine ⟨{g with stopSeek := false},?_,?_,rfl,rfl,fun forward => absurd forward back,
      fun _ => rfl⟩
    · unfold seekStart
      exact if_neg back
    · obtain ⟨device,rate,samples,frames,bytes,size,valid,room,cpu,still⟩ := loaded
      exact ⟨device,rate,samples,frames,bytes,size,valid,room,cpu,still⟩

/-- The seek returns, and the read after it returns having taken the bytes. -/
def Takes (lib : Lib) (g : Globals) (timeInMs : Int) (reply : LoadReply)
    (srcError : Option SrcError) (taken : List Byte) : Prop :=
  ∃ fuel after last, seek lib fuel g timeInMs reply = some after ∧
    readNextSamples lib fuel after ⟨false,srcError⟩ = some (some taken,last)

/-- What the read after a seek takes. A PSF seek forward does not change what the next
read takes, and a seek back only reloads; a USF seek renders whole buffers. -/
def takenAfterSeek (lib : Lib) (g : Globals) (timeInMs : Int) : List Byte :=
  let target := seekTarget g timeInMs
  match lib with
  | .psf =>
    if target ≤ g.playedSampleCountTrack then outputBytes 0 g.bufferLengthBytesTrack
    else takenNow .psf g
  | .usf =>
    if target ≤ g.playedSampleCountTrack then
      outputBytes (4 * g.bufferLengthSamplesTrack * seekPasses target g.bufferLengthSamplesTrack)
        g.bufferLengthBytesTrack
    else outputBytes (g.produced + 4 * g.bufferLengthSamplesTrack *
      seekPasses (target - g.playedSampleCountTrack) g.bufferLengthSamplesTrack)
        g.bufferLengthBytesTrack

theorem takenNow_after_seek {lib : Lib} {fuel : Nat} {g after : Globals}
    {timeInMs : Int} {reply : LoadReply} {emulator : Emulator} (loaded : Loaded lib g)
    (accepted : reply.emulator = some emulator) (endless : emulator.Endless)
    (ran : seek lib fuel g timeInMs reply = some after) :
    Loaded lib after ∧ takenNow lib after = takenAfterSeek lib g timeInMs := by
  obtain ⟨start,started,ready,going,length,back,forward⟩ :=
    seekStart_loaded loaded timeInMs accepted endless
  have bytes : start.bufferLengthBytesTrack = g.bufferLengthBytesTrack := by
    rw [ready.bytes,length,loaded.bytes]
  unfold seek at ran
  rw [started] at ran
  obtain ⟨last,samples,psf,usf⟩ := seekLoop_loaded ready going (Word.sub_lt _ _) ran
  refine ⟨last,?_⟩
  have last_bytes : after.bufferLengthBytesTrack = g.bufferLengthBytesTrack := by
    rw [last.bytes,samples,length,loaded.bytes]
  by_cases behind : seekTarget g timeInMs ≤ g.playedSampleCountTrack
  · obtain ⟨content,produced,played⟩ := back behind
    cases lib with
    | psf =>
      rw [psf rfl]
      simp only [takenNow,takenAfterSeek,content,produced,bytes,behind,if_true,List.nil_append]
      exact outputBytes_take _ _ _ (Nat.le_refl _)
    | usf =>
      simp only [takenNow,takenAfterSeek,behind,if_true,usf rfl,last_bytes,produced,played,length]
      rw [Word.sub_of_le (Nat.zero_le _) (seekTarget_lt _ _),Nat.zero_add,Nat.sub_zero]
  · have same := forward behind
    cases lib with
    | psf =>
      rw [psf rfl,same]
      simp only [takenAfterSeek,behind,if_false]
      rfl
    | usf =>
      simp only [takenNow,takenAfterSeek,behind,if_false,usf rfl,last_bytes,same]
      rw [Word.sub_of_le (by omega) (seekTarget_lt _ _)]

theorem seek_takes {lib : Lib} {g : Globals} {reply : LoadReply} {emulator : Emulator}
    (loaded : Loaded lib g) (timeInMs : Int) (accepted : reply.emulator = some emulator)
    (endless : emulator.Endless) (srcError : Option SrcError) (taken : List Byte) :
    Takes lib g timeInMs reply srcError taken ↔ taken = takenAfterSeek lib g timeInMs := by
  constructor
  · rintro ⟨fuel,after,last,ran,read⟩
    obtain ⟨ready,next⟩ := takenNow_after_seek loaded accepted endless ran
    have taken_now := (readNextSamples_takes ready srcError).1 _ _ _ read
    rw [← next]
    exact Option.some.inj taken_now
  · rintro rfl
    obtain ⟨start,started,ready,going,_⟩ := seekStart_loaded loaded timeInMs accepted endless
    obtain ⟨bound,after,settled⟩ := seekLoop_settles ready going
      (Word.sub_lt (seekTarget g timeInMs) start.playedSampleCountTrack)
    have ran (fuel : Nat) (enough : bound ≤ fuel) : seek lib fuel g timeInMs reply = some after := by
      unfold seek
      rw [started]
      exact settled fuel fuel enough enough
    obtain ⟨last,next⟩ := takenNow_after_seek loaded accepted endless (ran bound (Nat.le_refl _))
    obtain ⟨more,read⟩ := (readNextSamples_takes last srcError).2
    obtain ⟨final,taken_now⟩ := read (bound + more) (by omega)
    rw [← next]
    exact ⟨bound + more,after,final,ran _ (by omega),taken_now⟩

/-- What must hold before a seek for the read after it to start at the target. A PSF seek
needs the first sample, or what already waits to be the target's samples; a USF seek needs
whole buffers to lead from where the emulator is to the target. -/
def Aligned (lib : Lib) (g : Globals) (timeInMs : Int) : Prop :=
  let target := seekTarget g timeInMs
  match lib with
  | .psf =>
    if target ≤ g.playedSampleCountTrack then target = 0
    else (g.fifoFromLib.content ++ outputBytes g.produced g.bufferLengthBytesTrack).take
      g.bufferLengthBytesTrack = outputBytes (4 * target) g.bufferLengthBytesTrack
  | .usf =>
    if target ≤ g.playedSampleCountTrack then g.bufferLengthSamplesTrack ∣ target
    else g.produced + 4 * g.bufferLengthSamplesTrack *
      seekPasses (target - g.playedSampleCountTrack) g.bufferLengthSamplesTrack = 4 * target

theorem seekPasses_exact {samples samplesTrack : Nat} (positive : 0 < samplesTrack) :
    samplesTrack * seekPasses samples samplesTrack = samples ↔ samplesTrack ∣ samples := by
  constructor
  · intro exact_passes
    exact ⟨_,exact_passes.symm⟩
  · rintro ⟨count,rfl⟩
    unfold seekPasses
    congr 1
    refine Nat.div_eq_of_lt_le ?_ ?_
    · rw [Nat.mul_comm]; omega
    · rw [Nat.succ_mul,Nat.mul_comm]; omega

/-- The read after a seek starts at the target's sample exactly when the state before the
seek is aligned with the target. -/
theorem seek_agrees_iff {lib : Lib} {g : Globals} {reply : LoadReply} {emulator : Emulator}
    (loaded : Loaded lib g) (timeInMs : Int) (accepted : reply.emulator = some emulator)
    (endless : emulator.Endless) (srcError : Option SrcError) :
    Takes lib g timeInMs reply srcError
        (outputBytes (4 * seekTarget g timeInMs) g.bufferLengthBytesTrack) ↔
      Aligned lib g timeInMs := by
  have frames := loaded.frames
  have positive : 0 < g.bufferLengthBytesTrack := by rw [loaded.bytes]; omega
  have starts {first second : Nat} : outputBytes first g.bufferLengthBytesTrack =
      outputBytes second g.bufferLengthBytesTrack ↔ first = second :=
    ⟨outputBytes_inj positive,fun same => by rw [same]⟩
  rw [seek_takes loaded timeInMs accepted endless]
  cases lib with
  | psf =>
    simp only [takenAfterSeek,Aligned]
    split
    · rw [starts]
      omega
    · exact eq_comm
  | usf =>
    simp only [takenAfterSeek,Aligned]
    split
    · rw [starts,← seekPasses_exact frames,Nat.mul_assoc]
      omega
    · rw [starts]
      exact eq_comm

theorem steadyEmulator_endless {size : Nat} (positive : 0 < size) : (steadyEmulator size).Endless :=
  ⟨fun _ => rfl,fun _ => rfl,fun call => ⟨call,Nat.le_refl _,positive⟩⟩

theorem fresh_track : ∃ g, loadFileInternal .psf .initial 44100 8 180000
      ⟨[],some (steadyEmulator 16)⟩ = some g ∧ Loaded .psf g ∧ g.bufferLengthBytesTrack = 16 ∧
      seekTarget g 0 = 0 ∧ seekTarget g 1 = 44 ∧ takenNow .psf g = outputBytes 0 16 ∧
      g.playedSampleCountTrack = 0 := by
  obtain ⟨g,ran,loaded,_⟩ := @loadFileInternal_loaded .psf 44100 8 ⟨[],some (steadyEmulator 16)⟩ _
    .initial 180000 (by decide) rfl (steadyEmulator_endless (by decide)) (by decide) (by decide)
  refine ⟨g,ran,loaded,?_⟩
  cases ran
  refine ⟨rfl,rfl,rfl,rfl,rfl⟩

theorem seek_agrees_iff_start : ∃ g, Loaded .psf g ∧
    Takes .psf g 0 ⟨[],some (steadyEmulator 16)⟩ none (outputBytes (4 * 0) 16) := by
  obtain ⟨g,_,loaded,bytes,start,_⟩ := fresh_track
  have agrees := @seek_agrees_iff .psf g ⟨[],some (steadyEmulator 16)⟩ _ loaded 0 rfl
    (steadyEmulator_endless (by decide)) none
  rw [bytes,start] at agrees
  refine ⟨g,loaded,agrees.mpr ?_⟩
  simp [Aligned,start]

/-- From the start of a track, a seek to 1 ms is to sample 44, and the next read still
takes the track's first samples. -/
theorem seek_ignored : ∃ g, Loaded .psf g ∧ seekTarget g 1 = 44 ∧
    ¬ Takes .psf g 1 ⟨[],some (steadyEmulator 16)⟩ none (outputBytes (4 * 44) 16) ∧
    Takes .psf g 1 ⟨[],some (steadyEmulator 16)⟩ none (outputBytes 0 16) := by
  obtain ⟨g,_,loaded,_,_,target,now,played⟩ := fresh_track
  have after : takenAfterSeek .psf g 1 = outputBytes 0 16 := by
    simp only [takenAfterSeek,target,played]
    exact now
  refine ⟨g,loaded,target,?_,?_⟩
  · rw [seek_takes loaded 1 rfl (steadyEmulator_endless (by decide)),after]
    decide
  · rw [seek_takes loaded 1 rfl (steadyEmulator_endless (by decide)),after]

end Chipbox.Native
