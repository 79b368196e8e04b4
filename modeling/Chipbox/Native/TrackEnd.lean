import Chipbox.Native.Seek
import Chipbox.Foundation.Run

/-! When the tracks of the PSF and USF backends end. The end is tested on milliseconds and the
progress counted in samples, each from the other by a division that rounds down. -/
namespace Chipbox.Native
open Globals

def isTrackOver (lib : Lib) (g : Globals) : Bool :=
  match lib with
  | .psf => if !g.cpuOpen then true else decide (g.trackLengthMs ≤ getMillisPlayedInternal g)
  | .usf => decide (g.trackLengthMs ≤ getMillisPlayedInternal g)

/-- `is_bad_src_ratio` on the ratio of the device's rate to the track's. -/
def isBadSrcRatio (rateTrack rateDevice : Nat) : Bool :=
  decide (256 * rateDevice < rateTrack) || decide (256 * rateTrack < rateDevice)

/-- `src_simple` on buffers that do not overlap, while there is memory. -/
def srcSimple (g : Globals) : Option SrcError :=
  if isBadSrcRatio g.sampleRateTrack g.sampleRateDevice then some .badSrcRatio else none

/-- A call of `readNextSamples` that is given its array, with the fuel for its loop. -/
def readOn (lib : Lib) (g : Globals) (fuel : Nat) : Option Globals :=
  (readNextSamples lib fuel g ⟨false,srcSimple g⟩).map Prod.snd

def TrackEnds (lib : Lib) (start : Globals) : Prop :=
  ∃ fuels finish, Run.exec (readOn lib) start fuels = some finish ∧ isTrackOver lib finish = true

/-- The track has no length, or reads make progress and reach its length: it is shorter than
the fade, or a whole number of samples long. -/
def ReachesEnd (lib : Lib) (rate bufferSize trackLengthMs : Nat) : Prop :=
  trackLengthMs = 0 ∨ (0 < loadedSamples lib rate bufferSize ∧
    isBadSrcRatio (trackRate lib rate) rate = false ∧
    (trackLengthMs < fadeTime ∨ (trackRate lib rate * trackLengthMs < 2^64 ∧
      1000 ∣ trackRate lib rate * trackLengthMs)))

def lastSample (rate trackLengthMs : Nat) : Nat :=
  Word.add (convertMsToSamples rate (Word.sub trackLengthMs fadeTime)) (convertMsToSamples rate fadeTime)

section Rounding
variable {rate trackLengthMs samples : Nat}

theorem fadeLength_eq (small : rate < 2^31) : convertMsToSamples rate fadeTime = 7 * rate := by
  unfold convertMsToSamples fadeTime
  rw [Word.mul_of_lt (by omega)]
  omega

theorem lastSample_eq (small : rate < 2^31) : lastSample rate trackLengthMs =
    convertMsToSamples rate (Word.sub trackLengthMs fadeTime) + 7 * rate := by
  unfold lastSample
  rw [fadeLength_eq small,Word.add_of_lt]
  have bound := Word.mul_lt rate (Word.sub trackLengthMs fadeTime)
  unfold convertMsToSamples
  omega

/-- A track that outlasts the fade is read up to its length in samples, rounded down. -/
theorem lastSample_of_long (small : rate < 2^31) (long : fadeTime ≤ trackLengthMs)
    (positive : 0 < rate) (fits : rate * trackLengthMs < 2^64) :
    lastSample rate trackLengthMs = rate * trackLengthMs / 1000 := by
  have word : trackLengthMs < 2^64 :=
    Nat.lt_of_le_of_lt (Nat.le_mul_of_pos_left trackLengthMs positive) fits
  obtain ⟨rest,rfl⟩ := Nat.exists_eq_add_of_le long
  rw [lastSample_eq small,Word.sub_of_le long word,Nat.add_sub_cancel_left]
  have split : rate * (fadeTime + rest) = 7000 * rate + rate * rest := by
    rw [Nat.mul_add,Nat.mul_comm rate fadeTime]
    rfl
  unfold convertMsToSamples
  rw [Word.mul_of_lt (by omega),split]
  omega

/-- Below the length of the fade the threshold wraps around, to beyond any such track. -/
theorem lastSample_of_short (small : rate < 2^31) (short : trackLengthMs < fadeTime)
    (positive : 0 < rate) : 2^53 ≤ lastSample rate trackLengthMs := by
  rw [lastSample_eq small]
  have wrapped : Word.sub trackLengthMs fadeTime = 2^64 - (fadeTime - trackLengthMs) := by
    unfold Word.sub Word.wrap
    unfold fadeTime at *
    omega
  have product : Word.mul rate (2^64 - (fadeTime - trackLengthMs)) =
      2^64 - rate * (fadeTime - trackLengthMs) := by
    have below : rate * (fadeTime - trackLengthMs) ≤ rate * fadeTime :=
      Nat.mul_le_mul_left _ (Nat.sub_le _ _)
    have above : 0 < rate * (fadeTime - trackLengthMs) := Nat.mul_pos positive (by omega)
    have whole : rate * (2^64 - (fadeTime - trackLengthMs)) =
        (rate - 1) * 2^64 + (2^64 - rate * (fadeTime - trackLengthMs)) := by
      rw [Nat.mul_sub,Nat.sub_one_mul]
      unfold fadeTime at *
      omega
    unfold Word.mul Word.wrap
    rw [whole,Nat.mul_add_mod_self_right]
    apply Nat.mod_eq_of_lt
    omega
  have below : rate * (fadeTime - trackLengthMs) ≤ rate * fadeTime :=
    Nat.mul_le_mul_left _ (Nat.sub_le _ _)
  unfold convertMsToSamples
  rw [wrapped,product]
  unfold fadeTime at *
  omega

theorem millis_reach (positive : 0 < rate) (small : 1000 * samples < 2^64) :
    trackLengthMs ≤ convertSamplesToMs rate samples ↔ rate * trackLengthMs ≤ 1000 * samples := by
  unfold convertSamplesToMs
  rw [Word.mul_of_lt small,Nat.le_div_iff_mul_le positive,Nat.mul_comm]

/-- No count of samples is as long as a track of `2^64` samples or more. -/
theorem millis_short (positive : 0 < rate) (long : 2^64 ≤ rate * trackLengthMs) :
    convertSamplesToMs rate samples < trackLengthMs := by
  unfold convertSamplesToMs
  rw [Nat.div_lt_iff_lt_mul positive,Nat.mul_comm trackLengthMs]
  exact Nat.lt_of_lt_of_le (Word.mul_lt _ _) long

end Rounding

def Plays (g after : Globals) : Prop :=
  ∃ cpu error executed produced fifo buffer faults, after = {g with
    cpuOpen := cpu, lastError := error, executed := executed, produced := produced
    fifoFromLib := fifo, bufferAsShortTrack := buffer, faults := faults} ∧
    ((∀ call, g.emulator.cpuOpen call = true) → g.cpuOpen = true → cpu = true)

namespace Plays

theorem refl (g : Globals) : Plays g g := ⟨_,_,_,_,_,_,_,rfl,fun _ opened => opened⟩

theorem trans {g middle after : Globals} (first : Plays g middle) (second : Plays middle after) :
    Plays g after := by
  obtain ⟨_,_,_,_,_,_,_,rfl,opened⟩ := first
  obtain ⟨_,_,_,_,_,_,_,rfl,still⟩ := second
  exact ⟨_,_,_,_,_,_,_,rfl,fun stays now => still stays (opened stays now)⟩

theorem addPlayed {g after : Globals} (plays : Plays g after) (samples : Nat) :
    Plays (g.addPlayed samples) (after.addPlayed samples) := by
  obtain ⟨_,_,_,_,_,_,_,rfl,opened⟩ := plays
  exact ⟨_,_,_,_,_,_,_,rfl,opened⟩

end Plays

theorem pass_plays (g : Globals) (resource : Resource) : Plays g (g.pass resource) := by
  obtain ⟨faults,same⟩ := pass_same g resource
  rw [same]
  exact ⟨_,_,_,_,_,_,_,rfl,fun _ opened => opened⟩

theorem sexyExecute_plays {g after : Globals} {size : Nat}
    (ran : sexyExecute g = some (size,after)) : Plays g after := by
  obtain ⟨_,⟨_,rfl⟩ | ⟨_,_,rfl,_⟩⟩ := sexyExecute_cases ran
  · exact ⟨_,_,_,_,_,_,_,rfl,fun stays _ => stays _⟩
  · exact ⟨_,_,_,_,_,_,_,rfl,fun stays _ => stays _⟩

theorem generateAudio_plays {lib : Lib} {fuel requested : Nat} {g after : Globals} {result : Int}
    (ran : generateAudio lib fuel g requested = some (result,after)) : Plays g after := by
  cases lib with
  | psf =>
    apply @generateLoop_keeps (Plays g) _ _ _ _ _ _ _ (.refl g) ran
    intro middle next _ before _ executed
    exact before.trans (sexyExecute_plays executed)
  | usf =>
    have passed := (pass_plays g .emuState).trans (pass_plays (g.pass .emuState) .bufferAsShortTrack)
    unfold generateAudio usfRenderResampled at ran
    dsimp only at ran
    split at ran
    next outcome =>
      split at outcome
      · cases outcome
        cases ran
        exact passed.trans ⟨_,_,_,_,_,_,_,rfl,fun _ opened => opened⟩
      · cases outcome
    next outcome =>
      split at outcome
      · cases outcome
      · cases outcome
        cases ran
        exact passed.trans ⟨_,_,_,_,_,_,_,rfl,fun _ opened => opened⟩

theorem getFromFifo_plays {g after : Globals} {offset requested count : Nat}
    (ran : getFromFifo g offset requested = some (count,after)) : Plays g after := by
  by_cases positive : g.fifoFromLib.size = 0
  · simp [getFromFifo,positive] at ran
  · obtain ⟨faults,outcome⟩ := getFromFifo_eq positive offset requested
    rw [outcome] at ran
    cases ran
    exact ⟨_,_,_,_,_,_,_,rfl,fun _ opened => opened⟩

theorem assembleAudio_plays {lib : Lib} {fuel : Nat} {g after : Globals} {taken : Option (List Byte)}
    (ran : assembleAudio lib fuel g = some (taken,after)) : Plays g after := by
  unfold assembleAudio at ran
  split at ran
  · cases ran
  next leftover first got =>
    dsimp only at ran
    split at ran
    · cases ran
    next result second generated =>
      have early := (getFromFifo_plays got).trans (generateAudio_plays generated)
      split at ran
      · cases ran
        exact early
      · split at ran
        · cases ran
        next rest third again =>
          cases ran
          exact early.trans (getFromFifo_plays again)

def samplesToRead (g : Globals) : Nat :=
  let remainingSamples := Word.sub
    (Word.add g.fadeStartThresholdSamplesTrack g.fadeLengthSamplesTrack) g.playedSampleCountTrack
  if remainingSamples < g.bufferLengthSamplesTrack then remainingSamples
  else g.bufferLengthSamplesTrack

def Resamples (g : Globals) : Prop :=
  g.sampleRateTrack = g.sampleRateDevice ∨ srcSimple g = none

theorem Plays.resamples {g after : Globals} (plays : Plays g after) :
    Resamples after ↔ Resamples g := by
  obtain ⟨_,_,_,_,_,_,_,rfl,_⟩ := plays
  exact Iff.rfl

/-- A read plays audio, and then counts it where it was assembled and resampled. -/
theorem readNextSamples_plays {lib : Lib} {fuel : Nat} {g after : Globals} {reply : ReadReply}
    {taken : Option (List Byte)} (ran : readNextSamples lib fuel g reply = some (taken,after)) :
    Plays g after ∨ ((g.sampleRateTrack = g.sampleRateDevice ∨ reply.srcError = none) ∧
      Plays (g.addPlayed (samplesToRead g)) after) := by
  unfold readNextSamples at ran
  split at ran
  · cases ran
    exact .inl ⟨_,_,_,_,_,_,_,rfl,fun _ opened => opened⟩
  · split at ran
    · cases ran
      exact .inl ⟨_,_,_,_,_,_,_,rfl,fun _ opened => opened⟩
    · dsimp only at ran
      split at ran
      · cases ran
      next middle assembled =>
        cases ran
        exact .inl (assembleAudio_plays assembled)
      next bytes middle assembled =>
        have plays := assembleAudio_plays assembled
        split at ran
        next same =>
          cases ran
          have rates : g.sampleRateTrack = g.sampleRateDevice := by
            obtain ⟨_,_,_,_,_,_,_,rfl,_⟩ := plays
            exact same
          exact .inr ⟨.inl rates,plays.addPlayed _⟩
        · split at ran
          · cases ran
            exact .inl (plays.trans ⟨_,_,_,_,_,_,_,rfl,fun _ opened => opened⟩)
          next fine =>
            cases ran
            exact .inr ⟨.inr fine,plays.addPlayed _⟩

theorem readOn_plays {lib : Lib} {fuel : Nat} {g after : Globals}
    (ran : readOn lib g fuel = some after) :
    Plays g after ∨ (Resamples g ∧ Plays (g.addPlayed (samplesToRead g)) after) := by
  unfold readOn at ran
  obtain ⟨⟨taken,last⟩,read,rfl⟩ := Option.map_eq_some_iff.mp ran
  exact readNextSamples_plays read

/-- A read of a loaded track moves the FIFO on by at most two buffers. -/
theorem assembleAudio_loaded {lib : Lib} {fuel : Nat} {g after : Globals} {bytes : List Byte}
    (loaded : Loaded lib g)
    (room : g.fifoFromLib.readPos + 20 * g.bufferLengthSamplesTrack < 2^64)
    (ran : assembleAudio lib fuel g = some (some bytes,after)) :
    Loaded lib after ∧
      after.fifoFromLib.readPos ≤ g.fifoFromLib.readPos + 8 * g.bufferLengthSamplesTrack := by
  obtain ⟨queue,holds⟩ : ∃ queue, g.fifoFromLib.Holds queue := ⟨_,loaded.valid,rfl⟩
  obtain ⟨first,got,control,drained,read,_,cpu,_⟩ :=
    getFromFifo_holds holds 0 g.bufferLengthBytesTrack
  rw [loaded.bytes] at read
  have remaining : Word.sub first.bufferLengthBytesTrack (queue.get g.bufferLengthBytesTrack).1.length ≤
      4 * g.bufferLengthSamplesTrack := by
    have few := queue.get_length_le g.bufferLengthBytesTrack
    rw [control.bytesTrack,Word.sub_of_le few (by rw [loaded.bytes]; omega),loaded.bytes]
    omega
  unfold assembleAudio at ran
  rw [got] at ran
  dsimp only at ran
  split at ran
  · cases ran
  next result second generated =>
    have kept : ∃ rest, second.fifoFromLib.Holds rest ∧
        second.fifoFromLib.readPos = first.fifoFromLib.readPos ∧ (lib = .psf → second.cpuOpen = true) := by
      cases lib with
      | psf =>
        obtain ⟨_,_,_,more,_,still,_⟩ :=
          generateLoop_streams (loaded.streams control cpu drained read) generated
        exact ⟨_,more.holds,still,fun _ => more.cpu⟩
      | usf =>
        obtain ⟨last,renders,_,fifo,_⟩ := generateAudio_renders
          (by rw [control.emulator]; exact loaded.endless.renders _)
          (Word.sub first.bufferLengthBytesTrack (queue.get g.bufferLengthBytesTrack).1.length) (g := first)
        rw [renders fuel] at generated
        cases generated
        exact ⟨_,by rw [fifo]; exact drained,by rw [fifo],nofun⟩
    obtain ⟨rest,held,still,opened⟩ := kept
    split at ran
    · cases ran
    · obtain ⟨third,again,more,⟨valid,_⟩,moved,_,same,_⟩ := getFromFifo_holds held
        (queue.get g.bufferLengthBytesTrack).1.length
        (Word.sub first.bufferLengthBytesTrack (queue.get g.bufferLengthBytesTrack).1.length)
      rw [again] at ran
      cases ran
      have whole := (control.trans (generateAudio_control generated)).trans more
      refine ⟨loaded.of_room whole valid (by omega) ?_,by omega⟩
      intro is_psf
      rw [same]
      exact opened is_psf

def Globals.playedTo (g : Globals) (samples : Nat) : Globals := {g with playedSampleCountTrack := samples}

theorem Plays.playedTo {g after : Globals} (plays : Plays g after) (samples : Nat) :
    Plays (g.playedTo samples) (after.playedTo samples) := by
  obtain ⟨_,_,_,_,_,_,_,rfl,opened⟩ := plays
  exact ⟨_,_,_,_,_,_,_,rfl,opened⟩

/-- The loop of `seek` plays audio up to the target that is left. -/
theorem seekLoop_plays {lib : Lib} {generateFuel fuel remaining : Nat} {g after : Globals}
    (going : g.stopSeek = false) (room : g.playedSampleCountTrack + remaining < 2^64)
    (ran : seekLoop lib generateFuel fuel g remaining = some after) :
    Plays (g.playedTo (g.playedSampleCountTrack + remaining)) after := by
  induction fuel generalizing g remaining with
  | zero => cases ran
  | succ fuel ih =>
    simp only [seekLoop,going,Bool.false_eq_true,if_false] at ran
    split at ran
    · split at ran
      · cases ran
      next result middle generated =>
        generalize step : (if remaining > g.bufferLengthSamplesTrack
          then g.bufferLengthSamplesTrack else remaining) = samplesToRead at ran
        have stepped : samplesToRead ≤ remaining := by
          rw [← step]
          split <;> omega
        have plays := (generateAudio_plays generated).addPlayed samplesToRead
        have moved : g.addPlayed samplesToRead =
            g.playedTo (g.playedSampleCountTrack + samplesToRead) := by
          rw [← Word.add_of_lt (Nat.lt_of_le_of_lt (Nat.add_le_add_left stepped _) room)]
          rfl
        rw [moved] at plays
        rw [Word.sub_of_le stepped (by omega)] at ran
        generalize middle.addPlayed samplesToRead = next at ran plays
        obtain ⟨position,still⟩ : next.playedSampleCountTrack =
            g.playedSampleCountTrack + samplesToRead ∧ next.stopSeek = false := by
          obtain ⟨_,_,_,_,_,_,_,rfl,_⟩ := plays
          exact ⟨rfl,going⟩
        have rest := ih still (by omega) ran
        have sum : next.playedSampleCountTrack + (remaining - samplesToRead) =
            g.playedSampleCountTrack + remaining := by omega
        rw [sum] at rest
        exact (plays.playedTo _).trans rest
    next done =>
      cases ran
      have none_left : remaining = 0 := by omega
      rw [none_left]
      exact .refl after

def stopSample (g : Globals) : Nat :=
  Word.add g.fadeStartThresholdSamplesTrack g.fadeLengthSamplesTrack

theorem samplesToRead_eq {start g : Globals} {played : Nat} (plays : Plays (start.playedTo played) g)
    (below : played ≤ stopSample start) :
    samplesToRead g = min (stopSample start - played) start.bufferLengthSamplesTrack := by
  obtain ⟨stop,position,length⟩ : stopSample g = stopSample start ∧
      g.playedSampleCountTrack = played ∧
      g.bufferLengthSamplesTrack = start.bufferLengthSamplesTrack := by
    obtain ⟨_,_,_,_,_,_,_,rfl,_⟩ := plays
    exact ⟨rfl,rfl,rfl⟩
  have unfolded : samplesToRead g =
      if Word.sub (stopSample g) g.playedSampleCountTrack < g.bufferLengthSamplesTrack
      then Word.sub (stopSample g) g.playedSampleCountTrack else g.bufferLengthSamplesTrack := rfl
  rw [unfolded,stop,position,length,Word.sub_of_le below (Word.wrap_lt _)]
  split <;> omega

theorem Plays.counted {start g after : Globals} {played : Nat}
    (plays : Plays (start.playedTo played) g) (below : played ≤ stopSample start)
    (read : Plays (g.addPlayed (samplesToRead g)) after) :
    Plays (start.playedTo
      (min (played + start.bufferLengthSamplesTrack) (stopSample start))) after := by
  have small : stopSample start < 2^64 := Word.wrap_lt _
  have moved : (start.playedTo played).addPlayed (samplesToRead g) =
      start.playedTo (min (played + start.bufferLengthSamplesTrack) (stopSample start)) := by
    have sum : played + samplesToRead g =
        min (played + start.bufferLengthSamplesTrack) (stopSample start) := by
      rw [samplesToRead_eq plays below]
      omega
    have exact_sum : Word.add played (samplesToRead g) = played + samplesToRead g := by
      apply Word.add_of_lt
      rw [sum]
      exact Nat.lt_of_le_of_lt (Nat.min_le_right _ _) small
    rw [← sum,← exact_sum]
    rfl
  rw [← moved]
  exact (plays.addPlayed _).trans read

theorem readOn_counts {lib : Lib} {fuel : Nat} {g middle : Globals} {bytes : List Byte}
    (rate : g.sampleRateTrack ≠ 0) (assembled : assembleAudio lib fuel g = some (some bytes,middle))
    (fine : middle.sampleRateTrack = middle.sampleRateDevice ∨ srcSimple g = none) :
    readOn lib g fuel = some (middle.addPlayed (samplesToRead g)) := by
  have unfolded : readNextSamples lib fuel g ⟨false,srcSimple g⟩ =
      some (some bytes,middle.addPlayed (samplesToRead g)) := by
    unfold readNextSamples
    rw [if_neg rate,if_neg Bool.false_ne_true]
    dsimp only
    rw [assembled]
    dsimp only
    by_cases same : middle.sampleRateTrack = middle.sampleRateDevice
    · rw [if_pos same]
      rfl
    · rw [if_neg same,fine.resolve_left same]
      rfl
  unfold readOn
  rw [unfolded]
  rfl

theorem readOn_settles {lib : Lib} {g : Globals} (loaded : Loaded lib g) (fine : Resamples g)
    (room : g.fifoFromLib.readPos + 20 * g.bufferLengthSamplesTrack < 2^64) :
    ∃ fuel after, readOn lib g fuel = some after ∧ Loaded lib after ∧
      after.fifoFromLib.readPos ≤ g.fifoFromLib.readPos + 8 * g.bufferLengthSamplesTrack ∧
      Plays (g.addPlayed (samplesToRead g)) after := by
  obtain ⟨_,fuel,settled⟩ := assembleAudio_takes loaded
  obtain ⟨middle,assembled⟩ := settled fuel (Nat.le_refl _)
  obtain ⟨kept,read⟩ := assembleAudio_loaded loaded room assembled
  have plays := assembleAudio_plays assembled
  refine ⟨fuel,middle.addPlayed (samplesToRead g),?_,kept.addPlayed _,?_,plays.addPlayed _⟩
  swap
  · rw [addPlayed_fifoFromLib]
    exact read
  apply readOn_counts loaded.rate_ne assembled
  obtain ⟨_,_,_,_,_,_,_,rfl,_⟩ := plays
  exact fine

/-- Reading on reaches every whole number of buffers short of the stop. -/
theorem reads_reach {lib : Lib} {start : Globals} (loaded : Loaded lib start) (fine : Resamples start)
    (fresh : start.playedSampleCountTrack = 0) (calls : Nat)
    (room : start.fifoFromLib.readPos + 8 * (calls * start.bufferLengthSamplesTrack) +
      12 * start.bufferLengthSamplesTrack < 2^64) :
    ∃ fuels finish, Run.exec (readOn lib) start fuels = some finish ∧ Loaded lib finish ∧
      finish.fifoFromLib.readPos ≤
        start.fifoFromLib.readPos + 8 * (calls * start.bufferLengthSamplesTrack) ∧
      Plays (start.playedTo
        (min (calls * start.bufferLengthSamplesTrack) (stopSample start))) finish := by
  induction calls with
  | zero =>
    refine ⟨[],start,rfl,loaded,Nat.le_add_right _ _,?_⟩
    have same : start.playedTo (min (0 * start.bufferLengthSamplesTrack) (stopSample start)) = start := by
      rw [Nat.zero_mul,Nat.zero_min,← fresh]
      rfl
    rw [same]
    exact .refl start
  | succ calls ih =>
    rw [Nat.succ_mul calls] at room ⊢
    obtain ⟨fuels,middle,run,ready,read,plays⟩ := ih (by omega)
    have length : middle.bufferLengthSamplesTrack = start.bufferLengthSamplesTrack := by
      obtain ⟨_,_,_,_,_,_,_,rfl,_⟩ := plays
      rfl
    have resamples : Resamples middle := plays.resamples.mpr fine
    obtain ⟨fuel,finish,taken,kept,moved,counted⟩ := readOn_settles ready resamples
      (by rw [length]; omega)
    refine ⟨fuels ++ [fuel],finish,?_,kept,by rw [length] at moved; omega,?_⟩
    · rw [Run.exec_append]
      exact ⟨middle,run,(Run.exec_singleton middle fuel).trans taken⟩
    · have reached := plays.counted (Nat.min_le_right _ _) counted
      have step : min (min (calls * start.bufferLengthSamplesTrack) (stopSample start) +
          start.bufferLengthSamplesTrack) (stopSample start) =
          min (calls * start.bufferLengthSamplesTrack + start.bufferLengthSamplesTrack)
            (stopSample start) := by omega
      rw [step] at reached
      exact reached

structure Begun (lib : Lib) (rate bufferSize trackLengthMs : Nat) (emulator : Emulator)
    (start : Globals) : Prop where
  length : start.trackLengthMs = trackLengthMs
  rateTrack : start.sampleRateTrack = trackRate lib rate
  rateDevice : start.sampleRateDevice = rate
  samples : start.bufferLengthSamplesTrack = loadedSamples lib rate bufferSize
  stop : stopSample start = lastSample (trackRate lib rate) trackLengthMs
  played : start.playedSampleCountTrack = 0
  cpu : lib = .psf → start.cpuOpen = true
  emulator : start.emulator = emulator
  unread : start.fifoFromLib.readPos = 0

theorem loadFileInternal_begun {lib : Lib} {g start : Globals} {rate bufferSize trackLengthMs : Nat}
    {reply : LoadReply} {emulator : Emulator} (fresh : g.initialized = true ∨ g.playedSampleCountTrack = 0)
    (accepted : reply.emulator = some emulator)
    (ran : loadFileInternal lib g rate bufferSize trackLengthMs reply = some start) :
    0 < rate ∧ Begun lib rate bufferSize trackLengthMs emulator start := by
  have played : start.playedSampleCountTrack = 0 := by
    rw [(loadFileInternal_frame ran).2]
    split
    · rfl
    next down => exact fresh.resolve_left down
  obtain ⟨nonzero,_,_,_,_,_,_,_,_,rfl,outcome⟩ := loadFileInternal_cases ran
  rw [accepted] at outcome
  obtain ⟨opened,rfl⟩ := outcome
  refine ⟨Nat.pos_of_ne_zero nonzero,?_⟩
  cases lib with
  | psf => exact ⟨rfl,rfl,rfl,rfl,rfl,played,opened,rfl,rfl⟩
  | usf => exact ⟨rfl,rfl,rfl,rfl,rfl,played,nofun,rfl,rfl⟩

section Ends
variable {lib : Lib} {rate bufferSize trackLengthMs : Nat} {emulator : Emulator} {start g : Globals}

/-- While the emulator runs, the end is a matter of the samples played. -/
theorem isTrackOver_iff (begun : Begun lib rate bufferSize trackLengthMs emulator start)
    (endless : emulator.Endless) {played : Nat} (plays : Plays (start.playedTo played) g) :
    isTrackOver lib g = true ↔ trackLengthMs ≤ convertSamplesToMs (trackRate lib rate) played := by
  obtain ⟨_,_,_,_,_,_,_,rfl,opened⟩ := plays
  have stays : ∀ call, start.emulator.cpuOpen call = true := by
    rw [begun.emulator]
    exact endless.stays
  have test : (start.trackLengthMs ≤ convertSamplesToMs start.sampleRateTrack played) ↔
      trackLengthMs ≤ convertSamplesToMs (trackRate lib rate) played := by
    rw [begun.length,begun.rateTrack]
  rw [← test]
  cases lib with
  | psf =>
    have running := opened stays (begun.cpu rfl)
    unfold isTrackOver getMillisPlayedInternal
    rw [running]
    exact decide_eq_true_iff
  | usf =>
    exact decide_eq_true_iff

theorem resamples_iff (begun : Begun lib rate bufferSize trackLengthMs emulator start)
    (positive : 0 < rate) : Resamples start ↔ isBadSrcRatio (trackRate lib rate) rate = false := by
  unfold Resamples srcSimple
  rw [begun.rateTrack,begun.rateDevice]
  constructor
  · rintro (same | fine)
    · rw [same]
      simp [isBadSrcRatio]
      omega
    · by_contra bad
      rw [Bool.not_eq_false] at bad
      rw [if_pos bad] at fine
      cases fine
  · intro good
    exact .inr (by rw [good]; rfl)

/-- The samples played stay below the stop, and at zero where reads make no progress. -/
theorem reads_below {fuels : List Nat} {finish : Globals}
    (begun : Begun lib rate bufferSize trackLengthMs emulator start)
    (run : Run.exec (readOn lib) start fuels = some finish) :
    ∃ played, Plays (start.playedTo played) finish ∧ played ≤ stopSample start ∧
      (start.bufferLengthSamplesTrack = 0 ∨ ¬ Resamples start → played = 0) := by
  have kept (s : Globals) (fuel : Nat) (t : Globals)
      (held : ∃ played, Plays (start.playedTo played) s ∧ played ≤ stopSample start ∧
        (start.bufferLengthSamplesTrack = 0 ∨ ¬ Resamples start → played = 0))
      (taken : readOn lib s fuel = some t) :
      ∃ played, Plays (start.playedTo played) t ∧ played ≤ stopSample start ∧
        (start.bufferLengthSamplesTrack = 0 ∨ ¬ Resamples start → played = 0) := by
    obtain ⟨played,plays,below,stuck⟩ := held
    rcases readOn_plays taken with same | ⟨fine,counted⟩
    · exact ⟨played,plays.trans same,below,stuck⟩
    · refine ⟨_,plays.counted below counted,Nat.min_le_right _ _,?_⟩
      rintro (empty | stops)
      · rw [stuck (.inl empty),empty]
        exact Nat.zero_min _
      · exact absurd (plays.resamples.mp fine) stops
  apply Run.invariant_of_step kept _ run
  refine ⟨0,?_,Nat.zero_le _,fun _ => rfl⟩
  have same : start.playedTo 0 = start := by
    rw [← begun.played]
    rfl
  rw [same]
  exact .refl start

theorem trackRate_pos {lib : Lib} {rate : Nat} (positive : 0 < rate) : 0 < trackRate lib rate := by
  cases lib with
  | psf => exact (by decide : 0 < 44100)
  | usf => exact positive

theorem reachesEnd_of_ends (begun : Begun lib rate bufferSize trackLengthMs emulator start)
    (endless : emulator.Endless) (positive : 0 < rate) (small : trackRate lib rate < 2^31)
    (ends : TrackEnds lib start) : ReachesEnd lib rate bufferSize trackLengthMs := by
  obtain ⟨fuels,finish,run,ended⟩ := ends
  obtain ⟨played,plays,below,stuck⟩ := reads_below begun run
  have reached := (isTrackOver_iff begun endless plays).mp ended
  have rate_pos := @trackRate_pos lib rate positive
  rcases Nat.eq_zero_or_pos trackLengthMs with none_long | some_long
  · exact .inl none_long
  · have moved : played ≠ 0 := by
      rintro rfl
      unfold convertSamplesToMs at reached
      simp [Word.mul,Word.wrap] at reached
      omega
    have progress := mt stuck moved
    rw [not_or,not_not,begun.samples,resamples_iff begun positive] at progress
    refine .inr ⟨Nat.pos_of_ne_zero progress.1,progress.2,?_⟩
    by_cases short : trackLengthMs < fadeTime
    · exact .inl short
    · have long : fadeTime ≤ trackLengthMs := Nat.le_of_not_lt short
      by_cases fits : trackRate lib rate * trackLengthMs < 2^64
      · refine .inr ⟨fits,?_⟩
        rw [begun.stop,lastSample_of_long small long rate_pos fits] at below
        have enough := (millis_reach rate_pos (by omega)).mp reached
        omega
      · exact absurd reached (Nat.not_le_of_lt (millis_short rate_pos (Nat.le_of_not_lt fits)))

theorem ends_of_reachesEnd (begun : Begun lib rate bufferSize trackLengthMs emulator start)
    (endless : emulator.Endless) (positive : 0 < rate) (small : trackRate lib rate < 2^31)
    (buffer : loadedSamples lib rate bufferSize < 2^48)
    (loaded : 0 < loadedSamples lib rate bufferSize → Loaded lib start ∧ start.fifoFromLib.readPos = 0)
    (reaches : ReachesEnd lib rate bufferSize trackLengthMs) : TrackEnds lib start := by
  have rate_pos := @trackRate_pos lib rate positive
  have at_start : Plays (start.playedTo 0) start := by
    have same : start.playedTo 0 = start := by
      rw [← begun.played]
      rfl
    rw [same]
    exact .refl start
  rcases reaches with none_long | ⟨frames,good,far⟩
  · refine ⟨[],start,rfl,(isTrackOver_iff begun endless at_start).mpr ?_⟩
    rw [none_long]
    exact Nat.zero_le _
  · obtain ⟨ready,unread⟩ := loaded frames
    have fine := (resamples_iff begun positive).mpr good
    -- enough buffers to pass the length, or the stop where that is the length
    obtain ⟨calls,moves,arrives⟩ : ∃ calls,
        calls * loadedSamples lib rate bufferSize ≤ 2^55 ∧
        trackLengthMs ≤ convertSamplesToMs (trackRate lib rate)
          (min (calls * loadedSamples lib rate bufferSize) (stopSample start)) := by
      refine ⟨trackRate lib rate * trackLengthMs / 1000 / loadedSamples lib rate bufferSize + 1,?_⟩
      have division := Nat.div_add_mod (trackRate lib rate * trackLengthMs / 1000)
        (loadedSamples lib rate bufferSize)
      have rest := Nat.mod_lt (trackRate lib rate * trackLengthMs / 1000) frames
      rw [Nat.mul_comm] at division
      rw [Nat.succ_mul,begun.stop]
      by_cases short : trackLengthMs < fadeTime
      · have product : trackRate lib rate * trackLengthMs < 2^31 * 7000 :=
          Nat.mul_lt_mul'' small short
        have stop := lastSample_of_short small short rate_pos
        refine ⟨by omega,?_⟩
        rw [millis_reach rate_pos (by omega)]
        omega
      · obtain ⟨fits,whole⟩ := far.resolve_left short
        rw [lastSample_of_long small (Nat.le_of_not_lt short) rate_pos fits]
        refine ⟨by omega,?_⟩
        rw [millis_reach rate_pos (by omega)]
        omega
    rw [← begun.samples] at moves arrives buffer
    obtain ⟨fuels,finish,run,_,_,plays⟩ := reads_reach ready fine begun.played calls (by omega)
    exact ⟨fuels,finish,run,(isTrackOver_iff begun endless plays).mpr arrives⟩

theorem trackRate_lt (small : rate < 2^31) : trackRate lib rate < 2^31 := by
  cases lib with
  | psf => exact (by decide : 44100 < 2^31)
  | usf => exact small

theorem loadedSamples_lt (positive : 0 < rate) (buffer : bufferSize < 2^31) :
    loadedSamples lib rate bufferSize < 2^48 := by
  unfold loadedSamples samplesAtTrackRate shortsPerSample
  cases lib with
  | psf =>
    have shrinks := Nat.div_le_self (bufferSize / 2 * 44100) rate
    dsimp only [trackRate]
    omega
  | usf =>
    dsimp only [trackRate]
    rw [Nat.mul_div_cancel _ positive]
    omega

/-- Reads make a track just loaded end exactly when its length can be reached. -/
theorem track_ends_iff {reply : LoadReply}
    (fresh : g.initialized = true ∨ g.playedSampleCountTrack = 0)
    (small : rate < 2^31) (buffer : bufferSize < 2^31) (accepted : reply.emulator = some emulator)
    (endless : emulator.Endless)
    (ran : loadFileInternal lib g rate bufferSize trackLengthMs reply = some start) :
    TrackEnds lib start ↔ ReachesEnd lib rate bufferSize trackLengthMs := by
  obtain ⟨positive,begun⟩ := loadFileInternal_begun fresh accepted ran
  have bound : loadedSamples lib rate bufferSize < 2^48 := loadedSamples_lt positive buffer
  constructor
  · exact reachesEnd_of_ends begun endless positive (trackRate_lt small)
  · apply ends_of_reachesEnd begun endless positive (trackRate_lt small) bound
    intro frames
    obtain ⟨after,loads,ready,_⟩ := loadFileInternal_loaded g trackLengthMs (Nat.ne_of_gt positive)
      accepted endless frames (by omega)
    rw [ran] at loads
    cases loads
    exact ⟨ready,begun.unread⟩

end Ends

/-- Three minutes at 44100 Hz are a whole number of samples. -/
theorem track_ends_iff_three_minutes : ∃ start, loadFileInternal .psf .initial 44100 8 180000
    ⟨[],some (steadyEmulator 16)⟩ = some start ∧ TrackEnds .psf start := by
  have endless := @steadyEmulator_endless 16 (by decide)
  have ends := fun start => @track_ends_iff .psf 44100 8 180000 (steadyEmulator 16) start .initial
    ⟨[],some (steadyEmulator 16)⟩ (.inr rfl) (by decide) (by decide) rfl endless
  refine ⟨_,rfl,(ends _ rfl).mpr ?_⟩
  exact .inr ⟨by decide,by decide,.inr ⟨by decide,by decide⟩⟩

/-- One millisecond more is not: the count stops short of it and stays there. -/
theorem track_stuck : ∃ start, loadFileInternal .psf .initial 44100 8 180001
    ⟨[],some (steadyEmulator 16)⟩ = some start ∧ ¬ TrackEnds .psf start := by
  refine ⟨_,rfl,?_⟩
  intro ends
  have begun := (@loadFileInternal_begun .psf .initial _ 44100 8 180001 ⟨[],some (steadyEmulator 16)⟩
    _ (.inr rfl) rfl rfl).2
  have endless := @steadyEmulator_endless 16 (by decide)
  have reaches := reachesEnd_of_ends begun endless (by decide) (by decide) ends
  rcases reaches with none_long | ⟨_,_,short | ⟨_,whole⟩⟩
  · exact absurd none_long (by decide)
  · exact absurd short (by decide)
  · exact absurd whole (by decide)

end Chipbox.Native
