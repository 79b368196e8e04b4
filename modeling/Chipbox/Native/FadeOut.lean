import Chipbox.Native.Accounting
import Mathlib.Tactic.FieldSimp
import Mathlib.Data.Rat.Cast.Order

/-! The fade at the end of a PSF or USF track. The loop of `processFadeOut` leaves at the first sample
before the threshold, and past the end of the fade its unsigned subtraction wraps around. -/
namespace Chipbox.Native
open Globals

abbrev StereoSample := Rat × Rat

def scale (factor : Rat) (sample : StereoSample) : StereoSample :=
  (sample.1 * factor,sample.2 * factor)

def sampleScalingFactor (fadeStartThreshold fadeTimeSamples currentSampleIndex : Nat) : Rat :=
  let remainingSamples := Word.sub (Word.add fadeStartThreshold fadeTimeSamples) currentSampleIndex
  if 0 < remainingSamples then remainingSamples / fadeTimeSamples else 0

/-- The loop of `processFadeOut` from a sample index on. -/
def fadeLoop (firstSampleIndex fadeStartThreshold fadeTimeSamples : Nat) :
    Nat → List StereoSample → List StereoSample
  | _,[] => []
  | sampleIndex,sample::rest =>
    let currentSampleIndex := Word.add firstSampleIndex sampleIndex
    if currentSampleIndex < fadeStartThreshold then sample::rest
    else scale (sampleScalingFactor fadeStartThreshold fadeTimeSamples currentSampleIndex) sample::
      fadeLoop firstSampleIndex fadeStartThreshold fadeTimeSamples (sampleIndex + 1) rest

def processFadeOut (buffer : List StereoSample)
    (firstSampleIndex fadeStartThreshold fadeTimeSamples : Nat) : List StereoSample :=
  fadeLoop firstSampleIndex fadeStartThreshold fadeTimeSamples 0 buffer

/-- What the fade should multiply the sample of an index by. -/
def fadeFactor (threshold fade index : Nat) : Rat :=
  if index < threshold then 1
  else if index < threshold + fade then ((threshold + fade - index : Nat) : Rat) / fade
  else 0

def FadesRight (first threshold fade length : Nat) : Prop :=
  ∀ buffer : List StereoSample, buffer.length = length → ∀ offset,
    (processFadeOut buffer first threshold fade)[offset]? =
      buffer[offset]?.map (scale (fadeFactor threshold fade (first + offset)))

/-- The buffer ends by the threshold, or lies between the threshold and the end of the fade. -/
def FadeAligned (first threshold fade length : Nat) : Prop :=
  length = 0 ∨ first + length ≤ threshold + 1 ∨
    (threshold ≤ first ∧ first + length ≤ threshold + fade + 1)

instance (first threshold fade length : Nat) : Decidable (FadeAligned first threshold fade length) :=
  inferInstanceAs (Decidable (_ ∨ _))

section Factors
variable {first threshold fade index : Nat}

theorem scale_one (sample : StereoSample) : scale 1 sample = sample := by
  simp [scale]

theorem scale_inj {factor other : Rat} (same : scale factor (1,1) = scale other (1,1)) :
    factor = other := by
  have left := congrArg Prod.fst same
  simpa [scale] using left

theorem fadeFactor_before (before : index ≤ threshold) (positive : 0 < fade) :
    fadeFactor threshold fade index = 1 := by
  unfold fadeFactor
  rcases Nat.lt_or_eq_of_le before with less | rfl
  · rw [if_pos less]
  · rw [if_neg (Nat.lt_irrefl _),if_pos (by omega),Nat.add_sub_cancel_left]
    exact div_self (Nat.cast_ne_zero.mpr (Nat.ne_of_gt positive))

theorem fadeFactor_during (after : threshold < index) (positive : 0 < fade) :
    fadeFactor threshold fade index ≠ 1 := by
  unfold fadeFactor
  rw [if_neg (Nat.not_lt_of_lt after)]
  split
  next inside =>
    intro whole
    rw [div_eq_one_iff_eq (Nat.cast_ne_zero.mpr (Nat.ne_of_gt positive))] at whole
    have equal : threshold + fade - index = fade := Nat.cast_injective whole
    omega
  · exact zero_ne_one

theorem sampleScalingFactor_within (after : threshold ≤ index) (before : index ≤ threshold + fade)
    (word : threshold + fade < 2^64) :
    sampleScalingFactor threshold fade index = fadeFactor threshold fade index := by
  unfold sampleScalingFactor fadeFactor
  dsimp only
  rw [Word.add_of_lt word,Word.sub_of_le before word,if_neg (Nat.not_lt_of_le after)]
  by_cases inside : index < threshold + fade
  · rw [if_pos inside,if_pos (Nat.sub_pos_of_lt inside)]
  · rw [if_neg inside,if_neg (by omega)]

theorem sampleScalingFactor_past (past : threshold + fade < index) (word : index < 2^64)
    (positive : 0 < fade) :
    sampleScalingFactor threshold fade index ≠ fadeFactor threshold fade index := by
  have wrapped : 0 < Word.sub (threshold + fade) index := by
    unfold Word.sub Word.wrap
    omega
  unfold sampleScalingFactor fadeFactor
  dsimp only
  rw [Word.add_of_lt (by omega),if_pos wrapped,if_neg (by omega),if_neg (by omega)]
  have numerator : (Word.sub (threshold + fade) index : Rat) ≠ 0 :=
    Nat.cast_ne_zero.mpr (Nat.ne_of_gt wrapped)
  exact div_ne_zero numerator (Nat.cast_ne_zero.mpr (Nat.ne_of_gt positive))

theorem fadeLoop_before {sampleIndex : Nat} (before : first + sampleIndex < threshold)
    (word : first + sampleIndex < 2^64) (buffer : List StereoSample) :
    fadeLoop first threshold fade sampleIndex buffer = buffer := by
  cases buffer with
  | nil => rfl
  | cons sample rest =>
    unfold fadeLoop
    dsimp only
    rw [Word.add_of_lt word,if_pos before]

/-- From the threshold on every sample is scaled by what the code computes. -/
theorem fadeLoop_after {sampleIndex : Nat} (buffer : List StereoSample)
    (after : threshold ≤ first + sampleIndex) (word : first + sampleIndex + buffer.length < 2^64)
    (offset : Nat) : (fadeLoop first threshold fade sampleIndex buffer)[offset]? =
      buffer[offset]?.map (scale (sampleScalingFactor threshold fade (first + sampleIndex + offset))) := by
  induction buffer generalizing sampleIndex offset with
  | nil => rfl
  | cons sample rest ih =>
    rw [List.length_cons] at word
    unfold fadeLoop
    dsimp only
    rw [Word.add_of_lt (by omega),if_neg (Nat.not_lt_of_le after)]
    cases offset with
    | zero => rfl
    | succ offset =>
      rw [List.getElem?_cons_succ,List.getElem?_cons_succ,ih (by omega) (by omega)]
      congr 3
      omega

theorem processFadeOut_before (buffer : List StereoSample) (before : first < threshold)
    (word : first < 2^64) : processFadeOut buffer first threshold fade = buffer :=
  fadeLoop_before before word buffer

theorem processFadeOut_after (buffer : List StereoSample) (after : threshold ≤ first)
    (word : first + buffer.length < 2^64) (offset : Nat) :
    (processFadeOut buffer first threshold fade)[offset]? =
      buffer[offset]?.map (scale (sampleScalingFactor threshold fade (first + offset))) :=
  fadeLoop_after buffer after word offset

theorem FadesRight.factor {length offset : Nat} (right : FadesRight first threshold fade length)
    (inside : offset < length) {factor : Rat}
    (made : (processFadeOut (List.replicate length (1,1)) first threshold fade)[offset]? =
      some (scale factor (1,1))) : factor = fadeFactor threshold fade (first + offset) := by
  have given := right (List.replicate length (1,1)) List.length_replicate offset
  rw [made,List.getElem?_replicate,if_pos inside,Option.map_some,Option.some.injEq] at given
  exact scale_inj given

theorem fadeAligned_of_right {length : Nat} (positive : 0 < fade) (word : threshold + fade < 2^64)
    (room : first + length < 2^64) (right : FadesRight first threshold fade length) :
    FadeAligned first threshold fade length := by
  have ones (offset : Nat) (inside : offset < length) :
      (List.replicate length ((1,1) : StereoSample))[offset]? = some (1,1) := by
    rw [List.getElem?_replicate,if_pos inside]
  by_contra apart
  unfold FadeAligned at apart
  by_cases before : first < threshold
  · -- the first sample after the threshold, which the loop has left
    have inside : threshold + 1 - first < length := by omega
    have made : (processFadeOut (List.replicate length (1,1)) first threshold fade)[threshold + 1 - first]? =
        some (scale 1 (1,1)) := by
      rw [processFadeOut_before _ before (by omega),ones _ inside,scale_one]
    have factor := right.factor inside made
    exact fadeFactor_during (by omega) positive factor.symm
  · -- the first sample after the end of the fade
    have inside : threshold + fade + 1 - first < length := by omega
    have made : (processFadeOut (List.replicate length (1,1)) first threshold fade)[
        threshold + fade + 1 - first]? = some (scale (sampleScalingFactor threshold fade
          (first + (threshold + fade + 1 - first))) (1,1)) := by
      rw [processFadeOut_after _ (by omega) (by rw [List.length_replicate]; exact room),ones _ inside]
      rfl
    have factor := right.factor inside made
    exact sampleScalingFactor_past (by omega) (by omega) positive factor

theorem FadeAligned.right {length : Nat} (aligned : FadeAligned first threshold fade length)
    (positive : 0 < fade) (word : threshold + fade < 2^64) (room : first + length < 2^64) :
    FadesRight first threshold fade length := by
  intro buffer sized offset
  unfold FadeAligned at aligned
  by_cases before : first < threshold
  · rw [processFadeOut_before _ before (by omega)]
    cases found : buffer[offset]? with
    | none => rfl
    | some sample =>
      have inside := (List.getElem?_eq_some_iff.mp found).1
      rw [sized] at inside
      rw [Option.map_some,fadeFactor_before (by omega) positive,scale_one]
  · rw [processFadeOut_after _ (by omega) (by rw [sized]; exact room)]
    cases found : buffer[offset]? with
    | none => rw [Option.map_none,Option.map_none]
    | some sample =>
      have inside := (List.getElem?_eq_some_iff.mp found).1
      rw [sized] at inside
      rw [Option.map_some,Option.map_some,sampleScalingFactor_within (by omega) (by omega) word]

end Factors

def read (lib : Lib) (fuel : Nat) (g : Globals) (reply : ReadReply) : Option Globals :=
  (readNextSamples lib fuel g reply).map Prod.snd

/-- The call gets as far as `processFadeOut`. -/
def Fades (lib : Lib) (fuel : Nat) (g : Globals) (reply : ReadReply) : Prop :=
  g.sampleRateTrack ≠ 0 ∧ reply.arrayNull = false ∧
    ∃ taken middle, assembleAudio lib fuel g = some (some taken,middle)

/-- What a call gives to `processFadeOut` leaves it with the factors of a fade-out. -/
def FadedRight (lib : Lib) (fuel : Nat) (g : Globals) (reply : ReadReply) : Prop :=
  Fades lib fuel g reply → FadesRight g.playedSampleCountTrack g.fadeStartThresholdSamplesTrack
    g.fadeLengthSamplesTrack g.bufferLengthSamplesTrack

/-- What a call gives to `processFadeOut` is aligned with the fade. -/
def FadedAligned (lib : Lib) (fuel : Nat) (g : Globals) (reply : ReadReply) : Prop :=
  Fades lib fuel g reply → FadeAligned g.playedSampleCountTrack g.fadeStartThresholdSamplesTrack
    g.fadeLengthSamplesTrack g.bufferLengthSamplesTrack

theorem Plays.samples {g after : Globals} (plays : Plays g after) :
    after.bufferLengthSamplesTrack = g.bufferLengthSamplesTrack := by
  obtain ⟨_,_,_,_,_,_,_,rfl,_⟩ := plays
  rfl

structure Reading (lib : Lib) (rate trackLengthMs samples : Nat) (g : Globals) : Prop where
  accounts : Accounts lib rate trackLengthMs g
  sound : g.NoWrap
  samples : g.bufferLengthSamplesTrack = samples

namespace Reading
variable {lib : Lib} {fuel rate trackLengthMs samples : Nat} {g after : Globals} {reply : ReadReply}

theorem read (reading : Reading lib rate trackLengthMs samples g) (small : rate < 2^31)
    (ran : read lib fuel g reply = some after) : Reading lib rate trackLengthMs samples after := by
  obtain ⟨⟨_,last⟩,taken,rfl⟩ := Option.map_eq_some_iff.mp ran
  obtain ⟨accounts,reached⟩ := readNextSamples_counts reading.accounts small reading.sound taken
  refine ⟨accounts,(reading.accounts.noWrap_iff accounts reading.sound).mpr reached,?_⟩
  rw [← reading.samples]
  rcases readNextSamples_plays taken with plays | ⟨_,plays⟩
  · exact plays.samples
  · rw [plays.samples,addPlayed_samplesTrack]

theorem faded_iff (reading : Reading lib rate trackLengthMs samples g) (small : rate < 2^31)
    (positive : 0 < trackRate lib rate) (short : samples < 2^48) :
    FadedRight lib fuel g reply ↔ FadedAligned lib fuel g reply := by
  have fade := reading.accounts.fade
  rw [fadeLength_eq (trackRate_lt small)] at fade
  have word : g.fadeStartThresholdSamplesTrack + g.fadeLengthSamplesTrack < 2^63 := by
    have product := Word.mul_lt (trackRate lib rate) (Word.sub trackLengthMs fadeTime)
    have bound := @trackRate_lt lib rate small
    rw [reading.accounts.threshold,fade]
    unfold convertMsToSamples
    omega
  have played := reading.sound.played
  have length := reading.samples
  unfold FadedRight FadedAligned
  apply imp_congr_right
  intro _
  constructor
  · exact fadeAligned_of_right (by omega) (by omega) (by omega)
  · intro aligned
    exact aligned.right (by omega) (by omega) (by omega)

end Reading

/-- Over any reads of a track at least as long as the fade, every sample leaves the fade
multiplied by its factor exactly when every buffer is aligned with it. -/
theorem fade_right_iff {lib : Lib} {fuel rate bufferSize trackLengthMs : Nat}
    {g start finish : Globals} {reply : LoadReply} {emulator : Emulator} {replies : List ReadReply}
    (fresh : g.initialized = true ∨ g.playedSampleCountTrack = 0)
    (small : rate < 2^31) (buffer : bufferSize < 2^31) (accepted : reply.emulator = some emulator)
    (long : fadeTime ≤ trackLengthMs)
    (loads : loadFileInternal lib g rate bufferSize trackLengthMs reply = some start)
    (run : Run.exec (read lib fuel) start replies = some finish) :
    Run.Meets (read lib fuel) (FadedRight lib fuel) start replies ↔
      Run.Meets (read lib fuel) (FadedAligned lib fuel) start replies := by
  obtain ⟨positive,begun⟩ := loadFileInternal_begun fresh accepted loads
  have accounts : Accounts lib rate trackLengthMs start :=
    loadFileInternal_accounts (fun refused => by rw [accepted] at refused; cases refused) loads
  have rate_pos := @trackRate_pos lib rate positive
  have base : Reading lib rate trackLengthMs (loadedSamples lib rate bufferSize) start := by
    refine ⟨accounts,⟨by rw [accounts.length]; exact long,?_⟩,begun.samples⟩
    rw [begun.played]
    exact Nat.zero_le _
  have reading : Run.Meets (read lib fuel) (fun s _ =>
      Reading lib rate trackLengthMs (loadedSamples lib rate bufferSize) s) start replies := by
    have free : Run.Meets (read lib fuel) (fun _ _ => True) start replies :=
      Run.meets_of_labels (fun _ _ _ => trivial) start
    apply Run.meets_of_meets _ _ base free
    · intro s made t held _ taken
      exact held.read small taken
    · intro s made held _
      exact held
  apply Run.meets_iff_among _ run reading
  intro s made t held _
  exact held.faded_iff small rate_pos (loadedSamples_lt positive buffer)

/-- Reads of four samples, all within the fade. -/
theorem fade_right_iff_within : ∃ start finish, loadFileInternal .psf .initial 44100 8 7000
    ⟨[],some (steadyEmulator 16)⟩ = some start ∧
    Run.exec (read .psf 20) start [⟨false,none⟩,⟨false,none⟩] = some finish ∧
    Run.Meets (read .psf 20) (FadedRight .psf 20) start [⟨false,none⟩,⟨false,none⟩] := by
  refine ⟨_,_,rfl,rfl,(@fade_right_iff .psf 20 44100 8 7000 .initial _ _ ⟨[],some (steadyEmulator 16)⟩
    _ _ (.inr rfl) (by decide) (by decide) rfl (by decide) rfl rfl).mpr ?_⟩
  exact ⟨fun _ => by decide,fun _ => by decide,trivial⟩

/-- The fade starts at sample 44, in the middle of the second buffer of 30, which is not faded. -/
theorem fade_missed : ∃ start middle, loadFileInternal .psf .initial 44100 60 7001
    ⟨[],some (steadyEmulator 16)⟩ = some start ∧
    read .psf 20 start ⟨false,none⟩ = some middle ∧ Fades .psf 20 middle ⟨false,none⟩ ∧
    ¬ FadedRight .psf 20 middle ⟨false,none⟩ := by
  have fades : ∃ start middle, loadFileInternal .psf .initial 44100 60 7001
      ⟨[],some (steadyEmulator 16)⟩ = some start ∧ read .psf 20 start ⟨false,none⟩ = some middle ∧
      Fades .psf 20 middle ⟨false,none⟩ ∧ middle.playedSampleCountTrack = 30 ∧
      middle.fadeStartThresholdSamplesTrack = 44 ∧ middle.fadeLengthSamplesTrack = 308700 ∧
      middle.bufferLengthSamplesTrack = 30 :=
    ⟨_,_,rfl,rfl,⟨by decide,rfl,_,_,rfl⟩,rfl,rfl,rfl,rfl⟩
  obtain ⟨start,middle,loads,ran,fades,played,threshold,fade,samples⟩ := fades
  refine ⟨start,middle,loads,ran,fades,fun right => ?_⟩
  have faded := right fades
  rw [played,threshold,fade,samples] at faded
  have aligned := fadeAligned_of_right (by decide) (by decide) (by decide) faded
  exact absurd aligned (by decide)

end Chipbox.Native
