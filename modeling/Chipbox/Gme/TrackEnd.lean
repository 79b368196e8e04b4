import Chipbox.Gme.Backend

/-! How a track of the GME backend ends while its emulator plays on: by six seconds of silence,
or by its fade. -/
namespace Chipbox.Gme

variable {Core : Type} {emulator : Emulator Core}

/-- The emulator neither fails nor reaches an end. -/
structure Emulator.Endless (emulator : Emulator Core) : Prop where
  goes_on : ∀ core count, (emulator.play_ core count).ended = false
  succeeds : ∀ core count, (emulator.play_ core count).err = none

/-- From a time on, past the first buffer of the track, all that was generated is quiet, but for
the first samples of calls. -/
def StillFrom (time : Nat) (s : MusicEmu Core) : Prop :=
  ∀ i sample, time < i → bufSize ≤ i → s.generated[i]? = some sample → Quiet sample ∨ i ∈ s.starts

theorem StillFrom.append {time : Nat} {s t : MusicEmu Core} {samples : List Int}
    (still : StillFrom time s) (appended : t.generated = s.generated ++ samples)
    (starts : s.starts ⊆ t.starts)
    (new : ∀ j sample, samples[j]? = some sample → time < s.generated.length + j →
      Quiet sample ∨ s.generated.length + j ∈ t.starts) : StillFrom time t := by
  intro i sample after late listed
  rw [appended] at listed
  rcases Nat.lt_or_ge i s.generated.length with old | fresh
  · rw [List.getElem?_append_left old] at listed
    exact (still i sample after late listed).imp_right fun member => starts member
  · rw [List.getElem?_append_right fresh] at listed
    have here := new (i - s.generated.length) sample listed (by omega)
    rwa [Nat.add_sub_cancel' fresh] at here

/-- The record of the last silence is right: what follows it is quiet. -/
structure Marked (s : MusicEmu Core) : Prop where
  length : s.generated.length = s.emuTime
  still : StillFrom s.silenceTime s

theorem Marked.call {s t : MusicEmu Core} {samples : List Int} {count : Nat} (marked : Marked s)
    (appended : t.generated = s.generated ++ samples) (starts : s.starts ⊆ t.starts)
    (filled : samples.length = count) (emuTime : t.emuTime = s.emuTime + count)
    (first : ∀ sample, samples[0]? = some sample → Quiet sample ∨ s.generated.length ∈ t.starts)
    (record : t.silenceTime = if countSilence samples < count then
      s.emuTime + count - countSilence samples else s.silenceTime) : Marked t := by
  have before := marked.length
  refine ⟨by rw [appended,List.length_append,filled,before,emuTime],?_⟩
  have counted := countSilence_le samples
  rw [record]
  split
  next loud =>
    refine StillFrom.append (s := s) ?_ appended starts ?_
    · intro i sample after late listed
      obtain ⟨bound,_⟩ := List.getElem?_eq_some_iff.mp listed
      omega
    · intro j sample listed after
      exact .inl (countSilence_quiet listed (by omega))
  next silent =>
    refine marked.still.append appended starts fun j sample listed after => ?_
    rcases Nat.eq_zero_or_pos j with rfl | later
    · exact first sample listed
    · exact .inl (countSilence_quiet listed (by omega))

theorem blarggLong_eq {n : Int} (low : -2147483648 ≤ n) (high : n < 2147483648) : blarggLong n = n := by
  unfold blarggLong
  exact Int.bmod_eq_of_le (by omega) (by omega)

/-- The value before the shift of `int_log`: from half the unit, exclusively, to the unit. -/
theorem intLog_mantissa {x step : Nat} (positive : 0 < step) (fine : step ≤ fadeUnit) :
    ∃ fraction, fraction < fadeUnit ∧ fraction = (x % step) * fadeUnit / step ∧
      intLog x step fadeUnit = ((fadeUnit - fraction + fraction / 2) / 2 ^ (x / step % 32) : Nat) := by
  have unit : fadeUnit = 16384 := by decide
  have less : x % step < step := Nat.mod_lt _ positive
  have small : x % step * fadeUnit / step < fadeUnit :=
    Nat.div_lt_of_lt_mul (Nat.mul_lt_mul_of_pos_right less (by decide))
  refine ⟨_,small,rfl,?_⟩
  have shift : (x : Int).tdiv step = (x / step : Nat) := rfl
  have rest : (x : Int) - (x / step : Nat) * step = (x % step : Nat) := by
    have split := Nat.div_add_mod x step
    rw [Nat.mul_comm] at split
    omega
  have product : blarggLong ((x % step : Nat) * (fadeUnit : Int)) = (x % step * fadeUnit : Nat) := by
    rw [← Int.natCast_mul,blarggLong_eq (by omega)]
    rw [unit]
    omega
  have fraction : ((x % step * fadeUnit : Nat) : Int).tdiv step = (x % step * fadeUnit / step : Nat) := rfl
  unfold intLog
  dsimp only
  rw [shift,rest,product,fraction]
  generalize x % step * fadeUnit / step = fraction at small
  have halves : (fadeUnit : Int) - fraction + (fraction : Int) >>> (1 : Nat) =
      (fadeUnit - fraction + fraction / 2 : Nat) := by
    rw [← Int.natCast_shiftRight,Nat.shiftRight_one]
    omega
  have places : ((x / step : Nat) % 32 : Int).toNat = x / step % 32 := by omega
  rw [halves,places,← Int.natCast_shiftRight,Nat.shiftRight_eq_div_pow]

/-- The fade does not rise within 32 steps. -/
theorem intLog_anti {x y step : Nat} (positive : 0 < step) (fine : step ≤ fadeUnit) (later : x ≤ y)
    (near : y / step < 32) : intLog y step fadeUnit ≤ intLog x step fadeUnit := by
  obtain ⟨fraction,less,exactly,value⟩ := intLog_mantissa (x := x) positive fine
  obtain ⟨next,next_less,next_exactly,next_value⟩ := intLog_mantissa (x := y) positive fine
  have unit : fadeUnit = 2 * 8192 := by decide
  have order : x / step ≤ y / step := Nat.div_le_div_right later
  rw [value,next_value,Nat.mod_eq_of_lt near,Nat.mod_eq_of_lt (by omega : x / step < 32),Int.ofNat_le]
  rcases Nat.lt_or_eq_of_le order with up | same
  · have half : (2 * 8192) / 2 ^ (x / step + 1) = 8192 / 2 ^ (x / step) := by
      rw [Nat.pow_succ,Nat.mul_comm _ 2,Nat.mul_div_mul_left _ _ (by decide)]
    calc (fadeUnit - next + next / 2) / 2 ^ (y / step)
        ≤ (2 * 8192) / 2 ^ (y / step) := Nat.div_le_div_right (by omega)
      _ ≤ (2 * 8192) / 2 ^ (x / step + 1) :=
        Nat.div_le_div_left (Nat.pow_le_pow_right (by decide) up) (Nat.two_pow_pos _)
      _ = 8192 / 2 ^ (x / step) := half
      _ ≤ (fadeUnit - fraction + fraction / 2) / 2 ^ (x / step) := Nat.div_le_div_right (by omega)
  · have further : x % step ≤ y % step := by
      have first := Nat.div_add_mod x step
      have second := Nat.div_add_mod y step
      rw [same] at first
      omega
    have more : fraction ≤ next := by
      rw [exactly,next_exactly]
      exact Nat.div_le_div_right (Nat.mul_le_mul_right _ further)
    rw [same]
    exact Nat.div_le_div_right (by omega)

/-- The time from which the shift of the gain starts again. -/
def fadeReturns (s : MusicEmu Core) : Int := s.fadeStart + fadeBlockSize * (32 * s.fadeStep)

/-- The step of the fade is neither zero nor beyond the precision of the gain. -/
def StepFits (s : MusicEmu Core) : Prop := 0 < s.fadeStep ∧ s.fadeStep ≤ fadeUnit

/-- The gain of a block past the start of the fade whose distance from there fits 32 bits. -/
theorem fadeGain_eq {s : MusicEmu Core} {step i : Nat} (steps : s.fadeStep = step)
    (fading : s.fadeStart < s.outTime) (near : s.outTime + i - s.fadeStart < 2147483648) :
    fadeGain s i = intLog (((s.outTime + i - s.fadeStart).toNat / fadeBlockSize : Nat) : Int) step
      fadeUnit := by
  obtain ⟨distance,equal⟩ := Int.eq_ofNat_of_zero_le (by omega : 0 ≤ (s.outTime + i - s.fadeStart : Int))
  unfold fadeGain
  rw [blarggLong_eq (by omega) near,equal,steps]
  rfl

structure Playing (s : MusicEmu Core) : Prop where
  marked : Marked s
  ignoreSilence : s.ignoreSilence = false
  running : s.trackEnded = false → s.emuTrackEnded = false

def PlaysOn : Command Core → Prop
  | .readNextSamples | .muteVoice _ _ => True
  | _ => False

theorem play_fadeStep (emulator : Emulator Core) (s : MusicEmu Core) (n : Nat) :
    (play emulator s n).1.fadeStep = s.fadeStep ∧
      ((play emulator s n).1.trackEnded = false → s.trackEnded = false) := by
  cases going : s.trackEnded with
  | true => simp [play,going]
  | false =>
    rcases played : playRaw emulator s n with ⟨t,raw⟩
    have onward := playRaw_onward emulator s n
    rw [played] at onward
    rw [play_going going played]
    exact ⟨onward.fadeStep,fun _ => rfl⟩

theorem startTrack_sampleRate (emulator : Emulator Core) (s : MusicEmu Core) (track : Int) :
    (startTrack emulator s track).1.sampleRate = s.sampleRate ∧
      ((startTrack emulator s track).2 ≠ none → (startTrack emulator s track).1.trackEnded = true) := by
  have trimmed (t : MusicEmu Core) (held : t.bufRemain = 0) :
      (trimSilence emulator t).sampleRate = t.sampleRate := by
    unfold trimSilence
    split
    · rfl
    · exact (trimLoop_keeps emulator _ _ (by omega)).1.sampleRate
  unfold startTrack
  dsimp only
  split
  next => exact ⟨rfl,fun _ => rfl⟩
  next remapped _ =>
    split
    next => exact ⟨rfl,fun _ => rfl⟩
    next core _ =>
      have same := trimmed { s.clearTrackVars with
        currentTrack := track, core := core, emuTrackEnded := false, trackEnded := false } rfl
      split
      next finished => exact ⟨same,fun _ => finished⟩
      next => exact ⟨same,fun failed => absurd rfl failed⟩

theorem Playing.fade {s : MusicEmu Core} (playing : Playing s) (fadeStart fadeStep : Int) :
    Playing { s with fadeStart := fadeStart, fadeStep := fadeStep } :=
  ⟨⟨playing.marked.length,playing.marked.still⟩,playing.ignoreSilence,playing.running⟩

end Chipbox.Gme
