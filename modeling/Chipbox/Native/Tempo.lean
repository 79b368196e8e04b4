import Mathlib.Algebra.Order.Round
import Mathlib.Data.Rat.Floor
import Mathlib.Tactic.FieldSimp
import Mathlib.Tactic.LinearCombination

/-! The two factors between the samples of a VGM file and those of the device, set when playback
starts and again with every tempo. Both are products of 32 bits. -/
namespace Chipbox.Native.Vgm

/-- The rate that `OpenVGMFile` leaves in `VGMSampleRate`. -/
def vgmSampleRate : Nat := 44100

/-- What a `UINT32` keeps of a number. -/
def uint32 (number : Nat) : Nat := number % 4294967296

structure RateFactors where
  sampleRate : Nat
  vgmPbRate : Nat
  vgmSmplRateMul : Nat
  vgmSmplRateDiv : Nat
  deriving DecidableEq, Repr

/-- The rates that `VGMPlay_Init` sets. -/
def vgmPlayInit (sampleRate : Nat) : RateFactors := ⟨uint32 sampleRate,0,0,0⟩

/-- The factors that `PlayVGM` sets for a file with the recording rate. -/
def playVgm (lngRate : Nat) (g : RateFactors) : RateFactors :=
  let pbRate := if g.vgmPbRate = 0 ∨ lngRate = 0 then (1,1)
    else (lngRate / lngRate.gcd g.vgmPbRate,g.vgmPbRate / lngRate.gcd g.vgmPbRate)
  let mul := uint32 (g.sampleRate * pbRate.1)
  let div := uint32 (vgmSampleRate * pbRate.2)
  {g with vgmSmplRateMul := mul / mul.gcd div, vgmSmplRateDiv := div / mul.gcd div}

def setPlaybackRate (g : RateFactors) (rate : Nat) : RateFactors :=
  {g with
    vgmSmplRateMul := uint32 (100 * g.sampleRate)
    vgmSmplRateDiv := uint32 (rate * g.sampleRate)}

/-- `setTempo` of the backend, the double as an exact quotient. -/
def setBackendTempo (g : RateFactors) (tempoRelative : Rat) : RateFactors :=
  let rateDouble := tempoRelative * 100
  setPlaybackRate g (uint32 (round rateDouble).toNat)

/-- `Player.setTempo` with a percentage. -/
def setTempo (g : RateFactors) (newValue : Nat) : RateFactors := setBackendTempo g (newValue / 100)

/-- The factors after `VGMPlay_Init`, `PlayVGM` and the calls of `setTempo`. -/
def ratesAfter (sampleRate lngRate : Nat) (percents : List Nat) : RateFactors :=
  percents.foldl setTempo (playVgm lngRate (vgmPlayInit sampleRate))

/-- A sample of the file lasts as many samples of the device as the two rates and the tempo ask. -/
def RateFactors.Scaled (g : RateFactors) (sampleRate percent : Nat) : Prop :=
  g.vgmSmplRateDiv ≠ 0 ∧ (g.vgmSmplRateMul : Rat) / g.vgmSmplRateDiv =
    sampleRate * 100 / (vgmSampleRate * percent)

/-- What is lost of the two products beyond 32 bits makes up for the difference between the rate of
the device and 44100: without a loss there is no difference. -/
def LossMakesUp (sampleRate percent : Nat) : Prop :=
  ¬ 4294967296 ∣ percent * sampleRate ∧
    (percent * sampleRate * (sampleRate - 44100) : Int) = 4294967296 *
      (sampleRate * (percent * sampleRate / 4294967296 : Nat) -
        441 * percent * (100 * sampleRate / 4294967296 : Nat))

instance (sampleRate percent : Nat) : Decidable (LossMakesUp sampleRate percent) :=
  inferInstanceAs (Decidable (_ ∧ _))

theorem foldl_setTempo_sampleRate (g : RateFactors) (percents : List Nat) :
    (percents.foldl setTempo g).sampleRate = g.sampleRate := by
  induction percents generalizing g with
  | nil => rfl
  | cons percent rest ih => exact ih (setTempo g percent)

theorem setTempo_eq (g : RateFactors) {percent : Nat} (small : percent < 2147483648) :
    setTempo g percent = setPlaybackRate g percent := by
  have back : (percent / 100 : Rat) * 100 = percent := by field_simp
  have kept : uint32 percent = percent := Nat.mod_eq_of_lt (by omega)
  unfold setTempo setBackendTempo
  dsimp only
  rw [back,round_natCast,Int.toNat_natCast,kept]

/-- Cross-multiplied, the proportion is one between the products and what they lose. -/
theorem cross_iff (sampleRate percent : Nat) :
    (uint32 (100 * sampleRate) : Int) * (44100 * percent) =
        sampleRate * 100 * uint32 (percent * sampleRate) ↔
      (percent * sampleRate * (sampleRate - 44100) : Int) = 4294967296 *
        (sampleRate * (percent * sampleRate / 4294967296 : Nat) -
          441 * percent * (100 * sampleRate / 4294967296 : Nat)) := by
  have mul : (4294967296 * (100 * sampleRate / 4294967296 : Nat) + uint32 (100 * sampleRate) : Int) =
    100 * sampleRate := by exact_mod_cast Nat.div_add_mod (100 * sampleRate) 4294967296
  have div : (4294967296 * (percent * sampleRate / 4294967296 : Nat) +
      uint32 (percent * sampleRate) : Int) = percent * sampleRate := by
    exact_mod_cast Nat.div_add_mod (percent * sampleRate) 4294967296
  generalize (uint32 (100 * sampleRate) : Int) = keptMul at mul ⊢
  generalize (uint32 (percent * sampleRate) : Int) = keptDiv at div ⊢
  generalize ((100 * sampleRate / 4294967296 : Nat) : Int) = lostMul at mul ⊢
  generalize ((percent * sampleRate / 4294967296 : Nat) : Int) = lostDiv at div ⊢
  constructor
  · intro cross
    apply mul_left_cancel₀ (show (100 : Int) ≠ 0 by decide)
    linear_combination (44100 * percent : Int) * mul - (100 * sampleRate : Int) * div - cross
  · intro makesUp
    linear_combination (44100 * percent : Int) * mul - (100 * sampleRate : Int) * div - 100 * makesUp

theorem proportion_iff {sampleRate percent : Nat} (positive : 0 < percent) :
    (uint32 (percent * sampleRate) ≠ 0 ∧ (uint32 (100 * sampleRate) : Rat) / uint32 (percent * sampleRate) =
      sampleRate * 100 / (vgmSampleRate * percent)) ↔ LossMakesUp sampleRate percent := by
  unfold LossMakesUp
  rw [← cross_iff,Nat.dvd_iff_mod_eq_zero]
  refine and_congr_right fun nonzero => ?_
  have divisor : (uint32 (percent * sampleRate) : Rat) ≠ 0 := Nat.cast_ne_zero.mpr nonzero
  have scale : (vgmSampleRate * percent : Rat) ≠ 0 :=
    mul_ne_zero (by unfold vgmSampleRate; norm_num) (Nat.cast_ne_zero.mpr (Nat.pos_iff_ne_zero.mp positive))
  rw [div_eq_div_iff divisor scale]
  unfold vgmSampleRate
  exact_mod_cast Iff.rfl

theorem lossMakesUp_iff {sampleRate percent : Nat} (runs : 0 < sampleRate) (positive : 0 < percent)
    (mul : 100 * sampleRate < 4294967296) (div : percent * sampleRate < 4294967296) :
    LossMakesUp sampleRate percent ↔ sampleRate = 44100 := by
  have product : 0 < percent * sampleRate := Nat.mul_pos positive runs
  have kept : ¬ 4294967296 ∣ percent * sampleRate := fun divides =>
    absurd (Nat.le_of_dvd product divides) (Nat.not_le_of_lt div)
  unfold LossMakesUp
  rw [Nat.div_eq_of_lt mul,Nat.div_eq_of_lt div]
  have factor : (percent * sampleRate : Int) ≠ 0 := by exact_mod_cast Nat.pos_iff_ne_zero.mp product
  constructor
  · rintro ⟨_,same⟩
    rcases mul_eq_zero.mp (same.trans (by simp)) with nothing | difference
    · exact absurd nothing factor
    · omega
  · rintro rfl
    exact ⟨kept,by simp⟩

/-- After any calls that end with a percentage the factors are in proportion exactly where the loss
makes up for the device's rate; as long as the products fit 32 bits, exactly at 44100 Hz. -/
theorem tempo_scaled_iff {sampleRate : Nat} (runs : 0 < sampleRate) (int : sampleRate < 2147483648)
    (lngRate : Nat) (percents : List Nat) {percent : Nat} (positive : 0 < percent)
    (small : percent < 2147483648) :
    ((ratesAfter sampleRate lngRate (percents ++ [percent])).Scaled sampleRate percent ↔
      LossMakesUp sampleRate percent) ∧
      (100 * sampleRate < 4294967296 → percent * sampleRate < 4294967296 →
        ((ratesAfter sampleRate lngRate (percents ++ [percent])).Scaled sampleRate percent ↔
          sampleRate = 44100)) := by
  have rate : (ratesAfter sampleRate lngRate percents).sampleRate = sampleRate := by
    unfold ratesAfter
    rw [foldl_setTempo_sampleRate]
    exact Nat.mod_eq_of_lt (by omega)
  have last : (ratesAfter sampleRate lngRate (percents ++ [percent])).Scaled sampleRate percent ↔
      LossMakesUp sampleRate percent := by
    unfold ratesAfter at rate ⊢
    rw [List.foldl_append,List.foldl_cons,List.foldl_nil,setTempo_eq _ small]
    unfold RateFactors.Scaled setPlaybackRate
    dsimp only
    rw [rate]
    exact proportion_iff positive
  exact ⟨last,fun mul div => last.trans (lossMakesUp_iff runs positive mul div)⟩

theorem tempo_scaled_iff_half : (ratesAfter 44100 60 [150,50]).Scaled 44100 50 :=
  (tempo_scaled_iff (by decide) (by decide) 60 [150] (by decide) (by decide)).1.mpr (by decide)

/-- At 48000 Hz a tempo of 100 percent sets the factors to the same number. -/
theorem tempo_not_restored : ¬ (ratesAfter 48000 60 [100]).Scaled 48000 100 := by
  unfold ratesAfter
  rw [List.foldl_cons,List.foldl_nil,setTempo_eq _ (by decide)]
  intro scaled
  have makesUp : LossMakesUp 48000 100 := (proportion_iff (by decide)).mp scaled
  exact absurd makesUp (by decide)

end Chipbox.Native.Vgm
