import Mathlib.Data.Int.Log
import Mathlib.Data.Rat.Floor
import Mathlib.Tactic.Linarith
import Mathlib.Tactic.Positivity

/-! Numbers with a significand of 24 bits, the rounding of a rational number to the nearest of them,
and its distance from the number. The exponent is bounded from below and not from above. -/
namespace Chipbox.Binary32

/-- The nearest integer, the even one of two. -/
def roundEven (x : Rat) : Int :=
  let rest := x - ⌊x⌋
  if rest < 1 / 2 then ⌊x⌋ else if 1 / 2 < rest then ⌊x⌋ + 1
  else if ⌊x⌋ % 2 = 0 then ⌊x⌋ else ⌊x⌋ + 1

/-- The distance of two neighbours where the number is. -/
def spacing (x : Rat) : Rat := 2 ^ (max (Int.log 2 |x|) (-126) - 23)

def nearest (x : Rat) : Rat := roundEven (x / spacing x) * spacing x

theorem floor_le_roundEven (x : Rat) : ⌊x⌋ ≤ roundEven x := by
  unfold roundEven
  dsimp only
  split_ifs <;> omega

/-- Rounding moves by half at most. -/
theorem roundEven_near (x : Rat) : |roundEven x - x| ≤ 1 / 2 := by
  have low := Int.floor_le x
  have high := Int.lt_floor_add_one x
  unfold roundEven
  dsimp only
  rw [abs_le]
  split_ifs
  all_goals push_cast; constructor <;> linarith

theorem le_roundEven {bound : Int} {x : Rat} (below : bound ≤ x) : bound ≤ roundEven x :=
  (Int.le_floor.mpr below).trans (floor_le_roundEven x)

theorem roundEven_zero : roundEven 0 = 0 := by
  unfold roundEven
  norm_num

theorem spacing_pos (x : Rat) : 0 < spacing x := zpow_pos two_pos _

theorem nearest_zero : nearest 0 = 0 := by
  unfold nearest
  rw [zero_div,roundEven_zero,Int.cast_zero,zero_mul]

theorem nearest_nonneg {x : Rat} (positive : 0 ≤ x) : 0 ≤ nearest x := by
  have quotient : ((0 : Int) : Rat) ≤ x / spacing x := by
    rw [Int.cast_zero]
    exact div_nonneg positive (spacing_pos x).le
  have low : (0 : Rat) ≤ roundEven (x / spacing x) := by exact_mod_cast le_roundEven quotient
  exact mul_nonneg low (spacing_pos x).le

/-- The nearest number is half a space away at most. -/
theorem nearest_near (x : Rat) : |nearest x - x| ≤ spacing x / 2 := by
  have positive := spacing_pos x
  have near := roundEven_near (x / spacing x)
  have scaled : nearest x - x = (roundEven (x / spacing x) - x / spacing x) * spacing x := by
    unfold nearest
    rw [sub_mul,div_mul_cancel₀ _ positive.ne']
  rw [scaled,abs_mul,abs_of_pos positive]
  calc |(roundEven (x / spacing x) : Rat) - x / spacing x| * spacing x
      ≤ 1 / 2 * spacing x := mul_le_mul_of_nonneg_right near positive.le
    _ = spacing x / 2 := by ring

theorem spacing_le {x : Rat} (positive : 0 < x) : spacing x ≤ max x (2 ^ (-126 : Int)) / 2 ^ 23 := by
  have split : spacing x = 2 ^ max (Int.log 2 |x|) (-126) / 2 ^ 23 := by
    unfold spacing
    rw [zpow_sub₀ two_ne_zero]
    norm_cast
  rw [split]
  refine div_le_div_of_nonneg_right ?_ (by positivity)
  rcases max_choice (Int.log 2 |x|) (-126) with log | least
  · rw [log,abs_of_pos positive]
    exact le_max_of_le_left (Int.zpow_log_le_self Nat.one_lt_two positive)
  · rw [least]
    exact le_max_right _ _

theorem nearest_le {x : Rat} (positive : 0 ≤ x) : nearest x ≤ 2 * x + 1 := by
  rcases positive.eq_or_lt with rfl | positive
  · rw [nearest_zero]
    norm_num
  · have near := (abs_le.mp (nearest_near x)).2
    have small : max x (2 ^ (-126 : Int)) ≤ x + 1 := by
      refine max_le (by linarith) ?_
      have tiny : (2 : Rat) ^ (-126 : Int) ≤ 1 := zpow_le_one_of_nonpos₀ one_le_two (by decide)
      linarith
    have space : spacing x ≤ (x + 1) / 2 ^ 23 :=
      (spacing_le positive).trans (div_le_div_of_nonneg_right small (by positivity))
    linarith

/-- From below, the nearest number is a small part of the number above it. -/
theorem nearest_le_add {x bound : Rat} (positive : 0 ≤ x) (below : x ≤ bound) (least : 1 ≤ bound) :
    nearest x ≤ x + bound / 2 ^ 24 := by
  rcases positive.eq_or_lt with rfl | positive
  · rw [nearest_zero,zero_add]
    positivity
  · have near := (abs_le.mp (nearest_near x)).2
    have tiny : (2 : Rat) ^ (-126 : Int) ≤ 1 := zpow_le_one_of_nonpos₀ one_le_two (by decide)
    have space : spacing x ≤ bound / 2 ^ 23 := (spacing_le positive).trans
      (div_le_div_of_nonneg_right (max_le below (tiny.trans least)) (by positivity))
    have half : bound / 2 ^ 23 / 2 = bound / 2 ^ 24 := by ring
    linarith

theorem spacing_divides {x : Rat} (positive : 0 ≤ x) (small : x < 2 ^ 24) :
    ∃ parts : Nat, 1 / spacing x = (2 ^ parts : Int) := by
  have log : Int.log 2 |x| ≤ 23 := by
    rw [abs_of_nonneg positive]
    rcases positive.eq_or_lt with rfl | positive
    · rw [Int.log_zero_right]
      decide
    · have bound : x < ((2 : Nat) : Rat) ^ (24 : Int) := by exact_mod_cast small
      have below := (Int.lt_zpow_iff_log_lt Nat.one_lt_two positive).mp bound
      omega
  obtain ⟨parts,same⟩ := Int.eq_ofNat_of_zero_le
    (by omega : 0 ≤ 23 - max (Int.log 2 |x|) (-126))
  refine ⟨parts,?_⟩
  unfold spacing
  rw [one_div,← zpow_neg,neg_sub,same]
  push_cast
  exact zpow_natCast 2 parts

theorem le_nearest {number : Nat} {x : Rat} (below : number ≤ x) (small : x < 2 ^ 24) :
    number ≤ nearest x := by
  have positive := spacing_pos x
  obtain ⟨parts,whole⟩ := spacing_divides ((Nat.cast_nonneg number).trans below) small
  have quotient : ((number * 2 ^ parts : Int) : Rat) ≤ x / spacing x := by
    push_cast at whole ⊢
    rw [← whole,mul_one_div]
    exact div_le_div_of_nonneg_right below positive.le
  have rounded : ((number * 2 ^ parts : Int) : Rat) ≤ roundEven (x / spacing x) := by
    exact_mod_cast le_roundEven quotient
  have scaled := mul_le_mul_of_nonneg_right rounded positive.le
  push_cast at whole scaled
  rw [← whole,mul_assoc,one_div_mul_cancel positive.ne',mul_one] at scaled
  exact scaled

theorem roundEven_int (number : Int) : roundEven number = number := by
  unfold roundEven
  norm_num

theorem nearest_nat {number : Nat} (small : number < 2 ^ 24) : nearest number = number := by
  have positive := spacing_pos (number : Rat)
  obtain ⟨parts,whole⟩ := spacing_divides (Nat.cast_nonneg number) (by exact_mod_cast small)
  have quotient : (number : Rat) / spacing number = ((number * 2 ^ parts : Int) : Rat) := by
    push_cast at whole ⊢
    rw [← whole,mul_one_div]
  have kept : ((number * 2 ^ parts : Int) : Rat) * spacing number = number := by
    rw [← quotient,div_mul_cancel₀ _ positive.ne']
  unfold nearest
  rw [quotient,roundEven_int,kept]

end Chipbox.Binary32
