import Mathlib.Tactic.NormNum.Basic

/-! Unsigned 64-bit arithmetic on natural numbers, with its reductions written out. -/
namespace Chipbox.Word

def wrap (value : Nat) : Nat := value % 2^64

def add (left right : Nat) : Nat := wrap (left + right)

/-- Subtraction of words; the borrow wraps around. -/
def sub (left right : Nat) : Nat := wrap (left + 2^64 - right)

def mul (left right : Nat) : Nat := wrap (left * right)

/-- The conversion of a signed integer to an unsigned word. -/
def ofInt (value : Int) : Nat := (value % 2^64).toNat

theorem wrap_lt (value : Nat) : wrap value < 2^64 := Nat.mod_lt _ (by decide)

theorem sub_lt (left right : Nat) : sub left right < 2^64 := wrap_lt _

theorem mul_lt (left right : Nat) : mul left right < 2^64 := wrap_lt _

@[simp] theorem wrap_of_lt {value : Nat} (small : value < 2^64) : wrap value = value :=
  Nat.mod_eq_of_lt small

theorem add_of_lt {left right : Nat} (small : left + right < 2^64) : add left right = left + right :=
  wrap_of_lt small

theorem sub_of_le {left right : Nat} (ordered : right ≤ left) (small : left < 2^64) :
    sub left right = left - right := by
  unfold sub wrap
  omega

theorem mul_of_lt {left right : Nat} (small : left * right < 2^64) :
    mul left right = left * right :=
  wrap_of_lt small

end Chipbox.Word
