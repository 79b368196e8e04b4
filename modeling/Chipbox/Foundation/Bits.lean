import Mathlib.Algebra.Group.Nat.Defs
import Mathlib.Data.List.Induction
import Mathlib.Tactic.Ring

/-! Strings of bits with the most significant first, and the bytes that hold them. -/
namespace Chipbox.Bits

def bits : Nat → Nat → List Bool
  | 0,_ => []
  | width + 1,value => value.testBit width::bits width value

def number (string : List Bool) : Nat := string.foldl (fun total bit => 2 * total + bit.toNat) 0

@[simp] theorem bits_length (width value : Nat) : (bits width value).length = width := by
  induction width with
  | zero => rfl
  | succ width ih => simp [bits,ih]

@[simp] theorem number_nil : number [] = 0 := rfl

theorem number_foldl (string : List Bool) (total : Nat) :
    string.foldl (fun total bit => 2 * total + bit.toNat) total = total * 2 ^ string.length + number string := by
  induction string generalizing total with
  | nil => simp [number]
  | cons bit string ih =>
    simp only [number,List.foldl_cons,List.length_cons] at ih ⊢
    rw [ih,ih (2 * 0 + bit.toNat)]
    ring

theorem number_append (front back : List Bool) :
    number (front ++ back) = number front * 2 ^ back.length + number back := by
  rw [number,List.foldl_append,number_foldl]
  rfl

theorem number_lt (string : List Bool) : number string < 2 ^ string.length := by
  induction string using List.reverseRecOn with
  | nil => simp
  | append_singleton string bit ih =>
    have small : number [bit] < 2 := by cases bit <;> decide
    rw [number_append,List.length_append]
    simp only [List.length_singleton,pow_succ]
    omega

/-- The bits of a number are those above a place, then those below it. -/
theorem bits_add (high low value : Nat) :
    bits (high + low) value = bits high (value / 2 ^ low) ++ bits low value := by
  induction high with
  | zero => simp [bits]
  | succ high ih =>
    rw [Nat.add_right_comm,bits,ih,bits,List.cons_append,Nat.testBit_div_two_pow]

theorem number_bits (width value : Nat) : number (bits width value) = value % 2 ^ width := by
  induction width with
  | zero => simp [bits,Nat.mod_one]
  | succ width ih =>
    rw [bits,← List.singleton_append,number_append,bits_length,ih,Nat.mod_pow_succ,Nat.add_comm]
    congr 1
    rw [Nat.mul_comm,← Nat.toNat_testBit]
    cases value.testBit width <;> rfl

theorem bits_mod (width value : Nat) : bits width (value % 2 ^ width) = bits width value := by
  have low (place : Nat) (inside : place ≤ width) : bits place (value % 2 ^ width) = bits place value := by
    induction place with
    | zero => rfl
    | succ place ih =>
      rw [bits,bits,ih (by omega),Nat.testBit_mod_two_pow]
      simp [Nat.lt_of_succ_le inside]
  exact low width le_rfl

theorem bits_number (string : List Bool) : bits string.length (number string) = string := by
  induction string with
  | nil => rfl
  | cons bit string ih =>
    have split : number (bit::string) = number [bit] * 2 ^ string.length + number string :=
      number_append [bit] string
    have below : bits string.length (number (bit::string)) = string := by
      rw [← bits_mod,split,Nat.mul_comm,Nat.mul_add_mod,Nat.mod_eq_of_lt (number_lt string),ih]
    rw [List.length_cons,bits,below,split,Nat.mul_comm,Nat.testBit_two_pow_mul_add _ (number_lt string)]
    cases bit <;> simp [number]

def ofBytes (bytes : List UInt8) : List Bool := bytes.flatMap fun byte => bits 8 byte.toNat

/-- Bits in bytes; the last byte is filled up with zeros. -/
def toBytes : List Bool → List UInt8
  | a::b::c::d::e::f::g::h::rest => UInt8.ofNat (number [a,b,c,d,e,f,g,h])::toBytes rest
  | [] => []
  | short => [UInt8.ofNat (number (short ++ List.replicate (8 - short.length) false))]

theorem ofBytes_cons (byte : UInt8) (bytes : List UInt8) :
    ofBytes (byte::bytes) = bits 8 byte.toNat ++ ofBytes bytes := rfl

theorem ofBytes_append (front back : List UInt8) : ofBytes (front ++ back) = ofBytes front ++ ofBytes back :=
  List.flatMap_append

@[simp] theorem ofBytes_length (bytes : List UInt8) : (ofBytes bytes).length = 8 * bytes.length := by
  induction bytes with
  | nil => rfl
  | cons byte bytes ih =>
    rw [ofBytes_cons,List.length_append,bits_length,ih,List.length_cons]
    omega

theorem bits_byte {string : List Bool} (eight : string.length = 8) :
    bits 8 (UInt8.ofNat (number string)).toNat = string := by
  have small := number_lt string
  rw [eight] at small
  rw [UInt8.toNat_ofNat_of_lt' small,← eight,bits_number]

theorem ofBytes_toBytes (string : List Bool) :
    ∃ fill, ofBytes (toBytes string) = string ++ fill ∧ fill.length < 8 := by
  fun_induction toBytes string with
  | case1 a b c d e f g h rest ih =>
    obtain ⟨fill,held,short⟩ := ih
    refine ⟨fill,?_,short⟩
    rw [ofBytes_cons,bits_byte rfl,held]
    rfl
  | case2 => exact ⟨[],rfl,by decide⟩
  | case3 short some less =>
    have bound : short.length < 8 := by
      by_contra long
      match short,long with
      | a::b::c::d::e::f::g::h::rest,_ => exact some a b c d e f g h rest rfl
      | [],long | [_],long | [_,_],long | [_,_,_],long | [_,_,_,_],long | [_,_,_,_,_],long
      | [_,_,_,_,_,_],long | [_,_,_,_,_,_,_],long => simp at long
    have some : short.length ≠ 0 := fun none => less (List.length_eq_zero_iff.mp none)
    refine ⟨List.replicate (8 - short.length) false,?_,by rw [List.length_replicate]; omega⟩
    rw [ofBytes_cons,bits_byte (by rw [List.length_append,List.length_replicate]; omega)]
    exact List.append_nil _

theorem toBytes_length (string : List Bool) : (toBytes string).length = (string.length + 7) / 8 := by
  obtain ⟨fill,held,short⟩ := ofBytes_toBytes string
  have count := congrArg List.length held
  rw [ofBytes_length,List.length_append] at count
  omega

end Chipbox.Bits
