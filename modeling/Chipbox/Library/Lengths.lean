import Chipbox.Foundation.Binary32
import Chipbox.Library.TagBlocks
import Mathlib.Tactic.FieldSimp

/-! The length of a track that the PSF and USF scanners read from its tag. -/
namespace Chipbox.Library
open Binary32

def digitsValue (digits : List Nat) : Nat := digits.foldl (fun value digit => 10 * value + digit) 0

/-- `Character.digit` in base 10 of a char, given those beyond ASCII. -/
def digitOf (foreign : Char → Option Nat) (char : Char) : Option Nat :=
  if char.isDigit then some (char.toNat - 48)
  else if char.toNat < 128 ∨ 65535 < char.toNat then none else foreign char

def signOf : List Char → Bool × List Char
  | '-'::rest => (true,rest)
  | '+'::rest => (false,rest)
  | text => (false,text)

/-- `Integer.parseInt`, `none` for its `NumberFormatException`. -/
def toInt (foreign : Char → Option Nat) (text : List Char) : Option Int :=
  let signed := signOf text
  if signed.2 = [] then none
  else match signed.2.mapM (digitOf foreign) with
    | none => none
    | some digits =>
      let value : Int := if signed.1 then -digitsValue digits else digitsValue digits
      if -2147483648 ≤ value ∧ value < 2147483648 then some value else none

/-- A `Float`, without a sign on zero. -/
inductive FloatValue
  | nan
  | infinite (negative : Bool)
  | finite (value : Rat)
  deriving DecidableEq

namespace FloatValue

def ofRat (value : Rat) : FloatValue :=
  if |nearest value| < 2 ^ 128 then .finite (nearest value) else .infinite (value < 0)

def add : FloatValue → FloatValue → FloatValue
  | .finite left,.finite right => ofRat (left + right)
  | .infinite left,.infinite right => if left = right then .infinite left else .nan
  | .infinite negative,.finite _ => .infinite negative
  | .finite _,.infinite negative => .infinite negative
  | _,_ => .nan

/-- `Float.toInt`. -/
def toInt : FloatValue → Int
  | .nan => 0
  | .infinite negative => if negative then -2147483648 else 2147483647
  | .finite value => max (-2147483648) (min 2147483647 (if value < 0 then ⌈value⌉ else ⌊value⌋))

end FloatValue

/-- An exponent behind one of the marks, which may be left out in a decimal number. -/
def exponentOf (marks : List Char) (optional : Bool) : List Char → Option Int
  | [] => if optional then some 0 else none
  | mark::rest =>
    let signed := signOf rest
    if mark ∈ marks ∧ signed.2 ≠ [] ∧ signed.2.all Char.isDigit then
      let value := digitsValue (signed.2.map fun char => char.toNat - 48)
      some (if signed.1 then -value else value)
    else none

def isHexDigit (char : Char) : Bool :=
  char.isDigit || 'a' ≤ char && char ≤ 'f' || 'A' ≤ char && char ≤ 'F'

def hexValue (char : Char) : Nat :=
  if char.isDigit then char.toNat - 48 else (char.toNat - 55) % 32

def fractionOf (isDigit : Char → Bool) : List Char → List Char × List Char
  | '.'::rest => (rest.takeWhile isDigit,rest.dropWhile isDigit)
  | text => ([],text)

def numberOf (isDigit : Char → Bool) (value : Char → Nat) (base scale : Nat) (marks : List Char)
    (optional : Bool) (text : List Char) : Option Rat :=
  let whole := text.takeWhile isDigit
  let fraction := fractionOf isDigit (text.dropWhile isDigit)
  if whole = [] ∧ fraction.1 = [] then none
  else (exponentOf marks optional fraction.2).map fun exponent =>
    ((whole ++ fraction.1).foldl (fun sum char => base * sum + value char) 0 : Nat) /
      (base : Rat) ^ fraction.1.length * (scale : Rat) ^ exponent

def decimalNumber : List Char → Option Rat :=
  numberOf Char.isDigit (fun char => char.toNat - 48) 10 10 ['e','E'] true

/-- A hexadecimal number behind its `0x`, always with an exponent. -/
def hexNumber : List Char → Option Rat := numberOf isHexDigit hexValue 16 2 ['p','P'] false

/-- `String.toFloatOrNull`. -/
def toFloatOrNull (text : List Char) : Option FloatValue :=
  let signed := signOf (trimTags text)
  if signed.2 = ['N','a','N'] then some .nan
  else if signed.2 = ['I','n','f','i','n','i','t','y'] then some (.infinite signed.1)
  else
    let number := if signed.2.getLast?.any (· ∈ ['f','F','d','D']) then signed.2.dropLast else signed.2
    let value := match number with
      | '0' :: 'x' :: rest | '0' :: 'X' :: rest => hexNumber rest
      | _ => decimalNumber number
    value.map fun value => .ofRat (if signed.1 then -value else value)

def lengthOf (foreign : Char → Option Nat) (minutesText secondsText : List Char) : Option Int :=
  (toInt foreign minutesText).map fun minutesInt =>
    let minutes := int32 (minutesInt * 60)
    let secondsInt := match toInt foreign secondsText with
      | some seconds => int32 (seconds + minutes)
      | none => (((toFloatOrNull secondsText).getD (.finite 0)).add (.ofRat minutes)).toInt
    secondsInt * 1000

/-- `getFileTrackLength`, `none` for a `NumberFormatException` that leaves it. -/
def getFileTrackLength (foreign : Char → Option Nat) (tagMap : TagMap) : Option Int :=
  match tagMap "length" with
  | none => some 0
  | some lengthText =>
    match lengthText.toList.splitOn ':' with
    | [secondsText] => lengthOf foreign ['0'] secondsText
    | [minutesText,secondsText] => lengthOf foreign minutesText secondsText
    | _ => some 0

structure Digits where
  digits : List (Fin 10)
  present : digits ≠ []

namespace Digits

def text (number : Digits) : List Char := number.digits.map fun digit => Char.ofNat (48 + digit.val)

def value (number : Digits) : Nat := digitsValue (number.digits.map Fin.val)

end Digits

inductive Clock
  | seconds
  | minutes (minute : Digits)
  | hours (hour minute : Digits)

namespace Clock

def text : Clock → List Char
  | .seconds => []
  | .minutes minute => minute.text ++ [':']
  | .hours hour minute => hour.text ++ ':' :: (minute.text ++ [':'])

def whole : Clock → Nat
  | .seconds => 0
  | .minutes minute => 60 * minute.value
  | .hours hour minute => 3600 * hour.value + 60 * minute.value

end Clock

inductive DecimalMark
  | point | comma

def DecimalMark.char : DecimalMark → Char
  | .point => '.'
  | .comma => ','

structure LengthTag where
  clock : Clock
  seconds : Digits
  decimal : Option (DecimalMark × Digits)

namespace LengthTag

def decimalText : Option (DecimalMark × Digits) → List Char
  | none => []
  | some (mark,digits) => mark.char::digits.text

def text (tag : LengthTag) : List Char :=
  tag.clock.text ++ (tag.seconds.text ++ decimalText tag.decimal)

def whole (tag : LengthTag) : Nat := tag.clock.whole + tag.seconds.value

end LengthTag

def Digits.fraction (number : Digits) : Rat := number.value / 10 ^ number.digits.length

/-- The sum is in its whole second, or beyond the last one there is. -/
def Lands (sum : Rat) (whole : Nat) : Prop := (whole : Rat) ≤ sum ∧ (sum < whole + 1 ∨ whole = 2147483647)

/-- Hours only where all is zero. Behind a point, a fraction that the rounding of the seconds and that of
the sum leave in its second; behind a comma, minutes that round to the whole. -/
def LengthTag.Exact (tag : LengthTag) : Prop :=
  match tag.clock,tag.decimal with
  | .hours .. ,_ => tag.whole = 0
  | _,none => True
  | clock,some (.point,digits) =>
    Lands (nearest (nearest (tag.seconds.value + digits.fraction) + nearest clock.whole)) tag.whole
  | clock,some (.comma,_) => Lands (nearest (nearest clock.whole)) tag.whole

/-- Hours only where all is zero. Behind a point, a fraction that leaves room for roundings below the
next second; behind a comma, no seconds and not too many minutes. -/
def LengthTag.Ample (tag : LengthTag) : Prop :=
  match tag.clock,tag.decimal with
  | .hours .. ,_ => tag.whole = 0
  | _,none => True
  | _,some (.point,digits) => (tag.whole + 1 : Rat) < 2 ^ 22 * (1 - digits.fraction)
  | clock,some (.comma,_) => tag.seconds.value = 0 ∧ clock.whole < 2 ^ 24

/-- The part before the only colon is an `Int`. -/
def Readable (foreign : Char → Option Nat) (text : String) : Prop :=
  ∀ minutesText secondsText, text.toList.splitOn ':' = [minutesText,secondsText] →
    (toInt foreign minutesText).isSome

section Parsing
variable {foreign : Char → Option Nat}

theorem digit_char (digit : Fin 10) : (Char.ofNat (48 + digit.val)).isDigit = true ∧
    (Char.ofNat (48 + digit.val)).toNat - 48 = digit.val ∧ ' ' < Char.ofNat (48 + digit.val) := by
  revert digit
  decide

theorem Digits.text_digits (number : Digits) : ∀ char ∈ number.text, char.isDigit = true := by
  intro char listed
  obtain ⟨digit,_,rfl⟩ := List.mem_map.mp listed
  exact (digit_char digit).1

theorem Digits.text_cons (number : Digits) : ∃ first rest, number.text = first::rest ∧
    first.isDigit = true := by
  obtain ⟨digits,present⟩ := number
  cases digits with
  | nil => exact absurd rfl present
  | cons first rest => exact ⟨_,_,rfl,(digit_char first).1⟩

theorem Digits.mapM_digitOf (number : Digits) :
    number.text.mapM (digitOf foreign) = some (number.digits.map Fin.val) := by
  unfold Digits.text
  induction number.digits with
  | nil => rfl
  | cons digit rest ih =>
    have read : digitOf foreign (Char.ofNat (48 + digit.val)) = some digit.val := by
      unfold digitOf
      rw [if_pos (digit_char digit).1,(digit_char digit).2.1]
    rw [List.map_cons,List.mapM_cons,read,ih]
    rfl

theorem signOf_digit {first : Char} (digit : first.isDigit = true) (rest : List Char) :
    signOf (first::rest) = (false,first::rest) := by
  unfold signOf
  split
  next same => exact absurd digit ((List.cons.inj same).1 ▸ by decide)
  next same => exact absurd digit ((List.cons.inj same).1 ▸ by decide)
  next => rfl

theorem toInt_unsigned {first : Char} (digit : first.isDigit = true) (rest : List Char) :
    toInt foreign (first::rest) = match (first::rest).mapM (digitOf foreign) with
      | none => none
      | some digits =>
        if (digitsValue digits : Int) < 2147483648 then some (digitsValue digits : Int) else none := by
  unfold toInt
  rw [signOf_digit digit]
  dsimp only
  rw [if_neg (List.cons_ne_nil _ _)]
  cases (first::rest).mapM (digitOf foreign) with
  | none => rfl
  | some digits =>
    dsimp only
    rw [if_neg Bool.false_ne_true]
    exact if_congr (and_iff_right (by omega)) rfl rfl

theorem Digits.toInt_text (number : Digits) : toInt foreign number.text =
    if (number.value : Int) < 2147483648 then some (number.value : Int) else none := by
  obtain ⟨first,rest,shape,digit⟩ := number.text_cons
  have read : number.text.mapM (digitOf foreign) = some (number.digits.map Fin.val) := number.mapM_digitOf
  rw [shape] at read ⊢
  rw [toInt_unsigned digit,read]
  rfl

theorem mark_not_digit (mark : DecimalMark) : ¬ mark.char.isDigit = true := by
  cases mark <;> decide

theorem digitOf_mark (mark : DecimalMark) : digitOf foreign mark.char = none := by
  cases mark <;> rfl

/-- A decimal portion is no part of an `Int`. -/
theorem Digits.toInt_decimal (number : Digits) (mark : DecimalMark) (rest : List Char) :
    toInt foreign (number.text ++ mark.char::rest) = none := by
  have stuck : (number.text ++ mark.char::rest).mapM (digitOf foreign) = none := by
    rw [List.mapM_append,number.mapM_digitOf,List.mapM_cons,digitOf_mark]
    rfl
  obtain ⟨first,others,shape,digit⟩ := number.text_cons
  rw [shape,List.cons_append] at stuck ⊢
  rw [toInt_unsigned digit,stuck]

theorem trimTags_solid {text : List Char} (first : ∀ char ∈ text.head?, ' ' < char)
    (last : ∀ char ∈ text.getLast?, ' ' < char) : trimTags text = text := by
  have start : text.dropWhile (· ≤ ' ') = text := by
    cases text with
    | nil => rfl
    | cons char rest => exact List.dropWhile_cons_of_neg (not_blank (first char rfl))
  have finish : text.rdropWhile (· ≤ ' ') = text := by
    rcases List.eq_nil_or_concat text with rfl | ⟨init,char,shape⟩
    · rfl
    · rw [shape,List.concat_eq_append] at last ⊢
      exact rdropWhile_solid (last char List.getLast?_concat)
  unfold trimTags
  rw [start]
  exact finish

theorem digitsValue_append (first second : List Nat) :
    digitsValue (first ++ second) = digitsValue first * 10 ^ second.length + digitsValue second := by
  have from_any (start : Nat) (digits : List Nat) :
      digits.foldl (fun value digit => 10 * value + digit) start =
        start * 10 ^ digits.length + digitsValue digits := by
    unfold digitsValue
    induction digits generalizing start with
    | nil => simp
    | cons digit rest ih =>
      rw [List.foldl_cons,List.foldl_cons,ih,ih (10 * 0 + digit),List.length_cons]
      ring
  rw [digitsValue,List.foldl_append,from_any]
  rfl

theorem Digits.foldl_text (number other : Digits) :
    (number.text ++ other.text).foldl (fun sum char => 10 * sum + (char.toNat - 48)) 0 =
      number.value * 10 ^ other.digits.length + other.value := by
  have read (digits : List (Fin 10)) (start : Nat) :
      (digits.map fun digit => Char.ofNat (48 + digit.val)).foldl
          (fun sum char => 10 * sum + (char.toNat - 48)) start =
        (digits.map Fin.val).foldl (fun value digit => 10 * value + digit) start := by
    induction digits generalizing start with
    | nil => rfl
    | cons digit rest ih => rw [List.map_cons,List.foldl_cons,(digit_char digit).2.1,ih]; rfl
  have both := read (number.digits ++ other.digits) 0
  rw [List.map_append,List.map_append] at both
  refine both.trans ((digitsValue_append _ _).trans ?_)
  rw [List.length_map]
  rfl

theorem Digits.takeWhile_text (number : Digits) (mark : DecimalMark) (rest : List Char) :
    (number.text ++ mark.char::rest).takeWhile Char.isDigit = number.text ∧
      (number.text ++ mark.char::rest).dropWhile Char.isDigit = mark.char::rest := by
  have stop := mark_not_digit mark
  rw [List.takeWhile_append_of_pos number.text_digits,List.takeWhile_cons_of_neg stop,List.append_nil,
    List.dropWhile_append_of_pos number.text_digits,List.dropWhile_cons_of_neg stop]
  exact ⟨rfl,rfl⟩

theorem Digits.text_ne_nil (number : Digits) : number.text ≠ [] := by
  obtain ⟨first,others,shape,_⟩ := number.text_cons
  rw [shape]
  exact List.cons_ne_nil _ _

/-- Digits, a point and digits are the number they write; a comma is no part of a number. -/
theorem Digits.decimalNumber_text (number other : Digits) (mark : DecimalMark) :
    decimalNumber (number.text ++ mark.char::other.text) = match mark with
      | .point => some (number.value + other.fraction)
      | .comma => none := by
  obtain ⟨whole,rest⟩ := number.takeWhile_text mark other.text
  unfold decimalNumber numberOf
  dsimp only
  rw [whole,rest,if_neg fun none => number.text_ne_nil none.1]
  cases mark with
  | point =>
    have fraction : fractionOf Char.isDigit (DecimalMark.point.char::other.text) = (other.text,[]) := by
      have digits := List.takeWhile_eq_self_iff.mpr other.text_digits
      have nothing := List.dropWhile_eq_nil_iff.mpr other.text_digits
      exact congrArg₂ Prod.mk digits nothing
    have length : other.text.length = other.digits.length := List.length_map _
    rw [fraction]
    dsimp only
    rw [Digits.foldl_text,length]
    unfold exponentOf Digits.fraction
    rw [if_pos rfl,Option.map_some]
    congr 1
    push_cast
    field_simp
  | comma =>
    have fraction : fractionOf Char.isDigit (DecimalMark.comma.char::other.text) =
        ([],',' :: other.text) := rfl
    rw [fraction]
    dsimp only
    unfold exponentOf
    dsimp only
    rw [if_neg fun marked => absurd marked.1 (by decide)]
    rfl

theorem digit_solid {char : Char} (digit : char.isDigit = true) : ' ' < char :=
  (letter_char (by rw [digit,Bool.or_true])).1

theorem Digits.decimal_chars (number other : Digits) (mark : DecimalMark) :
    ∀ char ∈ number.text ++ mark.char::other.text, char.isDigit = true ∨ char = mark.char := by
  intro char listed
  rcases List.mem_append.mp listed with here | later
  · exact .inl (number.text_digits char here)
  · rcases List.mem_cons.mp later with rfl | inner
    · exact .inr rfl
    · exact .inl (other.text_digits char inner)

/-- Text from a digit to a digit without an `x` is read as a decimal number. -/
theorem toFloatOrNull_plain {first : Char} {rest : List Char} (digit : first.isDigit = true)
    (last : ∀ char ∈ (first::rest).getLast?, char.isDigit = true) (decimal : 'x' ∉ rest ∧ 'X' ∉ rest) :
    toFloatOrNull (first::rest) = (decimalNumber (first::rest)).map FloatValue.ofRat := by
  have trimmed : trimTags (first::rest) = first::rest :=
    trimTags_solid (fun char listed => by cases listed; exact digit_solid digit)
      fun char listed => digit_solid (last char listed)
  have nan : first::rest ≠ ['N','a','N'] := fun same =>
    absurd digit ((List.cons.inj same).1 ▸ by decide)
  have infinity : first::rest ≠ ['I','n','f','i','n','i','t','y'] := fun same =>
    absurd digit ((List.cons.inj same).1 ▸ by decide)
  have bare : ¬ (first::rest).getLast?.any (· ∈ ['f','F','d','D']) = true := by
    have letters : ∀ char ∈ ['f','F','d','D'], ¬ char.isDigit = true := by simp
    cases ending : (first::rest).getLast? with
    | none => exact Bool.false_ne_true
    | some char => exact fun suffix => letters char (of_decide_eq_true suffix) (last char ending)
  have branch : (match first::rest with
      | '0' :: 'x' :: rest | '0' :: 'X' :: rest => hexNumber rest
      | _ => decimalNumber (first::rest)) = decimalNumber (first::rest) := by
    split
    next same => exact absurd ((List.cons.inj same).2 ▸ List.mem_cons_self) decimal.1
    next same => exact absurd ((List.cons.inj same).2 ▸ List.mem_cons_self) decimal.2
    next => rfl
  unfold toFloatOrNull
  rw [trimmed,signOf_digit digit]
  dsimp only
  rw [if_neg nan,if_neg infinity,if_neg bare]
  exact congrArg (Option.map FloatValue.ofRat) branch

/-- A decimal number is read with one rounding behind a point, and not at all behind a comma. -/
theorem Digits.toFloat_text (number other : Digits) (mark : DecimalMark) :
    toFloatOrNull (number.text ++ mark.char::other.text) = match mark with
      | .point => some (.ofRat (number.value + other.fraction))
      | .comma => none := by
  have chars := number.decimal_chars other mark
  have numeral := number.decimalNumber_text other mark
  have last : ∀ char ∈ (number.text ++ mark.char::other.text).getLast?, char.isDigit = true := by
    intro char ending
    refine other.text_digits char (List.mem_of_getLast? ?_)
    obtain ⟨init,next,shape⟩ := (List.eq_nil_or_concat other.text).resolve_left other.text_ne_nil
    have whole : number.text ++ mark.char::other.text = (number.text ++ mark.char::init) ++ [next] := by
      rw [shape]
      simp
    rw [whole,List.getLast?_concat] at ending
    rw [shape,List.concat_eq_append,List.getLast?_concat]
    exact ending
  obtain ⟨first,others,shape,digit⟩ := number.text_cons
  rw [shape,List.cons_append] at chars numeral last ⊢
  have plain (letter : Char) (other_letter : letter.isDigit = false) (foreign_mark : letter ≠ mark.char) :
      letter ∉ others ++ mark.char::other.text := by
    intro listed
    rcases chars letter (.tail _ listed) with isDigit | same
    · rw [other_letter] at isDigit
      cases isDigit
    · exact foreign_mark same
  rw [toFloatOrNull_plain digit last ⟨plain 'x' rfl (by cases mark <;> decide),
    plain 'X' rfl (by cases mark <;> decide)⟩,numeral]
  cases mark <;> rfl

theorem Digits.colon_free (number : Digits) : ':' ∉ number.text := fun listed =>
  absurd (number.text_digits ':' listed) (by decide)

theorem LengthTag.seconds_free (tag : LengthTag) : ':' ∉ tag.seconds.text ++ decimalText tag.decimal := by
  intro listed
  rcases List.mem_append.mp listed with seconds | decimal
  · exact tag.seconds.colon_free seconds
  · obtain ⟨clock,seconds,decimal_part⟩ := tag
    rcases decimal_part with _ | ⟨mark,digits⟩
    · cases decimal
    · rcases List.mem_cons.mp decimal with same | later
      · cases mark <;> exact absurd same (by decide)
      · exact digits.colon_free later

theorem LengthTag.splitOn_text (tag : LengthTag) : tag.text.splitOn ':' =
    match tag.clock with
    | .seconds => [tag.seconds.text ++ decimalText tag.decimal]
    | .minutes minute => [minute.text,tag.seconds.text ++ decimalText tag.decimal]
    | .hours hour minute => [hour.text,minute.text,tag.seconds.text ++ decimalText tag.decimal] := by
  have last := List.splitOn_eq_singleton tag.seconds_free
  unfold LengthTag.text
  cases tag.clock with
  | seconds => exact last
  | minutes minute =>
    unfold Clock.text
    dsimp only
    rw [List.append_assoc,List.singleton_append,
      List.splitOn_append_cons_self_of_not_mem minute.colon_free,last]
  | hours hour minute =>
    unfold Clock.text
    dsimp only
    rw [List.append_assoc,List.cons_append,List.splitOn_append_cons_self_of_not_mem hour.colon_free,
      List.append_assoc,List.singleton_append,
      List.splitOn_append_cons_self_of_not_mem minute.colon_free,last]

theorem ofRat_finite {x : Rat} (positive : 0 ≤ x) (small : x < 2 ^ 100) :
    FloatValue.ofRat x = .finite (nearest x) := by
  unfold FloatValue.ofRat
  rw [abs_of_nonneg (nearest_nonneg positive),if_pos]
  have bound := nearest_le positive
  norm_num at small ⊢
  linarith

/-- A sum is cut to the whole second where it lands. -/
theorem toInt_finite_iff {sum : Rat} (positive : 0 ≤ sum) {whole : Nat} (small : whole < 2147483648) :
    (FloatValue.finite sum).toInt = whole ↔ Lands sum whole := by
  have floor : (0 : Int) ≤ ⌊sum⌋ := Int.floor_nonneg.mpr positive
  have below : (whole : Rat) ≤ sum ↔ (whole : Int) ≤ ⌊sum⌋ := by
    rw [Int.le_floor]
    norm_cast
  have above : sum < whole + 1 ↔ ⌊sum⌋ < (whole : Int) + 1 := by
    rw [Int.floor_lt]
    push_cast
    exact Iff.rfl
  unfold FloatValue.toInt Lands
  dsimp only
  rw [if_neg (not_lt.mpr positive),below,above]
  omega

theorem digitsValue_lt (digits : List (Fin 10)) :
    digitsValue (digits.map Fin.val) < 10 ^ digits.length := by
  induction digits using List.reverseRecOn with
  | nil => exact Nat.one_pos
  | append_singleton rest digit ih =>
    have last : digitsValue [digit.val] = digit.val := Nat.zero_add _
    rw [List.map_append,digitsValue_append,List.map_singleton,last,List.length_append]
    have small := digit.isLt
    simp only [List.length_singleton,pow_succ]
    omega

theorem Digits.fraction_bounds (number : Digits) : 0 ≤ number.fraction ∧ number.fraction < 1 := by
  have small : (number.value : Rat) < 10 ^ number.digits.length := by
    exact_mod_cast digitsValue_lt number.digits
  unfold Digits.fraction
  exact ⟨by positivity,(div_lt_one (by positivity)).mpr small⟩

/-- Two numbers below the largest `Int` are rounded, added and rounded again. -/
theorem add_ofRat {seconds minutes : Rat} (early : 0 ≤ seconds) (late : 0 ≤ minutes)
    (small : seconds < 2 ^ 32) (few : minutes < 2 ^ 32) :
    (FloatValue.ofRat seconds).add (.ofRat minutes) =
      .finite (nearest (nearest seconds + nearest minutes)) := by
  have first := nearest_le early
  have second := nearest_le late
  have sum : nearest seconds + nearest minutes < 2 ^ 100 := by
    norm_num at small few ⊢
    linarith
  rw [ofRat_finite early (small.trans (by norm_num)),ofRat_finite late (few.trans (by norm_num))]
  exact ofRat_finite (add_nonneg (nearest_nonneg early) (nearest_nonneg late)) sum

theorem lengthOf_decimal {minutesText : List Char} {minutes : Nat}
    (read : toInt foreign minutesText = some (minutes : Int)) (seconds digits : Digits)
    (mark : DecimalMark) (small : 60 * minutes + seconds.value < 2147483648) :
    lengthOf foreign minutesText (seconds.text ++ mark.char::digits.text) =
        some (1000 * ((60 * minutes + seconds.value : Nat) : Int)) ↔
      match mark with
      | .point => Lands (nearest (nearest (seconds.value + digits.fraction) + nearest (60 * minutes : Nat)))
        (60 * minutes + seconds.value)
      | .comma => Lands (nearest (nearest (60 * minutes : Nat))) (60 * minutes + seconds.value) := by
  have product : int32 ((minutes : Int) * 60) = (60 * minutes : Nat) := by
    unfold int32
    omega
  have milliseconds (sum : Rat) (positive : 0 ≤ sum) :
      (some ((FloatValue.finite sum).toInt * 1000) = some (1000 * ((60 * minutes + seconds.value : Nat) : Int))) ↔
        Lands sum (60 * minutes + seconds.value) := by
    rw [← toInt_finite_iff positive small,Option.some.injEq]
    omega
  have late : (0 : Rat) ≤ (60 * minutes : Nat) := Nat.cast_nonneg _
  have few : ((60 * minutes : Nat) : Rat) < 2 ^ 32 := by
    exact_mod_cast (by omega : 60 * minutes < 2 ^ 32)
  have rounded := nearest_nonneg late
  obtain ⟨positive,less⟩ := digits.fraction_bounds
  unfold lengthOf
  rw [read,Option.map_some,seconds.toInt_decimal,seconds.toFloat_text,product]
  dsimp only
  cases mark with
  | point =>
    have early : (0 : Rat) ≤ seconds.value + digits.fraction := by positivity
    have whole : (seconds.value : Rat) ≤ 2147483647 := by
      exact_mod_cast (by omega : seconds.value ≤ 2147483647)
    have sum := add_ofRat early late (by norm_num; linarith) few
    dsimp only
    rw [Option.getD_some,Int.cast_natCast,sum]
    exact milliseconds _ (nearest_nonneg (add_nonneg (nearest_nonneg early) rounded))
  | comma =>
    have sum : (FloatValue.finite 0).add (.ofRat (60 * minutes : Nat)) =
        .finite (nearest (nearest (60 * minutes : Nat))) := by
      have bound := nearest_le late
      have wide : (2 : Rat) * 2 ^ 32 + 1 < 2 ^ 100 := by norm_num
      rw [ofRat_finite late (few.trans (by norm_num))]
      refine (ofRat_finite (add_nonneg le_rfl rounded) (by linarith)).trans ?_
      rw [zero_add]
    dsimp only
    rw [Option.getD_none,Int.cast_natCast,sum]
    exact milliseconds _ (nearest_nonneg rounded)

/-- The length that minutes and seconds give without a decimal portion. -/
theorem lengthOf_whole {minutesText : List Char} {minutes : Nat}
    (read : toInt foreign minutesText = some (minutes : Int)) (seconds : Digits)
    (small : 60 * minutes + seconds.value < 2147483648) :
    lengthOf foreign minutesText seconds.text = some (1000 * ((60 * minutes + seconds.value : Nat) : Int)) := by
  unfold lengthOf
  rw [read,Option.map_some,seconds.toInt_text,if_pos (by omega)]
  dsimp only
  have sum : int32 (seconds.value + int32 ((minutes : Int) * 60)) =
      (60 * minutes + seconds.value : Nat) := by
    unfold int32
    omega
  rw [sum,mul_comm]

end Parsing

section Claims
variable {foreign : Char → Option Nat} {tagMap : TagMap}

/-- A stored text is read without an exception exactly if its minutes are. -/
theorem returns_iff {text : String} (stored : tagMap "length" = some text) :
    (getFileTrackLength foreign tagMap).isSome ↔ Readable foreign text := by
  unfold getFileTrackLength Readable
  rw [stored]
  dsimp only
  rcases text.toList.splitOn ':' with _ | ⟨first,_ | ⟨second,_ | ⟨third,others⟩⟩⟩
  · exact iff_of_true rfl nofun
  · have zero : toInt foreign ['0'] = some 0 := rfl
    unfold lengthOf
    rw [zero]
    exact iff_of_true rfl nofun
  · unfold lengthOf
    rw [Option.isSome_map]
    refine ⟨fun read minutes seconds same => ?_,fun read => read first second rfl⟩
    cases same
    exact read
  · exact iff_of_true rfl nofun

/-- A length of the format is read right exactly if it is one that is kept exactly. -/
theorem exact_iff {tag : LengthTag} (stored : tagMap "length" = some (String.ofList tag.text))
    (small : tag.whole < 2147483648) :
    getFileTrackLength foreign tagMap = some (1000 * (tag.whole : Int)) ↔ tag.Exact := by
  have split := tag.splitOn_text
  obtain ⟨clock,seconds,decimal⟩ := tag
  unfold getFileTrackLength
  rw [stored]
  dsimp only
  rw [String.toList_ofList,split]
  unfold LengthTag.whole at small ⊢
  unfold LengthTag.Exact
  cases clock with
  | hours hour minute =>
    dsimp only at small ⊢
    unfold LengthTag.whole
    dsimp only
    rw [Option.some.injEq]
    omega
  | seconds =>
    have read : toInt foreign ['0'] = some ((0 : Nat) : Int) := rfl
    unfold Clock.whole at small ⊢
    dsimp only at small ⊢
    rcases decimal with _ | ⟨mark,digits⟩
    · have right := lengthOf_whole read seconds (by omega)
      unfold LengthTag.decimalText
      dsimp only
      rw [List.append_nil]
      exact iff_of_true right trivial
    · refine (lengthOf_decimal read seconds digits mark (by omega)).trans ?_
      cases mark <;> exact Iff.rfl
  | minutes minute =>
    unfold Clock.whole at small ⊢
    dsimp only at small ⊢
    have read : toInt foreign minute.text = some (minute.value : Int) := by
      rw [minute.toInt_text,if_pos (by omega)]
    rcases decimal with _ | ⟨mark,digits⟩
    · have right := lengthOf_whole read seconds small
      unfold LengthTag.decimalText
      dsimp only
      rw [List.append_nil]
      exact iff_of_true right trivial
    · refine (lengthOf_decimal read seconds digits mark small).trans ?_
      cases mark <;> exact Iff.rfl

/-- Two roundings of a fraction with room below the next second do not reach it. -/
theorem lands_of_room {minutes seconds : Nat} {fraction : Rat} (positive : 0 ≤ fraction)
    (room : ((minutes + seconds : Nat) + 1 : Rat) < 2 ^ 22 * (1 - fraction)) :
    Lands (nearest (nearest (seconds + fraction) + nearest minutes)) (minutes + seconds) := by
  have total : ((minutes + seconds : Nat) : Rat) = minutes + seconds := Nat.cast_add _ _
  have few : (0 : Rat) ≤ minutes := Nat.cast_nonneg _
  have early : (0 : Rat) ≤ seconds := Nat.cast_nonneg _
  have less : fraction < 1 := by
    by_contra more
    nlinarith
  have bound : (minutes : Rat) + seconds + 1 < 2 ^ 22 := by nlinarith
  have whole : minutes < 2 ^ 24 := by
    have below : (minutes : Rat) < (2 ^ 24 : Nat) := by
      push_cast
      linarith
    exact_mod_cast below
  have small : (seconds : Rat) + fraction < 2 ^ 24 := by linarith
  have first := le_nearest (le_add_of_nonneg_right positive) small
  have second : nearest (seconds + fraction) ≤ seconds + fraction + (minutes + seconds + 1) / 2 ^ 24 :=
    nearest_le_add (by linarith) (by linarith) (by linarith)
  rw [nearest_nat whole]
  have above : nearest (seconds + fraction) + minutes ≤ 2 * (minutes + seconds + 1) := by linarith
  have third := nearest_le_add (x := nearest (seconds + fraction) + minutes) (by linarith) above (by linarith)
  refine ⟨le_nearest (by rw [total]; linarith) (by linarith),.inl ?_⟩
  rw [total] at room ⊢
  linarith

theorem exact_of_ample {tag : LengthTag} (ample : tag.Ample) : tag.Exact := by
  obtain ⟨clock,seconds,decimal⟩ := tag
  unfold LengthTag.Ample at ample
  unfold LengthTag.Exact
  have lone {whole : Nat} (zero : seconds.value = 0) (small : whole < 2 ^ 24) :
      Lands (nearest (nearest whole)) (whole + seconds.value) := by
    rw [nearest_nat small,nearest_nat small,zero]
    exact ⟨le_rfl,.inl (lt_add_one _)⟩
  cases clock with
  | hours hour minute => exact ample
  | seconds =>
    rcases decimal with _ | ⟨mark,digits⟩
    · trivial
    · cases mark with
      | point => exact lands_of_room digits.fraction_bounds.1 ample
      | comma => exact lone ample.1 ample.2
  | minutes minute =>
    rcases decimal with _ | ⟨mark,digits⟩
    · trivial
    · cases mark with
      | point => exact lands_of_room digits.fraction_bounds.1 ample
      | comma => exact lone ample.1 ample.2

/-- A stored length is read without an exception exactly if its minutes are an `Int`, and one of the
format is read right exactly if it is kept exactly; which it is with room for the roundings. -/
theorem length_iff (foreign : Char → Option Nat) (tagMap : TagMap) :
    (∀ text, tagMap "length" = some text →
      ((getFileTrackLength foreign tagMap).isSome ↔ Readable foreign text)) ∧
    ∀ tag : LengthTag, tagMap "length" = some (String.ofList tag.text) → tag.whole < 2147483648 →
      (getFileTrackLength foreign tagMap = some (1000 * (tag.whole : Int)) ↔ tag.Exact) ∧
        (tag.Ample → tag.Exact) :=
  ⟨fun _ stored => returns_iff stored,fun _ stored small => ⟨exact_iff stored small,exact_of_ample⟩⟩

end Claims

/-- `1:30.5` -/
def halfTag : LengthTag :=
  ⟨.minutes ⟨[1],List.cons_ne_nil _ _⟩,⟨[3,0],List.cons_ne_nil _ _⟩,
    some (.point,⟨[5],List.cons_ne_nil _ _⟩)⟩

theorem length_iff_half :
    getFileTrackLength (fun _ => none) (fun _ => some (String.ofList halfTag.text)) = some 90000 := by
  have ample : halfTag.Ample := by
    have whole : halfTag.whole = 90 := rfl
    unfold halfTag at whole ⊢
    unfold LengthTag.Ample Digits.fraction Digits.value digitsValue
    dsimp only
    rw [whole]
    norm_num
  obtain ⟨right,room⟩ := (length_iff (fun _ => none) (fun _ => some (String.ofList halfTag.text))).2
    halfTag rfl (by decide)
  exact right.mpr (room ample)

/-- `1:30:00` -/
def hourTag : LengthTag :=
  ⟨.hours ⟨[1],List.cons_ne_nil _ _⟩ ⟨[3,0],List.cons_ne_nil _ _⟩,⟨[0,0],List.cons_ne_nil _ _⟩,none⟩

/-- `1,5` -/
def commaTag : LengthTag :=
  ⟨.seconds,⟨[1],List.cons_ne_nil _ _⟩,some (.comma,⟨[5],List.cons_ne_nil _ _⟩)⟩

/-- Minutes that are no number leave with an exception, hours are lost, and so is the second before a
decimal comma. -/
theorem length_lost :
    getFileTrackLength (fun _ => none) (fun _ => some "a:30") = none ∧
    getFileTrackLength (fun _ => none) (fun _ => some (String.ofList hourTag.text)) ≠ some 5400000 ∧
    getFileTrackLength (fun _ => none) (fun _ => some (String.ofList commaTag.text)) ≠ some 1000 := by
  refine ⟨by decide +kernel,fun right => ?_,fun right => ?_⟩
  · have exact_hours : hourTag.Exact := (exact_iff rfl (by decide)).mp right
    exact absurd exact_hours (by decide : hourTag.whole ≠ 0)
  · have lands : commaTag.Exact := (exact_iff rfl (by decide)).mp right
    have low : ((1 : Nat) : Rat) ≤ nearest (nearest ((0 : Nat) : Rat)) := lands.1
    rw [Nat.cast_zero,nearest_zero,nearest_zero] at low
    norm_num at low

end Chipbox.Library
