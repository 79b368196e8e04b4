import Chipbox.Library.Tags
import Mathlib.Data.List.Infix

/-! What the names read from an artist text are, and what becomes of its characters. -/
namespace Chipbox.Library

def delimiters : List (List Char) := delimitersArtists.map String.toList

def AllBlank (text : List Char) : Prop := ∀ char ∈ text, isWhitespace char = true

/-- The names, in order, with white space around each and a delimiter between any two, are the text. -/
inductive Accounts : List Char → List (List Char) → Prop
  | last {before name after : List Char} (leads : AllBlank before) (trails : AllBlank after) :
    Accounts (before ++ name ++ after) [name]
  | next {before name after delimiter rest : List Char} {names : List (List Char)}
    (leads : AllBlank before) (trails : AllBlank after) (listed : delimiter ∈ delimiters)
    (others : Accounts rest names) :
    Accounts (before ++ name ++ after ++ delimiter ++ rest) (name::names)

structure Credits (artistText : String) (names : List String) : Prop where
  solid : ∀ name ∈ names, isBlank name = false
  free : ∀ name ∈ names, ∀ delimiter ∈ delimiters, ¬ delimiter <:+: name.toList
  accounts : Accounts artistText.toList (names.map String.toList)

/-- Before the first delimiter, between any two that follow each other and behind the last there is
a character that is not white space. `seen` tells whether there was one so far, and `skip` counts the
characters left of a delimiter. -/
def separated : Bool → List Char → Nat → Bool
  | seen,[],_ => seen
  | seen,_::rest,skip+1 => separated seen rest skip
  | seen,char::rest,0 =>
    match delimiterAt delimiters (char::rest) with
    | some delimiter => seen && separated false rest (delimiter.length - 1)
    | none => separated (seen || !isWhitespace char) rest 0

theorem delimiterAt_some {text delimiter : List Char} (found : delimiterAt delimiters text = some delimiter) :
    delimiter ∈ delimiters ∧ delimiter ≠ [] ∧ delimiter <+: text := by
  unfold delimiterAt at found
  have listed := List.mem_of_find?_eq_some found
  refine ⟨listed,?_,by simpa using List.find?_some found⟩
  have solid : ∀ delimiter ∈ delimiters, delimiter ≠ [] := by decide
  exact solid delimiter listed

theorem delimiterAt_none {text : List Char} (missed : delimiterAt delimiters text = none)
    {delimiter : List Char} (listed : delimiter ∈ delimiters) : ¬ delimiter <+: text := by
  intro starts
  unfold delimiterAt at missed
  exact List.find?_eq_none.mp missed delimiter listed (List.isPrefixOf_iff_prefix.mpr starts)

theorem splitFrom_skip (current text : List Char) (skip : Nat) :
    splitFrom delimiters current skip text = splitFrom delimiters current 0 (text.drop skip) := by
  induction text generalizing skip with
  | nil =>
    rw [List.drop_nil]
    cases skip <;> rfl
  | cons char rest ih =>
    cases skip with
    | zero => rfl
    | succ skip => exact ih skip

theorem separated_skip (seen : Bool) (text : List Char) (skip : Nat) :
    separated seen text skip = separated seen (text.drop skip) 0 := by
  induction text generalizing skip with
  | nil =>
    rw [List.drop_nil]
    cases skip <;> rfl
  | cons char rest ih =>
    cases skip with
    | zero => rfl
    | succ skip => exact ih skip

theorem behind_delimiter {delimiter rest : List Char} {char : Char}
    (found : delimiterAt delimiters (char::rest) = some delimiter) :
    ∃ after, char::rest = delimiter ++ after ∧ rest.drop (delimiter.length - 1) = after := by
  obtain ⟨_,solid,after,same⟩ := delimiterAt_some found
  refine ⟨after,same.symm,?_⟩
  cases delimiter with
  | nil => exact absurd rfl solid
  | cons first others =>
    rw [List.cons_append,List.cons.injEq] at same
    rw [← same.2]
    exact List.drop_left

/-- The scan of a text: it ends, goes on by a character, or goes on behind a delimiter. -/
theorem scan_induction {motive : List Char → List Char → Prop} (finish : ∀ current, motive current [])
    (step : ∀ current char rest, delimiterAt delimiters (char::rest) = none →
      motive (char::current) rest → motive current (char::rest))
    (jump : ∀ current delimiter after, delimiter ≠ [] →
      delimiterAt delimiters (delimiter ++ after) = some delimiter →
        motive [] after → motive current (delimiter ++ after)) (current text : List Char) :
    motive current text := by
  induction length : text.length using Nat.strong_induction_on generalizing current text with
  | _ size ih =>
    subst length
    cases text with
    | nil => exact finish current
    | cons char rest =>
      cases found : delimiterAt delimiters (char::rest) with
      | none => exact step current char rest found (ih rest.length (Nat.lt_succ_self _) _ rest rfl)
      | some delimiter =>
        obtain ⟨after,same,_⟩ := behind_delimiter found
        have solid := (delimiterAt_some found).2.1
        rw [same] at found ⊢
        refine jump current delimiter after solid found (ih after.length ?_ _ after rfl)
        rw [same,List.length_append]
        have positive := List.length_pos_iff.mpr solid
        omega

section Scan
variable {current delimiter after : List Char}

theorem splitFrom_step {char : Char} {rest : List Char}
    (missed : delimiterAt delimiters (char::rest) = none) :
    splitFrom delimiters current 0 (char::rest) = splitFrom delimiters (char::current) 0 rest := by
  simp only [splitFrom,missed]

theorem separated_step {seen : Bool} {char : Char} {rest : List Char}
    (missed : delimiterAt delimiters (char::rest) = none) :
    separated seen (char::rest) 0 = separated (seen || !isWhitespace char) rest 0 := by
  simp only [separated,missed]

theorem splitFrom_jump (solid : delimiter ≠ [])
    (found : delimiterAt delimiters (delimiter ++ after) = some delimiter) :
    splitFrom delimiters current 0 (delimiter ++ after) =
      current.reverse::splitFrom delimiters [] 0 after := by
  cases delimiter with
  | nil => exact absurd rfl solid
  | cons char others =>
    rw [List.cons_append] at found ⊢
    simp only [splitFrom,found]
    rw [splitFrom_skip,List.length_cons,Nat.add_sub_cancel,List.drop_left]

theorem separated_jump {seen : Bool} (solid : delimiter ≠ [])
    (found : delimiterAt delimiters (delimiter ++ after) = some delimiter) :
    separated seen (delimiter ++ after) 0 = (seen && separated false after 0) := by
  cases delimiter with
  | nil => exact absurd rfl solid
  | cons char others =>
    rw [List.cons_append] at found ⊢
    simp only [separated,found]
    rw [separated_skip,List.length_cons,Nat.add_sub_cancel,List.drop_left]

end Scan

theorem allBlank_takeWhile (text : List Char) : AllBlank (text.takeWhile isWhitespace) :=
  List.all_eq_true.mp List.all_takeWhile

theorem trim_spec (text : List Char) :
    ∃ before after, AllBlank before ∧ AllBlank after ∧ text = before ++ trim text ++ after := by
  refine ⟨text.takeWhile isWhitespace,
    ((text.dropWhile isWhitespace).reverse.takeWhile isWhitespace).reverse,allBlank_takeWhile text,?_,?_⟩
  · intro char listed
    exact allBlank_takeWhile _ char (List.mem_reverse.mp listed)
  · unfold trim
    rw [List.append_assoc,← List.reverse_append,List.takeWhile_append_dropWhile,List.reverse_reverse,
      List.takeWhile_append_dropWhile]

theorem trim_blank_iff (text : List Char) : (∀ char ∈ trim text, isWhitespace char = true) ↔ AllBlank text := by
  obtain ⟨before,after,leads,trails,same⟩ := trim_spec text
  constructor
  · intro blank char listed
    rw [same] at listed
    rcases List.mem_append.mp listed with listed | listed
    · rcases List.mem_append.mp listed with listed | listed
      · exact leads char listed
      · exact blank char listed
    · exact trails char listed
  · intro blank char listed
    apply blank
    rw [same]
    exact List.mem_append_left _ (List.mem_append_right _ listed)

theorem splitFrom_accounts (current text : List Char) :
    Accounts (current.reverse ++ text) ((splitFrom delimiters current 0 text).map trim) := by
  induction current, text using scan_induction with
  | finish current =>
    obtain ⟨before,after,leads,trails,same⟩ := trim_spec current.reverse
    rw [List.append_nil,same]
    exact .last leads trails
  | step current char rest missed ih =>
    rw [splitFrom_step missed]
    rw [List.reverse_cons,List.append_assoc] at ih
    exact ih
  | jump current delimiter rest solid found ih =>
    obtain ⟨before,after,leads,trails,same⟩ := trim_spec current.reverse
    have first : current.reverse ++ (delimiter ++ rest) =
        before ++ trim current.reverse ++ after ++ delimiter ++ rest := by rw [← same,List.append_assoc]
    rw [splitFrom_jump solid found,List.map_cons,first]
    exact .next leads trails (delimiterAt_some found).1 ih

def Clear (current text : List Char) : Prop :=
  ∀ before rest, current.reverse = before ++ rest → rest ≠ [] → delimiterAt delimiters (rest ++ text) = none

theorem Clear.free {current text : List Char} (clear : Clear current text) {delimiter : List Char}
    (listed : delimiter ∈ delimiters) : ¬ delimiter <:+: current.reverse := by
  rintro ⟨before,after,same⟩
  have solid : ∀ delimiter ∈ delimiters, delimiter ≠ [] := by decide
  have missed := clear before (delimiter ++ after) (by rw [← List.append_assoc,same])
    (List.append_ne_nil_of_left_ne_nil (solid delimiter listed) after)
  refine delimiterAt_none missed listed ?_
  rw [List.append_assoc]
  exact List.prefix_append delimiter _

theorem splitFrom_free (current text : List Char) (clear : Clear current text) :
    ∀ piece ∈ splitFrom delimiters current 0 text, ∀ delimiter ∈ delimiters, ¬ delimiter <:+: piece := by
  induction current, text using scan_induction with
  | finish current =>
    intro piece listed delimiter
    rw [List.mem_singleton.mp listed]
    exact clear.free
  | step current char rest missed ih =>
    rw [splitFrom_step missed]
    apply ih
    intro before others same solid
    rw [List.reverse_cons] at same
    obtain ⟨first,last,rfl⟩ := (List.eq_nil_or_concat others).resolve_left solid
    rw [List.concat_eq_append,← List.append_assoc] at same
    obtain ⟨read,ends⟩ := List.append_inj' same rfl
    cases ends
    rw [List.concat_eq_append,List.append_assoc]
    cases first with
    | nil => exact missed
    | cons head tail => exact clear before (head::tail) read (List.cons_ne_nil head tail)
  | jump current delimiter rest solid found ih =>
    rw [splitFrom_jump solid found]
    intro piece listed
    rcases List.mem_cons.mp listed with rfl | later
    · exact fun delimiter => clear.free
    · refine ih ?_ piece later
      intro before others same solid
      exact absurd (List.append_eq_nil_iff.mp same.symm).2 solid

theorem splitFrom_solid (current text : List Char) :
    (∀ piece ∈ splitFrom delimiters current 0 text, ¬ AllBlank piece) ↔
      separated (current.any fun char => !isWhitespace char) text 0 = true := by
  have blank_iff (current : List Char) : ¬ AllBlank current.reverse ↔
      (current.any fun char => !isWhitespace char) = true := by
    unfold AllBlank
    simp
  induction current, text using scan_induction with
  | finish current =>
    have single : splitFrom delimiters current 0 [] = [current.reverse] := rfl
    rw [single,List.forall_mem_singleton,blank_iff]
    rfl
  | step current char rest missed ih =>
    rw [splitFrom_step missed,separated_step missed,Bool.or_comm]
    exact ih
  | jump current delimiter rest solid found ih =>
    rw [splitFrom_jump solid found,separated_jump solid found,List.forall_mem_cons,blank_iff,
      Bool.and_eq_true]
    exact and_congr Iff.rfl ih

theorem artistNames_eq (artistText : String) : (artistNames artistText).map String.toList =
    (splitFrom delimiters [] 0 artistText.toList).map trim := by
  unfold artistNames delimiters
  rw [List.map_map]
  exact List.map_congr_left fun piece _ => String.toList_ofList

theorem trim_within (text : List Char) : trim text <:+: text := by
  obtain ⟨before,after,_,_,same⟩ := trim_spec text
  exact ⟨before,after,same.symm⟩

/-- The names of an artist text are what it should give exactly if the text has a name before the
first delimiter, between any two and behind the last. -/
theorem credits_iff (artistText : String) :
    Credits artistText (artistNames artistText) ↔ separated false artistText.toList 0 = true := by
  have pieces : ∀ name ∈ artistNames artistText,
      ∃ piece ∈ splitFrom delimiters [] 0 artistText.toList, name.toList = trim piece := by
    intro name listed
    obtain ⟨piece,member,rfl⟩ := List.mem_map.mp listed
    exact ⟨piece,member,String.toList_ofList⟩
  have clear : Clear [] artistText.toList := fun before others same solid =>
    absurd (List.append_eq_nil_iff.mp same.symm).2 solid
  have solid_iff : (∀ name ∈ artistNames artistText, isBlank name = false) ↔
      ∀ piece ∈ splitFrom delimiters [] 0 artistText.toList, ¬ AllBlank piece := by
    unfold artistNames
    rw [List.forall_mem_map]
    refine forall₂_congr fun piece _ => ?_
    unfold isBlank
    rw [String.toList_ofList,← trim_blank_iff,← List.all_eq_true,Bool.not_eq_true]
  have ends := splitFrom_solid [] artistText.toList
  rw [List.any_nil] at ends
  rw [← ends,← solid_iff]
  refine ⟨Credits.solid,fun solid => ⟨solid,?_,?_⟩⟩
  · intro name listed delimiter separator inside
    obtain ⟨piece,member,same⟩ := pieces name listed
    rw [same] at inside
    exact splitFrom_free [] artistText.toList clear piece member delimiter separator
      (inside.trans (trim_within piece))
  · rw [artistNames_eq]
    exact splitFrom_accounts [] artistText.toList

theorem credits_iff_three : Credits "Koji Kondo, Soyo Oka and Hajime Hirasawa"
    ["Koji Kondo","Soyo Oka","Hajime Hirasawa"] := by
  have names : artistNames "Koji Kondo, Soyo Oka and Hajime Hirasawa" =
    ["Koji Kondo","Soyo Oka","Hajime Hirasawa"] := by decide +kernel
  rw [← names]
  exact (credits_iff _).mpr (by decide +kernel)

def duo : Track := ⟨some 1,some "/a",some "t",some "g",some "Kondo, and Oka",some "p",none,none,none,none⟩

/-- A comma before the word leaves an artist without a name. -/
theorem artist_without_name : ¬ Credits "Kondo, and Oka" (artistNames "Kondo, and Oka") ∧
    (Store.empty.addTrack duo).2.artists.map ArtistRow.name = [some "Kondo",some "",some "Oka"] :=
  ⟨fun credits => absurd (credits.solid "" (by decide +kernel)) (by decide),by decide +kernel⟩

end Chipbox.Library
