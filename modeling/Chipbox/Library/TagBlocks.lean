import Chipbox.Library.Container
import Mathlib

/-! The tag block of a PSF or USF file by the format, and what the scanners read of it. -/
namespace Chipbox.Library

/-- A line `name=value` with the white space around its parts. -/
structure TagLine where
  lead : List Char
  name : List Char
  gap : List Char
  after : List Char
  value : List Char
  trail : List Char

inductive TagRow
  | blank (spaces : List Char)
  | tag (line : TagLine)

/-- The white space of the format, but for the newline (and with the null that no tag may have). -/
def AllSpace (spaces : List Char) : Prop := ∀ char ∈ spaces, char ≤ ' ' ∧ char ≠ '\n'

instance (spaces : List Char) : Decidable (AllSpace spaces) := List.decidableBAll _ _

def IsIdentifier : List Char → Prop
  | [] => False
  | first::rest => (first.isAlpha || first == '_') = true ∧
    ∀ char ∈ rest, (char.isAlpha || char == '_' || char.isDigit) = true

instance : (name : List Char) → Decidable (IsIdentifier name)
  | [] => .isFalse id
  | _::_ => @instDecidableAnd _ _ inferInstance (List.decidableBAll _ _)

/-- A value of ASCII characters without a newline and without white space at its ends. -/
structure IsValue (value : List Char) : Prop where
  ascii : ∀ char ∈ value, char.utf8Size = 1 ∧ char ≠ '\n'
  starts : ∀ char ∈ value.head?, ' ' < char
  ends : ∀ char ∈ value.getLast?, ' ' < char

instance (value : List Char) : Decidable (IsValue value) :=
  @decidable_of_iff _ ((∀ char ∈ value, char.utf8Size = 1 ∧ char ≠ '\n') ∧
    (∀ char ∈ value.head?, ' ' < char) ∧ ∀ char ∈ value.getLast?, ' ' < char)
    ⟨fun all => ⟨all.1,all.2.1,all.2.2⟩,fun fine => ⟨fine.ascii,fine.starts,fine.ends⟩⟩
    (@instDecidableAnd _ _ (List.decidableBAll _ _)
      (@instDecidableAnd _ _ (Option.decidableForallMem _) (Option.decidableForallMem _)))

structure TagLine.Fine (line : TagLine) : Prop where
  lead : AllSpace line.lead
  name : IsIdentifier line.name
  gap : AllSpace line.gap
  after : AllSpace line.after
  value : IsValue line.value
  trail : AllSpace line.trail

instance (line : TagLine) : Decidable line.Fine :=
  decidable_of_iff (AllSpace line.lead ∧ IsIdentifier line.name ∧ AllSpace line.gap ∧
    AllSpace line.after ∧ IsValue line.value ∧ AllSpace line.trail)
    ⟨fun all => ⟨all.1,all.2.1,all.2.2.1,all.2.2.2.1,all.2.2.2.2.1,all.2.2.2.2.2⟩,
      fun fine => ⟨fine.lead,fine.name,fine.gap,fine.after,fine.value,fine.trail⟩⟩

namespace TagLine

def key (line : TagLine) : List Char := line.lead ++ (line.name ++ line.gap)

def rest (line : TagLine) : List Char := line.after ++ (line.value ++ line.trail)

def text (line : TagLine) : List Char := line.key ++ '=' :: line.rest

def opened (line : TagLine) : TagLine := {line with lead := []}

def closed (line : TagLine) : TagLine :=
  if line.value = [] then {line with after := [], trail := []} else {line with trail := []}

end TagLine

def lowerName (name : List Char) : String := String.ofList (name.map Char.toLower)

namespace TagRow

def text : TagRow → List Char
  | .blank spaces => spaces
  | .tag line => line.text

def Fine : TagRow → Prop
  | .blank spaces => AllSpace spaces
  | .tag line => line.Fine

instance : (row : TagRow) → Decidable row.Fine
  | .blank spaces => inferInstanceAs (Decidable (AllSpace spaces))
  | .tag line => inferInstanceAs (Decidable line.Fine)

def pair : TagRow → Option (List Char × List Char)
  | .blank _ => none
  | .tag line => some (line.name,line.value)

end TagRow

def pairs (rows : List TagRow) : List (List Char × List Char) := rows.filterMap TagRow.pair

def blockText (rows : List TagRow) : List Char := ['\n'].intercalate (rows.map TagRow.text)

/-- The lines of a block, with names that differ in more than their case. -/
structure TagBlock where
  rows : List TagRow
  fine : ∀ row ∈ rows, row.Fine
  distinct : ((pairs rows).map fun pair => lowerName pair.1).Nodup

def openedRows : List TagRow → List TagRow
  | [] => []
  | .blank _::rest => openedRows rest
  | .tag line::rest => .tag line.opened::rest

def TagRow.last : TagRow → List TagRow
  | .blank _ => []
  | .tag line => [.tag line.closed]

def TagRow.before (row : TagRow) : List TagRow → List TagRow
  | [] => row.last
  | next::others => row::next::others

def closedRows (rows : List TagRow) : List TagRow := rows.foldr TagRow.before []

def TagBlock.trimmed (block : TagBlock) : List TagRow := closedRows (openedRows block.rows)

/-- The map has the value of the name; an empty value may be left out. -/
def Holds (tagMap : TagMap) (pair : List Char × List Char) : Prop :=
  tagMap (lowerName pair.1) = some (String.ofList pair.2) ∨
    pair.2 = [] ∧ tagMap (lowerName pair.1) = none

instance (tagMap : TagMap) (pair : List Char × List Char) : Decidable (Holds tagMap pair) :=
  inferInstanceAs (Decidable (_ ∨ _))

/-- `ByteArray.convertUtf`, with what it makes of bytes that are not UTF-8. -/
def convertUtf (malformed : List UInt8 → String) (bytes : List UInt8) : String :=
  (String.fromUTF8? bytes.toByteArray).getD (malformed bytes)

def SetsTags (versions : List (UInt8 × String)) (message : Int → Option String)
    (malformed : List UInt8 → String) (bytes : List UInt8) (block : TagBlock) : Prop :=
  ∃ tagMap, fileInfoSetup versions message (convertUtf malformed) bytes = .ok (none,tagMap) ∧
    ∀ pair ∈ pairs block.rows, Holds tagMap pair

def TagLine.Plain (line : TagLine) : Prop :=
  line.lead = [] ∧ line.gap = [] ∧ line.name.map Char.toLower = line.name

instance (line : TagLine) : Decidable line.Plain := inferInstanceAs (Decidable (_ ∧ _ ∧ _))

/-- A plain name with a value that has neither white space around it nor an equals sign. Otherwise
the value has to be empty, or that of the platform, which the header gives. -/
def TagLine.Kept (platform : String) (line : TagLine) : Prop :=
  if line.value = [] then
    lowerName line.name ≠ "platform" ∧ (line.Plain → line.after = [] ∧ line.trail = [])
  else (line.Plain → line.after = [] ∧ line.trail = [] ∧ '=' ∉ line.value) ∧
    (¬ line.Plain → lowerName line.name = "platform" ∧ String.ofList line.value = platform)

def TagRow.Kept (platform : String) : TagRow → Prop
  | .blank _ => True
  | .tag line => line.Kept platform

instance (platform : String) (line : TagLine) : Decidable (line.Kept platform) := by
  unfold TagLine.Kept
  infer_instance

instance (platform : String) : (row : TagRow) → Decidable (row.Kept platform)
  | .blank _ => .isTrue trivial
  | .tag line => inferInstanceAs (Decidable (line.Kept platform))

section Characters
variable {char : Char}

theorem letter_char (letter : (char.isAlpha || char == '_' || char.isDigit) = true) :
    ' ' < char ∧ ' ' < char.toLower ∧ char ≠ '=' ∧ char.utf8Size = 1 := by
  rw [Char.utf8Size_eq_one_iff]
  simp only [Char.lt_def,Char.isAlpha,Char.isUpper,Char.isLower,Char.isDigit,UInt32.lt_iff_toNat_lt,
    UInt32.le_iff_toNat_le,ne_eq,Char.ext_iff,Char.toLower,← UInt32.toNat_inj,beq_iff_eq,
    Bool.or_eq_true,Bool.and_eq_true,decide_eq_true_eq,ge_iff_le] at letter ⊢
  simp at letter ⊢
  split
  · simp [UInt32.toNat_add]
    omega
  · simp
    omega

theorem identifier_char {name : List Char} (identifier : IsIdentifier name) (listed : char ∈ name) :
    ' ' < char ∧ ' ' < char.toLower ∧ char ≠ '=' ∧ char.utf8Size = 1 := by
  cases name with
  | nil => cases listed
  | cons first rest =>
    obtain ⟨letter,others⟩ := identifier
    rcases List.mem_cons.mp listed with rfl | later
    · exact letter_char (by rw [letter,Bool.true_or])
    · exact letter_char (others char later)

theorem space_char (blank : char ≤ ' ') : char ≠ '=' ∧ char.utf8Size = 1 := by
  rw [Char.utf8Size_eq_one_iff]
  simp only [Char.le_def,UInt32.le_iff_toNat_le,Char.ext_iff,ne_eq,← UInt32.toNat_inj] at blank ⊢
  simp at blank ⊢
  omega

theorem not_blank (solid : ' ' < char) : ¬ (decide (char ≤ ' ') = true) := by
  rw [decide_eq_true_eq,Char.not_le]
  exact solid

end Characters

theorem AllSpace.nil : AllSpace [] := nofun

theorem AllSpace.blank {spaces : List Char} (space : AllSpace spaces) :
    ∀ char ∈ spaces, decide (char ≤ ' ') = true := fun char listed => decide_eq_true (space char listed).1

section Trimming

@[simp] theorem closedRows_cons (row : TagRow) (rest : List TagRow) :
    closedRows (row::rest) = row.before (closedRows rest) := rfl

theorem rdropWhile_append {α : Type} (p : α → Bool) (first second : List α) :
    (first ++ second).rdropWhile p =
      if second.rdropWhile p = [] then first.rdropWhile p else first ++ second.rdropWhile p := by
  unfold List.rdropWhile
  rw [List.reverse_append,List.dropWhile_append]
  by_cases empty : second.reverse.dropWhile p = []
  · rw [empty]
    rfl
  · rw [if_neg (by rwa [List.isEmpty_iff]),if_neg (by rwa [List.reverse_eq_nil_iff]),
      List.reverse_append,List.reverse_reverse]

theorem rdropWhile_blank {spaces : List Char} (space : AllSpace spaces) :
    spaces.rdropWhile (· ≤ ' ') = [] :=
  List.rdropWhile_eq_nil_iff.mpr space.blank

theorem rdropWhile_solid {text : List Char} {last : Char} (solid : ' ' < last) :
    (text ++ [last]).rdropWhile (· ≤ ' ') = text ++ [last] :=
  List.rdropWhile_concat_neg _ _ _ (not_blank solid)

theorem blockText_cons (row : TagRow) {rest : List TagRow} (more : rest ≠ []) :
    blockText (row::rest) = row.text ++ '\n' :: blockText rest := by
  cases rest with
  | nil => exact absurd rfl more
  | cons next rest => rfl

theorem blockText_single (row : TagRow) : blockText [row] = row.text := by
  unfold blockText
  simp

theorem TagLine.Fine.opened_text {line : TagLine} (fine : line.Fine) (more : List Char) :
    (line.text ++ more).dropWhile (· ≤ ' ') = line.opened.text ++ more := by
  obtain ⟨lead,name,gap,after,value,trail⟩ := line
  cases name with
  | nil => exact absurd fine.name id
  | cons first others =>
    have solid := (identifier_char fine.name List.mem_cons_self).1
    unfold TagLine.text TagLine.key TagLine.opened
    dsimp only
    simp only [List.append_assoc,List.cons_append,List.nil_append]
    rw [List.dropWhile_append_of_pos fine.lead.blank]
    exact List.dropWhile_cons_of_neg (not_blank solid)

/-- Without the white space before it the text is that of the opened rows. -/
theorem opened_text {rows : List TagRow} (fine : ∀ row ∈ rows, row.Fine) :
    (blockText rows).dropWhile (· ≤ ' ') = blockText (openedRows rows) := by
  induction rows with
  | nil => rfl
  | cons row rest ih =>
    have first := fine row List.mem_cons_self
    have later := ih fun other listed => fine other (.tail _ listed)
    cases row with
    | blank spaces =>
      have space : AllSpace spaces := first
      rcases eq_or_ne rest [] with rfl | more
      · rw [blockText_single]
        exact List.dropWhile_eq_nil_iff.mpr space.blank
      · rw [blockText_cons _ more]
        exact (List.dropWhile_append_of_pos space.blank).trans later
    | tag line =>
      have solid : line.Fine := first
      rcases eq_or_ne rest [] with rfl | more
      · have opened := solid.opened_text []
        rw [List.append_nil,List.append_nil] at opened
        rw [blockText_single]
        exact opened.trans (blockText_single (.tag line.opened)).symm
      · rw [blockText_cons _ more]
        exact (solid.opened_text _).trans (blockText_cons (.tag line.opened) more).symm

theorem TagLine.Fine.closed_text {line : TagLine} (fine : line.Fine) :
    line.text.rdropWhile (· ≤ ' ') = line.closed.text := by
  unfold TagLine.text TagLine.rest TagLine.closed
  by_cases empty : line.value = []
  · have space : AllSpace (line.after ++ line.trail) := fun char listed =>
      (List.mem_append.mp listed).elim (fine.after char) (fine.trail char)
    rw [if_pos empty,empty,List.nil_append,List.append_cons,rdropWhile_append,
      if_pos (rdropWhile_blank space)]
    exact rdropWhile_solid (by decide)
  · obtain ⟨start,last,ending⟩ := (List.eq_nil_or_concat line.value).resolve_left empty
    have solid : ' ' < last := fine.value.ends last (by rw [ending]; simp)
    have shape : line.key ++ '=' :: (line.after ++ (line.value ++ line.trail)) =
        (line.key ++ '=' :: (line.after ++ start)) ++ [last] ++ line.trail := by
      rw [ending]
      simp
    rw [if_neg empty,shape,rdropWhile_append,if_pos (rdropWhile_blank fine.trail),rdropWhile_solid solid]
    dsimp only
    rw [ending,List.append_nil]
    simp [TagLine.key]

/-- The white space at the end of a block goes on into a row that has nothing left behind it. -/
theorem rdropWhile_cons (row : TagRow) {rest : List TagRow} (closed : (blockText rest).rdropWhile (· ≤ ' ') =
      blockText (closedRows rest)) (kept : closedRows rest ≠ [] → blockText (closedRows rest) ≠ []) :
    (blockText (row::rest)).rdropWhile (· ≤ ' ') =
      if closedRows rest = [] then row.text.rdropWhile (· ≤ ' ') else blockText (row::closedRows rest) := by
  rcases eq_or_ne rest [] with rfl | more
  · rw [blockText_single]
    rfl
  · rw [blockText_cons row more,rdropWhile_append,← List.singleton_append,rdropWhile_append,closed]
    by_cases none_left : closedRows rest = []
    · rw [none_left]
      rfl
    · rw [if_neg (kept none_left),if_neg none_left,if_neg (by simp),blockText_cons row none_left]
      rfl

/-- Without the white space at its end the text is that of the closed rows. -/
theorem closed_text {rows : List TagRow} (fine : ∀ row ∈ rows, row.Fine) :
    (blockText rows).rdropWhile (· ≤ ' ') = blockText (closedRows rows) ∧
      (closedRows rows ≠ [] → blockText (closedRows rows) ≠ []) := by
  induction rows with
  | nil => exact ⟨rfl,fun some => absurd rfl some⟩
  | cons row rest ih =>
    obtain ⟨closed,kept⟩ := ih fun other listed => fine other (.tail _ listed)
    have first := fine row List.mem_cons_self
    rw [rdropWhile_cons row closed kept,closedRows_cons]
    cases closedRows rest with
    | nil =>
      rw [if_pos rfl]
      cases row with
      | blank spaces => exact ⟨rdropWhile_blank first,fun some => absurd rfl some⟩
      | tag line =>
        have solid : line.Fine := first
        refine ⟨solid.closed_text.trans (blockText_single (.tag line.closed)).symm,fun _ => ?_⟩
        have left : blockText ((TagRow.tag line).before []) = line.closed.text := blockText_single _
        rw [left]
        exact List.append_ne_nil_of_right_ne_nil _ (List.cons_ne_nil _ _)
    | cons last others =>
      rw [if_neg (List.cons_ne_nil _ _)]
      refine ⟨rfl,fun _ => ?_⟩
      have whole : blockText (row.before (last::others)) = row.text ++ '\n' :: blockText (last::others) :=
        blockText_cons row (List.cons_ne_nil _ _)
      rw [whole]
      exact List.append_ne_nil_of_right_ne_nil _ (List.cons_ne_nil _ _)

theorem TagLine.Fine.opened {line : TagLine} (fine : line.Fine) : line.opened.Fine :=
  ⟨.nil,fine.name,fine.gap,fine.after,fine.value,fine.trail⟩

theorem TagLine.Fine.closed {line : TagLine} (fine : line.Fine) : line.closed.Fine := by
  unfold TagLine.closed
  split
  · exact ⟨fine.lead,fine.name,fine.gap,.nil,fine.value,.nil⟩
  · exact ⟨fine.lead,fine.name,fine.gap,fine.after,fine.value,.nil⟩

theorem closed_pair (line : TagLine) : (TagRow.tag line.closed).pair = (TagRow.tag line).pair := by
  unfold TagLine.closed
  split <;> rfl

theorem openedRows_kept {rows : List TagRow} (fine : ∀ row ∈ rows, row.Fine) :
    pairs (openedRows rows) = pairs rows ∧ ∀ row ∈ openedRows rows, row.Fine := by
  induction rows with
  | nil => exact ⟨rfl,fine⟩
  | cons row rest ih =>
    have later : ∀ other ∈ rest, other.Fine := fun other listed => fine other (.tail _ listed)
    cases row with
    | blank spaces => exact ih later
    | tag line =>
      have first : line.Fine := fine _ List.mem_cons_self
      exact ⟨rfl,List.forall_mem_cons.mpr ⟨first.opened,later⟩⟩

theorem closedRows_kept {rows : List TagRow} (fine : ∀ row ∈ rows, row.Fine) :
    pairs (closedRows rows) = pairs rows ∧ ∀ row ∈ closedRows rows, row.Fine := by
  induction rows with
  | nil => exact ⟨rfl,fine⟩
  | cons row rest ih =>
    obtain ⟨same,later⟩ := ih fun other listed => fine other (.tail _ listed)
    have first := fine row List.mem_cons_self
    have whole : pairs (row::rest) = row.pair.toList ++ pairs rest := by
      unfold pairs
      rw [List.filterMap_cons]
      cases row.pair <;> rfl
    rw [whole,closedRows_cons,← same]
    cases left : closedRows rest with
    | nil =>
      cases row with
      | blank spaces => exact ⟨rfl,nofun⟩
      | tag line =>
        have solid : line.Fine := first
        refine ⟨?_,fun other listed => List.mem_singleton.mp listed ▸ solid.closed⟩
        rw [← closed_pair]
        rfl
    | cons last others =>
      rw [left] at later
      refine ⟨?_,List.forall_mem_cons.mpr ⟨first,later⟩⟩
      cases row <;> rfl

end Trimming

namespace TagBlock

theorem trimmed_pairs (block : TagBlock) : pairs block.trimmed = pairs block.rows :=
  have opened := openedRows_kept block.fine
  (closedRows_kept opened.2).1.trans opened.1

theorem trimmed_fine (block : TagBlock) : ∀ row ∈ block.trimmed, row.Fine :=
  (closedRows_kept (openedRows_kept block.fine).2).2

theorem trimTags_text (block : TagBlock) : trimTags (blockText block.rows) = blockText block.trimmed := by
  have opened := openedRows_kept block.fine
  unfold trimTags
  rw [opened_text block.fine]
  exact (closed_text opened.2).1

end TagBlock

section Lines
variable {tagMap : TagMap} {line : TagLine}

theorem foldl_rdropWhile (tagMap : TagMap) (lines : List (List Char)) :
    (lines.rdropWhile List.isEmpty).foldl setTag tagMap = lines.foldl setTag tagMap := by
  induction lines using List.reverseRecOn with
  | nil => rfl
  | append_singleton lines last ih =>
    cases last with
    | nil =>
      rw [List.rdropWhile_concat_pos _ _ _ rfl,ih,List.foldl_append]
      rfl
    | cons char rest => rw [List.rdropWhile_concat_neg _ _ _ Bool.false_ne_true]

theorem AllSpace.free {spaces : List Char} (space : AllSpace spaces) : '=' ∉ spaces ∧ '\n' ∉ spaces :=
  ⟨fun listed => (space_char (space _ listed).1).1 rfl,fun listed => (space _ listed).2 rfl⟩

theorem TagLine.Fine.key_free (fine : line.Fine) : '=' ∉ line.key ∧ '\n' ∉ line.key := by
  constructor
  · intro listed
    rcases List.mem_append.mp listed with lead | listed
    · exact fine.lead.free.1 lead
    · rcases List.mem_append.mp listed with name | gap
      · exact (identifier_char fine.name name).2.2.1 rfl
      · exact fine.gap.free.1 gap
  · intro listed
    rcases List.mem_append.mp listed with lead | listed
    · exact fine.lead.free.2 lead
    · rcases List.mem_append.mp listed with name | gap
      · exact absurd (identifier_char fine.name name).1 (by decide)
      · exact fine.gap.free.2 gap

theorem TagLine.Fine.rest_free (fine : line.Fine) : '\n' ∉ line.rest := by
  intro listed
  rcases List.mem_append.mp listed with after | listed
  · exact fine.after.free.2 after
  · rcases List.mem_append.mp listed with value | trail
    · exact (fine.value.ascii _ value).2 rfl
    · exact fine.trail.free.2 trail

theorem TagRow.Fine.text_free {row : TagRow} (fine : row.Fine) : '\n' ∉ row.text := by
  cases row with
  | blank spaces =>
    have space : AllSpace spaces := fine
    exact space.free.2
  | tag line =>
    have solid : line.Fine := fine
    intro listed
    rcases List.mem_append.mp listed with key | listed
    · exact solid.key_free.2 key
    · rcases List.mem_cons.mp listed with equals | rest
      · exact absurd equals (by decide)
      · exact solid.rest_free rest

theorem foldl_lines {rows : List TagRow} (fine : ∀ row ∈ rows, row.Fine) (tagMap : TagMap) :
    (splitParts '\n' (blockText rows)).foldl setTag tagMap =
      (rows.map TagRow.text).foldl setTag tagMap := by
  refine (foldl_rdropWhile tagMap _).trans ?_
  rcases eq_or_ne rows [] with rfl | some
  · rfl
  · unfold blockText
    rw [List.splitOn_intercalate]
    · intro line listed
      obtain ⟨row,member,rfl⟩ := List.mem_map.mp listed
      exact (fine row member).text_free
    · simpa using some

theorem setTag_blank {spaces : List Char} (space : AllSpace spaces) (tagMap : TagMap) :
    setTag tagMap spaces = tagMap := by
  unfold setTag splitParts
  rw [List.splitOn_eq_singleton space.free.1]
  cases spaces <;> rfl

/-- A line sets its key to the part behind the first equals sign unless only such signs follow. -/
theorem TagLine.Fine.setTag_eq (fine : line.Fine) (tagMap : TagMap) : setTag tagMap line.text =
    match splitParts '=' line.rest with
    | [] => tagMap
    | value::_ => fun key =>
      if key = String.ofList line.key then some (String.ofList value) else tagMap key := by
  have named : line.key ≠ [] := by
    obtain ⟨lead,name,gap,_,_,_⟩ := line
    cases name with
    | nil => exact absurd fine.name id
    | cons first others => simp [TagLine.key]
  have split : splitParts '=' line.text =
      if splitParts '=' line.rest = [] then [line.key] else line.key::splitParts '=' line.rest := by
    unfold TagLine.text splitParts
    rw [List.splitOn_append_cons_self_of_not_mem fine.key_free.1,← List.singleton_append]
    refine (rdropWhile_append _ _ _).trans ?_
    have alone : [line.key].rdropWhile List.isEmpty = [line.key] :=
      List.rdropWhile_concat_neg _ [] _ (by simpa using named)
    rw [alone]
    rfl
  unfold setTag
  rw [split]
  cases splitParts '=' line.rest <;> rfl

theorem splitParts_free {text : List Char} (free : '=' ∉ text) :
    splitParts '=' text = if text = [] then [] else [text] := by
  unfold splitParts
  rw [List.splitOn_eq_singleton free]
  cases text <;> rfl

theorem splitOn_clean {separator : Char} {text part : List Char}
    (listed : part ∈ text.splitOn separator) : separator ∉ part := by
  induction text generalizing part with
  | nil =>
    rw [List.splitOn_nil,List.mem_singleton] at listed
    rw [listed]
    exact List.not_mem_nil
  | cons char rest ih =>
    rw [List.splitOn_cons_eq_if_modifyHead] at listed
    split at listed
    · rcases List.mem_cons.mp listed with rfl | later
      · exact List.not_mem_nil
      · exact ih later
    next other =>
      cases parts : rest.splitOn separator with
      | nil => exact absurd parts (List.splitOn_ne_nil _ _)
      | cons first others =>
        rw [parts] at listed ih
        rcases List.mem_cons.mp listed with rfl | later
        · intro member
          rcases List.mem_cons.mp member with rfl | inner
          · exact other (beq_self_eq_true _)
          · exact ih List.mem_cons_self inner
        · exact ih (.tail _ later)

theorem splitParts_clean {text part : List Char} (listed : part ∈ splitParts '=' text) : '=' ∉ part :=
  splitOn_clean ((List.rdropWhile_prefix List.isEmpty (text.splitOn '=')).subset listed)

theorem TagLine.key_eq_iff (line : TagLine) :
    String.ofList line.key = lowerName line.name ↔ line.Plain := by
  unfold lowerName TagLine.Plain
  rw [String.ofList_inj]
  constructor
  · intro same
    have length := congrArg List.length same
    unfold TagLine.key at length
    rw [List.length_append,List.length_append,List.length_map] at length
    have lead : line.lead = [] := List.eq_nil_of_length_eq_zero (by omega)
    have gap : line.gap = [] := List.eq_nil_of_length_eq_zero (by omega)
    unfold TagLine.key at same
    rw [lead,gap,List.nil_append,List.append_nil] at same
    exact ⟨lead,gap,same.symm⟩
  · rintro ⟨lead,gap,lower⟩
    unfold TagLine.key
    rw [lead,gap,List.nil_append,List.append_nil,lower]

/-- A key in lower case without white space in it is the name of its own line only. -/
theorem TagLine.Fine.key_lower (fine : line.Fine) {name : List Char} (identifier : IsIdentifier name)
    (same : String.ofList line.key = lowerName name) : lowerName line.name = lowerName name := by
  unfold lowerName at same ⊢
  rw [String.ofList_inj] at same ⊢
  have solid : ∀ char ∈ line.key, ' ' < char := by
    rw [same]
    intro char listed
    obtain ⟨letter,member,rfl⟩ := List.mem_map.mp listed
    exact (identifier_char identifier member).2.1
  have lead : line.lead = [] := List.eq_nil_iff_forall_not_mem.mpr fun char listed =>
    absurd (solid char (List.mem_append_left _ listed)) (Char.not_lt.mpr (fine.lead char listed).1)
  have gap : line.gap = [] := List.eq_nil_iff_forall_not_mem.mpr fun char listed =>
    absurd (solid char (List.mem_append_right _ (List.mem_append_right _ listed)))
      (Char.not_lt.mpr (fine.gap char listed).1)
  unfold TagLine.key at same
  rw [lead,gap,List.nil_append,List.append_nil] at same
  rw [same,List.map_map]
  exact List.map_congr_left fun char _ => Char.toLower_toLower_eq_toLower char

theorem setTag_other {row : TagRow} (fine : row.Fine) {name : List Char} (identifier : IsIdentifier name)
    (other : ∀ pair ∈ row.pair, lowerName pair.1 ≠ lowerName name) (tagMap : TagMap) :
    setTag tagMap row.text (lowerName name) = tagMap (lowerName name) := by
  cases row with
  | blank spaces =>
    have space : AllSpace spaces := fine
    exact congrFun (setTag_blank space tagMap) _
  | tag line =>
    have solid : line.Fine := fine
    have foreign : ¬ lowerName name = String.ofList line.key := fun same =>
      other _ rfl (solid.key_lower identifier same.symm)
    refine (congrFun (solid.setTag_eq tagMap) _).trans ?_
    cases splitParts '=' line.rest with
    | nil => rfl
    | cons value more => exact if_neg foreign

theorem foldl_other {rows : List TagRow} (fine : ∀ row ∈ rows, row.Fine) {name : List Char}
    (identifier : IsIdentifier name)
    (other : ∀ pair ∈ pairs rows, lowerName pair.1 ≠ lowerName name) (tagMap : TagMap) :
    (rows.map TagRow.text).foldl setTag tagMap (lowerName name) = tagMap (lowerName name) := by
  induction rows generalizing tagMap with
  | nil => rfl
  | cons row rest ih =>
    rw [List.map_cons,List.foldl_cons,ih (fun row listed => fine row (.tail _ listed)) fun pair listed =>
      other pair (List.mem_filterMap.mpr ?_)]
    · exact setTag_other (fine row List.mem_cons_self) identifier
        (fun pair listed => other pair (List.mem_filterMap.mpr ⟨row,List.mem_cons_self,listed⟩)) tagMap
    · obtain ⟨row,member,named⟩ := List.mem_filterMap.mp listed
      exact ⟨row,.tail _ member,named⟩

theorem setTag_congr {first second : TagMap} {key : String} (same : first key = second key)
    (text : List Char) : setTag first text key = setTag second text key := by
  unfold setTag
  rcases splitParts '=' text with _ | ⟨name,_ | ⟨value,more⟩⟩
  · exact same
  · exact same
  · dsimp only
    rw [same]

theorem foldl_own {rows : List TagRow} (fine : ∀ row ∈ rows, row.Fine)
    (distinct : ((pairs rows).map fun pair => lowerName pair.1).Nodup) (listed : .tag line ∈ rows)
    (tagMap : TagMap) : (rows.map TagRow.text).foldl setTag tagMap (lowerName line.name) =
      setTag tagMap line.text (lowerName line.name) := by
  obtain ⟨before,after,rfl⟩ := List.append_of_mem listed
  have identifier : IsIdentifier line.name :=
    have solid : line.Fine := fine _ listed
    solid.name
  have parts : pairs (before ++ .tag line::after) = pairs before ++ (line.name,line.value)::pairs after := by
    unfold pairs
    rw [List.filterMap_append]
    rfl
  rw [parts,List.map_append,List.map_cons,List.nodup_middle,List.nodup_cons,List.mem_append,not_or] at distinct
  obtain ⟨⟨early,late⟩,_⟩ := distinct
  rw [List.map_append,List.map_cons,List.foldl_append,List.foldl_cons,
    foldl_other (fun row member => fine row (List.mem_append_right _ (.tail _ member))) identifier
      fun pair member same => late (List.mem_map.mpr ⟨pair,member,same⟩)]
  exact setTag_congr (foldl_other (fun row member => fine row (List.mem_append_left _ member)) identifier
    (fun pair member same => early (List.mem_map.mpr ⟨pair,member,same⟩)) tagMap) _

def headerTags (platform : String) : TagMap := fun key => if key = "platform" then some platform else none

theorem headerTags_some {platform key text : String} :
    headerTags platform key = some text ↔ key = "platform" ∧ text = platform := by
  unfold headerTags
  split
  next named => exact ⟨fun same => ⟨named,(Option.some.inj same).symm⟩,fun both => by rw [both.2]⟩
  next other => exact iff_of_false nofun fun both => other both.1

theorem headerTags_empty {platform key : String} (solid : platform ≠ "") :
    (headerTags platform key = some "" ∨ headerTags platform key = none) ↔ key ≠ "platform" := by
  by_cases named : key = "platform"
  · have held : headerTags platform key = some platform := headerTags_some.mpr ⟨named,rfl⟩
    rw [held]
    refine iff_of_false ?_ (not_not.mpr named)
    rintro (same | nothing)
    · exact solid (Option.some.inj same)
    · cases nothing
  · exact iff_of_true (.inr (if_neg named)) named

theorem TagLine.rest_eq_nil (line : TagLine) :
    line.rest = [] ↔ line.after = [] ∧ line.value = [] ∧ line.trail = [] := by
  unfold TagLine.rest
  rw [List.append_eq_nil_iff,List.append_eq_nil_iff]

theorem TagLine.rest_eq_value (line : TagLine) :
    line.rest = line.value ↔ line.after = [] ∧ line.trail = [] := by
  unfold TagLine.rest
  constructor
  · intro same
    have length := congrArg List.length same
    rw [List.length_append,List.length_append] at length
    exact ⟨List.eq_nil_of_length_eq_zero (by omega),List.eq_nil_of_length_eq_zero (by omega)⟩
  · rintro ⟨after,trail⟩
    rw [after,trail,List.nil_append,List.append_nil]

theorem TagLine.Fine.setTag_own (fine : line.Fine) (platform : String) :
    setTag (headerTags platform) line.text (lowerName line.name) =
      match splitParts '=' line.rest with
      | [] => headerTags platform (lowerName line.name)
      | value::_ => if line.Plain then some (String.ofList value)
        else headerTags platform (lowerName line.name) := by
  refine (congrFun (fine.setTag_eq _) _).trans ?_
  cases splitParts '=' line.rest with
  | nil => rfl
  | cons value more => exact if_congr (eq_comm.trans line.key_eq_iff) rfl rfl

/-- With an equals sign in its value the line leaves another value, or none. -/
theorem TagLine.Fine.not_holds (fine : line.Fine) {platform : String} (free : '=' ∉ platform.toList)
    (equals : '=' ∈ line.value) (plain : line.Plain) :
    ¬ Holds (setTag (headerTags platform) line.text) (line.name,line.value) := by
  rintro (set | ⟨empty,_⟩)
  · have own := (fine.setTag_own platform).symm.trans set
    cases parts : splitParts '=' line.rest with
    | nil =>
      rw [parts] at own
      obtain ⟨_,same⟩ := headerTags_some.mp own
      rw [← same,String.toList_ofList] at free
      exact free equals
    | cons value more =>
      rw [parts] at own
      dsimp only at own
      rw [if_pos plain,Option.some.injEq,String.ofList_inj] at own
      have clean := splitParts_clean (parts ▸ List.mem_cons_self : value ∈ splitParts '=' line.rest)
      rw [own] at clean
      exact clean equals
  · have empty : line.value = [] := empty
    rw [empty] at equals
    cases equals

theorem TagLine.Fine.holds_iff (fine : line.Fine) {platform : String} (solid : platform ≠ "")
    (free : '=' ∉ platform.toList) :
    Holds (setTag (headerTags platform) line.text) (line.name,line.value) ↔ line.Kept platform := by
  by_cases plain : line.Plain
  · by_cases equals : '=' ∈ line.value
    · refine iff_of_false (fine.not_holds free equals plain) fun kept => ?_
      unfold TagLine.Kept at kept
      rw [if_neg (List.ne_nil_of_mem equals)] at kept
      exact (kept.1 plain).2.2 equals
    · have clean : '=' ∉ line.rest := by
        intro listed
        rcases List.mem_append.mp listed with after | listed
        · exact fine.after.free.1 after
        · exact (List.mem_append.mp listed).elim equals fine.trail.free.1
      have own := fine.setTag_own platform
      rw [splitParts_free clean] at own
      unfold Holds TagLine.Kept
      dsimp only
      by_cases blank : line.rest = []
      · obtain ⟨after,value,trail⟩ := line.rest_eq_nil.mp blank
        rw [if_pos blank] at own
        rw [own,if_pos value,value]
        simp only [true_and,after,trail,and_self,implies_true,and_true]
        exact headerTags_empty solid
      · rw [if_neg blank] at own
        dsimp only at own
        rw [if_pos plain] at own
        rw [own,Option.some.injEq,String.ofList_inj,line.rest_eq_value]
        by_cases value : line.value = []
        · rw [if_pos value]
          have more : ¬ (line.after = [] ∧ line.trail = []) := fun both =>
            blank (line.rest_eq_nil.mpr ⟨both.1,value,both.2⟩)
          exact iff_of_false (by simp [more]) fun kept => more (kept.2 plain)
        · rw [if_neg value]
          simp [value,plain,equals]
  · have own : setTag (headerTags platform) line.text (lowerName line.name) =
        headerTags platform (lowerName line.name) := by
      rw [fine.setTag_own platform]
      cases splitParts '=' line.rest with
      | nil => rfl
      | cons value more => exact if_neg plain
    unfold Holds TagLine.Kept
    dsimp only
    rw [own]
    by_cases value : line.value = []
    · rw [if_pos value,value]
      simp only [true_and,plain,false_implies,and_true]
      exact headerTags_empty solid
    · rw [if_neg value,headerTags_some]
      simp [value,plain]

end Lines

section Files
variable {versions : List (UInt8 × String)} {bytes : List UInt8} {platform : String}

theorem convertUtf_toByteArray (malformed : List UInt8 → String) (text : String) :
    convertUtf malformed (toByteArray text) = text := by
  have encoded : (toByteArray text).toByteArray = text.toByteArray := by
    have same : (String.ofList text.toList).toByteArray = text.toList.utf8Encode :=
      String.toByteArray_ofList
    rw [String.ofList_toList] at same
    exact same.symm
  unfold convertUtf String.fromUTF8?
  rw [encoded,dif_pos text.isValidUTF8]
  rfl

theorem TagRow.Fine.ascii {row : TagRow} (fine : row.Fine) {char : Char} (listed : char ∈ row.text) :
    char.utf8Size = 1 := by
  cases row with
  | blank spaces =>
    have space : AllSpace spaces := fine
    exact (space_char (space char listed).1).2
  | tag line =>
    have solid : line.Fine := fine
    have parts : char ∈ line.key ++ '=' :: line.rest := listed
    simp only [TagLine.key,TagLine.rest,List.mem_append,List.mem_cons] at parts
    rcases parts with (lead | name | gap) | rfl | after | value | trail
    · exact (space_char (solid.lead char lead).1).2
    · exact (identifier_char solid.name name).2.2.2
    · exact (space_char (solid.gap char gap).1).2
    · rfl
    · exact (space_char (solid.after char after).1).2
    · exact (solid.value.ascii char value).1
    · exact (space_char (solid.trail char trail).1).2

theorem TagBlock.isAscii (block : TagBlock) : IsAscii (String.ofList (blockText block.rows)) := by
  unfold IsAscii
  rw [String.toList_ofList]
  have fine := block.fine
  generalize block.rows = rows at fine
  induction rows with
  | nil => nofun
  | cons row rest ih =>
    intro char listed
    rcases eq_or_ne rest [] with rfl | more
    · rw [blockText_single] at listed
      exact (fine row List.mem_cons_self).ascii listed
    · rw [blockText_cons row more] at listed
      rcases List.mem_append.mp listed with here | later
      · exact (fine row List.mem_cons_self).ascii here
      · rcases List.mem_cons.mp later with rfl | inner
        · rfl
        · exact ih (fun other member => fine other (.tail _ member)) char inner

/-- The tags of a block, whichever way its text is decoded. -/
theorem readTags_block (malformed : List UInt8 → String) (tagMap : TagMap) (block : TagBlock) :
    readTags (convertUtf malformed) tagMap (toByteArray (String.ofList (blockText block.rows))) =
      (block.trimmed.map TagRow.text).foldl setTag tagMap := by
  unfold readTags
  rw [(convert_toByteArray_iff _).mpr block.isAscii,convertUtf_toByteArray,String.toList_ofList,
    block.trimTags_text]
  dsimp only
  rw [ite_self]
  exact foldl_lines block.trimmed_fine tagMap

theorem fileInfoSetup_accepted (message : Int → Option String) (convertUtf : List UInt8 → String)
    (accepted : Accepted versions bytes) (listed : versions.lookup (bytes.getD 3 0) = some platform)
    (small : bytes.length < 2147483648) : fileInfoSetup versions message convertUtf bytes =
      .ok (none,readTags convertUtf (headerTags platform) (bytes.drop (tagOffset bytes + 5))) := by
  obtain ⟨⟨long,psf,_⟩,tagged⟩ := accepted
  have inside : tagOffset bytes < bytes.length :=
    Nat.lt_of_not_le fun beyond => not_tagged_beyond beyond tagged
  have offset : scannedOffset bytes = tagOffset bytes := by
    unfold scannedOffset int32
    omega
  have read := readTagData_eq message long small
  rw [offset,if_neg (by omega),Int.toNat_natCast,if_pos tagged] at read
  unfold fileInfoSetup
  rw [if_neg (Nat.not_lt_of_le long),get_header long]
  dsimp only
  rw [header_version,if_pos psf,listed]
  dsimp only
  rw [read]
  rfl

theorem platform_fine (scanner : versions = psfVersions ∨ versions = usfVersions)
    (listed : versions.lookup (bytes.getD 3 0) = some platform) :
    platform ≠ "" ∧ '=' ∉ platform.toList := by
  have known : ∀ entry ∈ usfVersions, entry.2 ≠ "" ∧ '=' ∉ entry.2.toList := by decide
  obtain ⟨before,after,same,_⟩ := List.lookup_eq_some_iff.mp listed
  have member : (bytes.getD 3 0,platform) ∈ versions := by
    rw [same]
    exact List.mem_append_right _ List.mem_cons_self
  rcases scanner with rfl | rfl
  · exact known _ (List.mem_append_left _ member)
  · exact known _ member

/-- A file with a tag block gets its tags right exactly if every line of the trimmed block is kept. -/
theorem tag_block_iff (scanner : versions = psfVersions ∨ versions = usfVersions)
    (message : Int → Option String) (malformed : List UInt8 → String)
    (accepted : Accepted versions bytes) (listed : versions.lookup (bytes.getD 3 0) = some platform)
    (small : bytes.length < 2147483648) (block : TagBlock)
    (written : bytes.drop (tagOffset bytes + 5) = toByteArray (String.ofList (blockText block.rows))) :
    SetsTags versions message malformed bytes block ↔ ∀ row ∈ block.trimmed, row.Kept platform := by
  obtain ⟨solid,free⟩ := platform_fine scanner listed
  have distinct : ((pairs block.trimmed).map fun pair => lowerName pair.1).Nodup := by
    rw [block.trimmed_pairs]
    exact block.distinct
  have outcome := fileInfoSetup_accepted message (convertUtf malformed) accepted listed small
  rw [written,readTags_block] at outcome
  have each (line : TagLine) (member : .tag line ∈ block.trimmed) :
      Holds ((block.trimmed.map TagRow.text).foldl setTag (headerTags platform)) (line.name,line.value) ↔
        line.Kept platform := by
    have own := foldl_own block.trimmed_fine distinct member (headerTags platform)
    unfold Holds
    dsimp only
    rw [own]
    exact (block.trimmed_fine _ member : line.Fine).holds_iff solid free
  unfold SetsTags
  rw [outcome,← block.trimmed_pairs]
  constructor
  · rintro ⟨tagMap,same,holds⟩ row member
    cases same
    cases row with
    | blank spaces => trivial
    | tag line => exact (each line member).mp (holds _ (List.mem_filterMap.mpr ⟨_,member,rfl⟩))
  · intro kept
    refine ⟨_,rfl,fun pair listed => ?_⟩
    obtain ⟨row,member,named⟩ := List.mem_filterMap.mp listed
    cases row with
    | blank spaces => cases named
    | tag line =>
      cases named
      exact (each line member).mpr (kept _ member)

end Files

def fileWith (block : TagBlock) : List UInt8 :=
  taggedFile ++ toByteArray (String.ofList (blockText block.rows))

theorem fileWith_offset (block : TagBlock) : tagOffset (fileWith block) = 16 := rfl

theorem fileWith_rest (block : TagBlock) : (fileWith block).drop (tagOffset (fileWith block) + 5) =
    toByteArray (String.ofList (blockText block.rows)) := by
  have length : taggedFile.length = 16 + 5 := rfl
  rw [fileWith_offset]
  exact List.drop_left' length

theorem fileWith_accepted (block : TagBlock) : Accepted psfVersions (fileWith block) := by
  have long : 16 ≤ (fileWith block).length := by
    unfold fileWith
    rw [List.length_append]
    exact Nat.le_trans (by decide) (Nat.le_add_right taggedFile.length _)
  exact ⟨⟨long,rfl,rfl⟩,rfl⟩

theorem fileWith_small (block : TagBlock) (small : (blockText block.rows).length < 2147483627) :
    (fileWith block).length < 2147483648 := by
  have encoded := congrArg (fun text : String => text.toList.length)
    ((convert_toByteArray_iff _).mpr block.isAscii)
  rw [convert,String.toList_ofList,String.toList_ofList,List.length_map] at encoded
  have header : taggedFile.length = 21 := rfl
  unfold fileWith
  rw [List.length_append,encoded]
  omega

def plainBlock : TagBlock :=
  ⟨[.tag ⟨[' '],['g','a','m','e'],[],[],['M','a','n','a'],[]⟩,.blank [' '],
    .tag ⟨[],['y','e','a','r'],[],[],['1','9','9','9'],[' ']⟩],by decide,by decide⟩

theorem tag_block_iff_plain :
    SetsTags psfVersions (fun _ => none) (fun _ => "") (fileWith plainBlock) plainBlock :=
  (tag_block_iff (.inl rfl) _ _ (fileWith_accepted _) rfl (fileWith_small _ (by decide)) plainBlock
    (fileWith_rest _)).mpr (by decide)

/-- A name with a capital letter, white space around an equals sign, and such a sign in a value. -/
def mixedBlock : TagBlock :=
  ⟨[.tag ⟨[],['G','a','m','e'],[],[],['M','a','n','a'],[]⟩,
    .tag ⟨[],['y','e','a','r'],[' '],[' '],['1','9','9','9'],[]⟩,
    .tag ⟨[],['t','i','t','l','e'],[],[],['a','=','b'],[]⟩],by decide,by decide⟩

/-- No line of the block is read right: two tags are missing, and the last is cut. -/
theorem tags_lost : ¬ SetsTags psfVersions (fun _ => none) (fun _ => "") (fileWith mixedBlock) mixedBlock ∧
    ∃ tagMap, fileInfoSetup psfVersions (fun _ => none) (convertUtf fun _ => "") (fileWith mixedBlock) =
      .ok (none,tagMap) ∧ tagMap "game" = none ∧ tagMap "year" = none ∧ tagMap "title" = some "a" := by
  have read : fileInfoSetup psfVersions (fun _ => none) (convertUtf fun _ => "") (fileWith mixedBlock) =
      .ok (none,(mixedBlock.trimmed.map TagRow.text).foldl setTag (headerTags "Sony Playstation")) := by
    rw [fileInfoSetup_accepted _ _ (fileWith_accepted _) rfl (fileWith_small _ (by decide)),
      fileWith_rest,readTags_block]
  refine ⟨?_,_,read,by decide,by decide,by decide⟩
  rintro ⟨tagMap,outcome,holds⟩
  rw [read] at outcome
  cases outcome
  exact absurd (holds (['G','a','m','e'],['M','a','n','a']) (by decide)) (by decide)

end Chipbox.Library
