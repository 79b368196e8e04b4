import Mathlib.Data.List.TakeWhile
import Chipbox.Psflib.Tags

/-! Tags written as lines `name=value` and read back. A value of several lines is written as as
many lines of its name. -/
namespace Chipbox.Psflib

def OneLine (line : Text) : Prop := ∀ c ∈ line, c ≠ 10 ∧ c ≠ 13 ∧ c ≠ 0

instance (line : Text) : Decidable (OneLine line) := inferInstanceAs (Decidable (∀ c ∈ line, _))

/-- A name and the lines of its value that survive the writing: the name is trimmed and has no
equals sign, the lines do not start with space, a name with an underscore has one line, and the
values of a field that is split have no separator. -/
structure Entry where
  name : Text
  first : Text
  rest : List Text
  oneName : OneLine name
  noEquals : 61 ∉ name
  trimmedFront : ∀ c, name.head? = some c → isSpace c = false
  trimmedBack : ∀ c, name.getLast? = some c → isSpace c = false
  named : name ≠ []
  oneLine : ∀ line ∈ first::rest, OneLine line
  filled : ∀ line ∈ first::rest, line ≠ []
  front : ∀ line ∈ first::rest, ∀ c, line.head? = some c → isSpace c = false
  single : name.head? = some 95 → rest = []
  whole : checkSplitValue name = true → ∀ line ∈ first::rest, ¬[59,32] <:+: line

def Entry.value (entry : Entry) : Text := entry.rest.foldl (fun value line => value ++ 10::line) entry.first

def Entry.tag (entry : Entry) : Tag := ⟨entry.name,entry.value⟩

def Entry.lines (entry : Entry) : List Text :=
  (entry.first::entry.rest).map fun line => entry.name ++ 61::line

def render (lines : List Text) : Text := lines.flatMap fun line => line ++ [10]

theorem tagLines_line {current line : Text} (rest : Text) (oneLine : OneLine line) :
    tagLines current (line ++ 10::rest) = (current ++ line)::tagLines [] rest := by
  induction line generalizing current with
  | nil => simp [tagLines]
  | cons c line ih =>
    obtain ⟨feed,carriage,_⟩ := oneLine c List.mem_cons_self
    rw [List.cons_append,tagLines,if_neg (by simp [feed,carriage]),
      ih fun other member => oneLine other (.tail _ member)]
    simp

/-- The lines of a buffer are the ones that were written to it, and an empty one. -/
theorem tagLines_render {lines : List Text} (oneLine : ∀ line ∈ lines, OneLine line) :
    tagLines [] (render lines) = lines ++ [[]] := by
  induction lines with
  | nil => rfl
  | cons line rest ih =>
    have joined : render (line::rest) = line ++ 10::render rest := by simp [render]
    rw [joined,tagLines_line _ (oneLine line List.mem_cons_self),List.nil_append,List.cons_append,
      ih fun other member => oneLine other (.tail _ member)]

theorem render_text {lines : List Text} (oneLine : ∀ line ∈ lines, OneLine line) :
    (render lines).takeWhile (· ≠ 0) = render lines := by
  rw [List.takeWhile_eq_self_iff]
  intro c member
  obtain ⟨line,listed,here⟩ := List.mem_flatMap.mp member
  rcases List.mem_append.mp here with inside | last
  · simpa using (oneLine line listed c inside).2.2
  · have : c = 10 := by simpa using last
    simp [this]

theorem splitValues_whole {current line : Text} (filled : line ≠ []) (whole : ¬[59,32] <:+: line) :
    splitValues current line = [current ++ line] := by
  induction line generalizing current with
  | nil => exact absurd rfl filled
  | cons c rest ih =>
    have separate : ∀ more, c::rest ≠ 59::32::more := by
      rintro more same
      exact whole (same ▸ ⟨[],more,rfl⟩)
    rw [splitValues]
    · by_cases last : rest = []
      · subst last
        simp [splitValues]
      · rw [ih last fun inside => whole (inside.trans (List.suffix_cons c rest).isInfix)]
        simp
    · rintro more rfl rfl
      exact separate more rfl

theorem dropWhile_front {line : Text} (front : ∀ c, line.head? = some c → isSpace c = false) :
    line.dropWhile isSpace = line := by
  cases line with
  | nil => rfl
  | cons c line => simp [front c rfl]

theorem takeWhile_name {name : Text} (value : Text) (noEquals : 61 ∉ name) :
    (name ++ 61::value).takeWhile (· ≠ 61) = name ∧
      (name ++ 61::value).dropWhile (· ≠ 61) = 61::value := by
  have kept : ∀ c ∈ name, (decide (c ≠ 61)) = true := by
    intro c member
    simpa using fun same : c = 61 => noEquals (same ▸ member)
  constructor
  · rw [List.takeWhile_append_of_pos kept]
    simp
  · rw [List.dropWhile_append_of_pos kept]
    simp

/-- A line that was written for an entry adds its tag, unless the name starts with an underscore
and is there. -/
theorem processTagLine_entry (entry : Entry) (tags : List Tag) {line : Text}
    (listed : line ∈ entry.first::entry.rest) :
    processTagLine tags (entry.name ++ 61::line) =
      if entry.name.head? = some 95 ∧ (findTag tags entry.name).isSome then tags
      else addTagMulti tags entry.name [line] := by
  obtain ⟨before,after⟩ := takeWhile_name line entry.noEquals
  have back : (entry.name.reverse.dropWhile isSpace).reverse = entry.name := by
    rw [dropWhile_front (by simpa using entry.trimmedBack),List.reverse_reverse]
  have values : addTag tags entry.name line = addTagMulti tags entry.name [line] := by
    rw [addTag,if_neg (by simp [entry.named,entry.filled line listed])]
    by_cases split : checkSplitValue entry.name = true
    · rw [if_pos split,splitValues_whole (entry.filled line listed) (entry.whole split line listed),
        List.nil_append]
    · rw [if_neg split]
  unfold processTagLine
  rw [before,after]
  simp only [dropWhile_front entry.trimmedFront,dropWhile_front (entry.front line listed),back,
    entry.named,entry.filled line listed,if_false,values]

theorem findTag_none {tags : List Tag} {name : Text} (fresh : ∀ tag ∈ tags, ¬SameName tag.name name) :
    findTag tags name = none := by
  rw [findTag]
  split
  · rfl
  · simpa using fresh

theorem processTagLine_lines (entry : Entry) {tags : List Tag}
    (fresh : ∀ tag ∈ tags, ¬SameName tag.name entry.name) :
    entry.lines.foldl processTagLine tags = entry.tag::tags := by
  have first : processTagLine tags (entry.name ++ 61::entry.first) = ⟨entry.name,entry.first⟩::tags := by
    rw [processTagLine_entry entry tags List.mem_cons_self,findTag_none fresh,if_neg (by simp)]
    simp [addTagMulti,findTag_none fresh]
  have more : ∀ (lines : List Text) (value : Text), (∀ line ∈ lines, line ∈ entry.rest) →
      (lines.map fun line => entry.name ++ 61::line).foldl processTagLine (⟨entry.name,value⟩::tags) =
        ⟨entry.name,lines.foldl (fun value line => value ++ 10::line) value⟩::tags := by
    intro lines
    induction lines with
    | nil => intro value _; rfl
    | cons line lines ih =>
      intro value listed
      have here := listed line List.mem_cons_self
      have found : findTag (⟨entry.name,value⟩::tags) entry.name = some ⟨entry.name,value⟩ := by
        simp [findTag,entry.named,SameName]
      have plain : entry.name.head? ≠ some 95 := by
        intro underscore
        rw [entry.single underscore] at here
        exact absurd here List.not_mem_nil
      have step : processTagLine (⟨entry.name,value⟩::tags) (entry.name ++ 61::line) =
          ⟨entry.name,value ++ 10::line⟩::tags := by
        rw [processTagLine_entry entry _ (.tail _ here),if_neg fun both => plain both.1]
        simp [addTagMulti,found,appendLine,SameName]
      rw [List.map_cons,List.foldl_cons,step,ih _ fun other member => listed other (.tail _ member),
        List.foldl_cons]
  rw [Entry.lines,List.map_cons,List.foldl_cons,first,more entry.rest entry.first fun _ => id]
  rfl

theorem foldl_entries {entries : List Entry} {tags : List Tag}
    (distinct : entries.Pairwise fun entry other => ¬SameName entry.name other.name)
    (fresh : ∀ entry ∈ entries, ∀ tag ∈ tags, ¬SameName tag.name entry.name) :
    (entries.flatMap Entry.lines).foldl processTagLine tags = (entries.map Entry.tag).reverse ++ tags := by
  induction entries generalizing tags with
  | nil => rfl
  | cons entry rest ih =>
    obtain ⟨apart,distinct⟩ := List.pairwise_cons.mp distinct
    rw [List.flatMap_cons,List.foldl_append,processTagLine_lines entry (fresh entry List.mem_cons_self),
      ih distinct]
    · simp
    · intro other member tag listed
      rcases List.mem_cons.mp listed with rfl | listed
      · exact apart other member
      · exact fresh other (.tail _ member) tag listed

theorem findTag_member {tags : List Tag} {tag : Tag} {name : Text}
    (distinct : tags.Pairwise fun tag other => ¬SameName tag.name other.name) (member : tag ∈ tags)
    (named : tag.name ≠ []) (same : SameName tag.name name) : findTag tags name = some tag := by
  have asked : name ≠ [] := by
    rintro rfl
    exact named (List.map_eq_nil_iff.mp same)
  rw [findTag,if_neg asked]
  induction tags with
  | nil => exact absurd member List.not_mem_nil
  | cons head rest ih =>
    obtain ⟨apart,distinct⟩ := List.pairwise_cons.mp distinct
    rcases List.mem_cons.mp member with rfl | inside
    · exact List.find?_cons_of_pos (by simpa using same)
    · have other : ¬SameName head.name name := fun here =>
        apart tag inside (here.trans same.symm)
      rw [List.find?_cons_of_neg (by simpa using other)]
      exact ih distinct inside

theorem Entry.oneLine_lines (entry : Entry) : ∀ line ∈ entry.lines, OneLine line := by
  intro line listed c member
  obtain ⟨value,here,rfl⟩ := List.mem_map.mp listed
  rcases List.mem_append.mp member with inside | inside
  · exact entry.oneName c inside
  · rcases List.mem_cons.mp inside with rfl | inside
    · decide
    · exact entry.oneLine value here c inside

/-- Tags written line by line are read back as they were, and each is found under its name in any
case. -/
theorem processTags_render {entries : List Entry}
    (distinct : entries.Pairwise fun entry other => ¬SameName entry.name other.name) :
    processTags (render (entries.flatMap Entry.lines)) = (entries.map Entry.tag).reverse ∧
      ∀ entry ∈ entries, ∀ name, SameName entry.name name →
        findTag (processTags (render (entries.flatMap Entry.lines))) name = some entry.tag := by
  have oneLine : ∀ line ∈ entries.flatMap Entry.lines, OneLine line := by
    intro line member
    obtain ⟨entry,_,listed⟩ := List.mem_flatMap.mp member
    exact entry.oneLine_lines line listed
  have parsed : processTags (render (entries.flatMap Entry.lines)) = (entries.map Entry.tag).reverse := by
    rw [processTags,render_text oneLine,tagLines_render oneLine,List.foldl_append,foldl_entries distinct
      (by simp)]
    simp [processTagLine]
  refine ⟨parsed,?_⟩
  intro entry member name same
  rw [parsed]
  refine findTag_member ?_ (by simpa using ⟨entry,member,rfl⟩) entry.named same
  rw [List.pairwise_reverse,List.pairwise_map]
  exact distinct.imp fun apart same => apart same.symm

def libEntry : Entry where
  name := text "_lib"
  first := text "a.psflib"
  rest := []
  oneName := by decide +kernel
  noEquals := by decide +kernel
  trimmedFront := by decide +kernel
  trimmedBack := by decide +kernel
  named := by decide +kernel
  oneLine := by decide +kernel
  filled := by decide +kernel
  front := by decide +kernel
  single := fun _ => rfl
  whole := by decide +kernel

def commentEntry : Entry where
  name := text "comment"
  first := text "one"
  rest := [text "two"]
  oneName := by decide +kernel
  noEquals := by decide +kernel
  trimmedFront := by decide +kernel
  trimmedBack := by decide +kernel
  named := by decide +kernel
  oneLine := by decide +kernel
  filled := by decide +kernel
  front := by decide +kernel
  single := by decide +kernel
  whole := by decide +kernel

theorem processTags_render_comment :
    processTags (render ([libEntry,commentEntry].flatMap Entry.lines)) = [commentEntry.tag,libEntry.tag] ∧
      findTag (processTags (render ([libEntry,commentEntry].flatMap Entry.lines))) (text "COMMENT") =
        some ⟨text "comment",text "one\ntwo"⟩ := by
  have distinct : [libEntry,commentEntry].Pairwise fun entry other => ¬SameName entry.name other.name := by
    decide +kernel
  obtain ⟨parsed,found⟩ := processTags_render distinct
  exact ⟨parsed,found commentEntry (by simp) (text "COMMENT") (by decide +kernel)⟩

end Chipbox.Psflib
