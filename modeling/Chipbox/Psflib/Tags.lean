import Mathlib.Data.List.Basic
import Mathlib.Data.List.Lex
import Mathlib.Tactic.Common

/-! The tags of a PSF file as `psflib.c` reads them. The list is in the order of the source, the
tag added last first; a text is a C string without its final zero. -/
namespace Chipbox.Psflib

abbrev Text := List UInt8

structure Tag where
  name : Text
  value : Text
deriving DecidableEq

def lower (c : UInt8) : UInt8 := if 65 ≤ c ∧ c ≤ 90 then c + 32 else c

/-- `strcasecmp` finds no difference. -/
def SameName (name other : Text) : Prop := name.map lower = other.map lower

instance (name other : Text) : Decidable (SameName name other) := inferInstanceAs (Decidable (_ = _))

def text (s : String) : Text := s.toList.map fun c => UInt8.ofNat c.toNat

def fieldsToSplit : List Text :=
  [text "ARTIST",text "ALBUM ARTIST",text "PRODUCER",text "COMPOSER",text "PERFORMER",text "GENRE"]

def checkSplitValue (name : Text) : Bool := fieldsToSplit.any fun field => decide (SameName name field)

def findTag (tags : List Tag) (name : Text) : Option Tag :=
  if name = [] then none else tags.find? fun tag => decide (SameName tag.name name)

def appendLine (name value : Text) : List Tag → List Tag
  | [] => []
  | tag::rest =>
    if SameName tag.name name then { tag with value := tag.value ++ 10 :: value }::rest
    else tag::appendLine name value rest

def addTagMulti (tags : List Tag) (name : Text) : List Text → List Tag
  | [] => tags
  | value::values =>
    let footer :=
      if (findTag tags name).isSome then appendLine name value tags else ⟨name,value⟩::tags
    values.foldl (fun footer value => ⟨name,value⟩::footer) footer

/-- The parts of a value between the separators `"; "`, without an empty last one. -/
def splitValues : Text → Text → List Text
  | current,[] => if current = [] then [] else [current]
  | current,59::32::rest => current::splitValues [] rest
  | current,c::rest => splitValues (current ++ [c]) rest

def addTag (tags : List Tag) (name value : Text) : List Tag :=
  if name = [] ∨ value = [] then tags
  else if checkSplitValue name then addTagMulti tags name (splitValues [] value)
  else addTagMulti tags name [value]

def isSpace (c : UInt8) : Bool := 0 < c && c ≤ 32

/-- Splits a line at its first equals sign. The loop that should trim the end of the value tests
its first character, and trims nothing. -/
def processTagLine (tags : List Tag) (line : Text) : List Tag :=
  let name := line.takeWhile (· ≠ 61)
  match line.dropWhile (· ≠ 61) with
  | [] => tags
  | _::value =>
    let name := name.dropWhile isSpace
    let value := value.dropWhile isSpace
    if name = [] then tags
    else
      let name := (name.reverse.dropWhile isSpace).reverse
      if value = [] then tags
      else if name.head? = some 95 ∧ (findTag tags name).isSome then tags
      else addTag tags name value

/-- The lines of a buffer, of which empty ones hold no tag. -/
def tagLines : Text → Text → List Text
  | current,[] => [current]
  | current,c::rest =>
    if c = 10 ∨ c = 13 then current::tagLines [] rest else tagLines (current ++ [c]) rest

def processTags (buffer : Text) : List Tag :=
  (tagLines [] (buffer.takeWhile (· ≠ 0))).foldl processTagLine []

/-- The name of a library after the first: `_lib2`, `_lib3` and so on. -/
def libName (n : Nat) : Text := text "_lib" ++ (Nat.toDigits 10 n).map fun c => UInt8.ofNat c.toNat

end Chipbox.Psflib
