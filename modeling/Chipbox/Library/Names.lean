import Mathlib.Data.List.Basic

/-! The names in a track's free-text artist credit. -/
namespace Chipbox.Library

/-- Kotlin's `Char.isWhitespace`. -/
def isWhitespace (char : Char) : Bool :=
  let code := char.toNat
  (0x09 ≤ code && code ≤ 0x0D) || (0x1C ≤ code && code ≤ 0x20) || code = 0xA0 || code = 0x1680 ||
    (0x2000 ≤ code && code ≤ 0x200A) || code = 0x2028 || code = 0x2029 || code = 0x202F ||
    code = 0x205F || code = 0x3000

def trim (text : List Char) : List Char :=
  ((text.dropWhile isWhitespace).reverse.dropWhile isWhitespace).reverse

def delimitersArtists : List String := [", &",","," or "," and ","&"]

def delimiterAt (delimiters : List (List Char)) (text : List Char) : Option (List Char) :=
  delimiters.find? (fun delimiter => delimiter.isPrefixOf text)

/-- Kotlin's `split` with several delimiters. `current` is the piece read so far, backwards,
and `skip` counts the characters left of a delimiter just found. -/
def splitFrom (delimiters : List (List Char)) : List Char → Nat → List Char → List (List Char)
  | current,_,[] => [current.reverse]
  | current,skip+1,_::rest => splitFrom delimiters current skip rest
  | current,0,char::rest =>
    match delimiterAt delimiters (char::rest) with
    | some delimiter => current.reverse::splitFrom delimiters [] (delimiter.length - 1) rest
    | none => splitFrom delimiters (char::current) 0 rest

/-- The names that `addTrack` and `updateArtists` read from an artist text. -/
def artistNames (artistText : String) : List String :=
  (splitFrom (delimitersArtists.map String.toList) [] 0 artistText.toList).map
    (fun piece => String.ofList (trim piece))

example : artistNames "Koji Kondo, Soyo Oka and Koji Kondo" =
    ["Koji Kondo","Soyo Oka","Koji Kondo"] := by decide

end Chipbox.Library
