import Chipbox.Library.Storage

/-! The text of the tags on its way from a PSF or USF scanner to the track. The scanner encodes
it in UTF-8 and the reader decodes the bytes as ISO-8859-1. -/
namespace Chipbox.Library

/-- `String.toByteArray`, in UTF-8. -/
def toByteArray (text : String) : List UInt8 := text.toList.flatMap String.utf8EncodeChar

/-- `ByteArray.convert`: each byte is the character of its number. -/
def convert (bytes : List UInt8) : String := String.ofList (bytes.map fun byte => Char.ofNat byte.toNat)

abbrev TagMap := String → Option String

def getFileTitle (tagMap : TagMap) : Option (List UInt8) := (tagMap "title").map toByteArray

def getFileGameTitle (tagMap : TagMap) : Option (List UInt8) := (tagMap "game").map toByteArray

def getFilePlatform (tagMap : TagMap) : Option (List UInt8) := (tagMap "platform").map toByteArray

def getFileArtist (tagMap : TagMap) : Option (List UInt8) := (tagMap "artist").map toByteArray

/-- What `getTrack` reads from a scanner that holds the tags, its text converted. -/
def replyOf (tagMap : TagMap) (fileTrackLength : Int) : ScannerReply where
  filePlatform := (getFilePlatform tagMap).map convert
  fileArtist := (getFileArtist tagMap).map convert
  fileTitle := (getFileTitle tagMap).map convert
  fileGameTitle := (getFileGameTitle tagMap).map convert
  fileTrackLength := fileTrackLength
  fileIntroLength := 0
  fileLoopLength := 0

inductive TextTag
  | title | game | artist
  deriving DecidableEq, Repr

namespace TextTag

def key : TextTag → String
  | .title => "title"
  | .game => "game"
  | .artist => "artist"

def textIn (track : Track) : TextTag → Option String
  | .title => track.title
  | .game => track.gameTitle
  | .artist => track.artistText

end TextTag

def isBlank (text : String) : Bool := text.toList.all isWhitespace

def IsAscii (text : String) : Prop := ∀ char ∈ text.toList, char.utf8Size = 1

instance (text : String) : Decidable (IsAscii text) := List.decidableBAll _ _

theorem decode_encode_char {char : Char} (ascii : char.utf8Size = 1) :
    (String.utf8EncodeChar char).map (fun byte => Char.ofNat byte.toNat) = [char] := by
  have small : char.val ≤ 0x7f := Char.utf8Size_eq_one_iff.mp ascii
  rw [String.utf8EncodeChar_eq_singleton ascii,List.map_singleton]
  congr 1
  have value : char.val.toUInt8.toNat = char.toNat := by
    rw [UInt32.toNat_toUInt8]
    apply Nat.mod_eq_of_lt
    have bound : char.val.toNat ≤ 127 := small
    omega
  rw [value,Char.ofNat_toNat]

theorem toByteArray_length (text : List Char) :
    text.length ≤ (text.flatMap String.utf8EncodeChar).length ∧
      ((text.flatMap String.utf8EncodeChar).length = text.length → ∀ char ∈ text, char.utf8Size = 1) := by
  induction text with
  | nil => exact ⟨Nat.le_refl _,nofun⟩
  | cons char rest ih =>
    obtain ⟨longer,same⟩ := ih
    have positive := Char.utf8Size_pos char
    rw [List.flatMap_cons,List.length_append,String.length_utf8EncodeChar,List.length_cons]
    refine ⟨by omega,fun equal other listed => ?_⟩
    rcases List.mem_cons.mp listed with rfl | later
    · omega
    · exact same (by omega) other later

theorem convert_toByteArray_iff (text : String) : convert (toByteArray text) = text ↔ IsAscii text := by
  constructor
  · intro same
    apply (toByteArray_length text.toList).2
    have length := congrArg (fun other => other.toList.length) same
    rwa [convert,String.toList_ofList,List.length_map] at length
  · intro ascii
    apply String.toList_inj.mp
    rw [convert,String.toList_ofList,toByteArray]
    unfold IsAscii at ascii
    generalize text.toList = chars at ascii ⊢
    induction chars with
    | nil => rfl
    | cons char rest ih =>
      rw [List.flatMap_cons,List.map_append,decode_encode_char (ascii char List.mem_cons_self),
        ih fun other listed => ascii other (.tail _ listed)]
      rfl

theorem textIn_getTrack {backendId trackNumber fileTrackLength : Int} {tagMap : TagMap} {path text : String}
    {track : Track} (read : getTrack backendId (replyOf tagMap fileTrackLength) path trackNumber = some track)
    (tag : TextTag) (stored : tagMap tag.key = some text) : tag.textIn track =
      some (if tag = .artist ∧ isBlank (convert (toByteArray text)) then artistUnknown
        else convert (toByteArray text)) := by
  unfold getTrack at read
  obtain ⟨platform,_,rfl⟩ := Option.map_eq_some_iff.mp read
  cases tag with
  | title =>
    have found : tagMap "title" = some text := stored
    simp [TextTag.textIn,replyOf,getFileTitle,found]
  | game =>
    have found : tagMap "game" = some text := stored
    simp [TextTag.textIn,replyOf,getFileGameTitle,found]
  | artist =>
    have found : tagMap "artist" = some text := stored
    simp [TextTag.textIn,replyOf,getFileArtist,found,isBlank]

/-- A text that is not blank is carried as it was exactly when it comes back from its bytes. -/
theorem replaced_iff (tag : TextTag) {text : String} (solid : tag = .artist → isBlank text = false) :
    (if tag = .artist ∧ isBlank (convert (toByteArray text)) then artistUnknown
      else convert (toByteArray text)) = text ↔ convert (toByteArray text) = text := by
  by_cases same : convert (toByteArray text) = text
  · rw [same,if_neg]
    rintro ⟨artist,blank⟩
    rw [solid artist] at blank
    cases blank
  · split
    · constructor
      · rintro rfl
        exact absurd ((convert_toByteArray_iff artistUnknown).mpr (by decide)) same
      · intro back
        exact absurd back same
    · exact Iff.rfl

/-- A track read from a file with the tags carries a text exactly when it is ASCII. -/
theorem tag_text_survives_iff {readers : Readers} {path : String} {trackNumber fileTrackLength : Int}
    {tagMap : TagMap} {info : FileInfo} {track : Track} (found : readers path = some info)
    (scanned : info.reply 0 = replyOf tagMap fileTrackLength)
    (read : readSingleTrackFile readers path trackNumber = some track) (tag : TextTag) (text : String)
    (stored : tagMap tag.key = some text) (solid : tag = .artist → isBlank text = false) :
    tag.textIn track = some text ↔ IsAscii text := by
  unfold readSingleTrackFile at read
  obtain ⟨backendId,_,read⟩ := Option.bind_eq_some_iff.mp read
  rw [found,Option.bind_some,scanned] at read
  obtain ⟨made,given,rfl⟩ := Option.map_eq_some_iff.mp read
  have numbered : tag.textIn {made with trackNumber := some trackNumber} = tag.textIn made := by
    cases tag <;> rfl
  rw [numbered,textIn_getTrack given tag stored,Option.some.injEq,replaced_iff tag solid,
    convert_toByteArray_iff]

def titled (title : String) : TagMap := fun key =>
  if key = "title" then some title else if key = "platform" then some "Sony Playstation" else none

def titledReaders (title : String) : Readers := fun _ => some ⟨1,fun _ => replyOf (titled title) 0⟩

theorem tag_text_survives_iff_plain : ∃ track,
    readSingleTrackFile (titledReaders "Bloody Tears") "/storage/a.psf" 1 = some track ∧
      track.title = some "Bloody Tears" := by
  obtain ⟨track,read⟩ : ∃ track,
    readSingleTrackFile (titledReaders "Bloody Tears") "/storage/a.psf" 1 = some track := ⟨_,rfl⟩
  have survives := @tag_text_survives_iff _ _ _ 0 (titled "Bloody Tears") _ _ rfl rfl read .title
    "Bloody Tears" rfl nofun
  exact ⟨track,read,survives.mpr (by decide)⟩

/-- The title é is encoded in two bytes and read as two characters. -/
theorem title_garbled : ∃ track,
    readSingleTrackFile (titledReaders "é") "/storage/a.psf" 1 = some track ∧
      track.title = some "Ã©" ∧ track.title ≠ some "é" :=
  ⟨_,rfl,by decide,by decide⟩

end Chipbox.Library
