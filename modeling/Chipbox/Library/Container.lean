import Chipbox.Library.Tags
import Mathlib.Data.List.Infix
import Mathlib.Tactic.SplitIfs

/-! Which files the PSF and USF scanners set up. The two sizes of the header are read as signed
integers of 32 bits, and their sum is a position in the file and part of an array's size. -/
namespace Chipbox.Library

/-- What a buffer or an array throws; an `IllegalArgumentException` with its message. -/
inductive Thrown
  | bufferUnderflow
  | negativeArraySize
  | illegalArgument (message : Option String)
  deriving DecidableEq, Repr

/-- The signed integer of 32 bits that a sum of such integers wraps around to. -/
def int32 (value : Int) : Int := (value + 2147483648) % 4294967296 - 2147483648

/-- A `java.nio.ByteBuffer` in little-endian order, its limit the number of bytes. -/
structure ByteBuffer where
  bytes : List UInt8
  position : Nat

def littleEndian (bytes : List UInt8) : Nat := bytes.foldr (fun byte rest => byte.toNat + 256 * rest) 0

namespace ByteBuffer

def remaining (b : ByteBuffer) : Nat := b.bytes.length - b.position

def get (b : ByteBuffer) (count : Nat) : Except Thrown (List UInt8 × ByteBuffer) :=
  if b.remaining < count then .error .bufferUnderflow
  else .ok ((b.bytes.drop b.position).take count,{b with position := b.position + count})

def getInt (b : ByteBuffer) : Except Thrown (Int × ByteBuffer) :=
  match b.get 4 with
  | .error thrown => .error thrown
  | .ok (four,b) => .ok (int32 (littleEndian four),b)

/-- `Buffer.position`, with the message of what it throws. -/
def setPosition (message : Int → Option String) (b : ByteBuffer) (newPosition : Int) :
    Except Thrown ByteBuffer :=
  if newPosition > b.bytes.length ∨ newPosition < 0 then .error (.illegalArgument (message newPosition))
  else .ok {b with position := newPosition.toNat}

end ByteBuffer

/-- The size of a new `ByteArray`. -/
def newByteArray (size : Int) : Except Thrown Nat :=
  if size < 0 then .error .negativeArraySize else .ok size.toNat

def isPsfFile (id : List UInt8) : Bool := id.take 3 == [0x50,0x53,0x46]

/-- The bytes of `[TAG]`. -/
def tagMark : List UInt8 := [0x5B,0x54,0x41,0x47,0x5D]

def psfVersions : List (UInt8 × String) :=
  [(0x01,"Sony Playstation"),(0x02,"Sony Playstation 2"),(0x11,"Sega Saturn"),(0x12,"Sega Dreamcast")]

def usfVersions : List (UInt8 × String) := psfVersions ++ [(0x21,"Nintendo 64")]

def tagDataAt (size : Int) (b : ByteBuffer) : Except Thrown (Option (List UInt8)) :=
  if b.remaining ≥ 5 then
    match b.get 5 with
    | .error thrown => .error thrown
    | .ok (tagHeader,b) =>
      if tagHeader = tagMark then
        match newByteArray size with
        | .error thrown => .error thrown
        | .ok size => (b.get size).map fun (tagData,_) => some tagData
      else .ok none
  else .ok none

/-- The part of `fileInfoSetup` that may throw. -/
def readTagData (message : Int → Option String) (b : ByteBuffer) (fileSize : Nat) :
    Except Thrown (Option (List UInt8)) :=
  match b.getInt with
  | .error thrown => .error thrown
  | .ok (firstLength,b) =>
    match b.getInt with
    | .error thrown => .error thrown
    | .ok (secondLength,b) =>
      match b.setPosition message (int32 (firstLength + secondLength + 16)) with
      | .error thrown => .error thrown
      | .ok b => tagDataAt (int32 (fileSize - secondLength - firstLength - 21)) b

def trimTags (text : List Char) : List Char :=
  ((text.dropWhile (· ≤ ' ')).reverse.dropWhile (· ≤ ' ')).reverse

/-- `split` at a character, then `dropLastWhile` empty. -/
def splitParts (separator : Char) (text : List Char) : List (List Char) :=
  ((text.splitOn separator).reverse.dropWhile List.isEmpty).reverse

def setTag (tagMap : TagMap) (line : List Char) : TagMap :=
  match splitParts '=' line with
  | name::value::_ =>
    fun key => if key = String.ofList name then some (String.ofList value) else tagMap key
  | _ => tagMap

def readTags (convertUtf : List UInt8 → String) (tagMap : TagMap) (tagData : List UInt8) : TagMap :=
  let tags := trimTags (convert tagData).toList
  let tags := if "utf8=1".toList <:+: tags then trimTags (convertUtf tagData).toList else tags
  (splitParts '\n' tags).foldl setTag tagMap

/-- `fileInfoSetup`: the error, null for success, and the tags. -/
def fileInfoSetup (versions : List (UInt8 × String)) (message : Int → Option String)
    (convertUtf : List UInt8 → String) (fileAsBytes : List UInt8) :
    Except Thrown (Option String × TagMap) :=
  let noTags : TagMap := fun _ => none
  if fileAsBytes.length < 16 then .ok (some "File too small.",noTags)
  else
    match (ByteBuffer.mk fileAsBytes 0).get 4 with
    | .error thrown => .error thrown
    | .ok (header,wrappedBuffer) =>
      if isPsfFile header then
        match versions.lookup (header.getD 3 0) with
        | none => .ok (some "Invalid file header.",noTags)
        | some platform =>
          let tagMap : TagMap := fun key => if key = "platform" then some platform else none
          match readTagData message wrappedBuffer fileAsBytes.length with
          | .ok (some tagData) => .ok (none,readTags convertUtf tagMap tagData)
          | .ok none => .ok (some "PSF header missing",tagMap)
          | .error (.illegalArgument message) => .ok (message,tagMap)
          | .error thrown => .error thrown
      else .ok (some "PSF header missing",noTags)

def sizeAt (bytes : List UInt8) (offset : Nat) : Nat := littleEndian ((bytes.drop offset).take 4)

def tagOffset (bytes : List UInt8) : Nat := 16 + sizeAt bytes 4 + sizeAt bytes 8

def TaggedAt (bytes : List UInt8) (offset : Nat) : Prop := (bytes.drop offset).take 5 = tagMark

instance (bytes : List UInt8) (offset : Nat) : Decidable (TaggedAt bytes offset) :=
  inferInstanceAs (Decidable (_ = _))

def HeaderFine (versions : List (UInt8 × String)) (bytes : List UInt8) : Prop :=
  16 ≤ bytes.length ∧ isPsfFile (bytes.take 4) ∧ (versions.lookup (bytes.getD 3 0)).isSome

def Accepted (versions : List (UInt8 × String)) (bytes : List UInt8) : Prop :=
  HeaderFine versions bytes ∧ TaggedAt bytes (tagOffset bytes)

/-- The scanner returns, with success exactly for the files the format has it accept. -/
def SetsUp (versions : List (UInt8 × String)) (message : Int → Option String)
    (convertUtf : List UInt8 → String) (bytes : List UInt8) : Prop :=
  ∃ error tagMap, fileInfoSetup versions message convertUtf bytes = .ok (error,tagMap) ∧
    (error = none ↔ Accepted versions bytes)

def scannedOffset (bytes : List UInt8) : Int := int32 (tagOffset bytes)

/-- A fine header whose tags would be beyond the file is told by a message, and no tags stand
where their offset wraps around to. -/
def Judged (versions : List (UInt8 × String)) (message : Int → Option String) (bytes : List UInt8) :
    Prop :=
  HeaderFine versions bytes →
    if scannedOffset bytes > bytes.length ∨ scannedOffset bytes < 0 then
      message (scannedOffset bytes) ≠ none
    else 4294967296 ≤ tagOffset bytes → ¬ TaggedAt bytes (scannedOffset bytes).toNat

section Setup
variable {bytes : List UInt8}

theorem getInt_at {position : Nat} (inside : position + 4 ≤ bytes.length) :
    (ByteBuffer.mk bytes position).getInt = .ok (int32 (sizeAt bytes position),⟨bytes,position + 4⟩) := by
  unfold ByteBuffer.getInt ByteBuffer.get ByteBuffer.remaining
  rw [if_neg (by dsimp only; omega)]
  rfl

theorem int32_sum {first second : Nat} :
    int32 (int32 first + int32 second + 16) = int32 (16 + first + second : Nat) := by
  unfold int32
  omega

/-- The size of the tag data comes out right, however the sum wrapped around. -/
theorem rest_size {first second position length : Nat} (inside : position ≤ length)
    (small : length < 2147483648)
    (found : int32 (16 + first + second : Nat) = position) (room : length - position ≥ 5) :
    int32 (length - int32 second - int32 first - 21) = (length - (position + 5) : Nat) := by
  unfold int32 at found ⊢
  omega

theorem scannedOffset_eq (bytes : List UInt8) :
    scannedOffset bytes = int32 (16 + sizeAt bytes 4 + sizeAt bytes 8 : Nat) := rfl

theorem setPosition_eq (message : Int → Option String) (start : Nat) (newPosition : Int) :
    (ByteBuffer.mk bytes start).setPosition message newPosition =
      if newPosition > bytes.length ∨ newPosition < 0 then .error (.illegalArgument (message newPosition))
      else .ok ⟨bytes,newPosition.toNat⟩ := rfl

theorem readTagData_of {message : Int → Option String} {start middle last : ByteBuffer}
    {firstLength secondLength : Int} (one : start.getInt = .ok (firstLength,middle))
    (other : middle.getInt = .ok (secondLength,last)) (fileSize : Nat) :
    readTagData message start fileSize =
      match last.setPosition message (int32 (firstLength + secondLength + 16)) with
      | .error thrown => .error thrown
      | .ok b => tagDataAt (int32 (fileSize - secondLength - firstLength - 21)) b := by
  unfold readTagData
  rw [one]
  dsimp only
  rw [other]

theorem tagDataAt_eq {position : Nat} {size : Int}
    (right : bytes.length - position ≥ 5 → size = (bytes.length - (position + 5) : Nat)) :
    tagDataAt size ⟨bytes,position⟩ = if TaggedAt bytes position then
      .ok (some (bytes.drop (position + 5))) else .ok none := by
  unfold tagDataAt ByteBuffer.get ByteBuffer.remaining
  dsimp only
  by_cases room : bytes.length - position ≥ 5
  · rw [if_pos room,if_neg (by omega)]
    dsimp only
    by_cases tagged : TaggedAt bytes position
    · have mark : (bytes.drop position).take 5 = tagMark := tagged
      rw [if_pos mark,if_pos tagged,right room,newByteArray,if_neg (by omega),Int.toNat_natCast]
      dsimp only
      rw [if_neg (by omega),List.take_of_length_le (Nat.le_of_eq List.length_drop)]
      rfl
    · have mark : ¬ (bytes.drop position).take 5 = tagMark := tagged
      rw [if_neg mark,if_neg tagged]
  · have short : ¬ TaggedAt bytes position := by
      intro tagged
      have length := congrArg List.length tagged
      rw [List.length_take,List.length_drop] at length
      have five : tagMark.length = 5 := rfl
      omega
    rw [if_neg room,if_neg short]

/-- Where the position is in the file, the tag data is the rest of it. -/
theorem readTagData_eq (message : Int → Option String) (long : 16 ≤ bytes.length)
    (small : bytes.length < 2147483648) : readTagData message ⟨bytes,4⟩ bytes.length =
      if scannedOffset bytes > bytes.length ∨ scannedOffset bytes < 0 then
        .error (.illegalArgument (message (scannedOffset bytes)))
      else if TaggedAt bytes (scannedOffset bytes).toNat then
        .ok (some (bytes.drop ((scannedOffset bytes).toNat + 5)))
      else .ok none := by
  have one : (ByteBuffer.mk bytes 4).getInt = .ok (int32 (sizeAt bytes 4),⟨bytes,8⟩) :=
    getInt_at (by omega)
  have other : (ByteBuffer.mk bytes 8).getInt = .ok (int32 (sizeAt bytes 8),⟨bytes,12⟩) :=
    getInt_at (by omega)
  have right (position : Nat) (found : scannedOffset bytes = position) (inside : position ≤ bytes.length) :=
    @rest_size (sizeAt bytes 4) (sizeAt bytes 8) position bytes.length inside small
      ((scannedOffset_eq bytes).symm.trans found)
  rw [readTagData_of one other,int32_sum,← scannedOffset_eq,setPosition_eq]
  generalize scannedOffset bytes = offset at right ⊢
  by_cases outside : offset > bytes.length ∨ offset < 0
  · rw [if_pos outside,if_pos outside]
  · rw [if_neg outside,if_neg outside]
    rw [not_or] at outside
    obtain ⟨position,found⟩ := Int.eq_ofNat_of_zero_le (Int.not_lt.mp outside.2)
    rw [found,Int.toNat_natCast]
    exact tagDataAt_eq (right position found (by omega))

theorem not_tagged_beyond {offset : Nat} (beyond : bytes.length ≤ offset) : ¬ TaggedAt bytes offset := by
  unfold TaggedAt
  rw [List.drop_eq_nil_of_le beyond]
  exact nofun

theorem setup_iff {error : Option String} {tagMap : TagMap} {accepted : Prop} :
    (∃ other tags, (Except.ok (error,tagMap) : Except Thrown (Option String × TagMap)) = .ok (other,tags) ∧
      (other = none ↔ accepted)) ↔ (error = none ↔ accepted) := by
  constructor
  · rintro ⟨_,_,same,holds⟩
    cases same
    exact holds
  · intro holds
    exact ⟨error,tagMap,rfl,holds⟩

/-- Out of range, the offset of the tags is beyond the file; in range it is the one of the format
unless that needs more than 32 bits. -/
theorem wrapped_offset {offset length : Nat} (small : length < 2147483648) :
    (int32 offset > length ∨ int32 offset < 0 → length ≤ offset) ∧
      (¬ (int32 offset > length ∨ int32 offset < 0) → offset < 4294967296 → (int32 offset).toNat = offset) := by
  unfold int32
  omega

/-- What success means where the header is fine. -/
theorem accepted_iff_found (message : Int → Option String) (small : bytes.length < 2147483648) :
    ((if scannedOffset bytes > bytes.length ∨ scannedOffset bytes < 0 then
        message (scannedOffset bytes) = none
      else TaggedAt bytes (scannedOffset bytes).toNat) ↔ TaggedAt bytes (tagOffset bytes)) ↔
    if scannedOffset bytes > bytes.length ∨ scannedOffset bytes < 0 then
      message (scannedOffset bytes) ≠ none
    else 4294967296 ≤ tagOffset bytes → ¬ TaggedAt bytes (scannedOffset bytes).toNat := by
  obtain ⟨beyond,right⟩ := @wrapped_offset (tagOffset bytes) _ small
  have unfolded : scannedOffset bytes = int32 (tagOffset bytes) := rfl
  rw [← unfolded] at beyond right
  generalize scannedOffset bytes = offset at beyond right ⊢
  by_cases outside : offset > bytes.length ∨ offset < 0
  · rw [if_pos outside,if_pos outside]
    simp only [not_tagged_beyond (beyond outside),iff_false,ne_eq]
  · rw [if_neg outside,if_neg outside]
    by_cases fits : tagOffset bytes < 4294967296
    · rw [right outside fits]
      exact iff_of_true Iff.rfl fun more => absurd more (by omega)
    · have far : ¬ TaggedAt bytes (tagOffset bytes) := not_tagged_beyond (by omega)
      simp only [far,iff_false]
      exact ⟨fun none_there _ => none_there,fun none_there => none_there (by omega)⟩

theorem get_header (long : 16 ≤ bytes.length) :
    (ByteBuffer.mk bytes 0).get 4 = .ok (bytes.take 4,⟨bytes,4⟩) := by
  have enough : ¬ (ByteBuffer.mk bytes 0).remaining < 4 := by
    unfold ByteBuffer.remaining
    dsimp only
    omega
  unfold ByteBuffer.get
  rw [if_neg enough]
  rfl

theorem header_version : (bytes.take 4).getD 3 0 = bytes.getD 3 0 := by
  rw [List.getD_eq_getElem?_getD,List.getD_eq_getElem?_getD,List.getElem?_take_of_lt (by decide)]

section
variable {versions : List (UInt8 × String)} (message : Int → Option String)
  (convertUtf : List UInt8 → String)

theorem fileInfoSetup_coarse (coarse : ¬ HeaderFine versions bytes) :
    ∃ error tagMap, fileInfoSetup versions message convertUtf bytes = .ok (some error,tagMap) := by
  unfold fileInfoSetup
  by_cases long : 16 ≤ bytes.length
  · rw [if_neg (Nat.not_lt_of_le long),get_header long]
    dsimp only
    rw [header_version]
    by_cases psf : isPsfFile (bytes.take 4) = true
    · rw [if_pos psf]
      cases listed : versions.lookup (bytes.getD 3 0) with
      | none => exact ⟨_,_,rfl⟩
      | some platform => exact absurd ⟨long,psf,by rw [listed]; rfl⟩ coarse
    · rw [if_neg psf]
      exact ⟨_,_,rfl⟩
  · rw [if_pos (Nat.lt_of_not_le long)]
    exact ⟨_,_,rfl⟩

theorem fileInfoSetup_fine (fine : HeaderFine versions bytes) (small : bytes.length < 2147483648) :
    ∃ tagMap, fileInfoSetup versions message convertUtf bytes =
      .ok (if scannedOffset bytes > bytes.length ∨ scannedOffset bytes < 0 then
          message (scannedOffset bytes)
        else if TaggedAt bytes (scannedOffset bytes).toNat then none
        else some "PSF header missing",tagMap) := by
  obtain ⟨long,psf,listed⟩ := fine
  obtain ⟨platform,listed⟩ := Option.isSome_iff_exists.mp listed
  have read := readTagData_eq message long small
  generalize scannedOffset bytes = offset at read ⊢
  unfold fileInfoSetup
  rw [if_neg (Nat.not_lt_of_le long),get_header long]
  dsimp only
  rw [header_version,if_pos psf,listed]
  dsimp only
  rw [read]
  by_cases outside : offset > bytes.length ∨ offset < 0
  · rw [if_pos outside,if_pos outside]
    exact ⟨_,rfl⟩
  · rw [if_neg outside,if_neg outside]
    by_cases tagged : TaggedAt bytes offset.toNat
    · rw [if_pos tagged,if_pos tagged]
      exact ⟨_,rfl⟩
    · rw [if_neg tagged,if_neg tagged]
      exact ⟨_,rfl⟩

end

/-- The scanner accepts exactly the files of the format unless a message is missing or an offset
wraps around to other tags. -/
theorem container_accepted_iff (versions : List (UInt8 × String)) (message : Int → Option String)
    (convertUtf : List UInt8 → String) (small : bytes.length < 2147483648) :
    SetsUp versions message convertUtf bytes ↔ Judged versions message bytes := by
  unfold SetsUp Accepted Judged
  by_cases fine : HeaderFine versions bytes
  · obtain ⟨tagMap,outcome⟩ := fileInfoSetup_fine message convertUtf fine small
    rw [outcome,setup_iff]
    simp only [fine,true_and,forall_const]
    rw [← accepted_iff_found message small]
    generalize scannedOffset bytes = offset
    by_cases outside : offset > bytes.length ∨ offset < 0
    · rw [if_pos outside,if_pos outside]
    · rw [if_neg outside,if_neg outside]
      by_cases tagged : TaggedAt bytes offset.toNat
      · simp only [tagged,if_true]
      · simp only [tagged,if_false,reduceCtorEq]
  · obtain ⟨error,tagMap,outcome⟩ := fileInfoSetup_coarse message convertUtf fine
    rw [outcome,setup_iff]
    simp only [fine,false_and,reduceCtorEq,false_implies]

end Setup

def cutFile : List UInt8 := [0x50,0x53,0x46,0x01,1,0,0,0,0,0,0,0,0,0,0,0]

def taggedFile : List UInt8 := [0x50,0x53,0x46,0x01,0,0,0,0,0,0,0,0,0,0,0,0] ++ tagMark

theorem container_accepted_iff_tagged :
    taggedFile.length < 2147483648 ∧
      SetsUp psfVersions (fun _ => none) (fun _ => "") taggedFile :=
  ⟨by decide,(container_accepted_iff psfVersions (fun _ => none) (fun _ => "") (by decide)).mpr
    fun _ => by decide⟩

/-- A position beyond the file with an exception that has no message is reported as success. -/
theorem beyond_accepted : ∃ tagMap,
    fileInfoSetup psfVersions (fun _ => none) (fun _ => "") cutFile = .ok (none,tagMap) ∧
      ¬ Accepted psfVersions cutFile := by
  refine ⟨_,rfl,?_⟩
  rintro ⟨_,tagged⟩
  exact absurd tagged (by decide)

/-- Sizes whose sum wraps around to the tags right behind the header are accepted too. -/
example : ∃ tagMap,
    fileInfoSetup psfVersions (fun _ => none) (fun _ => "")
      ([0x50,0x53,0x46,0x01,0,0,0,0x80,0,0,0,0x80,0,0,0,0] ++ tagMark) = .ok (none,tagMap) :=
  ⟨_,rfl⟩

end Chipbox.Library
