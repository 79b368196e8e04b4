import Chipbox.Library.Store

/-! The storage that a scan walks, and the tracks that the file readers give for it. -/
namespace Chipbox.Library

/-- A file or a folder with its children as listed and sorted, none where they cannot be. -/
inductive Entry
  | file (path : String)
  | folder (path : String) (children : List Entry)

def Entry.path : Entry → String
  | .file path => path
  | .folder path _ => path

def fileName (path : String) : String :=
  String.ofList (path.toList.reverse.takeWhile (· ≠ '/')).reverse

/-- Kotlin's `File.extension`. -/
def extension (path : String) : String :=
  let name := (fileName path).toList
  if '.' ∈ name then String.ofList (name.reverse.takeWhile (· ≠ '.')).reverse else ""

def isHidden (path : String) : Bool := (fileName path).toList.head? = some '.'

def extensionsMusic : List (String × Int) :=
  [("spc",0),("vgm",1),("vgz",1),("nsf",0),("nsfe",0),("gbs",0),("psf",2),("minipsf",2),("usf",3),
    ("miniusf",3)]

def extensionsMultiTrack : List String := ["nsf","nsfe","gbs"]
def extensionsImages : List String := ["jpg","png"]
def trackLengthDefault : Int := 150000

structure ScannerReply where
  filePlatform : Option String
  fileArtist : Option String
  fileTitle : Option String
  fileGameTitle : Option String
  fileTrackLength : Int
  fileIntroLength : Int
  fileLoopLength : Int

structure FileInfo where
  trackCount : Nat
  reply : Nat → ScannerReply

def getTrack (backendId : Int) (reply : ScannerReply) (path : String) (trackNumber : Int) :
    Option Track :=
  reply.filePlatform.map fun platform =>
    let artist := reply.fileArtist.getD artistUnknown
    let artist := if artist.toList.all isWhitespace then artistUnknown else artist
    let trackLength := if reply.fileTrackLength > 0 then reply.fileTrackLength else 0
    let trackLength := if reply.fileLoopLength > 0 then
      reply.fileIntroLength + reply.fileLoopLength * 2 else trackLength
    let trackLength := if trackLength = 0 then trackLengthDefault else trackLength
    ⟨some trackNumber,some path,some (reply.fileTitle.getD titleUnknown),
      some (reply.fileGameTitle.getD gameUnknown),some artist,some platform,some trackLength,
      some reply.fileIntroLength,some reply.fileLoopLength,some backendId⟩

/-- Readers give the same answers for the same path throughout. -/
abbrev Readers := String → Option FileInfo

def readSingleTrackFile (readers : Readers) (path : String) (trackNumber : Int) : Option Track :=
  (extensionsMusic.lookup (extension path)).bind fun backendId =>
    (readers path).bind fun info =>
      (getTrack backendId (info.reply 0) path 0).map fun track =>
        {track with trackNumber := some trackNumber}

/-- One turn of the loop of `readMultipleTrackFile`. -/
def readTrackOf (backendId : Int) (info : FileInfo) (path : String) (trackNumber : Nat) :
    Option Track :=
  (getTrack backendId (info.reply trackNumber) path trackNumber).map fun track => {track with
    title := if track.title.getD "" = "" then
        some (track.gameTitle.getD "null" ++ " Track " ++ toString (trackNumber + 1))
      else track.title
    trackNumber := some (trackNumber + 1 : Nat)}

def readMultipleTrackFile (readers : Readers) (path : String) : Option (List Track) :=
  (extensionsMusic.lookup (extension path)).bind fun backendId =>
    (readers path).map fun info =>
      (List.range info.trackCount).filterMap (readTrackOf backendId info path)

section Readings
variable {readers : Readers} {path : String}

/-- Two readings of one file give the same tags, whatever number they are given. -/
theorem readSingleTrackFile_tags {first second : Int} {left right : Track}
    (one : readSingleTrackFile readers path first = some left)
    (other : readSingleTrackFile readers path second = some right) :
    right = {left with trackNumber := some second} := by
  simp only [readSingleTrackFile,Option.bind_eq_some_iff,Option.map_eq_some_iff] at one other
  obtain ⟨_,backend,_,info,_,read,rfl⟩ := one
  obtain ⟨_,backend',_,info',_,read',rfl⟩ := other
  cases backend.symm.trans backend'
  cases info.symm.trans info'
  cases read.symm.trans read'
  rfl

theorem readSingleTrackFile_isSome (path : String) (first second : Int) :
    (readSingleTrackFile readers path first).isSome = (readSingleTrackFile readers path second).isSome := by
  unfold readSingleTrackFile
  cases extensionsMusic.lookup (extension path) with
  | none => rfl
  | some backendId =>
    cases readers path with
    | none => rfl
    | some info => simp

theorem getTrack_path {backendId trackNumber : Int} {reply : ScannerReply} {track : Track}
    (read : getTrack backendId reply path trackNumber = some track) :
    track.path = some path ∧ track.title.isSome := by
  simp only [getTrack,Option.map_eq_some_iff] at read
  obtain ⟨_,_,rfl⟩ := read
  exact ⟨rfl,rfl⟩

theorem readSingleTrackFile_path {trackNumber : Int} {track : Track}
    (read : readSingleTrackFile readers path trackNumber = some track) :
    track.path = some path ∧ track.title.isSome := by
  simp only [readSingleTrackFile,Option.bind_eq_some_iff,Option.map_eq_some_iff] at read
  obtain ⟨_,_,_,_,_,read,rfl⟩ := read
  obtain ⟨path,title⟩ := getTrack_path read
  exact ⟨path,title⟩

theorem readTrackOf_spec {backendId : Int} {info : FileInfo} {number : Nat} {track : Track}
    (read : readTrackOf backendId info path number = some track) :
    track.path = some path ∧ track.title.isSome ∧ track.trackNumber = some (number + 1 : Nat) := by
  simp only [readTrackOf,Option.map_eq_some_iff] at read
  obtain ⟨found,read,rfl⟩ := read
  obtain ⟨path,title⟩ := getTrack_path read
  refine ⟨path,?_,rfl⟩
  dsimp only
  split
  · rfl
  · exact title

theorem readMultipleTrackFile_spec {tracks : List Track} {track : Track}
    (read : readMultipleTrackFile readers path = some tracks) (listed : track ∈ tracks) :
    track.path = some path ∧ track.title.isSome ∧ track.trackNumber.isSome := by
  simp only [readMultipleTrackFile,Option.bind_eq_some_iff,Option.map_eq_some_iff] at read
  obtain ⟨_,_,_,_,rfl⟩ := read
  obtain ⟨number,_,turn⟩ := List.mem_filterMap.mp listed
  obtain ⟨path,title,number⟩ := readTrackOf_spec turn
  exact ⟨path,title,by simp [number]⟩

theorem readMultipleTrackFile_numbers {tracks : List Track} {left right : Track}
    (read : readMultipleTrackFile readers path = some tracks) (one : left ∈ tracks)
    (other : right ∈ tracks) (same : left.trackNumber = right.trackNumber) : left = right := by
  simp only [readMultipleTrackFile,Option.bind_eq_some_iff,Option.map_eq_some_iff] at read
  obtain ⟨_,_,_,_,rfl⟩ := read
  obtain ⟨first,_,turn⟩ := List.mem_filterMap.mp one
  obtain ⟨second,_,turn'⟩ := List.mem_filterMap.mp other
  have number := (readTrackOf_spec turn).2.2.symm.trans (same.trans (readTrackOf_spec turn').2.2)
  have together : first = second := by
    have plain := Option.some.inj number
    omega
  subst together
  exact Option.some.inj (turn.symm.trans turn')

end Readings

mutual
/-- The files that a walk meets: those below the entry that are not hidden nor below
something hidden. -/
def Entry.met : Entry → List String
  | .file _ => []
  | .folder _ children => Entry.metAmong children

def Entry.metAmong : List Entry → List String
  | [] => []
  | .file path::rest =>
    if isHidden path then Entry.metAmong rest else path::Entry.metAmong rest
  | .folder path children::rest =>
    if isHidden path then Entry.metAmong rest
    else Entry.met (.folder path children) ++ Entry.metAmong rest
end

/-- The listings of the three library roots, the readers and the existence check; what a
walk meets exists. -/
structure Storage where
  storage : Option (List Entry)
  selfPrimary : Option (List Entry)
  emulatedLegacy : Option (List Entry)
  readers : Readers
  fileExists : String → Bool
  met_exist : ∀ folder ∈ storage.getD [] ++ selfPrimary.getD [] ++ emulatedLegacy.getD [],
    ∀ path ∈ folder.met, fileExists path = true

/-- The folders to scan; without a listing of `/storage` this throws. -/
def Storage.getFolders (disk : Storage) : Option (List Entry) :=
  disk.storage.map fun storageFolderFiles =>
    storageFolderFiles ++ disk.selfPrimary.getD [] ++ disk.emulatedLegacy.getD []

end Chipbox.Library
