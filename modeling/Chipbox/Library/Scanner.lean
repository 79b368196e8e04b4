import Chipbox.Library.Storage

/-! `LibraryScanner`: a walk of the storage that brings the library up to date, then the
removal of what is gone. A scan that throws gives nothing. -/
namespace Chipbox.Library
open Table

inductive FileScanEvent
  | folder (name : String)
  | newTrack (title : String)
  | badTrack (name : String)
  | newMultiTrack (name : String) (count : Nat)
  | updatedTrack (title : String)
  | deletedTrack (title : String)
  deriving DecidableEq, Repr

/-- The library and the events reported so far. -/
structure Scan where
  store : Store
  events : List FileScanEvent
  deriving DecidableEq, Repr

namespace Scan

def onNext (s : Scan) (event : FileScanEvent) : Scan := {s with events := s.events ++ [event]}

def updateTrack (mode : Iteration) (s : Scan) (oldTrack : TrackRow) (newTrack : Track) :
    Option (Scan × Bool) :=
  match s.store.updateTrack mode oldTrack newTrack with
  | (_,none) => none
  | (store,some actuallyChanged) => some ({s with store := store},actuallyChanged)

theorem updateTrack_store {mode : Iteration} {s t : Scan} {oldTrack : TrackRow} {newTrack : Track}
    {changed : Bool} (updated : s.updateTrack mode oldTrack newTrack = some (t,changed)) :
    ∃ store, s.store.updateTrack mode oldTrack newTrack = (store,some changed) ∧
      t = {s with store := store} := by
  unfold updateTrack at updated
  split at updated
  · cases updated
  next store _ stepped =>
    cases updated
    exact ⟨store,stepped,rfl⟩

def updated (s : Scan) (track : Nat) : Option Scan :=
  ((row? s.store.tracks track).bind fun row => row.title).map fun title =>
    s.onNext (.updatedTrack title)

def gameOf (s : Scan) (track : Nat) : Option Nat := (row? s.store.tracks track).bind TrackRow.game

end Scan

def existingTrack (s : Store) (filePath : String) (trackNumber : Option Int) : Option TrackRow :=
  if trackNumber = none then s.getTrackFromPath filePath
  else s.getTrackFromPathAndNumber filePath trackNumber

def movedTrack (s : Store) (track : Track) : Option TrackRow :=
  track.title.bind fun title =>
    s.getTrack title (track.gameTitle.getD gameUnknown) (track.platformName.getD platformUnknown)

def checkForExistingTrack (mode : Iteration) (s : Scan) (filePath : String) (track : Track)
    (trackNumber : Option Int) : Option (Scan × Option Nat) :=
  match existingTrack s.store filePath trackNumber with
  | some existing =>
    match s.updateTrack mode existing track with
    | none => none
    | some (s,changed) =>
      (if changed then s.updated existing.id else some s).map fun s => (s,s.gameOf existing.id)
  | none =>
    if track.title = none then none
    else match movedTrack s.store track with
      | some moved =>
        match s.updateTrack mode moved track with
        | none => none
        | some (s,_) => (s.updated moved.id).map fun s => (s,s.gameOf moved.id)
      | none => some (s,none)

/-- A look-up updates the track found by path and number and reports it if it changed, else it
updates and reports the one found by its titles, else it does nothing. -/
theorem checkForExistingTrack_cases {mode : Iteration} {s t : Scan} {filePath : String} {track : Track}
    {trackNumber : Option Int} {game : Option Nat}
    (checked : checkForExistingTrack mode s filePath track trackNumber = some (t,game)) :
    (∃ row u changed, existingTrack s.store filePath trackNumber = some row ∧
      s.updateTrack mode row track = some (u,changed) ∧
      (if changed then u.updated row.id else some u) = some t ∧ game = t.gameOf row.id) ∨
    (∃ row u changed, existingTrack s.store filePath trackNumber = none ∧
      movedTrack s.store track = some row ∧ s.updateTrack mode row track = some (u,changed) ∧
      u.updated row.id = some t ∧ game = t.gameOf row.id) ∨
    (existingTrack s.store filePath trackNumber = none ∧ movedTrack s.store track = none ∧
      t = s ∧ game = none) := by
  unfold checkForExistingTrack at checked
  split at checked
  next row existing =>
    split at checked
    · cases checked
    next u changed updated =>
      obtain ⟨_,reported,same⟩ := Option.map_eq_some_iff.mp checked
      cases same
      exact .inl ⟨row,u,changed,existing,updated,reported,rfl⟩
  next absent =>
    split at checked
    · cases checked
    · split at checked
      next row moved =>
        split at checked
        · cases checked
        next u changed updated =>
          obtain ⟨_,reported,same⟩ := Option.map_eq_some_iff.mp checked
          cases same
          exact .inr (.inl ⟨row,u,changed,absent,moved,updated,reported,rfl⟩)
      next still =>
        cases checked
        exact .inr (.inr ⟨absent,still,rfl,rfl⟩)

/-- `addTrack` and, once it is through, the report of the new track. -/
def addSingle (s : Scan) (track : Track) : Option (Scan × Option Nat) :=
  track.title.map fun title =>
    let (game,store) := s.store.addTrack track
    ({s with store := store}.onNext (.newTrack title),some game)

def readSingleTrack (mode : Iteration) (readers : Readers) (s : Scan) (filePath : String)
    (trackNumber : Int) : Option (Scan × Option Nat) :=
  match readSingleTrackFile readers filePath trackNumber with
  | none => some (s.onNext (.badTrack (fileName filePath)),none)
  | some track =>
    match checkForExistingTrack mode s filePath track none with
    | none => none
    | some (s,some game) => some (s,some game)
    | some (s,none) => addSingle s track

/-- The loop of `readMultipleTracks` over the tracks of the file: the game found last and the
tracks to add. -/
def checkTracks (mode : Iteration) (filePath : String) :
    Scan → Option Nat → List Track → List Track → Option (Scan × Option Nat × List Track)
  | s,game,newTracks,[] => some (s,game,newTracks)
  | s,game,newTracks,track::rest =>
    match checkForExistingTrack mode s filePath track track.trackNumber with
    | none => none
    | some (s,none) => checkTracks mode filePath s game (newTracks ++ [track]) rest
    | some (s,some existingTrackGame) =>
      checkTracks mode filePath s (some existingTrackGame) newTracks rest

def addTracks : Store → Option Nat → List Track → Store × Option Nat
  | s,game,[] => (s,game)
  | s,_,track::rest => addTracks (s.addTrack track).2 (some (s.addTrack track).1) rest

def readMultipleTracks (mode : Iteration) (readers : Readers) (s : Scan) (filePath : String) :
    Option (Scan × Option Nat) :=
  match readMultipleTrackFile readers filePath with
  | none => some (s,none)
  | some tracks =>
    match checkTracks mode filePath s none [] tracks with
    | none => none
    | some (s,game,newTracks) =>
      let (store,game) := addTracks s.store game newTracks
      some ({s with store := store}.onNext (.newMultiTrack (fileName filePath) newTracks.length),game)

def artLocal (sourcePath : String) : String := "file://" ++ sourcePath

/-- `scanFolder` at a file that is not hidden: the scan, the folder's game and the track count. -/
def scanFile (mode : Iteration) (readers : Readers) (s : Scan) (folderGame : Option Nat)
    (trackCount : Int) (filePath : String) : Option (Scan × Option Nat × Int) :=
  let fileExtension := extension filePath
  if fileExtension = "" then some (s,folderGame,trackCount)
  else if (extensionsMusic.lookup fileExtension).isSome then
    if fileExtension ∈ extensionsMultiTrack then
      (readMultipleTracks mode readers s filePath).map fun (s,game) =>
        (if game = none then s.onNext (.badTrack (fileName filePath)) else s,game,trackCount)
    else
      (readSingleTrack mode readers s filePath trackCount).map fun (s,game) =>
        (s,game,if game = none then trackCount else trackCount + 1)
  else if fileExtension ∈ extensionsImages then
    match folderGame with
    | some game =>
      some ({s with store := s.store.updateGameArt game (artLocal filePath)},folderGame,trackCount)
    | none => some (s,folderGame,trackCount)
  else some (s,folderGame,trackCount)

mutual
def scanFolder (mode : Iteration) (readers : Readers) (s : Scan) : Entry → Option Scan
  | .file path => some (s.onNext (.folder (fileName path)))
  | .folder path children =>
    scanChildren mode readers (s.onNext (.folder (fileName path))) none 1 children

/-- The loop of `scanFolder` over the children of a folder. -/
def scanChildren (mode : Iteration) (readers : Readers) (s : Scan) (folderGame : Option Nat)
    (trackCount : Int) : List Entry → Option Scan
  | [] => some s
  | .folder path children::rest =>
    if isHidden path then scanChildren mode readers s folderGame trackCount rest
    else match scanFolder mode readers s (.folder path children) with
      | none => none
      | some s => scanChildren mode readers s folderGame trackCount rest
  | .file path::rest =>
    if isHidden path then scanChildren mode readers s folderGame trackCount rest
    else match scanFile mode readers s folderGame trackCount path with
      | none => none
      | some (s,folderGame,trackCount) => scanChildren mode readers s folderGame trackCount rest
end

def scanFolders (mode : Iteration) (readers : Readers) : Scan → List Entry → Option Scan
  | s,[] => some s
  | s,folder::rest =>
    match scanFolder mode readers s folder with
    | none => none
    | some s => scanFolders mode readers s rest

/-- `checkForDeletion` of a track; a null path throws, and so does a null title once the file
is gone. -/
def checkTrack (fileExists : String → Bool) (s : Scan) (track : Nat) : Option Scan :=
  match row? s.store.tracks track with
  | none => some s
  | some row =>
    match row.path with
    | none => none
    | some path =>
      if fileExists path then some s
      else row.title.map fun title =>
        {s with store := s.store.deleteTrack track}.onNext (.deletedTrack title)

theorem checkTrack_cases {fileExists : String → Bool} {s t : Scan} {track : Nat}
    (checked : checkTrack fileExists s track = some t) :
    (t = s ∧ ∀ row, row? s.store.tracks track = some row →
      ∃ path, row.path = some path ∧ fileExists path = true) ∨
    ∃ row path title, row? s.store.tracks track = some row ∧ row.path = some path ∧
      ¬ fileExists path = true ∧
      t = {s with store := s.store.deleteTrack track}.onNext (.deletedTrack title) := by
  unfold checkTrack at checked
  split at checked
  next absent =>
    cases checked
    refine .inl ⟨rfl,fun row stored => ?_⟩
    cases absent.symm.trans stored
  next row stored =>
    split at checked
    · cases checked
    next path named =>
      split at checked
      next there =>
        cases checked
        refine .inl ⟨rfl,fun other found => ?_⟩
        cases stored.symm.trans found
        exact ⟨path,named,there⟩
      next gone =>
        obtain ⟨title,_,rfl⟩ := Option.map_eq_some_iff.mp checked
        exact .inr ⟨row,path,title,stored,named,gone,rfl⟩

def checkAllTracks (fileExists : String → Bool) : Scan → List Nat → Option Scan
  | s,[] => some s
  | s,track::rest =>
    match checkTrack fileExists s track with
    | none => none
    | some s => checkAllTracks fileExists s rest

def checkGame (s : Store) (game : Nat) : Store :=
  match row? s.games game with
  | none => s
  | some row => if row.tracks = [] then s.deleteGame game else s

def checkArtist (s : Store) (artist : Nat) : Store :=
  match row? s.artists artist with
  | none => s
  | some row => if row.tracks = [] then s.deleteArtist artist else s

def sweep (fileExists : String → Bool) (s : Scan) : Option Scan :=
  (checkAllTracks fileExists s (s.store.tracks.map TrackRow.id)).map fun s =>
    let store := (s.store.games.map GameRow.id).foldl checkGame s.store
    {s with store := (store.artists.map ArtistRow.id).foldl checkArtist store}

def scanLibrary (mode : Iteration) (disk : Storage) (s : Store) : Option Scan :=
  disk.getFolders.bind fun folders =>
    (scanFolders mode disk.readers ⟨s,[]⟩ folders).bind (sweep disk.fileExists)

end Chipbox.Library
