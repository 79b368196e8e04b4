import Chipbox.Foundation.Run
import Chipbox.Library.Scanner

/-! The walk of a scan as a run of visits. Which visits it makes depends on the storage
alone; what each does depends on the library. -/
namespace Chipbox.Library
open Table

inductive Visit
  | enter (name : String)
  | leave
  /-- a file that cannot be read -/
  | bad (name : String)
  | single (path : String) (track : Track)
  /-- a multi-track file is opened, its tracks are looked up, then it is closed -/
  | opened
  | numbered (path : String) (track : Track)
  | closed (name : String)
  | image (path : String)

structure Walk where
  scan : Scan
  /-- the game of the folder at hand, then those of the folders around it -/
  games : List (Option Nat)
  /-- the tracks of the open file that are to be added -/
  newTracks : List Track

namespace Walk

def current (w : Walk) : Option Nat := w.games.head?.join

def go (w : Walk) (scan : Scan) (game : Option Nat) : Walk :=
  {w with scan := scan, games := game::w.games.tail}

end Walk

def visit (mode : Iteration) (w : Walk) : Visit → Option Walk
  | .enter name => some {w with scan := w.scan.onNext (.folder name), games := none::w.games}
  | .leave => some {w with games := w.games.tail}
  | .bad name => some (w.go (w.scan.onNext (.badTrack name)) none)
  | .single path track =>
    match checkForExistingTrack mode w.scan path track none with
    | none => none
    | some (s,some game) => some (w.go s (some game))
    | some (s,none) => (addSingle s track).map fun (s,game) => w.go s game
  | .opened => some (w.go w.scan none)
  | .numbered path track =>
    match checkForExistingTrack mode w.scan path track track.trackNumber with
    | none => none
    | some (s,none) => some {w with scan := s, newTracks := w.newTracks ++ [track]}
    | some (s,some game) => some (w.go s (some game))
  | .closed name =>
    let (store,game) := addTracks w.scan.store w.current w.newTracks
    let s := {w.scan with store := store}.onNext (.newMultiTrack name w.newTracks.length)
    some {w.go (if game = none then s.onNext (.badTrack name) else s) game with newTracks := []}
  | .image path =>
    match w.current with
    | none => some w
    | some game =>
      some {w with scan := {w.scan with store := w.scan.store.updateGameArt game (artLocal path)}}

section Outcomes
variable {mode : Iteration} {w w' : Walk} {path name : String} {track : Track}

theorem visit_single (taken : visit mode w (.single path track) = some w') :
    (∃ s game, checkForExistingTrack mode w.scan path track none = some (s,some game) ∧
      w' = w.go s (some game)) ∨
    ∃ s title, checkForExistingTrack mode w.scan path track none = some (s,none) ∧
      w' = w.go ({s with store := (s.store.addTrack track).2}.onNext (.newTrack title))
        (some (s.store.addTrack track).1) := by
  unfold visit at taken
  dsimp only at taken
  split at taken
  · cases taken
  next s game checked =>
    cases taken
    exact .inl ⟨s,game,checked,rfl⟩
  next s checked =>
    obtain ⟨⟨t,game⟩,added,rfl⟩ := Option.map_eq_some_iff.mp taken
    obtain ⟨title,_,same⟩ := Option.map_eq_some_iff.mp added
    cases same
    exact .inr ⟨s,title,checked,rfl⟩

theorem visit_numbered (taken : visit mode w (.numbered path track) = some w') :
    (∃ s game, checkForExistingTrack mode w.scan path track track.trackNumber = some (s,some game) ∧
      w' = w.go s (some game)) ∨
    ∃ s, checkForExistingTrack mode w.scan path track track.trackNumber = some (s,none) ∧
      w' = {w with scan := s, newTracks := w.newTracks ++ [track]} := by
  unfold visit at taken
  dsimp only at taken
  split at taken
  · cases taken
  next s checked =>
    cases taken
    exact .inr ⟨s,checked,rfl⟩
  next s game checked =>
    cases taken
    exact .inl ⟨s,game,checked,rfl⟩

/-- The tracks that waited are in the store once their file is closed. -/
theorem visit_closed (taken : visit mode w (.closed name) = some w') :
    w'.scan.store = (addTracks w.scan.store w.current w.newTracks).1 ∧ w'.newTracks = [] ∧
      w'.games = (addTracks w.scan.store w.current w.newTracks).2::w.games.tail := by
  cases taken
  refine ⟨?_,rfl,rfl⟩
  dsimp only [Walk.go]
  split
  · rfl
  · rfl

/-- An image goes to the game of the folder at hand, where there is one. -/
theorem visit_image (taken : visit mode w (.image path) = some w') :
    w.current = none ∧ w' = w ∨ ∃ game, w.current = some game ∧
      w' = {w with scan := {w.scan with store := w.scan.store.updateGameArt game (artLocal path)}} := by
  unfold visit at taken
  dsimp only at taken
  split at taken
  next unknown =>
    cases taken
    exact .inl ⟨unknown,rfl⟩
  next game known =>
    cases taken
    exact .inr ⟨game,known,rfl⟩

end Outcomes

section Visits
variable (readers : Readers)

def fileVisits (trackCount : Int) (filePath : String) : List Visit :=
  let fileExtension := extension filePath
  if fileExtension = "" then []
  else if (extensionsMusic.lookup fileExtension).isSome then
    if fileExtension ∈ extensionsMultiTrack then
      match readMultipleTrackFile readers filePath with
      | none => [.bad (fileName filePath)]
      | some tracks =>
        .opened::(tracks.map (.numbered filePath) ++ [.closed (fileName filePath)])
    else
      match readSingleTrackFile readers filePath trackCount with
      | none => [.bad (fileName filePath)]
      | some track => [.single filePath track]
  else if fileExtension ∈ extensionsImages then [.image filePath]
  else []

/-- The track count after a file: only readable single-track files count. -/
def countAfter (trackCount : Int) (filePath : String) : Int :=
  let fileExtension := extension filePath
  if fileExtension ≠ "" ∧ (extensionsMusic.lookup fileExtension).isSome ∧
      fileExtension ∉ extensionsMultiTrack ∧
      (readSingleTrackFile readers filePath trackCount).isSome then trackCount + 1
  else trackCount

mutual
def folderVisits : Entry → List Visit
  | .file path => [.enter (fileName path),.leave]
  | .folder path children => .enter (fileName path)::(childVisits 1 children ++ [.leave])

def childVisits (trackCount : Int) : List Entry → List Visit
  | [] => []
  | .folder path children::rest =>
    if isHidden path then childVisits trackCount rest
    else folderVisits (.folder path children) ++ childVisits trackCount rest
  | .file path::rest =>
    if isHidden path then childVisits trackCount rest
    else fileVisits readers trackCount path ++
      childVisits (countAfter readers trackCount path) rest
end

end Visits

def Storage.visits (disk : Storage) : List Visit :=
  (disk.getFolders.getD []).flatMap (folderVisits disk.readers)

section Faithful
variable {mode : Iteration} {readers : Readers}

theorem checkTracks_exec (path : String) (s : Scan) (game : Option Nat) (games : List (Option Nat))
    (newTracks tracks : List Track) :
    Run.exec (visit mode) ⟨s,game::games,newTracks⟩ (tracks.map (.numbered path)) =
      (checkTracks mode path s game newTracks tracks).map fun (s,game,newTracks) =>
        ⟨s,game::games,newTracks⟩ := by
  induction tracks generalizing s game newTracks with
  | nil => rfl
  | cons track rest ih =>
    simp only [List.map_cons,Run.exec,visit,checkTracks]
    rcases checkForExistingTrack mode s path track track.trackNumber with _ | ⟨s,_ | found⟩
    · rfl
    · exact ih s game (newTracks ++ [track])
    · exact ih s (some found) newTracks

theorem scanFile_exec (s : Scan) (game : Option Nat) (games : List (Option Nat)) (trackCount : Int)
    (path : String) :
    Run.exec (visit mode) ⟨s,game::games,[]⟩ (fileVisits readers trackCount path) =
      (scanFile mode readers s game trackCount path).map fun (s,game,_) => ⟨s,game::games,[]⟩ := by
  unfold fileVisits scanFile
  dsimp only
  split
  · rfl
  split
  · split
    · unfold readMultipleTracks
      cases readMultipleTrackFile readers path with
      | none => rfl
      | some tracks =>
        simp only [Run.exec,visit,Walk.go,List.tail_cons,Run.exec_append_eq,checkTracks_exec]
        rcases checkTracks mode path s none [] tracks with _ | ⟨s,game,newTracks⟩
        · rfl
        · rfl
    · unfold readSingleTrack
      cases readSingleTrackFile readers path trackCount with
      | none => rfl
      | some track =>
        simp only [Run.exec_singleton,visit]
        rcases checkForExistingTrack mode s path track none with _ | ⟨s,_ | found⟩
        · rfl
        · dsimp only
          cases addSingle s track <;> rfl
        · rfl
  split
  · cases game <;> rfl
  · rfl

theorem addSingle_game {s : Scan} {track : Track} {result : Scan × Option Nat}
    (added : addSingle s track = some result) : result.2 ≠ none := by
  obtain ⟨_,_,rfl⟩ := Option.map_eq_some_iff.mp added
  simp

theorem readSingleTrack_game {s t : Scan} {path : String} {trackNumber : Int} {game : Option Nat}
    (read : readSingleTrack mode readers s path trackNumber = some (t,game)) :
    game.isSome = (readSingleTrackFile readers path trackNumber).isSome := by
  unfold readSingleTrack at read
  cases known : readSingleTrackFile readers path trackNumber with
  | none =>
    rw [known] at read
    cases read
    rfl
  | some track =>
    rw [known] at read
    dsimp only at read
    split at read
    · cases read
    · cases read
      rfl
    · exact Option.isSome_iff_ne_none.mpr (addSingle_game read)

theorem scanFile_count {s s' : Scan} {game game' : Option Nat} {trackCount trackCount' : Int}
    {path : String}
    (scanned : scanFile mode readers s game trackCount path = some (s',game',trackCount')) :
    trackCount' = countAfter readers trackCount path := by
  unfold scanFile at scanned
  unfold countAfter
  dsimp only at scanned ⊢
  split at scanned
  next empty => simp_all
  next named =>
    split at scanned
    next music =>
      split at scanned
      next multi =>
        obtain ⟨_,_,same⟩ := Option.map_eq_some_iff.mp scanned
        simp_all
      next lone =>
        obtain ⟨⟨scan,found⟩,read,same⟩ := Option.map_eq_some_iff.mp scanned
        simp only [Prod.mk.injEq] at same
        obtain ⟨_,_,rfl⟩ := same
        have left := readSingleTrack_game read
        cases found <;> simp [named,music,lone,← left]
    next other =>
      split at scanned
      · split at scanned <;> simp_all
      · simp_all

mutual
/-- Scanning a folder is making its visits in order. -/
theorem scanFolder_exec (s : Scan) (games : List (Option Nat)) : (entry : Entry) →
    Run.exec (visit mode) ⟨s,games,[]⟩ (folderVisits readers entry) =
      (scanFolder mode readers s entry).map fun s => ⟨s,games,[]⟩
  | .file _ => rfl
  | .folder path children =>
    scanChildren_exec (s.onNext (.folder (fileName path))) none games 1 children

theorem scanChildren_exec (s : Scan) (game : Option Nat) (games : List (Option Nat))
    (trackCount : Int) : (children : List Entry) →
    Run.exec (visit mode) ⟨s,game::games,[]⟩ (childVisits readers trackCount children ++ [.leave]) =
      (scanChildren mode readers s game trackCount children).map fun s => ⟨s,games,[]⟩
  | [] => rfl
  | .folder path children::rest => by
    unfold childVisits scanChildren
    split
    · exact scanChildren_exec s game games trackCount rest
    · rw [List.append_assoc,Run.exec_append_eq,scanFolder_exec s (game::games) (.folder path children)]
      cases scanFolder mode readers s (.folder path children) with
      | none => rfl
      | some s => exact scanChildren_exec s game games trackCount rest
  | .file path::rest => by
    unfold childVisits scanChildren
    split
    · exact scanChildren_exec s game games trackCount rest
    · rw [List.append_assoc,Run.exec_append_eq,scanFile_exec]
      cases scanned : scanFile mode readers s game trackCount path with
      | none => rfl
      | some result =>
        obtain ⟨s,game,count⟩ := result
        rw [← scanFile_count scanned]
        exact scanChildren_exec s game games count rest
end

theorem scanFolders_exec (s : Scan) (folders : List Entry) :
    Run.exec (visit mode) ⟨s,[],[]⟩ (folders.flatMap (folderVisits readers)) =
      (scanFolders mode readers s folders).map fun s => ⟨s,[],[]⟩ := by
  induction folders generalizing s with
  | nil => rfl
  | cons folder rest ih =>
    rw [List.flatMap_cons,Run.exec_append_eq,scanFolder_exec,scanFolders]
    cases scanFolder mode readers s folder with
    | none => rfl
    | some s => exact ih s

end Faithful
end Chipbox.Library
