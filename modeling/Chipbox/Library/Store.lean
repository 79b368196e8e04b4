import Chipbox.Foundation.Table
import Chipbox.Library.Names

/-! The library database and the operations of `RealmRepository` on it. Objects are rows
with identifiers, references and lists hold identifiers, queries return the first
matching row. -/
namespace Chipbox.Library
open Table

structure Track where
  trackNumber : Option Int
  path : Option String
  title : Option String
  gameTitle : Option String
  artistText : Option String
  platformName : Option String
  trackLength : Option Int
  introLength : Option Int
  loopLength : Option Int
  backendId : Option Int
  deriving DecidableEq, Repr

structure TrackRow extends Track where
  id : Nat
  platform : Option Nat
  game : Option Nat
  artists : List Nat
  deriving DecidableEq, Repr

structure GameRow where
  id : Nat
  title : Option String
  platformName : Option String
  artLocal : Option String
  multipleArtists : Option Bool
  /-- the stored field; `gameArtist` is its getter -/
  artist : Option Nat
  tracks : List Nat
  deriving DecidableEq, Repr

structure ArtistRow where
  id : Nat
  name : Option String
  tracks : List Nat
  deriving DecidableEq, Repr

structure PlatformRow where
  id : Nat
  name : Option String
  deriving DecidableEq, Repr

instance : Row TrackRow := ⟨TrackRow.id⟩
instance : Row GameRow := ⟨GameRow.id⟩
instance : Row ArtistRow := ⟨ArtistRow.id⟩
instance : Row PlatformRow := ⟨PlatformRow.id⟩

structure Store where
  tracks : List TrackRow
  games : List GameRow
  artists : List ArtistRow
  platforms : List PlatformRow
  /-- the next random key; keys never repeat -/
  nextId : Nat
  deriving DecidableEq, Repr

/-- What an iteration over a managed list does once the list shrinks under it. -/
inductive Iteration
  | failFast | shifting
  deriving DecidableEq, Repr

def titleUnknown : String := "Unknown Track"
def gameUnknown : String := "Unknown Game"
def artistUnknown : String := "Unknown Artist"
def platformUnknown : String := "Unknown Platform"

namespace Store

def empty : Store := ⟨[],[],[],[],0⟩

def modifyTrack (s : Store) (track : Nat) (change : TrackRow → TrackRow) : Store :=
  {s with tracks := modify s.tracks track change}

def modifyGame (s : Store) (game : Nat) (change : GameRow → GameRow) : Store :=
  {s with games := modify s.games game change}

def modifyArtist (s : Store) (artist : Nat) (change : ArtistRow → ArtistRow) : Store :=
  {s with artists := modify s.artists artist change}

def link (s : Store) (track artist : Nat) : Store :=
  (s.modifyArtist artist fun row => {row with tracks := row.tracks ++ [track]}).modifyTrack track
    fun row => {row with artists := row.artists ++ [artist]}

def unlink (s : Store) (track artist : Nat) : Store :=
  (s.modifyArtist artist fun row => {row with tracks := row.tracks.erase track}).modifyTrack track
    fun row => {row with artists := row.artists.erase artist}

def saveTrack (s : Store) (track : Track) : Nat × Store :=
  (s.nextId,{s with
    tracks := s.tracks ++ [{track with
      id := s.nextId, platform := none, game := none, artists := []}]
    nextId := s.nextId + 1})

def getGame (s : Store) (platformName title : Option String) : Nat × Store :=
  match s.games.find? (fun row => row.platformName = platformName ∧ row.title = title) with
  | some row => (row.id,s)
  | none => (s.nextId,{s with
      games := s.games ++ [⟨s.nextId,title.getD gameUnknown,platformName.getD platformUnknown,
        none,none,none,[]⟩]
      nextId := s.nextId + 1})

def getArtistByName (s : Store) (name : String) : Nat × Store :=
  match s.artists.find? (fun row => row.name = some name) with
  | some row => (row.id,s)
  | none => (s.nextId,{s with
      artists := s.artists ++ [⟨s.nextId,some name,[]⟩], nextId := s.nextId + 1})

def getPlatform (s : Store) (name : Option String) : Nat × Store :=
  match s.platforms.find? (fun row => row.name = name) with
  | some row => (row.id,s)
  | none => (s.nextId,{s with
      platforms := s.platforms ++ [⟨s.nextId,name.getD platformUnknown⟩], nextId := s.nextId + 1})

def getArtistsByName (s : Store) : List String → List Nat × Store
  | [] => ([],s)
  | name::rest =>
    let (artist,s) := s.getArtistByName name
    let (artists,s) := s.getArtistsByName rest
    (artist::artists,s)

def getTrackFromPath (s : Store) (path : String) : Option TrackRow :=
  s.tracks.find? (fun row => row.path = some path)

def getTrackFromPathAndNumber (s : Store) (path : String) (trackNumber : Option Int) :
    Option TrackRow :=
  s.tracks.find? (fun row => row.path = some path ∧ row.trackNumber = trackNumber)

def getTrack (s : Store) (title gameTitle platformName : String) : Option TrackRow :=
  s.tracks.find? (fun row => row.title = some title ∧ row.gameTitle = some gameTitle ∧
    row.platformName = some platformName)

def artistName (s : Store) (artist : Nat) : Option String :=
  (row? s.artists artist).bind ArtistRow.name

end Store

/-- What the getter of `Game.artist` gives: nothing, the unsaved artist that stands for
various ones, or a stored artist. -/
inductive GameArtist
  | null | various | stored (artist : Nat)
  deriving DecidableEq, Repr

def GameRow.gameArtist (row : GameRow) : GameArtist :=
  if row.multipleArtists = some true then .various
  else match row.artist with
    | none => .null
    | some artist => .stored artist

namespace Store

/-- One turn of the loop of `addTrack` over the artists. -/
def credit (gameArtist : GameArtist) (gameHadMultipleArtists : Bool) (game track : Nat)
    (s : Store) (artist : Nat) : Store :=
  let s := s.link track artist
  if gameArtist ≠ .null ∧ gameHadMultipleArtists = false then
    if gameArtist ≠ .stored artist then
      s.modifyGame game fun row => {row with multipleArtists := some true, artist := none}
    else s
  else if gameArtist = .null then s.modifyGame game fun row => {row with artist := some artist}
  else s

def addTrack (s : Store) (unmanagedTrack : Track) : Nat × Store :=
  let (track,s) := s.saveTrack unmanagedTrack
  let (game,s) := s.getGame unmanagedTrack.platformName unmanagedTrack.gameTitle
  let (platform,s) := s.getPlatform unmanagedTrack.platformName
  let s := s.modifyTrack track fun row => {row with game := some game, platform := some platform}
  let s := s.modifyGame game fun row => {row with
    tracks := row.tracks ++ [track], platformName := unmanagedTrack.platformName}
  let names := (unmanagedTrack.artistText.map artistNames).getD []
  let (artists,s) := s.getArtistsByName names
  match row? s.games game with
  | none => (game,s)
  | some row =>
    (game,artists.foldl (credit row.gameArtist (row.multipleArtists.getD false) game track) s)

/-- The first loop of `updateArtists`, from a position of the track's live list; `none` is a
`ConcurrentModificationException`. The fuel bounds the turns. -/
def dropArtists (mode : Iteration) (newArtists : Option (List String)) (track : Nat) :
    Nat → Nat → Store → Bool → Store × Option Bool
  | 0,_,s,actuallyChanged => (s,some actuallyChanged)
  | fuel+1,cursor,s,actuallyChanged =>
    match ((row? s.tracks track).bind fun row => row.artists[cursor]?) with
    | none => (s,some actuallyChanged)
    | some oldArtist =>
      if (newArtists.getD []).any (fun name => s.artistName oldArtist = some name) then
        dropArtists mode newArtists track fuel (cursor + 1) s actuallyChanged
      else
        let s := s.unlink track oldArtist
        match mode with
        | .shifting => dropArtists mode newArtists track fuel (cursor + 1) s true
        | .failFast =>
          if ((row? s.tracks track).map fun row => row.artists.length) = some (cursor + 1) then
            (s,some true)
          else (s,none)

/-- One turn of the second loop of `updateArtists`. -/
def addArtist (track : Nat) (state : Store × Bool) (newArtist : String) : Store × Bool :=
  let artists := ((row? state.1.tracks track).map TrackRow.artists).getD []
  if artists.any (fun oldArtist => state.1.artistName oldArtist = some newArtist) then state
  else
    let (artist,s) := state.1.getArtistByName newArtist
    (s.link track artist,true)

def updateArtists (mode : Iteration) (s : Store) (newTrack : Track) (oldTrack : TrackRow) :
    Store × Option Bool :=
  if oldTrack.artistText ≠ newTrack.artistText then
    let s := s.modifyTrack oldTrack.id fun row => {row with artistText := newTrack.artistText}
    let newArtists := newTrack.artistText.map artistNames
    match dropArtists mode newArtists oldTrack.id oldTrack.artists.length 0 s false with
    | (s,none) => (s,none)
    | (s,some actuallyChanged) =>
      let (s,actuallyChanged) :=
        (newArtists.getD []).foldl (addArtist oldTrack.id) (s,actuallyChanged)
      (s,some actuallyChanged)
  else (s,some false)

def leaveGame (s : Store) (oldTrack : TrackRow) : Store :=
  match oldTrack.game with
  | none => s
  | some oldGame =>
    s.modifyGame oldGame fun row => {row with tracks := row.tracks.erase oldTrack.id}

/-- The first part of `updateGame`: a track with another game title moves to that game. The
track keeps its own game title. -/
def moveGame (s : Store) (newTrack : Track) (oldTrack : TrackRow) : Store :=
  let s := s.leaveGame oldTrack
  let (game,s) := s.getGame newTrack.platformName newTrack.gameTitle
  let s := s.modifyGame game fun row => {row with tracks := row.tracks ++ [oldTrack.id]}
  s.modifyTrack oldTrack.id fun row => {row with game := some game}

/-- The second part of `updateGame` finds the game known to have one artist and the track
credited to others. -/
def outgrows (s : Store) (track : Nat) : Option Nat :=
  match row? s.tracks track with
  | none => none
  | some oldTrack =>
    match oldTrack.game.bind (row? s.games) with
    | none => none
    | some game =>
      if game.multipleArtists = some false ∧ (oldTrack.artists.length > 1 ∨
          oldTrack.artists[0]?.bind s.artistName ≠ game.artist.bind s.artistName) then
        some game.id
      else none

def updateGame (s : Store) (newTrack : Track) (oldTrack : TrackRow) : Store × Bool :=
  let moved := oldTrack.gameTitle ≠ newTrack.gameTitle
  let s := if moved then s.moveGame newTrack oldTrack else s
  match s.outgrows oldTrack.id with
  | none => (s,moved)
  | some game =>
    (s.modifyGame game fun row => {row with multipleArtists := some true, artist := none},true)

/-- Gives whether anything changed, or nothing where the update throws. -/
def updateTrack (mode : Iteration) (s : Store) (oldTrack : TrackRow) (newTrack : Track) :
    Store × Option Bool :=
  let s := s.modifyTrack oldTrack.id fun row => {row with title := newTrack.title}
  match s.updateArtists mode newTrack oldTrack with
  | (s,none) => (s,none)
  | (s,some artistsChanged) =>
    let (s,gameChanged) := s.updateGame newTrack oldTrack
    (s.modifyTrack oldTrack.id fun row => {row with
        path := newTrack.path
        trackNumber := newTrack.trackNumber
        trackLength := newTrack.trackLength
        introLength := newTrack.introLength
        loopLength := newTrack.loopLength},
      some (oldTrack.title ≠ newTrack.title || artistsChanged || gameChanged ||
        oldTrack.path ≠ newTrack.path || oldTrack.trackNumber ≠ newTrack.trackNumber ||
        oldTrack.trackLength ≠ newTrack.trackLength ||
        oldTrack.introLength ≠ newTrack.introLength || oldTrack.loopLength ≠ newTrack.loopLength))

def updateGameArt (s : Store) (game : Nat) (artLocal : String) : Store :=
  s.modifyGame game fun row => {row with artLocal := some artLocal}

def clearAll (s : Store) : Store := {s with tracks := [], artists := [], games := []}

def deleteTrack (s : Store) (track : Nat) : Store := {s with
  tracks := delete s.tracks track
  games := s.games.map fun row => {row with tracks := row.tracks.filter (· ≠ track)}
  artists := s.artists.map fun row => {row with tracks := row.tracks.filter (· ≠ track)}}

def deleteGame (s : Store) (game : Nat) : Store := {s with
  games := delete s.games game
  tracks := s.tracks.map fun row => {row with game := row.game.filter (· ≠ game)}}

def deleteArtist (s : Store) (artist : Nat) : Store := {s with
  artists := delete s.artists artist
  tracks := s.tracks.map fun row => {row with artists := row.artists.filter (· ≠ artist)}
  games := s.games.map fun row => {row with artist := row.artist.filter (· ≠ artist)}}

end Store

inductive Command
  | addTrack (track : Track)
  | updateTrack (oldTrack : Nat) (newTrack : Track)
  | deleteTrack (track : Nat)
  | deleteGame (game : Nat)
  | deleteArtist (artist : Nat)
  | clearAll
  deriving DecidableEq, Repr

/-- One call of the repository. A call on an object that is not stored is not made, and an
update that throws leaves what it has written so far. -/
def step (mode : Iteration) (s : Store) : Command → Option Store
  | .addTrack track => some (s.addTrack track).2
  | .updateTrack oldTrack newTrack =>
    (row? s.tracks oldTrack).map fun row => (s.updateTrack mode row newTrack).1
  | .deleteTrack track => (row? s.tracks track).map fun row => s.deleteTrack row.id
  | .deleteGame game => (row? s.games game).map fun row => s.deleteGame row.id
  | .deleteArtist artist => (row? s.artists artist).map fun row => s.deleteArtist row.id
  | .clearAll => some s.clearAll

end Chipbox.Library
