import Chipbox.Library.Recredit
import Chipbox.Library.Storage

/-! Games, artists and platforms are found by their names and created where they are missing.
What is created has the names that were looked for as long as these are given. -/
namespace Chipbox.Library
open Table Index

/-- What `getTrack` gives every track. -/
structure Track.Built (track : Track) : Prop where
  gameTitle : track.gameTitle.isSome
  platformName : track.platformName.isSome
  artistText : track.artistText.isSome

def Command.Built : Command → Prop
  | .addTrack track => track.Built
  | .updateTrack _ newTrack => newTrack.Built
  | _ => True

instance (track : Track) : Decidable track.Built :=
  decidable_of_iff (track.gameTitle.isSome ∧ track.platformName.isSome ∧ track.artistText.isSome)
    ⟨fun all => ⟨all.1,all.2.1,all.2.2⟩,fun built => ⟨built.gameTitle,built.platformName,built.artistText⟩⟩

instance : (command : Command) → Decidable command.Built
  | .addTrack track => inferInstanceAs (Decidable track.Built)
  | .updateTrack _ newTrack => inferInstanceAs (Decidable newTrack.Built)
  | .deleteTrack _ | .deleteGame _ | .deleteArtist _ | .clearAll => .isTrue trivial

theorem getTrack_built {backendId trackNumber : Int} {reply : ScannerReply} {path : String}
    {track : Track} (read : getTrack backendId reply path trackNumber = some track) : track.Built := by
  obtain ⟨_,_,rfl⟩ := Option.map_eq_some_iff.mp read
  exact ⟨rfl,rfl,rfl⟩

theorem readSingleTrackFile_built {readers : Readers} {path : String} {trackNumber : Int} {track : Track}
    (read : readSingleTrackFile readers path trackNumber = some track) : track.Built := by
  simp only [readSingleTrackFile,Option.bind_eq_some_iff,Option.map_eq_some_iff] at read
  obtain ⟨_,_,_,_,_,read,rfl⟩ := read
  obtain ⟨gameTitle,platformName,artistText⟩ := getTrack_built read
  exact ⟨gameTitle,platformName,artistText⟩

theorem readMultipleTrackFile_built {readers : Readers} {path : String} {tracks : List Track}
    (read : readMultipleTrackFile readers path = some tracks) : ∀ track ∈ tracks, track.Built := by
  simp only [readMultipleTrackFile,Option.bind_eq_some_iff,Option.map_eq_some_iff] at read
  obtain ⟨_,_,_,_,rfl⟩ := read
  intro track listed
  obtain ⟨_,_,read⟩ := List.mem_filterMap.mp listed
  simp only [readTrackOf,Option.map_eq_some_iff] at read
  obtain ⟨_,read,rfl⟩ := read
  obtain ⟨gameTitle,platformName,artistText⟩ := getTrack_built read
  exact ⟨gameTitle,platformName,artistText⟩

/-- The names that `getGame` looks for. -/
def GameRow.names (row : GameRow) : Option String × Option String := (row.platformName,row.title)

namespace Store

/-- No two games have the same platform name and title, no two artists and no two platforms the
same name. -/
structure NamesUnique (s : Store) : Prop where
  games : Unique GameRow.names s.games
  artists : Unique ArtistRow.name s.artists
  platforms : Unique PlatformRow.name s.platforms

instance (s : Store) : Decidable s.NamesUnique :=
  decidable_of_iff (Unique GameRow.names s.games ∧ Unique ArtistRow.name s.artists ∧
      Unique PlatformRow.name s.platforms)
    ⟨fun all => ⟨all.1,all.2.1,all.2.2⟩,fun unique => ⟨unique.games,unique.artists,unique.platforms⟩⟩

theorem empty_namesUnique : empty.NamesUnique := ⟨List.nodup_nil,List.nodup_nil,List.nodup_nil⟩

section Creation
variable {s : Store}

theorem find_game (s : Store) (platformName title : Option String) :
    s.games.find? (fun row => row.platformName = platformName ∧ row.title = title) =
      lookup GameRow.names s.games (platformName,title) := by
  unfold lookup GameRow.names
  simp only [Prod.mk.injEq]

theorem getGame_eq (s : Store) (platformName title : String) :
    let found := findOrCreate GameRow.names s.games
      ⟨s.nextId,some title,some platformName,none,none,none,[]⟩
    (s.getGame (some platformName) (some title)).1 = found.1.id ∧
      (s.getGame (some platformName) (some title)).2.games = found.2 := by
  unfold getGame findOrCreate
  rw [find_game]
  dsimp only [GameRow.names]
  cases lookup GameRow.names s.games (some platformName,some title) with
  | none => exact ⟨rfl,rfl⟩
  | some row => exact ⟨rfl,rfl⟩

theorem getArtistByName_eq (s : Store) (name : String) :
    let found := findOrCreate ArtistRow.name s.artists ⟨s.nextId,some name,[]⟩
    (s.getArtistByName name).1 = found.1.id ∧ (s.getArtistByName name).2.artists = found.2 := by
  unfold getArtistByName findOrCreate lookup
  dsimp only
  cases s.artists.find? (fun row => row.name = some name) with
  | none => exact ⟨rfl,rfl⟩
  | some row => exact ⟨rfl,rfl⟩

theorem getPlatform_eq (s : Store) (name : String) :
    let found := findOrCreate PlatformRow.name s.platforms ⟨s.nextId,some name⟩
    (s.getPlatform (some name)).1 = found.1.id ∧ (s.getPlatform (some name)).2.platforms = found.2 := by
  unfold getPlatform findOrCreate lookup
  dsimp only
  cases s.platforms.find? (fun row => row.name = some name) with
  | none => exact ⟨rfl,rfl⟩
  | some row => exact ⟨rfl,rfl⟩

/-- The game that is found or created has the names that were looked for. -/
theorem getGame_names (s : Store) (platformName title : String) :
    ∃ row ∈ (s.getGame (some platformName) (some title)).2.games,
      row.id = (s.getGame (some platformName) (some title)).1 ∧
        row.names = (some platformName,some title) := by
  obtain ⟨key,games⟩ := getGame_eq s platformName title
  rw [key,games]
  exact ⟨_,findOrCreate_mem _ _ _,rfl,findOrCreate_label _ _ _⟩

theorem getGame_rest (s : Store) (platformName title : Option String) :
    (s.getGame platformName title).2.artists = s.artists ∧
      (s.getGame platformName title).2.platforms = s.platforms := by
  unfold getGame
  split
  · exact ⟨rfl,rfl⟩
  · exact ⟨rfl,rfl⟩

theorem getArtistByName_rest (s : Store) (name : String) :
    (s.getArtistByName name).2.games = s.games ∧ (s.getArtistByName name).2.platforms = s.platforms := by
  unfold getArtistByName
  split
  · exact ⟨rfl,rfl⟩
  · exact ⟨rfl,rfl⟩

end Creation

section Edits
variable {s : Store}

theorem NamesUnique.getGame (unique : s.NamesUnique) (platformName title : String) :
    (s.getGame (some platformName) (some title)).2.NamesUnique := by
  obtain ⟨artists,platforms⟩ := getGame_rest s (some platformName) (some title)
  refine ⟨?_,artists ▸ unique.artists,platforms ▸ unique.platforms⟩
  rw [(getGame_eq s platformName title).2]
  exact unique.games.findOrCreate _

theorem NamesUnique.getArtistByName (unique : s.NamesUnique) (name : String) :
    (s.getArtistByName name).2.NamesUnique := by
  obtain ⟨games,platforms⟩ := getArtistByName_rest s name
  refine ⟨games ▸ unique.games,?_,platforms ▸ unique.platforms⟩
  rw [(getArtistByName_eq s name).2]
  exact unique.artists.findOrCreate _

theorem NamesUnique.getPlatform (unique : s.NamesUnique) (name : String) :
    (s.getPlatform (some name)).2.NamesUnique := by
  obtain ⟨_,games,artists⟩ := getPlatform_still s (some name)
  refine ⟨games ▸ unique.games,artists ▸ unique.artists,?_⟩
  rw [(getPlatform_eq s name).2]
  exact unique.platforms.findOrCreate _

theorem NamesUnique.getArtistsByName (unique : s.NamesUnique) (names : List String) :
    (s.getArtistsByName names).2.NamesUnique := by
  induction names generalizing s with
  | nil => exact unique
  | cons name rest ih => exact ih (unique.getArtistByName name)

theorem NamesUnique.modifyGame {change : GameRow → GameRow} (unique : s.NamesUnique)
    (keeps : ∀ row, (change row).names = row.names) (game : Nat) :
    (s.modifyGame game change).NamesUnique := by
  refine ⟨(unique_map fun row => ?_).mpr unique.games,unique.artists,unique.platforms⟩
  split
  · exact keeps row
  · rfl

theorem NamesUnique.modifyTrack (unique : s.NamesUnique) (track : Nat)
    (change : TrackRow → TrackRow) : (s.modifyTrack track change).NamesUnique :=
  ⟨unique.games,unique.artists,unique.platforms⟩

theorem NamesUnique.modifyArtist {change : ArtistRow → ArtistRow} (unique : s.NamesUnique)
    (keeps : ∀ row, (change row).name = row.name) (artist : Nat) :
    (s.modifyArtist artist change).NamesUnique := by
  refine ⟨unique.games,(unique_map fun row => ?_).mpr unique.artists,unique.platforms⟩
  split
  · exact keeps row
  · rfl

theorem NamesUnique.link (unique : s.NamesUnique) (track artist : Nat) :
    (s.link track artist).NamesUnique := by
  unfold Store.link
  exact (unique.modifyArtist (by exact fun _ => rfl) artist).modifyTrack track _

theorem NamesUnique.unlink (unique : s.NamesUnique) (track artist : Nat) :
    (s.unlink track artist).NamesUnique := by
  unfold Store.unlink
  exact (unique.modifyArtist (by exact fun _ => rfl) artist).modifyTrack track _

end Edits
section Addition
variable {s : Store}

/-- Setting the platform name of a game to the one it has changes nothing, since no other game has
its key. -/
theorem listTrack_eq (distinct : Distinct s.games) {row : GameRow} (stored : row ∈ s.games)
    {platformName : Option String} (named : row.platformName = platformName) (track : Nat) :
    (s.modifyGame row.id fun row =>
        {row with tracks := row.tracks ++ [track], platformName := platformName}) =
      s.modifyGame row.id fun row => {row with tracks := row.tracks ++ [track]} := by
  unfold modifyGame
  congr 1
  exact modify_congr distinct stored (by rw [← named])

/-- An addition writes the platform name of its game anew, which is the one it was found by. -/
theorem enter_eq (tied : s.Tied) {track : Track} {platformName title : String}
    (placed : track.platformName = some platformName) (titled : track.gameTitle = some title) :
    let found := (s.saveTrack track).2.getGame (some platformName) (some title)
    let platform := found.2.getPlatform (some platformName)
    s.enter track = (found.1,(platform.2.modifyTrack s.nextId fun row =>
        {row with game := some found.1, platform := some platform.1}).modifyGame found.1 fun row =>
      {row with tracks := row.tracks ++ [s.nextId]}) := by
  have keyed := (saveTrack_held tied track).keyed
  have found_keyed := (getGame_spec keyed (some platformName) (some title)).1
  obtain ⟨row,stored,key,names⟩ := getGame_names (s.saveTrack track).2 platformName title
  unfold enter
  rw [titled,placed]
  dsimp only
  generalize (s.saveTrack track).2.getGame (some platformName) (some title) = game at *
  have games := (getPlatform_still game.2 (some platformName)).2.1
  rw [← key]
  congr 1
  apply listTrack_eq
  · exact games ▸ found_keyed.games
  · exact games ▸ stored
  · exact congrArg Prod.fst names

theorem NamesUnique.enter (unique : s.NamesUnique) (tied : s.Tied) {track : Track}
    (built : track.Built) : (s.enter track).2.NamesUnique := by
  obtain ⟨title,titled⟩ := Option.isSome_iff_exists.mp built.gameTitle
  obtain ⟨platformName,placed⟩ := Option.isSome_iff_exists.mp built.platformName
  have saved : (s.saveTrack track).2.NamesUnique := ⟨unique.games,unique.artists,unique.platforms⟩
  have found := saved.getGame platformName title
  rw [enter_eq tied placed titled]
  exact ((found.getPlatform platformName).modifyTrack _ _).modifyGame (by exact fun _ => rfl) _

theorem NamesUnique.credit (unique : s.NamesUnique) (gameArtist : GameArtist) (had : Bool)
    (game track artist : Nat) : (Store.credit gameArtist had game track s artist).NamesUnique := by
  have linked := unique.link track artist
  obtain same | ⟨summary,same⟩ := credit_cases (s := s) gameArtist had game track artist
  · rw [same]
    exact linked
  · rw [same]
    exact linked.modifyGame (by exact fun _ => rfl) game

theorem NamesUnique.credits (unique : s.NamesUnique) (gameArtist : GameArtist) (had : Bool)
    (game track : Nat) (artists : List Nat) :
    (artists.foldl (Store.credit gameArtist had game track) s).NamesUnique := by
  induction artists generalizing s with
  | nil => exact unique
  | cons artist rest ih => exact ih (unique.credit gameArtist had game track artist)

theorem NamesUnique.addTrack (unique : s.NamesUnique) (tied : s.Tied) {track : Track}
    (built : track.Built) : (s.addTrack track).2.NamesUnique := by
  have found := (unique.enter tied built).getArtistsByName (creditedNames track)
  rw [addTrack_eq]
  dsimp only
  split
  · exact found
  · exact found.credits _ _ _ _ _

end Addition

section Catalogue
variable {s : Store}

theorem game?_eq (s : Store) (platformName title : Option String) :
    s.game? platformName title =
      (lookup GameRow.names s.games (platformName,title)).map GameRow.id := by
  unfold game?
  rw [find_game]

/-- Finding or creating a game makes the names find it and leaves all other names alone. -/
theorem getGame_game? (s : Store) (platformName title : String) (otherPlatform otherTitle : Option String) :
    (s.getGame (some platformName) (some title)).2.game? otherPlatform otherTitle =
      if otherPlatform = some platformName ∧ otherTitle = some title then
        some (s.getGame (some platformName) (some title)).1
      else s.game? otherPlatform otherTitle := by
  obtain ⟨key,games⟩ := getGame_eq s platformName title
  rw [game?_eq,game?_eq,games,key,lookup_findOrCreate]
  by_cases here : otherPlatform = some platformName ∧ otherTitle = some title
  · rw [if_pos here]
    obtain ⟨rfl,rfl⟩ := here
    simp only [GameRow.names,Function.update_self,Option.map_some]
  · rw [if_neg here,Function.update_of_ne]
    intro same
    exact here (Prod.mk.inj same)

theorem modifyGame_game? {change : GameRow → GameRow}
    (keeps : ∀ row, (change row).id = row.id ∧ (change row).names = row.names) (s : Store) (game : Nat) :
    (s.modifyGame game change).game? = s.game? := by
  funext platformName title
  rw [game?_eq,game?_eq]
  have names (row : GameRow) :
      (if Row.key row = game then change row else row).names = row.names := by
    split
    · exact (keeps row).2
    · rfl
  have ids : (GameRow.id ∘ fun row => if Row.key row = game then change row else row) = GameRow.id :=
    funext (key_modified (fun row => (keeps row).1) game)
  unfold modifyGame Table.modify
  rw [lookup_map names,Option.map_map,ids]

theorem credits_game? (gameArtist : GameArtist) (had : Bool) (game track : Nat) (artists : List Nat)
    (s : Store) : (artists.foldl (credit gameArtist had game track) s).game? = s.game? := by
  induction artists generalizing s with
  | nil => rfl
  | cons artist rest ih =>
    have linked : (s.link track artist).game? = s.game? := rfl
    refine (ih _).trans ?_
    obtain same | ⟨summary,same⟩ := credit_cases (s := s) gameArtist had game track artist
    · rw [same,linked]
    · rw [same,modifyGame_game? (by exact fun _ => ⟨rfl,rfl⟩),linked]

theorem enter_game? (tied : s.Tied) {track : Track} (built : track.Built)
    (platformName title : Option String) : (s.enter track).2.game? platformName title =
      if platformName = track.platformName ∧ title = track.gameTitle then some (s.enter track).1
      else s.game? platformName title := by
  obtain ⟨ownTitle,titled⟩ := Option.isSome_iff_exists.mp built.gameTitle
  obtain ⟨ownPlatform,placed⟩ := Option.isSome_iff_exists.mp built.platformName
  have found := getGame_game? (s.saveTrack track).2 ownPlatform ownTitle platformName title
  have saved : (s.saveTrack track).2.game? platformName title = s.game? platformName title := rfl
  rw [enter_eq tied placed titled,placed,titled]
  dsimp only
  rw [modifyGame_game? (by exact fun _ => ⟨rfl,rfl⟩),← saved,← found]
  generalize (s.saveTrack track).2.getGame (some ownPlatform) (some ownTitle) = game
  unfold game? modifyTrack
  dsimp only
  rw [(getPlatform_still game.2 (some ownPlatform)).2.1]

/-- An addition makes the names of the track find the game it gives and leaves all other names alone. -/
theorem addTrack_game? (tied : s.Tied) {track : Track} (built : track.Built)
    (platformName title : Option String) : (s.addTrack track).2.game? platformName title =
      if platformName = track.platformName ∧ title = track.gameTitle then some (s.addTrack track).1
      else s.game? platformName title := by
  have entered := enter_game? tied built platformName title
  have credited (names : List String) :
      ((s.enter track).2.getArtistsByName names).2.game? = (s.enter track).2.game? := by
    obtain ⟨_,_,_,_,games,_⟩ := getArtistsByName_spec (enter_rest tied track).1 names
    unfold game?
    rw [games]
  rw [addTrack_eq]
  dsimp only
  split
  · rw [credited]
    exact entered
  · rw [credits_game?,credited]
    exact entered

theorem addTrack_id (s : Store) (track : Track) : (s.addTrack track).1 =
    (s.game? track.platformName track.gameTitle).getD (s.nextId + 1) := by
  rw [← enter_id,addTrack_eq]
  dsimp only
  split
  · rfl
  · rfl

/-- Two tracks with the same names that are added in turn come into one game. -/
theorem addTrack_together (tied : s.Tied) {first second : Track} (built : first.Built)
    (platform : second.platformName = first.platformName) (title : second.gameTitle = first.gameTitle) :
    ((s.addTrack first).2.addTrack second).1 = (s.addTrack first).1 := by
  rw [addTrack_id (s.addTrack first).2,addTrack_game? tied built,if_pos ⟨platform,title⟩]
  rfl

end Catalogue

section Update
variable {s : Store}

theorem NamesUnique.dropArtists (unique : s.NamesUnique) (mode : Iteration)
    (newArtists : Option (List String)) (track fuel cursor : Nat) (actuallyChanged : Bool) :
    (s.dropArtists mode newArtists track fuel cursor actuallyChanged).1.NamesUnique := by
  induction fuel generalizing s cursor actuallyChanged with
  | zero => exact unique
  | succ fuel ih =>
    unfold Store.dropArtists
    split
    · exact unique
    next oldArtist _ =>
      have unlinked := unique.unlink track oldArtist
      split
      · exact ih unique _ _
      · dsimp only
        split
        · exact ih unlinked _ _
        · split
          · exact unlinked
          · exact unlinked

theorem NamesUnique.addArtists {state : Store × Bool} (unique : state.1.NamesUnique) (track : Nat)
    (names : List String) : (names.foldl (addArtist track) state).1.NamesUnique := by
  induction names generalizing state with
  | nil => exact unique
  | cons name rest ih =>
    apply ih
    unfold addArtist
    dsimp only
    split
    · exact unique
    · exact (unique.getArtistByName name).link track _

theorem NamesUnique.updateArtists (unique : s.NamesUnique) (mode : Iteration) (newTrack : Track)
    (oldTrack : TrackRow) : (s.updateArtists mode newTrack oldTrack).1.NamesUnique := by
  unfold Store.updateArtists
  split
  next =>
    have texted := unique.modifyTrack oldTrack.id fun row =>
      {row with artistText := newTrack.artistText}
    have dropped := texted.dropArtists mode (newTrack.artistText.map artistNames) oldTrack.id
      oldTrack.artists.length 0 false
    dsimp only
    split
    next outcome =>
      rw [outcome] at dropped
      exact dropped
    next outcome =>
      rw [outcome] at dropped
      exact NamesUnique.addArtists dropped oldTrack.id _
  next => exact unique

theorem NamesUnique.leaveGame (unique : s.NamesUnique) (oldTrack : TrackRow) :
    (s.leaveGame oldTrack).NamesUnique := by
  unfold Store.leaveGame
  split
  · exact unique
  · exact unique.modifyGame (by exact fun _ => rfl) _

theorem NamesUnique.moveGame (unique : s.NamesUnique) {newTrack : Track} (built : newTrack.Built)
    (oldTrack : TrackRow) : (s.moveGame newTrack oldTrack).NamesUnique := by
  obtain ⟨title,titled⟩ := Option.isSome_iff_exists.mp built.gameTitle
  obtain ⟨platformName,placed⟩ := Option.isSome_iff_exists.mp built.platformName
  have found := (unique.leaveGame oldTrack).getGame platformName title
  unfold Store.moveGame
  rw [titled,placed]
  exact (found.modifyGame (by exact fun _ => rfl) _).modifyTrack oldTrack.id _

theorem NamesUnique.updateGame (unique : s.NamesUnique) {newTrack : Track} (built : newTrack.Built)
    (oldTrack : TrackRow) : (s.updateGame newTrack oldTrack).1.NamesUnique := by
  have moved : (if oldTrack.gameTitle ≠ newTrack.gameTitle then s.moveGame newTrack oldTrack
      else s).NamesUnique := by
    split
    · exact unique.moveGame built oldTrack
    · exact unique
  unfold Store.updateGame
  dsimp only
  split
  · exact moved
  · exact moved.modifyGame (by exact fun _ => rfl) _

/-- An update keeps the names unique, also where it throws half-way. -/
theorem NamesUnique.updateTrack (unique : s.NamesUnique) (mode : Iteration) {newTrack : Track}
    (built : newTrack.Built) (oldTrack : TrackRow) :
    (s.updateTrack mode oldTrack newTrack).1.NamesUnique := by
  have titled := unique.modifyTrack oldTrack.id fun row => {row with title := newTrack.title}
  have credited := titled.updateArtists mode newTrack oldTrack
  unfold Store.updateTrack
  dsimp only
  split
  next outcome =>
    rw [outcome] at credited
    exact credited
  next outcome =>
    rw [outcome] at credited
    exact (credited.updateGame built oldTrack).modifyTrack oldTrack.id _

end Update

section Deletion
variable {s : Store}

theorem NamesUnique.deleteTrack (unique : s.NamesUnique) (track : Nat) :
    (s.deleteTrack track).NamesUnique :=
  ⟨(unique_map (by exact fun _ => rfl)).mpr unique.games,
    (unique_map (by exact fun _ => rfl)).mpr unique.artists,unique.platforms⟩

theorem NamesUnique.deleteGame (unique : s.NamesUnique) (game : Nat) :
    (s.deleteGame game).NamesUnique :=
  ⟨unique.games.filter _,unique.artists,unique.platforms⟩

theorem NamesUnique.deleteArtist (unique : s.NamesUnique) (artist : Nat) :
    (s.deleteArtist artist).NamesUnique :=
  ⟨(unique_map (by exact fun _ => rfl)).mpr unique.games,unique.artists.filter _,unique.platforms⟩

theorem NamesUnique.clearAll (unique : s.NamesUnique) : s.clearAll.NamesUnique :=
  ⟨List.nodup_nil,List.nodup_nil,unique.platforms⟩

end Deletion
end Store

theorem step_namesUnique (mode : Iteration) {s t : Store} {command : Command} (tied : s.Tied)
    (unique : s.NamesUnique) (built : command.Built) (taken : step mode s command = some t) :
    t.NamesUnique := by
  cases command with
  | addTrack track =>
    cases Option.some.inj taken
    exact unique.addTrack tied built
  | updateTrack oldTrack newTrack =>
    obtain ⟨row,_,rfl⟩ := Option.map_eq_some_iff.mp taken
    exact unique.updateTrack mode built row
  | deleteTrack track =>
    obtain ⟨row,_,rfl⟩ := Option.map_eq_some_iff.mp taken
    exact unique.deleteTrack row.id
  | deleteGame game =>
    obtain ⟨row,_,rfl⟩ := Option.map_eq_some_iff.mp taken
    exact unique.deleteGame row.id
  | deleteArtist artist =>
    obtain ⟨row,_,rfl⟩ := Option.map_eq_some_iff.mp taken
    exact unique.deleteArtist row.id
  | clearAll =>
    cases Option.some.inj taken
    exact unique.clearAll

theorem built_meets (mode : Iteration) {commands : List Command}
    (built : ∀ command ∈ commands, command.Built) :
    Run.Meets (step mode) (fun _ command => command.Built) Store.empty commands :=
  Run.meets_of_labels (fun command made _ => built command made) Store.empty

theorem step_named (mode : Iteration) (s : Store) (command : Command) (t : Store)
    (named : s.Tied ∧ s.NamesUnique) (built : command.Built) (taken : step mode s command = some t) :
    t.Tied ∧ t.NamesUnique :=
  ⟨step_tied mode named.1 taken,step_namesUnique mode named.1 named.2 built taken⟩

/-- In every store of a run of calls with tracks that a file reader has built, no two games have the
same platform name and title, no two artists and no two platforms the same name. -/
theorem names_unique (mode : Iteration) {commands : List Command}
    (built : ∀ command ∈ commands, command.Built) :
    Run.Always (step mode) Store.NamesUnique .empty commands :=
  Run.always_of_meets (fun _ named => named.2) (step_named mode)
    ⟨Store.empty_sound.tied,Store.empty_namesUnique⟩ (built_meets mode built)

/-- A game found again, one made by an update, a game and artists that are deleted and made anew. -/
theorem names_unique_remade :
    Run.Always (step .failFast) Store.NamesUnique .empty
      [.addTrack (creditedTrack "A, B"),.addTrack (creditedTrack "B and C"),
        .updateTrack 0 {creditedTrack "D" with gameTitle := some "Other"},.deleteGame 1,
        .addTrack (creditedTrack "A & A"),.clearAll,.addTrack (creditedTrack "A")] :=
  names_unique .failFast (by decide)

/-- A second track without a game title makes a second game of the default title. -/
example : ∃ s, Run.exec (step .failFast) .empty
      [.addTrack {creditedTrack "A" with gameTitle := none},
        .addTrack {creditedTrack "A" with gameTitle := none}] = some s ∧ ¬ s.NamesUnique :=
  ⟨_,rfl,by decide⟩

theorem reached_namesUnique {mode : Iteration} {commands : List Command} {s : Store}
    (built : ∀ command ∈ commands, command.Built)
    (reached : Run.exec (step mode) .empty commands = some s) : s.NamesUnique :=
  (Run.guarded_invariant (step_named mode) ⟨Store.empty_sound.tied,Store.empty_namesUnique⟩ reached
    (built_meets mode built)).2

/-- Looking for a stored game, artist or platform by its names finds that one and creates nothing. -/
theorem found_by_names {mode : Iteration} {commands : List Command} {s : Store}
    (built : ∀ command ∈ commands, command.Built)
    (reached : Run.exec (step mode) .empty commands = some s) :
    (∀ game ∈ s.games, s.getGame game.platformName game.title = (game.id,s)) ∧
      (∀ artist ∈ s.artists, ∀ name, artist.name = some name →
        s.getArtistByName name = (artist.id,s)) ∧
      ∀ platform ∈ s.platforms, s.getPlatform platform.name = (platform.id,s) := by
  have unique := reached_namesUnique built reached
  refine ⟨fun game stored => ?_,fun artist stored name named => ?_,fun platform stored => ?_⟩
  · have found := unique.games.lookup_of_mem stored
    unfold Store.getGame
    rw [Store.find_game]
    unfold GameRow.names at found ⊢
    rw [found]
  · have found := unique.artists.lookup_of_mem stored
    rw [named] at found
    unfold lookup at found
    unfold Store.getArtistByName
    rw [found]
  · have found := unique.platforms.lookup_of_mem stored
    unfold lookup at found
    unfold Store.getPlatform
    rw [found]

end Chipbox.Library
