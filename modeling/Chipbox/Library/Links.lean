import Chipbox.Foundation.Pairing
import Chipbox.Foundation.Run
import Chipbox.Library.Store

/-! The links between tracks, games and artists are kept in both directions by hand. -/
namespace Chipbox.Library
open Table

/-- Both directions of each link agree and list each partner once. -/
structure Linked (s : Store) : Prop where
  game : ∀ track ∈ s.tracks, ∀ game ∈ s.games, track.game = some game.id ↔ track.id ∈ game.tracks
  artist : ∀ track ∈ s.tracks, ∀ artist ∈ s.artists,
    artist.id ∈ track.artists ↔ track.id ∈ artist.tracks
  gameTracks : ∀ game ∈ s.games, game.tracks.Nodup
  artistTracks : ∀ artist ∈ s.artists, artist.tracks.Nodup
  trackArtists : ∀ track ∈ s.tracks, track.artists.Nodup

namespace Store

def gamePairing (s : Store) : Pairing Nat Nat :=
  ⟨fun track => ((row? s.tracks track).bind TrackRow.game).toList,
    fun game => ((row? s.games game).map GameRow.tracks).getD []⟩

def artistPairing (s : Store) : Pairing Nat Nat :=
  ⟨fun track => ((row? s.tracks track).map TrackRow.artists).getD [],
    fun artist => ((row? s.artists artist).map ArtistRow.tracks).getD []⟩

structure Keyed (s : Store) : Prop where
  tracks : Distinct s.tracks
  games : Distinct s.games
  artists : Distinct s.artists
  platforms : Distinct s.platforms
  tracksBelow : Below s.nextId s.tracks
  gamesBelow : Below s.nextId s.games
  artistsBelow : Below s.nextId s.artists
  platformsBelow : Below s.nextId s.platforms

/-- Keys are in order and both relations are consistent, also towards keys not stored. -/
structure Sound (s : Store) : Prop where
  keyed : s.Keyed
  game : s.gamePairing.Consistent
  artist : s.artistPairing.Consistent

/-- Keys are in order, the games consistent and the credits of a kind that the edits keep. -/
structure Held (rel : Pairing Nat Nat → Prop) (s : Store) : Prop where
  keyed : s.Keyed
  game : s.gamePairing.Consistent
  artist : rel s.artistPairing

theorem sound_iff_held {s : Store} : s.Sound ↔ s.Held Pairing.Consistent :=
  ⟨fun sound => ⟨sound.keyed,sound.game,sound.artist⟩,fun held => ⟨held.keyed,held.game,held.artist⟩⟩

/-- The links of a store agree on both sides, repeated credits included. -/
abbrev Tied (s : Store) : Prop := s.Held Pairing.Balanced

theorem Sound.tied {s : Store} (sound : s.Sound) : s.Tied :=
  ⟨sound.keyed,sound.game,sound.artist.balanced⟩

theorem Sound.linked {s : Store} (sound : s.Sound) : Linked s := by
  have track {row : TrackRow} (present : row ∈ s.tracks) : row? s.tracks row.id = some row :=
    row?_of_mem sound.keyed.tracks present
  have game {row : GameRow} (present : row ∈ s.games) : row? s.games row.id = some row :=
    row?_of_mem sound.keyed.games present
  have artist {row : ArtistRow} (present : row ∈ s.artists) : row? s.artists row.id = some row :=
    row?_of_mem sound.keyed.artists present
  refine ⟨?_,?_,?_,?_,?_⟩
  · intro t storedTrack g storedGame
    have agree := sound.game.agree t.id g.id
    simpa [gamePairing,track storedTrack,game storedGame] using agree
  · intro t storedTrack a storedArtist
    have agree := sound.artist.agree t.id a.id
    simpa [artistPairing,track storedTrack,artist storedArtist] using agree
  · intro g stored
    simpa [gamePairing,game stored] using sound.game.backwardOnce g.id
  · intro a stored
    simpa [artistPairing,artist stored] using sound.artist.backwardOnce a.id
  · intro t stored
    simpa [artistPairing,track stored] using sound.artist.forwardOnce t.id

theorem empty_sound : empty.Sound where
  keyed := by constructor <;> simp [empty,Distinct,Below]
  game := Pairing.Consistent.none
  artist := Pairing.Consistent.none

section Changes
variable {s : Store} {rel : Pairing Nat Nat → Prop}

theorem row?_modifyTrack {change : TrackRow → TrackRow} (keeps : ∀ row, (change row).id = row.id)
    (s : Store) (track key : Nat) : row? (s.modifyTrack track change).tracks key =
      if key = track then (row? s.tracks track).map change else row? s.tracks key :=
  row?_modify s.tracks keeps track key

theorem row?_modifyGame {change : GameRow → GameRow} (keeps : ∀ row, (change row).id = row.id)
    (s : Store) (game key : Nat) : row? (s.modifyGame game change).games key =
      if key = game then (row? s.games game).map change else row? s.games key :=
  row?_modify s.games keeps game key

theorem Keyed.modifyTrack {change : TrackRow → TrackRow} (keyed : s.Keyed)
    (keeps : ∀ row, (change row).id = row.id) (track : Nat) : (s.modifyTrack track change).Keyed :=
  {keyed with
    tracks := (distinct_modify keeps track).mpr keyed.tracks
    tracksBelow := (below_modify keeps track).mpr keyed.tracksBelow}

theorem Keyed.modifyGame {change : GameRow → GameRow} (keyed : s.Keyed)
    (keeps : ∀ row, (change row).id = row.id) (game : Nat) : (s.modifyGame game change).Keyed :=
  {keyed with
    games := (distinct_modify keeps game).mpr keyed.games
    gamesBelow := (below_modify keeps game).mpr keyed.gamesBelow}

theorem Keyed.modifyArtist {change : ArtistRow → ArtistRow} (keyed : s.Keyed)
    (keeps : ∀ row, (change row).id = row.id) (artist : Nat) :
    (s.modifyArtist artist change).Keyed :=
  {keyed with
    artists := (distinct_modify keeps artist).mpr keyed.artists
    artistsBelow := (below_modify keeps artist).mpr keyed.artistsBelow}

theorem modifyTrack_gamePairing {change : TrackRow → TrackRow}
    (keeps : ∀ row, (change row).id = row.id) (same : ∀ row, (change row).game = row.game)
    (s : Store) (track : Nat) : (s.modifyTrack track change).gamePairing = s.gamePairing := by
  refine Pairing.ext (fun key => ?_) fun _ => rfl
  simp only [gamePairing,row?_modifyTrack keeps]
  split
  next here => subst here; cases row? s.tracks key <;> simp [same]
  next => rfl

theorem modifyTrack_artistPairing {change : TrackRow → TrackRow}
    (keeps : ∀ row, (change row).id = row.id) (same : ∀ row, (change row).artists = row.artists)
    (s : Store) (track : Nat) : (s.modifyTrack track change).artistPairing = s.artistPairing := by
  refine Pairing.ext (fun key => ?_) fun _ => rfl
  simp only [artistPairing,row?_modifyTrack keeps]
  split
  next here => subst here; cases row? s.tracks key <;> simp [same]
  next => rfl

theorem modifyGame_gamePairing {change : GameRow → GameRow}
    (keeps : ∀ row, (change row).id = row.id) (same : ∀ row, (change row).tracks = row.tracks)
    (s : Store) (game : Nat) : (s.modifyGame game change).gamePairing = s.gamePairing := by
  refine Pairing.ext (fun _ => rfl) fun key => ?_
  simp only [gamePairing,row?_modifyGame keeps]
  split
  next here => subst here; cases row? s.games key <;> simp [same]
  next => rfl

theorem Held.modifyTrack {change : TrackRow → TrackRow} (sound : s.Held rel)
    (keeps : ∀ row, (change row).id = row.id ∧ (change row).game = row.game ∧
      (change row).artists = row.artists) (track : Nat) : (s.modifyTrack track change).Held rel where
  keyed := sound.keyed.modifyTrack (fun row => (keeps row).1) track
  game := by
    rw [modifyTrack_gamePairing (fun row => (keeps row).1) (fun row => (keeps row).2.1)]
    exact sound.game
  artist := by
    rw [modifyTrack_artistPairing (fun row => (keeps row).1) (fun row => (keeps row).2.2)]
    exact sound.artist

theorem Held.modifyGame {change : GameRow → GameRow} (sound : s.Held rel)
    (keeps : ∀ row, (change row).id = row.id ∧ (change row).tracks = row.tracks) (game : Nat) :
    (s.modifyGame game change).Held rel where
  keyed := sound.keyed.modifyGame (fun row => (keeps row).1) game
  game := by
    rw [modifyGame_gamePairing (fun row => (keeps row).1) (fun row => (keeps row).2)]
    exact sound.game
  artist := sound.artist

theorem Keyed.link (keyed : s.Keyed) (track artist : Nat) : (s.link track artist).Keyed := by
  unfold Store.link
  exact Keyed.modifyTrack (keyed.modifyArtist (by exact fun _ => rfl) artist)
    (by exact fun _ => rfl) track

theorem Keyed.unlink (keyed : s.Keyed) (track artist : Nat) : (s.unlink track artist).Keyed := by
  unfold Store.unlink
  exact Keyed.modifyTrack (keyed.modifyArtist (by exact fun _ => rfl) artist)
    (by exact fun _ => rfl) track

theorem link_gamePairing (s : Store) (track artist : Nat) :
    (s.link track artist).gamePairing = s.gamePairing := by
  unfold Store.link
  rw [modifyTrack_gamePairing (by exact fun _ => rfl) (by exact fun _ => rfl)]
  rfl

theorem unlink_gamePairing (s : Store) (track artist : Nat) :
    (s.unlink track artist).gamePairing = s.gamePairing := by
  unfold Store.unlink
  rw [modifyTrack_gamePairing (by exact fun _ => rfl) (by exact fun _ => rfl)]
  rfl

theorem row?_link_tracks (s : Store) (track artist key : Nat) :
    row? (s.link track artist).tracks key =
      if key = track then (row? s.tracks track).map fun row =>
        {row with artists := row.artists ++ [artist]} else row? s.tracks key :=
  row?_modify s.tracks (by exact fun _ => rfl) track key

theorem row?_link_artists (s : Store) (track artist key : Nat) :
    row? (s.link track artist).artists key =
      if key = artist then (row? s.artists artist).map fun row =>
        {row with tracks := row.tracks ++ [track]} else row? s.artists key :=
  row?_modify s.artists (by exact fun _ => rfl) artist key

theorem row?_unlink_tracks (s : Store) (track artist key : Nat) :
    row? (s.unlink track artist).tracks key =
      if key = track then (row? s.tracks track).map fun row =>
        {row with artists := row.artists.erase artist} else row? s.tracks key :=
  row?_modify s.tracks (by exact fun _ => rfl) track key

theorem row?_unlink_artists (s : Store) (track artist key : Nat) :
    row? (s.unlink track artist).artists key =
      if key = artist then (row? s.artists artist).map fun row =>
        {row with tracks := row.tracks.erase track} else row? s.artists key :=
  row?_modify s.artists (by exact fun _ => rfl) artist key

/-- `link` joins the pair, provided both are stored. -/
theorem link_artistPairing {track artist : Nat} {trackRow : TrackRow} {artistRow : ArtistRow}
    (storedTrack : row? s.tracks track = some trackRow)
    (storedArtist : row? s.artists artist = some artistRow) :
    (s.link track artist).artistPairing = s.artistPairing.join track artist := by
  refine Pairing.ext (fun key => ?_) fun key => ?_
  · rw [Pairing.join_forward]
    simp only [artistPairing,row?_link_tracks]
    split <;> simp [storedTrack]
  · rw [Pairing.join_backward]
    simp only [artistPairing,row?_link_artists]
    split <;> simp [storedArtist]

theorem unlink_artistPairing (s : Store) (track artist : Nat) :
    (s.unlink track artist).artistPairing = s.artistPairing.part track artist := by
  refine Pairing.ext (fun key => ?_) fun key => ?_
  · rw [Pairing.part_forward]
    simp only [artistPairing,row?_unlink_tracks]
    split
    · cases row? s.tracks track <;> simp
    · rfl
  · rw [Pairing.part_backward]
    simp only [artistPairing,row?_unlink_artists]
    split
    · cases row? s.artists artist <;> simp
    · rfl

theorem Held.unlink (closed : Pairing.Discipline rel) (sound : s.Held rel) (track artist : Nat) :
    (s.unlink track artist).Held rel where
  keyed := sound.keyed.unlink track artist
  game := by rw [unlink_gamePairing]; exact sound.game
  artist := by rw [unlink_artistPairing]; exact closed.part sound.artist track artist

end Changes

section Queries
variable {s : Store} {rel : Pairing Nat Nat → Prop}

theorem saveTrack_held (sound : s.Held rel) (track : Track) : (s.saveTrack track).2.Held rel := by
  have fresh := row?_fresh sound.keyed.tracksBelow
  refine ⟨?_,?_,?_⟩
  · exact ⟨distinct_append sound.keyed.tracks sound.keyed.tracksBelow,sound.keyed.games,
      sound.keyed.artists,sound.keyed.platforms,below_append sound.keyed.tracksBelow,
      below_succ sound.keyed.gamesBelow,below_succ sound.keyed.artistsBelow,
      below_succ sound.keyed.platformsBelow⟩
  · have same : (s.saveTrack track).2.gamePairing = s.gamePairing := by
      refine Pairing.ext (fun key => ?_) fun _ => rfl
      simp only [gamePairing,saveTrack,row?_append]
      split
      next here => subst here; simp [Row.key,fresh]
      next => simp
    rw [same]
    exact sound.game
  · have same : (s.saveTrack track).2.artistPairing = s.artistPairing := by
      refine Pairing.ext (fun key => ?_) fun _ => rfl
      simp only [artistPairing,saveTrack,row?_append]
      split
      next here => subst here; simp [Row.key,fresh]
      next => simp
    rw [same]
    exact sound.artist

/-- Finding or creating a game gives a stored game and leaves the links alone. -/
theorem getGame_spec (keyed : s.Keyed) (platformName title : Option String) :
    let found := s.getGame platformName title
    found.2.Keyed ∧ found.2.gamePairing = s.gamePairing ∧
      found.2.artistPairing = s.artistPairing ∧ found.2.tracks = s.tracks ∧
      found.2.artists = s.artists ∧ ∃ row, row? found.2.games found.1 = some row := by
  have fresh := row?_fresh keyed.gamesBelow
  unfold getGame
  split
  next row found =>
    have stored := List.mem_of_find?_eq_some found
    exact ⟨keyed,rfl,rfl,rfl,rfl,row,row?_of_mem keyed.games stored⟩
  next =>
    refine ⟨?_,?_,rfl,rfl,rfl,?_⟩
    · exact ⟨keyed.tracks,distinct_append keyed.games keyed.gamesBelow,keyed.artists,
        keyed.platforms,below_succ keyed.tracksBelow,below_append keyed.gamesBelow,
        below_succ keyed.artistsBelow,below_succ keyed.platformsBelow⟩
    · refine Pairing.ext (fun _ => rfl) fun key => ?_
      simp only [gamePairing,row?_append]
      split
      next here => subst here; simp [Row.key,fresh]
      next => simp
    · simp [row?_append,Row.key,fresh]

/-- Finding or creating an artist gives a stored artist and leaves the links alone. -/
theorem getArtistByName_spec (keyed : s.Keyed) (name : String) :
    let found := s.getArtistByName name
    found.2.Keyed ∧ found.2.gamePairing = s.gamePairing ∧
      found.2.artistPairing = s.artistPairing ∧ found.2.tracks = s.tracks ∧
      found.2.games = s.games ∧
      (∃ row, row? found.2.artists found.1 = some row) ∧
      ∀ row, row? s.artists found.1 = some row → row.name = some name := by
  have fresh := row?_fresh keyed.artistsBelow
  unfold getArtistByName
  split
  next row found =>
    have stored := row?_of_mem keyed.artists (List.mem_of_find?_eq_some found)
    refine ⟨keyed,rfl,rfl,rfl,rfl,⟨row,stored⟩,fun other same => ?_⟩
    cases Option.some.inj (stored.symm.trans same)
    simpa using List.find?_some found
  next =>
    refine ⟨?_,rfl,?_,rfl,rfl,?_,fun row stored => by simp [fresh] at stored⟩
    · exact ⟨keyed.tracks,keyed.games,distinct_append keyed.artists keyed.artistsBelow,
        keyed.platforms,below_succ keyed.tracksBelow,below_succ keyed.gamesBelow,
        below_append keyed.artistsBelow,below_succ keyed.platformsBelow⟩
    · refine Pairing.ext (fun _ => rfl) fun key => ?_
      simp only [artistPairing,row?_append]
      split
      next here => subst here; simp [Row.key,fresh]
      next => simp
    · simp [row?_append,Row.key,fresh]

theorem getPlatform_held (sound : s.Held rel) (name : Option String) :
    (s.getPlatform name).2.Held rel ∧ (s.getPlatform name).2.tracks = s.tracks ∧
      (s.getPlatform name).2.games = s.games := by
  unfold getPlatform
  split
  next => exact ⟨sound,rfl,rfl⟩
  next =>
    refine ⟨⟨?_,sound.game,sound.artist⟩,rfl,rfl⟩
    have keyed := sound.keyed
    exact ⟨keyed.tracks,keyed.games,keyed.artists,
      distinct_append keyed.platforms keyed.platformsBelow,below_succ keyed.tracksBelow,
      below_succ keyed.gamesBelow,below_succ keyed.artistsBelow,below_append keyed.platformsBelow⟩

end Queries

section Update
variable {s : Store} {rel : Pairing Nat Nat → Prop}

theorem dropArtists_held (closed : Pairing.Discipline rel) (mode : Iteration)
    (newArtists : Option (List String)) (track fuel : Nat)
    (cursor : Nat) (actuallyChanged : Bool) (sound : s.Held rel) :
    (s.dropArtists mode newArtists track fuel cursor actuallyChanged).1.Held rel := by
  induction fuel generalizing s cursor actuallyChanged with
  | zero => exact sound
  | succ fuel ih =>
    unfold dropArtists
    split
    · exact sound
    · split
      · exact ih _ _ sound
      · dsimp only
        split
        · exact ih _ _ (sound.unlink closed _ _)
        · split
          · exact sound.unlink closed _ _
          · exact sound.unlink closed _ _

theorem Held.listed_artist (closed : Pairing.Discipline rel) (sound : s.Held rel) {track artist : Nat}
    (listed : artist ∈ s.artistPairing.forward track) :
    ∃ row, row? s.artists artist = some row := by
  have back := (closed.agree sound.artist track artist).mp listed
  cases stored : row? s.artists artist with
  | none => simp [artistPairing,stored] at back
  | some row => exact ⟨row,rfl⟩

theorem Held.link (closed : Pairing.Discipline rel) (sound : s.Held rel) {track artist : Nat}
    {trackRow : TrackRow}
    {artistRow : ArtistRow} (storedTrack : row? s.tracks track = some trackRow)
    (storedArtist : row? s.artists artist = some artistRow)
    (apart : artist ∉ s.artistPairing.forward track) : (s.link track artist).Held rel where
  keyed := sound.keyed.link track artist
  game := by rw [link_gamePairing]; exact sound.game
  artist := by rw [link_artistPairing storedTrack storedArtist]; exact closed.join sound.artist apart

theorem addArtist_held (closed : Pairing.Discipline rel) {track : Nat} {state : Store × Bool}
    {row : TrackRow}
    (sound : state.1.Held rel) (stored : row? state.1.tracks track = some row) (newArtist : String) :
    (addArtist track state newArtist).1.Held rel ∧
      ∃ artists, row? (addArtist track state newArtist).1.tracks track =
        some {row with artists := artists} := by
  obtain ⟨keyed,game,artist,tracks,_,⟨artistRow,found⟩,known⟩ :=
    getArtistByName_spec sound.keyed newArtist
  unfold addArtist
  rw [stored]
  dsimp only [Option.map_some,Option.getD_some]
  split
  · exact ⟨sound,row.artists,stored⟩
  next unmatched =>
    have still : row? (state.1.getArtistByName newArtist).2.tracks track = some row := by
      rw [tracks]
      exact stored
    have sound_found : (state.1.getArtistByName newArtist).2.Held rel :=
      ⟨keyed,by rw [game]; exact sound.game,by rw [artist]; exact sound.artist⟩
    refine ⟨sound_found.link closed still found ?_,?_⟩
    · intro listed
      rw [artist] at listed
      obtain ⟨old,old_stored⟩ := sound.listed_artist closed listed
      have inList : (state.1.getArtistByName newArtist).1 ∈ row.artists := by
        simpa [artistPairing,stored] using listed
      refine unmatched (List.any_eq_true.mpr ⟨_,inList,?_⟩)
      simp [artistName,old_stored,known old old_stored]
    · rw [row?_link_tracks,if_pos rfl,still]
      exact ⟨_,rfl⟩

theorem addArtists_held (closed : Pairing.Discipline rel) {track : Nat} {state : Store × Bool}
    {row : TrackRow}
    (sound : state.1.Held rel) (stored : row? state.1.tracks track = some row) (names : List String) :
    (names.foldl (addArtist track) state).1.Held rel ∧
      ∃ artists, row? (names.foldl (addArtist track) state).1.tracks track =
        some {row with artists := artists} := by
  induction names generalizing state row with
  | nil => exact ⟨sound,row.artists,stored⟩
  | cons name rest ih =>
    obtain ⟨next_sound,_,next_stored⟩ := addArtist_held closed sound stored name
    obtain ⟨last,artists,left⟩ := ih next_sound next_stored
    exact ⟨last,artists,left⟩

theorem dropArtists_track (mode : Iteration) (newArtists : Option (List String)) {track : Nat}
    (fuel cursor : Nat) (actuallyChanged : Bool) {row : TrackRow}
    (stored : row? s.tracks track = some row) :
    ∃ artists, row? (s.dropArtists mode newArtists track fuel cursor actuallyChanged).1.tracks track =
      some {row with artists := artists} := by
  induction fuel generalizing s cursor actuallyChanged row with
  | zero => exact ⟨row.artists,stored⟩
  | succ fuel ih =>
    have unlinked (artist : Nat) : row? (s.unlink track artist).tracks track =
        some {row with artists := row.artists.erase artist} := by
      rw [row?_unlink_tracks,if_pos rfl,stored]
      rfl
    unfold dropArtists
    split
    · exact ⟨row.artists,stored⟩
    · split
      · exact ih _ _ stored
      · dsimp only
        split
        · obtain ⟨artists,rest⟩ := ih _ _ (unlinked _)
          exact ⟨artists,rest⟩
        · split
          · exact ⟨_,unlinked _⟩
          · exact ⟨_,unlinked _⟩

theorem updateArtists_held (closed : Pairing.Discipline rel) (mode : Iteration) (newTrack : Track)
    {oldTrack : TrackRow}
    (sound : s.Held rel) {row : TrackRow} (stored : row? s.tracks oldTrack.id = some row) :
    (s.updateArtists mode newTrack oldTrack).1.Held rel ∧
      ∃ last, row? (s.updateArtists mode newTrack oldTrack).1.tracks oldTrack.id = some last ∧
        last.game = row.game := by
  unfold updateArtists
  split
  next changed =>
    dsimp only
    have texted : (s.modifyTrack oldTrack.id fun row =>
        {row with artistText := newTrack.artistText}).Held rel :=
      sound.modifyTrack (by exact fun _ => ⟨rfl,rfl,rfl⟩) oldTrack.id
    have still : row? (s.modifyTrack oldTrack.id fun row =>
        {row with artistText := newTrack.artistText}).tracks oldTrack.id =
          some {row with artistText := newTrack.artistText} := by
      rw [row?_modifyTrack (by exact fun _ => rfl),if_pos rfl,stored]
      rfl
    have dropped := dropArtists_held closed mode (newTrack.artistText.map artistNames) oldTrack.id
      oldTrack.artists.length 0 false texted
    obtain ⟨artists,left⟩ := dropArtists_track mode (newTrack.artistText.map artistNames)
      oldTrack.artists.length 0 false still
    split
    next outcome => rw [outcome] at dropped left; exact ⟨dropped,_,left,rfl⟩
    next outcome =>
      rw [outcome] at dropped left
      obtain ⟨last_sound,more,last⟩ := @addArtists_held _ closed oldTrack.id (_,_) _ dropped left
        ((newTrack.artistText.map artistNames).getD [])
      exact ⟨last_sound,_,last,rfl⟩
  next => exact ⟨sound,row,stored,rfl⟩

/-- Entering the track in the game's list and the game in the track, whatever else changes
in the two rows. -/
theorem enter_gamePairing {enterGame : GameRow → GameRow} {enterTrack : TrackRow → TrackRow}
    {track game : Nat} {trackRow : TrackRow} {gameRow : GameRow}
    (keepsGame : ∀ row, (enterGame row).id = row.id) (keepsTrack : ∀ row, (enterTrack row).id = row.id)
    (grows : ∀ row, (enterGame row).tracks = row.tracks ++ [track])
    (sets : ∀ row, (enterTrack row).game = some game)
    (storedTrack : row? s.tracks track = some trackRow)
    (storedGame : row? s.games game = some gameRow) :
    ((s.modifyGame game enterGame).modifyTrack track enterTrack).gamePairing =
      ⟨Function.update s.gamePairing.forward track [game],
        Function.update s.gamePairing.backward game (s.gamePairing.backward game ++ [track])⟩ := by
  have games := row?_modifyGame keepsGame s game
  have tracks := row?_modifyTrack keepsTrack (s.modifyGame game enterGame) track
  refine Pairing.ext (fun key => ?_) fun key => ?_
  · simp only [gamePairing,tracks,Function.update_apply]
    split
    · simp [modifyGame,storedTrack,sets]
    · rfl
  · simp only [gamePairing,Function.update_apply]
    have same : ((s.modifyGame game enterGame).modifyTrack track enterTrack).games =
        (s.modifyGame game enterGame).games := rfl
    rw [same,games]
    split
    · simp [storedGame,grows]
    · rfl

/-- The game's list without the track, the track's own link still set. -/
theorem leave_gamePairing (s : Store) (track game : Nat) :
    (s.modifyGame game fun row => {row with tracks := row.tracks.erase track}).gamePairing =
      ⟨s.gamePairing.forward,
        Function.update s.gamePairing.backward game ((s.gamePairing.backward game).erase track)⟩ := by
  have games (key : Nat) :
      row? (s.modifyGame game fun row => {row with tracks := row.tracks.erase track}).games key =
        if key = game then (row? s.games game).map fun row =>
          {row with tracks := row.tracks.erase track} else row? s.games key :=
    row?_modify s.games (by exact fun _ => rfl) game key
  refine Pairing.ext (fun _ => rfl) fun key => ?_
  simp only [gamePairing,games,Function.update_apply]
  split
  · cases row? s.games game <;> simp
  · rfl

theorem leaveGame_spec (sound : s.Held rel) {oldTrack row : TrackRow}
    (stored : row? s.tracks oldTrack.id = some row) (game : oldTrack.game = row.game) :
    let left := s.leaveGame oldTrack
    left.Keyed ∧ left.tracks = s.tracks ∧ left.artistPairing = s.artistPairing ∧
      (⟨Function.update left.gamePairing.forward oldTrack.id [],left.gamePairing.backward⟩ :
        Pairing Nat Nat).Consistent := by
  have forward : s.gamePairing.forward oldTrack.id = oldTrack.game.toList := by
    simp [gamePairing,stored,game]
  unfold leaveGame
  cases known : oldTrack.game with
  | none =>
    refine ⟨sound.keyed,rfl,rfl,?_⟩
    rw [known,Option.toList_none] at forward
    rw [← forward,Function.update_eq_self]
    exact sound.game
  | some oldGame =>
    refine ⟨sound.keyed.modifyGame (by exact fun _ => rfl) oldGame,rfl,rfl,?_⟩
    have parted := sound.game.part oldTrack.id oldGame
    rw [known,Option.toList_some] at forward
    rw [Pairing.part,forward,List.erase_cons_head] at parted
    dsimp only
    rw [leave_gamePairing]
    exact parted

/-- Moving a track to another game parts it from the old game and joins it to the new. -/
theorem moveGame_held (sound : s.Held rel) (newTrack : Track) {oldTrack row : TrackRow}
    (stored : row? s.tracks oldTrack.id = some row) (game : oldTrack.game = row.game) :
    (s.moveGame newTrack oldTrack).Held rel := by
  obtain ⟨keyed,tracks,artists,apart⟩ := leaveGame_spec sound stored game
  unfold moveGame
  generalize s.leaveGame oldTrack = left at *
  obtain ⟨found_keyed,found_games,found_artists,found_tracks,_,gameRow,found⟩ :=
    getGame_spec keyed newTrack.platformName newTrack.gameTitle
  dsimp only
  generalize left.getGame newTrack.platformName newTrack.gameTitle = result at *
  obtain ⟨newGame,s'⟩ := result
  have still : row? s'.tracks oldTrack.id = some row := by
    rw [found_tracks,tracks]
    exact stored
  refine ⟨?_,?_,?_⟩
  · exact (found_keyed.modifyGame (by exact fun _ => rfl) newGame).modifyTrack
      (by exact fun _ => rfl) oldTrack.id
  · rw [enter_gamePairing (by exact fun _ => rfl) (by exact fun _ => rfl) (by exact fun _ => rfl)
      (by exact fun _ => rfl) still found,found_games]
    have joined : (Pairing.join _ oldTrack.id newGame).Consistent := apart.join (by simp)
    simpa [Pairing.join] using joined
  · rw [modifyTrack_artistPairing (by exact fun _ => rfl) (by exact fun _ => rfl)]
    have same : s'.artistPairing = s.artistPairing := found_artists.trans artists
    exact same ▸ sound.artist

theorem updateGame_held (sound : s.Held rel) (newTrack : Track) {oldTrack row : TrackRow}
    (stored : row? s.tracks oldTrack.id = some row) (game : oldTrack.game = row.game) :
    (s.updateGame newTrack oldTrack).1.Held rel := by
  unfold updateGame
  have moved : (if oldTrack.gameTitle ≠ newTrack.gameTitle then s.moveGame newTrack oldTrack
      else s).Held rel := by
    split
    · exact moveGame_held sound newTrack stored game
    · exact sound
  dsimp only
  split
  next => exact moved
  next outgrown _ => exact moved.modifyGame (by exact fun _ => ⟨rfl,rfl⟩) outgrown

theorem updateTrack_held (closed : Pairing.Discipline rel) (mode : Iteration) (sound : s.Held rel)
    {oldTrack : TrackRow}
    (stored : row? s.tracks oldTrack.id = some oldTrack) (newTrack : Track) :
    (s.updateTrack mode oldTrack newTrack).1.Held rel := by
  have titled : (s.modifyTrack oldTrack.id fun row => {row with title := newTrack.title}).Held rel :=
    sound.modifyTrack (by exact fun _ => ⟨rfl,rfl,rfl⟩) oldTrack.id
  have still : row? (s.modifyTrack oldTrack.id fun row =>
      {row with title := newTrack.title}).tracks oldTrack.id =
        some {oldTrack with title := newTrack.title} := by
    rw [row?_modifyTrack (by exact fun _ => rfl),if_pos rfl,stored]
    rfl
  obtain ⟨credited,row,left,game⟩ := updateArtists_held closed mode newTrack titled still
  unfold updateTrack
  dsimp only
  split
  next outcome => rw [outcome] at credited; exact credited
  next outcome =>
    rw [outcome] at credited left
    exact (updateGame_held credited newTrack left game.symm).modifyTrack
      (by exact fun _ => ⟨rfl,rfl,rfl⟩) oldTrack.id

end Update

section Deletion
variable {s : Store} {rel : Pairing Nat Nat → Prop}

theorem deleteTrack_gamePairing (s : Store) (track : Nat) :
    (s.deleteTrack track).gamePairing = s.gamePairing.dropLeft track := by
  refine Pairing.ext (fun key => ?_) fun key => ?_
  · simp only [gamePairing,deleteTrack,Pairing.dropLeft,Function.update_apply,row?_delete]
    split <;> simp
  · simp only [gamePairing,deleteTrack,Pairing.dropLeft]
    rw [row?_map (by exact fun _ => rfl)]
    cases row? s.games key <;> simp

theorem deleteTrack_artistPairing (s : Store) (track : Nat) :
    (s.deleteTrack track).artistPairing = s.artistPairing.dropLeft track := by
  refine Pairing.ext (fun key => ?_) fun key => ?_
  · simp only [artistPairing,deleteTrack,Pairing.dropLeft,Function.update_apply,row?_delete]
    split <;> simp
  · simp only [artistPairing,deleteTrack,Pairing.dropLeft]
    rw [row?_map (by exact fun _ => rfl)]
    cases row? s.artists key <;> simp

theorem deleteTrack_held (closed : Pairing.Discipline rel) (sound : s.Held rel) (track : Nat) :
    (s.deleteTrack track).Held rel := by
  have keyed := sound.keyed
  refine ⟨?_,?_,?_⟩
  · exact ⟨distinct_delete keyed.tracks track,(distinct_map (by exact fun _ => rfl)).mpr keyed.games,
      (distinct_map (by exact fun _ => rfl)).mpr keyed.artists,keyed.platforms,
      below_delete keyed.tracksBelow track,(below_map (by exact fun _ => rfl)).mpr keyed.gamesBelow,
      (below_map (by exact fun _ => rfl)).mpr keyed.artistsBelow,keyed.platformsBelow⟩
  · rw [deleteTrack_gamePairing]
    exact sound.game.dropLeft track
  · rw [deleteTrack_artistPairing]
    exact closed.dropLeft sound.artist track

theorem deleteGame_gamePairing (s : Store) (game : Nat) :
    (s.deleteGame game).gamePairing = s.gamePairing.dropRight game := by
  refine Pairing.ext (fun key => ?_) fun key => ?_
  · simp only [gamePairing,deleteGame,Pairing.dropRight]
    rw [row?_map (by exact fun _ => rfl)]
    rcases row? s.tracks key with _ | row
    · rfl
    · cases known : row.game with
      | none => simp [known]
      | some old => by_cases same : old = game <;> simp [known,same]
  · simp only [gamePairing,deleteGame,Pairing.dropRight,Function.update_apply,row?_delete]
    split <;> simp

theorem deleteGame_artistPairing (s : Store) (game : Nat) :
    (s.deleteGame game).artistPairing = s.artistPairing := by
  refine Pairing.ext (fun key => ?_) fun _ => rfl
  simp only [artistPairing,deleteGame]
  rw [row?_map (by exact fun _ => rfl)]
  cases row? s.tracks key <;> simp

theorem deleteGame_held (sound : s.Held rel) (game : Nat) : (s.deleteGame game).Held rel := by
  have keyed := sound.keyed
  refine ⟨?_,?_,?_⟩
  · exact ⟨(distinct_map (by exact fun _ => rfl)).mpr keyed.tracks,distinct_delete keyed.games game,
      keyed.artists,keyed.platforms,(below_map (by exact fun _ => rfl)).mpr keyed.tracksBelow,
      below_delete keyed.gamesBelow game,keyed.artistsBelow,keyed.platformsBelow⟩
  · rw [deleteGame_gamePairing]
    exact sound.game.dropRight game
  · rw [deleteGame_artistPairing]
    exact sound.artist

theorem deleteArtist_gamePairing (s : Store) (artist : Nat) :
    (s.deleteArtist artist).gamePairing = s.gamePairing := by
  refine Pairing.ext (fun key => ?_) fun key => ?_
  · simp only [gamePairing,deleteArtist]
    rw [row?_map (by exact fun _ => rfl)]
    cases row? s.tracks key <;> simp
  · simp only [gamePairing,deleteArtist]
    rw [row?_map (by exact fun _ => rfl)]
    cases row? s.games key <;> simp

theorem deleteArtist_artistPairing (s : Store) (artist : Nat) :
    (s.deleteArtist artist).artistPairing = s.artistPairing.dropRight artist := by
  refine Pairing.ext (fun key => ?_) fun key => ?_
  · simp only [artistPairing,deleteArtist,Pairing.dropRight]
    rw [row?_map (by exact fun _ => rfl)]
    cases row? s.tracks key <;> simp
  · simp only [artistPairing,deleteArtist,Pairing.dropRight,Function.update_apply,row?_delete]
    split <;> simp

theorem deleteArtist_held (closed : Pairing.Discipline rel) (sound : s.Held rel) (artist : Nat) :
    (s.deleteArtist artist).Held rel := by
  have keyed := sound.keyed
  refine ⟨?_,?_,?_⟩
  · exact ⟨(distinct_map (by exact fun _ => rfl)).mpr keyed.tracks,
      (distinct_map (by exact fun _ => rfl)).mpr keyed.games,distinct_delete keyed.artists artist,
      keyed.platforms,(below_map (by exact fun _ => rfl)).mpr keyed.tracksBelow,
      (below_map (by exact fun _ => rfl)).mpr keyed.gamesBelow,
      below_delete keyed.artistsBelow artist,keyed.platformsBelow⟩
  · rw [deleteArtist_gamePairing]
    exact sound.game
  · rw [deleteArtist_artistPairing]
    exact closed.dropRight sound.artist artist

theorem clearAll_held (closed : Pairing.Discipline rel) (sound : s.Held rel) : s.clearAll.Held rel where
  keyed := by
    have keyed := sound.keyed
    exact ⟨List.nodup_nil,List.nodup_nil,List.nodup_nil,keyed.platforms,by simp [Below,clearAll],
      by simp [Below,clearAll],by simp [Below,clearAll],keyed.platformsBelow⟩
  game := Pairing.Consistent.none
  artist := closed.none

end Deletion

section Addition
variable {s : Store} {rel : Pairing Nat Nat → Prop}

def artist? (s : Store) (name : String) : Option Nat :=
  (s.artists.find? (fun row => row.name = some name)).map ArtistRow.id

theorem artist?_stored (keyed : s.Keyed) {name : String} {artist : Nat}
    (found : s.artist? name = some artist) :
    ∃ row, row? s.artists artist = some row ∧ row.name = some name := by
  obtain ⟨row,first,rfl⟩ := Option.map_eq_some_iff.mp found
  have stored := List.mem_of_find?_eq_some first
  exact ⟨row,row?_of_mem keyed.artists stored,by simpa using List.find?_some first⟩

theorem artist?_inj (keyed : s.Keyed) {first second : String} {artist : Nat}
    (left : s.artist? first = some artist) (right : s.artist? second = some artist) :
    first = second := by
  obtain ⟨row,stored,named⟩ := artist?_stored keyed left
  obtain ⟨other,stored',named'⟩ := artist?_stored keyed right
  cases Option.some.inj (stored.symm.trans stored')
  exact Option.some.inj (named.symm.trans named')

theorem getArtistByName_artist? (s : Store) (name : String) :
    (s.getArtistByName name).2.artist? name = some (s.getArtistByName name).1 ∧
      ∀ other artist, s.artist? other = some artist →
        (s.getArtistByName name).2.artist? other = some artist := by
  unfold getArtistByName
  split
  next row found => exact ⟨by simp [artist?,found],fun _ _ known => known⟩
  next missing =>
    refine ⟨by simp [artist?,List.find?_append,missing],fun other artist known => ?_⟩
    obtain ⟨row,first,rfl⟩ := Option.map_eq_some_iff.mp known
    simp [artist?,List.find?_append,first]

theorem getArtistsByName_spec (keyed : s.Keyed) (names : List String) :
    let found := s.getArtistsByName names
    found.2.Keyed ∧ found.2.gamePairing = s.gamePairing ∧
      found.2.artistPairing = s.artistPairing ∧ found.2.tracks = s.tracks ∧
      found.2.games = s.games ∧ found.1.map some = names.map found.2.artist? ∧
      ∀ other artist, s.artist? other = some artist → found.2.artist? other = some artist := by
  induction names generalizing s with
  | nil => exact ⟨keyed,rfl,rfl,rfl,rfl,rfl,fun _ _ known => known⟩
  | cons name rest ih =>
    obtain ⟨keyed,game,artist,tracks,games,_,_⟩ := getArtistByName_spec keyed name
    obtain ⟨found,known⟩ := getArtistByName_artist? s name
    obtain ⟨last,game',artist',tracks',games',others,known'⟩ := ih keyed
    refine ⟨last,game'.trans game,artist'.trans artist,tracks'.trans tracks,games'.trans games,?_,?_⟩
    · have first := known' _ _ found
      simpa [getArtistsByName,first] using others
    · exact fun other artist stored => known' _ _ (known _ _ stored)

/-- Names of a credit repeat exactly when the artists they find do. -/
theorem getArtistsByName_nodup (keyed : s.Keyed) (names : List String) :
    (s.getArtistsByName names).1.Nodup ↔ names.Nodup := by
  obtain ⟨last,_,_,_,_,found,_⟩ := getArtistsByName_spec keyed names
  rw [← List.nodup_map_iff (fun _ _ => Option.some.inj),found]
  constructor
  · exact List.Nodup.of_map _
  · refine fun once => once.map_on ?_
    intro first present second _ same
    obtain ⟨artist,_,known⟩ : ∃ artist ∈ (s.getArtistsByName names).1,
        some artist = (s.getArtistsByName names).2.artist? first := by
      have listed := List.mem_map_of_mem (f := (s.getArtistsByName names).2.artist?) present
      rw [← found] at listed
      exact List.mem_map.mp listed
    exact artist?_inj last known.symm (same.symm.trans known.symm)

/-- A turn of the credit loop joins the track and the artist, and sets at most the summary of
the game. -/
theorem credit_cases (gameArtist : GameArtist) (had : Bool) (game track artist : Nat) :
    credit gameArtist had game track s artist = s.link track artist ∨
      ∃ summary : GameRow → Option Bool × Option Nat,
        credit gameArtist had game track s artist = (s.link track artist).modifyGame game fun row =>
          {row with multipleArtists := (summary row).1, artist := (summary row).2} := by
  unfold credit
  dsimp only
  split
  · split
    · exact .inr ⟨fun _ => (some true,none),rfl⟩
    · exact .inl rfl
  · split
    · exact .inr ⟨fun row => (row.multipleArtists,some artist),rfl⟩
    · exact .inl rfl

theorem credit_spec (keyed : s.Keyed) (gameArtist : GameArtist) (had : Bool) (game : Nat)
    {track artist : Nat} {trackRow : TrackRow} {artistRow : ArtistRow}
    (storedTrack : row? s.tracks track = some trackRow)
    (storedArtist : row? s.artists artist = some artistRow) :
    let next := credit gameArtist had game track s artist
    next.Keyed ∧ next.gamePairing = s.gamePairing ∧
      next.artistPairing = s.artistPairing.join track artist ∧
      (∃ row, row? next.tracks track = some row) ∧
      ∀ other row, row? s.artists other = some row → ∃ row, row? next.artists other = some row := by
  have linked : (s.link track artist).Keyed ∧ (s.link track artist).gamePairing = s.gamePairing ∧
      (s.link track artist).artistPairing = s.artistPairing.join track artist ∧
      (∃ row, row? (s.link track artist).tracks track = some row) ∧
      ∀ other row, row? s.artists other = some row →
        ∃ row, row? (s.link track artist).artists other = some row := by
    refine ⟨keyed.link track artist,link_gamePairing s track artist,
      link_artistPairing storedTrack storedArtist,?_,?_⟩
    · rw [row?_link_tracks,if_pos rfl,storedTrack]
      exact ⟨_,rfl⟩
    · intro other row stored
      rw [row?_link_artists]
      split
      · rw [storedArtist]
        exact ⟨_,rfl⟩
      · exact ⟨row,stored⟩
  obtain same | ⟨summary,same⟩ := credit_cases (s := s) gameArtist had game track artist
  · rw [same]
    exact linked
  · obtain ⟨keyed,games,artists,tracks,others⟩ := linked
    rw [same]
    refine ⟨keyed.modifyGame (by exact fun _ => rfl) game,?_,artists,tracks,others⟩
    rw [modifyGame_gamePairing (by exact fun _ => rfl) (by exact fun _ => rfl),games]

theorem credits_spec (keyed : s.Keyed) (gameArtist : GameArtist) (had : Bool) (game : Nat)
    {track : Nat} {trackRow : TrackRow} (storedTrack : row? s.tracks track = some trackRow)
    (artists : List Nat) (stored : ∀ artist ∈ artists, ∃ row, row? s.artists artist = some row) :
    let last := artists.foldl (credit gameArtist had game track) s
    last.Keyed ∧ last.gamePairing = s.gamePairing ∧
      last.artistPairing = artists.foldl (fun p artist => p.join track artist) s.artistPairing ∧
      ∃ row, row? last.tracks track = some row := by
  induction artists generalizing s trackRow with
  | nil => exact ⟨keyed,rfl,rfl,trackRow,storedTrack⟩
  | cons artist rest ih =>
    obtain ⟨artistRow,storedArtist⟩ := stored artist List.mem_cons_self
    obtain ⟨next,games,joined,⟨row,tracks⟩,others⟩ :=
      credit_spec keyed gameArtist had game storedTrack storedArtist
    obtain ⟨last,games',joined',still⟩ := ih next tracks fun other listed =>
      (stored other (List.mem_cons_of_mem _ listed)).elim (others other)
    refine ⟨last,games'.trans games,?_,still⟩
    rw [joined] at joined'
    exact joined'

/-- The store of `addTrack` before it looks for the artists: the track is entered in its game. -/
theorem entered_held (sound : s.Held rel) (track : Track) :
    let saved := s.saveTrack track
    let found := saved.2.getGame track.platformName track.gameTitle
    let platform := found.2.getPlatform track.platformName
    let entered := (platform.2.modifyTrack saved.1 fun row =>
      {row with game := some found.1, platform := some platform.1}).modifyGame found.1 fun row =>
        {row with tracks := row.tracks ++ [saved.1], platformName := track.platformName}
    entered.Held rel ∧ entered.artistPairing.forward saved.1 = [] ∧
      (∃ row, row? entered.tracks saved.1 = some row) ∧
      ∃ row, row? entered.games found.1 = some row := by
  intro saved found platform entered
  have fresh := row?_fresh sound.keyed.tracksBelow
  have stored : ∃ row, row? saved.2.tracks saved.1 = some row ∧ row.game = none ∧
      row.artists = [] := by
    refine ⟨{track with id := s.nextId, platform := none, game := none, artists := []},?_,rfl,rfl⟩
    change row? (s.tracks ++ [_]) s.nextId = _
    rw [row?_append,fresh,Option.none_or]
    exact if_pos rfl
  obtain ⟨row,stored,gameless,uncredited⟩ := stored
  have saved_sound : saved.2.Held rel := saveTrack_held sound track
  obtain ⟨found_keyed,found_games,found_artists,found_tracks,_,gameRow,known⟩ :=
    getGame_spec saved_sound.keyed track.platformName track.gameTitle
  have found_sound : found.2.Held rel :=
    ⟨found_keyed,by rw [found_games]; exact saved_sound.game,
      by rw [found_artists]; exact saved_sound.artist⟩
  obtain ⟨sound',tracks,games⟩ := getPlatform_held found_sound track.platformName
  have storedTrack : row? platform.2.tracks saved.1 = some row := by
    rw [tracks,found_tracks]
    exact stored
  have storedGame : row? platform.2.games found.1 = some gameRow := by
    rw [games]
    exact known
  have artists : entered.artistPairing = platform.2.artistPairing :=
    modifyTrack_artistPairing (by exact fun _ => rfl) (by exact fun _ => rfl) platform.2 saved.1
  have apart : found.1 ∉ platform.2.gamePairing.forward saved.1 := by
    simp [gamePairing,storedTrack,gameless]
  have loose : platform.2.gamePairing.forward saved.1 = [] := by
    simp [gamePairing,storedTrack,gameless]
  refine ⟨⟨?_,?_,?_⟩,?_,?_,?_⟩
  · exact Keyed.modifyGame (sound'.keyed.modifyTrack (by exact fun _ => rfl) saved.1)
      (by exact fun _ => rfl) found.1
  · have joined : entered.gamePairing = platform.2.gamePairing.join saved.1 found.1 := by
      rw [Pairing.join,loose]
      exact enter_gamePairing (by exact fun _ => rfl) (by exact fun _ => rfl)
        (by exact fun _ => rfl) (by exact fun _ => rfl) storedTrack storedGame
    rw [joined]
    exact sound'.game.join apart
  · rw [artists]
    exact sound'.artist
  · rw [artists]
    simp [artistPairing,storedTrack,uncredited]
  · have changed : row? entered.tracks saved.1 = (row? platform.2.tracks saved.1).map _ :=
      (row?_modifyTrack (by exact fun _ => rfl) platform.2 saved.1 saved.1).trans (if_pos rfl)
    rw [changed,storedTrack]
    exact ⟨_,rfl⟩
  · have changed : row? entered.games found.1 = (row? platform.2.games found.1).map _ :=
      (row?_modifyGame (by exact fun _ => rfl) _ found.1 found.1).trans (if_pos rfl)
    rw [changed,storedGame]
    exact ⟨_,rfl⟩

/-- The artist names that `addTrack` reads from a track. -/
def creditedNames (track : Track) : List String := (track.artistText.map artistNames).getD []

theorem addTrack_joins (held : s.Held rel) (track : Track) :
    ∃ (p : Pairing Nat Nat) (artists : List Nat), rel p ∧ p.forward s.nextId = [] ∧
      (artists.Nodup ↔ (creditedNames track).Nodup) ∧ (s.addTrack track).2.Keyed ∧
      (s.addTrack track).2.gamePairing.Consistent ∧
      (s.addTrack track).2.artistPairing = artists.foldl (fun p artist => p.join s.nextId artist) p := by
  obtain ⟨entered,uncredited,⟨trackRow,storedTrack⟩,gameRow,storedGame⟩ := entered_held held track
  unfold addTrack
  dsimp only at entered uncredited storedTrack storedGame ⊢
  generalize Store.modifyGame (Store.modifyTrack _ _ _) _ _ = s' at *
  obtain ⟨keyed,game,artist,tracks,games,found,_⟩ :=
    getArtistsByName_spec entered.keyed (creditedNames track)
  have once := getArtistsByName_nodup entered.keyed (creditedNames track)
  rw [creditedNames] at *
  rw [games,storedGame]
  dsimp only
  have stored : ∀ artist ∈ (s'.getArtistsByName ((track.artistText.map artistNames).getD [])).1,
      ∃ row, row? (s'.getArtistsByName ((track.artistText.map artistNames).getD [])).2.artists artist =
        some row := by
    intro artist listed
    have named := List.mem_map_of_mem (f := some) listed
    rw [found] at named
    obtain ⟨name,_,known⟩ := List.mem_map.mp named
    obtain ⟨row,stored,_⟩ := artist?_stored keyed known
    exact ⟨row,stored⟩
  rw [← tracks] at storedTrack
  obtain ⟨last,games',joined,_⟩ := credits_spec keyed gameRow.gameArtist
    (gameRow.multipleArtists.getD false)
    ((s.saveTrack track).2.getGame track.platformName track.gameTitle).1 storedTrack _ stored
  refine ⟨s'.artistPairing,_,entered.artist,uncredited,once,last,?_,?_⟩
  · rw [games',game]
    exact entered.game
  · rw [joined,artist]
    rfl

theorem addTrack_spec (sound : s.Sound) (track : Track) :
    let last := (s.addTrack track).2
    last.Keyed ∧ last.gamePairing.Consistent ∧
      (last.artistPairing.Consistent ↔ (creditedNames track).Nodup) ∧
      ((last.artistPairing.forward s.nextId).Nodup ↔ (creditedNames track).Nodup) := by
  obtain ⟨p,artists,consistent,uncredited,once,keyed,game,joined⟩ :=
    addTrack_joins (sound_iff_held.mp sound) track
  refine ⟨keyed,game,?_,?_⟩
  · rw [joined,Pairing.joins_consistent _ consistent,uncredited,List.nil_append]
    exact once
  · rw [joined,Pairing.joins_forward,uncredited,List.nil_append]
    exact once

/-- However often a credit names an artist, both sides list it equally often. -/
theorem addTrack_balanced (held : s.Held Pairing.Balanced) (track : Track) :
    (s.addTrack track).2.Held Pairing.Balanced := by
  obtain ⟨p,artists,balanced,_,_,keyed,game,joined⟩ := addTrack_joins held track
  refine ⟨keyed,game,?_⟩
  rw [joined]
  exact Pairing.Balanced.joins balanced _ _

theorem addTrack_sound (sound : s.Sound) (track : Track) (once : (creditedNames track).Nodup) :
    (s.addTrack track).2.Sound := by
  obtain ⟨keyed,game,artist,_⟩ := addTrack_spec sound track
  exact ⟨keyed,game,artist.mpr once⟩

theorem addTrack_once (sound : s.Sound) (track : Track) (linked : Linked (s.addTrack track).2) :
    (creditedNames track).Nodup := by
  obtain ⟨_,_,_,listed⟩ := addTrack_spec sound track
  refine listed.mp ?_
  simp only [artistPairing]
  cases stored : row? (s.addTrack track).2.tracks s.nextId with
  | none => exact List.nodup_nil
  | some row => exact linked.trackArtists row (row?_mem stored)

end Addition
end Store

def NamesOnce (_ : Store) : Command → Prop
  | .addTrack track => (Store.creditedNames track).Nodup
  | _ => True

theorem step_sound (mode : Iteration) {s t : Store} {command : Command} (sound : s.Sound)
    (once : NamesOnce s command) (taken : step mode s command = some t) : t.Sound := by
  have held := Store.sound_iff_held.mp sound
  have closed : Pairing.Discipline (@Pairing.Consistent Nat Nat) := Pairing.consistent_discipline
  cases command with
  | addTrack track =>
    cases Option.some.inj taken
    exact Store.addTrack_sound sound track once
  | updateTrack oldTrack newTrack =>
    obtain ⟨row,stored,rfl⟩ := Option.map_eq_some_iff.mp taken
    have key := row?_key stored
    subst key
    exact Store.sound_iff_held.mpr (Store.updateTrack_held closed mode held stored newTrack)
  | deleteTrack track =>
    obtain ⟨row,_,rfl⟩ := Option.map_eq_some_iff.mp taken
    exact Store.sound_iff_held.mpr (Store.deleteTrack_held closed held row.id)
  | deleteGame game =>
    obtain ⟨row,_,rfl⟩ := Option.map_eq_some_iff.mp taken
    exact Store.sound_iff_held.mpr (Store.deleteGame_held held row.id)
  | deleteArtist artist =>
    obtain ⟨row,_,rfl⟩ := Option.map_eq_some_iff.mp taken
    exact Store.sound_iff_held.mpr (Store.deleteArtist_held closed held row.id)
  | clearAll =>
    cases Option.some.inj taken
    exact Store.sound_iff_held.mpr (Store.clearAll_held closed held)

/-- The links are exact in every store of a run exactly when each track added has every
name of its credit given once. -/
theorem links_exact_iff (mode : Iteration) {commands : List Command} {finish : Store}
    (ran : Run.exec (step mode) .empty commands = some finish) :
    Run.Always (step mode) Linked .empty commands ↔
      Run.Meets (step mode) NamesOnce .empty commands := by
  refine Run.always_iff_meets (fun _ => Store.Sound.linked) (fun _ _ _ sound once taken =>
    step_sound mode sound once taken) ?_ Store.empty_sound ran
  intro s command t sound taken linked
  cases command with
  | addTrack track =>
    cases Option.some.inj taken
    exact Store.addTrack_once sound track linked
  | _ => trivial

def creditedTrack (artistText : String) : Track :=
  ⟨some 1,some "/music/a.spc",some "Title",some "Game",some artistText,some "SNES",some 1000,none,
    none,some 0⟩

theorem links_exact_iff_moved :
    Run.Always (step .failFast) Linked .empty
      [.addTrack (creditedTrack "A, B"),.updateTrack 0 {creditedTrack "B & C" with
        gameTitle := some "Other"},.deleteGame 1] ↔
    Run.Meets (step .failFast) NamesOnce .empty
      [.addTrack (creditedTrack "A, B"),.updateTrack 0 {creditedTrack "B & C" with
        gameTitle := some "Other"},.deleteGame 1] :=
  @links_exact_iff .failFast _ _ rfl

/-- An artist named twice in one credit is entered twice. -/
theorem artist_entered_twice :
    ¬ Run.Always (step .failFast) Linked .empty [.addTrack (creditedTrack "A & A")] := by
  intro always
  have linked : Linked (Store.empty.addTrack (creditedTrack "A & A")).2 := always.2
  have once := linked.trackArtists _ List.mem_cons_self
  revert once
  decide

end Chipbox.Library
