import Chipbox.Library.Links

/-! The summary of the artists of a game, which is kept by hand as tracks come and change. -/
namespace Chipbox.Library
open Table

def Several {α : Type} (items : List α) : Prop := ∃ first ∈ items, ∃ second ∈ items, first ≠ second

instance {α : Type} [DecidableEq α] (items : List α) : Decidable (Several items) :=
  inferInstanceAs (Decidable (∃ first ∈ items, ∃ second ∈ items, first ≠ second))

namespace Store

def artistsOf (s : Store) (game : GameRow) : List Nat := game.tracks.flatMap fun track =>
  ((row? s.tracks track).map TrackRow.artists).getD []

/-- The flag of a game tells whether its tracks have several artists, and an artist that is the
only one is the game's. -/
def Summarized (s : Store) : Prop := ∀ game ∈ s.games,
  (game.multipleArtists = some true ↔ Several (s.artistsOf game)) ∧
    ∀ artist ∈ s.artistsOf game, (∀ other ∈ s.artistsOf game, other = artist) →
      game.gameArtist = .stored artist

/-- The flag and the stored artist of a game, nothing for one that is not stored. -/
def summary (s : Store) (game : Nat) : Option Bool × Option Nat :=
  ((row? s.games game).map fun row => (row.multipleArtists,row.artist)).getD (none,none)

def Plays (s : Store) (game artist : Nat) : Prop :=
  ∃ track, game ∈ s.gamePairing.forward track ∧ artist ∈ s.artistPairing.forward track

def PlaysBut (s : Store) (track game artist : Nat) : Prop :=
  ∃ other, other ≠ track ∧ game ∈ s.gamePairing.forward other ∧ artist ∈ s.artistPairing.forward other

end Store

def Mixed (plays : Nat → Prop) : Prop := ∃ first second, plays first ∧ plays second ∧ first ≠ second

def Fits (summary : Option Bool × Option Nat) (plays : Nat → Prop) : Prop :=
  (summary.1 = some true ↔ Mixed plays) ∧
    ∀ artist, plays artist → (∀ other, plays other → other = artist) → summary.2 = some artist

section Fits
variable {summary : Option Bool × Option Nat} {plays : Nat → Prop}

theorem mixed_of_list {artists : List Nat} (same : ∀ artist, artist ∈ artists ↔ plays artist) :
    Several artists ↔ Mixed plays := by
  constructor
  · rintro ⟨first,one,second,other,apart⟩
    exact ⟨first,second,(same first).mp one,(same second).mp other,apart⟩
  · rintro ⟨first,second,one,other,apart⟩
    exact ⟨first,(same first).mpr one,second,(same second).mpr other,apart⟩

theorem not_mixed_of_sole {artist : Nat} (sole : ∀ other, plays other → other = artist) :
    ¬ Mixed plays := by
  rintro ⟨first,second,one,other,apart⟩
  exact apart ((sole first one).trans (sole second other).symm)

theorem Mixed.mono {more : Nat → Prop} (mixed : Mixed plays)
    (grows : ∀ artist, plays artist → more artist) :
    Mixed more := by
  obtain ⟨first,second,one,other,apart⟩ := mixed
  exact ⟨first,second,grows first one,grows second other,apart⟩

theorem Fits.of_mixed (flag : summary.1 = some true) (mixed : Mixed plays) : Fits summary plays :=
  ⟨iff_of_true flag mixed,fun _ _ sole => absurd mixed (not_mixed_of_sole sole)⟩

theorem Fits.of_sole {artist : Nat} (flag : summary.1 ≠ some true)
    (sole : ∀ other, plays other → other = artist)
    (named : summary.2 = some artist) : Fits summary plays := by
  refine ⟨iff_of_false flag (not_mixed_of_sole sole),fun other present _ => ?_⟩
  rw [sole other present]
  exact named

theorem Fits.of_none (flag : summary.1 ≠ some true) (none : ∀ artist, ¬ plays artist) :
    Fits summary plays :=
  ⟨iff_of_false flag fun ⟨first,_,present,_⟩ => none first present,
    fun artist present => absurd present (none artist)⟩

theorem fits_congr {other : Nat → Prop} (same : ∀ artist, plays artist ↔ other artist) :
    Fits summary plays ↔ Fits summary other := by
  have equal : plays = other := funext fun artist => propext (same artist)
  rw [equal]

/-- Without the flag the artists are at most the one that is stored. -/
theorem Fits.sole (fits : Fits summary plays) (flag : summary.1 ≠ some true) {artist : Nat}
    (present : plays artist) : summary.2 = some artist ∧ ∀ other, plays other → other = artist := by
  have sole : ∀ other, plays other → other = artist := by
    intro other present'
    by_contra apart
    exact flag (fits.1.mpr ⟨other,artist,present',present,apart⟩)
  exact ⟨fits.2 artist present sole,sole⟩

end Fits

namespace Store
section Views
variable {s t : Store}

theorem summary_of_row {game : Nat} {row : GameRow} (stored : row? s.games game = some row) :
    s.summary game = (row.multipleArtists,row.artist) := by
  rw [summary,stored]
  rfl

theorem listed_iff_plays (tied : s.Tied) {game : GameRow} (stored : game ∈ s.games) (track : Nat) :
    track ∈ game.tracks ↔ game.id ∈ s.gamePairing.forward track := by
  have own : row? s.games game.id = some game := row?_of_mem tied.keyed.games stored
  rw [tied.game.agree]
  simp [gamePairing,own]

theorem mem_artistsOf (tied : s.Tied) {game : GameRow} (stored : game ∈ s.games) (artist : Nat) :
    artist ∈ s.artistsOf game ↔ s.Plays game.id artist := by
  unfold artistsOf Plays
  rw [List.mem_flatMap]
  exact exists_congr fun track => and_congr (listed_iff_plays tied stored track) Iff.rfl

theorem game_stored (tied : s.Tied) {track game : Nat} (linked : game ∈ s.gamePairing.forward track) :
    ∃ row ∈ s.games, row.id = game := by
  have listed := (tied.game.agree track game).mp linked
  cases found : row? s.games game with
  | none => simp [gamePairing,found] at listed
  | some row => exact ⟨row,row?_mem found,row?_key found⟩

/-- Whether the summaries are right is a matter of the links. -/
theorem summarized_iff (tied : s.Tied) : s.Summarized ↔ ∀ game, Fits (s.summary game) (s.Plays game) := by
  have own {row : GameRow} (stored : row ∈ s.games) : s.summary row.id = (row.multipleArtists,row.artist) :=
    summary_of_row (row?_of_mem tied.keyed.games stored)
  constructor
  · intro summarized game
    by_cases known : ∃ row ∈ s.games, row.id = game
    · obtain ⟨row,stored,rfl⟩ := known
      obtain ⟨flag,sole⟩ := summarized row stored
      have same := mem_artistsOf tied stored
      rw [own stored]
      refine ⟨flag.trans (mixed_of_list same),fun artist present only => ?_⟩
      have named := sole artist ((same artist).mpr present) fun other listed =>
        only other ((same other).mp listed)
      unfold GameRow.gameArtist at named
      split at named
      · cases named
      · split at named
        · cases named
        · cases named
          assumption
    · have unplayed (artist : Nat) : ¬ s.Plays game artist :=
        fun ⟨_,linked,_⟩ => known (game_stored tied linked)
      have unknown : row? s.games game = none := by
        cases found : row? s.games game with
        | none => rfl
        | some row => exact absurd ⟨row,row?_mem found,row?_key found⟩ known
      exact .of_none (by simp [summary,unknown]) unplayed
  · intro fits game stored
    obtain ⟨flag,sole⟩ := fits game.id
    have same := mem_artistsOf tied stored
    rw [own stored] at flag sole
    refine ⟨flag.trans (mixed_of_list same).symm,fun artist present only => ?_⟩
    have only' (other : Nat) (plays : s.Plays game.id other) : other = artist :=
      only other ((same other).mpr plays)
    have named : game.artist = some artist := sole artist ((same artist).mp present) only'
    have flagless : game.multipleArtists ≠ some true := fun set => not_mixed_of_sole only' (flag.mp set)
    simp [GameRow.gameArtist,flagless,named]

theorem plays_iff (track game artist : Nat) : s.Plays game artist ↔ s.PlaysBut track game artist ∨
    game ∈ s.gamePairing.forward track ∧ artist ∈ s.artistPairing.forward track := by
  constructor
  · rintro ⟨other,linked,credited⟩
    by_cases here : other = track
    · subst here
      exact .inr ⟨linked,credited⟩
    · exact .inl ⟨other,here,linked,credited⟩
  · rintro (⟨other,_,both⟩ | both)
    · exact ⟨other,both⟩
    · exact ⟨track,both⟩

theorem playsBut_congr {track : Nat} (others : ∀ other ≠ track, row? t.tracks other = row? s.tracks other)
    (game artist : Nat) : t.PlaysBut track game artist ↔ s.PlaysBut track game artist := by
  unfold PlaysBut
  refine exists_congr fun other => and_congr_right fun apart => ?_
  simp only [gamePairing,artistPairing,others other apart]

end Views

structure Aside (track : Nat) (s t : Store) : Prop where
  games : t.games = s.games
  others : ∀ other ≠ track, row? t.tracks other = row? s.tracks other
  game : (row? t.tracks track).map TrackRow.game = (row? s.tracks track).map TrackRow.game

section Update
variable {s t u : Store} {track : Nat}

theorem Aside.refl (track : Nat) (s : Store) : Aside track s s := ⟨rfl,fun _ _ => rfl,rfl⟩

theorem Aside.trans (first : Aside track s t) (second : Aside track t u) : Aside track s u :=
  ⟨second.games.trans first.games,
    fun other apart => (second.others other apart).trans (first.others other apart),
    second.game.trans first.game⟩

theorem others_modifyTrack {change : TrackRow → TrackRow} (keeps : ∀ row, (change row).id = row.id)
    (s : Store) (track : Nat) : ∀ other ≠ track,
      row? (s.modifyTrack track change).tracks other = row? s.tracks other := by
  intro other apart
  rw [row?_modifyTrack keeps,if_neg apart]

theorem modifyTrack_aside {change : TrackRow → TrackRow}
    (keeps : ∀ row, (change row).id = row.id ∧ (change row).game = row.game) (s : Store) (track : Nat) :
    Aside track s (s.modifyTrack track change) := by
  refine ⟨rfl,others_modifyTrack (fun row => (keeps row).1) s track,?_⟩
  rw [row?_modifyTrack (fun row => (keeps row).1),if_pos rfl,Option.map_map]
  congr 1
  exact funext fun row => (keeps row).2

theorem link_aside (s : Store) (track artist : Nat) : Aside track s (s.link track artist) := by
  unfold link
  have artists (change : ArtistRow → ArtistRow) : Aside track s (s.modifyArtist artist change) :=
    ⟨rfl,fun _ _ => rfl,rfl⟩
  exact (artists _).trans (modifyTrack_aside (by exact fun _ => ⟨rfl,rfl⟩) _ track)

theorem unlink_aside (s : Store) (track artist : Nat) : Aside track s (s.unlink track artist) := by
  unfold unlink
  have artists (change : ArtistRow → ArtistRow) : Aside track s (s.modifyArtist artist change) :=
    ⟨rfl,fun _ _ => rfl,rfl⟩
  exact (artists _).trans (modifyTrack_aside (by exact fun _ => ⟨rfl,rfl⟩) _ track)

theorem getArtistByName_aside (s : Store) (name : String) : Aside track s (s.getArtistByName name).2 := by
  unfold getArtistByName
  split
  · exact .refl track s
  · exact ⟨rfl,fun _ _ => rfl,rfl⟩

theorem dropArtists_aside (mode : Iteration) (newArtists : Option (List String)) (fuel cursor : Nat)
    (s : Store) (actuallyChanged : Bool) :
    Aside track s (s.dropArtists mode newArtists track fuel cursor actuallyChanged).1 := by
  induction fuel generalizing s cursor actuallyChanged with
  | zero => exact .refl track s
  | succ fuel ih =>
    unfold dropArtists
    split
    · exact .refl track s
    · split
      · exact ih _ _ _
      · have unlinked := unlink_aside s track
        dsimp only
        split
        · exact (unlinked _).trans (ih _ _ _)
        · split
          · exact unlinked _
          · exact unlinked _

theorem addArtist_aside (state : Store × Bool) (newArtist : String) :
    Aside track state.1 (addArtist track state newArtist).1 := by
  unfold addArtist
  dsimp only
  split
  · exact .refl track _
  · exact (getArtistByName_aside _ _).trans (link_aside _ _ _)

theorem addArtists_aside (state : Store × Bool) (names : List String) :
    Aside track state.1 (names.foldl (addArtist track) state).1 := by
  induction names generalizing state with
  | nil => exact .refl track _
  | cons name rest ih => exact (addArtist_aside state name).trans (ih _)

theorem updateArtists_aside (mode : Iteration) (s : Store) (newTrack : Track) (oldTrack : TrackRow) :
    Aside oldTrack.id s (s.updateArtists mode newTrack oldTrack).1 := by
  unfold updateArtists
  split
  next =>
    have texted : Aside oldTrack.id s (s.modifyTrack oldTrack.id fun row =>
        {row with artistText := newTrack.artistText}) :=
      modifyTrack_aside (by exact fun _ => ⟨rfl,rfl⟩) s oldTrack.id
    have dropped := texted.trans (dropArtists_aside mode (newTrack.artistText.map artistNames)
      oldTrack.artists.length 0 _ false)
    dsimp only
    split
    next outcome => rw [outcome] at dropped; exact dropped
    next outcome =>
      rw [outcome] at dropped
      exact dropped.trans (addArtists_aside (_,_) _)
  next => exact .refl _ s

theorem updateArtists_same (mode : Iteration) (s : Store) {newTrack : Track} {oldTrack : TrackRow}
    (same : oldTrack.artistText = newTrack.artistText) :
    s.updateArtists mode newTrack oldTrack = (s,some false) := by
  unfold updateArtists
  rw [if_neg (not_not_intro same)]

def game? (s : Store) (platformName title : Option String) : Option Nat :=
  (s.games.find? (fun row => row.platformName = platformName ∧ row.title = title)).map GameRow.id

theorem getGame_id (s : Store) (platformName title : Option String) :
    (s.getGame platformName title).1 = (s.game? platformName title).getD s.nextId := by
  unfold getGame game?
  split
  next found => rw [found]; rfl
  next missing => rw [missing]; rfl

theorem getGame_summary (s : Store) (platformName title : Option String) (game : Nat) :
    (s.getGame platformName title).2.summary game = s.summary game := by
  unfold getGame
  split
  · rfl
  · unfold summary
    dsimp only
    rw [row?_append]
    cases row? s.games game with
    | some row => rfl
    | none =>
      rw [Option.none_or]
      split
      · rfl
      · rfl

theorem getGame_tracks (s : Store) (platformName title : Option String) :
    (s.getGame platformName title).2.tracks = s.tracks := by
  unfold getGame
  split
  · rfl
  · rfl

theorem modifyGame_summary {change : GameRow → GameRow} (keeps : ∀ row, (change row).id = row.id ∧
    (change row).multipleArtists = row.multipleArtists ∧ (change row).artist = row.artist)
    (s : Store) (game other : Nat) : (s.modifyGame game change).summary other = s.summary other := by
  unfold summary
  rw [row?_modifyGame (fun row => (keeps row).1)]
  split
  next here =>
    subst here
    rw [Option.map_map]
    congr 2
    funext row
    exact Prod.ext (keeps row).2.1 (keeps row).2.2
  next => rfl

theorem leaveGame_effect (s : Store) (oldTrack : TrackRow) : (s.leaveGame oldTrack).tracks = s.tracks ∧
    (∀ game, (s.leaveGame oldTrack).summary game = s.summary game) ∧
    ∀ platformName title, ((s.leaveGame oldTrack).getGame platformName title).1 =
      (s.getGame platformName title).1 := by
  unfold leaveGame
  split
  · exact ⟨rfl,fun _ => rfl,fun _ _ => rfl⟩
  next oldGame _ =>
    refine ⟨rfl,modifyGame_summary (by exact fun _ => ⟨rfl,rfl,rfl⟩) s oldGame,fun platformName title => ?_⟩
    rw [getGame_id,getGame_id]
    congr 1
    unfold game? modifyGame Table.modify
    dsimp only
    rw [List.find?_map,Option.map_map]
    have looks : (fun row : GameRow => decide (row.platformName = platformName ∧ row.title = title)) ∘
        (fun row => if Row.key row = oldGame then
          {row with tracks := row.tracks.erase oldTrack.id} else row) =
        fun row => decide (row.platformName = platformName ∧ row.title = title) := by
      funext row
      by_cases here : Row.key row = oldGame <;> simp [here]
    have ids : GameRow.id ∘ (fun row => if Row.key row = oldGame then
        {row with tracks := row.tracks.erase oldTrack.id} else row) = GameRow.id := by
      funext row
      by_cases here : Row.key row = oldGame <;> simp [here]
    rw [looks,ids]

/-- A move sets the game of the track and nothing in the summaries. -/
theorem moveGame_effect {oldTrack row : TrackRow} (stored : row? s.tracks oldTrack.id = some row)
    (newTrack : Track) : (∀ game, (s.moveGame newTrack oldTrack).summary game = s.summary game) ∧
      (∀ other ≠ oldTrack.id, row? (s.moveGame newTrack oldTrack).tracks other = row? s.tracks other) ∧
      row? (s.moveGame newTrack oldTrack).tracks oldTrack.id = some {row with
        game := some (s.getGame newTrack.platformName newTrack.gameTitle).1} := by
  obtain ⟨tracks,summaries,found⟩ := leaveGame_effect s oldTrack
  unfold moveGame
  dsimp only
  rw [found]
  have kept := getGame_tracks (s.leaveGame oldTrack) newTrack.platformName newTrack.gameTitle
  refine ⟨fun game => ?_,?_,?_⟩
  · exact (modifyGame_summary (by exact fun _ => ⟨rfl,rfl,rfl⟩) _ _ game).trans
      ((getGame_summary _ _ _ game).trans (summaries game))
  · intro other apart
    have still := @others_modifyTrack (fun row => {row with
      game := some (s.getGame newTrack.platformName newTrack.gameTitle).1}) (by exact fun _ => rfl)
      (((s.leaveGame oldTrack).getGame newTrack.platformName newTrack.gameTitle).2.modifyGame
        (s.getGame newTrack.platformName newTrack.gameTitle).1 fun row =>
          {row with tracks := row.tracks ++ [oldTrack.id]}) oldTrack.id other apart
    rw [still]
    change row? ((s.leaveGame oldTrack).getGame newTrack.platformName newTrack.gameTitle).2.tracks other = _
    rw [kept,tracks]
  · rw [row?_modifyTrack (by exact fun _ => rfl),if_pos rfl]
    change (row? ((s.leaveGame oldTrack).getGame newTrack.platformName newTrack.gameTitle).2.tracks
      oldTrack.id).map _ = _
    rw [kept,tracks,stored]
    rfl

theorem outgrows_none (unset : ∀ game, (s.summary game).1 ≠ some false) (track : Nat) :
    s.outgrows track = none := by
  unfold outgrows
  split
  · rfl
  next oldTrack _ =>
    split
    · rfl
    next game found =>
      obtain ⟨key,_,stored⟩ := Option.bind_eq_some_iff.mp found
      have flag := unset key
      rw [summary_of_row stored] at flag
      exact if_neg fun both => flag both.1

/-- The title and the artists of a track as an update writes them, before it comes to the game. -/
def recredit (mode : Iteration) (s : Store) (oldTrack : TrackRow) (newTrack : Track) : Store × Option Bool :=
  (s.modifyTrack oldTrack.id fun row => {row with title := newTrack.title}).updateArtists mode newTrack
    oldTrack

theorem recredit_aside (mode : Iteration) (s : Store) (oldTrack : TrackRow) (newTrack : Track) :
    Aside oldTrack.id s (s.recredit mode oldTrack newTrack).1 := by
  have titled : Aside oldTrack.id s (s.modifyTrack oldTrack.id fun row =>
      {row with title := newTrack.title}) :=
    modifyTrack_aside (by exact fun _ => ⟨rfl,rfl⟩) s oldTrack.id
  exact titled.trans (updateArtists_aside mode _ newTrack oldTrack)

def relocated (newTrack : Track) (row : TrackRow) : TrackRow := {row with
  path := newTrack.path
  trackNumber := newTrack.trackNumber
  trackLength := newTrack.trackLength
  introLength := newTrack.introLength
  loopLength := newTrack.loopLength}

theorem updateTrack_threw {mode : Iteration} {s t : Store} {oldTrack : TrackRow} {newTrack : Track}
    (threw : s.recredit mode oldTrack newTrack = (t,none)) :
    s.updateTrack mode oldTrack newTrack = (t,none) := by
  unfold recredit at threw
  unfold updateTrack
  dsimp only
  rw [threw]

theorem updateTrack_wrote {mode : Iteration} {s t : Store} {oldTrack : TrackRow} {newTrack : Track}
    {artistsChanged : Bool} (wrote : s.recredit mode oldTrack newTrack = (t,some artistsChanged)) :
    (s.updateTrack mode oldTrack newTrack).1 =
      (t.updateGame newTrack oldTrack).1.modifyTrack oldTrack.id (relocated newTrack) := by
  unfold recredit at wrote
  unfold updateTrack
  dsimp only
  rw [wrote]
  rfl

/-- What an update does to the summaries, the other tracks, and the game and artists of the track. -/
structure Updated (mode : Iteration) (s : Store) (oldTrack : TrackRow) (newTrack : Track) (t : Store) :
    Prop where
  summary : ∀ game, t.summary game = s.summary game
  others : ∀ other ≠ oldTrack.id, row? t.tracks other = row? s.tracks other
  stays : oldTrack.gameTitle = newTrack.gameTitle ∨ (s.recredit mode oldTrack newTrack).2 = none →
    (row? t.tracks oldTrack.id).map TrackRow.game = some oldTrack.game
  moves : oldTrack.gameTitle ≠ newTrack.gameTitle → (s.recredit mode oldTrack newTrack).2 ≠ none →
    ∃ next, (row? t.tracks oldTrack.id).map TrackRow.game =
      some (some ((s.game? newTrack.platformName newTrack.gameTitle).getD next))
  artists : (row? t.tracks oldTrack.id).map TrackRow.artists =
    (row? (s.recredit mode oldTrack newTrack).1.tracks oldTrack.id).map TrackRow.artists

theorem updateTrack_updated (mode : Iteration) (unset : ∀ game, (s.summary game).1 ≠ some false)
    {oldTrack : TrackRow} (stored : row? s.tracks oldTrack.id = some oldTrack) (newTrack : Track) :
    Updated mode s oldTrack newTrack (s.updateTrack mode oldTrack newTrack).1 := by
  have credited := recredit_aside mode s oldTrack newTrack
  cases outcome : s.recredit mode oldTrack newTrack with
  | mk written returned =>
  rw [outcome] at credited
  obtain ⟨row,own,game⟩ : ∃ row, row? written.tracks oldTrack.id = some row ∧
      row.game = oldTrack.game := by
    have same := credited.game
    rw [stored,Option.map_some] at same
    obtain ⟨row,own,game⟩ := Option.map_eq_some_iff.mp same
    exact ⟨row,own,game⟩
  have summaries (game : Nat) : written.summary game = s.summary game := by
    rw [summary,credited.games]
    rfl
  cases returned with
  | none =>
    rw [updateTrack_threw outcome]
    refine ⟨summaries,credited.others,fun _ => ?_,fun _ went => ?_,?_⟩
    · rw [own,Option.map_some,game]
    · rw [outcome] at went
      exact absurd rfl went
    · rw [outcome]
  | some artistsChanged =>
    have games : written.game? newTrack.platformName newTrack.gameTitle =
        s.game? newTrack.platformName newTrack.gameTitle := by
      rw [game?,credited.games]
      rfl
    have last (after : Store) :
        Aside oldTrack.id after (after.modifyTrack oldTrack.id (relocated newTrack)) :=
      modifyTrack_aside (by exact fun _ => ⟨rfl,rfl⟩) after oldTrack.id
    have artists (after : Store) : (row? (after.modifyTrack oldTrack.id (relocated newTrack)).tracks
        oldTrack.id).map TrackRow.artists = (row? after.tracks oldTrack.id).map TrackRow.artists := by
      rw [row?_modifyTrack (by exact fun _ => rfl),if_pos rfl,Option.map_map]
      rfl
    obtain ⟨moved_summary,moved_others,moved⟩ := moveGame_effect own newTrack
    rw [updateTrack_wrote outcome]
    unfold updateGame
    dsimp only
    by_cases titles : oldTrack.gameTitle = newTrack.gameTitle
    · rw [if_neg (not_not_intro titles),outgrows_none (by simpa only [summaries] using unset)]
      refine ⟨summaries,?_,fun _ => ?_,fun apart => absurd titles apart,?_⟩
      · exact fun other apart => ((last written).others other apart).trans (credited.others other apart)
      · rw [(last written).game,own,Option.map_some,game]
      · rw [artists,outcome]
    · rw [if_pos titles,outgrows_none (by simpa only [moved_summary,summaries] using unset)]
      rw [getGame_id,games] at moved
      refine ⟨fun other => (moved_summary other).trans (summaries other),?_,fun stays => ?_,
        fun _ _ => ⟨written.nextId,?_⟩,?_⟩
      · exact fun other apart => ((last _).others other apart).trans
          ((moved_others other apart).trans (credited.others other apart))
      · rw [outcome] at stays
        exact absurd stays (by simp [titles])
      · rw [(last _).game,moved]
        rfl
      · rw [artists,moved,outcome,own]
        rfl

theorem mem_rest (tied : s.Tied) {game : GameRow} (stored : game ∈ s.games) (track artist : Nat) :
    artist ∈ s.artistsOf {game with tracks := game.tracks.filter (· ≠ track)} ↔
      s.PlaysBut track game.id artist := by
  unfold artistsOf PlaysBut
  rw [List.mem_flatMap]
  refine exists_congr fun other => ?_
  dsimp only
  rw [List.mem_filter,listed_iff_plays tied stored,decide_eq_true_iff]
  constructor
  · exact fun ⟨⟨linked,apart⟩,credited⟩ => ⟨apart,linked,credited⟩
  · exact fun ⟨apart,linked,credited⟩ => ⟨⟨linked,apart⟩,credited⟩

theorem gamePairing_of_row {track : Nat} {game : Option Nat}
    (known : (row? s.tracks track).map TrackRow.game = some game) :
    s.gamePairing.forward track = game.toList := by
  obtain ⟨row,stored,rfl⟩ := Option.map_eq_some_iff.mp known
  simp [gamePairing,stored]

theorem artistPairing_of_row {track : Nat} {artists : List Nat}
    (known : (row? s.tracks track).map TrackRow.artists = some artists) :
    s.artistPairing.forward track = artists := by
  obtain ⟨row,stored,rfl⟩ := Option.map_eq_some_iff.mp known
  simp [artistPairing,stored]

theorem game?_stored {platformName title : Option String} {game : Nat}
    (found : s.game? platformName title = some game) : ∃ row ∈ s.games, row.id = game := by
  obtain ⟨row,first,id⟩ := Option.map_eq_some_iff.mp found
  exact ⟨row,List.mem_of_find?_eq_some first,id⟩

end Update

/-- What a turn of the loop of `addTrack` makes of the summary of the game. -/
def creditSummary (gameArtist : GameArtist) (gameHadMultipleArtists : Bool)
    (summary : Option Bool × Option Nat) (artist : Nat) : Option Bool × Option Nat :=
  if gameArtist ≠ .null ∧ gameHadMultipleArtists = false then
    if gameArtist ≠ .stored artist then (some true,none) else summary
  else if gameArtist = .null then (summary.1,some artist)
  else summary

section Addition
variable {s : Store} {game track : Nat}

theorem modifyGame_sets {change : GameRow → GameRow} (keeps : ∀ row, (change row).id = row.id)
    {row : GameRow}
    (stored : row? s.games game = some row) :
    (∀ other ≠ game, (s.modifyGame game change).summary other = s.summary other) ∧
      row? (s.modifyGame game change).games game = some (change row) := by
  refine ⟨fun other apart => ?_,?_⟩
  · rw [summary,row?_modifyGame keeps,if_neg apart]
    rfl
  · rw [row?_modifyGame keeps,if_pos rfl,stored]
    rfl

theorem credit_effect (gameArtist : GameArtist) (had : Bool) {row : GameRow}
    (stored : row? s.games game = some row) {trackRow : TrackRow}
    (storedTrack : row? s.tracks track = some trackRow) (artist : Nat) :
    let next := credit gameArtist had game track s artist
    (∀ other ≠ track, row? next.tracks other = row? s.tracks other) ∧
      row? next.tracks track = some {trackRow with artists := trackRow.artists ++ [artist]} ∧
      (∀ other ≠ game, next.summary other = s.summary other) ∧
      (∃ row, row? next.games game = some row) ∧
      next.summary game = creditSummary gameArtist had (s.summary game) artist := by
  have linked : row? (s.link track artist).games game = some row := stored
  have tracks : (∀ other ≠ track, row? (s.link track artist).tracks other = row? s.tracks other) ∧
      row? (s.link track artist).tracks track =
        some {trackRow with artists := trackRow.artists ++ [artist]} := by
    refine ⟨fun other apart => ?_,?_⟩
    · rw [row?_link_tracks,if_neg apart]
    · rw [row?_link_tracks,if_pos rfl,storedTrack]
      rfl
  have set (change : GameRow → GameRow) (keeps : ∀ row, (change row).id = row.id) :=
    @modifyGame_sets (s.link track artist) game change keeps row linked
  unfold credit creditSummary
  dsimp only
  split
  · split
    · obtain ⟨others,own⟩ := set (fun row => {row with multipleArtists := some true, artist := none})
        (by exact fun _ => rfl)
      exact ⟨tracks.1,tracks.2,others,⟨_,own⟩,summary_of_row own⟩
    · exact ⟨tracks.1,tracks.2,fun _ _ => rfl,⟨row,linked⟩,rfl⟩
  · split
    · obtain ⟨others,own⟩ := set (fun row => {row with artist := some artist}) (by exact fun _ => rfl)
      refine ⟨tracks.1,tracks.2,others,⟨_,own⟩,?_⟩
      rw [summary_of_row own,summary_of_row stored]
    · exact ⟨tracks.1,tracks.2,fun _ _ => rfl,⟨row,linked⟩,rfl⟩

theorem credits_effect (gameArtist : GameArtist) (had : Bool) {row : GameRow}
    (stored : row? s.games game = some row) {trackRow : TrackRow}
    (storedTrack : row? s.tracks track = some trackRow) (artists : List Nat) :
    let last := artists.foldl (credit gameArtist had game track) s
    (∀ other ≠ track, row? last.tracks other = row? s.tracks other) ∧
      row? last.tracks track = some {trackRow with artists := trackRow.artists ++ artists} ∧
      (∀ other ≠ game, last.summary other = s.summary other) ∧
      last.summary game = artists.foldl (creditSummary gameArtist had) (s.summary game) := by
  induction artists generalizing s row trackRow with
  | nil => simpa using storedTrack
  | cons artist rest ih =>
    obtain ⟨others,own,summaries,⟨next,kept⟩,made⟩ :=
      credit_effect gameArtist had stored storedTrack artist
    obtain ⟨others',own',summaries',made'⟩ := ih kept own
    refine ⟨fun other apart => (others' other apart).trans (others other apart),?_,
      fun other apart => (summaries' other apart).trans (summaries other apart),?_⟩
    · rw [List.append_assoc] at own'
      exact own'
    · rw [made] at made'
      exact made'

theorem credits_various (artists : List Nat) (summary : Option Bool × Option Nat) :
    artists.foldl (creditSummary .various true) summary = summary := by
  induction artists generalizing summary with
  | nil => rfl
  | cons artist rest ih => exact ih summary

/-- A game without an artist gets the last one of the credit and never the flag. -/
theorem credits_null {artists : List Nat} (credited : artists ≠ []) {artist : Nat}
    (same : ∀ other ∈ artists, other = artist) (had : Bool) (summary : Option Bool × Option Nat) :
    artists.foldl (creditSummary .null had) summary = (summary.1,some artist) := by
  induction artists generalizing summary with
  | nil => exact absurd rfl credited
  | cons first rest ih =>
    have one : creditSummary .null had summary first = (summary.1,some artist) := by
      rw [same first List.mem_cons_self]
      rfl
    rw [List.foldl_cons,one]
    by_cases more : rest = []
    · rw [more]
      rfl
    · exact ih more (fun other listed => same other (.tail _ listed)) _

theorem credits_stored (artists : List Nat) (artist : Nat) (summary : Option Bool × Option Nat) :
    artists.foldl (creditSummary (.stored artist) false) summary =
      if ∀ other ∈ artists, other = artist then summary else (some true,none) := by
  induction artists generalizing summary with
  | nil => simp
  | cons first rest ih =>
    rw [List.foldl_cons,ih]
    by_cases here : first = artist
    · subst here
      simp [creditSummary]
    · have apart : ¬ artist = first := fun same => here same.symm
      simp [creditSummary,here,apart]

theorem getGame_known (keyed : s.Keyed) (platformName title : Option String) :
    (∃ row, row? (s.getGame platformName title).2.games (s.getGame platformName title).1 = some row) ∧
      (s.getGame platformName title).2.artists = s.artists := by
  obtain ⟨_,_,_,_,artists,known⟩ := getGame_spec keyed platformName title
  exact ⟨known,artists⟩

theorem getPlatform_still (s : Store) (name : Option String) : (s.getPlatform name).2.tracks = s.tracks ∧
    (s.getPlatform name).2.games = s.games ∧ (s.getPlatform name).2.artists = s.artists := by
  unfold getPlatform
  split
  · exact ⟨rfl,rfl,rfl⟩
  · exact ⟨rfl,rfl,rfl⟩

/-- The game of a track that is added and the store in which it is entered there, its credit not
yet read. -/
def enter (s : Store) (track : Track) : Nat × Store :=
  let (key,s) := s.saveTrack track
  let (game,s) := s.getGame track.platformName track.gameTitle
  let (platform,s) := s.getPlatform track.platformName
  let s := s.modifyTrack key fun row => {row with game := some game, platform := some platform}
  (game,s.modifyGame game fun row => {row with
    tracks := row.tracks ++ [key], platformName := track.platformName})

theorem addTrack_eq (s : Store) (track : Track) : s.addTrack track =
    let entered := s.enter track
    let found := entered.2.getArtistsByName (creditedNames track)
    match row? found.2.games entered.1 with
    | none => (entered.1,found.2)
    | some row => (entered.1,found.1.foldl
      (credit row.gameArtist (row.multipleArtists.getD false) entered.1 s.nextId) found.2) := rfl

theorem enter_id (s : Store) (track : Track) :
    (s.enter track).1 = (s.game? track.platformName track.gameTitle).getD (s.nextId + 1) :=
  getGame_id (s.saveTrack track).2 track.platformName track.gameTitle

theorem enter_track (tied : s.Tied) (track : Track) :
    (∀ other ≠ s.nextId, row? (s.enter track).2.tracks other = row? s.tracks other) ∧
      ∃ platform, row? (s.enter track).2.tracks s.nextId = some {track with
        id := s.nextId, platform := platform, game := some (s.enter track).1, artists := []} := by
  have fresh := row?_fresh tied.keyed.tracksBelow
  unfold enter
  dsimp only
  have found_tracks := getGame_tracks (s.saveTrack track).2 track.platformName track.gameTitle
  generalize (s.saveTrack track).2.getGame track.platformName track.gameTitle = found at *
  have platform_tracks := (getPlatform_still found.2 track.platformName).1
  generalize found.2.getPlatform track.platformName = platform at *
  have saved (other : Nat) : row? platform.2.tracks other = (row? s.tracks other).or
      (if s.nextId = other then
        some {track with id := s.nextId, platform := none, game := none, artists := []} else none) := by
    rw [platform_tracks,found_tracks]
    exact row?_append s.tracks _ other
  refine ⟨fun other apart => ?_,some platform.1,?_⟩
  · refine (others_modifyTrack (by exact fun _ => rfl) platform.2 s.nextId other apart).trans ?_
    rw [saved,if_neg (Ne.symm apart),Option.or_none]
  · refine (row?_modifyTrack (by exact fun _ => rfl) platform.2 s.nextId s.nextId).trans ?_
    rw [if_pos rfl,saved,fresh,if_pos rfl]
    rfl

theorem enter_rest (tied : s.Tied) (track : Track) : (s.enter track).2.Keyed ∧
    (s.enter track).2.artists = s.artists ∧ (∀ game, (s.enter track).2.summary game = s.summary game) ∧
    ∃ row, row? (s.enter track).2.games (s.enter track).1 = some row := by
  obtain ⟨entered,_,_,listed⟩ := entered_held tied track
  refine ⟨entered.keyed,?_,fun game => ?_,listed⟩
  · have saved_keyed : (s.saveTrack track).2.Keyed := (saveTrack_held tied track).keyed
    exact (getPlatform_still _ track.platformName).2.2.trans
      (getGame_known saved_keyed track.platformName track.gameTitle).2
  · refine (modifyGame_summary (by exact fun _ => ⟨rfl,rfl,rfl⟩) _ _ game).trans ?_
    have found := getGame_summary (s.saveTrack track).2 track.platformName track.gameTitle game
    have platform := (getPlatform_still ((s.saveTrack track).2.getGame track.platformName
      track.gameTitle).2 track.platformName).2.1
    refine Eq.trans ?_ found
    unfold summary
    rw [← platform]
    rfl

/-- What an addition does to the summaries, the other tracks, and the game and artists of the track. -/
structure Added (s : Store) (game : Nat) (artists : List Nat) (t : Store) : Prop where
  others : ∀ other ≠ s.nextId, row? t.tracks other = row? s.tracks other
  enters : (row? t.tracks s.nextId).map TrackRow.game = some (some game)
  credits : (row? t.tracks s.nextId).map TrackRow.artists = some artists
  spares : ∀ other ≠ game, t.summary other = s.summary other
  sums : ∃ row : GameRow, s.summary game = (row.multipleArtists,row.artist) ∧ t.summary game =
    artists.foldl (creditSummary row.gameArtist (row.multipleArtists.getD false)) (s.summary game)

theorem addTrack_added (tied : s.Tied) (track : Track) : ∃ (u : Store) (artists : List Nat), u.Keyed ∧
    (∀ name artist, s.artist? name = some artist → u.artist? name = some artist) ∧
    artists.map some = (creditedNames track).map u.artist? ∧
    Added s (s.enter track).1 artists (s.addTrack track).2 := by
  obtain ⟨others,platform,stored⟩ := enter_track tied track
  obtain ⟨keyed,artists,summaries,row,listed⟩ := enter_rest tied track
  rw [addTrack_eq]
  dsimp only
  generalize s.enter track = entered at *
  obtain ⟨last,_,_,tracks,games,found,known⟩ := getArtistsByName_spec keyed (creditedNames track)
  generalize entered.2.getArtistsByName (creditedNames track) = credited at *
  rw [← games] at listed
  rw [← tracks] at stored
  rw [listed]
  dsimp only
  obtain ⟨others',own,spares,sums⟩ := credits_effect row.gameArtist (row.multipleArtists.getD false)
    listed stored credited.1
  have still (game : Nat) : credited.2.summary game = s.summary game := by
    rw [← summaries,summary,games]
    rfl
  refine ⟨credited.2,credited.1,last,fun name artist look => known name artist ?_,found,
    ?_,?_,?_,?_,row,?_,?_⟩
  · rw [artist?,artists]
    exact look
  · intro other apart
    rw [others' other apart,tracks,others other apart]
  · rw [own]
    rfl
  · rw [own]
    rfl
  · exact fun other apart => (spares other apart).trans (still other)
  · rw [← still,summary_of_row listed]
  · rw [sums,still]

/-- A game whose tracks have no artist yet is credited to one artist: any one where the game has
none stored, else that one or several. -/
def Takes (s : Store) (track : Track) : Prop :=
  match s.games.find? (fun row => row.platformName = track.platformName ∧ row.title = track.gameTitle) with
  | none => ¬ Several (creditedNames track)
  | some game => s.artistsOf game = [] →
    match game.artist with
    | none => ¬ Several (creditedNames track)
    | some artist => Several (creditedNames track) ∨
        ∀ name ∈ creditedNames track, s.artist? name = some artist

instance (s : Store) (track : Track) : Decidable (s.Takes track) := by
  unfold Takes
  split
  · infer_instance
  · refine @instDecidableForall _ _ _ ?_
    split
    · infer_instance
    · infer_instance

/-- What `Takes` says of the game that the track enters, if its tracks have no artist yet. -/
theorem Takes.of_bare (tied : s.Tied) {track : Track} (takes : s.Takes track)
    (bare : ∀ artist, ¬ s.Plays (s.enter track).1 artist) :
    match (s.summary (s.enter track).1).2 with
    | none => ¬ Several (creditedNames track)
    | some artist => Several (creditedNames track) ∨
        ∀ name ∈ creditedNames track, s.artist? name = some artist := by
  rw [enter_id,game?] at bare ⊢
  unfold Takes at takes
  split at takes
  next missing =>
    rw [missing,Option.map_none,Option.getD_none,summary,row?_fresh (below_succ tied.keyed.gamesBelow)]
    exact takes
  next row found =>
    have stored := List.mem_of_find?_eq_some found
    rw [found,Option.map_some,Option.getD_some] at bare ⊢
    have own : s.summary row.id = (row.multipleArtists,row.artist) :=
      summary_of_row (row?_of_mem tied.keyed.games stored)
    have none : s.artistsOf row = [] :=
      List.eq_nil_iff_forall_not_mem.mpr fun artist listed =>
        bare artist ((mem_artistsOf tied stored artist).mp listed)
    rw [own]
    exact takes none

section Names
variable {u : Store} {names : List String} {artists : List Nat}

theorem artists_same (found : artists.map some = names.map u.artist?) (once : ¬ Several names)
    {first second : Nat}
    (left : first ∈ artists) (right : second ∈ artists) : first = second := by
  have one := List.mem_map_of_mem (f := some) left
  have other := List.mem_map_of_mem (f := some) right
  rw [found] at one other
  obtain ⟨name,listed,look⟩ := List.mem_map.mp one
  obtain ⟨name',listed',look'⟩ := List.mem_map.mp other
  have same : name = name' := by
    by_contra apart
    exact once ⟨name,listed,name',listed',apart⟩
  rw [same] at look
  exact Option.some.inj (look.symm.trans look')

theorem artists_several (keyed : u.Keyed) (found : artists.map some = names.map u.artist?)
    (several : Several names) : Several artists := by
  obtain ⟨name,listed,name',listed',apart⟩ := several
  have one := List.mem_map_of_mem (f := u.artist?) listed
  have other := List.mem_map_of_mem (f := u.artist?) listed'
  rw [← found] at one other
  obtain ⟨artist,present,look⟩ := List.mem_map.mp one
  obtain ⟨artist',present',look'⟩ := List.mem_map.mp other
  refine ⟨artist,present,artist',present',fun same => apart ?_⟩
  rw [← same] at look'
  exact artist?_inj keyed look.symm look'.symm

theorem artists_all (found : artists.map some = names.map u.artist?) {artist : Nat}
    (all : ∀ name ∈ names, u.artist? name = some artist) : ∀ other ∈ artists, other = artist := by
  intro other present
  have one := List.mem_map_of_mem (f := some) present
  rw [found] at one
  obtain ⟨name,listed,look⟩ := List.mem_map.mp one
  exact Option.some.inj (look.symm.trans (all name listed))

end Names

theorem Added.fits (tied : s.Tied) (fits : ∀ game, Fits (s.summary game) (s.Plays game)) {track : Track}
    (takes : s.Takes track) {t u : Store} {artists : List Nat} (keyed : u.Keyed)
    (known : ∀ name artist, s.artist? name = some artist → u.artist? name = some artist)
    (found : artists.map some = (creditedNames track).map u.artist?)
    (added : Added s (s.enter track).1 artists t) (game : Nat) : Fits (t.summary game) (t.Plays game) := by
  have fresh : s.gamePairing.forward s.nextId = [] := by
    simp [gamePairing,row?_fresh tied.keyed.tracksBelow]
  have plays (game artist : Nat) : t.Plays game artist ↔
      s.Plays game artist ∨ game = (s.enter track).1 ∧ artist ∈ artists := by
    rw [plays_iff s.nextId,playsBut_congr added.others,gamePairing_of_row added.enters,
      artistPairing_of_row added.credits,plays_iff (s := s) s.nextId,fresh]
    simp
  by_cases here : game = (s.enter track).1
  · subst here
    have plays (artist : Nat) : t.Plays (s.enter track).1 artist ↔
        s.Plays (s.enter track).1 artist ∨ artist ∈ artists := by
      rw [plays]
      simp
    have was := fits (s.enter track).1
    have bare := Takes.of_bare tied takes
    obtain ⟨row,own,sums⟩ := added.sums
    rw [own] at was bare sums
    dsimp only at bare
    by_cases flag : row.multipleArtists = some true
    · have various : row.gameArtist = .various := by simp [GameRow.gameArtist,flag]
      rw [various,flag,Option.getD_some,credits_various] at sums
      rw [sums]
      refine .of_mixed rfl ?_
      exact (was.1.mp flag).mono fun artist present => (plays artist).mpr (.inl present)
    · have had : row.multipleArtists.getD false = false := by
        cases set : row.multipleArtists with
        | none => rfl
        | some value =>
          cases value
          · rfl
          · exact absurd set flag
      rw [had] at sums
      cases artist : row.artist with
      | none =>
        have unplayed (other : Nat) : ¬ s.Plays (s.enter track).1 other := by
          intro present
          have sole := (was.sole flag present).1
          rw [artist] at sole
          cases sole
        have once := bare unplayed
        rw [artist] at once
        have null : row.gameArtist = .null := by simp [GameRow.gameArtist,flag,artist]
        rw [null] at sums
        by_cases credited : artists = []
        · rw [credited] at sums plays
          rw [sums]
          refine .of_none flag fun other present => ?_
          rcases (plays other).mp present with old | new
          · exact unplayed other old
          · cases new
        · obtain ⟨first,rest,listed⟩ := List.exists_cons_of_ne_nil credited
          have all : ∀ other ∈ artists, other = first := fun other present =>
            artists_same found once present (by rw [listed]; exact List.mem_cons_self)
          rw [credits_null credited all] at sums
          rw [sums]
          refine .of_sole flag (fun other present => ?_) rfl
          rcases (plays other).mp present with old | new
          · exact absurd old (unplayed other)
          · exact all other new
      | some artist' =>
        have stored : row.gameArtist = .stored artist' := by simp [GameRow.gameArtist,flag,artist]
        rw [stored,credits_stored] at sums
        have mine (other : Nat) (present : s.Plays (s.enter track).1 other) : other = artist' := by
          have sole := (was.sole flag present).1
          rw [artist] at sole
          exact (Option.some.inj sole).symm
        by_cases all : ∀ other ∈ artists, other = artist'
        · rw [if_pos all] at sums
          rw [sums]
          refine .of_sole flag (fun other present => ?_) artist
          rcases (plays other).mp present with old | new
          · exact mine other old
          · exact all other new
        · rw [if_neg all] at sums
          rw [sums]
          refine .of_mixed rfl ?_
          by_cases played : ∃ other, s.Plays (s.enter track).1 other
          · obtain ⟨other,present⟩ := played
            cases mine other present
            push Not at all
            obtain ⟨second,listed,apart⟩ := all
            exact ⟨second,artist',(plays second).mpr (.inr listed),(plays artist').mpr (.inl present),apart⟩
          · have credit := bare (not_exists.mp played)
            rw [artist] at credit
            rcases credit with several | same
            · obtain ⟨first,one,second,other,apart⟩ := artists_several keyed found several
              exact ⟨first,second,(plays first).mpr (.inr one),(plays second).mpr (.inr other),apart⟩
            · exact absurd (artists_all found fun name listed => known name artist' (same name listed)) all
  · have same (artist : Nat) : t.Plays game artist ↔ s.Plays game artist := by
      rw [plays]
      simp [here]
    rw [added.spares game here,fits_congr same]
    exact fits game

theorem creditSummary_unset {gameArtist : GameArtist} {had : Bool} {summary : Option Bool × Option Nat}
    (unset : summary.1 ≠ some false) (artists : List Nat) :
    (artists.foldl (creditSummary gameArtist had) summary).1 ≠ some false := by
  induction artists generalizing summary with
  | nil => exact unset
  | cons artist rest ih =>
    apply ih
    unfold creditSummary
    split
    · split
      · simp
      · exact unset
    · split
      · exact unset
      · exact unset

theorem Added.unset {t : Store} {artists : List Nat} (unset : ∀ game, (s.summary game).1 ≠ some false)
    (added : Added s game artists t) (other : Nat) : (t.summary other).1 ≠ some false := by
  by_cases here : other = game
  · subst here
    obtain ⟨row,_,sums⟩ := added.sums
    rw [sums]
    exact creditSummary_unset (unset other) artists
  · rw [added.spares other here]
    exact unset other

end Addition

theorem empty_unset (game : Nat) : (empty.summary game).1 ≠ some false := by
  simp [summary,empty,row?]

end Store
end Chipbox.Library
