import Chipbox.Library.Faces
import Chipbox.Library.Rewrite

/-! When the summaries of the games stay right: what an addition and an update may do to the artists
of a game. -/
namespace Chipbox.Library
open Table Index

namespace Store

structure ArtistsNamed (s : Store) : Prop where
  named : none ∉ s.artists.map ArtistRow.name
  unique : Unique ArtistRow.name s.artists

section ArtistsNamed
variable {s t : Store}

theorem artistName_mem {artist : Nat} {name : String} (named : s.artistName artist = some name) :
    ∃ row ∈ s.artists, row.id = artist ∧ row.name = some name := by
  obtain ⟨row,stored,same⟩ := Option.bind_eq_some_iff.mp named
  exact ⟨row,row?_mem stored,row?_key stored,same⟩

theorem ArtistsNamed.injective (distinct : s.ArtistsNamed) {first second : Nat} {name : String}
    (one : s.artistName first = some name) (other : s.artistName second = some name) : first = second := by
  obtain ⟨row,listed,rfl,named⟩ := artistName_mem one
  obtain ⟨row',listed',rfl,named'⟩ := artistName_mem other
  rw [distinct.unique.inj listed listed' (named.trans named'.symm)]

theorem ArtistsNamed.name (distinct : s.ArtistsNamed) {artist : Nat} {row : ArtistRow}
    (stored : row? s.artists artist = some row) : ∃ name, s.artistName artist = some name := by
  unfold artistName
  rw [stored,Option.bind_some]
  cases name : row.name with
  | none => exact absurd (List.mem_map.mpr ⟨row,row?_mem stored,name⟩) distinct.named
  | some _ => exact ⟨_,rfl⟩

structure Recalls (s t : Store) : Prop where
  names : ∀ artist name, s.artistName artist = some name → t.artistName artist = some name
  distinct : s.ArtistsNamed → t.ArtistsNamed

theorem Recalls.of_same (same : t.artists = s.artists) : Recalls s t := by
  refine ⟨fun artist name named => ?_,fun distinct => ?_⟩
  · rw [artistName,same]
    exact named
  · exact ⟨by rw [same]; exact distinct.named,by rw [same]; exact distinct.unique⟩

theorem modifyArtist_recalls {change : ArtistRow → ArtistRow}
    (keeps : ∀ row, (change row).id = row.id ∧ (change row).name = row.name) (s : Store) (artist : Nat) :
    Recalls s (s.modifyArtist artist change) := by
  have names : (s.modifyArtist artist change).artists.map ArtistRow.name = s.artists.map ArtistRow.name := by
    simp only [modifyArtist,Table.modify,List.map_map]
    refine List.map_congr_left fun row _ => ?_
    simp only [Function.comp_apply]
    split
    · exact (keeps row).2
    · rfl
  refine ⟨fun other name named => ?_,fun distinct => ?_⟩
  · have found : row? (s.modifyArtist artist change).artists other = _ :=
      row?_modify s.artists (fun row => (keeps row).1) artist other
    unfold artistName at named ⊢
    rw [found]
    split
    next here =>
      subst here
      obtain ⟨row,stored,same⟩ := Option.bind_eq_some_iff.mp named
      rw [stored]
      exact (keeps row).2.trans same
    next => exact named
  · exact ⟨by rw [names]; exact distinct.named,by rw [Index.Unique,names]; exact distinct.unique⟩

theorem newArtist_recalls (s : Store) (name : String)
    (missing : s.artists.find? (fun row => row.name = some name) = none) :
    Recalls s {s with artists := s.artists ++ [⟨s.nextId,some name,[]⟩], nextId := s.nextId + 1} := by
  refine ⟨fun artist other named => ?_,fun distinct => ⟨?_,?_⟩⟩
  · obtain ⟨row,stored,same⟩ := Option.bind_eq_some_iff.mp named
    unfold artistName
    dsimp only
    rw [row?_append,stored]
    exact same
  · dsimp only
    rw [List.map_append,List.mem_append]
    rintro (old | new)
    · exact distinct.named old
    · simp at new
  · refine distinct.unique.append fun row listed same => ?_
    exact absurd (decide_eq_true same) (List.find?_eq_none.mp missing row listed)

theorem recalls_frame : Frame Recalls where
  refl _ := .of_same rfl
  trans first second := ⟨fun artist name named => second.names artist name (first.names artist name named),
    fun distinct => second.distinct (first.distinct distinct)⟩
  modifyTrack _ _ _ := .of_same rfl
  modifyGame _ _ _ := .of_same rfl
  modifyArtist keeps := modifyArtist_recalls keeps
  newGame _ _ := .of_same rfl
  newArtist := newArtist_recalls
  newPlatform _ _ := .of_same rfl

theorem recredit_recalls (mode : Iteration) (s : Store) (oldTrack : TrackRow) (newTrack : Track) :
    Recalls s (s.recredit mode oldTrack newTrack).1 := by
  have titled : Recalls s (s.modifyTrack oldTrack.id fun row => {row with title := newTrack.title}) :=
    .of_same rfl
  exact recalls_frame.trans titled (updateArtists_frame recalls_frame mode _ newTrack oldTrack)

theorem addTrack_recalls (s : Store) (track : Track) : Recalls s (s.addTrack track).2 := by
  have saved : Recalls s (s.saveTrack track).2 := .of_same rfl
  exact recalls_frame.trans saved (addTrack_frame recalls_frame s track)

theorem updateTrack_artists {mode : Iteration} {oldTrack : TrackRow}
    (stored : row? s.tracks oldTrack.id = some oldTrack) (newTrack : Track) :
    (s.updateTrack mode oldTrack newTrack).1.artists = (s.recredit mode oldTrack newTrack).1.artists := by
  obtain ⟨row,own,_⟩ : ∃ row, row? (s.recredit mode oldTrack newTrack).1.tracks oldTrack.id = some row ∧
      row.game = oldTrack.game := by
    have same := (recredit_aside mode s oldTrack newTrack).game
    rw [stored,Option.map_some] at same
    obtain ⟨row,own,game⟩ := Option.map_eq_some_iff.mp same
    exact ⟨row,own,game⟩
  cases outcome : s.recredit mode oldTrack newTrack with
  | mk written returned =>
  rw [outcome] at own
  cases returned with
  | none => rw [updateTrack_threw outcome]
  | some _ =>
    rw [updateTrack_wrote outcome]
    exact (updateGame_row own newTrack).2

end ArtistsNamed

section Refits
variable {s t : Store} {mode : Iteration} {row : TrackRow} {newTrack : Track}

def Finishes (mode : Iteration) (s : Store) (row : TrackRow) (newTrack : Track) : Prop :=
  row.artistText = newTrack.artistText ∨ Ends (s.named (creditedNames newTrack)) row.artists mode

instance (s : Store) (row : TrackRow) (newTrack : Track) : Decidable (s.Finishes mode row newTrack) := by
  unfold Finishes
  infer_instance

/-- Whom an update leaves the track credited to: the artists as they were, or those that the first loop
spares and all of the new names. Where that loop throws it has removed one artist. -/
def creditAfter (mode : Iteration) (s : Store) (row : TrackRow) (newTrack : Track) : List (Option String) :=
  if row.artistText = newTrack.artistText then row.artists.map s.artistName
  else match survivors (s.named (creditedNames newTrack)) row.artists mode with
    | some rest => rest.map s.artistName ++ (creditedNames newTrack).map some
    | none => (row.artists.eraseP (!s.named (creditedNames newTrack) ·)).map s.artistName

/-- The game that an update leaves the track in, where that is stored already. -/
def destination (mode : Iteration) (s : Store) (row : TrackRow) (newTrack : Track) : Option Nat :=
  if row.gameTitle = newTrack.gameTitle ∨ ¬ s.Finishes mode row newTrack then row.game
  else s.game? newTrack.platformName newTrack.gameTitle

/-- An update has no need to set the summary of a game. One that it creates gets no artist. One that the
track leaves or enters has several artists where it had several, and an only one is the game's. -/
def Refits (mode : Iteration) (s : Store) (row : TrackRow) (newTrack : Track) : Prop :=
  (row.gameTitle ≠ newTrack.gameTitle → s.Finishes mode row newTrack →
    s.game? newTrack.platformName newTrack.gameTitle = none → s.creditAfter mode row newTrack = []) ∧
  ∀ game ∈ s.games, row.game = some game.id ∨ s.destination mode row newTrack = some game.id →
    let others := (s.artistsOf {game with tracks := game.tracks.filter (· ≠ row.id)}).map s.artistName
    let after := if s.destination mode row newTrack = some game.id then
      others ++ s.creditAfter mode row newTrack else others
    (Several after ↔ Several (s.artistsOf game)) ∧
      ∀ name ∈ after, (∀ other ∈ after, other = name) → game.artist.bind s.artistName = name

instance (s : Store) (row : TrackRow) (newTrack : Track) : Decidable (s.Refits mode row newTrack) := by
  unfold Refits
  infer_instance

/-- The artists that a track has after the first part of an update. -/
theorem recredit_spec (tied : s.Tied) (stored : row? s.tracks row.id = some row) :
    ((s.recredit mode row newTrack).2 ≠ none ↔ s.Finishes mode row newTrack) ∧
    ∃ artists, (row? (s.recredit mode row newTrack).1.tracks row.id).map TrackRow.artists = some artists ∧
      ∀ name, name ∈ artists.map (s.recredit mode row newTrack).1.artistName ↔
        name ∈ s.creditAfter mode row newTrack := by
  have titled := retitled_tied tied row.id newTrack.title
  have retitled := retitled_row stored newTrack.title
  unfold recredit Finishes creditAfter
  by_cases same : row.artistText = newTrack.artistText
  · rw [updateArtists_same mode _ same,if_pos same]
    exact ⟨iff_of_true nofun (.inl same),row.artists,by rw [retitled]; rfl,fun _ => Iff.rfl⟩
  · rw [if_neg same,or_iff_right same,ends_iff]
    obtain ⟨throws,leaves⟩ := @updateArtists_spec _ mode newTrack row _ titled retitled rfl same
    have named : (s.modifyTrack row.id fun row => {row with title := newTrack.title}).named
        (creditedNames newTrack) = s.named (creditedNames newTrack) := rfl
    rw [named] at throws leaves
    dsimp only at throws leaves
    cases survived : survivors (s.named (creditedNames newTrack)) row.artists mode with
    | none =>
      obtain ⟨u,left,thrown,written,order,names⟩ := throws survived
      rw [thrown]
      refine ⟨iff_of_false (fun went => went rfl) nofun,left,by rw [written]; rfl,fun name => ?_⟩
      dsimp only
      rw [names]
      exact (order.map _).mem_iff
    | some rest =>
      obtain ⟨u,changed,after,left,credited,_,written,order,adds⟩ := leaves rest survived
      rw [credited]
      refine ⟨iff_of_true nofun ⟨rest,rfl⟩,after,by rw [written]; rfl,fun name => ?_⟩
      dsimp only
      rw [List.mem_append]
      constructor
      · intro listed
        obtain ⟨artist,member,rfl⟩ := List.mem_map.mp listed
        rcases adds.from_names artist member with old | ⟨other,among,known⟩
        · rw [(adds.keeps artist old).2]
          exact .inl (List.mem_map.mpr ⟨artist,order.mem_iff.mp old,rfl⟩)
        · exact .inr (List.mem_map.mpr ⟨other,among,known.symm⟩)
      · rintro (old | new)
        · obtain ⟨artist,member,rfl⟩ := List.mem_map.mp old
          obtain ⟨still,renamed⟩ := adds.keeps artist (order.mem_iff.mpr member)
          exact List.mem_map.mpr ⟨artist,still,renamed⟩
        · obtain ⟨other,among,rfl⟩ := List.mem_map.mp new
          obtain ⟨artist,member,known⟩ := adds.adds other among
          exact List.mem_map.mpr ⟨artist,member,known⟩

/-- Different artists have different names, so that the names tell whether there are several. -/
theorem mixed_of_names {plays : Nat → Prop} {label : Nat → Option String} {names : List (Option String)}
    (apart : ∀ first second, plays first → plays second → label first = label second → first = second)
    (same : ∀ name, name ∈ names ↔ ∃ artist, plays artist ∧ label artist = name) :
    Several names ↔ Mixed plays := by
  constructor
  · rintro ⟨_,one,_,other,differ⟩
    obtain ⟨first,present,rfl⟩ := (same _).mp one
    obtain ⟨second,present',rfl⟩ := (same _).mp other
    exact ⟨first,second,present,present',fun equal => differ (by rw [equal])⟩
  · rintro ⟨first,second,present,present',differ⟩
    exact ⟨label first,(same _).mpr ⟨first,present,rfl⟩,label second,(same _).mpr ⟨second,present',rfl⟩,
      fun equal => differ (apart first second present present' equal)⟩

/-- The track is in the game after the update, if it is one that was stored before. -/
theorem Updated.lands (updated : Updated mode s row newTrack t) (tied : s.Tied)
    (stored : row? s.tracks row.id = some row) {game : Nat} (bare : row.gameTitle ≠ newTrack.gameTitle →
      s.Finishes mode row newTrack → s.game? newTrack.platformName newTrack.gameTitle ≠ none) :
    game ∈ t.gamePairing.forward row.id ↔ s.destination mode row newTrack = some game := by
  have finishes := (@recredit_spec s mode row newTrack tied stored).1
  unfold destination
  split
  next stays =>
    have own := updated.stays (stays.imp_right fun threw => not_not.mp (mt finishes.mp threw))
    rw [gamePairing_of_row own,Option.mem_toList]
  next moves =>
    obtain ⟨titles,ends⟩ := not_or.mp moves
    obtain ⟨next,moved⟩ := updated.moves titles (finishes.mpr (not_not.mp ends))
    rw [gamePairing_of_row moved,Option.toList_some,List.mem_singleton]
    cases found : s.game? newTrack.platformName newTrack.gameTitle with
    | none => exact absurd found (bare titles (not_not.mp ends))
    | some other =>
      rw [Option.getD_some,Option.some_inj]
      exact eq_comm

/-- Whom the games play after an update: the artists of the other tracks, and those of the track
where it is. -/
theorem Updated.credited (updated : Updated mode s row newTrack t) (tied : s.Tied)
    (artists : t.artists = (s.recredit mode row newTrack).1.artists)
    (stored : row? s.tracks row.id = some row) (refits : s.Refits mode row newTrack) :
    ∃ credit : List Nat, (∀ name, name ∈ credit.map t.artistName ↔ name ∈ s.creditAfter mode row newTrack) ∧
      ∀ game artist, t.Plays game artist ↔ s.PlaysBut row.id game artist ∨
        s.destination mode row newTrack = some game ∧ artist ∈ credit := by
  obtain ⟨finishes,credit,credited,names⟩ := @recredit_spec s mode row newTrack tied stored
  have named : t.artistName = (s.recredit mode row newTrack).1.artistName := by
    unfold artistName
    rw [artists]
  rw [← named] at names
  have creditPairing : t.artistPairing.forward row.id = credit :=
    artistPairing_of_row (updated.artists.trans credited)
  refine ⟨credit,names,fun game artist => ?_⟩
  -- where the update creates a game, the track has no artist
  have lands (member : artist ∈ credit) :
      game ∈ t.gamePairing.forward row.id ↔ s.destination mode row newTrack = some game := by
    refine updated.lands tied stored fun titles ends unknown => ?_
    have listed := (names (t.artistName artist)).mp (List.mem_map_of_mem member)
    rw [refits.1 titles ends unknown] at listed
    cases listed
  rw [plays_iff row.id,playsBut_congr updated.others,creditPairing]
  exact or_congr_right (and_congr_left lands)

theorem ArtistsNamed.label (distinct : s.ArtistsNamed) (tied : s.Tied) {game artist : Nat}
    (plays : s.Plays game artist) : ∃ name, s.artistName artist = some name := by
  obtain ⟨_,_,linked⟩ := plays
  obtain ⟨_,found⟩ := tied.listed_artist Pairing.balanced_discipline linked
  exact distinct.name found

/-- The names of those that the other tracks of a game are credited to, also after the update. -/
theorem Recalls.names_rest (recalls : Recalls s t) (tied : s.Tied) (distinct : s.ArtistsNamed)
    {played : GameRow} (listed : played ∈ s.games) (track : Nat) (name : Option String) :
    name ∈ (s.artistsOf {played with tracks := played.tracks.filter (· ≠ track)}).map s.artistName ↔
      ∃ artist, s.PlaysBut track played.id artist ∧ t.artistName artist = name := by
  rw [List.mem_map]
  refine exists_congr fun artist => ?_
  rw [mem_rest tied listed]
  refine and_congr_right fun plays => ?_
  obtain ⟨other,_,linked,credited⟩ := plays
  obtain ⟨label,known⟩ := distinct.label tied ⟨other,linked,credited⟩
  rw [known,recalls.names artist label known]

/-- The update leaves the summaries as they are, and they fit the artists that the games then have. -/
theorem Updated.fits (updated : Updated mode s row newTrack t) (tied : s.Tied) (tied' : t.Tied)
    (recalls : Recalls s t) (distinct : s.ArtistsNamed)
    (artists : t.artists = (s.recredit mode row newTrack).1.artists)
    (fits : ∀ game, Fits (s.summary game) (s.Plays game)) (stored : row? s.tracks row.id = some row)
    (refits : s.Refits mode row newTrack) (game : Nat) : Fits (t.summary game) (t.Plays game) := by
  have distinct' := recalls.distinct distinct
  have ownGame : s.gamePairing.forward row.id = row.game.toList :=
    gamePairing_of_row (by rw [stored]; rfl)
  have ownArtists : s.artistPairing.forward row.id = row.artists :=
    artistPairing_of_row (by rw [stored]; rfl)
  obtain ⟨credit,names,now⟩ := updated.credited tied artists stored refits
  rw [updated.summary]
  by_cases touched : row.game = some game ∨ s.destination mode row newTrack = some game
  · obtain ⟨played,listed,rfl⟩ : ∃ played ∈ s.games, played.id = game := by
      by_cases here : row.game = some game
      · exact game_stored tied (by rw [ownGame,here]; exact List.mem_singleton_self _)
      · have there := touched.resolve_left here
        unfold destination at there
        split at there
        · exact absurd there here
        · exact game?_stored there
    obtain ⟨sides,sole⟩ := refits.2 played listed touched
    have own : s.summary played.id = (played.multipleArtists,played.artist) :=
      summary_of_row (row?_of_mem tied.keyed.games listed)
    have apart (first second : Nat) (one : t.Plays played.id first) (_ : t.Plays played.id second)
        (same : t.artistName first = t.artistName second) : first = second := by
      obtain ⟨name,known⟩ := distinct'.label tied' one
      exact distinct'.injective known (same.symm.trans known)
    have after (name : Option String) : name ∈ (if s.destination mode row newTrack = some played.id then
        (s.artistsOf {played with tracks := played.tracks.filter (· ≠ row.id)}).map s.artistName ++
          s.creditAfter mode row newTrack
        else (s.artistsOf {played with tracks := played.tracks.filter (· ≠ row.id)}).map s.artistName) ↔
        ∃ artist, t.Plays played.id artist ∧ t.artistName artist = name := by
      have rest := recalls.names_rest tied distinct listed row.id name
      simp only [now,or_and_right,exists_or]
      split
      next there => simp only [List.mem_append,rest,there,true_and,← names,List.mem_map]
      next elsewhere => simp only [rest,elsewhere,false_and,exists_false,or_false]
    rw [own]
    refine ⟨?_,fun artist plays only => ?_⟩
    · have was := (fits played.id).1
      rw [own] at was
      rw [← mixed_of_names apart after,sides,mixed_of_list (mem_artistsOf tied listed)]
      exact was
    · obtain ⟨name,known⟩ := distinct'.label tied' plays
      have stored_name := sole (t.artistName artist) ((after _).mpr ⟨artist,plays,rfl⟩) fun other present => by
        obtain ⟨another,plays',rfl⟩ := (after other).mp present
        rw [only another plays']
      rw [known] at stored_name
      obtain ⟨sole_artist,set,same⟩ := Option.bind_eq_some_iff.mp stored_name
      have equal := distinct'.injective (recalls.names sole_artist name same) known
      rw [equal] at set
      exact set
  · obtain ⟨elsewhere,unreached⟩ := not_or.mp touched
    have same (artist : Nat) : t.Plays game artist ↔ s.Plays game artist := by
      rw [now,plays_iff row.id,ownGame,ownArtists,Option.mem_toList]
      exact or_congr_right (iff_of_false (fun there => unreached there.1) fun here => elsewhere here.1)
    rw [fits_congr same]
    exact fits game

end Refits

/-- Links that agree, artists with names of their own, summaries that are right and no flag that is
false. -/
structure Accounted (s : Store) : Prop where
  tied : s.Tied
  distinct : s.ArtistsNamed
  summarized : s.Summarized
  unset : s.Unset

theorem empty_accounted : empty.Accounted where
  tied := empty_sound.tied
  distinct := ⟨nofun,List.nodup_nil⟩
  summarized := by simp [Summarized,empty]
  unset := empty_unset

theorem Accounted.addTrack {s : Store} (accounted : s.Accounted) {track : Track} (takes : s.Takes track) :
    (s.addTrack track).2.Accounted := by
  have tied : (s.addTrack track).2.Tied := addTrack_balanced accounted.tied track
  have fits := (summarized_iff accounted.tied).mp accounted.summarized
  obtain ⟨u,artists,keyed,known,found,added⟩ := addTrack_added accounted.tied track
  exact ⟨tied,(addTrack_recalls s track).distinct accounted.distinct,
    (summarized_iff tied).mpr (added.fits accounted.tied fits takes keyed known found),
    added.unset accounted.unset⟩

theorem Accounted.updateTrack {s : Store} (accounted : s.Accounted) (mode : Iteration) {row : TrackRow}
    (stored : row? s.tracks row.id = some row) {newTrack : Track} (refits : s.Refits mode row newTrack) :
    (s.updateTrack mode row newTrack).1.Accounted := by
  obtain ⟨tied,unset⟩ := @updated_tied s mode row newTrack accounted.tied accounted.unset stored
  have fits := (summarized_iff accounted.tied).mp accounted.summarized
  have updated := updateTrack_updated mode accounted.unset stored newTrack
  have artists := @updateTrack_artists s mode row stored newTrack
  have recalls : Recalls s (s.updateTrack mode row newTrack).1 :=
    recalls_frame.trans (recredit_recalls mode s row newTrack) (.of_same artists)
  exact ⟨tied,recalls.distinct accounted.distinct,(summarized_iff tied).mpr
    (updated.fits accounted.tied tied recalls accounted.distinct artists fits stored refits),unset⟩

end Store

/-- An addition to a game that takes it, or an update after which the summaries fit. -/
def Accountable (mode : Iteration) (s : Store) (command : Command) : Prop :=
  match command with
  | .addTrack track => s.Takes track
  | .updateTrack oldTrack newTrack =>
    match row? s.tracks oldTrack with
    | none => True
    | some row => s.Refits mode row newTrack
  | _ => False

instance (mode : Iteration) (s : Store) (command : Command) : Decidable (Accountable mode s command) := by
  cases command with
  | addTrack track => exact inferInstanceAs (Decidable (s.Takes track))
  | updateTrack oldTrack newTrack =>
    unfold Accountable
    dsimp only
    split
    · infer_instance
    · infer_instance
  | _ => exact .isFalse id

theorem step_accounted (mode : Iteration) {s t : Store} {command : Command} (accounted : s.Accounted)
    (accountable : Accountable mode s command) (taken : step mode s command = some t) : t.Accounted := by
  cases command with
  | addTrack track =>
    cases Option.some.inj taken
    exact accounted.addTrack accountable
  | updateTrack oldTrack newTrack =>
    obtain ⟨row,stored,rfl⟩ := Option.map_eq_some_iff.mp taken
    have key := row?_key stored
    subst key
    unfold Accountable at accountable
    dsimp only at accountable
    rw [stored] at accountable
    exact accounted.updateTrack mode stored accountable
  | deleteTrack track => exact accountable.elim
  | deleteGame game => exact accountable.elim
  | deleteArtist artist => exact accountable.elim
  | clearAll => exact accountable.elim

/-- The summaries are right in every store of a run of additions and updates that are accountable. -/
theorem summaries_right (mode : Iteration) {commands : List Command}
    (met : Run.Meets (step mode) (Accountable mode) .empty commands) :
    Run.Always (step mode) Store.Summarized .empty commands :=
  Run.always_of_meets (fun _ accounted => accounted.summarized)
    (fun _ _ _ accounted accountable taken => step_accounted mode accounted accountable taken)
    Store.empty_accounted met

/-- A game that gets several artists, then a blank behind the name of its first one, another credit for
that track, the track of another game, and a credit of two artists written another way. -/
theorem summaries_right_moved :
    Run.Always (step .failFast) Store.Summarized .empty
      [.addTrack (creditedTrack "A"),.addTrack {creditedTrack "B" with gameTitle := some "Other"},
        .updateTrack 0 (creditedTrack "A "),.addTrack (creditedTrack "B, C"),
        .updateTrack 0 {creditedTrack "A & D" with title := some "New"},
        .updateTrack 4 (creditedTrack "B"),.updateTrack 7 (creditedTrack "B & C")] :=
  summaries_right .failFast (by decide +kernel)

/-- Two artists of the first track of a game leave it with the last of them and no flag. -/
theorem summary_misses_two :
    ¬ Run.Always (step .failFast) Store.Summarized .empty [.addTrack (creditedTrack "A, B")] := by
  intro always
  have summarized : (Store.empty.addTrack (creditedTrack "A, B")).2.Summarized := always.2
  have flag := (summarized _ List.mem_cons_self).1
  revert flag
  decide +kernel

end Chipbox.Library
