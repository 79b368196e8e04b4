import Chipbox.Library.Cleanup
import Chipbox.Library.Summary

/-! What the operations of the repository do to the images of games, and the image that a folder
gives its game. -/
namespace Chipbox.Library
open Table

namespace Store

/-- A relation of a store to what edits make of it that leave every game its image. -/
structure ArtFrame (rel : Store → Store → Prop) : Prop where
  refl : ∀ s, rel s s
  trans : ∀ {s t u}, rel s t → rel t u → rel s u
  of_games : ∀ {s t : Store}, t.games = s.games → rel s t
  modifyGame : ∀ {change : GameRow → GameRow},
    (∀ row, (change row).id = row.id ∧ (change row).artLocal = row.artLocal) →
      ∀ s game, rel s (modifyGame s game change)
  getGame : ∀ s platformName title, rel s (getGame s platformName title).2

section ArtFrame
variable {rel : Store → Store → Prop} (frame : ArtFrame rel)
include frame

theorem moveGame_art (s : Store) (newTrack : Track) (oldTrack : TrackRow) :
    rel s (s.moveGame newTrack oldTrack) := by
  have left : rel s (s.leaveGame oldTrack) := by
    unfold leaveGame
    split
    · exact frame.refl s
    · exact frame.modifyGame (by exact fun _ => ⟨rfl,rfl⟩) s _
  unfold moveGame
  dsimp only
  refine frame.trans left (frame.trans (frame.getGame _ newTrack.platformName newTrack.gameTitle) ?_)
  exact frame.trans (frame.modifyGame (by exact fun _ => ⟨rfl,rfl⟩) _ _) (frame.of_games rfl)

theorem updateGame_art (s : Store) (newTrack : Track) (oldTrack : TrackRow) :
    rel s (s.updateGame newTrack oldTrack).1 := by
  have entered : rel s (if oldTrack.gameTitle ≠ newTrack.gameTitle then
      s.moveGame newTrack oldTrack else s) := by
    split
    · exact moveGame_art frame s newTrack oldTrack
    · exact frame.refl s
  unfold updateGame
  dsimp only
  split
  · exact entered
  · exact frame.trans entered (frame.modifyGame (by exact fun _ => ⟨rfl,rfl⟩) _ _)

theorem updateTrack_art (mode : Iteration) (s : Store) (oldTrack : TrackRow) (newTrack : Track) :
    rel s (s.updateTrack mode oldTrack newTrack).1 := by
  have titled : Aside oldTrack.id s (s.modifyTrack oldTrack.id fun row =>
      {row with title := newTrack.title}) :=
    modifyTrack_aside (by exact fun _ => ⟨rfl,rfl⟩) s oldTrack.id
  have credited := frame.of_games (titled.trans (updateArtists_aside mode _ newTrack oldTrack)).games
  unfold updateTrack
  dsimp only
  split
  next outcome =>
    rw [outcome] at credited
    exact credited
  next outcome =>
    rw [outcome] at credited
    exact frame.trans credited (frame.trans (updateGame_art frame _ newTrack oldTrack) (frame.of_games rfl))

theorem credit_art (gameArtist : GameArtist) (had : Bool) (game track : Nat) (s : Store) (artist : Nat) :
    rel s (credit gameArtist had game track s artist) := by
  have linked : rel s (s.link track artist) := frame.of_games rfl
  obtain same | ⟨summary,same⟩ := credit_cases (s := s) gameArtist had game track artist
  · rw [same]
    exact linked
  · rw [same]
    exact frame.trans linked (frame.modifyGame (by exact fun _ => ⟨rfl,rfl⟩) _ _)

theorem credits_art (gameArtist : GameArtist) (had : Bool) (game track : Nat) (artists : List Nat)
    (s : Store) : rel s (artists.foldl (credit gameArtist had game track) s) := by
  induction artists generalizing s with
  | nil => exact frame.refl s
  | cons artist rest ih => exact frame.trans (credit_art frame gameArtist had game track s artist) (ih _)

omit frame in
theorem getArtistsByName_games (names : List String) (s : Store) :
    (s.getArtistsByName names).2.games = s.games := by
  induction names generalizing s with
  | nil => rfl
  | cons name rest ih =>
    have first : (s.getArtistByName name).2.games = s.games := by
      unfold getArtistByName
      split <;> rfl
    exact (ih _).trans first

theorem addTrack_art (s : Store) (track : Track) : rel s (s.addTrack track).2 := by
  have placed (s : Store) (name : Option String) : (s.getPlatform name).2.games = s.games := by
    unfold getPlatform
    split <;> rfl
  have saved : rel s (s.saveTrack track).2 := frame.of_games rfl
  unfold addTrack
  dsimp only
  have found := frame.trans saved
    (frame.getGame (s.saveTrack track).2 track.platformName track.gameTitle)
  generalize (s.saveTrack track).2.getGame track.platformName track.gameTitle = entered at *
  have there := frame.trans found (frame.of_games (placed entered.2 track.platformName))
  generalize entered.2.getPlatform track.platformName = platform at *
  have pointed := frame.trans there (frame.of_games (rfl : (platform.2.modifyTrack (s.saveTrack track).1
    fun row => {row with game := some entered.1, platform := some platform.1}).games = _))
  have listed := frame.trans pointed (@ArtFrame.modifyGame _ frame (fun row => {row with
    tracks := row.tracks ++ [(s.saveTrack track).1], platformName := track.platformName})
    (by exact fun _ => ⟨rfl,rfl⟩) _ entered.1)
  have last := frame.trans listed
    (frame.of_games (getArtistsByName_games ((track.artistText.map artistNames).getD []) _))
  split
  · exact last
  · exact frame.trans last (credits_art frame _ _ _ _ _ _)

end ArtFrame

def art? (s : Store) (game : Nat) : Option (Option String) := (row? s.games game).map GameRow.artLocal

def SameArt (s t : Store) : Prop :=
  ∀ game, t.art? game = s.art? game ∨ (s.art? game = none ∧ t.art? game = some none)

theorem SameArt.trans {s t u : Store} (first : SameArt s t) (second : SameArt t u) : SameArt s u := by
  intro game
  rcases second game with same | ⟨fresh,bare⟩
  · rw [same]
    exact first game
  · rcases first game with before | ⟨_,before⟩
    · exact .inr ⟨before ▸ fresh,bare⟩
    · rw [before] at fresh
      cases fresh

theorem sameArt_frame : ArtFrame SameArt where
  refl _ _ := .inl rfl
  trans := .trans
  of_games same game := .inl (by unfold art?; rw [same])
  modifyGame keeps s game other := by
    refine .inl ?_
    unfold art? Store.modifyGame
    rw [row?_modify s.games (by exact fun row => (keeps row).1)]
    by_cases same : other = game
    · subst same
      rw [if_pos rfl,Option.map_map]
      congr 1
      funext row
      exact (keeps row).2
    · rw [if_neg same]
  getGame s platformName title game := by
    unfold getGame
    split
    · exact .inl rfl
    · unfold art?
      dsimp only
      rw [row?_append]
      cases row? s.games game with
      | some row => exact .inl rfl
      | none =>
        dsimp only [Option.none_or]
        split
        · exact .inr ⟨rfl,rfl⟩
        · exact .inl rfl

end Store

theorem sameArt_edited (mode : Iteration) : Edited mode Store.SameArt where
  refl := Store.sameArt_frame.refl
  trans := Store.sameArt_frame.trans
  adds := Store.addTrack_art Store.sameArt_frame
  updates {s t row track changed} _ updated := by
    obtain ⟨store,stepped,rfl⟩ := Scan.updateTrack_store updated
    have kept := Store.updateTrack_art Store.sameArt_frame mode s.store row track
    rw [stepped] at kept
    exact kept

end Chipbox.Library
