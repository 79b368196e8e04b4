import Chipbox.Library.Links

/-! What the operations of the repository do to the keys, paths and numbers of the stored
tracks: an update sets those of one track, an addition appends one. -/
namespace Chipbox.Library
open Table

namespace Store

def face (row : TrackRow) : Nat × Option String × Option Int := (row.id,row.path,row.trackNumber)

def faces (s : Store) : List (Nat × Option String × Option Int) := s.tracks.map face

/-- A relation of a store to what edits make of it, so long as keys, paths and numbers stay. -/
structure Frame (rel : Store → Store → Prop) : Prop where
  refl : ∀ s, rel s s
  trans : ∀ {s t u}, rel s t → rel t u → rel s u
  modifyTrack : ∀ {change : TrackRow → TrackRow}, (∀ row, face (change row) = face row) →
    ∀ s track, rel s (modifyTrack s track change)
  modifyGame : ∀ {change : GameRow → GameRow}, (∀ row, (change row).id = row.id) →
    ∀ s game, rel s (modifyGame s game change)
  modifyArtist : ∀ {change : ArtistRow → ArtistRow},
    (∀ row, (change row).id = row.id ∧ (change row).name = row.name) →
      ∀ s artist, rel s (modifyArtist s artist change)
  newGame : ∀ s row, rel s {s with games := s.games ++ [row], nextId := s.nextId + 1}
  newArtist : ∀ s name, s.artists.find? (fun row => row.name = some name) = none →
    rel s {s with artists := s.artists ++ [⟨s.nextId,some name,[]⟩], nextId := s.nextId + 1}
  newPlatform : ∀ s row, rel s {s with platforms := s.platforms ++ [row], nextId := s.nextId + 1}

section Frame
variable {rel : Store → Store → Prop} (frame : Frame rel)
include frame

theorem link_frame (s : Store) (track artist : Nat) : rel s (s.link track artist) := by
  unfold Store.link
  exact frame.trans (frame.modifyArtist (by exact fun _ => ⟨rfl,rfl⟩) s artist)
    (frame.modifyTrack (by exact fun _ => rfl) _ track)

theorem unlink_frame (s : Store) (track artist : Nat) : rel s (s.unlink track artist) := by
  unfold Store.unlink
  exact frame.trans (frame.modifyArtist (by exact fun _ => ⟨rfl,rfl⟩) s artist)
    (frame.modifyTrack (by exact fun _ => rfl) _ track)

theorem getGame_frame (s : Store) (platformName title : Option String) :
    rel s (s.getGame platformName title).2 := by
  unfold getGame
  split
  · exact frame.refl s
  · exact frame.newGame s _

theorem getArtistByName_frame (s : Store) (name : String) : rel s (s.getArtistByName name).2 := by
  unfold getArtistByName
  split
  · exact frame.refl s
  next missing => exact frame.newArtist s name missing

theorem getPlatform_frame (s : Store) (name : Option String) : rel s (s.getPlatform name).2 := by
  unfold getPlatform
  split
  · exact frame.refl s
  · exact frame.newPlatform s _

theorem getArtistsByName_frame (s : Store) (names : List String) :
    rel s (s.getArtistsByName names).2 := by
  induction names generalizing s with
  | nil => exact frame.refl s
  | cons name rest ih => exact frame.trans (getArtistByName_frame frame s name) (ih _)

theorem dropArtists_frame (mode : Iteration) (newArtists : Option (List String)) (track fuel : Nat)
    (s : Store) (cursor : Nat) (actuallyChanged : Bool) :
    rel s (s.dropArtists mode newArtists track fuel cursor actuallyChanged).1 := by
  induction fuel generalizing s cursor actuallyChanged with
  | zero => exact frame.refl s
  | succ fuel ih =>
    unfold dropArtists
    split
    · exact frame.refl s
    · split
      · exact ih _ _ _
      · have unlinked := unlink_frame frame s track
        dsimp only
        split
        · exact frame.trans (unlinked _) (ih _ _ _)
        · split <;> exact unlinked _

theorem addArtist_frame (track : Nat) (state : Store × Bool) (newArtist : String) :
    rel state.1 (addArtist track state newArtist).1 := by
  unfold addArtist
  dsimp only
  split
  · exact frame.refl _
  · exact frame.trans (getArtistByName_frame frame _ _) (link_frame frame _ _ _)

theorem addArtists_frame (track : Nat) (state : Store × Bool) (names : List String) :
    rel state.1 (names.foldl (addArtist track) state).1 := by
  induction names generalizing state with
  | nil => exact frame.refl _
  | cons name rest ih => exact frame.trans (addArtist_frame frame track state name) (ih _)

theorem updateArtists_frame (mode : Iteration) (s : Store) (newTrack : Track) (oldTrack : TrackRow) :
    rel s (s.updateArtists mode newTrack oldTrack).1 := by
  unfold updateArtists
  split
  next =>
    have texted : rel s (s.modifyTrack oldTrack.id fun row =>
        {row with artistText := newTrack.artistText}) :=
      frame.modifyTrack (by exact fun _ => rfl) s oldTrack.id
    have dropped := frame.trans texted (dropArtists_frame frame mode
      (newTrack.artistText.map artistNames) oldTrack.id oldTrack.artists.length _ 0 false)
    dsimp only
    split
    next outcome => rw [outcome] at dropped; exact dropped
    next outcome =>
      rw [outcome] at dropped
      exact frame.trans dropped (addArtists_frame frame oldTrack.id (_,_) _)
  next => exact frame.refl s

theorem leaveGame_frame (s : Store) (oldTrack : TrackRow) : rel s (s.leaveGame oldTrack) := by
  unfold leaveGame
  split
  · exact frame.refl s
  · exact frame.modifyGame (by exact fun _ => rfl) s _

theorem moveGame_frame (s : Store) (newTrack : Track) (oldTrack : TrackRow) :
    rel s (s.moveGame newTrack oldTrack) := by
  unfold moveGame
  exact frame.trans (frame.trans (leaveGame_frame frame s oldTrack) (getGame_frame frame _ _ _))
    (frame.trans (frame.modifyGame (by exact fun _ => rfl) _ _)
      (frame.modifyTrack (by exact fun _ => rfl) _ oldTrack.id))

theorem updateGame_frame (s : Store) (newTrack : Track) (oldTrack : TrackRow) :
    rel s (s.updateGame newTrack oldTrack).1 := by
  have moved : rel s (if oldTrack.gameTitle ≠ newTrack.gameTitle then s.moveGame newTrack oldTrack
      else s) := by
    split
    · exact moveGame_frame frame s newTrack oldTrack
    · exact frame.refl s
  unfold updateGame
  dsimp only
  split
  · exact moved
  · exact frame.trans moved (frame.modifyGame (by exact fun _ => rfl) _ _)

/-- An update stays in the frame up to its last write, that of the place and the lengths. -/
theorem updateTrack_frame {mode : Iteration} {s t : Store} {oldTrack : TrackRow} {newTrack : Track}
    {changed : Bool} (updated : s.updateTrack mode oldTrack newTrack = (t,some changed)) :
    ∃ u, rel s u ∧ t = u.modifyTrack oldTrack.id fun row => {row with
      path := newTrack.path, trackNumber := newTrack.trackNumber
      trackLength := newTrack.trackLength, introLength := newTrack.introLength
      loopLength := newTrack.loopLength} := by
  have titled : rel s (s.modifyTrack oldTrack.id fun row => {row with title := newTrack.title}) :=
    frame.modifyTrack (by exact fun _ => rfl) s oldTrack.id
  have credited := frame.trans titled (updateArtists_frame frame mode _ newTrack oldTrack)
  unfold updateTrack at updated
  dsimp only at updated
  split at updated
  next => cases updated
  next outcome =>
    rw [outcome] at credited
    cases updated
    exact ⟨_,frame.trans credited (updateGame_frame frame _ newTrack oldTrack),rfl⟩

theorem credit_frame (gameArtist : GameArtist) (had : Bool) (game track : Nat) (s : Store)
    (artist : Nat) : rel s (credit gameArtist had game track s artist) := by
  have linked := link_frame frame s track artist
  obtain same | ⟨summary,same⟩ := credit_cases (s := s) gameArtist had game track artist
  · rw [same]
    exact linked
  · rw [same]
    exact frame.trans linked (frame.modifyGame (by exact fun _ => rfl) _ _)

theorem credits_frame (gameArtist : GameArtist) (had : Bool) (game track : Nat) (s : Store)
    (artists : List Nat) : rel s (artists.foldl (credit gameArtist had game track) s) := by
  induction artists generalizing s with
  | nil => exact frame.refl s
  | cons artist rest ih =>
    exact frame.trans (credit_frame frame gameArtist had game track s artist) (ih _)

theorem addTrack_frame (s : Store) (track : Track) :
    rel (s.saveTrack track).2 (s.addTrack track).2 := by
  unfold addTrack
  dsimp only
  have game := getGame_frame frame (s.saveTrack track).2 track.platformName track.gameTitle
  have platform := getPlatform_frame frame ((s.saveTrack track).2.getGame track.platformName
    track.gameTitle).2 track.platformName
  generalize (s.saveTrack track).2.getGame track.platformName track.gameTitle = found at *
  generalize found.2.getPlatform track.platformName = present at *
  have placed : rel present.2 (present.2.modifyTrack (s.saveTrack track).1 fun row =>
      {row with game := some found.1, platform := some present.1}) :=
    frame.modifyTrack (by exact fun _ => rfl) _ _
  have listed := @Frame.modifyGame rel frame (fun row => {row with
    tracks := row.tracks ++ [(s.saveTrack track).1], platformName := track.platformName})
    (by exact fun _ => rfl) (present.2.modifyTrack (s.saveTrack track).1 fun row =>
      {row with game := some found.1, platform := some present.1}) found.1
  refine frame.trans (frame.trans game (frame.trans platform (frame.trans placed listed)))
    (frame.trans (getArtistsByName_frame frame _ ((track.artistText.map artistNames).getD [])) ?_)
  split
  · exact frame.refl _
  · exact credits_frame frame _ _ _ _ _ _

end Frame

structure Kept (s t : Store) : Prop where
  faces : t.faces = s.faces
  grows : s.nextId ≤ t.nextId

theorem modifyGame_kept (s : Store) (game : Nat) (change : GameRow → GameRow) :
    Kept s (s.modifyGame game change) := ⟨rfl,Nat.le_refl _⟩

theorem modifyTrack_kept {change : TrackRow → TrackRow}
    (keeps : ∀ row, face (change row) = face row) (s : Store) (track : Nat) :
    Kept s (s.modifyTrack track change) := by
  refine ⟨?_,Nat.le_refl _⟩
  simp only [Store.faces,modifyTrack,Table.modify,List.map_map]
  refine List.map_congr_left fun row _ => ?_
  simp only [Function.comp_apply]
  split
  · exact keeps row
  · rfl

theorem kept_frame : Frame Kept where
  refl _ := ⟨rfl,Nat.le_refl _⟩
  trans first second := ⟨second.faces.trans first.faces,Nat.le_trans first.grows second.grows⟩
  modifyTrack := modifyTrack_kept
  modifyGame _ s game := modifyGame_kept s game _
  modifyArtist _ _ _ := ⟨rfl,Nat.le_refl _⟩
  newGame _ _ := ⟨rfl,Nat.le_succ _⟩
  newArtist _ _ _ := ⟨rfl,Nat.le_succ _⟩
  newPlatform _ _ := ⟨rfl,Nat.le_succ _⟩

/-- An update through to its end gives the track the path and number of the new one. -/
theorem updateTrack_faces {mode : Iteration} {s t : Store} {oldTrack : TrackRow} {newTrack : Track}
    {changed : Bool} (updated : s.updateTrack mode oldTrack newTrack = (t,some changed)) :
    t.faces = s.faces.map (fun face =>
        if face.1 = oldTrack.id then (face.1,newTrack.path,newTrack.trackNumber) else face) ∧
      s.nextId ≤ t.nextId := by
  obtain ⟨u,played,rfl⟩ := updateTrack_frame kept_frame updated
  refine ⟨?_,played.grows⟩
  rw [← played.faces]
  simp only [faces,modifyTrack,Table.modify,List.map_map]
  refine List.map_congr_left fun row _ => ?_
  by_cases here : row.id = oldTrack.id <;> simp [face,Row.key,here]

theorem addTrack_faces (s : Store) (track : Track) :
    (s.addTrack track).2.faces = s.faces ++ [(s.nextId,track.path,track.trackNumber)] ∧
      s.nextId < (s.addTrack track).2.nextId := by
  have saved : (s.saveTrack track).2.faces = s.faces ++ [(s.nextId,track.path,track.trackNumber)] ∧
      s.nextId < (s.saveTrack track).2.nextId := by
    simp [saveTrack,faces,face]
  have entered := addTrack_frame kept_frame s track
  exact ⟨entered.faces.trans saved.1,Nat.lt_of_lt_of_le saved.2 entered.grows⟩

end Store
end Chipbox.Library
