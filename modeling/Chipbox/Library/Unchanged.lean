import Chipbox.Library.Faces

/-! When an update of a stored track changes nothing but the text of its artists. -/
namespace Chipbox.Library
open Table

structure Alike (row : TrackRow) (track : Track) : Prop where
  title : row.title = track.title
  gameTitle : row.gameTitle = track.gameTitle
  path : row.path = track.path
  trackNumber : row.trackNumber = track.trackNumber
  trackLength : row.trackLength = track.trackLength
  introLength : row.introLength = track.introLength
  loopLength : row.loopLength = track.loopLength

namespace Store

theorem modifyTrack_self {s : Store} {row : TrackRow} (distinct : Distinct s.tracks)
    (stored : row ∈ s.tracks) {change : TrackRow → TrackRow} (same : change row = row) :
    s.modifyTrack row.id change = s := by
  have still : modify s.tracks row.id change = s.tracks := modify_self distinct stored same
  unfold modifyTrack
  rw [still]

theorem dropArtists_unchanged {mode : Iteration} {newArtists : Option (List String)}
    {track fuel cursor : Nat} {s t : Store} {before : Bool}
    (dropped : s.dropArtists mode newArtists track fuel cursor before = (t,some false)) :
    t = s ∧ before = false := by
  induction fuel generalizing s cursor before with
  | zero =>
    cases dropped
    exact ⟨rfl,rfl⟩
  | succ fuel ih =>
    unfold dropArtists at dropped
    split at dropped
    · cases dropped
      exact ⟨rfl,rfl⟩
    split at dropped
    · exact ih dropped
    · dsimp only at dropped
      split at dropped
      · obtain ⟨_,changed⟩ := ih dropped
        cases changed
      · split at dropped <;> cases dropped

theorem addArtists_unchanged {track : Nat} {names : List String} {state : Store × Bool} {t : Store}
    (added : names.foldl (addArtist track) state = (t,false)) : state = (t,false) := by
  induction names generalizing state with
  | nil => exact added
  | cons name rest ih =>
    have first := ih added
    unfold addArtist at first
    dsimp only at first
    split at first
    · exact first
    · cases congrArg Prod.snd first

theorem updateArtists_unchanged {mode : Iteration} {s t : Store} {row : TrackRow} {track : Track}
    (distinct : Distinct s.tracks) (stored : row ∈ s.tracks)
    (updated : s.updateArtists mode track row = (t,some false)) :
    t = s.modifyTrack row.id fun row => {row with artistText := track.artistText} := by
  unfold updateArtists at updated
  split at updated
  · dsimp only at updated
    split at updated
    · cases updated
    next dropped =>
      simp only [Prod.mk.injEq,Option.some.injEq] at updated
      have added := addArtists_unchanged (Prod.ext updated.1 updated.2)
      cases added
      exact (dropArtists_unchanged dropped).1
  next same =>
    cases updated
    exact (modifyTrack_self distinct stored (by rw [← not_not.mp same])).symm

theorem updateGame_unchanged {s t : Store} {row : TrackRow} {track : Track}
    (updated : s.updateGame track row = (t,false)) :
    row.gameTitle = track.gameTitle ∧ s.outgrows row.id = none ∧ t = s := by
  unfold updateGame at updated
  by_cases same : row.gameTitle = track.gameTitle
  · simp only [same,ne_eq,not_true_eq_false,if_false,decide_false] at updated
    split at updated
    next fits =>
      cases updated
      exact ⟨same,fits,rfl⟩
    · cases congrArg Prod.snd updated
  · simp only [ne_eq,same,not_false_eq_true,if_true,decide_true] at updated
    split at updated <;> cases congrArg Prod.snd updated

/-- What `updateGame` looks at leaves out the names, tags and times of a track. -/
theorem outgrows_of_same {s t : Store}
    (tracks : ∀ key, (row? t.tracks key).map (fun row => (row.game,row.artists)) =
      (row? s.tracks key).map fun row => (row.game,row.artists))
    (games : ∀ key, (row? t.games key).map (fun row => (row.id,row.multipleArtists,row.artist)) =
      (row? s.games key).map fun row => (row.id,row.multipleArtists,row.artist))
    (artists : t.artists = s.artists) (track : Nat) : t.outgrows track = s.outgrows track := by
  have named : t.artistName = s.artistName := by
    unfold artistName
    rw [artists]
  have same := tracks track
  unfold outgrows
  rw [named]
  cases there : row? t.tracks track with
  | none =>
    rw [there] at same
    rw [Option.map_eq_none_iff.mp same.symm]
  | some row =>
    rw [there] at same
    obtain ⟨old,here,alike⟩ := Option.map_eq_some_iff.mp same.symm
    simp only [Prod.mk.injEq] at alike
    rw [here]
    dsimp only
    rw [alike.1,alike.2]
    cases row.game with
    | none => rfl
    | some game =>
      have same := games game
      rw [Option.bind_some,Option.bind_some]
      cases there : row? t.games game with
      | none =>
        rw [there] at same
        rw [Option.map_eq_none_iff.mp same.symm]
      | some found =>
        rw [there] at same
        obtain ⟨old,here,alike⟩ := Option.map_eq_some_iff.mp same.symm
        simp only [Prod.mk.injEq] at alike
        rw [here]
        dsimp only
        rw [alike.1,alike.2.1,alike.2.2]

theorem outgrows_texted (s : Store) (id track : Nat) (text : Option String) :
    (s.modifyTrack id fun row => {row with artistText := text}).outgrows track = s.outgrows track := by
  apply outgrows_of_same
  · intro key
    rw [row?_modifyTrack (by exact fun _ => rfl)]
    split
    next here =>
      subst here
      cases row? s.tracks key <;> rfl
    next => rfl
  · exact fun _ => rfl
  · rfl

/-- An update that reports no change changes the text of the artists at most. -/
theorem updateTrack_unchanged {mode : Iteration} {s t : Store} {row : TrackRow} {track : Track}
    (distinct : Distinct s.tracks) (stored : row ∈ s.tracks)
    (updated : s.updateTrack mode row track = (t,some false)) : Alike row track ∧
      s.outgrows row.id = none ∧
      t = s.modifyTrack row.id fun row => {row with artistText := track.artistText} := by
  unfold updateTrack at updated
  dsimp only at updated
  split at updated
  · cases updated
  next u artistsChanged credited =>
    simp only [Prod.mk.injEq,Option.some.injEq,Bool.or_eq_false_iff,decide_eq_false_iff_not,
      ne_eq,not_not] at updated
    obtain ⟨written,⟨⟨⟨⟨⟨⟨title,artists⟩,game⟩,path⟩,number⟩,trackLength⟩,introLength⟩,loop⟩ := updated
    subst artists
    rw [modifyTrack_self distinct stored (by rw [← title])] at credited
    have texted := updateArtists_unchanged distinct stored credited
    have played : u.updateGame track row = ((u.updateGame track row).fst,false) := Prod.ext rfl game
    obtain ⟨gameTitle,fits,still⟩ := updateGame_unchanged played
    refine ⟨⟨title,gameTitle,path,number,trackLength,introLength,loop⟩,?_,?_⟩
    · rw [texted,outgrows_texted] at fits
      exact fits
    · rw [← written,still,texted]
      unfold modifyTrack
      congr 1
      rw [modify_modify (by exact fun _ => rfl)]
      apply modify_congr distinct stored
      simp [path,number,trackLength,introLength,loop]

/-- An update of a track that is alike, text and all, changes nothing. -/
theorem updateTrack_alike {mode : Iteration} {s : Store} {row : TrackRow} {track : Track}
    (distinct : Distinct s.tracks) (stored : row ∈ s.tracks) (alike : Alike row track)
    (text : row.artistText = track.artistText) (fits : s.outgrows row.id = none) :
    s.updateTrack mode row track = (s,some false) := by
  have credited : s.updateArtists mode track row = (s,some false) := if_neg (not_not.mpr text)
  have played : s.updateGame track row = (s,false) := by
    unfold updateGame
    simp [alike.gameTitle,fits]
  unfold updateTrack
  dsimp only
  rw [modifyTrack_self distinct stored (by rw [← alike.title]),credited]
  dsimp only
  rw [played]
  dsimp only
  rw [modifyTrack_self distinct stored (by simp [← alike.path,← alike.trackNumber,
    ← alike.trackLength,← alike.introLength,← alike.loopLength])]
  simp [alike.title,alike.path,alike.trackNumber,alike.trackLength,alike.introLength,alike.loopLength]

end Store
end Chipbox.Library
