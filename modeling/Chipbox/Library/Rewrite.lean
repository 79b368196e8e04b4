import Chipbox.Library.Recredit

/-! What an update makes of the whole track. -/
namespace Chipbox.Library
open Table

/-- The loop ends by itself: the rest of the list moves up, or no artist goes, or the one that
goes is the last but one. -/
def Ends (keep : Nat → Bool) (artists : List Nat) : Iteration → Prop
  | .shifting => True
  | .failFast => (artists.dropWhile keep).length = 0 ∨ (artists.dropWhile keep).length = 2

instance (keep : Nat → Bool) (artists : List Nat) : ∀ mode, Decidable (Ends keep artists mode)
  | .shifting => inferInstanceAs (Decidable True)
  | .failFast => inferInstanceAs (Decidable (_ ∨ _))

theorem ends_iff (keep : Nat → Bool) (artists : List Nat) (mode : Iteration) :
    Ends keep artists mode ↔ ∃ rest, survivors keep artists mode = some rest := by
  cases mode with
  | shifting => exact iff_of_true trivial ⟨_,rfl⟩
  | failFast =>
    unfold Ends survivors
    fun_induction survivorsFailFast keep artists with
    | case1 => simp
    | case2 artist rest kept ih =>
      rw [List.dropWhile_cons_of_pos kept]
      simpa [kept] using ih
    | case3 artist dropped last =>
      rw [List.dropWhile_cons_of_neg dropped]
      simp
    | case4 artist rest dropped more =>
      rw [List.dropWhile_cons_of_neg dropped]
      rcases rest with _ | ⟨next,_ | ⟨last,rest⟩⟩
      · simp
      · exact absurd rfl (more next)
      · simp

namespace Store

def Unset (s : Store) : Prop := ∀ game, (s.summary game).1 ≠ some false

theorem Unset.of_rows {s t : Store} (unset : s.Unset)
    (rows : ∀ key row, row? t.games key = some row →
      ∃ old, row? s.games key = some old ∧ row.multipleArtists = old.multipleArtists) : t.Unset := by
  intro key
  cases found : row? t.games key with
  | none => simp [summary,found]
  | some row =>
    obtain ⟨old,stored,same⟩ := rows key row found
    have flag := unset key
    rw [summary_of_row stored] at flag
    rw [summary_of_row found,same]
    exact flag

section Update
variable {s u : Store} {mode : Iteration} {row : TrackRow} {newTrack : Track} {artistsChanged : Bool}

def Differs (row : TrackRow) (newTrack : Track) : Prop :=
  row.title ≠ newTrack.title ∨ row.path ≠ newTrack.path ∨ row.trackNumber ≠ newTrack.trackNumber ∨
    row.trackLength ≠ newTrack.trackLength ∨ row.introLength ≠ newTrack.introLength ∨
    row.loopLength ≠ newTrack.loopLength

def timed (row : TrackRow) (newTrack : Track) : TrackRow := {row with
  path := newTrack.path, trackNumber := newTrack.trackNumber, trackLength := newTrack.trackLength
  introLength := newTrack.introLength, loopLength := newTrack.loopLength}

theorem updateTrack_credited (same : row.gameTitle = newTrack.gameTitle)
    (credited : (s.modifyTrack row.id fun row => {row with title := newTrack.title}).updateArtists mode
      newTrack row = (u,some artistsChanged)) (fits : u.outgrows row.id = none)
    {after : TrackRow} (stored : row? u.tracks row.id = some after) :
    ∃ t changed, s.updateTrack mode row newTrack = (t,some changed) ∧
      row? t.tracks row.id = some (timed after newTrack) ∧
      (changed = true ↔ artistsChanged = true ∨ Differs row newTrack) := by
  have played : u.updateGame newTrack row = (u,false) := by
    unfold updateGame
    simp [same,fits]
  unfold updateTrack
  dsimp only
  rw [credited]
  dsimp only
  rw [played]
  refine ⟨_,_,rfl,?_,?_⟩
  · rw [row?_modifyTrack (by exact fun _ => rfl),if_pos rfl,stored]
    rfl
  · unfold Differs
    simp only [Bool.or_eq_true,decide_eq_true_eq]
    tauto

theorem credited_outgrows (unset : s.Unset)
    (credited : (s.modifyTrack row.id fun row => {row with title := newTrack.title}).updateArtists mode
      newTrack row = (u,some artistsChanged)) (track : Nat) : u.outgrows track = none := by
  have titled : Aside row.id s (s.modifyTrack row.id fun row => {row with title := newTrack.title}) :=
    modifyTrack_aside (by exact fun _ => ⟨rfl,rfl⟩) s row.id
  have aside := titled.trans (updateArtists_aside mode _ newTrack row)
  rw [credited] at aside
  refine outgrows_none (fun game => ?_) track
  rw [summary,aside.games]
  exact unset game

theorem updateTrack_again (tied : u.Tied) (unset : u.Unset)
    (stored : row? u.tracks row.id = some row) (equal : row.toTrack = newTrack) :
    u.updateTrack mode row newTrack = (u,some false) := by
  subst equal
  exact updateTrack_alike tied.keyed.tracks (row?_mem stored) ⟨rfl,rfl,rfl,rfl,rfl,rfl,rfl⟩ rfl
    (outgrows_none unset row.id)

/-- After an update the stored track is equal to the scanned one, the update tells whether anything
about it has changed, and the same update again changes nothing. -/
def UpdateRight (mode : Iteration) (s : Store) (row : TrackRow) (newTrack : Track) : Prop :=
  ∃ t changed, s.updateTrack mode row newTrack = (t,some changed) ∧
    ∃ last, row? t.tracks row.id = some last ∧ last.toTrack = newTrack ∧
      (changed = true ↔ last ≠ row) ∧ t.updateTrack mode last newTrack = (t,some false)

/-- The three fields that are never stored are as they were, and where the text of the artists is
not, the loop over them ends by itself and something else changes as well. -/
def Rewritable (mode : Iteration) (s : Store) (row : TrackRow) (newTrack : Track) : Prop :=
  row.gameTitle = newTrack.gameTitle ∧ row.platformName = newTrack.platformName ∧
    row.backendId = newTrack.backendId ∧ (row.artistText = newTrack.artistText ∨
      Ends (s.named (creditedNames newTrack)) row.artists mode ∧
        (s.Recredits (creditedNames newTrack) row.artists ∨ Differs row newTrack))

theorem updated_tied (tied : s.Tied) (unset : s.Unset) (stored : row? s.tracks row.id = some row) :
    (s.updateTrack mode row newTrack).1.Tied ∧ (s.updateTrack mode row newTrack).1.Unset := by
  refine ⟨updateTrack_held Pairing.balanced_discipline mode tied stored newTrack,fun game => ?_⟩
  rw [(updateTrack_updated mode unset stored newTrack).summary]
  exact unset game

theorem timed_ne_iff {artists : List Nat} : timed {row with
      title := newTrack.title, artistText := newTrack.artistText, artists := artists} newTrack ≠ row ↔
    row.artistText ≠ newTrack.artistText ∨ artists ≠ row.artists ∨ Differs row newTrack := by
  obtain ⟨⟨_,_,_,_,_,_,_,_,_,_⟩,_,_,_,_⟩ := row
  unfold timed Differs
  simp only [ne_eq,TrackRow.mk.injEq,Track.mk.injEq,true_and,and_true]
  grind

theorem timed_toTrack {artists : List Nat} (gameTitle : row.gameTitle = newTrack.gameTitle)
    (platformName : row.platformName = newTrack.platformName)
    (backendId : row.backendId = newTrack.backendId) : (timed {row with
      title := newTrack.title, artistText := newTrack.artistText, artists := artists} newTrack).toTrack =
        newTrack := by
  unfold timed
  dsimp only
  rw [gameTitle,platformName,backendId]

/-- Where the never stored fields agree, an update that goes through is right exactly when it
reports a change of the text. -/
theorem right_of_credited (tied : s.Tied) (unset : s.Unset) (stored : row? s.tracks row.id = some row)
    (gameTitle : row.gameTitle = newTrack.gameTitle)
    (platformName : row.platformName = newTrack.platformName)
    (backendId : row.backendId = newTrack.backendId) {artists : List Nat}
    (credited : (s.modifyTrack row.id fun row => {row with title := newTrack.title}).updateArtists mode
      newTrack row = (u,some artistsChanged))
    (after : row? u.tracks row.id = some {row with
      title := newTrack.title, artistText := newTrack.artistText, artists := artists}) :
    UpdateRight mode s row newTrack ↔ ((artistsChanged = true ∨ Differs row newTrack) ↔
      row.artistText ≠ newTrack.artistText ∨ artists ≠ row.artists ∨ Differs row newTrack) := by
  obtain ⟨t,changed,updated,written,flag⟩ :=
    updateTrack_credited gameTitle credited (credited_outgrows unset credited row.id) after
  have last : (s.updateTrack mode row newTrack).1.Tied ∧ (s.updateTrack mode row newTrack).1.Unset :=
    updated_tied tied unset stored
  rw [updated] at last
  have equal : (timed {row with title := newTrack.title, artistText := newTrack.artistText
                                artists := artists} newTrack).toTrack = newTrack :=
    timed_toTrack gameTitle platformName backendId
  have again : t.updateTrack mode _ newTrack = (t,some false) :=
    updateTrack_again last.1 last.2 written equal
  unfold UpdateRight
  rw [updated,← flag,← timed_ne_iff]
  constructor
  · rintro ⟨_,_,returned,last,found,_,change,_⟩
    cases returned
    cases written.symm.trans found
    exact change
  · exact fun change => ⟨t,changed,rfl,_,written,equal,change,again⟩

theorem updateArtists_cases (mode : Iteration) (tied : s.Tied)
    (stored : row? s.tracks row.id = some row) :
    (row.artistText ≠ newTrack.artistText ∧ ¬ Ends (s.named (creditedNames newTrack)) row.artists mode ∧
      ((s.modifyTrack row.id fun row => {row with title := newTrack.title}).updateArtists mode
        newTrack row).2 = none) ∨
    ∃ u artistsChanged artists, (s.modifyTrack row.id fun row =>
        {row with title := newTrack.title}).updateArtists mode newTrack row = (u,some artistsChanged) ∧
      row? u.tracks row.id = some {row with
        title := newTrack.title, artistText := newTrack.artistText, artists := artists} ∧
      (row.artistText = newTrack.artistText ∧ artistsChanged = false ∧ artists = row.artists ∨
        row.artistText ≠ newTrack.artistText ∧
          Ends (s.named (creditedNames newTrack)) row.artists mode ∧
          (artistsChanged = true ↔ s.Recredits (creditedNames newTrack) row.artists)) := by
  have titled := retitled_tied tied row.id newTrack.title
  have retitled := retitled_row stored newTrack.title
  by_cases same : row.artistText = newTrack.artistText
  · refine .inr ⟨_,_,row.artists,updateArtists_same mode _ same,?_,.inl ⟨same,rfl,rfl⟩⟩
    rw [retitled,← same]
  · obtain ⟨throws,leaves⟩ := @updateArtists_spec _ mode newTrack row _ titled retitled rfl same
    have named : (s.modifyTrack row.id fun row => {row with title := newTrack.title}).named
        (creditedNames newTrack) = s.named (creditedNames newTrack) := rfl
    rw [named] at throws leaves
    dsimp only at throws leaves
    cases survived : survivors (s.named (creditedNames newTrack)) row.artists mode with
    | none =>
      obtain ⟨_,_,thrown,_⟩ := throws survived
      refine .inl ⟨same,fun ends => ?_,congrArg Prod.snd thrown⟩
      obtain ⟨_,left⟩ := (ends_iff _ _ mode).mp ends
      rw [survived] at left
      cases left
    | some rest =>
      obtain ⟨u,artistsChanged,after,_,credited,flag,written,_,_⟩ := leaves rest survived
      exact .inr ⟨u,artistsChanged,after,credited,written,
        .inr ⟨same,(ends_iff _ _ mode).mpr ⟨rest,survived⟩,flag⟩⟩

theorem updateRight_iff (mode : Iteration) (tied : s.Tied) (unset : s.Unset)
    (stored : row? s.tracks row.id = some row) (newTrack : Track) :
    UpdateRight mode s row newTrack ↔ Rewritable mode s row newTrack := by
  rcases updateArtists_cases mode tied stored with
    ⟨differs,endless,threw⟩ | ⟨u,artistsChanged,artists,credited,written,outcome⟩
  · apply iff_of_false
    · rintro ⟨_,_,updated,_⟩
      have stopped := updateTrack_writes threw
      rw [updated] at stopped
      cases stopped
    · rintro ⟨_,_,_,same | ⟨ends,_⟩⟩
      · exact differs same
      · exact endless ends
  by_cases fields : row.gameTitle = newTrack.gameTitle ∧ row.platformName = newTrack.platformName ∧
      row.backendId = newTrack.backendId
  · obtain ⟨gameTitle,platformName,backendId⟩ := fields
    rw [right_of_credited tied unset stored gameTitle platformName backendId credited written]
    unfold Rewritable
    rcases outcome with ⟨same,rfl,rfl⟩ | ⟨differs,ends,flag⟩
    · simp [gameTitle,platformName,backendId,same]
    · rw [flag]
      simp [gameTitle,platformName,backendId,differs,ends]
  · apply iff_of_false
    · rintro ⟨_,_,updated,last,found,equal,_⟩
      obtain ⟨_,_,game,again,rewritten,_⟩ := updateTrack_row credited written
      rw [updated] at again
      cases again
      cases found.symm.trans rewritten
      have gameTitle : row.gameTitle = newTrack.gameTitle := by rw [← equal]
      have platformName : row.platformName = newTrack.platformName := by rw [← equal]
      have backendId : row.backendId = newTrack.backendId := by rw [← equal]
      exact fields ⟨gameTitle,platformName,backendId⟩
    · rintro ⟨gameTitle,platformName,backendId,_⟩
      exact fields ⟨gameTitle,platformName,backendId⟩

end Update
end Store

theorem step_unset (mode : Iteration) {s t : Store} {command : Command} (tied : s.Tied)
    (unset : s.Unset) (taken : step mode s command = some t) : t.Unset := by
  cases command with
  | addTrack track =>
    cases Option.some.inj taken
    obtain ⟨_,_,_,_,_,added⟩ := Store.addTrack_added tied track
    exact added.unset unset
  | updateTrack oldTrack newTrack =>
    obtain ⟨row,stored,rfl⟩ := Option.map_eq_some_iff.mp taken
    have key := row?_key stored
    subst key
    exact (Store.updated_tied tied unset stored).2
  | deleteTrack track =>
    obtain ⟨row,_,rfl⟩ := Option.map_eq_some_iff.mp taken
    refine unset.of_rows fun key game found => ?_
    obtain ⟨old,stored,rfl⟩ := Option.map_eq_some_iff.mp
      ((row?_map (by exact fun _ => rfl) key).symm.trans found)
    exact ⟨old,stored,rfl⟩
  | deleteGame game =>
    obtain ⟨row,_,rfl⟩ := Option.map_eq_some_iff.mp taken
    refine unset.of_rows fun key game found => ?_
    have left := (row?_delete s.games row.id key).symm.trans found
    split at left
    · cases left
    · exact ⟨game,left,rfl⟩
  | deleteArtist artist =>
    obtain ⟨row,_,rfl⟩ := Option.map_eq_some_iff.mp taken
    refine unset.of_rows fun key game found => ?_
    obtain ⟨old,stored,rfl⟩ := Option.map_eq_some_iff.mp
      ((row?_map (by exact fun _ => rfl) key).symm.trans found)
    exact ⟨old,stored,rfl⟩
  | clearAll =>
    cases Option.some.inj taken
    exact unset.of_rows nofun

theorem reached_unset {mode : Iteration} {commands : List Command} {s : Store}
    (reached : Run.exec (step mode) .empty commands = some s) : s.Tied ∧ s.Unset := by
  have kept (s : Store) (command : Command) (t : Store) (held : s.Tied ∧ s.Unset)
      (taken : step mode s command = some t) : t.Tied ∧ t.Unset :=
    ⟨step_tied mode held.1 taken,step_unset mode held.1 held.2 taken⟩
  exact @Run.invariant_of_step _ _ _ (fun s : Store => s.Tied ∧ s.Unset) kept _ _ _
    ⟨Store.empty_sound.tied,Store.empty_unset⟩ reached

/-- In every store reached, an update makes a stored track equal to a scanned one, and says rightly
whether that changed it, exactly when the track is rewritable. -/
theorem update_equal_iff {mode : Iteration} {commands : List Command} {s : Store} {row : TrackRow}
    (reached : Run.exec (step mode) .empty commands = some s)
    (stored : row? s.tracks row.id = some row) (newTrack : Track) :
    Store.UpdateRight mode s row newTrack ↔ Store.Rewritable mode s row newTrack := by
  obtain ⟨tied,unset⟩ := reached_unset reached
  exact Store.updateRight_iff mode tied unset stored newTrack

/-- The file of a track has moved, and its text has another artist in place of the last but one. -/
theorem update_equal_iff_moved : ∃ s row,
    Run.exec (step .failFast) .empty [.addTrack (creditedTrack "A, B, C")] = some s ∧
    row? s.tracks 0 = some row ∧ Store.UpdateRight .failFast s row
      {creditedTrack "A, C, D" with path := some "/music/b.spc"} := by
  refine ⟨_,_,rfl,rfl,(@update_equal_iff .failFast [.addTrack (creditedTrack "A, B, C")] _ _ rfl rfl
    _).mpr ⟨rfl,rfl,rfl,.inr ⟨?_,.inr ?_⟩⟩⟩
  · decide
  · unfold Store.Differs
    decide

/-- The file has moved to another format, and the track keeps the reader of the old one. -/
theorem update_keeps_backend : ∃ s row,
    Run.exec (step .failFast) .empty [.addTrack (creditedTrack "A")] = some s ∧
    row? s.tracks 0 = some row ∧ ¬ Store.UpdateRight .failFast s row
      {creditedTrack "A" with path := some "/music/a.vgm", backendId := some 1} := by
  refine ⟨_,_,rfl,rfl,fun right => ?_⟩
  obtain ⟨_,_,updated,last,found,equal,_⟩ := right
  cases updated
  have reader := congrArg Track.backendId equal
  cases found
  exact absurd reader (by decide)

end Chipbox.Library
