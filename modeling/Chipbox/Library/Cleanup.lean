import Chipbox.Library.Idempotence

/-! What a scan removes. -/
namespace Chipbox.Library
open Table

/-- The store after the passes that end a scan, against the store before them. -/
structure Cleaned (fileExists : String → Bool) (before after : Store) : Prop where
  tracksExist : ∀ track ∈ after.tracks, ∃ path, track.path = some path ∧ fileExists path = true
  gamesPlayed : ∀ game ∈ after.games, ∃ track ∈ after.tracks,
    track.game = some game.id ∧ track.id ∈ game.tracks
  artistsPlayed : ∀ artist ∈ after.artists, ∃ track ∈ after.tracks,
    artist.id ∈ track.artists ∧ track.id ∈ artist.tracks
  tracksKept : ∀ track ∈ before.tracks, ∀ path, track.path = some path → fileExists path = true →
    ∃ kept ∈ after.tracks, kept.id = track.id
  gamesKept : ∀ game ∈ before.games, ∀ track ∈ before.tracks,
    track.game = some game.id ∨ track.id ∈ game.tracks → (∃ left ∈ after.tracks, left.id = track.id) →
      ∃ kept ∈ after.games, kept.id = game.id
  artistsKept : ∀ artist ∈ before.artists, ∀ track ∈ before.tracks,
    artist.id ∈ track.artists ∨ track.id ∈ artist.tracks → (∃ left ∈ after.tracks, left.id = track.id) →
      ∃ kept ∈ after.artists, kept.id = artist.id

structure Store.Grown (s t : Store) : Prop where
  tracks : s.tracks.map Row.key ⊆ t.tracks.map Row.key
  games : s.games.map Row.key ⊆ t.games.map Row.key
  artists : s.artists.map Row.key ⊆ t.artists.map Row.key

section Grown

theorem modify_keys {ρ : Type} [Row ρ] {change : ρ → ρ} (keeps : ∀ row, Row.key (change row) = Row.key row)
    (rows : List ρ) (key : Nat) : rows.map Row.key ⊆ (Table.modify rows key change).map Row.key := by
  unfold Table.modify
  rw [List.map_map]
  have same : rows.map (Row.key ∘ fun row => if Row.key row = key then change row else row) =
      rows.map Row.key := List.map_congr_left fun row _ => key_modified keeps key row
  rw [same]
  exact List.Subset.refl _

theorem append_keys {ρ : Type} [Row ρ] (rows : List ρ) (row : ρ) :
    rows.map Row.key ⊆ (rows ++ [row]).map Row.key := by
  rw [List.map_append]
  exact List.subset_append_left _ _

theorem modifyTrack_grown {change : TrackRow → TrackRow} (keeps : ∀ row, (change row).id = row.id)
    (s : Store) (track : Nat) : s.Grown (s.modifyTrack track change) :=
  ⟨modify_keys keeps s.tracks track,List.Subset.refl _,List.Subset.refl _⟩

theorem grown_frame : Store.Frame Store.Grown where
  refl _ := ⟨List.Subset.refl _,List.Subset.refl _,List.Subset.refl _⟩
  trans first second := ⟨List.Subset.trans first.tracks second.tracks,
    List.Subset.trans first.games second.games,List.Subset.trans first.artists second.artists⟩
  modifyTrack keeps := modifyTrack_grown fun row => congrArg Prod.fst (keeps row)
  modifyGame keeps s game :=
    ⟨List.Subset.refl _,modify_keys keeps s.games game,List.Subset.refl _⟩
  modifyArtist keeps s artist :=
    ⟨List.Subset.refl _,List.Subset.refl _,modify_keys (fun row => (keeps row).1) s.artists artist⟩
  newGame s row := ⟨List.Subset.refl _,append_keys s.games row,List.Subset.refl _⟩
  newArtist s _ _ := ⟨List.Subset.refl _,List.Subset.refl _,append_keys s.artists _⟩
  newPlatform _ _ := ⟨List.Subset.refl _,List.Subset.refl _,List.Subset.refl _⟩

theorem addTrack_grown (s : Store) (track : Track) : s.Grown (s.addTrack track).2 := by
  have saved : s.Grown (s.saveTrack track).2 :=
    ⟨append_keys s.tracks _,List.Subset.refl _,List.Subset.refl _⟩
  exact grown_frame.trans saved (Store.addTrack_frame grown_frame s track)

theorem updateTrack_grown {mode : Iteration} {s t : Scan} {row : TrackRow} {track : Track} {changed : Bool}
    (updated : s.updateTrack mode row track = some (t,changed)) : s.store.Grown t.store := by
  obtain ⟨store,stepped,rfl⟩ := Scan.updateTrack_store updated
  obtain ⟨u,grown,rfl⟩ := Store.updateTrack_frame grown_frame stepped
  exact grown_frame.trans grown (modifyTrack_grown (by exact fun _ => rfl) u row.id)

end Grown

structure Walked (mode : Iteration) (rel : Store → Store → Prop) : Prop where
  refl : ∀ s, rel s s
  trans : ∀ {s t u}, rel s t → rel t u → rel s u
  adds : ∀ s track, rel s (s.addTrack track).2
  updates : ∀ {s t : Scan} {row track changed}, row ∈ s.store.tracks →
    s.updateTrack mode row track = some (t,changed) → rel s.store t.store
  paints : ∀ s game path, rel s (s.updateGameArt game path)

structure Edited (mode : Iteration) (rel : Store → Store → Prop) : Prop where
  refl : ∀ s, rel s s
  trans : ∀ {s t u}, rel s t → rel t u → rel s u
  adds : ∀ s track, rel s (s.addTrack track).2
  updates : ∀ {s t : Scan} {row track changed}, row ∈ s.store.tracks →
    s.updateTrack mode row track = some (t,changed) → rel s.store t.store

section Walk
variable {mode : Iteration} {rel : Store → Store → Prop}

theorem updated_store {s t : Scan} {track : Nat} (reported : s.updated track = some t) :
    t.store = s.store := by
  obtain ⟨_,_,rfl⟩ := Option.map_eq_some_iff.mp reported
  rfl

theorem Edited.check (edited : Edited mode rel) {s t : Scan} {path : String} {track : Track}
    {number : Option Int} {game : Option Nat}
    (checked : checkForExistingTrack mode s path track number = some (t,game)) : rel s.store t.store := by
  rcases checkForExistingTrack_cases checked with ⟨row,u,changed,existing,updated,reported,_⟩ |
    ⟨row,u,_,_,moved,updated,reported,_⟩ | ⟨_,_,rfl,_⟩
  · have next := edited.updates (existingTrack_spec existing).1 updated
    split at reported
    · rw [updated_store reported]
      exact next
    · cases reported
      exact next
  · rw [updated_store reported]
    exact edited.updates (movedTrack_stored moved) updated
  · exact edited.refl t.store

theorem Edited.addTracks (edited : Edited mode rel) (s : Store) (game : Option Nat) (tracks : List Track) :
    rel s (addTracks s game tracks).1 := by
  induction tracks generalizing s game with
  | nil => exact edited.refl s
  | cons track rest ih => exact edited.trans (edited.adds s track) (ih _ _)

theorem Edited.visit_plain (edited : Edited mode rel) {w w' : Walk} {v : Visit}
    (plain : ∀ path, v ≠ .image path) (taken : visit mode w v = some w') :
    rel w.scan.store w'.scan.store := by
  have still := edited.refl w.scan.store
  cases v with
  | enter name => cases taken; exact still
  | leave => cases taken; exact still
  | bad name => cases taken; exact still
  | opened => cases taken; exact still
  | single path track =>
    obtain ⟨_,_,checked,rfl⟩ | ⟨t,_,checked,rfl⟩ := visit_single taken
    · exact edited.check checked
    · exact edited.trans (edited.check checked) (edited.adds t.store track)
  | numbered path track =>
    obtain ⟨_,_,checked,rfl⟩ | ⟨_,checked,rfl⟩ := visit_numbered taken
    · exact edited.check checked
    · exact edited.check checked
  | closed name =>
    rw [(visit_closed taken).1]
    exact edited.addTracks w.scan.store w.current w.newTracks
  | image path => exact absurd rfl (plain path)

theorem Edited.visit (edited : Edited mode rel)
    (paints : ∀ s game path, rel s (s.updateGameArt game (artLocal path))) {w w' : Walk} {v : Visit}
    (taken : visit mode w v = some w') : rel w.scan.store w'.scan.store := by
  cases v with
  | image path =>
    obtain ⟨_,rfl⟩ | ⟨game,_,rfl⟩ := visit_image taken
    · exact edited.refl w'.scan.store
    · exact paints w.scan.store game path
  | _ => exact edited.visit_plain (by intro path same; cases same) taken

theorem Walked.edited (walked : Walked mode rel) : Edited mode rel :=
  ⟨walked.refl,walked.trans,walked.adds,walked.updates⟩

theorem Edited.scanFolders (edited : Edited mode rel)
    (paints : ∀ s game path, rel s (s.updateGameArt game (artLocal path))) {readers : Readers}
    {s t : Scan} {folders : List Entry}
    (scanned : scanFolders mode readers s folders = some t) : rel s.store t.store := by
  have run := @scanFolders_exec mode readers s folders
  rw [scanned] at run
  apply @Run.invariant_of_step _ _ _ (fun w : Walk => rel s.store w.scan.store) _ _ _ _
    (edited.refl s.store) run
  intro w v w' held taken
  exact edited.trans held (edited.visit paints taken)

theorem Walked.scanFolders (walked : Walked mode rel) {readers : Readers} {s t : Scan} {folders : List Entry}
    (scanned : scanFolders mode readers s folders = some t) : rel s.store t.store :=
  walked.edited.scanFolders (fun s game path => walked.paints s game (artLocal path)) scanned

theorem grown_walked : Walked mode Store.Grown where
  refl := grown_frame.refl
  trans := grown_frame.trans
  adds := addTrack_grown
  updates _ updated := updateTrack_grown updated
  paints s game _ := grown_frame.modifyGame (by exact fun _ => rfl) s game

theorem updateTrack_tied {s t : Scan} {row : TrackRow} {track : Track} {changed : Bool}
    (tied : s.store.Tied) (stored : row ∈ s.store.tracks)
    (updated : s.updateTrack mode row track = some (t,changed)) : t.store.Tied := by
  obtain ⟨store,stepped,rfl⟩ := Scan.updateTrack_store updated
  have kept := Store.updateTrack_held Pairing.balanced_discipline mode tied
    (row?_of_mem tied.keyed.tracks stored) track
  rw [stepped] at kept
  exact kept

theorem tied_walked : Walked mode fun s t => s.Tied → t.Tied where
  refl _ tied := tied
  trans first second tied := second (first tied)
  adds _ track tied := Store.addTrack_balanced tied track
  updates stored updated tied := updateTrack_tied tied stored updated
  paints _ game _ tied := Store.Held.modifyGame tied (by exact fun _ => ⟨rfl,rfl⟩) game

end Walk

structure Store.Spares (s t : Store) : Prop where
  tracks : ∀ key, row? t.tracks key ≠ none → row? s.tracks key ≠ none
  games : ∀ key game, row? t.tracks key ≠ none → key ∈ s.gamePairing.backward game →
    key ∈ t.gamePairing.backward game
  artists : ∀ key artist, row? t.tracks key ≠ none → key ∈ s.artistPairing.backward artist →
    key ∈ t.artistPairing.backward artist

section Sweep
variable {fileExists : String → Bool} {s t u : Store}

theorem Store.Spares.refl (s : Store) : s.Spares s :=
  ⟨fun _ stored => stored,fun _ _ _ listed => listed,fun _ _ _ listed => listed⟩

theorem Store.Spares.trans (first : s.Spares t) (second : t.Spares u) : s.Spares u where
  tracks key stored := first.tracks key (second.tracks key stored)
  games key game stored listed :=
    second.games key game stored (first.games key game (second.tracks key stored) listed)
  artists key artist stored listed :=
    second.artists key artist stored (first.artists key artist (second.tracks key stored) listed)

theorem row?_some_map {ρ : Type} [Row ρ] {rows : List ρ} {change : ρ → ρ}
    (keeps : ∀ row, Row.key (change row) = Row.key row) (key : Nat) :
    row? (rows.map change) key ≠ none ↔ row? rows key ≠ none := by
  rw [row?_map keeps]
  simp

theorem deleteTrack_spares (s : Store) (track : Nat) : s.Spares (s.deleteTrack track) := by
  have left (key : Nat) (stored : row? (s.deleteTrack track).tracks key ≠ none) :
      key ≠ track ∧ row? s.tracks key ≠ none := by
    unfold Store.deleteTrack at stored
    dsimp only at stored
    rw [row?_delete] at stored
    split at stored
    · exact absurd rfl stored
    next apart => exact ⟨apart,stored⟩
  refine ⟨fun key stored => (left key stored).2,?_,?_⟩
  · intro key game stored listed
    rw [Store.deleteTrack_gamePairing]
    exact List.mem_filter.mpr ⟨listed,by simpa using (left key stored).1⟩
  · intro key artist stored listed
    rw [Store.deleteTrack_artistPairing]
    exact List.mem_filter.mpr ⟨listed,by simpa using (left key stored).1⟩

theorem deleteGame_spares {game : Nat} {row : GameRow} (found : row? s.games game = some row)
    (bare : row.tracks = []) : s.Spares (s.deleteGame game) := by
  refine ⟨fun key => (row?_some_map (by exact fun _ => rfl) key).mp,?_,?_⟩
  · intro key other _ listed
    rw [Store.deleteGame_gamePairing]
    have apart : other ≠ game := by
      rintro rfl
      simp [Store.gamePairing,found,bare] at listed
    simpa [Pairing.dropRight,apart] using listed
  · intro key artist _ listed
    rw [Store.deleteGame_artistPairing]
    exact listed

theorem deleteArtist_spares {artist : Nat} {row : ArtistRow} (found : row? s.artists artist = some row)
    (bare : row.tracks = []) : s.Spares (s.deleteArtist artist) := by
  refine ⟨fun key => (row?_some_map (by exact fun _ => rfl) key).mp,?_,?_⟩
  · intro key game _ listed
    rw [Store.deleteArtist_gamePairing]
    exact listed
  · intro key other _ listed
    rw [Store.deleteArtist_artistPairing]
    have apart : other ≠ artist := by
      rintro rfl
      simp [Store.artistPairing,found,bare] at listed
    simpa [Pairing.dropRight,apart] using listed

structure Passed (rel : Store → Store → Prop) : Prop where
  refl : ∀ s, rel s s
  trans : ∀ {s t u}, rel s t → rel t u → rel s u
  track : ∀ s track, rel s (s.deleteTrack track)
  game : ∀ {s : Store} {game row}, row? s.games game = some row → row.tracks = [] → rel s (s.deleteGame game)
  artist : ∀ {s : Store} {artist row}, row? s.artists artist = some row → row.tracks = [] →
    rel s (s.deleteArtist artist)

section Passed
variable {rel : Store → Store → Prop}

theorem Passed.checkTrack (passed : Passed rel) {scan next : Scan} {key : Nat}
    (checked : checkTrack fileExists scan key = some next) : rel scan.store next.store := by
  obtain ⟨rfl,_⟩ | ⟨_,_,_,_,_,_,rfl⟩ := checkTrack_cases checked
  · exact passed.refl next.store
  · exact passed.track scan.store key

theorem Passed.checkGame (passed : Passed rel) (s : Store) (game : Nat) : rel s (checkGame s game) := by
  unfold Chipbox.Library.checkGame
  split
  · exact passed.refl s
  next found =>
    split
    next bare => exact passed.game found bare
    next => exact passed.refl s

theorem Passed.checkArtist (passed : Passed rel) (s : Store) (artist : Nat) : rel s (checkArtist s artist) := by
  unfold Chipbox.Library.checkArtist
  split
  · exact passed.refl s
  next found =>
    split
    next bare => exact passed.artist found bare
    next => exact passed.refl s

theorem Passed.foldl (passed : Passed rel) {check : Store → Nat → Store} (checks : ∀ s key, rel s (check s key))
    (keys : List Nat) (s : Store) : rel s (keys.foldl check s) := by
  induction keys generalizing s with
  | nil => exact passed.refl s
  | cons key rest ih => exact passed.trans (checks s key) (ih (check s key))

theorem Passed.sweep (passed : Passed rel) {scan next : Scan} (swept : sweep fileExists scan = some next) :
    rel scan.store next.store := by
  obtain ⟨middle,checked,rfl⟩ := Option.map_eq_some_iff.mp swept
  rw [checkAllTracks_exec] at checked
  have tracks : rel scan.store middle.store := by
    apply @Run.invariant_of_step _ _ _ (fun later : Scan => rel scan.store later.store) _ _ _ _
      (passed.refl _) checked
    intro later key next held step
    exact passed.trans held (passed.checkTrack step)
  exact passed.trans (passed.trans tracks (passed.foldl passed.checkGame _ _))
    (passed.foldl passed.checkArtist _ _)

end Passed

theorem spares_passed : Passed Store.Spares where
  refl := .refl
  trans := .trans
  track := deleteTrack_spares
  game := deleteGame_spares
  artist := deleteArtist_spares

theorem tied_passed : Passed fun s t => s.Tied → t.Tied where
  refl _ tied := tied
  trans first second tied := second (first tied)
  track _ track tied := Store.deleteTrack_held Pairing.balanced_discipline tied track
  game _ _ tied := Store.deleteGame_held tied _
  artist _ _ tied := Store.deleteArtist_held Pairing.balanced_discipline tied _

/-- A pass over the tracks leaves the tracks that are on the storage. -/
theorem checkTrack_leaves {scan next : Scan} {key : Nat} {face : Nat × Option String × Option Int}
    {path : String} (named : face.2.1 = some path) (there : fileExists path = true)
    (held : scan.store.Tied ∧ face ∈ scan.store.faces)
    (checked : checkTrack fileExists scan key = some next) :
    next.store.Tied ∧ face ∈ next.store.faces := by
  obtain ⟨tied,listed⟩ := held
  refine ⟨tied_passed.checkTrack checked tied,?_⟩
  obtain ⟨rfl,_⟩ | ⟨row,place,_,stored,placed,gone,rfl⟩ := checkTrack_cases checked
  · exact listed
  · change face ∈ (scan.store.deleteTrack key).faces
    rw [deleteTrack_faces]
    refine List.mem_filter.mpr ⟨listed,?_⟩
    simp only [ne_eq,decide_not,Bool.not_eq_eq_eq_not,Bool.not_true,decide_eq_false_iff_not]
    rintro rfl
    have same := tied.keyed.faced.same (row?_mem stored) listed (row?_key stored).symm
    have paths : row.path = some path := by
      rw [same] at named
      exact named
    cases placed.symm.trans paths
    exact gone there

theorem sweep_leaves {scan next : Scan} (tied : scan.store.Tied)
    (swept : sweep fileExists scan = some next) {face : Nat × Option String × Option Int}
    (listed : face ∈ scan.store.faces) {path : String} (named : face.2.1 = some path)
    (there : fileExists path = true) : face ∈ next.store.faces := by
  obtain ⟨middle,checked,rfl⟩ := Option.map_eq_some_iff.mp swept
  rw [checkAllTracks_exec] at checked
  dsimp only
  rw [foldl_faces checkArtist_faces,foldl_faces checkGame_faces]
  have kept : middle.store.Tied ∧ face ∈ middle.store.faces := by
    apply @Run.invariant_of_step _ _ _ (fun later : Scan => later.store.Tied ∧ face ∈ later.store.faces)
      _ _ _ _ ⟨tied,listed⟩ checked
    exact fun _ _ _ => checkTrack_leaves named there
  exact kept.2

theorem Store.Tied.game_of_tracks (tied : s.Tied) {game : GameRow} (stored : game ∈ s.games)
    (full : game.tracks ≠ []) : ∃ track ∈ s.tracks, track.game = some game.id ∧ track.id ∈ game.tracks := by
  obtain ⟨key,rest,tracks⟩ := List.exists_cons_of_ne_nil full
  have listed : key ∈ s.gamePairing.backward game.id := by
    have own : row? s.games game.id = some game := row?_of_mem tied.keyed.games stored
    simp [Store.gamePairing,own,tracks]
  have linked := (tied.game.agree key game.id).mpr listed
  simp only [Store.gamePairing,Option.mem_toList] at linked
  obtain ⟨track,found,same⟩ := Option.bind_eq_some_iff.mp linked
  have id : track.id = key := row?_key found
  exact ⟨track,row?_mem found,same,by rw [tracks,id]; exact List.mem_cons_self⟩

theorem Store.Tied.artist_of_tracks (tied : s.Tied) {artist : ArtistRow} (stored : artist ∈ s.artists)
    (full : artist.tracks ≠ []) :
    ∃ track ∈ s.tracks, artist.id ∈ track.artists ∧ track.id ∈ artist.tracks := by
  obtain ⟨key,rest,tracks⟩ := List.exists_cons_of_ne_nil full
  have listed : key ∈ s.artistPairing.backward artist.id := by
    have own : row? s.artists artist.id = some artist := row?_of_mem tied.keyed.artists stored
    simp [Store.artistPairing,own,tracks]
  have linked := (tied.artist.agree key artist.id).mpr listed
  simp only [Store.artistPairing] at linked
  cases found : row? s.tracks key with
  | none => simp [found] at linked
  | some track =>
    rw [found] at linked
    have id : track.id = key := row?_key found
    exact ⟨track,row?_mem found,linked,by rw [tracks,id]; exact List.mem_cons_self⟩

theorem stored_of_backward {key game : Nat} (listed : key ∈ s.gamePairing.backward game) :
    ∃ row ∈ s.games, row.id = game := by
  cases found : row? s.games game with
  | none => simp [Store.gamePairing,found] at listed
  | some row => exact ⟨row,row?_mem found,row?_key found⟩

theorem artist_of_backward {key artist : Nat} (listed : key ∈ s.artistPairing.backward artist) :
    ∃ row ∈ s.artists, row.id = artist := by
  cases found : row? s.artists artist with
  | none => simp [Store.artistPairing,found] at listed
  | some row => exact ⟨row,row?_mem found,row?_key found⟩

theorem Store.Tied.game_listed (tied : s.Tied) {game : GameRow} (storedGame : game ∈ s.games)
    {track : TrackRow} (storedTrack : track ∈ s.tracks)
    (linked : track.game = some game.id ∨ track.id ∈ game.tracks) :
    track.id ∈ s.gamePairing.backward game.id := by
  have ownTrack : row? s.tracks track.id = some track := row?_of_mem tied.keyed.tracks storedTrack
  have ownGame : row? s.games game.id = some game := row?_of_mem tied.keyed.games storedGame
  rcases linked with forward | backward
  · rw [← tied.game.agree]
    simp [Store.gamePairing,ownTrack,forward]
  · simpa [Store.gamePairing,ownGame] using backward

theorem Store.Tied.artist_listed (tied : s.Tied) {artist : ArtistRow} (storedArtist : artist ∈ s.artists)
    {track : TrackRow} (storedTrack : track ∈ s.tracks)
    (linked : artist.id ∈ track.artists ∨ track.id ∈ artist.tracks) :
    track.id ∈ s.artistPairing.backward artist.id := by
  have ownTrack : row? s.tracks track.id = some track := row?_of_mem tied.keyed.tracks storedTrack
  have ownArtist : row? s.artists artist.id = some artist := row?_of_mem tied.keyed.artists storedArtist
  rcases linked with forward | backward
  · rw [← tied.artist.agree]
    simpa [Store.artistPairing,ownTrack] using forward
  · simpa [Store.artistPairing,ownArtist] using backward

theorem row?_of_id {key : Nat} (left : ∃ track ∈ s.tracks, track.id = key) : row? s.tracks key ≠ none := by
  obtain ⟨track,stored,id⟩ := left
  intro missed
  exact List.find?_eq_none.mp missed track stored (by simpa [Row.key] using id)

/-- The passes that end a scan clean a store whose links agree. -/
theorem sweep_cleaned {scan next : Scan} (tied : scan.store.Tied)
    (swept : sweep fileExists scan = some next) : Cleaned fileExists scan.store next.store := by
  have last : next.store.Tied := tied_passed.sweep swept tied
  have settled := swept_sweep swept
  have spared := spares_passed.sweep swept
  refine ⟨?_,?_,?_,?_,?_,?_⟩
  · intro track stored
    exact settled.tracks track.id track (row?_of_mem last.keyed.tracks stored)
  · intro game stored
    exact last.game_of_tracks stored (settled.games game.id game (row?_of_mem last.keyed.games stored))
  · intro artist stored
    exact last.artist_of_tracks stored
      (settled.artists artist.id artist (row?_of_mem last.keyed.artists stored))
  · intro track stored path named there
    have listed : Store.face track ∈ scan.store.faces := List.mem_map_of_mem stored
    obtain ⟨kept,present,same⟩ := List.mem_map.mp (sweep_leaves tied swept listed named there)
    exact ⟨kept,present,congrArg Prod.fst same⟩
  · intro game storedGame track storedTrack linked left
    exact stored_of_backward (spared.games track.id game.id (row?_of_id left)
      (tied.game_listed storedGame storedTrack linked))
  · intro artist storedArtist track storedTrack linked left
    exact artist_of_backward (spared.artists track.id artist.id (row?_of_id left)
      (tied.artist_listed storedArtist storedTrack linked))

end Sweep

/-- A scan that completes loses no key on its walk, and its passes leave the tracks of the files
that exist with their games and artists, and nothing else. -/
theorem scan_cleans {mode : Iteration} {disk : Storage} {s : Store} {t : Scan} (tied : s.Tied)
    (scanned : scanLibrary mode disk s = some t) :
    ∃ (folders : List Entry) (walked : Scan), disk.getFolders = some folders ∧
      scanFolders mode disk.readers ⟨s,[]⟩ folders = some walked ∧ s.Grown walked.store ∧
      Cleaned disk.fileExists walked.store t.store := by
  obtain ⟨folders,found,rest⟩ := Option.bind_eq_some_iff.mp scanned
  obtain ⟨walked,walk,swept⟩ := Option.bind_eq_some_iff.mp rest
  have held : walked.store.Tied := tied_walked.scanFolders walk tied
  exact ⟨folders,walked,found,walk,grown_walked.scanFolders walk,sweep_cleaned held swept⟩

/-- The track of a file that is gone goes with its game and one of its artists. -/
theorem scan_cleans_one :
    let s := (Store.empty.addTrack (creditedTrack "A, B")).2
    let disk : Storage := ⟨some [.folder "/storage/a" [.file "/storage/a/x.spc"]],none,none,
      fun _ => some ⟨1,fun _ => ⟨some "Super NES",some "A",some "T",some "G",1000,0,0⟩⟩,
      fun path => path = "/storage/a/x.spc",by decide +kernel⟩
    ∃ t, scanLibrary .failFast disk s = some t ∧
      t.store.tracks.map (fun row => row.path) = [some "/storage/a/x.spc"] ∧
      t.store.games.map GameRow.title = [some "G"] ∧ t.store.artists.map ArtistRow.name = [some "A"] ∧
      ∃ (folders : List Entry) (walked : Scan), disk.getFolders = some folders ∧
        scanFolders .failFast disk.readers ⟨s,[]⟩ folders = some walked ∧ s.Grown walked.store ∧
        Cleaned disk.fileExists walked.store t.store := by
  intro s disk
  have evaluated : (scanLibrary .failFast disk s).map (fun t => decide
      (t.store.tracks.map (fun row => row.path) = [some "/storage/a/x.spc"] ∧
        t.store.games.map GameRow.title = [some "G"] ∧
        t.store.artists.map ArtistRow.name = [some "A"])) = some true := by decide +kernel
  obtain ⟨t,scanned,left⟩ := Option.map_eq_some_iff.mp evaluated
  obtain ⟨tracks,games,artists⟩ := of_decide_eq_true left
  have sound : s.Sound := Store.addTrack_sound Store.empty_sound _ (by decide +kernel)
  exact ⟨t,scanned,tracks,games,artists,scan_cleans sound.tied scanned⟩

end Chipbox.Library
