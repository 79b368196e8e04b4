import Chipbox.Library.Completeness
import Chipbox.Library.Unchanged

/-! When a scan of an unchanged storage leaves the library that a scan gave as it was and has
nothing to report. -/
namespace Chipbox.Library
open Table

/-- The store with images for some games and artists' texts for some tracks written over its own. -/
def Store.written (s : Store) (art : Nat → Option String) (text : Nat → Option (Option String)) :
    Store := {s with
  tracks := s.tracks.map fun row => {row with artistText := (text row.id).getD row.artistText}
  games := s.games.map fun row => {row with artLocal := (art row.id).or row.artLocal}}

section Written
variable {s : Store} {art : Nat → Option String} {text : Nat → Option (Option String)}

theorem map_eq_self {α : Type} {change : α → α} {items : List α} :
    items.map change = items ↔ ∀ item ∈ items, change item = item := by
  have same : items.map change = items.map id ↔ _ := List.map_inj_left
  rw [List.map_id] at same
  exact same

theorem written_none (s : Store) : s.written (fun _ => none) (fun _ => none) = s := by
  simp [Store.written]

/-- Nothing is changed exactly when what is written was there before. -/
theorem written_eq_iff : s.written art text = s ↔
    (∀ row ∈ s.games, art row.id = none ∨ art row.id = row.artLocal) ∧
      ∀ row ∈ s.tracks, text row.id = none ∨ text row.id = some row.artistText := by
  have parts : s.written art text = s ↔
      (s.written art text).games = s.games ∧ (s.written art text).tracks = s.tracks := by
    cases s
    simp [Store.written,and_comm]
  rw [parts]
  apply and_congr
  · unfold Store.written
    rw [map_eq_self]
    apply forall₂_congr
    intro row _
    obtain ⟨id,_,_,_,_,_,_⟩ := row
    cases art id <;> simp
  · unfold Store.written
    rw [map_eq_self]
    apply forall₂_congr
    intro row _
    obtain ⟨track,id,_,_,_⟩ := row
    cases track
    cases text id <;> simp

theorem existingTrack_written (path : String) (number : Option Int) :
    existingTrack (s.written art text) path number = (existingTrack s path number).map fun row =>
      {row with artistText := (text row.id).getD row.artistText} := by
  unfold existingTrack Store.getTrackFromPath Store.getTrackFromPathAndNumber Store.written
  split
  · rw [List.find?_map]
    rfl
  · rw [List.find?_map]
    rfl

theorem row?_written_tracks (key : Nat) : row? (s.written art text).tracks key =
    (row? s.tracks key).map fun row => {row with artistText := (text row.id).getD row.artistText} :=
  row?_map (by exact fun _ => rfl) key

theorem row?_written_games (key : Nat) : row? (s.written art text).games key =
    (row? s.games key).map fun row => {row with artLocal := (art row.id).or row.artLocal} :=
  row?_map (by exact fun _ => rfl) key

theorem written_distinct (distinct : Distinct s.tracks) : Distinct (s.written art text).tracks :=
  (distinct_map (by exact fun _ => rfl)).mpr distinct

theorem written_outgrows (track : Nat) :
    (s.written art text).outgrows track = s.outgrows track := by
  apply Store.outgrows_of_same
  · intro key
    rw [row?_written_tracks,Option.map_map]
    rfl
  · intro key
    rw [row?_written_games,Option.map_map]
    rfl
  · rfl

theorem written_updateGameArt (game : Nat) (path : String) :
    (s.written art text).updateGameArt game (artLocal path) =
      s.written (Function.update art game (some (artLocal path))) text := by
  unfold Store.updateGameArt Store.modifyGame Store.written Table.modify
  congr 1
  rw [List.map_map]
  apply List.map_congr_left
  intro row _
  by_cases here : row.id = game
  · simp [Row.key,here]
  · simp [Row.key,here]

theorem written_text (track : Nat) (artistText : Option String) :
    ((s.written art text).modifyTrack track fun row => {row with artistText := artistText}) =
      s.written art (Function.update text track (some artistText)) := by
  unfold Store.modifyTrack Store.written Table.modify
  congr 1
  rw [List.map_map]
  apply List.map_congr_left
  intro row _
  by_cases here : row.id = track
  · simp [Row.key,here]
  · simp [Row.key,here]

end Written

def FileScanEvent.quiet : FileScanEvent → Bool
  | .folder _ | .badTrack _ => true
  | .newMultiTrack _ count => count = 0
  | .newTrack _ | .updatedTrack _ | .deletedTrack _ => false

namespace Scan

def Silent (s : Scan) : Prop := ∀ event ∈ s.events, event.quiet = true

theorem Silent.before {s t : Scan} (silent : t.Silent) (more : s.events ⊆ t.events) : s.Silent :=
  fun event reported => silent event (more reported)

theorem silent_onNext {s : Scan} {event : FileScanEvent} :
    (s.onNext event).Silent ↔ s.Silent ∧ event.quiet = true := by
  unfold Silent onNext
  simp [or_imp,forall_and]

theorem updateTrack_events {mode : Iteration} {s t : Scan} {row : TrackRow} {track : Track}
    {changed : Bool} (updated : s.updateTrack mode row track = some (t,changed)) :
    t.events = s.events := by
  obtain ⟨_,_,rfl⟩ := updateTrack_store updated
  rfl

theorem updated_loud {s t : Scan} {track : Nat} (reported : s.updated track = some t) :
    s.events ⊆ t.events ∧ ¬ t.Silent := by
  obtain ⟨title,_,rfl⟩ := Option.map_eq_some_iff.mp reported
  refine ⟨List.subset_append_left _ _,?_⟩
  rw [silent_onNext]
  rintro ⟨_,quiet⟩
  cases quiet

end Scan

section LookUps
variable {mode : Iteration} {s : Store} {art : Nat → Option String}
  {text : Nat → Option (Option String)} {scan t : Scan} {path : String} {track : Track}
  {number : Option Int} {game : Option Nat}

theorem check_events (checked : checkForExistingTrack mode scan path track number = some (t,game)) :
    scan.events ⊆ t.events := by
  rcases checkForExistingTrack_cases checked with ⟨row,u,changed,_,updated,reported,_⟩ |
    ⟨row,u,_,_,_,updated,reported,_⟩ | ⟨_,_,rfl,_⟩
  · rw [← Scan.updateTrack_events updated]
    split at reported
    · exact (Scan.updated_loud reported).1
    · cases reported
      exact List.Subset.refl _
  · rw [← Scan.updateTrack_events updated]
    exact (Scan.updated_loud reported).1
  · exact List.Subset.refl _

/-- A look-up that gives a game and reports nothing has found a track that is alike. -/
theorem check_silent (distinct : Distinct s.tracks) (store : scan.store = s.written art text)
    (checked : checkForExistingTrack mode scan path track number = some (t,game))
    (silent : t.Silent) (known : game ≠ none) : ∃ row, existingTrack s path number = some row ∧
      Alike row track ∧ s.outgrows row.id = none ∧ row.game = game ∧
      t = {scan with store := s.written art (Function.update text row.id (some track.artistText))} := by
  rcases checkForExistingTrack_cases checked with ⟨old,u,changed,existing,updated,reported,rfl⟩ |
    ⟨_,_,_,_,_,_,reported,_⟩ | ⟨_,_,_,gameless⟩
  · rw [store,existingTrack_written] at existing
    obtain ⟨row,found,rfl⟩ := Option.map_eq_some_iff.mp existing
    have stored := (existingTrack_spec found).1
    have own : row? s.tracks row.id = some row := row?_of_mem distinct stored
    split at reported
    · exact absurd silent (Scan.updated_loud reported).2
    next unchanged =>
      cases reported
      obtain ⟨_,outcome,rfl⟩ := Scan.updateTrack_store updated
      rw [Bool.not_eq_true] at unchanged
      subst unchanged
      rw [store] at outcome
      obtain ⟨alike,fits,rfl⟩ := Store.updateTrack_unchanged (written_distinct distinct)
        (List.mem_map_of_mem stored) outcome
      rw [written_outgrows] at fits
      refine ⟨row,found,⟨alike.title,alike.gameTitle,alike.path,alike.trackNumber,
        alike.trackLength,alike.introLength,alike.loopLength⟩,fits,?_,?_⟩
      · unfold Scan.gameOf
        dsimp only
        rw [written_text,row?_written_tracks,own]
        rfl
      · rw [written_text]
  · exact absurd silent (Scan.updated_loud reported).2
  · exact absurd gameless known

/-- A look-up that finds a track that is alike, text and all, gives its game and nothing else. -/
theorem check_alike (distinct : Distinct s.tracks) (store : scan.store = s.written art text)
    {row : TrackRow} (found : existingTrack s path number = some row) (alike : Alike row track)
    (same : row.artistText = track.artistText) (fits : s.outgrows row.id = none)
    (kept : text row.id = none ∨ text row.id = some row.artistText) :
    checkForExistingTrack mode scan path track number = some ({scan with
      store := s.written art (Function.update text row.id (some track.artistText))},row.game) := by
  have stored := (existingTrack_spec found).1
  have own : row? s.tracks row.id = some row := row?_of_mem distinct stored
  have texted : (text row.id).getD row.artistText = track.artistText := by
    rcases kept with none | some
    · rw [none]
      exact same
    · rw [some]
      exact same
  have still : s.written art (Function.update text row.id (some track.artistText)) = scan.store := by
    rw [← written_text,store]
    exact Store.modifyTrack_self (written_distinct distinct) (List.mem_map_of_mem stored)
      (by rw [texted])
  have existing : existingTrack scan.store path number =
      some {row with artistText := (text row.id).getD row.artistText} := by
    rw [store,existingTrack_written,found]
    rfl
  have updated : scan.updateTrack mode {row with artistText := (text row.id).getD row.artistText} track =
      some (scan,false) := by
    unfold Scan.updateTrack
    rw [store,Store.updateTrack_alike (written_distinct distinct) (List.mem_map_of_mem stored)
      ⟨alike.title,alike.gameTitle,alike.path,alike.trackNumber,alike.trackLength,alike.introLength,
        alike.loopLength⟩ texted (by rw [written_outgrows]; exact fits)]
    dsimp only
    rw [← store]
  unfold checkForExistingTrack
  rw [existing]
  dsimp only
  rw [updated,still]
  change some (scan,scan.gameOf row.id) = _
  unfold Scan.gameOf
  rw [store,row?_written_tracks,own,← store]
  rfl

end LookUps

/-- What a walk has looked up so far: the games of the folders, the last image shown for each
game and the last text of the artists read for each track. -/
structure Notes where
  games : List (Option Nat)
  art : Nat → Option String
  text : Nat → Option (Option String)

namespace Notes

def go (n : Notes) (game : Option Nat) : Notes := {n with games := game::n.games.tail}

def find (n : Notes) (track : Track) : Option TrackRow → Notes
  | none => n
  | some row => {n.go row.game with text := Function.update n.text row.id (some track.artistText)}

/-- Takes a visit down without changing the store. -/
def look (s : Store) (n : Notes) : Visit → Notes
  | .enter _ => {n with games := none::n.games}
  | .leave => {n with games := n.games.tail}
  | .bad _ | .opened => n.go none
  | .single path track => n.find track (existingTrack s path none)
  | .numbered path track => n.find track (existingTrack s path track.trackNumber)
  | .closed _ => n.go n.games.head?.join
  | .image path =>
    match n.games.head?.join with
    | none => n
    | some game => {n with art := Function.update n.art game (some (artLocal path))}

end Notes

structure Follows (s : Store) (n : Notes) (w : Walk) : Prop where
  store : w.scan.store = s.written n.art n.text
  games : w.games = n.games
  none_waits : w.newTracks = []

/-- The track that the visit looks up is stored under its path and number, with the same tags
but perhaps for the text of the artists, and in a game that need not change. -/
def Finds (s : Store) (v : Visit) : Prop := ∀ path track number, v.check = some (path,track,number) →
  ∃ row, existingTrack s path number = some row ∧ Alike row track ∧ row.game ≠ none ∧
    s.outgrows row.id = none

namespace Walk

def Spoilt (w : Walk) : Prop := ¬ w.scan.Silent ∨ w.newTracks ≠ []

theorem calm_iff {w : Walk} : ¬ w.Spoilt ↔ w.scan.Silent ∧ w.newTracks = [] := by
  unfold Spoilt
  rw [not_or,not_not,not_not]

end Walk

section Steps
variable {mode : Iteration} {s : Store} {n : Notes} {w w' : Walk} {v : Visit}

theorem finds_unlooked (unlooked : v.check = none) : Finds s v := by
  intro _ _ _ looks
  cases unlooked.symm.trans looks

theorem addTracks_nil (s : Store) (game : Option Nat) : addTracks s game [] = (s,game) := rfl

theorem Follows.go (follows : Follows s n w) {scan : Scan} (store : scan.store = w.scan.store)
    (game : Option Nat) : Follows s (n.go game) (w.go scan game) := by
  refine ⟨store.trans follows.store,?_,follows.none_waits⟩
  unfold Walk.go Notes.go
  dsimp only
  rw [follows.games]

theorem Follows.current (follows : Follows s n w) : w.current = n.games.head?.join := by
  unfold Walk.current
  rw [follows.games]

theorem Follows.find (follows : Follows s n w) {track : Track} {row : TrackRow}
    {events : List FileScanEvent} : Follows s (n.find track (some row))
      (w.go ⟨s.written n.art (Function.update n.text row.id (some track.artistText)),events⟩ row.game) := by
  refine ⟨rfl,?_,follows.none_waits⟩
  unfold Walk.go Notes.find Notes.go
  dsimp only
  rw [follows.games]

theorem found_follows (distinct : Distinct s.tracks) (follows : Follows s n w) {path : String}
    {track : Track} {number : Option Int} (looks : v.check = some (path,track,number)) {t : Scan}
    {game : Nat} (checked : checkForExistingTrack mode w.scan path track number = some (t,some game))
    (silent : t.Silent) : Finds s v ∧
      Follows s (n.find track (existingTrack s path number)) (w.go t (some game)) := by
  obtain ⟨row,found,alike,fits,known,rfl⟩ := check_silent distinct follows.store checked silent nofun
  have ingame : row.game ≠ none := by
    rw [known]
    exact nofun
  constructor
  · intro _ _ _ looked
    cases looks.symm.trans looked
    exact ⟨row,found,alike,ingame,fits⟩
  · rw [found,← known]
    exact follows.find

/-- A visit that leaves nothing to report finds its track, and the notes say what it changed. -/
theorem visit_follows (distinct : Distinct s.tracks) (follows : Follows s n w)
    (taken : visit mode w v = some w') (calm : ¬ w'.Spoilt) :
    Finds s v ∧ Follows s (n.look s v) w' := by
  obtain ⟨silent,none_waits⟩ := Walk.calm_iff.mp calm
  cases v with
  | enter name =>
    cases taken
    exact ⟨finds_unlooked rfl,follows.store,congrArg (List.cons none) follows.games,follows.none_waits⟩
  | leave =>
    cases taken
    exact ⟨finds_unlooked rfl,follows.store,congrArg List.tail follows.games,follows.none_waits⟩
  | bad | opened =>
    cases taken
    exact ⟨finds_unlooked rfl,follows.go (by rfl) none⟩
  | closed name =>
    obtain ⟨store,waiting,games⟩ := visit_closed taken
    rw [follows.none_waits,addTracks_nil] at store games
    refine ⟨finds_unlooked rfl,store.trans follows.store,?_,waiting⟩
    rw [games,follows.current,follows.games]
    rfl
  | image path =>
    unfold Notes.look
    dsimp only
    obtain ⟨known,rfl⟩ | ⟨game,known,rfl⟩ := visit_image taken
    · rw [← follows.current,known]
      exact ⟨finds_unlooked rfl,follows⟩
    · rw [← follows.current,known]
      refine ⟨finds_unlooked rfl,?_,follows.games,follows.none_waits⟩
      dsimp only
      rw [follows.store,written_updateGameArt]
  | single path track =>
    obtain ⟨t,game,checked,rfl⟩ | ⟨_,_,_,rfl⟩ := visit_single taken
    · exact found_follows distinct follows rfl checked silent
    · cases (Scan.silent_onNext.mp silent).2
  | numbered path track =>
    obtain ⟨t,game,checked,rfl⟩ | ⟨_,_,rfl⟩ := visit_numbered taken
    · exact found_follows distinct follows rfl checked silent
    · exact absurd none_waits (List.append_ne_nil_of_right_ne_nil _ (List.cons_ne_nil _ _))

theorem visit_spoilt (spoilt : w.Spoilt) (taken : visit mode w v = some w') : w'.Spoilt := by
  have loud {t : Scan} (more : w.scan.events ⊆ t.events) (silent : t.Silent) : w.newTracks ≠ [] := by
    apply spoilt.resolve_left
    rw [not_not]
    exact silent.before more
  unfold Walk.Spoilt
  rw [or_iff_not_imp_left,not_not]
  intro silent
  cases v with
  | enter name =>
    cases taken
    exact loud (List.subset_append_left _ _) silent
  | bad name =>
    cases taken
    exact loud (List.subset_append_left _ _) silent
  | leave | opened =>
    cases taken
    exact loud (List.Subset.refl _) silent
  | closed name =>
    unfold visit at taken
    dsimp only at taken
    cases taken
    dsimp only [Walk.go] at silent
    have reported : Scan.Silent (Scan.onNext {w.scan with
        store := (addTracks w.scan.store w.current w.newTracks).1}
        (.newMultiTrack name w.newTracks.length)) := by
      split at silent
      · exact (Scan.silent_onNext.mp silent).1
      · exact silent
    obtain ⟨before,quiet⟩ := Scan.silent_onNext.mp reported
    have waiting := loud (List.Subset.refl _) before
    exact absurd (List.length_eq_zero_iff.mp (of_decide_eq_true quiet)) waiting
  | image path =>
    obtain ⟨_,rfl⟩ | ⟨_,_,rfl⟩ := visit_image taken
    · exact loud (List.Subset.refl _) silent
    · exact loud (List.Subset.refl _) silent
  | single path track =>
    obtain ⟨_,_,checked,rfl⟩ | ⟨_,_,_,rfl⟩ := visit_single taken
    · exact loud (check_events checked) silent
    · cases (Scan.silent_onNext.mp silent).2
  | numbered path track =>
    obtain ⟨_,_,checked,rfl⟩ | ⟨_,_,rfl⟩ := visit_numbered taken
    · exact loud (check_events checked) silent
    · exact List.append_ne_nil_of_right_ne_nil _ (List.cons_ne_nil _ _)

end Steps

/-- The track that the visit looks up is stored under its path and number with the same tags,
text and all, and in a game that need not change. -/
def UpToDate (s : Store) (v : Visit) : Prop := ∀ path track number, v.check = some (path,track,number) →
  ∃ row, existingTrack s path number = some row ∧ Alike row track ∧
    row.artistText = track.artistText ∧ row.game ≠ none ∧ s.outgrows row.id = none

def Notes.Own (s : Store) (n : Notes) : Prop :=
  ∀ row ∈ s.tracks, n.text row.id = none ∨ n.text row.id = some row.artistText

section Steady
variable {mode : Iteration} {s : Store} {n : Notes} {w : Walk} {v : Visit}

theorem find_own (distinct : Distinct s.tracks) (own : n.Own s) {row : TrackRow} {track : Track}
    (stored : row ∈ s.tracks) (same : row.artistText = track.artistText) :
    (n.find track (some row)).Own s := by
  intro other listed
  unfold Notes.find
  dsimp only
  by_cases here : other.id = row.id
  · rw [distinct_inj distinct listed stored here,Function.update_self,same]
    exact .inr rfl
  · rw [Function.update_of_ne here]
    exact own other listed

theorem look_own (distinct : Distinct s.tracks) (own : n.Own s) (ready : UpToDate s v) :
    (n.look s v).Own s := by
  cases v with
  | enter | leave | bad | opened | closed => exact own
  | image path =>
    unfold Notes.look
    dsimp only
    split <;> exact own
  | single path track =>
    obtain ⟨row,found,_,same,_⟩ := ready _ _ _ rfl
    unfold Notes.look
    dsimp only
    rw [found]
    exact find_own distinct own (existingTrack_spec found).1 same
  | numbered path track =>
    obtain ⟨row,found,_,same,_⟩ := ready _ _ _ rfl
    unfold Notes.look
    dsimp only
    rw [found]
    exact find_own distinct own (existingTrack_spec found).1 same

theorem visit_calm (mode : Iteration) (distinct : Distinct s.tracks) (follows : Follows s n w)
    (own : n.Own s) (silent : w.scan.Silent) (ready : UpToDate s v) :
    ∃ w', visit mode w v = some w' ∧ ¬ w'.Spoilt := by
  have looked {path : String} {track : Track} {number : Option Int}
      (looks : v.check = some (path,track,number)) : ∃ t game,
        checkForExistingTrack mode w.scan path track number = some (t,some game) ∧ t.Silent := by
    obtain ⟨row,found,alike,same,ingame,fits⟩ := ready path track number looks
    obtain ⟨game,known⟩ := Option.ne_none_iff_exists'.mp ingame
    have checked : checkForExistingTrack mode w.scan path track number = some (_,row.game) :=
      check_alike distinct follows.store found alike same fits (own row (existingTrack_spec found).1)
    rw [known] at checked
    exact ⟨_,game,checked,silent⟩
  have waits := follows.none_waits
  cases v with
  | enter | bad => exact ⟨_,rfl,Walk.calm_iff.mpr ⟨Scan.silent_onNext.mpr ⟨silent,rfl⟩,waits⟩⟩
  | leave | opened => exact ⟨_,rfl,Walk.calm_iff.mpr ⟨silent,waits⟩⟩
  | closed name =>
    refine ⟨_,rfl,Walk.calm_iff.mpr ⟨?_,rfl⟩⟩
    dsimp only [Walk.go]
    have closes : Scan.Silent (Scan.onNext {w.scan with
        store := (addTracks w.scan.store w.current w.newTracks).1}
        (.newMultiTrack name w.newTracks.length)) := by
      rw [waits]
      exact Scan.silent_onNext.mpr ⟨silent,rfl⟩
    split
    · exact Scan.silent_onNext.mpr ⟨closes,rfl⟩
    · exact closes
  | image path =>
    unfold visit
    dsimp only
    split
    · exact ⟨w,rfl,Walk.calm_iff.mpr ⟨silent,waits⟩⟩
    · exact ⟨_,rfl,Walk.calm_iff.mpr ⟨silent,waits⟩⟩
  | single path track =>
    obtain ⟨t,game,checked,still⟩ := looked rfl
    unfold visit
    dsimp only
    rw [checked]
    exact ⟨_,rfl,Walk.calm_iff.mpr ⟨still,waits⟩⟩
  | numbered path track =>
    obtain ⟨t,game,checked,still⟩ := looked rfl
    unfold visit
    dsimp only
    rw [checked]
    exact ⟨_,rfl,Walk.calm_iff.mpr ⟨still,waits⟩⟩

end Steady

section Runs
variable {mode : Iteration} {s : Store}

theorem visits_follow (distinct : Distinct s.tracks) {visits : List Visit} {n : Notes} {w w' : Walk}
    (follows : Follows s n w) (run : Run.exec (visit mode) w visits = some w') (calm : ¬ w'.Spoilt) :
    (∀ v ∈ visits, Finds s v) ∧ Follows s (visits.foldl (Notes.look s) n) w' := by
  induction visits generalizing n w with
  | nil =>
    cases run
    exact ⟨fun _ listed => (List.not_mem_nil listed).elim,follows⟩
  | cons v rest ih =>
    obtain ⟨middle,taken,run⟩ := Run.exec_cons.mp run
    have still : ¬ middle.Spoilt := by
      intro spoilt
      exact calm (Run.invariant_of_step (fun _ _ _ => visit_spoilt) spoilt run)
    obtain ⟨finds,going⟩ := visit_follows distinct follows taken still
    obtain ⟨others,last⟩ := ih going run
    exact ⟨List.forall_mem_cons.mpr ⟨finds,others⟩,last⟩

theorem visits_calm (mode : Iteration) (distinct : Distinct s.tracks) {visits : List Visit} {n : Notes}
    {w : Walk} (follows : Follows s n w) (own : n.Own s) (silent : w.scan.Silent)
    (ready : ∀ v ∈ visits, UpToDate s v) : ∃ w', Run.exec (visit mode) w visits = some w' ∧
      ¬ w'.Spoilt ∧ (visits.foldl (Notes.look s) n).Own s := by
  induction visits generalizing n w with
  | nil => exact ⟨w,rfl,Walk.calm_iff.mpr ⟨silent,follows.none_waits⟩,own⟩
  | cons v rest ih =>
    have first := ready v List.mem_cons_self
    obtain ⟨middle,taken,calm⟩ := visit_calm mode distinct follows own silent first
    obtain ⟨w',run,last⟩ := ih (visit_follows distinct follows taken calm).2 (look_own distinct own first)
      (Walk.calm_iff.mp calm).1 (fun u later => ready u (.tail _ later))
    exact ⟨w',Run.exec_cons.mpr ⟨middle,taken,run⟩,last⟩

end Runs

structure Store.Swept (fileExists : String → Bool) (s : Store) : Prop where
  tracks : ∀ key row, row? s.tracks key = some row → ∃ path, row.path = some path ∧ fileExists path = true
  games : ∀ key row, row? s.games key = some row → row.tracks ≠ []
  artists : ∀ key row, row? s.artists key = some row → row.tracks ≠ []

section Sweep
variable {fileExists : String → Bool} {s : Store} {scan t : Scan}

theorem written_swept {art : Nat → Option String} {text : Nat → Option (Option String)}
    (swept : s.Swept fileExists) : (s.written art text).Swept fileExists := by
  refine ⟨?_,?_,swept.artists⟩
  · intro key row stored
    rw [row?_written_tracks] at stored
    obtain ⟨old,found,rfl⟩ := Option.map_eq_some_iff.mp stored
    exact swept.tracks key old found
  · intro key row stored
    rw [row?_written_games] at stored
    obtain ⟨old,found,rfl⟩ := Option.map_eq_some_iff.mp stored
    exact swept.games key old found

theorem checkAllTracks_exec (scan : Scan) (tracks : List Nat) :
    checkAllTracks fileExists scan tracks = Run.exec (checkTrack fileExists) scan tracks := by
  induction tracks generalizing scan with
  | nil => rfl
  | cons track rest ih =>
    unfold checkAllTracks Run.exec
    cases checkTrack fileExists scan track with
    | none => rfl
    | some next => exact ih next

theorem sweep_swept (swept : scan.store.Swept fileExists) : sweep fileExists scan = some scan := by
  have tracks : checkAllTracks fileExists scan (scan.store.tracks.map TrackRow.id) = some scan := by
    rw [checkAllTracks_exec]
    apply Run.exec_still
    intro key _
    unfold checkTrack
    split
    · rfl
    next row stored =>
      obtain ⟨path,named,there⟩ := swept.tracks key row stored
      rw [named]
      exact if_pos there
  have games : (scan.store.games.map GameRow.id).foldl checkGame scan.store = scan.store := by
    apply Option.some.inj
    rw [← Run.exec_foldl]
    apply Run.exec_still
    intro key _
    unfold checkGame
    split
    · rfl
    next row stored => exact congrArg some (if_neg (swept.games key row stored))
  have artists : (scan.store.artists.map ArtistRow.id).foldl checkArtist scan.store = scan.store := by
    apply Option.some.inj
    rw [← Run.exec_foldl]
    apply Run.exec_still
    intro key _
    unfold checkArtist
    split
    · rfl
    next row stored => exact congrArg some (if_neg (swept.artists key row stored))
  unfold sweep
  rw [tracks,Option.map_some,games]
  dsimp only
  rw [artists]

theorem checkTrack_events {key : Nat} (checked : checkTrack fileExists scan key = some t) :
    scan.events ⊆ t.events := by
  obtain ⟨rfl,_⟩ | ⟨_,_,_,_,_,_,rfl⟩ := checkTrack_cases checked
  · exact List.Subset.refl _
  · exact List.subset_append_left _ _

theorem sweep_events (swept : sweep fileExists scan = some t) : scan.events ⊆ t.events := by
  obtain ⟨u,checked,rfl⟩ := Option.map_eq_some_iff.mp swept
  rw [checkAllTracks_exec] at checked
  have more : scan.events ⊆ u.events := by
    apply @Run.invariant_of_step _ _ _ (fun u => scan.events ⊆ u.events) _ _ _ _ (List.Subset.refl _) checked
    intro u key next held step
    exact List.Subset.trans held (checkTrack_events step)
  exact more

theorem row?_faces (s : Store) (key : Nat) :
    (row? s.tracks key).map Store.face = s.faces.find? fun face => face.1 = key := by
  unfold Store.faces
  rw [List.find?_map]
  rfl

def There (fileExists : String → Bool) (key : Nat) (s : Store) : Prop :=
  ∀ face, (row? s.tracks key).map Store.face = some face →
    ∃ path, face.2.1 = some path ∧ fileExists path = true

theorem there_of_faces {key : Nat} {t : Store} (faces : t.faces = s.faces)
    (there : There fileExists key s) : There fileExists key t := by
  unfold There
  rw [row?_faces,faces,← row?_faces]
  exact there

theorem checkTrack_settles {key : Nat} (checked : checkTrack fileExists scan key = some t) :
    There fileExists key t.store := by
  intro face same
  obtain ⟨rfl,there⟩ | ⟨_,_,_,_,_,_,rfl⟩ := checkTrack_cases checked
  · obtain ⟨row,stored,rfl⟩ := Option.map_eq_some_iff.mp same
    exact there row stored
  · change (row? (delete scan.store.tracks key) key).map Store.face = some face at same
    rw [row?_delete,if_pos rfl] at same
    cases same

theorem checkTrack_keeps {key other : Nat} (there : There fileExists other scan.store)
    (checked : checkTrack fileExists scan key = some t) : There fileExists other t.store := by
  obtain ⟨rfl,_⟩ | ⟨_,_,_,_,_,_,rfl⟩ := checkTrack_cases checked
  · exact there
  · intro face same
    change (row? (delete scan.store.tracks key) other).map Store.face = some face at same
    rw [row?_delete] at same
    split at same
    · cases same
    · exact there face same

/-- After the pass over the tracks all that are left are on the storage. -/
theorem checkAllTracks_there (checked : checkAllTracks fileExists scan (scan.store.tracks.map TrackRow.id) =
    some t) (key : Nat) : There fileExists key t.store := by
  rw [checkAllTracks_exec] at checked
  apply @Run.exec_each _ _ _ (fun key (scan : Scan) => There fileExists key scan.store)
    (fun _ _ _ => checkTrack_settles) (fun _ _ _ _ => checkTrack_keeps) _ _ _ checked key
  by_cases listed : key ∈ scan.store.tracks.map TrackRow.id
  · exact .inr listed
  · left
    intro face stored
    obtain ⟨row,found,_⟩ := Option.map_eq_some_iff.mp stored
    exact absurd (List.mem_map.mpr ⟨row,row?_mem found,row?_key found⟩) listed

def pruned {ρ : Type} [Row ρ] (tracks : ρ → List Nat) (rows : List ρ) (key : Nat) : List ρ :=
  match row? rows key with
  | none => rows
  | some row => if tracks row = [] then delete rows key else rows

theorem row?_pruned {ρ : Type} [Row ρ] {tracks : ρ → List Nat} {rows : List ρ} {key other : Nat} {row : ρ}
    (stored : row? (pruned tracks rows key) other = some row) : row? rows other = some row := by
  unfold pruned at stored
  split at stored
  · exact stored
  · split at stored
    · rw [row?_delete] at stored
      split at stored
      · cases stored
      · exact stored
    · exact stored

theorem pruned_settles {ρ : Type} [Row ρ] {tracks : ρ → List Nat} {rows : List ρ} {key : Nat} {row : ρ}
    (stored : row? (pruned tracks rows key) key = some row) : tracks row ≠ [] := by
  have before := row?_pruned stored
  unfold pruned at stored
  rw [before] at stored
  dsimp only at stored
  split at stored
  · rw [row?_delete,if_pos rfl] at stored
    cases stored
  next full => exact full

theorem all_pruned {ρ : Type} [Row ρ] (tracks : ρ → List Nat) (rows : List ρ) (key : Nat) (row : ρ)
    (stored : row? ((rows.map Row.key).foldl (pruned tracks) rows) key = some row) : tracks row ≠ [] := by
  revert row
  apply @Run.exec_each _ _ (fun rows key => some (pruned tracks rows key))
    (fun key rows => ∀ row, row? rows key = some row → tracks row ≠ []) _ _ _ _ _
    (Run.exec_foldl (pruned tracks) rows (rows.map Row.key)) key
  · by_cases listed : key ∈ rows.map Row.key
    · exact .inr listed
    · left
      intro row found
      exact absurd (List.mem_map.mpr ⟨row,row?_mem found,row?_key found⟩) listed
  · intro rows key t step row stored
    cases step
    exact pruned_settles stored
  · intro rows key t other held step row stored
    cases step
    exact held row (row?_pruned stored)

theorem checkGame_games (s : Store) (game : Nat) :
    (checkGame s game).games = pruned GameRow.tracks s.games game := by
  unfold checkGame pruned
  cases row? s.games game with
  | none => rfl
  | some row =>
    dsimp only
    split <;> rfl

theorem checkArtist_artists (s : Store) (artist : Nat) :
    (checkArtist s artist).artists = pruned ArtistRow.tracks s.artists artist := by
  unfold checkArtist pruned
  cases row? s.artists artist with
  | none => rfl
  | some row =>
    dsimp only
    split <;> rfl

theorem checkArtist_games {s : Store} (artist : Nat)
    (full : ∀ key row, row? s.games key = some row → row.tracks ≠ []) :
    ∀ key row, row? (checkArtist s artist).games key = some row → row.tracks ≠ [] := by
  unfold checkArtist
  split
  · exact full
  · split
    · intro key row stored
      unfold Store.deleteArtist at stored
      dsimp only at stored
      rw [row?_map (by exact fun _ => rfl)] at stored
      obtain ⟨old,found,rfl⟩ := Option.map_eq_some_iff.mp stored
      exact full key old found
    · exact full

theorem checkArtists_games {s : Store} (artists : List Nat)
    (full : ∀ key row, row? s.games key = some row → row.tracks ≠ []) :
    ∀ key row, row? (artists.foldl checkArtist s).games key = some row → row.tracks ≠ [] := by
  induction artists generalizing s with
  | nil => exact full
  | cons artist rest ih => exact ih (checkArtist_games artist full)

theorem swept_sweep (swept : sweep fileExists scan = some t) : t.store.Swept fileExists := by
  obtain ⟨u,checked,rfl⟩ := Option.map_eq_some_iff.mp swept
  have gone (s : Store) : ((s.games.map GameRow.id).foldl checkGame s).games =
      (s.games.map Row.key).foldl (pruned GameRow.tracks) s.games :=
    (List.foldl_hom Store.games fun s key => (checkGame_games s key).symm).symm
  have left (s : Store) : ((s.artists.map ArtistRow.id).foldl checkArtist s).artists =
      (s.artists.map Row.key).foldl (pruned ArtistRow.tracks) s.artists :=
    (List.foldl_hom Store.artists fun s key => (checkArtist_artists s key).symm).symm
  refine ⟨?_,?_,?_⟩
  · intro key row stored
    have there := checkAllTracks_there checked key
    refine there_of_faces ?_ there (Store.face row) (by rw [stored]; rfl)
    dsimp only
    rw [foldl_faces checkArtist_faces,foldl_faces checkGame_faces]
  · apply checkArtists_games
    intro key row stored
    rw [gone] at stored
    exact all_pruned GameRow.tracks u.store.games key row stored
  · intro key row stored
    dsimp only at stored
    rw [left] at stored
    exact all_pruned ArtistRow.tracks _ key row stored

theorem checkTrack_distinct {key : Nat} (distinct : Distinct scan.store.tracks)
    (checked : checkTrack fileExists scan key = some t) : Distinct t.store.tracks := by
  obtain ⟨rfl,_⟩ | ⟨_,_,_,_,_,_,rfl⟩ := checkTrack_cases checked
  · exact distinct
  · exact distinct_delete distinct key

theorem sweep_distinct (distinct : Distinct scan.store.tracks)
    (swept : sweep fileExists scan = some t) : Distinct t.store.tracks := by
  obtain ⟨u,checked,rfl⟩ := Option.map_eq_some_iff.mp swept
  rw [checkAllTracks_exec] at checked
  have kept : Distinct u.store.tracks :=
    Run.invariant_of_step (fun _ _ _ => checkTrack_distinct) distinct checked
  unfold Distinct at kept ⊢
  rw [← faces_keys] at kept ⊢
  dsimp only
  rw [foldl_faces checkArtist_faces,foldl_faces checkGame_faces]
  exact kept

end Sweep

section Texts
variable {s : Store}

def Visit.Read (readers : Readers) (v : Visit) : Prop :=
  ∀ path track number, v.check = some (path,track,number) →
    (number = none ∧ ∃ trackCount, readSingleTrackFile readers path trackCount = some track) ∨
    (number = track.trackNumber ∧ number ≠ none ∧
      ∃ tracks, readMultipleTrackFile readers path = some tracks ∧ track ∈ tracks)

theorem visits_read (disk : Storage) : ∀ v ∈ disk.visits, v.Read disk.readers := by
  apply visits_forall
  · intro v none _ _ _ looks
    cases none.symm.trans looks
  · intro trackCount path v listed
    rcases fileVisits_cases listed with none | ⟨_,track,read,rfl⟩ | ⟨_,tracks,read,track,yielded,rfl⟩
    · intro _ _ _ looks
      cases none.symm.trans looks
    · intro _ _ _ looks
      cases looks
      exact .inl ⟨rfl,trackCount,read⟩
    · intro _ _ _ looks
      cases looks
      have numbered := (readMultipleTrackFile_spec read yielded).2.2
      refine .inr ⟨rfl,?_,tracks,read,yielded⟩
      intro none
      rw [none] at numbered
      cases numbered

/-- Two visits that look up one stored track have read the same text. -/
theorem visits_agree {disk : Storage} {v u : Visit} (listed : v ∈ disk.visits) (other : u ∈ disk.visits)
    {path path' : String} {track track' : Track} {number number' : Option Int} {row : TrackRow}
    (looks : v.check = some (path,track,number)) (looks' : u.check = some (path',track',number'))
    (found : existingTrack s path number = some row) (found' : existingTrack s path' number' = some row) :
    track.artistText = track'.artistText := by
  obtain ⟨_,named,numbered⟩ := existingTrack_spec found
  obtain ⟨_,named',numbered'⟩ := existingTrack_spec found'
  cases named.symm.trans named'
  have kind := ((visits_spec disk).2 v listed _ _ _ looks).2.2
  have kind' := ((visits_spec disk).2 u other _ _ _ looks').2.2
  rcases visits_read disk v listed _ _ _ looks with ⟨single,_,read⟩ | ⟨own,multi,tracks,read,yielded⟩
  · rcases visits_read disk u other _ _ _ looks' with ⟨_,_,read'⟩ | ⟨_,multi,_⟩
    · rw [readSingleTrackFile_tags read read']
    · exact absurd (kind'.mpr (kind.mp single)) multi
  · rcases visits_read disk u other _ _ _ looks' with ⟨single,_⟩ | ⟨own',multi',tracks',read',yielded'⟩
    · exact absurd (kind.mpr (kind'.mp single)) multi
    · cases read.symm.trans read'
      have same : track.trackNumber = track'.trackNumber := by
        rw [← own,← own',← numbered.resolve_left multi,← numbered'.resolve_left multi']
      rw [readMultipleTrackFile_numbers read yielded yielded' same]

theorem look_text {n : Notes} {v : Visit} {key : Nat} {text : Option String}
    (noted : n.text key = some text)
    (same : ∀ path track number row, v.check = some (path,track,number) →
      existingTrack s path number = some row → row.id = key → track.artistText = text) :
    (n.look s v).text key = some text := by
  have finds {path : String} {track : Track} {number : Option Int}
      (looks : v.check = some (path,track,number)) :
      (n.find track (existingTrack s path number)).text key = some text := by
    cases found : existingTrack s path number with
    | none => exact noted
    | some row =>
      unfold Notes.find
      dsimp only
      by_cases here : key = row.id
      · rw [here,Function.update_self,same path track number row looks found here.symm]
      · rw [Function.update_of_ne here]
        exact noted
  cases v with
  | enter | leave | bad | opened | closed => exact noted
  | image path =>
    unfold Notes.look
    dsimp only
    split <;> exact noted
  | single path track => exact finds rfl
  | numbered path track => exact finds rfl

/-- At the end the text noted for a track is the one that its file gives. -/
theorem visits_text {disk : Storage} {n : Notes} {v : Visit} (distinct : Distinct s.tracks)
    (listed : v ∈ disk.visits) {path : String} {track : Track} {number : Option Int} {row : TrackRow}
    (looks : v.check = some (path,track,number)) (found : existingTrack s path number = some row) :
    (disk.visits.foldl (Notes.look s) n).text row.id = some track.artistText := by
  have agree {u : Visit} (other : u ∈ disk.visits) : ∀ path' track' number' row',
      u.check = some (path',track',number') → existingTrack s path' number' = some row' →
        row'.id = row.id → track'.artistText = track.artistText := by
    intro path' track' number' row' looks' found' same
    cases distinct_inj distinct (existingTrack_spec found').1 (existingTrack_spec found).1 same
    exact visits_agree other listed looks' looks found' found
  have kept (rest : List Visit) (inside : ∀ u ∈ rest, u ∈ disk.visits) (n : Notes)
      (noted : n.text row.id = some track.artistText) :
      (rest.foldl (Notes.look s) n).text row.id = some track.artistText := by
    induction rest generalizing n with
    | nil => exact noted
    | cons u rest ih =>
      apply ih fun later among => inside later (.tail _ among)
      exact look_text noted (agree (inside u List.mem_cons_self))
  obtain ⟨before,after,parts⟩ := List.append_of_mem listed
  have first (m : Notes) : (m.look s v).text row.id = some track.artistText := by
    cases v with
    | single | numbered =>
      cases looks
      unfold Notes.look
      dsimp only
      rw [found]
      exact Function.update_self ..
    | _ => cases looks
  rw [parts,List.foldl_append,List.foldl_cons]
  apply kept after _ _ (first _)
  intro u among
  rw [parts]
  exact List.mem_append_right _ (.tail _ among)

end Texts

def Storage.shown (disk : Storage) (s : Store) : Nat → Option String :=
  (disk.visits.foldl (Notes.look s) ⟨[],fun _ => none,fun _ => none⟩).art

/-- The tracks and the images that the walk meets are those that are stored. -/
structure Current (disk : Storage) (s : Store) : Prop where
  tracks : ∀ v ∈ disk.visits, UpToDate s v
  images : ∀ row ∈ s.games, disk.shown s row.id = none ∨ disk.shown s row.id = row.artLocal

/-- A scan leaves a swept library as it is and reports nothing exactly when it is current. -/
theorem rescan_iff {mode : Iteration} {disk : Storage} {s : Store} (distinct : Distinct s.tracks)
    (swept : s.Swept disk.fileExists) (present : disk.getFolders ≠ none) :
    (∃ u, scanLibrary mode disk s = some u ∧ u.store = s ∧ u.Silent) ↔ Current disk s := by
  obtain ⟨folders,listed⟩ := Option.ne_none_iff_exists'.mp present
  have walk : Run.exec (visit mode) ⟨⟨s,[]⟩,[],[]⟩ disk.visits =
      (scanFolders mode disk.readers ⟨s,[]⟩ folders).map fun s => ⟨s,[],[]⟩ := by
    unfold Storage.visits
    rw [listed,Option.getD_some,scanFolders_exec]
  have scans : scanLibrary mode disk s =
      (scanFolders mode disk.readers ⟨s,[]⟩ folders).bind (sweep disk.fileExists) := by
    unfold scanLibrary
    rw [listed,Option.bind_some]
  have start : Follows s ⟨[],fun _ => none,fun _ => none⟩ ⟨⟨s,[]⟩,[],[]⟩ :=
    ⟨(written_none s).symm,rfl,rfl⟩
  have quiet : Scan.Silent ⟨s,[]⟩ := fun _ reported => (List.not_mem_nil reported).elim
  constructor
  · rintro ⟨u,scanned,same,silent⟩
    rw [scans] at scanned
    obtain ⟨x,walked,sweeps⟩ := Option.bind_eq_some_iff.mp scanned
    rw [walked] at walk
    have calm : ¬ (⟨x,[],[]⟩ : Walk).Spoilt :=
      Walk.calm_iff.mpr ⟨silent.before (sweep_events sweeps),rfl⟩
    obtain ⟨finds,follows⟩ := visits_follow distinct start walk calm
    have still : x.store.Swept disk.fileExists := follows.store ▸ written_swept swept
    cases (sweep_swept still).symm.trans sweeps
    obtain ⟨images,own⟩ := written_eq_iff.mp (follows.store.symm.trans same)
    refine ⟨?_,images⟩
    intro v met path track number looks
    obtain ⟨row,found,alike,ingame,fits⟩ := finds v met path track number looks
    refine ⟨row,found,alike,?_,ingame,fits⟩
    have noted := @visits_text s disk ⟨[],fun _ => none,fun _ => none⟩ v distinct met path track
      number row looks found
    rcases own row (existingTrack_spec found).1 with none | some
    · cases none.symm.trans noted
    · exact Option.some.inj (some.symm.trans noted)
  · intro current
    obtain ⟨w,run,calm,own⟩ := visits_calm mode distinct start (fun _ _ => .inl rfl) quiet current.tracks
    rw [walk] at run
    obtain ⟨x,walked,rfl⟩ := Option.map_eq_some_iff.mp run
    rw [walked] at walk
    obtain ⟨_,follows⟩ := visits_follow distinct start walk calm
    have still : x.store = s := follows.store.trans (written_eq_iff.mpr ⟨current.images,own⟩)
    refine ⟨x,?_,still,(Walk.calm_iff.mp calm).1⟩
    rw [scans,walked]
    exact sweep_swept (still ▸ swept)

/-- A scan that follows a scan leaves the library as it was and reports nothing exactly when
the first has brought it up to date. -/
theorem scan_idempotent_iff {mode : Iteration} {disk : Storage} {s : Store} (keyed : s.Keyed) {t : Scan}
    (scanned : scanLibrary mode disk s = some t) :
    (∃ u, scanLibrary mode disk t.store = some u ∧ u.store = t.store ∧ u.Silent) ↔
      Current disk t.store := by
  unfold scanLibrary at scanned
  obtain ⟨folders,listed,scanned⟩ := Option.bind_eq_some_iff.mp scanned
  obtain ⟨x,walked,swept⟩ := Option.bind_eq_some_iff.mp scanned
  have run : Run.exec (visit mode) ⟨⟨s,[]⟩,[],[]⟩ disk.visits = some ⟨x,[],[]⟩ := by
    unfold Storage.visits
    rw [listed,Option.getD_some,scanFolders_exec,walked]
    rfl
  have distinct : Distinct x.store.tracks := by
    have faced := (visits_faced (visits_spec disk).2 keyed.faced run).distinct
    rw [faces_keys] at faced
    exact faced
  apply rescan_iff (sweep_distinct distinct swept) (swept_sweep swept)
  rw [listed]
  exact nofun

/-- A scan of one new file is followed by a scan with nothing to report. -/
theorem scan_idempotent_iff_one :
    let disk : Storage := ⟨some [.folder "/storage/a" [.file "/storage/a/x.spc"]],none,none,
      fun _ => some ⟨1,fun _ => ⟨some "Super NES",some "A",some "T",some "G",1000,0,0⟩⟩,fun _ => true,
      fun _ _ _ _ => rfl⟩
    ∃ t, scanLibrary .failFast disk .empty = some t ∧ Current disk t.store ∧
      ∃ u, scanLibrary .failFast disk t.store = some u ∧ u.store = t.store ∧ u.Silent := by
  intro disk
  have evaluated : ((scanLibrary .failFast disk .empty).bind fun t =>
      (scanLibrary .failFast disk t.store).map fun u =>
        decide (u.store = t.store ∧ ∀ event ∈ u.events, event.quiet = true)) = some true := by
    decide +kernel
  obtain ⟨t,scanned,again⟩ := Option.bind_eq_some_iff.mp evaluated
  obtain ⟨u,rescanned,quiet⟩ := Option.map_eq_some_iff.mp again
  obtain ⟨same,silent⟩ := of_decide_eq_true quiet
  have idempotent : ∃ u, scanLibrary .failFast disk t.store = some u ∧ u.store = t.store ∧ u.Silent :=
    ⟨u,rescanned,same,silent⟩
  exact ⟨t,scanned,(scan_idempotent_iff Store.empty_sound.keyed scanned).mp idempotent,idempotent⟩

/-- A file whose game title has changed is reported as updated by every scan: the track goes to
the other game but keeps the title of the first. -/
theorem updated_again :
    let info (game : String) : FileInfo :=
      ⟨1,fun _ => ⟨some "Super NES",some "A",some "T",some game,1000,0,0⟩⟩
    let disk (game : String) : Storage := ⟨some [.folder "/storage/a" [.file "/storage/a/x.spc"]],none,none,
      fun _ => some (info game),fun _ => true,fun _ _ _ _ => rfl⟩
    ((scanLibrary .failFast (disk "Old") .empty).bind fun s =>
      (scanLibrary .failFast (disk "New") s.store).bind fun t =>
        (scanLibrary .failFast (disk "New") t.store).map fun u => u.events) =
          some [.folder "a",.updatedTrack "T"] := by
  decide +kernel

end Chipbox.Library
