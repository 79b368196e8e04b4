import Chipbox.Library.Faces
import Chipbox.Library.Walk

/-! Which of the tracks that a scan meets are in the library when it is through. -/
namespace Chipbox.Library
open Table

/-- A track by its file and, in a file of several, its number. -/
structure Identity where
  path : String
  number : Option Int
  deriving DecidableEq, Repr

def Identity.Carries (i : Identity) (place : Option String × Option Int) : Prop :=
  place.1 = some i.path ∧ (i.number = none ∨ place.2 = i.number)

instance (i : Identity) (place : Option String × Option Int) : Decidable (i.Carries place) :=
  inferInstanceAs (Decidable (_ ∧ _))

def Track.place (track : Track) : Option String × Option Int := (track.path,track.trackNumber)

def Store.Represents (s : Store) (i : Identity) : Prop := ∃ face ∈ s.faces, i.Carries face.2

instance (s : Store) (i : Identity) : Decidable (s.Represents i) :=
  inferInstanceAs (Decidable (∃ face ∈ s.faces, _))

def yields (readers : Readers) (path : String) : List Identity :=
  if extension path = "" then []
  else if (extensionsMusic.lookup (extension path)).isSome then
    if extension path ∈ extensionsMultiTrack then
      ((readMultipleTrackFile readers path).getD []).map fun track => ⟨path,track.trackNumber⟩
    else if (readSingleTrackFile readers path 0).isSome then [⟨path,none⟩] else []
  else []

def Storage.yields (disk : Storage) : List Identity :=
  ((disk.getFolders.getD []).flatMap Entry.met).flatMap (Library.yields disk.readers)

namespace Visit

def check : Visit → Option (String × Track × Option Int)
  | .single path track => some (path,track,none)
  | .numbered path track => some (path,track,track.trackNumber)
  | _ => none

def identity (v : Visit) : Option Identity := v.check.map fun (path,_,number) => ⟨path,number⟩

def Genuine (v : Visit) : Prop := ∀ path track number, v.check = some (path,track,number) →
  track.path = some path ∧ (number = none ∨ track.trackNumber = number) ∧
    (number = none ↔ extension path ∉ extensionsMultiTrack)

end Visit

namespace Walk

def Present (w : Walk) (i : Identity) : Prop :=
  w.scan.store.Represents i ∨ ∃ track ∈ w.newTracks, i.Carries track.place

/-- The visit takes the only stored track of a file and number for one that has moved. -/
def Takes (w : Walk) (v : Visit) (i : Identity) : Prop :=
  ∃ path track number moved, v.check = some (path,track,number) ∧
    existingTrack w.scan.store path number = none ∧ movedTrack w.scan.store track = some moved ∧
    i.Carries (moved.path,moved.trackNumber) ∧ ¬ i.Carries track.place ∧
    (∀ face ∈ w.scan.store.faces, i.Carries face.2 → face.1 = moved.id) ∧
    ∀ other ∈ w.newTracks, ¬ i.Carries other.place

end Walk

structure Store.Faced (s : Store) : Prop where
  distinct : (s.faces.map Prod.fst).Nodup
  below : ∀ face ∈ s.faces, face.1 < s.nextId

theorem faces_keys (s : Store) : s.faces.map Prod.fst = s.tracks.map Row.key := by
  unfold Store.faces
  rw [List.map_map]
  rfl

theorem Store.Keyed.faced {s : Store} (keyed : s.Keyed) : s.Faced := by
  constructor
  · rw [faces_keys]
    exact keyed.tracks
  · intro face listed
    obtain ⟨row,stored,rfl⟩ := List.mem_map.mp listed
    exact keyed.tracksBelow row stored

def replace (key : Nat) (place : Option String × Option Int) (face : Nat × Option String × Option Int) :
    Nat × Option String × Option Int :=
  if face.1 = key then (face.1,place) else face

theorem represents_replaced {s t : Store} {row : TrackRow} {place : Option String × Option Int}
    (stored : row ∈ s.tracks) (faces : t.faces = s.faces.map (replace row.id place)) (i : Identity) :
    t.Represents i ↔ i.Carries place ∨ ∃ face ∈ s.faces, face.1 ≠ row.id ∧ i.Carries face.2 := by
  unfold Store.Represents
  rw [faces]
  constructor
  · rintro ⟨face,listed,carries⟩
    obtain ⟨old,before,rfl⟩ := List.mem_map.mp listed
    unfold replace at carries
    split at carries
    · exact .inl carries
    next other => exact .inr ⟨old,before,other,carries⟩
  · rintro (carries | ⟨face,listed,other,carries⟩)
    · have mine : Store.face row ∈ s.faces := List.mem_map.mpr ⟨row,stored,rfl⟩
      refine ⟨_,List.mem_map.mpr ⟨_,mine,rfl⟩,?_⟩
      have key : (Store.face row).1 = row.id := rfl
      unfold replace
      rw [if_pos key]
      exact carries
    · refine ⟨face,List.mem_map.mpr ⟨face,listed,?_⟩,carries⟩
      unfold replace
      rw [if_neg other]

theorem Store.Faced.replaced {s t : Store} (faced : s.Faced) {key : Nat}
    {place : Option String × Option Int} (faces : t.faces = s.faces.map (replace key place))
    (grows : s.nextId ≤ t.nextId) : t.Faced := by
  have keys (face : Nat × Option String × Option Int) : (replace key place face).1 = face.1 := by
    unfold replace
    split <;> rfl
  constructor
  · rw [faces,List.map_map]
    have same : Prod.fst ∘ replace key place = Prod.fst := funext keys
    rw [same]
    exact faced.distinct
  · intro face listed
    rw [faces] at listed
    obtain ⟨old,before,rfl⟩ := List.mem_map.mp listed
    rw [keys]
    exact Nat.lt_of_lt_of_le (faced.below old before) grows

theorem Store.Faced.same {s : Store} (faced : s.Faced) {row : TrackRow} (stored : row ∈ s.tracks)
    {face : Nat × Option String × Option Int} (listed : face ∈ s.faces) (key : face.1 = row.id) :
    face = Store.face row := by
  have mine : Store.face row ∈ s.faces := List.mem_map.mpr ⟨row,stored,rfl⟩
  exact List.inj_on_of_nodup_map faced.distinct listed mine key

theorem existingTrack_spec {s : Store} {path : String} {number : Option Int} {row : TrackRow}
    (existing : existingTrack s path number = some row) :
    row ∈ s.tracks ∧ row.path = some path ∧ (number = none ∨ row.trackNumber = number) := by
  unfold existingTrack Store.getTrackFromPath Store.getTrackFromPathAndNumber at existing
  split at existing
  next none =>
    exact ⟨List.mem_of_find?_eq_some existing,by simpa using List.find?_some existing,.inl none⟩
  next =>
    have found := List.find?_some existing
    simp only [decide_eq_true_eq] at found
    exact ⟨List.mem_of_find?_eq_some existing,found.1,.inr found.2⟩

theorem movedTrack_stored {s : Store} {track : Track} {row : TrackRow}
    (moved : movedTrack s track = some row) : row ∈ s.tracks := by
  obtain ⟨_,_,found⟩ := Option.bind_eq_some_iff.mp moved
  exact List.mem_of_find?_eq_some found

theorem scan_updateTrack_faces {mode : Iteration} {s t : Scan} {row : TrackRow} {track : Track}
    {changed : Bool} (updated : s.updateTrack mode row track = some (t,changed)) :
    t.store.faces = s.store.faces.map (replace row.id track.place) ∧ s.store.nextId ≤ t.store.nextId := by
  obtain ⟨store,stepped,rfl⟩ := Scan.updateTrack_store updated
  exact Store.updateTrack_faces stepped

/-- What a look-up does: it updates the track found by path and number, else the one found by
its titles, else nothing. -/
theorem check_cases {mode : Iteration} {s t : Scan} {path : String} {track : Track}
    {number : Option Int} {game : Option Nat}
    (checked : checkForExistingTrack mode s path track number = some (t,game)) :
    (∃ row, existingTrack s.store path number = some row ∧
      t.store.faces = s.store.faces.map (replace row.id track.place) ∧ s.store.nextId ≤ t.store.nextId) ∨
    (∃ row, existingTrack s.store path number = none ∧ movedTrack s.store track = some row ∧
      t.store.faces = s.store.faces.map (replace row.id track.place) ∧ s.store.nextId ≤ t.store.nextId) ∨
    (existingTrack s.store path number = none ∧ movedTrack s.store track = none ∧ t = s ∧ game = none) := by
  rcases checkForExistingTrack_cases checked with ⟨row,u,changed,existing,updated,reported,_⟩ |
    ⟨row,u,_,absent,moved,updated,reported,_⟩ | still
  · refine .inl ⟨row,existing,?_⟩
    have faces := scan_updateTrack_faces updated
    split at reported
    · obtain ⟨_,_,rfl⟩ := Option.map_eq_some_iff.mp reported
      exact faces
    · cases reported
      exact faces
  · refine .inr (.inl ⟨row,absent,moved,?_⟩)
    have faces := scan_updateTrack_faces updated
    obtain ⟨_,_,rfl⟩ := Option.map_eq_some_iff.mp reported
    exact faces
  · exact .inr (.inr still)

/-- One more track represents what was represented and what the track carries. -/
theorem represents_appended {s t : Store} {face : Nat × Option String × Option Int}
    (faces : t.faces = s.faces ++ [face]) (i : Identity) :
    t.Represents i ↔ s.Represents i ∨ i.Carries face.2 := by
  unfold Store.Represents
  rw [faces]
  simp only [List.mem_append,List.mem_singleton]
  constructor
  · rintro ⟨other,listed | rfl,carries⟩
    · exact .inl ⟨other,listed,carries⟩
    · exact .inr carries
  · rintro (⟨other,listed,carries⟩ | carries)
    · exact ⟨other,.inl listed,carries⟩
    · exact ⟨face,.inr rfl,carries⟩

theorem Store.Faced.added {s : Store} (faced : s.Faced) (track : Track) : (s.addTrack track).2.Faced := by
  obtain ⟨faces,grows⟩ := Store.addTrack_faces s track
  constructor
  · rw [faces,List.map_append,List.nodup_append]
    refine ⟨faced.distinct,List.nodup_singleton _,?_⟩
    intro key listed other last same
    obtain ⟨face,stored,rfl⟩ := List.mem_map.mp listed
    rw [List.map_singleton,List.mem_singleton] at last
    have below := faced.below face stored
    omega
  · intro face listed
    rw [faces,List.mem_append,List.mem_singleton] at listed
    rcases listed with stored | rfl
    · exact Nat.lt_trans (faced.below face stored) grows
    · exact grows

/-- After a look-up the identity is represented by the track's own place or as before, unless
its only track was taken. -/
theorem check_represents {mode : Iteration} {w : Walk} {v : Visit} {t : Scan} {path : String}
    {track : Track} {number : Option Int} {game : Option Nat} {i : Identity}
    (faced : w.scan.store.Faced) (looks : v.check = some (path,track,number))
    (checked : checkForExistingTrack mode w.scan path track number = some (t,game))
    (own : ∀ row, existingTrack w.scan.store path number = some row →
      i.Carries (row.path,row.trackNumber) → i.Carries track.place) :
    t.store.Faced ∧ (game ≠ none → i.Carries track.place → t.store.Represents i) ∧
      ((t.store.Represents i ∨ i.Carries track.place ∨
        ∃ other ∈ w.newTracks, i.Carries other.place) ↔
      (i.Carries track.place ∨ (w.Present i ∧ ¬ w.Takes v i))) := by
  rcases check_cases checked with ⟨row,existing,faces,grows⟩ | ⟨row,absent,moved,faces,grows⟩ |
    ⟨absent,still,rfl,gameless⟩
  · have stored := (existingTrack_spec existing).1
    have untaken : ¬ w.Takes v i := by
      rintro ⟨_,_,_,_,looked,absent,_⟩
      cases looks.symm.trans looked
      cases existing.symm.trans absent
    refine ⟨faced.replaced faces grows,
      fun _ carries => (represents_replaced stored faces i).mpr (.inl carries),?_⟩
    rw [represents_replaced stored faces]
    constructor
    · rintro ((carries | ⟨face,listed,_,carries⟩) | carries | waits)
      · exact .inl carries
      · exact .inr ⟨.inl ⟨face,listed,carries⟩,untaken⟩
      · exact .inl carries
      · exact .inr ⟨.inr waits,untaken⟩
    · rintro (carries | ⟨⟨face,listed,carries⟩ | waits,_⟩)
      · exact .inr (.inl carries)
      · by_cases key : face.1 = row.id
        · rw [faced.same stored listed key] at carries
          exact .inr (.inl (own row existing carries))
        · exact .inl (.inr ⟨face,listed,key,carries⟩)
      · exact .inr (.inr waits)
  · have stored := movedTrack_stored moved
    refine ⟨faced.replaced faces grows,
      fun _ carries => (represents_replaced stored faces i).mpr (.inl carries),?_⟩
    rw [represents_replaced stored faces]
    constructor
    · rintro ((carries | ⟨face,listed,other,carries⟩) | carries | waits)
      · exact .inl carries
      · refine .inr ⟨.inl ⟨face,listed,carries⟩,?_⟩
        rintro ⟨_,_,_,taken,looked,_,found,_,_,only,_⟩
        cases looks.symm.trans looked
        cases moved.symm.trans found
        exact other (only face listed carries)
      · exact .inl carries
      · refine .inr ⟨.inr waits,?_⟩
        rintro ⟨_,_,_,_,_,_,_,_,_,_,none⟩
        obtain ⟨other,waiting,carries⟩ := waits
        exact none other waiting carries
    · rintro (carries | ⟨present,untaken⟩)
      · exact .inr (.inl carries)
      · by_contra lost
        simp only [not_or,not_exists,not_and] at lost
        obtain ⟨⟨_,nowhere⟩,unlike,unwaiting⟩ := lost
        rcases present with ⟨face,listed,carries⟩ | ⟨other,waiting,carries⟩
        · have key : face.1 = row.id := by
            by_contra other
            exact nowhere face listed other carries
          rw [faced.same stored listed key] at carries
          refine untaken ⟨path,track,number,row,looks,absent,moved,carries,unlike,?_,unwaiting⟩
          intro face listed carries
          by_contra other
          exact nowhere face listed other carries
        · exact unwaiting other waiting carries
  · have untaken : ¬ w.Takes v i := by
      rintro ⟨_,_,_,_,looked,_,found,_⟩
      cases looks.symm.trans looked
      cases still.symm.trans found
    refine ⟨faced,fun game => absurd gameless game,?_⟩
    constructor
    · rintro (represented | carries | waits)
      · exact .inr ⟨.inl represented,untaken⟩
      · exact .inl carries
      · exact .inr ⟨.inr waits,untaken⟩
    · rintro (carries | ⟨represented | waits,_⟩)
      · exact .inr (.inl carries)
      · exact .inl represented
      · exact .inr (.inr waits)

theorem addTracks_represents {s : Store} (faced : s.Faced) (game : Option Nat) (tracks : List Track)
    (i : Identity) : (addTracks s game tracks).1.Faced ∧ ((addTracks s game tracks).1.Represents i ↔
      s.Represents i ∨ ∃ track ∈ tracks, i.Carries track.place) := by
  induction tracks generalizing s game with
  | nil => exact ⟨faced,by simp [addTracks]⟩
  | cons track rest ih =>
    obtain ⟨added,represents⟩ := ih (faced.added track) (some (s.addTrack track).1)
    refine ⟨added,?_⟩
    change (addTracks (s.addTrack track).2 _ rest).1.Represents i ↔ _
    rw [represents,represents_appended (Store.addTrack_faces s track).1]
    simp only [List.mem_cons,exists_eq_or_imp]
    exact or_assoc

section Places
variable {v : Visit} {path : String} {track : Track} {number : Option Int} {i : Identity}

theorem carries_own (genuine : v.Genuine) (looks : v.check = some (path,track,number))
    (kind : i.number = none ↔ extension i.path ∉ extensionsMultiTrack) :
    i.Carries track.place ↔ v.identity = some i := by
  obtain ⟨named,numbered,single⟩ := genuine path track number looks
  have identity : v.identity = some ⟨path,number⟩ := by
    unfold Visit.identity
    rw [looks]
    rfl
  rw [identity]
  constructor
  · rintro ⟨same,alike⟩
    have paths : path = i.path := Option.some.inj (named.symm.trans same)
    subst paths
    have numbers : number = i.number := by
      rcases alike with none | equal
      · rw [none]
        exact single.mpr (kind.mp none)
      · rcases numbered with none | own
        · rw [none]
          exact (kind.mpr (single.mp none)).symm
        · exact own.symm.trans equal
    subst numbers
    rfl
  · intro same
    cases same
    exact ⟨named,numbered⟩

theorem existing_own (genuine : v.Genuine) (looks : v.check = some (path,track,number))
    (kind : i.number = none ↔ extension i.path ∉ extensionsMultiTrack) {s : Store} {row : TrackRow}
    (existing : existingTrack s path number = some row)
    (carries : i.Carries (row.path,row.trackNumber)) : i.Carries track.place := by
  obtain ⟨named,numbered,single⟩ := genuine path track number looks
  obtain ⟨_,found,foundNumber⟩ := existingTrack_spec existing
  have paths : path = i.path := Option.some.inj (found.symm.trans carries.1)
  subst paths
  refine ⟨named,?_⟩
  rcases numbered with none | own
  · exact .inl (kind.mpr (single.mp none))
  · rcases foundNumber with none | same
    · exact .inl (kind.mpr (single.mp none))
    · rcases carries.2 with none | equal
      · exact .inl none
      · exact .inr (own.trans (same.symm.trans equal))

end Places

theorem Walk.takes_looks {w : Walk} {v : Visit} {i : Identity} (takes : w.Takes v i) :
    v.check ≠ none := by
  obtain ⟨_,_,_,_,looks,_⟩ := takes
  rw [looks]
  exact nofun

/-- A visit that finds its track leaves that track in place of what it takes. -/
theorem found_present {mode : Iteration} {w : Walk} {v : Visit} {path : String} {track : Track}
    {number : Option Int} {i : Identity} {s : Scan} {game : Nat} (faced : w.scan.store.Faced)
    (genuine : v.Genuine) (looks : v.check = some (path,track,number))
    (kind : i.number = none ↔ extension i.path ∉ extensionsMultiTrack)
    (checked : checkForExistingTrack mode w.scan path track number = some (s,some game)) :
    (w.go s (some game)).scan.store.Faced ∧ ((w.go s (some game)).Present i ↔
      v.identity = some i ∨ (w.Present i ∧ ¬ w.Takes v i)) := by
  obtain ⟨kept,placed,present⟩ := check_represents faced looks checked
    (fun row existing => existing_own genuine looks kind existing)
  refine ⟨kept,?_⟩
  rw [← carries_own genuine looks kind,← present]
  constructor
  · exact Or.imp id .inr
  · rintro (represented | carries | waits)
    · exact .inl represented
    · exact .inl (placed nofun carries)
    · exact .inr waits

theorem single_present {mode : Iteration} {w w' : Walk} {path : String} {track : Track} {i : Identity}
    (faced : w.scan.store.Faced) (genuine : (Visit.single path track).Genuine)
    (kind : i.number = none ↔ extension i.path ∉ extensionsMultiTrack)
    (taken : visit mode w (.single path track) = some w') : w'.scan.store.Faced ∧
      (w'.Present i ↔ Visit.identity (.single path track) = some i ∨
        (w.Present i ∧ ¬ w.Takes (.single path track) i)) := by
  have looks : (Visit.single path track).check = some (path,track,none) := rfl
  obtain ⟨s,game,checked,rfl⟩ | ⟨s,title,checked,rfl⟩ := visit_single taken
  · exact found_present faced genuine looks kind checked
  · obtain ⟨kept,_,present⟩ := check_represents faced looks checked
      (fun row existing => existing_own genuine looks kind existing)
    refine ⟨kept.added track,?_⟩
    rw [← carries_own genuine looks kind,← present]
    have appended := represents_appended (Store.addTrack_faces s.store track).1 i
    constructor
    · rintro (represented | waits)
      · exact (appended.mp represented).imp id .inl
      · exact .inr (.inr waits)
    · rintro (represented | carries | waits)
      · exact .inl (appended.mpr (.inl represented))
      · exact .inl (appended.mpr (.inr carries))
      · exact .inr waits

theorem numbered_present {mode : Iteration} {w w' : Walk} {path : String} {track : Track} {i : Identity}
    (faced : w.scan.store.Faced) (genuine : (Visit.numbered path track).Genuine)
    (kind : i.number = none ↔ extension i.path ∉ extensionsMultiTrack)
    (taken : visit mode w (.numbered path track) = some w') : w'.scan.store.Faced ∧
      (w'.Present i ↔ Visit.identity (.numbered path track) = some i ∨
        (w.Present i ∧ ¬ w.Takes (.numbered path track) i)) := by
  have looks : (Visit.numbered path track).check = some (path,track,track.trackNumber) := rfl
  obtain ⟨s,game,checked,rfl⟩ | ⟨s,checked,rfl⟩ := visit_numbered taken
  · exact found_present faced genuine looks kind checked
  · obtain ⟨kept,_,present⟩ := check_represents faced looks checked
      (fun row existing => existing_own genuine looks kind existing)
    refine ⟨kept,?_⟩
    rw [← carries_own genuine looks kind,← present]
    apply or_congr Iff.rfl
    simp only [List.mem_append,List.mem_singleton,or_and_right,exists_or,exists_eq_left]
    exact or_comm

theorem closed_present {mode : Iteration} {w w' : Walk} {name : String}
    (faced : w.scan.store.Faced) (taken : visit mode w (.closed name) = some w') (i : Identity) :
    w'.scan.store.Faced ∧ (w'.Present i ↔ w.Present i) := by
  obtain ⟨store,waiting,_⟩ := visit_closed taken
  obtain ⟨kept,represents⟩ := addTracks_represents faced w.current w.newTracks i
  refine ⟨store ▸ kept,?_⟩
  unfold Walk.Present
  rw [store,waiting,represents]
  simp

/-- What is present after a visit: the track it looks up, and what was, but for what it takes. -/
theorem visit_present {mode : Iteration} {w w' : Walk} {v : Visit} {i : Identity}
    (faced : w.scan.store.Faced) (genuine : v.Genuine)
    (kind : i.number = none ↔ extension i.path ∉ extensionsMultiTrack)
    (taken : visit mode w v = some w') : w'.scan.store.Faced ∧
      (w'.Present i ↔ v.identity = some i ∨ (w.Present i ∧ ¬ w.Takes v i)) := by
  have idle (unlooked : v.check = none) : v.identity = none ∧ ¬ w.Takes v i := by
    refine ⟨?_,fun takes => Walk.takes_looks takes unlooked⟩
    unfold Visit.identity
    rw [unlooked]
    rfl
  have quiet (unlooked : v.check = none) (store : w'.scan.store.faces = w.scan.store.faces)
      (grows : w.scan.store.nextId ≤ w'.scan.store.nextId) (waiting : w'.newTracks = w.newTracks) :
      w'.scan.store.Faced ∧ (w'.Present i ↔ v.identity = some i ∨ (w.Present i ∧ ¬ w.Takes v i)) := by
    obtain ⟨unnamed,untaken⟩ := idle unlooked
    refine ⟨⟨store ▸ faced.distinct,fun face listed => ?_⟩,?_⟩
    · exact Nat.lt_of_lt_of_le (faced.below face (store ▸ listed)) grows
    · unfold Walk.Present Store.Represents
      rw [store,waiting,unnamed]
      simp [untaken]
  cases v with
  | enter | leave | bad | opened =>
    cases taken
    exact quiet rfl rfl (Nat.le_refl _) rfl
  | image path =>
    obtain ⟨_,rfl⟩ | ⟨game,_,rfl⟩ := visit_image taken
    · exact quiet rfl rfl (Nat.le_refl _) rfl
    · have kept := Store.modifyGame_kept w.scan.store game fun row => {row with
        artLocal := some (artLocal path)}
      exact quiet rfl kept.faces kept.grows rfl
  | closed name =>
    obtain ⟨unnamed,untaken⟩ := idle rfl
    have closed := closed_present faced taken i
    refine ⟨closed.1,?_⟩
    rw [closed.2,unnamed]
    simp [untaken]
  | single path track => exact single_present faced genuine kind taken
  | numbered path track => exact numbered_present faced genuine kind taken

/-- After visits to other tracks an identity is present if it was and none of them takes it. -/
theorem visits_present {mode : Iteration} {i : Identity}
    (kind : i.number = none ↔ extension i.path ∉ extensionsMultiTrack) {rest : List Visit}
    (genuine : ∀ v ∈ rest, v.Genuine) (others : ∀ v ∈ rest, v.identity ≠ some i) {w w' : Walk}
    (faced : w.scan.store.Faced) (run : Run.exec (visit mode) w rest = some w') :
    w'.Present i ↔ w.Present i ∧ Run.Meets (visit mode) (fun w v => ¬ w.Takes v i) w rest := by
  induction rest generalizing w with
  | nil =>
    cases run
    simp
  | cons v rest ih =>
    obtain ⟨middle,taken,run⟩ := Run.exec_cons.mp run
    obtain ⟨kept,present⟩ := visit_present faced (genuine v List.mem_cons_self) kind taken
    have other := others v List.mem_cons_self
    rw [Run.meets_cons taken,ih (fun u later => genuine u (.tail _ later))
      (fun u later => others u (.tail _ later)) kept run,present]
    simp only [other,false_or]
    exact and_assoc

theorem visits_faced {mode : Iteration} {visits : List Visit} (genuine : ∀ v ∈ visits, v.Genuine)
    {w w' : Walk} (faced : w.scan.store.Faced) (run : Run.exec (visit mode) w visits = some w') :
    w'.scan.store.Faced := by
  induction visits generalizing w with
  | nil =>
    cases run
    exact faced
  | cons v rest ih =>
    obtain ⟨middle,taken,run⟩ := Run.exec_cons.mp run
    have kind : (⟨"",none⟩ : Identity).number = none ↔
        extension (⟨"",none⟩ : Identity).path ∉ extensionsMultiTrack := by
      refine iff_of_true rfl ?_
      decide
    have kept := (visit_present faced (genuine v List.mem_cons_self) kind taken).1
    exact ih (fun u later => genuine u (.tail _ later)) kept run

/-- The visits up to the last one to an identity, that one, and the rest. -/
theorem last_visit {visits : List Visit} {i : Identity} (met : ∃ v ∈ visits, v.identity = some i) :
    ∃ before v rest, visits = before ++ v::rest ∧ v.identity = some i ∧
      ∀ u ∈ rest, u.identity ≠ some i := by
  induction visits with
  | nil =>
    obtain ⟨_,listed,_⟩ := met
    cases listed
  | cons v rest ih =>
    by_cases later : ∃ u ∈ rest, u.identity = some i
    · obtain ⟨before,u,after,rfl,named,others⟩ := ih later
      exact ⟨v::before,u,after,rfl,named,others⟩
    · obtain ⟨u,listed,named⟩ := met
      simp only [not_exists,not_and] at later
      rcases List.mem_cons.mp listed with rfl | listed
      · exact ⟨[],u,rest,rfl,named,later⟩
      · exact absurd named (later u listed)

section Sweep

theorem deleteTrack_faces (s : Store) (track : Nat) :
    (s.deleteTrack track).faces = s.faces.filter (fun face => face.1 ≠ track) := by
  unfold Store.faces Store.deleteTrack Table.delete
  rw [List.filter_map]
  rfl

theorem checkGame_faces (s : Store) (game : Nat) : (checkGame s game).faces = s.faces := by
  unfold checkGame
  split
  · rfl
  · split
    · unfold Store.faces Store.deleteGame
      rw [List.map_map]
      rfl
    · rfl

theorem checkArtist_faces (s : Store) (artist : Nat) : (checkArtist s artist).faces = s.faces := by
  unfold checkArtist
  split
  · rfl
  · split
    · unfold Store.faces Store.deleteArtist
      rw [List.map_map]
      rfl
    · rfl

theorem foldl_faces {check : Store → Nat → Store} (kept : ∀ s key, (check s key).faces = s.faces)
    (keys : List Nat) (s : Store) : (keys.foldl check s).faces = s.faces := by
  induction keys generalizing s with
  | nil => rfl
  | cons key rest ih => exact (ih (check s key)).trans (kept s key)

theorem checkTrack_represents {fileExists : String → Bool} {s t : Scan} {track : Nat} {i : Identity}
    (faced : s.store.Faced) (there : fileExists i.path = true)
    (checked : checkTrack fileExists s track = some t) :
    t.store.Faced ∧ (t.store.Represents i ↔ s.store.Represents i) := by
  obtain ⟨rfl,_⟩ | ⟨row,path,_,stored,named,gone,rfl⟩ := checkTrack_cases checked
  · exact ⟨faced,Iff.rfl⟩
  · have faces : (s.store.deleteTrack track).faces = s.store.faces.filter (fun face => face.1 ≠ track) :=
      deleteTrack_faces s.store track
    change (s.store.deleteTrack track).Faced ∧ ((s.store.deleteTrack track).Represents i ↔ _)
    refine ⟨⟨?_,?_⟩,?_⟩
    · rw [faces]
      exact faced.distinct.sublist (List.Sublist.map _ List.filter_sublist)
    · intro face listed
      rw [faces] at listed
      exact faced.below face (List.mem_filter.mp listed).1
    · unfold Store.Represents
      rw [faces]
      constructor
      · rintro ⟨face,listed,carries⟩
        exact ⟨face,(List.mem_filter.mp listed).1,carries⟩
      · rintro ⟨face,listed,carries⟩
        refine ⟨face,List.mem_filter.mpr ⟨listed,?_⟩,carries⟩
        simp only [ne_eq,decide_not,Bool.not_eq_eq_eq_not,Bool.not_true,decide_eq_false_iff_not]
        rintro rfl
        have same := faced.same (row?_mem stored) listed (row?_key stored).symm
        have paths : row.path = some i.path := by
          rw [same] at carries
          exact carries.1
        cases named.symm.trans paths
        exact gone there

theorem checkAllTracks_represents {fileExists : String → Bool} {s t : Scan} {tracks : List Nat}
    {i : Identity} (faced : s.store.Faced) (there : fileExists i.path = true)
    (checked : checkAllTracks fileExists s tracks = some t) :
    t.store.Represents i ↔ s.store.Represents i := by
  induction tracks generalizing s with
  | nil =>
    cases checked
    exact Iff.rfl
  | cons track rest ih =>
    unfold checkAllTracks at checked
    split at checked
    · cases checked
    next passed =>
      obtain ⟨kept,same⟩ := checkTrack_represents faced there passed
      exact (ih kept checked).trans same

/-- The passes that end a scan leave the tracks of the files that exist. -/
theorem sweep_represents {fileExists : String → Bool} {s t : Scan} {i : Identity}
    (faced : s.store.Faced) (there : fileExists i.path = true) (swept : sweep fileExists s = some t) :
    t.store.Represents i ↔ s.store.Represents i := by
  obtain ⟨u,checked,rfl⟩ := Option.map_eq_some_iff.mp swept
  rw [← checkAllTracks_represents faced there checked]
  unfold Store.Represents
  dsimp only
  rw [foldl_faces checkArtist_faces,foldl_faces checkGame_faces]

end Sweep

section Met
variable {readers : Readers}

theorem yields_path {path : String} {i : Identity} (yielded : i ∈ yields readers path) :
    i.path = path := by
  unfold yields at yielded
  split at yielded
  · exact (List.not_mem_nil yielded).elim
  split at yielded
  · split at yielded
    · obtain ⟨track,_,rfl⟩ := List.mem_map.mp yielded
      rfl
    · split at yielded
      · exact congrArg Identity.path (List.mem_singleton.mp yielded)
      · exact (List.not_mem_nil yielded).elim
  · exact (List.not_mem_nil yielded).elim

theorem fileVisits_identities (trackCount : Int) (path : String) :
    (fileVisits readers trackCount path).filterMap Visit.identity = yields readers path := by
  unfold fileVisits yields
  dsimp only
  split
  · rfl
  split
  · split
    · cases readMultipleTrackFile readers path with
      | none => rfl
      | some tracks =>
        dsimp only
        rw [List.filterMap_cons_none rfl,List.filterMap_append,List.filterMap_map]
        have each : Visit.identity ∘ Visit.numbered path = fun track => some ⟨path,track.trackNumber⟩ := rfl
        rw [each,List.filterMap_eq_map']
        simp [Visit.identity,Visit.check]
    · have same : (readSingleTrackFile readers path trackCount).isSome = _ :=
        readSingleTrackFile_isSome path trackCount 0
      cases read : readSingleTrackFile readers path trackCount with
      | none =>
        rw [read] at same
        rw [← same]
        rfl
      | some track =>
        rw [read] at same
        rw [← same]
        rfl
  · split <;> rfl

theorem unlooked {v : Visit} (none : v.check = none) : v.Genuine := by
  intro _ _ _ looks
  cases none.symm.trans looks

/-- The look-ups of a file are those of the tracks that its reader gives. -/
theorem fileVisits_cases {trackCount : Int} {path : String} {v : Visit}
    (listed : v ∈ fileVisits readers trackCount path) : v.check = none ∨
      (extension path ∉ extensionsMultiTrack ∧ ∃ track,
        readSingleTrackFile readers path trackCount = some track ∧ v = .single path track) ∨
      (extension path ∈ extensionsMultiTrack ∧ ∃ tracks, readMultipleTrackFile readers path = some tracks ∧
        ∃ track ∈ tracks, v = .numbered path track) := by
  unfold fileVisits at listed
  dsimp only at listed
  split at listed
  · cases listed
  split at listed
  · split at listed
    next multi =>
      split at listed
      · cases List.mem_singleton.mp listed
        exact .inl rfl
      next tracks read =>
        rcases List.mem_cons.mp listed with rfl | listed
        · exact .inl rfl
        · rcases List.mem_append.mp listed with turn | last
          · obtain ⟨track,yielded,rfl⟩ := List.mem_map.mp turn
            exact .inr (.inr ⟨multi,tracks,read,track,yielded,rfl⟩)
          · cases List.mem_singleton.mp last
            exact .inl rfl
    next single =>
      split at listed
      · cases List.mem_singleton.mp listed
        exact .inl rfl
      next track read =>
        exact .inr (.inl ⟨single,track,read,List.mem_singleton.mp listed⟩)
  · split at listed
    · cases List.mem_singleton.mp listed
      exact .inl rfl
    · cases listed

theorem fileVisits_genuine (trackCount : Int) (path : String) :
    ∀ v ∈ fileVisits readers trackCount path, v.Genuine := by
  intro v listed
  rcases fileVisits_cases listed with none | ⟨single,track,read,rfl⟩ | ⟨multi,tracks,read,track,yielded,rfl⟩
  · exact unlooked none
  · intro _ _ _ looks
    cases looks
    exact ⟨(readSingleTrackFile_path read).1,.inl rfl,iff_of_true rfl single⟩
  · obtain ⟨named,_,numbered⟩ := readMultipleTrackFile_spec read yielded
    intro _ _ _ looks
    cases looks
    refine ⟨named,.inr rfl,iff_of_false ?_ (not_not.mpr multi)⟩
    intro none
    rw [none] at numbered
    cases numbered

mutual
/-- The visits of a folder look up the tracks that the readers yield for the files met. -/
theorem folderVisits_identities : (entry : Entry) →
    (folderVisits readers entry).filterMap Visit.identity = entry.met.flatMap (yields readers)
  | .file _ => by
    unfold folderVisits Entry.met
    rw [List.filterMap_cons_none rfl,List.filterMap_cons_none rfl]
    rfl
  | .folder path children => by
    unfold folderVisits Entry.met
    rw [List.filterMap_cons_none rfl,List.filterMap_append,childVisits_identities 1 children]
    exact List.append_nil _

theorem childVisits_identities (trackCount : Int) : (children : List Entry) →
    (childVisits readers trackCount children).filterMap Visit.identity =
      (Entry.metAmong children).flatMap (yields readers)
  | [] => by
    unfold childVisits Entry.metAmong
    rfl
  | .folder path children::rest => by
    unfold childVisits Entry.metAmong
    split
    · exact childVisits_identities trackCount rest
    · rw [List.filterMap_append,List.flatMap_append,folderVisits_identities (.folder path children),
        childVisits_identities trackCount rest]
  | .file path::rest => by
    unfold childVisits Entry.metAmong
    split
    · exact childVisits_identities trackCount rest
    · rw [List.filterMap_append,List.flatMap_cons,fileVisits_identities,
        childVisits_identities (countAfter readers trackCount path) rest]
end

mutual
/-- What holds of the visits of files, and of those that look nothing up, holds of all. -/
theorem folderVisits_forall {property : Visit → Prop} (idle : ∀ v, v.check = none → property v)
    (files : ∀ trackCount path, ∀ v ∈ fileVisits readers trackCount path, property v) :
    (entry : Entry) → ∀ v ∈ folderVisits readers entry, property v
  | .file _ => by
    unfold folderVisits
    intro v listed
    simp only [List.mem_cons,List.not_mem_nil,or_false] at listed
    rcases listed with rfl | rfl
    · exact idle _ rfl
    · exact idle _ rfl
  | .folder path children => by
    unfold folderVisits
    intro v listed
    rcases List.mem_cons.mp listed with rfl | listed
    · exact idle _ rfl
    · rcases List.mem_append.mp listed with inside | last
      · exact childVisits_forall idle files 1 children v inside
      · rw [List.mem_singleton.mp last]
        exact idle _ rfl

theorem childVisits_forall {property : Visit → Prop} (idle : ∀ v, v.check = none → property v)
    (files : ∀ trackCount path, ∀ v ∈ fileVisits readers trackCount path, property v)
    (trackCount : Int) : (children : List Entry) → ∀ v ∈ childVisits readers trackCount children, property v
  | [] => by
    unfold childVisits
    exact fun v listed => (List.not_mem_nil listed).elim
  | .folder path children::rest => by
    unfold childVisits
    split
    · exact childVisits_forall idle files trackCount rest
    · intro v listed
      rcases List.mem_append.mp listed with inside | after
      · exact folderVisits_forall idle files (.folder path children) v inside
      · exact childVisits_forall idle files trackCount rest v after
  | .file path::rest => by
    unfold childVisits
    split
    · exact childVisits_forall idle files trackCount rest
    · intro v listed
      rcases List.mem_append.mp listed with own | after
      · exact files trackCount path v own
      · exact childVisits_forall idle files (countAfter readers trackCount path) rest v after
end

theorem visits_forall {disk : Storage} {property : Visit → Prop} (idle : ∀ v, v.check = none → property v)
    (files : ∀ trackCount path, ∀ v ∈ fileVisits disk.readers trackCount path, property v) :
    ∀ v ∈ disk.visits, property v := by
  intro v listed
  obtain ⟨folder,_,inside⟩ := List.mem_flatMap.mp listed
  exact folderVisits_forall idle files folder v inside

theorem visits_identities (disk : Storage) :
    disk.visits.filterMap Visit.identity = disk.yields := by
  unfold Storage.visits Storage.yields
  induction disk.getFolders.getD [] with
  | nil => rfl
  | cons folder rest ih =>
    rw [List.flatMap_cons,List.filterMap_append,folderVisits_identities,ih,List.flatMap_cons,
      List.flatMap_append]

theorem visits_spec (disk : Storage) :
    disk.visits.filterMap Visit.identity = disk.yields ∧ ∀ v ∈ disk.visits, v.Genuine :=
  ⟨visits_identities disk,visits_forall (fun _ => unlooked) fileVisits_genuine⟩

end Met

/-- Once the walk has met a track for the last time, no visit takes its only stored track for
one that has moved. -/
def NothingTaken (mode : Iteration) (disk : Storage) (s : Store) : Prop :=
  ∀ i before rest w, disk.visits = before ++ rest → (∃ v ∈ before, v.identity = some i) →
    (∀ v ∈ rest, v.identity ≠ some i) → Run.exec (visit mode) ⟨⟨s,[]⟩,[],[]⟩ before = some w →
    Run.Meets (visit mode) (fun w v => ¬ w.Takes v i) w rest

theorem kind_of_identity {v : Visit} (genuine : v.Genuine) {i : Identity}
    (named : v.identity = some i) : i.number = none ↔ extension i.path ∉ extensionsMultiTrack := by
  obtain ⟨⟨path,track,number⟩,looks,rfl⟩ := Option.map_eq_some_iff.mp named
  exact (genuine path track number looks).2.2

/-- What a scan leaves of a track that it meets, from any point of the walk after the last
time it is met. -/
theorem scan_represents {mode : Iteration} {disk : Storage} {s : Store} (keyed : s.Keyed) {t : Scan}
    (scanned : scanLibrary mode disk s = some t) {i : Identity} {before rest : List Visit}
    (split : disk.visits = before ++ rest) (met : ∃ v ∈ before, v.identity = some i)
    (others : ∀ v ∈ rest, v.identity ≠ some i) :
    ∃ w, Run.exec (visit mode) ⟨⟨s,[]⟩,[],[]⟩ before = some w ∧ (t.store.Represents i ↔
      w.Present i ∧ Run.Meets (visit mode) (fun w v => ¬ w.Takes v i) w rest) := by
  obtain ⟨identities,genuine⟩ := visits_spec disk
  unfold scanLibrary at scanned
  obtain ⟨folders,listed,scanned⟩ := Option.bind_eq_some_iff.mp scanned
  obtain ⟨u,walked,swept⟩ := Option.bind_eq_some_iff.mp scanned
  have run : Run.exec (visit mode) ⟨⟨s,[]⟩,[],[]⟩ disk.visits = some ⟨u,[],[]⟩ := by
    unfold Storage.visits
    rw [listed,Option.getD_some,scanFolders_exec,walked]
    rfl
  have there : disk.fileExists i.path = true := by
    obtain ⟨v,early,named⟩ := met
    have yielded : i ∈ disk.yields := by
      rw [← identities]
      exact List.mem_filterMap.mpr ⟨v,split ▸ List.mem_append_left rest early,named⟩
    unfold Storage.yields at yielded
    obtain ⟨path,visible,own⟩ := List.mem_flatMap.mp yielded
    obtain ⟨folder,among,below⟩ := List.mem_flatMap.mp visible
    rw [yields_path own]
    apply disk.met_exist folder _ path below
    unfold Storage.getFolders at listed among
    obtain ⟨files,present,rfl⟩ := Option.map_eq_some_iff.mp listed
    rw [present] at among ⊢
    exact among
  rw [split] at run genuine
  obtain ⟨w,early,late⟩ := (Run.exec_append before rest).mp run
  refine ⟨w,early,?_⟩
  have earlier : w.scan.store.Faced :=
    visits_faced (fun v first => genuine v (List.mem_append_left rest first)) keyed.faced early
  have last : u.store.Faced := by
    have later := visits_faced (fun v second => genuine v (List.mem_append_right before second)) earlier late
    exact later
  have kind : i.number = none ↔ extension i.path ∉ extensionsMultiTrack := by
    obtain ⟨v,first,named⟩ := met
    exact kind_of_identity (genuine v (List.mem_append_left rest first)) named
  rw [sweep_represents last there swept,← visits_present kind
    (fun v second => genuine v (List.mem_append_right before second)) others earlier late]
  unfold Walk.Present
  simp

/-- A scan that is through has left every track that the readers yield in the library exactly
when it took no track that it had met for one that had moved. -/
theorem scan_complete_iff {mode : Iteration} {disk : Storage} {s : Store} (keyed : s.Keyed) {t : Scan}
    (scanned : scanLibrary mode disk s = some t) :
    (∀ i ∈ disk.yields, t.store.Represents i) ↔ NothingTaken mode disk s := by
  obtain ⟨identities,genuine⟩ := visits_spec disk
  constructor
  · intro complete i before rest w split met others early
    have yielded : i ∈ disk.yields := by
      obtain ⟨v,first,named⟩ := met
      rw [← identities]
      exact List.mem_filterMap.mpr ⟨v,split ▸ List.mem_append_left rest first,named⟩
    obtain ⟨w',early',represents⟩ := scan_represents keyed scanned split met others
    cases early.symm.trans early'
    exact (represents.mp (complete i yielded)).2
  · intro untaken i yielded
    rw [← identities] at yielded
    obtain ⟨v,listed,named⟩ := List.mem_filterMap.mp yielded
    obtain ⟨before,v,rest,split,named,others⟩ := last_visit ⟨v,listed,named⟩
    have parts : disk.visits = (before ++ [v]) ++ rest := by simp [split]
    have met : ∃ u ∈ before ++ [v], u.identity = some i := ⟨v,by simp,named⟩
    obtain ⟨w,early,represents⟩ := scan_represents keyed scanned parts met others
    refine represents.mpr ⟨?_,untaken i _ _ w parts met others early⟩
    obtain ⟨middle,first,last⟩ := (Run.exec_append before [v]).mp early
    rw [Run.exec_singleton] at last
    have own : v.Genuine := genuine v (by simp [split])
    have faced := visits_faced (fun u earlier => genuine u (by simp [split,earlier])) keyed.faced first
    exact (visit_present faced own (kind_of_identity own named) last).2.mpr (.inl named)

/-- Two files of different titles are both in the library after the scan. -/
theorem scan_complete_iff_two :
    let info (title : String) : FileInfo :=
      ⟨1,fun _ => ⟨some "Super NES",some "A",some title,some "G",1000,0,0⟩⟩
    let disk : Storage := ⟨some [.folder "/storage/a" [.file "/storage/a/x.spc",.file "/storage/a/y.spc"]],
      none,none,fun path => some (info path),fun _ => true,fun _ _ _ _ => rfl⟩
    ∃ t, scanLibrary .failFast disk .empty = some t ∧ (∀ i ∈ disk.yields, t.store.Represents i) ∧
      NothingTaken .failFast disk .empty := by
  intro info disk
  have evaluated : (scanLibrary .failFast disk .empty).map
      (fun t => decide (∀ i ∈ disk.yields, t.store.Represents i)) = some true := by decide +kernel
  obtain ⟨t,scanned,complete⟩ := Option.map_eq_some_iff.mp evaluated
  have represented := of_decide_eq_true complete
  exact ⟨t,scanned,represented,(scan_complete_iff Store.empty_sound.keyed scanned).mp represented⟩

/-- Of two files of one title, game and platform the first is lost: the second takes its track. -/
theorem file_lost :
    let reply : ScannerReply := ⟨some "Super NES",some "A",some "T",some "G",1000,0,0⟩
    let disk : Storage := ⟨some [.folder "/storage/a" [.file "/storage/a/x.spc",.file "/storage/a/y.spc"]],
      none,none,fun _ => some ⟨1,fun _ => reply⟩,fun _ => true,fun _ _ _ _ => rfl⟩
    (scanLibrary .failFast disk .empty).map (fun t => t.store.tracks.map fun row => row.path) =
        some [some "/storage/a/y.spc"] ∧
      disk.yields = [⟨"/storage/a/x.spc",none⟩,⟨"/storage/a/y.spc",none⟩] ∧
      (scanLibrary .failFast disk .empty).map
        (fun t => decide (∀ i ∈ disk.yields, t.store.Represents i)) = some false := by
  decide +kernel

end Chipbox.Library
