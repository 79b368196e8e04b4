import Chipbox.Player.Editing
import Chipbox.Player.Tour

/-! The screen that lists the tracks of the playback queue. -/
namespace Chipbox.Player
variable {Id T : Type}

/-- `RealmRepository.getTracksFromIds`: the stored tracks whose id is among the given ones. -/
def getTracksFromIds [DecidableEq Id] (id : T → Id) (store : List T) (trackIds : List (Option Id)) : List T :=
  store.filter fun track => some (id track) ∈ trackIds

/-- `PlaylistFragmentPresenter` once its items are loaded. -/
structure Screen (Id T : Type) where
  list : List T
  queuePosition : Option Int
  oldQueuePosition : Int
  playlist : Playlist Id

inductive Gesture
  | moved (originPos destPos : Int)
  | removed (position : Int)

namespace Screen

def loadItems [DecidableEq Id] (id : T → Id) (store : List T) (playlist : Playlist Id) : Screen Id T :=
  ⟨getTracksFromIds id store playlist.playbackQueue,none,-1,playlist⟩

def onTrackMoved (s : Screen Id T) (originPos destPos : Int) : Option (Screen Id T) :=
  match getAt s.list originPos,getAt s.list destPos with
  | .ok origin,.ok dest =>
    match s.playlist.onTrackMoved originPos destPos with
    | (.error _,_) => none
    | (.ok (),playlist) =>
      let s := {s with
        list := (s.list.set destPos.toNat origin).set originPos.toNat dest, playlist := playlist}
      if some originPos = s.queuePosition then
        some {s with queuePosition := some destPos, oldQueuePosition := destPos}
      else if some destPos = s.queuePosition then
        some {s with queuePosition := some originPos, oldQueuePosition := originPos}
      else some s
  | _,_ => none

def onTrackRemoved (s : Screen Id T) (position : Int) : Option (Screen Id T) :=
  match getAt s.list position with
  | .error _ => none
  | .ok _ =>
    match s.playlist.onTrackRemoved position with
    | (.error _,_) => none
    | (.ok (),playlist) => some {s with list := s.list.eraseIdx position.toNat, playlist := playlist}

def gesture (s : Screen Id T) : Gesture → Option (Screen Id T)
  | .moved originPos destPos => s.onTrackMoved originPos destPos
  | .removed position => s.onTrackRemoved position

/-- `onItemClick`: the id that `Player.play(position)` hands on. -/
def onItemClick (s : Screen Id T) (position : Int) : Except ListError (Option Id) :=
  (s.playlist.playAt position).1

/-- The list shows the tracks of the queue, and a click on one plays it. -/
structure Shows (id : T → Id) (s : Screen Id T) : Prop where
  shown : ∀ i : Nat, (s.list[i]?.map fun track => some (id track)) = s.playlist.playbackQueue[i]?
  plays : ∀ (i : Nat) (track : T), s.list[i]? = some track → s.onItemClick i = .ok (some (id track))

/-- The shown tracks are those of the queue exactly when the ids agree as lists. -/
theorem shows_iff {id : T → Id} {s : Screen Id T} :
    s.Shows id ↔ s.list.map (fun track => some (id track)) = s.playlist.playbackQueue := by
  constructor
  · intro shows
    apply List.ext_getElem?
    intro i
    rw [List.getElem?_map]
    exact shows.shown i
  · intro same
    constructor
    · intro i
      rw [← same,List.getElem?_map]
    · intro i track listed
      have found : s.playlist.playbackQueue[i]? = some (some (id track)) := by
        rw [← same,List.getElem?_map,listed]
        rfl
      obtain ⟨inside,held⟩ := List.getElem?_eq_some_iff.mp found
      have short : ¬ (i : Int) > s.playlist.playbackQueue.length := by omega
      unfold onItemClick Playlist.playAt Playlist.getTrackIdAt
      simp only [if_neg short,Bool.not_true,Bool.and_false,Bool.false_eq_true,if_false,Playlist.getAt_nat inside,held]

theorem getAt_map {α β : Type} {change : α → β} {items : List α} {index : Int} {item : α}
    (read : getAt items index = .ok item) : getAt (items.map change) index = .ok (change item) := by
  have low := (Playlist.getAt_ok read).1
  unfold getAt
  rw [if_neg (by omega),List.getElem?_map,Playlist.entry_of_getAt read]
  rfl

/-- A gesture edits the list and the queue alike. -/
theorem gesture_shows {id : T → Id} {s t : Screen Id T} {made : Gesture} (shows : s.Shows id)
    (taken : s.gesture made = some t) : t.Shows id := by
  rw [shows_iff] at shows ⊢
  cases made with
  | moved originPos destPos =>
    unfold gesture onTrackMoved at taken
    dsimp only at taken
    split at taken
    next origin dest first second =>
      have firstHeld := @getAt_map T (Option Id) (fun track => some (id track)) _ _ _ first
      have secondHeld := @getAt_map T (Option Id) (fun track => some (id track)) _ _ _ second
      rw [shows] at firstHeld secondHeld
      unfold Playlist.onTrackMoved at taken
      simp only [firstHeld,secondHeld] at taken
      have swapped : ((s.list.set destPos.toNat origin).set originPos.toNat dest).map
          (fun track => some (id track)) = ((s.list.map fun track => some (id track)).set destPos.toNat
            (some (id origin))).set originPos.toNat (some (id dest)) := by
        rw [List.map_set,List.map_set]
      rw [shows] at swapped
      split_ifs at taken <;> (cases taken; exact swapped)
    next => cases taken
  | removed position =>
    unfold gesture onTrackRemoved at taken
    dsimp only at taken
    split at taken
    · cases taken
    next track read =>
      have held := @getAt_map T (Option Id) (fun track => some (id track)) _ _ _ read
      rw [shows] at held
      unfold Playlist.onTrackRemoved at taken
      simp only [held] at taken
      cases taken
      have erased := List.eraseIdx_map (fun track => some (id track)) s.list position.toNat
      rw [shows] at erased
      exact erased.symm

/-- Of a list without repeats, the items that a list of items picks are that list exactly when it
is among them in order. -/
theorem filter_eq_iff {α : Type} [DecidableEq α] {items wanted : List α} (once : items.Nodup) :
    items.filter (· ∈ wanted) = wanted ↔ wanted.Sublist items := by
  constructor
  · intro same
    rw [← same]
    exact List.filter_sublist
  · intro among
    induction among with
    | slnil => rfl
    | @cons wanted items item among ih =>
      have fresh := (List.nodup_cons.mp once).1
      rw [List.filter_cons_of_neg (by simpa using fun listed => fresh (among.subset listed))]
      exact ih (List.nodup_cons.mp once).2
    | @cons_cons wanted items item among ih =>
      obtain ⟨fresh,rest⟩ := List.nodup_cons.mp once
      rw [List.filter_cons_of_pos (by simp)]
      congr 1
      rw [← ih rest]
      apply List.filter_congr
      intro other listed
      have different : other ≠ item := by
        rintro rfl
        exact fresh listed
      simp [different,ih rest]

/-- The screen shows the queue after any gestures exactly when the queue lists stored tracks, each
once and in the order of the store. -/
theorem shows_throughout_iff [DecidableEq Id] (id : T → Id) (store : List T)
    (distinct : (store.map id).Nodup) (playlist : Playlist Id) (gestures : List Gesture) :
    Run.Always gesture (Shows id) (loadItems id store playlist) gestures ↔
      playlist.playbackQueue.Sublist (store.map fun track => some (id track)) := by
  have once : (store.map fun track => some (id track)).Nodup := by
    have keyed := distinct.map (fun _ _ same => Option.some.inj same)
    rwa [List.map_map] at keyed
  have opened : (loadItems id store playlist).Shows id ↔
      playlist.playbackQueue.Sublist (store.map fun track => some (id track)) := by
    rw [shows_iff,← filter_eq_iff once,List.filter_map]
    unfold loadItems getTracksFromIds
    congr! with track
    simp
  rw [← opened]
  constructor
  · intro always
    cases gestures with
    | nil => exact always
    | cons first rest => exact always.1
  · intro shows
    have kept (s : Screen Id T) (made : Gesture) (t : Screen Id T) (held : s.Shows id) (_ : True)
        (taken : s.gesture made = some t) : t.Shows id := gesture_shows held taken
    apply Run.always_of_meets (fun _ held => held) kept shows
    exact Run.meets_of_labels (fun _ _ _ => trivial) _

theorem shows_throughout_iff_two :
    (([1,2] : List Nat).map fun n => n).Nodup ∧
      Run.Always gesture (Shows fun n : Nat => n)
        (loadItems (fun n => n) [1,2] {Playlist.initial with playbackQueue := [some 1,some 2]}) [.moved 0 1] :=
  ⟨by decide,(shows_throughout_iff (fun n => n) [1,2] (by decide) {Playlist.initial with playbackQueue := [some 1,some 2]}
    [.moved 0 1]).mpr (List.Sublist.refl _)⟩

def reordered : Playlist Nat := {Playlist.initial with playbackQueue := [some 2,some 1]}

/-- The queue 2, 1 of a store 1, 2 is shown as 1, 2, and a click on the first row plays 2. -/
theorem queue_reordered :
    (loadItems (fun n : Nat => n) [1,2] reordered).list = [1,2] ∧
    (loadItems (fun n : Nat => n) [1,2] reordered).onItemClick 0 = .ok (some 2) ∧
    ¬ (loadItems (fun n : Nat => n) [1,2] reordered).Shows fun n => n := by
  refine ⟨by decide,by rfl,?_⟩
  intro shows
  have listed := shows_iff.mp shows
  revert listed
  decide

end Screen
end Chipbox.Player
