import Chipbox.Player.Handing

/-! When the previous track undoes the next one. -/
namespace Chipbox.Player.Handing
variable {Id : Type}
open Playlist

/-- `getNextTrack` has a position to go on to. -/
def Advances (p : Playlist Id) : Prop := p.playbackQueuePosition < (p.playbackQueue.length : Int) - 1

instance (p : Playlist Id) : Decidable (Advances p) := inferInstanceAs (Decidable (_ < _))

/-- The next track and then the previous one give the track last handed out and its positions. -/
def PrevUndoesNext (s : Handing Id) : Prop := Advances s.playlist →
  let back := s.playlist.getNextTrack.2.getPrevTrack
  back.1 = .ok s.handed ∧ back.2.playbackQueuePosition = s.playlist.playbackQueuePosition ∧
    back.2.actualPlaybackQueuePosition = s.playlist.actualPlaybackQueuePosition

def InPlace (s : Handing Id) : Prop :=
  s.playlist.currentPosition = some s.playlist.actualPlaybackQueuePosition ∧
    entry s.playlist.playbackQueue s.playlist.actualPlaybackQueuePosition = some s.handed

theorem getTrackIdAt_state (p : Playlist Id) (position : Int) (ignoreShuffle : Bool) :
    ∃ actual,
      (p.getTrackIdAt position ignoreShuffle).2 = {p with actualPlaybackQueuePosition := actual} := by
  unfold getTrackIdAt
  split
  · exact ⟨_,rfl⟩
  · dsimp only
    split
    · exact ⟨_,rfl⟩
    · exact ⟨_,rfl⟩

theorem getNextTrack_state {p : Playlist Id} (advances : Advances p) : ∃ actual,
    p.getNextTrack.2 = {p with
      playbackQueuePosition := p.playbackQueuePosition + 1, actualPlaybackQueuePosition := actual} := by
  unfold Advances at advances
  unfold getNextTrack
  rw [if_pos advances]
  obtain ⟨actual,read⟩ := getTrackIdAt_state
    {p with playbackQueuePosition := p.playbackQueuePosition + 1} (p.playbackQueuePosition + 1) false
  exact ⟨actual,read⟩

theorem currentPosition_above {p : Playlist Id} {position : Int} (current : p.currentPosition = some position)
    (held : 0 ≤ position) : 0 ≤ p.playbackQueuePosition := by
  unfold currentPosition at current
  cases shuffled : p.shuffle with
  | true =>
    rw [shuffled,if_pos rfl] at current
    obtain ⟨order,_,found⟩ := Option.bind_eq_some_iff.mp current
    exact (entry_inside found).1
  | false =>
    rw [shuffled,if_neg nofun] at current
    cases current
    exact held

/-- Back from the next track, the playlist reads at the position it had. -/
theorem back_eq {p : Playlist Id} (ordered : p.Ordered) (above : 0 ≤ p.playbackQueuePosition)
    (advances : Advances p) : ∃ actual, p.getNextTrack.2.getPrevTrack =
      match p.currentPosition with
      | none => (.error .indexOutOfBounds,{p with actualPlaybackQueuePosition := actual})
      | some position =>
        (getAt p.playbackQueue position,{p with actualPlaybackQueuePosition := position}) := by
  obtain ⟨actual,next⟩ := getNextTrack_state advances
  unfold Advances at advances
  refine ⟨actual,?_⟩
  rw [next]
  unfold getPrevTrack
  dsimp only
  rw [if_pos (by omega)]
  have back : p.playbackQueuePosition + 1 - 1 = p.playbackQueuePosition := by omega
  rw [back]
  exact @getTrackIdAt_current _ {p with actualPlaybackQueuePosition := actual} ordered (by dsimp only; omega)

theorem prevUndoesNext_iff {s : Handing Id} (ordered : s.playlist.Ordered) :
    s.PrevUndoesNext ↔ (Advances s.playlist → s.InPlace) := by
  refine forall_congr' fun advances => ?_
  by_cases above : 0 ≤ s.playlist.playbackQueuePosition
  · obtain ⟨actual,back⟩ := back_eq ordered above advances
    rw [back]
    unfold InPlace
    cases s.playlist.currentPosition with
    | none => exact iff_of_false (fun undone => nomatch undone.1) (fun place => nomatch place.1)
    | some position =>
      dsimp only
      rw [Option.some.injEq,getAt_of_entry]
      constructor
      · rintro ⟨read,_,same⟩
        rw [← same]
        refine ⟨rfl,?_⟩
        cases found : entry s.playlist.playbackQueue position with
        | none => rw [found] at read; cases read
        | some trackId => rw [found] at read; cases read; rfl
      · rintro ⟨same,held⟩
        rw [same,held]
        exact ⟨rfl,rfl,rfl⟩
  · constructor
    · rintro ⟨_,restored,_⟩
      obtain ⟨actual,next⟩ := getNextTrack_state advances
      rw [next] at restored
      unfold getPrevTrack at restored
      dsimp only at restored
      rw [if_neg (by omega)] at restored
      dsimp only at restored
      omega
    · rintro ⟨current,held⟩
      exact absurd (currentPosition_above current (entry_inside held).1) above

/-- Tracks are chosen inside the queue and, with shuffle on, where the order has them; shuffle is
switched on with an order that has the current track in its place. -/
def Aligned (s : Handing Id) : PlaylistCommand Id → Prop
  | .play queue position shuffler => (∀ trackId ∈ queue, trackId.isSome) ∧ 0 ≤ position ∧
    (s.playlist.shuffle = true → position < queue.length →
      entry (shuffler.order (positions queue.length)) position = some position)
  | .playPosition position => s.playlist.Inside position ∧ (s.playlist.shuffle = true →
    (s.playlist.shuffledPositionQueue.bind fun order => entry order position) = some position)
  | .setShuffle true shuffler => s.playlist.playbackQueue = [] ∨
    entry (shuffler.order (positions s.playlist.playbackQueue.length)) s.playlist.playbackQueuePosition =
      some s.playlist.actualPlaybackQueuePosition
  | .setShuffle false _ => s.playlist.shuffle = true
  | .getNextTrack | .getPrevTrack | .toggleRepeat => True
  | .onTrackMoved .. | .onTrackRemoved _ => False

structure Settled (s : Handing Id) : Prop where
  ordered : s.playlist.Ordered
  above : 0 ≤ s.playlist.playbackQueuePosition
  consistent : s.playlist.ShuffleConsistent
  tracks : ∀ trackId ∈ s.playlist.playbackQueue, trackId.isSome
  place : s.playlist.playbackQueue ≠ [] → s.InPlace

theorem entry_track {p : Playlist Id} (tracks : ∀ trackId ∈ p.playbackQueue, trackId.isSome)
    {position : Int} (inside : p.Inside position) :
    ∃ trackId, entry p.playbackQueue position = some (some trackId) := by
  obtain ⟨item,listed,read⟩ := getAt_inside inside.1 inside.2
  obtain ⟨trackId,rfl⟩ := Option.isSome_iff_exists.mp (tracks item listed)
  refine ⟨trackId,?_⟩
  unfold entry
  rw [read]
  rfl

section Reading
variable {p : Playlist Id} (consistent : p.ShuffleConsistent)
  (tracks : ∀ trackId ∈ p.playbackQueue, trackId.isSome)
include consistent

theorem currentPosition_inside {position : Int} (inside : p.Inside position) : ∃ actual,
    ({p with playbackQueuePosition := position} : Playlist Id).currentPosition = some actual ∧
      p.Inside actual := by
  unfold currentPosition
  dsimp only
  cases shuffled : p.shuffle with
  | true =>
    obtain ⟨order,stored,permuted⟩ := consistent shuffled
    have size : order.length = p.playbackQueue.length := by rw [permuted.length_eq,positions_length]
    obtain ⟨actual,listed,read⟩ := getAt_inside inside.1 (size ▸ inside.2)
    refine ⟨actual,?_,mem_positions.mp (permuted.mem_iff.mp listed)⟩
    rw [if_pos rfl,stored,Option.bind_some]
    unfold entry
    rw [read]
    rfl
  | false => exact ⟨position,rfl,inside⟩

/-- With the current track in place, the position is one of the queue. -/
theorem position_inside {actual : Int} {trackId : Option Id} (current : p.currentPosition = some actual)
    (held : entry p.playbackQueue actual = some trackId) : p.Inside p.playbackQueuePosition := by
  unfold currentPosition at current
  cases shuffled : p.shuffle with
  | true =>
    obtain ⟨order,stored,permuted⟩ := consistent shuffled
    rw [shuffled,if_pos rfl,stored,Option.bind_some] at current
    have size : order.length = p.playbackQueue.length := by rw [permuted.length_eq,positions_length]
    have bounds := entry_inside current
    exact ⟨bounds.1,size ▸ bounds.2⟩
  | false =>
    rw [shuffled,if_neg nofun] at current
    cases current
    exact entry_inside held

include tracks

theorem read_inPlace (ordered : p.Ordered) {position : Int} (inside : p.Inside position)
    (handed : Option Id) :
    let read := ({p with playbackQueuePosition := position} : Playlist Id).getTrackIdAt position false
    InPlace ⟨read.2,(given read.1).or handed⟩ := by
  intro read
  obtain ⟨actual,current,within⟩ := currentPosition_inside consistent inside
  obtain ⟨trackId,found⟩ := entry_track tracks within
  have bound : position ≤ p.playbackQueue.length := Int.le_of_lt inside.2
  have same : read = (.ok (some trackId),
      {p with playbackQueuePosition := position, actualPlaybackQueuePosition := actual}) := by
    have through := @getTrackIdAt_current _ {p with playbackQueuePosition := position} ordered bound
    rw [current] at through
    dsimp only at through
    rw [getAt_of_entry,found] at through
    exact through
  rw [same]
  exact ⟨current,found⟩

end Reading

/-- A track chosen by its position is in place where the order has it there. -/
theorem chosen_inPlace {p : Playlist Id} {position : Int} {trackId : Id}
    (found : entry p.playbackQueue position = some (some trackId))
    (there : ({p with playbackQueuePosition := position} : Playlist Id).currentPosition = some position)
    (handed : Option Id) :
    let read := ({p with playbackQueuePosition := position} : Playlist Id).getTrackIdAt position true
    InPlace ⟨read.2,(given read.1).or handed⟩ := by
  intro read
  have bounds := entry_inside found
  have same : read = (.ok (some trackId),
      {p with playbackQueuePosition := position, actualPlaybackQueuePosition := position}) := by
    unfold read getTrackIdAt
    dsimp only
    rw [if_neg (by omega)]
    simp only [Bool.not_true,Bool.and_false,Bool.false_eq_true,if_false]
    rw [getAt_of_entry,found]
  rw [same]
  exact ⟨there,found⟩

theorem getNextTrack_settled {s : Handing Id} (settled : s.Settled)
    (present : s.playlist.playbackQueue ≠ []) :
    InPlace ⟨s.playlist.getNextTrack.2,(given s.playlist.getNextTrack.1).or s.handed⟩ := by
  have place := settled.place present
  have inside := position_inside settled.consistent place.1 place.2
  have size : 0 < s.playlist.playbackQueue.length := List.length_pos_iff.mpr present
  unfold getNextTrack
  split
  next advances =>
    exact read_inPlace settled.consistent settled.tracks settled.ordered
      ⟨Int.le_trans inside.1 (by omega),by omega⟩ s.handed
  next =>
    split
    · exact read_inPlace settled.consistent settled.tracks settled.ordered ⟨Int.le_refl 0,by omega⟩
        s.handed
    · exact place

theorem getPrevTrack_settled {s : Handing Id} (settled : s.Settled)
    (present : s.playlist.playbackQueue ≠ []) :
    InPlace ⟨s.playlist.getPrevTrack.2,(given s.playlist.getPrevTrack.1).or s.handed⟩ := by
  have place := settled.place present
  have inside := (position_inside settled.consistent place.1 place.2).2
  unfold getPrevTrack
  split
  · exact read_inPlace settled.consistent settled.tracks settled.ordered ⟨by omega,by omega⟩ s.handed
  · exact place

theorem play_settled {s : Handing Id} (settled : s.Settled) {queue : List (Option Id)} {position : Int}
    {shuffler : Shuffler} (aligned : s.Aligned (.play queue position shuffler))
    (present : (s.playlist.playFrom queue position shuffler).2.playbackQueue ≠ []) :
    InPlace ⟨(s.playlist.playFrom queue position shuffler).2,
      (((s.playlist.playFrom queue position shuffler).1.bind given).or s.handed)⟩ := by
  obtain ⟨tracks,above,aligned⟩ := aligned
  unfold playFrom at present ⊢
  by_cases below : position < queue.length
  · rw [if_pos below]
    have same := setPlaybackQueue_queue s.playlist queue shuffler
    have within : (s.playlist.setPlaybackQueue queue shuffler).Inside position := by
      unfold Inside
      rw [same]
      exact ⟨above,below⟩
    obtain ⟨trackId,found⟩ := entry_track (by rw [same]; exact tracks) within
    refine chosen_inPlace found ?_ s.handed
    unfold currentPosition setPlaybackQueue
    cases shuffled : s.playlist.shuffle with
    | true =>
      simp only [if_true,generateRandomPositionArray,Option.bind_some]
      exact aligned shuffled below
    | false => simp only [Bool.false_eq_true,if_false]
  · rw [if_neg below] at present ⊢
    exact settled.place present

theorem playAt_settled {s : Handing Id} (settled : s.Settled) {position : Int}
    (aligned : s.Aligned (.playPosition position)) :
    InPlace ⟨(s.playlist.playAt position).2,(given (s.playlist.playAt position).1).or s.handed⟩ := by
  obtain ⟨within,aligned⟩ := aligned
  obtain ⟨trackId,found⟩ := entry_track settled.tracks within
  refine chosen_inPlace found ?_ s.handed
  unfold currentPosition
  dsimp only
  cases shuffled : s.playlist.shuffle with
  | true => exact aligned shuffled
  | false => rfl

/-- Switched off, shuffle leaves the position that the order had led to. -/
theorem setShuffle_off_settled {s : Handing Id} (place : s.InPlace) (shuffled : s.playlist.shuffle = true)
    (shuffler : Shuffler) : InPlace ⟨(s.playlist.setShuffle false shuffler).2,s.handed⟩ := by
  obtain ⟨current,held⟩ := place
  unfold currentPosition at current
  rw [shuffled,if_pos rfl] at current
  obtain ⟨order,stored,found⟩ := Option.bind_eq_some_iff.mp current
  have read := @getAt_of_entry _ order s.playlist.playbackQueuePosition
  rw [found] at read
  unfold setShuffle
  simp only [Bool.false_eq_true,if_false,stored,read]
  exact ⟨rfl,held⟩

theorem after_queue_subset (p : Playlist Id) (command : PlaylistCommand Id) :
    match command with
    | .play queue _ _ => (p.after command).playbackQueue = queue ∨
        (p.after command).playbackQueue = p.playbackQueue
    | .onTrackMoved .. | .onTrackRemoved _ => True
    | _ => (p.after command).playbackQueue = p.playbackQueue := by
  cases command with
  | play queue position shuffler =>
    simp only [after,playFrom]
    split
    · exact .inl ((getTrackIdAt_position _ position true).2.trans (setPlaybackQueue_queue p queue shuffler))
    · exact .inr rfl
  | playPosition position => exact (getTrackIdAt_position _ position true).2
  | getNextTrack =>
    simp only [after,getNextTrack]
    split
    · exact (getTrackIdAt_position _ _ false).2
    · split
      · exact (getTrackIdAt_position _ _ false).2
      · rfl
  | getPrevTrack =>
    simp only [after,getPrevTrack]
    split
    · exact (getTrackIdAt_position _ _ false).2
    · rfl
  | setShuffle value shuffler =>
    cases value with
    | true => rfl
    | false =>
      simp only [after,setShuffle,Bool.false_eq_true,if_false]
      split <;> rfl
  | toggleRepeat => rfl
  | onTrackMoved originPos destPos => trivial
  | onTrackRemoved position => trivial

theorem after_above {s : Handing Id} (settled : s.Settled) {command : PlaylistCommand Id}
    (aligned : s.Aligned command) : 0 ≤ (s.playlist.after command).playbackQueuePosition := by
  have above := settled.above
  cases command with
  | play queue position shuffler =>
    simp only [after,playFrom]
    split
    · rw [(getTrackIdAt_position _ position true).1]
      exact aligned.2.1
    · exact above
  | playPosition position =>
    simp only [after,playAt]
    rw [(getTrackIdAt_position _ position true).1]
    exact aligned.1.1
  | getNextTrack =>
    simp only [after,getNextTrack]
    split
    · rw [(getTrackIdAt_position _ _ false).1]
      exact Int.le_trans above (by dsimp only; omega)
    · split
      · have wrapped := (getTrackIdAt_position {s.playlist with playbackQueuePosition := 0} 0 false).1
        exact Int.le_of_eq wrapped.symm
      · exact above
  | getPrevTrack =>
    simp only [after,getPrevTrack]
    split
    · rw [(getTrackIdAt_position _ _ false).1]
      dsimp only
      omega
    · exact above
  | setShuffle value shuffler =>
    cases value with
    | true => exact above
    | false =>
      obtain ⟨order,stored,permuted⟩ := settled.consistent aligned
      simp only [after,setShuffle,Bool.false_eq_true,if_false,stored]
      split
      · exact above
      next position read =>
        exact (mem_positions.mp (permuted.mem_iff.mp (List.mem_of_getElem? (entry_of_getAt read)))).1
  | toggleRepeat => exact above
  | onTrackMoved originPos destPos => exact absurd aligned id
  | onTrackRemoved position => exact absurd aligned id

theorem step_settled {s t : Handing Id} {command : PlaylistCommand Id} (settled : s.Settled)
    (aligned : s.Aligned command) (taken : s.step command = some t) : t.Settled := by
  cases taken
  have removes : ¬ s.playlist.RemovesShuffled command := by
    cases command with
    | onTrackRemoved position => exact absurd aligned id
    | _ => exact id
  have queue := after_queue_subset s.playlist command
  refine ⟨after_ordered settled.ordered command,after_above settled aligned,
    (after_consistent s.playlist command settled.consistent).mpr removes,?_,?_⟩
  · cases command with
    | play queue position shuffler =>
      rcases queue with same | same
      · dsimp only
        rw [same]
        exact aligned.1
      · dsimp only
        rw [same]
        exact settled.tracks
    | onTrackMoved originPos destPos => exact absurd aligned id
    | onTrackRemoved position => exact absurd aligned id
    | _ =>
      dsimp only at queue ⊢
      rw [queue]
      exact settled.tracks
  · intro present
    dsimp only at present
    cases command with
    | play queue position shuffler => exact play_settled settled aligned present
    | playPosition position => exact playAt_settled settled aligned
    | getNextTrack => exact getNextTrack_settled settled (queue ▸ present)
    | getPrevTrack => exact getPrevTrack_settled settled (queue ▸ present)
    | setShuffle value shuffler =>
      have before : s.playlist.playbackQueue ≠ [] := queue ▸ present
      cases value with
      | true => exact ⟨aligned.resolve_left before,(settled.place before).2⟩
      | false => exact setShuffle_off_settled (settled.place before) aligned shuffler
    | toggleRepeat => exact settled.place present
    | onTrackMoved originPos destPos => exact absurd aligned id
    | onTrackRemoved position => exact absurd aligned id

/-- In every state of a run the previous track undoes the next one exactly when, wherever there is a
next one, the track last handed out is in place; which it is throughout if the commands are aligned. -/
theorem prev_undoes_next (commands : List (PlaylistCommand Id)) :
    (Run.Always step PrevUndoesNext (initial : Handing Id) commands ↔
      Run.Always step (fun s => Advances s.playlist → s.InPlace) (initial : Handing Id) commands) ∧
    (Run.Meets step Aligned (initial : Handing Id) commands →
      Run.Always step PrevUndoesNext (initial : Handing Id) commands) := by
  have ordered : (initial : Handing Id).playlist.Ordered := rfl
  constructor
  · exact Run.always_congr (fun s ordered => prevUndoesNext_iff ordered)
      (fun _ _ _ ordered taken => step_ordered ordered taken) ordered commands
  · have start : (initial : Handing Id).Settled :=
      ⟨ordered,Int.le_refl 0,nofun,nofun,fun present => absurd rfl present⟩
    have implies (s : Handing Id) (settled : s.Settled) : s.PrevUndoesNext := by
      refine (prevUndoesNext_iff settled.ordered).mpr fun advances => settled.place fun empty => ?_
      have above := settled.above
      unfold Advances at advances
      rw [empty] at advances
      simp only [List.length_nil] at advances
      omega
    exact Run.always_of_meets implies (fun _ _ _ settled aligned taken => step_settled settled aligned taken)
      start

/-- A queue played in the reverse order from its middle, which is there its own place. -/
theorem prev_undoes_next_aligned : Run.Always step PrevUndoesNext (initial : Handing Nat)
    [.setShuffle true reverser,.play [some 7,some 8,some 9] 1 reverser,.getNextTrack] :=
  (prev_undoes_next _).2 ⟨.inl rfl,⟨by decide,by decide,fun _ _ => rfl⟩,trivial,trivial⟩

/-- Shuffle is on, in the reverse order, when the first of three tracks is chosen: the next track is
read in the middle of the order, and the previous one at its start is the last. -/
theorem prev_loses : ¬ Run.Always step PrevUndoesNext (initial : Handing Nat)
    [.setShuffle true reverser,.play [some 7,some 8,some 9] 0 reverser] := by
  intro always
  have undone := (always.2.2 (by decide)).1
  exact absurd undone (by decide)

end Chipbox.Player.Handing
