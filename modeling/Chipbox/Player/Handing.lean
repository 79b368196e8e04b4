import Chipbox.Player.Editing

/-! The track last handed to the player, and where the playlist is when shuffle is switched or when
the next track and then the previous one are asked for. -/
namespace Chipbox.Player

/-- The playlist with the track last handed to the player, which no command reads. -/
structure Handing (Id : Type) where
  playlist : Playlist Id
  handed : Option Id

namespace Playlist
variable {Id : Type}

def given : Except ListError (Option Id) → Option Id
  | .ok trackId => trackId
  | .error _ => none

def handsOut (p : Playlist Id) : PlaylistCommand Id → Option Id
  | .play queue position shuffler => (p.playFrom queue position shuffler).1.bind given
  | .playPosition position => given (p.playAt position).1
  | .getNextTrack => given p.getNextTrack.1
  | .getPrevTrack => given p.getPrevTrack.1
  | _ => none

/-- There is a shuffled order exactly while shuffle is on. -/
def Ordered (p : Playlist Id) : Prop := p.shuffle = p.shuffledPositionQueue.isSome

theorem SameOrder.ordered {p q : Playlist Id} (same : SameOrder p q) (ordered : p.Ordered) : q.Ordered := by
  unfold Ordered
  rw [same.shuffle,same.order]
  exact ordered

theorem setPlaybackQueue_ordered {p : Playlist Id} (ordered : p.Ordered) (queue : List (Option Id))
    (shuffler : Shuffler) : (p.setPlaybackQueue queue shuffler).Ordered := by
  unfold setPlaybackQueue
  dsimp only
  split
  next on => exact on
  next => exact ordered

theorem after_ordered {p : Playlist Id} (ordered : p.Ordered) (command : PlaylistCommand Id) :
    (p.after command).Ordered := by
  cases command with
  | play queue position shuffler =>
    simp only [after,playFrom]
    split
    · have replaced := setPlaybackQueue_ordered ordered queue shuffler
      exact (getTrackIdAt_order {p.setPlaybackQueue queue shuffler with
        playbackQueuePosition := position} position true).ordered replaced
    · exact ordered
  | playPosition position => exact (playAt_order p position).ordered ordered
  | getNextTrack => exact (getNextTrack_order p).ordered ordered
  | getPrevTrack => exact (getPrevTrack_order p).ordered ordered
  | setShuffle value shuffler =>
    cases value with
    | true => exact rfl
    | false =>
      simp only [after,setShuffle,Bool.false_eq_true,if_false]
      split
      · exact ordered
      · exact rfl
  | toggleRepeat => exact ordered
  | onTrackMoved originPos destPos => exact (onTrackMoved_order p originPos destPos).ordered ordered
  | onTrackRemoved position =>
    simp only [after,onTrackRemoved]
    split <;> exact ordered

theorem getAt_of_entry {α : Type} {items : List α} {index : Int} : getAt items index =
    match entry items index with
    | none => .error .indexOutOfBounds
    | some item => .ok item := by
  unfold entry
  cases read : getAt items index with
  | error error => cases error; rfl
  | ok item => rfl

theorem entry_inside {α : Type} {items : List α} {index : Int} {item : α}
    (found : entry items index = some item) : 0 ≤ index ∧ index < items.length := by
  have read := @getAt_of_entry _ items index
  rw [found] at read
  exact getAt_ok read

/-- Through the order, the current position is what the current track is read at. -/
theorem getTrackIdAt_current {p : Playlist Id} (ordered : p.Ordered)
    (inside : p.playbackQueuePosition ≤ p.playbackQueue.length) :
    p.getTrackIdAt p.playbackQueuePosition false =
      match p.currentPosition with
      | none => (.error .indexOutOfBounds,p)
      | some position =>
        (getAt p.playbackQueue position,{p with actualPlaybackQueuePosition := position}) := by
  unfold Ordered at ordered
  unfold getTrackIdAt currentPosition
  rw [if_neg (by omega)]
  cases stored : p.shuffledPositionQueue with
  | none =>
    rw [stored,Option.isSome_none] at ordered
    rw [ordered]
    rfl
  | some order =>
    rw [stored,Option.isSome_some] at ordered
    rw [ordered]
    simp only [Bool.not_false,Bool.and_self,if_true,Option.bind_some]
    rw [getAt_of_entry]
    cases entry order p.playbackQueuePosition <;> rfl

end Playlist

namespace Handing
variable {Id : Type}
open Playlist

def initial : Handing Id := ⟨.initial,none⟩

def step (s : Handing Id) (command : PlaylistCommand Id) : Option (Handing Id) :=
  some ⟨s.playlist.after command,(s.playlist.handsOut command).or s.handed⟩

def OnTrack (s : Handing Id) : Prop :=
  s.handed.isSome ∧
    entry s.playlist.playbackQueue s.playlist.actualPlaybackQueuePosition = some s.handed

/-- Switching shuffle leaves the track last handed out current, and switching it on and off again
restores the position. -/
def TogglesRight (s : Handing Id) : PlaylistCommand Id → Prop
  | .setShuffle value shuffler => s.OnTrack →
    (s.playlist.after (.setShuffle value shuffler)).currentTrack = some s.handed ∧
      (value = true → s.playlist.shuffle = false →
        ((s.playlist.after (.setShuffle true shuffler)).after
          (.setShuffle false shuffler)).playbackQueuePosition = s.playlist.playbackQueuePosition)
  | _ => True

/-- The new order has the position in its own place, or at least a place of the track if there was an
order before; the old order leads to the track; without one the track is the first. -/
def OrderLeads (s : Handing Id) : PlaylistCommand Id → Prop
  | .setShuffle true shuffler => s.OnTrack →
    let order := shuffler.order (positions s.playlist.playbackQueue.length)
    let position := s.playlist.playbackQueuePosition
    (entry order position).bind (entry s.playlist.playbackQueue) = some s.handed ∧
      (s.playlist.shuffle = false → entry order position = some position)
  | .setShuffle false _ => s.OnTrack →
    match s.playlist.shuffledPositionQueue with
    | none => entry s.playlist.playbackQueue 0 = some s.handed
    | some order => (entry order s.playlist.playbackQueuePosition).bind
        (entry s.playlist.playbackQueue) = some s.handed
  | _ => True

theorem step_ordered {s t : Handing Id} {command : PlaylistCommand Id} (ordered : s.playlist.Ordered)
    (taken : s.step command = some t) : t.playlist.Ordered := by
  cases taken
  exact after_ordered ordered command

theorem on_currentTrack (p : Playlist Id) (shuffler : Shuffler) :
    (p.after (.setShuffle true shuffler)).currentTrack =
      (entry (shuffler.order (positions p.playbackQueue.length)) p.playbackQueuePosition).bind
        (entry p.playbackQueue) := rfl

theorem on_off_position (p : Playlist Id) (shuffler : Shuffler) :
    ((p.after (.setShuffle true shuffler)).after (.setShuffle false shuffler)).playbackQueuePosition =
      (entry (shuffler.order (positions p.playbackQueue.length)) p.playbackQueuePosition).getD
        p.playbackQueuePosition := by
  unfold entry
  simp only [after,setShuffle,generateRandomPositionArray,Bool.false_eq_true,if_false,if_true]
  cases getAt (shuffler.order (positions p.playbackQueue.length)) p.playbackQueuePosition <;> rfl

/-- Switched off, shuffle leaves what the old order led to, or the first track. -/
theorem off_currentTrack {p : Playlist Id} (ordered : p.Ordered) (shuffler : Shuffler) :
    (p.after (.setShuffle false shuffler)).currentTrack =
      match p.shuffledPositionQueue with
      | none => entry p.playbackQueue 0
      | some order => (entry order p.playbackQueuePosition).bind (entry p.playbackQueue) := by
  unfold Ordered at ordered
  simp only [after,setShuffle,Bool.false_eq_true,if_false]
  cases stored : p.shuffledPositionQueue with
  | none => rfl
  | some order =>
    rw [stored,Option.isSome_some] at ordered
    dsimp only
    unfold entry
    cases read : getAt order p.playbackQueuePosition with
    | error error =>
      unfold currentTrack currentPosition entry
      rw [ordered,stored,if_pos rfl,Option.bind_some,read]
    | ok position => rfl

theorem togglesRight_iff {s : Handing Id} (ordered : s.playlist.Ordered) (command : PlaylistCommand Id) :
    s.TogglesRight command ↔ s.OrderLeads command := by
  cases command with
  | setShuffle value shuffler =>
    cases value with
    | true =>
      refine imp_congr_right fun _ => ?_
      rw [on_currentTrack,on_off_position]
      refine and_congr_right fun leads => ?_
      obtain ⟨position,found,_⟩ := Option.bind_eq_some_iff.mp leads
      rw [found,Option.getD_some]
      simp only [forall_const,Option.some.injEq]
    | false =>
      refine imp_congr_right fun _ => ?_
      rw [off_currentTrack ordered]
      cases s.playlist.shuffledPositionQueue with
      | none => exact and_iff_left fun off => nomatch off
      | some order => exact and_iff_left fun off => nomatch off
  | _ => exact Iff.rfl

/-- In a run of commands shuffle keeps the track whenever it is switched exactly when every time the
order leads to it. -/
theorem shuffle_keeps_iff (commands : List (PlaylistCommand Id)) :
    Run.Meets step TogglesRight (initial : Handing Id) commands ↔
      Run.Meets step OrderLeads (initial : Handing Id) commands := by
  have start : (initial : Handing Id).playlist.Ordered := rfl
  constructor
  · exact Run.meets_of_meets (fun _ _ _ ordered _ taken => step_ordered ordered taken)
      (fun _ command ordered => (togglesRight_iff ordered command).mp) start
  · exact Run.meets_of_meets (fun _ _ _ ordered _ taken => step_ordered ordered taken)
      (fun _ command ordered => (togglesRight_iff ordered command).mpr) start

def reverser : Shuffler := ⟨List.reverse,List.reverse_perm⟩

/-- The first of two tracks plays when shuffle is switched on, and then the second is current. -/
theorem shuffle_loses : ¬ Run.Meets step TogglesRight (initial : Handing Nat)
    [.play [some 7,some 8] 0 reverser,.setShuffle true reverser] := by
  intro met
  have kept := (met.2.1 ⟨rfl,rfl⟩).1
  exact absurd kept (by decide)

end Handing
end Chipbox.Player
