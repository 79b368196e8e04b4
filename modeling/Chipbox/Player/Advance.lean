import Chipbox.Player.Tour
import Mathlib.Logic.Function.Iterate

/-! Which tracks follow one another when each is played to its end. -/
namespace Chipbox.Player
variable {Id : Type}

inductive TrackEnd (Id : Type)
  | finished
  | queued (trackId : Option Id)
  | threw (error : ListError)
  deriving DecidableEq, Repr

structure ReaderTracks (Id : Type) where
  queuedTrackId : Option Id
  playingTrackId : Option Id

def ReaderTracks.takeQueued (r : ReaderTracks Id) : ReaderTracks Id :=
  match r.queuedTrackId with
  | none => r
  | some trackId => ⟨none,some trackId⟩

namespace Playlist

/-- The branch of `Reader.loop` at the end of a track. -/
def atTrackEnd (p : Playlist Id) (playingTrackId : Option Id) : TrackEnd Id × Playlist Id :=
  if !p.isNextTrackAvailable then (.finished,p)
  else if p.repeatMode = .one then (.queued playingTrackId,p)
  else match p.getNextTrack with
    | (.ok trackId,p) => (.queued trackId,p)
    | (.error error,p) => (.threw error,p)

def trackEnds : Nat → Playlist Id → ReaderTracks Id → List (TrackEnd Id)
  | 0,_,_ => []
  | count+1,p,r =>
    let r := r.takeQueued
    match p.atTrackEnd r.playingTrackId with
    | (.queued trackId,p) => .queued trackId::trackEnds count p {r with queuedTrackId := trackId}
    | (outcome,_) => [outcome]

/-- The track ends after `play(queue, position)`, whatever the reader played before. -/
def playThrough (p : Playlist Id) (queue : List (Option Id)) (position : Int) (shuffler : Shuffler)
    (playingTrackId : Option Id) (count : Nat) : List (TrackEnd Id) :=
  match p.playFrom queue position shuffler with
  | (some (.ok trackId),p) => trackEnds count p ⟨trackId,playingTrackId⟩
  | _ => []

end Playlist

/-- The queue played on from a position, by the repeat mode. -/
def RepeatMode.following (queue : List Id) (position count : Nat) : RepeatMode → List (TrackEnd Id)
  | .off =>
    let rest := (queue.drop (position + 1)).map fun trackId => TrackEnd.queued (some trackId)
    (rest ++ [TrackEnd.finished]).take count
  | .all => (List.range count).map fun i => .queued queue[(position + i + 1) % queue.length]?
  | .one | .infinite => List.replicate count (.queued queue[position]?)

namespace Playlist
section Advance
variable {queue : List Id}

structure At (queue : List Id) (position : Nat) (p : Playlist Id) : Prop where
  shuffle : p.shuffle = false
  stored : p.playbackQueue = queue.map some
  cursor : p.playbackQueuePosition = position
  inside : position < queue.length

theorem At.read {position target : Nat} {p : Playlist Id} (at_ : At queue position p)
    (bound : target < queue.length) : ∃ q, ({p with playbackQueuePosition := target} : Playlist Id).getTrackIdAt
        target false = (.ok queue[target]?,q) ∧ At queue target q ∧ q.repeatMode = p.repeatMode := by
  have short : ¬ (target : Int) > p.playbackQueue.length := by
    rw [at_.stored,List.length_map]
    omega
  have found : getAt p.playbackQueue target = .ok queue[target]? := by
    rw [at_.stored,getAt_nat (by simpa using bound)]
    simp [bound]
  unfold getTrackIdAt
  rw [if_neg short]
  simp only [at_.shuffle,Bool.false_and,Bool.false_eq_true,if_false,found]
  exact ⟨_,rfl,⟨rfl,at_.stored,rfl,bound⟩,rfl⟩

theorem At.next {position : Nat} {p : Playlist Id} (at_ : At queue position p)
    (more : position + 1 < queue.length ∨ p.repeatMode = .all) : ∃ q,
      p.getNextTrack = (.ok queue[(position + 1) % queue.length]?,q) ∧
        At queue ((position + 1) % queue.length) q ∧ q.repeatMode = p.repeatMode := by
  have inside := at_.inside
  unfold getNextTrack
  by_cases forward : position + 1 < queue.length
  · have test : p.playbackQueuePosition < (p.playbackQueue.length : Int) - 1 := by
      rw [at_.cursor,at_.stored,List.length_map]
      omega
    have cursor : p.playbackQueuePosition + 1 = ((position + 1 : Nat) : Int) := by
      rw [at_.cursor]
      rfl
    rw [if_pos test,cursor,Nat.mod_eq_of_lt forward]
    exact at_.read forward
  · have test : ¬ p.playbackQueuePosition < (p.playbackQueue.length : Int) - 1 := by
      rw [at_.cursor,at_.stored,List.length_map]
      omega
    have round : (position + 1) % queue.length = 0 := by
      have last : position + 1 = queue.length := by omega
      rw [last,Nat.mod_self]
    have first : 0 < queue.length := by omega
    rw [if_neg test,if_pos (more.resolve_left forward),round]
    exact at_.read first

theorem At.available {position : Nat} {p : Playlist Id} (at_ : At queue position p) :
    p.isNextTrackAvailable = (decide (position + 1 < queue.length) || p.repeatMode != .off) := by
  have same : (p.playbackQueuePosition < (p.playbackQueue.length : Int) - 1) ↔
      position + 1 < queue.length := by
    rw [at_.cursor,at_.stored,List.length_map]
    omega
  unfold isNextTrackAvailable
  simp only [same]

theorem trackEnds_off (count : Nat) {position : Nat} {p : Playlist Id} (at_ : At queue position p)
    (off : p.repeatMode = .off) (r : ReaderTracks Id) :
    trackEnds count p r = RepeatMode.off.following queue position count := by
  induction count generalizing position p r with
  | zero => simp [trackEnds,RepeatMode.following]
  | succ count ih =>
    unfold trackEnds atTrackEnd RepeatMode.following
    rw [at_.available,off]
    by_cases more : position + 1 < queue.length
    · obtain ⟨q,next,going,same⟩ := at_.next (.inl more)
      rw [Nat.mod_eq_of_lt more] at next going
      simp only [more,decide_true,Bool.true_or,Bool.not_true,Bool.false_eq_true,if_false,next,
        reduceCtorEq]
      rw [ih going (same.trans off),List.drop_eq_getElem_cons more,List.map_cons,List.cons_append,
        List.take_succ_cons,List.getElem?_eq_getElem more]
      rfl
    · simp [more,List.drop_eq_nil_of_le (by omega : queue.length ≤ position + 1)]

theorem trackEnds_all (count : Nat) {position : Nat} {p : Playlist Id} (at_ : At queue position p)
    (all : p.repeatMode = .all) (r : ReaderTracks Id) :
    trackEnds count p r = RepeatMode.all.following queue position count := by
  induction count generalizing position p r with
  | zero => simp [trackEnds,RepeatMode.following]
  | succ count ih =>
    obtain ⟨q,next,going,same⟩ := at_.next (.inr all)
    have available : p.isNextTrackAvailable = true := by simp [at_.available,all]
    unfold trackEnds atTrackEnd
    simp only [available,all,next,Bool.not_true,Bool.false_eq_true,if_false,reduceCtorEq]
    rw [ih going (same.trans all)]
    unfold RepeatMode.following
    dsimp only
    rw [List.range_succ_eq_map,List.map_cons,List.map_map]
    congr 1
    apply List.map_congr_left
    intro i _
    have index : ((position + 1) % queue.length + i + 1) % queue.length =
        (position + (i + 1) + 1) % queue.length := by
      rw [Nat.add_assoc,Nat.mod_add_mod]
      congr 1
      omega
    simp only [Function.comp_apply,Nat.succ_eq_add_one,index]

theorem trackEnds_one (count : Nat) {position : Nat} {p : Playlist Id} (at_ : At queue position p)
    (one : p.repeatMode = .one) (r : ReaderTracks Id)
    (playing : r.takeQueued.playingTrackId = queue[position]?) :
    trackEnds count p r = RepeatMode.one.following queue position count := by
  induction count generalizing r with
  | zero => simp [trackEnds,RepeatMode.following]
  | succ count ih =>
    have inside := at_.inside
    have present : queue[position]? = some queue[position] := List.getElem?_eq_getElem inside
    have available : p.isNextTrackAvailable = true := by simp [at_.available,one]
    unfold trackEnds atTrackEnd
    simp only [available,one,Bool.not_true,Bool.false_eq_true,if_false,if_true,playing]
    rw [ih]
    · rfl
    · rw [present]
      rfl

end Advance

theorem reachable_repeat (toggles : Nat) : RepeatMode.toggleRepeat^[toggles] .off ≠ .infinite := by
  induction toggles with
  | zero => exact nofun
  | succ toggles ih =>
    rw [Function.iterate_succ_apply']
    cases mode : RepeatMode.toggleRepeat^[toggles] .off with
    | infinite => exact absurd mode ih
    | _ => exact nofun

/-- Played on from any position with shuffle off, the queue is handed out in order up to its end,
round and round, or the one track again and again, as the repeat mode says. -/
theorem advance_in_order (p : Playlist Id) (unshuffled : p.shuffle = false) (toggles : Nat)
    (mode : p.repeatMode = RepeatMode.toggleRepeat^[toggles] .off) (queue : List Id) (position : Nat)
    (inside : position < queue.length) (shuffler : Shuffler) (playingTrackId : Option Id) (count : Nat) :
    p.playThrough (queue.map some) position shuffler playingTrackId count =
      p.repeatMode.following queue position count := by
  have low : (position : Int) < (queue.map some).length := by
    rw [List.length_map]
    omega
  have short : ¬ (position : Int) > (queue.map some).length := by omega
  have found : getAt (queue.map some) position = .ok queue[position]? := by
    rw [getAt_nat (by simpa using inside)]
    simp [inside]
  have played : ∃ q, p.playFrom (queue.map some) position shuffler = (some (.ok queue[position]?),q) ∧
      At queue position q ∧ q.repeatMode = p.repeatMode := by
    unfold playFrom setPlaybackQueue getTrackIdAt
    rw [if_pos low]
    simp only [unshuffled,Bool.false_eq_true,if_false,if_neg short,Bool.false_and,found]
    exact ⟨_,rfl,⟨rfl,rfl,rfl,inside⟩,rfl⟩
  obtain ⟨q,played,at_,same⟩ := played
  unfold playThrough
  rw [played]
  dsimp only
  cases repeats : p.repeatMode with
  | off => exact trackEnds_off count at_ (same.trans repeats) _
  | all => exact trackEnds_all count at_ (same.trans repeats) _
  | one =>
    apply trackEnds_one count at_ (same.trans repeats)
    rw [List.getElem?_eq_getElem inside]
    rfl
  | infinite => exact absurd (mode.symm.trans repeats) (reachable_repeat toggles)

/-- Two tracks with repeat all. -/
theorem advance_in_order_two :
    let p : Playlist Nat := ⟨0,0,none,[],none,false,.all⟩
    p.playThrough [some 7,some 8] 1 ⟨id,fun _ => .refl _⟩ none 3 = p.repeatMode.following [7,8] 1 3 :=
  advance_in_order ⟨0,0,none,[],none,false,.all⟩ rfl 1 rfl [7,8] 1 (by decide) ⟨id,fun _ => .refl _⟩ none 3

end Playlist
end Chipbox.Player
