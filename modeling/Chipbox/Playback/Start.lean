import Chipbox.Foundation.Run
import Chipbox.Playback.Commands

/-! When `start` leaves the player playing without the threads that play. -/
namespace Chipbox.Playback
open Chipbox.Player (Playlist Shuffler)
variable {Id : Type}

namespace Player

/-- Both threads are started and the state is playing, or nothing happens. -/
def AllOrNothing (p : Player Id) (trackId : Option Id) (focusGranted : Bool) : Prop :=
  let after := p.start trackId focusGranted
  (after.state = .playing ∧ after.readerCount = p.readerCount + 1 ∧
    after.writerCount = p.writerCount + 1) ∨ after = p

/-- The call of `start` passes its guards and there is no track to play. -/
def Trackless (p : Player Id) (trackId : Option Id) (focusGranted : Bool) : Prop :=
  p.state ≠ .playing ∧ focusGranted = true ∧ trackId = none ∧ p.playlist.playingTrackId = none

theorem start_cases (p : Player Id) (trackId : Option Id) (focusGranted : Bool) :
    (p.start trackId focusGranted = p ∧ ¬ p.Trackless trackId focusGranted ∧
      (p.state = .playing ∨ focusGranted = false)) ∨
    (p.Trackless trackId focusGranted ∧ p.start trackId focusGranted = {p with state := .playing}) ∨
    (p.state ≠ .playing ∧ ¬ p.Trackless trackId focusGranted ∧
      p.start trackId focusGranted = {p with
        state := .playing, readerCount := p.readerCount + 1, writerCount := p.writerCount + 1}) := by
  unfold start Trackless
  by_cases playing : p.state = .playing
  · exact .inl ⟨if_pos playing,fun trackless => trackless.1 playing,.inl playing⟩
  · cases focusGranted with
    | false => exact .inl ⟨by simp [playing],by simp,.inr rfl⟩
    | true =>
      right
      cases trackId with
      | some id => exact .inr ⟨playing,by simp,by simp [playing]⟩
      | none =>
        cases known : p.playlist.playingTrackId with
        | some id => exact .inr ⟨playing,by simp,by simp [playing,known]⟩
        | none => exact .inl ⟨⟨playing,rfl,rfl,rfl⟩,by simp [playing,known]⟩

theorem allOrNothing_iff (p : Player Id) (trackId : Option Id) (focusGranted : Bool) :
    p.AllOrNothing trackId focusGranted ↔ ¬ p.Trackless trackId focusGranted := by
  unfold AllOrNothing
  rcases p.start_cases trackId focusGranted with ⟨same,met,_⟩ | ⟨trackless,same⟩ | ⟨_,met,same⟩
  · exact iff_of_true (.inr same) met
  · refine iff_of_false ?_ (not_not.mpr trackless)
    rw [same]
    rintro (⟨_,counted,_⟩ | unchanged)
    · exact Nat.succ_ne_self _ counted.symm
    · exact trackless.1 (congrArg Player.state unchanged).symm
  · exact iff_of_true (.inl (by simp [same])) met

end Player

structure Threaded (Id : Type) where
  player : Player Id
  threads : Bool

namespace Threaded

def initial : Threaded Id := ⟨.initial,false⟩

def run (t : Threaded Id) (command : PlayerCommand Id) : Option (Threaded Id) :=
  let after := t.player.after command
  some ⟨after,if t.player.state ≠ .playing ∧ after.state = .playing then
    after.readerCount = t.player.readerCount + 1 ∧ after.writerCount = t.player.writerCount + 1
    else t.threads⟩

def Playable (t : Threaded Id) : Prop := t.player.state = .playing → t.threads = true

/-- The command calls `start` past its guards without a track. -/
def StartsTrackless (t : Threaded Id) (command : PlayerCommand Id) : Prop :=
  ∃ q trackId focusGranted, t.player.startCall command = some (q,trackId,focusGranted) ∧
    q.Trackless trackId focusGranted

theorem run_playable {t u : Threaded Id} {command : PlayerCommand Id} (playable : t.Playable)
    (taken : t.run command = some u) : u.Playable ↔ ¬ t.StartsTrackless command := by
  cases Option.some.inj taken
  unfold Playable at *
  dsimp only
  rcases t.player.after_cases command with ⟨q,trackId,focusGranted,call,same,ran⟩ | halts
  · have exactly : t.StartsTrackless command ↔ q.Trackless trackId focusGranted := by
      constructor
      · rintro ⟨_,_,_,other,trackless⟩
        cases call.symm.trans other
        exact trackless
      · exact fun trackless => ⟨q,trackId,focusGranted,call,trackless⟩
    rw [exactly]
    have state : (t.player.after command).state = (q.start trackId focusGranted).state := by
      rcases ran with ran | ran <;> rw [ran]
    have readers : (t.player.after command).readerCount = (q.start trackId focusGranted).readerCount := by
      rcases ran with ran | ran <;> rw [ran]
    have writers : (t.player.after command).writerCount = (q.start trackId focusGranted).writerCount := by
      rcases ran with ran | ran <;> rw [ran]
    rw [state,readers,writers,← same.readerCount,← same.writerCount,← same.state]
    rw [← same.state] at playable
    rcases q.start_cases trackId focusGranted with ⟨kept,met,_⟩ | ⟨trackless,kept⟩ | ⟨idle,met,kept⟩
    · refine iff_of_true ?_ met
      rw [kept]
      by_cases playing : q.state = .playing <;> simp [playing,playable]
    · refine iff_of_false ?_ (not_not.mpr trackless)
      rw [kept]
      simp [trackless.1]
    · refine iff_of_true ?_ met
      rw [kept]
      simp [idle]
  · have silent : ¬ t.StartsTrackless command := by
      rintro ⟨_,_,_,call,_⟩
      cases halts.silent.symm.trans call
    refine iff_of_true ?_ silent
    rw [halts.state]
    intro playing
    have before : t.player.state = .playing := by
      by_contra other
      exact (t.player.halted_ne_playing (by rw [playing]; exact fun same => other same.symm)).1 playing
    simp [before,playable before]

/-- Every call of `start` does all or nothing exactly when it is refused or has a track, and in
a run of commands, focus events and thread steps the player is never playing without threads
exactly when no command starts it without a track. -/
theorem start_all_or_nothing_iff (p : Player Id) (trackId : Option Id) (focusGranted : Bool)
    (commands : List (PlayerCommand Id)) :
    (p.AllOrNothing trackId focusGranted ↔ ¬ p.Trackless trackId focusGranted) ∧
    (Run.Always run Playable (initial : Threaded Id) commands ↔
      Run.Meets run (fun t command => ¬ t.StartsTrackless command) initial commands) := by
  refine ⟨p.allOrNothing_iff trackId focusGranted,?_⟩
  obtain ⟨finish,ran⟩ := Run.exec_total (fun _ _ => ⟨_,rfl⟩) (initial : Threaded Id) commands
  exact Run.always_iff_meets (fun _ playable => playable)
    (fun _ _ _ playable met taken => (run_playable playable taken).mpr met)
    (fun _ _ _ playable taken after => (run_playable playable taken).mp after) nofun ran

/-- Play is pressed before any track was ever played; the track chosen next is refused. -/
theorem start_without_threads :
    ∃ t u, Run.exec run (initial : Threaded Nat) [.start none true] = some t ∧
      t.player.state = .playing ∧ t.player.readerCount = 0 ∧ t.player.writerCount = 0 ∧
      Run.exec run t [.play [some 7] 0 ⟨id,fun _ => .refl _⟩ true] = some u ∧
      u.player.readerCount = 0 ∧ u.player.writerCount = 0 :=
  ⟨_,_,rfl,rfl,rfl,rfl,rfl,rfl,rfl⟩

end Threaded
end Chipbox.Playback
