import Chipbox.Playback.Commands
import Chipbox.Player.IndexSafety

/-! The skip back, in runs of commands in which the threads report positions to the player. -/
namespace Chipbox.Playback
open Chipbox.Player (Playlist Shuffler)

/-- The player, with the position last reported for the playing track, which nothing reads. -/
structure Reporting (Id : Type) where
  player : Player Id
  reported : Option Int

inductive ReportingEvent (Id : Type)
  | command (given : PlayerCommand Id)
  | onPlaybackPositionUpdate (millisPlayed : Int)

namespace Player
variable {Id : Type}

/-- `onPlaybackPositionUpdate` sends an event to the screen. -/
def onPlaybackPositionUpdate (p : Player Id) (_millisPlayed : Int) : Player Id := p

end Player

namespace Reporting
variable {Id : Type}

def initial : Reporting Id := ⟨.initial,none⟩

def reportedAfter (reported : Option Int) : PlayerCommand Id → Option Int
  | .trackChanged _ => none
  | _ => reported

def step (s : Reporting Id) : ReportingEvent Id → Option (Reporting Id)
  | .command given => some ⟨s.player.after given,reportedAfter s.reported given⟩
  | .onPlaybackPositionUpdate millisPlayed =>
    some ⟨s.player.onPlaybackPositionUpdate millisPlayed,some millisPlayed⟩

/-- The playing track was last reported beyond its first three seconds. -/
def InProgress (s : Reporting Id) : Prop := ∃ position, s.reported = some position ∧ position > 3000

structure Restarts (p after : Player Id) : Prop where
  playlist : after.playlist = p.playlist
  queuedTrackId : after.reader.map ReaderRequests.queuedTrackId = p.reader.map ReaderRequests.queuedTrackId
  queuedSeekPosition : after.reader.map ReaderRequests.queuedSeekPosition = some (some 0)

structure MovesBack (p after : Player Id) : Prop where
  position : after.playlist.playbackQueuePosition = p.playlist.playbackQueuePosition - 1
  queuedTrackId : ∀ trackId, p.playlist.getPrevTrack.1 = .ok trackId →
    after.reader.map ReaderRequests.queuedTrackId = p.reader.map fun _ => trackId

/-- What a skip back is for: a track in progress starts again, any other gives way to the one before. -/
def SkipsBack (s : Reporting Id) : ReportingEvent Id → Prop
  | .command (.skipToPrev focusGranted) =>
    (s.InProgress → Restarts s.player (s.player.after (.skipToPrev focusGranted))) ∧
      (¬ s.InProgress → s.player.playlist.playbackQueuePosition > 0 →
        MovesBack s.player (s.player.after (.skipToPrev focusGranted)))
  | _ => True

/-- A skip back in the middle of a track is made at the start of the playlist, with a reader. -/
def AtStart (s : Reporting Id) : ReportingEvent Id → Prop
  | .command (.skipToPrev _) => s.InProgress →
    s.player.playlist.playbackQueuePosition ≤ 0 ∧ s.player.reader.isSome
  | _ => True

end Reporting

namespace Player
variable {Id : Type}

structure SamePlace (p q : Player Id) : Prop where
  playbackTimePosition : q.playbackTimePosition = p.playbackTimePosition
  playlist : q.playlist = p.playlist
  reader : q.reader = p.reader

theorem start_samePlace (p : Player Id) (trackId : Option Id) (focusGranted : Bool) :
    SamePlace p (p.start trackId focusGranted) := by
  unfold start
  split
  · exact ⟨rfl,rfl,rfl⟩
  · split
    · dsimp only
      cases trackId.or p.playlist.playingTrackId <;> exact ⟨rfl,rfl,rfl⟩
    · exact ⟨rfl,rfl,rfl⟩

theorem handOn_place (p : Player Id) (trackId : Option Id) (focusGranted : Bool) :
    (p.handOn trackId focusGranted).playbackTimePosition = p.playbackTimePosition ∧
      (p.handOn trackId focusGranted).playlist = p.playlist ∧
      (p.handOn trackId focusGranted).reader.map ReaderRequests.queuedTrackId =
        p.reader.map fun _ => trackId := by
  unfold handOn
  cases held : p.reader with
  | none =>
    have same := start_samePlace p trackId focusGranted
    exact ⟨same.1,same.2,by rw [same.3,held]; rfl⟩
  | some reader =>
    have same := start_samePlace {p with reader := some {reader with queuedTrackId := trackId}} none
      focusGranted
    exact ⟨same.1,same.2,by rw [same.3]; rfl⟩

theorem pause_playbackTimePosition (p : Player Id) :
    p.pause.playbackTimePosition = p.playbackTimePosition := by
  unfold pause
  split <;> rfl

theorem stop_playbackTimePosition (p : Player Id) :
    p.stop.playbackTimePosition = p.playbackTimePosition := by
  unfold stop
  split <;> rfl

/-- No command writes the position that `skipToPrev` reads. -/
theorem after_playbackTimePosition (p : Player Id) (command : PlayerCommand Id) :
    (p.after command).playbackTimePosition = p.playbackTimePosition := by
  cases command with
  | start trackId focusGranted => exact (start_samePlace p trackId focusGranted).1
  | play playbackQueue position shuffler focusGranted =>
    simp only [after,play]
    split
    · exact (handOn_place _ _ focusGranted).1
    · rfl
  | playPosition position focusGranted =>
    simp only [after,playPosition]
    split
    · exact (handOn_place _ _ focusGranted).1
    · rfl
  | skipToNext focusGranted =>
    simp only [after,skipToNext]
    split
    · exact (handOn_place _ _ focusGranted).1
    · rfl
  | skipToPrev focusGranted =>
    simp only [after,skipToPrev]
    split
    · rfl
    · split
      · split
        · exact (handOn_place _ _ focusGranted).1
        · rfl
      · rfl
  | pause => exact pause_playbackTimePosition p
  | stop => exact stop_playbackTimePosition p
  | playlistFinished => exact stop_playbackTimePosition p
  | onAudioFocusChange focusChange focusGranted =>
    cases focusChange with
    | loss => exact pause_playbackTimePosition p
    | lossTransient =>
      simp only [after,onAudioFocusChange]
      rw [pause_playbackTimePosition]
      split <;> rfl
    | lossTransientCanDuck => rfl
    | gain =>
      simp only [after,onAudioFocusChange]
      split
      · exact (start_samePlace _ _ focusGranted).1
      · rfl
  | _ => rfl

theorem getPrevTrack_position {playlist : Playlist Id} (above : playlist.playbackQueuePosition > 0) :
    playlist.getPrevTrack.2.playbackQueuePosition = playlist.playbackQueuePosition - 1 := by
  unfold Playlist.getPrevTrack
  rw [if_pos above]
  exact (Playlist.getTrackIdAt_position _ _ false).1

/-- Above the start of the playlist a skip back moves, whatever was reported. -/
theorem skipToPrev_moves {p : Player Id} (zero : p.playbackTimePosition = 0)
    (above : p.playlist.playbackQueuePosition > 0) (focusGranted : Bool) :
    Reporting.MovesBack p (p.skipToPrev focusGranted) := by
  have moved := getPrevTrack_position above
  unfold skipToPrev
  rw [if_neg (by omega),if_pos above]
  rcases given : p.playlist.getPrevTrack with ⟨result,playlist⟩
  rw [given] at moved
  cases result with
  | error error => exact ⟨moved,fun trackId read => by rw [given] at read; cases read⟩
  | ok prevTrack =>
    obtain ⟨_,kept,asked⟩ := handOn_place {p with playlist := playlist} prevTrack focusGranted
    refine ⟨(congrArg _ kept).trans moved,fun trackId read => ?_⟩
    rw [given] at read
    cases read
    exact asked

theorem skipToPrev_first {p : Player Id} (zero : p.playbackTimePosition = 0)
    (first : p.playlist.playbackQueuePosition ≤ 0) (focusGranted : Bool) :
    p.skipToPrev focusGranted = p.seek 0 := by
  unfold skipToPrev
  rw [if_neg (by omega),if_neg (by omega)]

end Player

namespace Reporting
variable {Id : Type}

theorem restarts_iff {p : Player Id} (zero : p.playbackTimePosition = 0) (focusGranted : Bool) :
    Restarts p (p.skipToPrev focusGranted) ↔
      p.playlist.playbackQueuePosition ≤ 0 ∧ p.reader.isSome := by
  by_cases first : p.playlist.playbackQueuePosition ≤ 0
  · rw [Player.skipToPrev_first zero first]
    unfold Player.seek
    cases held : p.reader with
    | none => exact iff_of_false (fun restarts => nomatch restarts.3) (fun both => nomatch both.2)
    | some reader => exact iff_of_true ⟨rfl,by rw [held]; rfl,rfl⟩ ⟨first,rfl⟩
  · refine iff_of_false (fun restarts => ?_) (fun both => first both.1)
    have moved := (Player.skipToPrev_moves zero (by omega) focusGranted).position
    rw [restarts.playlist] at moved
    omega

theorem skipsBack_iff {s : Reporting Id} (zero : s.player.playbackTimePosition = 0)
    (event : ReportingEvent Id) : s.SkipsBack event ↔ s.AtStart event := by
  cases event with
  | onPlaybackPositionUpdate millisPlayed => exact Iff.rfl
  | command given =>
    cases given with
    | skipToPrev focusGranted =>
      have moves : ¬ s.InProgress → s.player.playlist.playbackQueuePosition > 0 →
          MovesBack s.player (s.player.skipToPrev focusGranted) :=
        fun _ above => Player.skipToPrev_moves zero above focusGranted
      exact (and_iff_left moves).trans (imp_congr_right fun _ => restarts_iff zero focusGranted)
    | _ => exact Iff.rfl

theorem step_playbackTimePosition {s t : Reporting Id} {event : ReportingEvent Id}
    (zero : s.player.playbackTimePosition = 0) (taken : s.step event = some t) :
    t.player.playbackTimePosition = 0 := by
  cases event with
  | command given =>
    cases taken
    exact (s.player.after_playbackTimePosition given).trans zero
  | onPlaybackPositionUpdate millisPlayed =>
    cases taken
    exact zero

/-- A run skips back as asked exactly when no track in progress is skipped back above the start of
the playlist or without a reader. -/
theorem skips_back_iff (events : List (ReportingEvent Id)) :
    Run.Meets step SkipsBack (initial : Reporting Id) events ↔
      Run.Meets step AtStart (initial : Reporting Id) events := by
  have start : (initial : Reporting Id).player.playbackTimePosition = 0 := rfl
  constructor
  · exact Run.meets_of_meets (fun _ _ _ zero _ taken => step_playbackTimePosition zero taken)
      (fun _ event zero => (skipsBack_iff zero event).mp) start
  · exact Run.meets_of_meets (fun _ _ _ zero _ taken => step_playbackTimePosition zero taken)
      (fun _ event zero => (skipsBack_iff zero event).mpr) start

def inOrder : Shuffler := ⟨id,fun _ => .refl _⟩

def secondTrack : List (ReportingEvent Nat) :=
  [.command (.play [some 7,some 8] 1 inOrder true),.command (.readerCreated ⟨some 8,none⟩),
    .command (.trackChanged 8),.onPlaybackPositionUpdate 5000,.command (.skipToPrev true)]

/-- The track gives way to the one before. -/
theorem not_restarted : ¬ Run.Meets step SkipsBack initial secondTrack := by
  intro met
  have last := met.2.2.2.2.1.1 ⟨5000,rfl,by decide⟩
  exact absurd (congrArg (·.playbackQueuePosition) last.playlist) (by decide)

end Reporting
end Chipbox.Playback
