import Chipbox.Player.Playlist

/-! The commands of `Player` as the user and the system give them, one after the other, and
what the reader and writer threads do to the player in between. -/
namespace Chipbox.Playback
open Chipbox.Player (Playlist Shuffler)

inductive PlaybackState
  | stopped | paused | playing | error
  deriving DecidableEq, Repr

structure ReaderRequests (Id : Type) where
  queuedTrackId : Option Id
  queuedSeekPosition : Option Int

structure Player (Id : Type) where
  state : PlaybackState
  playbackTimePosition : Int
  focusLossPaused : Bool
  playlist : Playlist Id
  reader : Option (ReaderRequests Id)
  /-- the writer, by whether it is ducking -/
  writer : Option Bool
  readerCount : Nat
  writerCount : Nat

inductive FocusChange
  | loss | lossTransient | lossTransientCanDuck | gain
  deriving DecidableEq, Repr

namespace Player
variable {Id : Type}

def initial : Player Id := ⟨.stopped,0,false,.initial,none,none,0,0⟩

/-- The counts are those of the threads started. -/
def start (p : Player Id) (trackId : Option Id) (focusGranted : Bool) : Player Id :=
  if p.state = .playing then p
  else if focusGranted then
    let p := {p with state := .playing}
    match trackId.or p.playlist.playingTrackId with
    | none => p
    | some _ => {p with readerCount := p.readerCount + 1, writerCount := p.writerCount + 1}
  else p

/-- The end of `play` and `skipToNext`: a reader there is asked for the track. -/
def handOn (p : Player Id) (trackId : Option Id) (focusGranted : Bool) : Player Id :=
  match p.reader with
  | some reader => start {p with reader := some {reader with queuedTrackId := trackId}} none focusGranted
  | none => p.start trackId focusGranted

def play (p : Player Id) (playbackQueue : List (Option Id)) (position : Int) (shuffler : Shuffler)
    (focusGranted : Bool) : Player Id :=
  match p.playlist.playFrom playbackQueue position shuffler with
  | (some (.ok trackId),playlist) => {p with playlist := playlist}.handOn trackId focusGranted
  | (_,playlist) => {p with playlist := playlist}

def playPosition (p : Player Id) (position : Int) (focusGranted : Bool) : Player Id :=
  match p.playlist.playAt position with
  | (.ok trackId,playlist) => {p with playlist := playlist}.handOn trackId focusGranted
  | (.error _,playlist) => {p with playlist := playlist}

def skipToNext (p : Player Id) (focusGranted : Bool) : Player Id :=
  match p.playlist.getNextTrack with
  | (.ok nextTrack,playlist) => {p with playlist := playlist}.handOn nextTrack focusGranted
  | (.error _,playlist) => {p with playlist := playlist}

def seek (p : Player Id) (seekPosition : Int) : Player Id :=
  {p with reader := p.reader.map fun reader => {reader with queuedSeekPosition := some seekPosition}}

def skipToPrev (p : Player Id) (focusGranted : Bool) : Player Id :=
  if p.playbackTimePosition > 3000 then p.seek 0
  else if p.playlist.playbackQueuePosition > 0 then
    match p.playlist.getPrevTrack with
    | (.ok prevTrack,playlist) => {p with playlist := playlist}.handOn prevTrack focusGranted
    | (.error _,playlist) => {p with playlist := playlist}
  else p.seek 0

def pause (p : Player Id) : Player Id :=
  if p.state ≠ .playing then p else {p with state := .paused}

def stop (p : Player Id) : Player Id :=
  if p.state = .stopped then p else {p with state := .stopped, reader := none}

def onAudioFocusChange (p : Player Id) (focusChange : FocusChange) (focusGranted : Bool) : Player Id :=
  match focusChange with
  | .loss => p.pause
  | .lossTransient => (if p.state = .playing then {p with focusLossPaused := true} else p).pause
  | .lossTransientCanDuck => {p with writer := p.writer.map fun _ => true}
  | .gain =>
    let p := {p with writer := p.writer.map fun _ => false}
    if p.focusLossPaused then {p.start none focusGranted with focusLossPaused := false} else p

end Player

/-- A command, with the answer to a request for audio focus, or something a thread does. -/
inductive PlayerCommand (Id : Type)
  | start (trackId : Option Id) (focusGranted : Bool)
  | play (playbackQueue : List (Option Id)) (position : Int) (shuffler : Shuffler)
      (focusGranted : Bool)
  | playPosition (position : Int) (focusGranted : Bool)
  | skipToNext (focusGranted : Bool)
  | skipToPrev (focusGranted : Bool)
  | seek (seekPosition : Int)
  | pause
  | stop
  | onAudioFocusChange (focusChange : FocusChange) (focusGranted : Bool)
  | readerCreated (requests : ReaderRequests Id)
  | readerCleared
  | writerCreated
  | writerCleared
  | trackChanged (trackId : Id)
  | trackEnded
  | playlistFinished
  | writerTimedOut

namespace Player
variable {Id : Type}

def after (p : Player Id) : PlayerCommand Id → Player Id
  | .start trackId focusGranted => p.start trackId focusGranted
  | .play playbackQueue position shuffler focusGranted =>
    p.play playbackQueue position shuffler focusGranted
  | .playPosition position focusGranted => p.playPosition position focusGranted
  | .skipToNext focusGranted => p.skipToNext focusGranted
  | .skipToPrev focusGranted => p.skipToPrev focusGranted
  | .seek seekPosition => p.seek seekPosition
  | .pause => p.pause
  | .stop => p.stop
  | .onAudioFocusChange focusChange focusGranted => p.onAudioFocusChange focusChange focusGranted
  | .readerCreated requests => {p with reader := some requests}
  | .readerCleared => {p with reader := none}
  | .writerCreated => {p with writer := some false}
  | .writerCleared => {p with writer := none}
  | .trackChanged trackId => {p with playlist := {p.playlist with playingTrackId := some trackId}}
  | .trackEnded => {p with playlist := p.playlist.getNextTrack.2}
  | .playlistFinished => p.stop
  | .writerTimedOut => {p with state := .error}

/-- The call of `start` that a command makes: the player, the track and the focus answer. -/
def startCall (p : Player Id) : PlayerCommand Id → Option (Player Id × Option Id × Bool)
  | .start trackId focusGranted => some (p,trackId,focusGranted)
  | .play playbackQueue position shuffler focusGranted =>
    match p.playlist.playFrom playbackQueue position shuffler with
    | (some (.ok trackId),playlist) => some (handedOn {p with playlist := playlist} trackId focusGranted)
    | _ => none
  | .playPosition position focusGranted =>
    match p.playlist.playAt position with
    | (.ok trackId,playlist) => some (handedOn {p with playlist := playlist} trackId focusGranted)
    | _ => none
  | .skipToNext focusGranted =>
    match p.playlist.getNextTrack with
    | (.ok nextTrack,playlist) => some (handedOn {p with playlist := playlist} nextTrack focusGranted)
    | _ => none
  | .skipToPrev focusGranted =>
    if p.playbackTimePosition > 3000 then none
    else if p.playlist.playbackQueuePosition > 0 then
      match p.playlist.getPrevTrack with
      | (.ok prevTrack,playlist) => some (handedOn {p with playlist := playlist} prevTrack focusGranted)
      | _ => none
    else none
  | .onAudioFocusChange .gain focusGranted =>
    if p.focusLossPaused then some ({p with writer := p.writer.map fun _ => false},none,focusGranted)
    else none
  | _ => none
where
  handedOn (p : Player Id) (trackId : Option Id) (focusGranted : Bool) :
      Player Id × Option Id × Bool :=
    match p.reader with
    | some reader => ({p with reader := some {reader with queuedTrackId := trackId}},none,focusGranted)
    | none => (p,trackId,focusGranted)

def halted (p : Player Id) : PlayerCommand Id → PlaybackState
  | .pause | .onAudioFocusChange .loss _ | .onAudioFocusChange .lossTransient _ =>
    if p.state = .playing then .paused else p.state
  | .stop | .playlistFinished => .stopped
  | .writerTimedOut => .error
  | _ => p.state

/-- The two players differ at most in their playlist, their reader's requests and their
writer's volume. -/
structure SameStatus (p q : Player Id) : Prop where
  state : q.state = p.state
  focusLossPaused : q.focusLossPaused = p.focusLossPaused
  readerCount : q.readerCount = p.readerCount
  writerCount : q.writerCount = p.writerCount

theorem SameStatus.refl (p : Player Id) : SameStatus p p := ⟨rfl,rfl,rfl,rfl⟩

theorem handedOn_spec {p q : Player Id} (same : SameStatus p q) (trackId : Option Id)
    (focusGranted : Bool) : ∃ r own granted,
      startCall.handedOn q trackId focusGranted = (r,own,granted) ∧ SameStatus p r ∧
        q.handOn trackId focusGranted = r.start own granted := by
  unfold startCall.handedOn handOn
  cases q.reader with
  | none => exact ⟨q,trackId,focusGranted,rfl,same,rfl⟩
  | some reader => exact ⟨_,none,focusGranted,rfl,⟨same.1,same.2,same.3,same.4⟩,rfl⟩

def isLossTransient : PlayerCommand Id → Bool
  | .onAudioFocusChange .lossTransient _ => true
  | _ => false

/-- The command calls `start` once, from the player as it was but for requests and playlist. -/
def Starts (p : Player Id) (command : PlayerCommand Id) : Prop :=
  ∃ q trackId focusGranted, p.startCall command = some (q,trackId,focusGranted) ∧
    SameStatus p q ∧ (p.after command = q.start trackId focusGranted ∨
      p.after command = {q.start trackId focusGranted with focusLossPaused := false})

structure Halts (p : Player Id) (command : PlayerCommand Id) : Prop where
  silent : p.startCall command = none
  state : (p.after command).state = p.halted command
  readerCount : (p.after command).readerCount = p.readerCount
  writerCount : (p.after command).writerCount = p.writerCount
  focusLossPaused : (p.after command).focusLossPaused =
    (p.focusLossPaused || (isLossTransient command && p.state == .playing))

theorem handOn_starts {p q : Player Id} {command : PlayerCommand Id} (same : SameStatus p q)
    (trackId : Option Id) (focusGranted : Bool)
    (call : p.startCall command = some (startCall.handedOn q trackId focusGranted))
    (ran : p.after command = q.handOn trackId focusGranted) : p.Starts command := by
  obtain ⟨r,own,granted,handed,kept,result⟩ := handedOn_spec same trackId focusGranted
  exact ⟨r,own,granted,call.trans (congrArg some handed),kept,.inl (ran.trans result)⟩

theorem after_cases (p : Player Id) (command : PlayerCommand Id) :
    p.Starts command ∨ p.Halts command := by
  have kept (playlist : Playlist Id) : SameStatus p {p with playlist := playlist} := ⟨rfl,rfl,rfl,rfl⟩
  cases command with
  | start trackId focusGranted => exact .inl ⟨p,trackId,focusGranted,rfl,.refl p,.inl rfl⟩
  | play playbackQueue position shuffler focusGranted =>
    rcases taken : p.playlist.playFrom playbackQueue position shuffler with ⟨result,playlist⟩
    rcases result with _ | error | trackId
    · exact .inr (by constructor <;> simp [startCall,after,play,taken,halted,isLossTransient])
    · exact .inr (by constructor <;> simp [startCall,after,play,taken,halted,isLossTransient])
    · exact .inl (handOn_starts (kept playlist) trackId focusGranted (by simp [startCall,taken])
        (by simp [after,play,taken]))
  | playPosition position focusGranted =>
    rcases taken : p.playlist.playAt position with ⟨result,playlist⟩
    rcases result with error | trackId
    · exact .inr (by constructor <;> simp [startCall,after,playPosition,taken,halted,isLossTransient])
    · exact .inl (handOn_starts (kept playlist) trackId focusGranted (by simp [startCall,taken])
        (by simp [after,playPosition,taken]))
  | skipToNext focusGranted =>
    rcases taken : p.playlist.getNextTrack with ⟨result,playlist⟩
    rcases result with error | trackId
    · exact .inr (by constructor <;> simp [startCall,after,skipToNext,taken,halted,isLossTransient])
    · exact .inl (handOn_starts (kept playlist) trackId focusGranted (by simp [startCall,taken])
        (by simp [after,skipToNext,taken]))
  | skipToPrev focusGranted =>
    by_cases late : p.playbackTimePosition > 3000
    · exact .inr (by
        constructor <;> simp [startCall,after,skipToPrev,late,seek,halted,isLossTransient])
    · by_cases first : p.playlist.playbackQueuePosition > 0
      · rcases taken : p.playlist.getPrevTrack with ⟨result,playlist⟩
        rcases result with error | trackId
        · exact .inr (by
            constructor <;> simp [startCall,after,skipToPrev,late,first,taken,halted,isLossTransient])
        · exact .inl (handOn_starts (kept playlist) trackId focusGranted
            (by simp [startCall,late,first,taken]) (by simp [after,skipToPrev,late,first,taken]))
      · exact .inr (by
          constructor <;> simp [startCall,after,skipToPrev,late,first,seek,halted,isLossTransient])
  | onAudioFocusChange focusChange focusGranted =>
    cases focusChange with
    | gain =>
      by_cases flagged : p.focusLossPaused = true
      · refine .inl ⟨{p with writer := p.writer.map fun _ => false},none,focusGranted,?_,
          ⟨rfl,rfl,rfl,rfl⟩,.inr ?_⟩
        · simp [startCall,flagged]
        · simp [after,onAudioFocusChange,flagged]
      · exact .inr (by
          constructor <;> simp [startCall,after,onAudioFocusChange,flagged,halted,isLossTransient])
    | loss =>
      refine .inr ⟨rfl,?_,?_,?_,?_⟩ <;> simp only [after,onAudioFocusChange,pause,halted] <;>
        by_cases playing : p.state = .playing <;> simp [playing,isLossTransient]
    | lossTransient =>
      refine .inr ⟨rfl,?_,?_,?_,?_⟩ <;> simp only [after,onAudioFocusChange,pause,halted] <;>
        by_cases playing : p.state = .playing <;> simp [playing,isLossTransient]
    | lossTransientCanDuck =>
      exact .inr (by constructor <;> simp [startCall,after,onAudioFocusChange,halted,isLossTransient])
  | pause =>
    refine .inr ⟨rfl,?_,?_,?_,?_⟩ <;> simp only [after,pause,halted] <;>
      by_cases playing : p.state = .playing <;> simp [playing,isLossTransient]
  | stop =>
    refine .inr ⟨rfl,?_,?_,?_,?_⟩ <;> simp only [after,stop,halted] <;>
      by_cases stopped : p.state = .stopped <;> simp [stopped,isLossTransient]
  | playlistFinished =>
    refine .inr ⟨rfl,?_,?_,?_,?_⟩ <;> simp only [after,stop,halted] <;>
      by_cases stopped : p.state = .stopped <;> simp [stopped,isLossTransient]
  | _ => exact .inr (by constructor <;> simp [startCall,after,seek,halted,isLossTransient])

theorem halted_ne_playing (p : Player Id) {command : PlayerCommand Id}
    (halts : p.halted command ≠ p.state) : p.halted command ≠ .playing ∧ p.startCall command = none := by
  cases command with
  | onAudioFocusChange focusChange focusGranted =>
    cases focusChange <;> simp only [halted,startCall] at halts ⊢
    · split at halts <;> simp_all
    · split at halts <;> simp_all
    · exact absurd rfl halts
    · exact absurd rfl halts
  | pause =>
    simp only [halted,startCall] at halts ⊢
    split at halts <;> simp_all
  | stop => simp [halted,startCall]
  | playlistFinished => simp [halted,startCall]
  | writerTimedOut => simp [halted,startCall]
  | _ => exact absurd rfl halts

theorem start_state (p : Player Id) (trackId : Option Id) (focusGranted : Bool) :
    (p.start trackId focusGranted).state = if focusGranted then .playing else p.state := by
  unfold start
  split
  next here => simp [here]
  next =>
    split
    next granted =>
      dsimp only
      cases trackId.or p.playlist.playingTrackId <;> rfl
    next => rfl

theorem start_focusLossPaused (p : Player Id) (trackId : Option Id) (focusGranted : Bool) :
    (p.start trackId focusGranted).focusLossPaused = p.focusLossPaused := by
  unfold start
  split
  · rfl
  · split
    · dsimp only
      cases trackId.or p.playlist.playingTrackId <;> rfl
    · rfl

end Player
end Chipbox.Playback
