import Chipbox.Foundation.Run
import Chipbox.Playback.Commands

/-! One `Reader.loop` and one `Writer.loop` on their two queues, step by step: each step makes
at most one access to what the threads share. A step that is not enabled is a thread that is
blocked or has ended. -/
namespace Chipbox.Playback

inductive BackendImpl
  | gme | vgm | psf | usf
  deriving DecidableEq, Repr

def implementations : List BackendImpl := [.gme,.vgm,.psf,.usf]

structure Backend where
  impl : BackendImpl
  /-- its latest life-cycle call is a `loadFile` that succeeded -/
  loaded : Bool
  deriving DecidableEq, Repr

def Backend.teardown (backend : Backend) : Backend := {backend with loaded := false}

structure AudioBuffer where
  id : Nat
  timeStamp : Int
  /-- the backend that filled it, observed and never read -/
  source : Option Backend
  /-- filled since the latest `backend.seek`, observed and never read -/
  fresh : Bool
  /-- in `fullBuffers` at a `backend.seek` since it was filled, observed and never read -/
  stale : Bool
  deriving DecidableEq, Repr

namespace AudioBuffer

def new (id : Nat) : AudioBuffer := ⟨id,-1,none,false,false⟩

def clear (b : AudioBuffer) : AudioBuffer :=
  {b with timeStamp := -1, source := none, fresh := false, stale := false}

def fill (b : AudioBuffer) (millisPlayed : Int) (source : Option Backend) (sought : Bool) : AudioBuffer :=
  {b with timeStamp := millisPlayed, source, fresh := sought, stale := false}

/-- What a `backend.seek` makes of a full buffer. -/
def outlive (b : AudioBuffer) : AudioBuffer := {b with fresh := false, stale := true}

end AudioBuffer

structure Track where
  backendId : Option Nat

/-- What the calls of a reader's step are answered: by the repository, the backend, the
playlist and the clock. -/
structure Answers (Id : Type) where
  getTrackSync : Option Track
  fileLoaded : Bool
  isTrackOver : Bool
  getMillisPlayed : Int
  getLastError : Option String
  isNextTrackAvailable : Bool
  repeatOne : Bool
  getNextTrack : Option Id
  timeout : Bool

def Answers.playing {Id : Type} : Answers Id where
  getTrackSync := some ⟨some 2⟩
  fileLoaded := true
  isTrackOver := false
  getMillisPlayed := 0
  getLastError := none
  isNextTrackAvailable := true
  repeatOne := false
  getNextTrack := none
  timeout := false

/-- What follows a `resetEmptyBuffers`. -/
inductive AfterReset (Id : Type)
  | load (trackId : Id) (track : Track)
  | finish

inductive ReaderPc (Id : Type)
  | loopHead
  | queuedTrack
  | getTrackSync (trackId : Id)
  | reset (next : AfterReset Id)
  | pollFull (next : AfterReset Id)
  | offer (nextBuffer : AudioBuffer) (next : AfterReset Id)
  | teardown (trackId : Id) (track : Track)
  | loadTrack (trackId : Id) (track : Track)
  | onTrackChange (trackId : Id)
  | clearBuffers (trackId : Id)
  | clearAdd (nextFullBuffer : AudioBuffer) (trackId : Id)
  | clearAll (trackId : Id)
  | setField (trackId : Id)
  | unqueueTrack
  | queuedSeek
  | seek (position : Int)
  | seekEnd (position : Int)
  | onSeek (position : Int)
  | unqueueSeek
  | isTrackOver
  | peek
  | trackOver
  | poll
  | read (audioBuffer : AudioBuffer)
  | readEnd (audioBuffer : AudioBuffer)
  | getLastError (audioBuffer : AudioBuffer)
  | checkState (audioBuffer : AudioBuffer)
  | checkOver (audioBuffer : AudioBuffer)
  | put (audioBuffer : AudioBuffer)
  | done

def AfterReset.pc {Id : Type} : AfterReset Id → ReaderPc Id
  | .load trackId track => .teardown trackId track
  | .finish => .done

/-- `clearBuffers` runs in the loop, with the buffer just written in hand, or after it. -/
inductive WriterPc
  | idle
  | loopHead
  | poll
  | wait
  | write (audioBuffer : AudioBuffer)
  | checkSeeking (audioBuffer : AudioBuffer)
  | clearBuffers (held : Option AudioBuffer)
  | clearAdd (nextFullBuffer : AudioBuffer) (held : Option AudioBuffer)
  | clearAll (held : Option AudioBuffer)
  | unflag (audioBuffer : AudioBuffer)
  | put (audioBuffer : AudioBuffer)
  | crashed (audioBuffer : AudioBuffer)
  | done

def WriterPc.afterClear : Option AudioBuffer → WriterPc
  | some audioBuffer => .unflag audioBuffer
  | none => .done

/-- The player has a writer from its creation to the end of its loop. -/
def WriterPc.attached : WriterPc → Bool
  | .idle | .done => false
  | _ => true

structure Pipeline (Id : Type) where
  state : PlaybackState
  emptyBuffers : List AudioBuffer
  fullBuffers : List AudioBuffer
  /-- buffers created so far, which names the next -/
  created : Nat
  readerPc : ReaderPc Id
  readerAttached : Bool
  queuedTrackId : Option Id
  resuming : Bool
  backend : Option Backend
  playingTrackId : Option Id
  queuedSeekPosition : Option Int
  writerPc : WriterPc
  seeking : Bool
  interrupted : Bool
  /-- a `backend.seek` has been made, observed and never read -/
  sought : Bool

inductive Command (Id : Type)
  | pause
  | stop
  /-- a `start` that finds no track and so starts no thread -/
  | startTrackless
  | queueTrack (trackId : Option Id)
  | seek (seekPosition : Int)

namespace Pipeline
variable {Id : Type}

def pause (s : Pipeline Id) : Pipeline Id :=
  if s.state = .playing then {s with state := .paused, interrupted := true} else s

def stop (s : Pipeline Id) : Pipeline Id :=
  if s.state = .stopped then s
  else {s with
    state := .stopped
    backend := if s.readerAttached then s.backend.map .teardown else s.backend
    readerAttached := false
    interrupted := true}

def command (s : Pipeline Id) : Command Id → Pipeline Id
  | .pause => s.pause
  | .stop => s.stop
  | .startTrackless => {s with state := .playing}
  | .queueTrack trackId => if s.readerAttached then {s with queuedTrackId := trackId} else s
  | .seek seekPosition =>
    if s.readerAttached then {s with queuedSeekPosition := some seekPosition} else s

/-- One step of `Reader.loop` and what it calls. A backend id without implementation throws. -/
def readerStep (bufferCount : Nat) (s : Pipeline Id) (answers : Answers Id) : Option (Pipeline Id) :=
  match s.readerPc with
  | .loopHead => some {s with
      readerPc := if s.state = .playing then .queuedTrack else .reset .finish}
  | .queuedTrack =>
    match s.queuedTrackId with
    | some trackId => some {s with readerPc := .getTrackSync trackId}
    | none => some {s with readerPc := .queuedSeek}
  | .getTrackSync trackId =>
    match answers.getTrackSync with
    | none => some {s with readerPc := .onTrackChange trackId}
    | some track =>
      if s.resuming then some {s with resuming := false, readerPc := .onTrackChange trackId}
      else some {s with readerPc := .reset (.load trackId track)}
  | .reset next => some {s with
      readerPc := if s.emptyBuffers.length < bufferCount then .pollFull next else next.pc}
  | .pollFull next =>
    match s.fullBuffers with
    | [] => some {s with created := s.created + 1, readerPc := .offer (.new s.created) next}
    | nextBuffer::rest => some {s with fullBuffers := rest, readerPc := .offer nextBuffer.clear next}
  | .offer nextBuffer next =>
    if s.emptyBuffers.length < bufferCount then
      some {s with emptyBuffers := s.emptyBuffers ++ [nextBuffer], readerPc := .reset next}
    else some {s with readerPc := next.pc}
  | .teardown trackId track => some {s with
      backend := s.backend.map .teardown, readerPc := .loadTrack trackId track}
  | .loadTrack trackId track =>
    match track.backendId with
    | none => some {s with readerPc := .onTrackChange trackId}
    | some backendId =>
      match implementations[backendId]? with
      | none => none
      | some impl => some {s with
          backend := some ⟨impl,answers.fileLoaded⟩, readerPc := .onTrackChange trackId}
  | .onTrackChange trackId => some {s with
      readerPc := if s.writerPc.attached then .clearBuffers trackId else .setField trackId}
  | .clearBuffers trackId =>
    match s.fullBuffers with
    | [] => some {s with readerPc := .setField trackId}
    | nextFullBuffer::rest => some {s with
        fullBuffers := rest, readerPc := .clearAdd nextFullBuffer.clear trackId}
  | .clearAdd nextFullBuffer trackId =>
    if s.emptyBuffers.length < bufferCount then
      some {s with
        emptyBuffers := s.emptyBuffers ++ [nextFullBuffer], readerPc := .clearBuffers trackId}
    else some {s with readerPc := .clearAll trackId}
  | .clearAll trackId => some {s with fullBuffers := [], readerPc := .setField trackId}
  | .setField trackId => some {s with playingTrackId := some trackId, readerPc := .unqueueTrack}
  | .unqueueTrack => some {s with queuedTrackId := none, readerPc := .queuedSeek}
  | .queuedSeek =>
    match s.queuedSeekPosition with
    | some position => some {s with readerPc := .seek position}
    | none => some {s with readerPc := .isTrackOver}
  | .seek position =>
    match s.backend with
    | none => some {s with readerPc := .onSeek position}
    | some _ => some {s with
        fullBuffers := s.fullBuffers.map .outlive, sought := true, readerPc := .seekEnd position}
  | .seekEnd position => some {s with readerPc := .onSeek position}
  | .onSeek _ => some {s with
      seeking := s.writerPc.attached || s.seeking, readerPc := .unqueueSeek}
  | .unqueueSeek => some {s with queuedSeekPosition := none, readerPc := .isTrackOver}
  | .isTrackOver => some {s with
      readerPc := if s.backend = none ∨ answers.isTrackOver = true then .peek else .poll}
  | .peek => some {s with readerPc := if s.fullBuffers = [] then .trackOver else .loopHead}
  | .trackOver =>
    if answers.isNextTrackAvailable then
      some {s with
        queuedTrackId := if answers.repeatOne then s.playingTrackId else answers.getNextTrack
        readerPc := .poll}
    else some {s.stop with readerPc := .reset .finish}
  | .poll =>
    match s.emptyBuffers with
    | audioBuffer::rest => some {s with emptyBuffers := rest, readerPc := .read audioBuffer}
    | [] => if answers.timeout then some {s with readerPc := .reset .finish} else none
  | .read audioBuffer => some {s with
      readerPc := if s.playingTrackId = none then .reset .finish else .readEnd audioBuffer}
  | .readEnd audioBuffer =>
    match s.backend with
    | none => some {s with readerPc := .getLastError (audioBuffer.fill (-2) s.backend s.sought)}
    | some _ => some {s with
        readerPc := .getLastError (audioBuffer.fill answers.getMillisPlayed s.backend s.sought)}
  | .getLastError audioBuffer => some {s with
      readerPc := if s.backend = none ∨ answers.getLastError = none
        then .checkState audioBuffer else .reset .finish}
  | .checkState audioBuffer => some {s with
      readerPc := if s.state = .playing then .checkOver audioBuffer else .loopHead}
  | .checkOver audioBuffer => some {s with
      readerPc := if s.backend.map Backend.impl = some .vgm ∧ answers.isTrackOver = true
        then .loopHead else .put audioBuffer}
  | .put audioBuffer =>
    if s.fullBuffers.length < bufferCount then
      some {s with fullBuffers := s.fullBuffers ++ [audioBuffer], readerPc := .loopHead}
    else none
  | .done => none

/-- One step of `Writer.loop` and what it calls; an interrupt ends its next wait. -/
def writerStep (bufferCount : Nat) (s : Pipeline Id) (timeout : Bool) : Option (Pipeline Id) :=
  match s.writerPc with
  | .idle => some {s with writerPc := .loopHead}
  | .loopHead => some {s with
      writerPc := if s.state = .playing then .poll else .clearBuffers none}
  | .poll =>
    match s.fullBuffers with
    | audioBuffer::rest => some {s with fullBuffers := rest, writerPc := .write audioBuffer}
    | [] => some {s with writerPc := .wait}
  | .wait =>
    if s.interrupted then some {s with interrupted := false, writerPc := .clearBuffers none}
    else
      match s.fullBuffers with
      | audioBuffer::rest => some {s with fullBuffers := rest, writerPc := .write audioBuffer}
      | [] => if timeout then some {s with state := .error, writerPc := .clearBuffers none} else none
  | .write audioBuffer => some {s with
      writerPc := if audioBuffer.timeStamp < 0 then .crashed audioBuffer else .checkSeeking audioBuffer}
  | .checkSeeking audioBuffer => some {s with
      writerPc := if s.seeking then .clearBuffers (some audioBuffer) else .put audioBuffer.clear}
  | .clearBuffers held =>
    match s.fullBuffers with
    | [] => some {s with writerPc := .afterClear held}
    | nextFullBuffer::rest => some {s with
        fullBuffers := rest, writerPc := .clearAdd nextFullBuffer.clear held}
  | .clearAdd nextFullBuffer held =>
    if s.emptyBuffers.length < bufferCount then
      some {s with
        emptyBuffers := s.emptyBuffers ++ [nextFullBuffer], writerPc := .clearBuffers held}
    else some {s with writerPc := .clearAll held}
  | .clearAll held => some {s with fullBuffers := [], writerPc := .afterClear held}
  | .unflag audioBuffer => some {s with seeking := false, writerPc := .put audioBuffer.clear}
  | .put audioBuffer =>
    if s.interrupted then some {s with interrupted := false, writerPc := .clearBuffers none}
    else if s.emptyBuffers.length < bufferCount then
      some {s with emptyBuffers := s.emptyBuffers ++ [audioBuffer], writerPc := .loopHead}
    else none
  | .crashed _ => none
  | .done => none

end Pipeline

inductive Label (Id : Type)
  | reader (answers : Answers Id)
  | writer (timeout : Bool)
  | user (command : Command Id)

namespace Pipeline
variable {Id : Type}

def next (bufferCount : Nat) (s : Pipeline Id) : Label Id → Option (Pipeline Id)
  | .reader answers => s.readerStep bufferCount answers
  | .writer timeout => s.writerStep bufferCount timeout
  | .user command => some (s.command command)

structure Begins (s : Pipeline Id) : Prop where
  reader : s.readerPc = .loopHead
  writer : s.writerPc = .idle
  seeking : s.seeking = false
  interrupted : s.interrupted = false

/-- A new reader and its queues, as `start` makes them. -/
def initial (firstTrackId : Id) : Pipeline Id where
  state := .playing
  emptyBuffers := []
  fullBuffers := []
  created := 0
  readerPc := .loopHead
  readerAttached := true
  queuedTrackId := some firstTrackId
  resuming := false
  backend := none
  playingTrackId := none
  queuedSeekPosition := none
  writerPc := .idle
  seeking := false
  interrupted := false
  sought := false

theorem initial_begins (firstTrackId : Id) : (initial firstTrackId).Begins :=
  ⟨rfl,rfl,rfl,rfl⟩

end Pipeline
end Chipbox.Playback
