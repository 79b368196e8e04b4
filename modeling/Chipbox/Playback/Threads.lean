import Mathlib.Logic.Function.Basic
import Chipbox.Playback.Pipeline

/-! A player and the threads that its commands spawn. Each step of the user's thread, of a
reader thread or of a writer thread makes at most one access to what they share. -/
namespace Chipbox.Playback

structure Queues where
  emptyBuffers : Nat
  fullBuffers : Nat
  deriving DecidableEq, Repr

structure Reader (Id : Type) where
  queues : Queues
  queuedTrackId : Option Id
  resuming : Bool
  backend : Option BackendImpl
  playingTrackId : Option Id
  queuedSeekPosition : Option Int

structure Writer where
  queues : Queues
  seeking : Bool

inductive LifeCycle
  | none | loadFile | teardown
  deriving DecidableEq, Repr

/-- What `start` hands to the threads it spawns. -/
structure Captured (Id : Type) where
  queues : Queues
  firstTrackId : Id
  resuming : Bool

inductive StopPc
  | readState
  | writeState
  | readReader
  | readBackend (reader : Nat)
  | teardown (backend : BackendImpl)
  | teardownEnd (backend : BackendImpl)
  | writeReader
  | interrupt
  deriving DecidableEq, Repr

/-- `cleared` names the queues that the reader's `onTrackChange` has the writer clear;
`stopping` is the loop in its call of `onPlaylistFinished`. -/
inductive ReaderThreadPc (Id : Type)
  | readState
  | readReader
  | create
  | call
  | loop (reader : Nat) (cleared : Queues) (pc : ReaderPc Id)
  | stopping (reader : Nat) (pc : StopPc)
  | checkStopped
  | clear
  | ended

inductive WriterThreadPc
  | create
  | call
  | loop (writer : Nat) (pc : WriterPc)
  | clear
  | ended

structure ReaderThread (Id : Type) where
  captured : Captured Id
  pc : ReaderThreadPc Id

structure WriterThread where
  queues : Queues
  interrupted : Bool
  pc : WriterThreadPc

inductive UserPc (Id : Type)
  | idle
  | startState (trackId : Option Id)
  | startResuming (trackId : Option Id)
  | startFocus (trackId : Option Id) (resuming : Bool)
  | startPlaying (trackId : Option Id) (resuming : Bool)
  | startEmpties (trackId : Option Id) (resuming : Bool)
  | startFulls (trackId : Option Id) (resuming : Bool) (emptyBuffers : Nat)
  | startTrack (trackId : Option Id) (resuming : Bool) (queues : Queues)
  | startReader (captured : Captured Id)
  | startWriter (captured : Captured Id)
  | pauseState
  | pauseWrite
  | pauseInterrupt
  | stop (pc : StopPc)
  | handOn (trackId : Option Id)
  | handOnQueue (reader : Nat) (trackId : Option Id)
  | seek (seekPosition : Int)
  | seekQueue (reader : Nat) (seekPosition : Int)

inductive UserCommand (Id : Type)
  | start (trackId : Option Id)
  | pause
  | stop
  | play (trackId : Option Id)
  | skipToNext (nextTrack : Option Id)
  | seek (seekPosition : Int)

structure Threads (Id : Type) where
  state : PlaybackState
  reader : Option Nat
  writer : Option Nat
  writerThread : Option Nat
  /-- `playlist.playingTrackId` -/
  playingTrackId : Option Id
  queues : Nat → List AudioBuffer
  queueCount : Nat
  /-- buffers created so far -/
  created : Nat
  readers : Nat → Option (Reader Id)
  readersMade : Nat
  writers : Nat → Option Writer
  writersMade : Nat
  lifeCycle : BackendImpl → LifeCycle
  readerThreads : Nat → Option (ReaderThread Id)
  readerCount : Nat
  writerThreads : Nat → Option WriterThread
  writerCount : Nat
  user : UserPc Id

def Captured.reader {Id : Type} (captured : Captured Id) : Reader Id where
  queues := captured.queues
  queuedTrackId := some captured.firstTrackId
  resuming := captured.resuming
  backend := none
  playingTrackId := none
  queuedSeekPosition := none

namespace Threads
variable {Id : Type}

def initial : Threads Id where
  state := .stopped
  reader := none
  writer := none
  writerThread := none
  playingTrackId := none
  queues := fun _ => []
  queueCount := 0
  created := 0
  readers := fun _ => none
  readersMade := 0
  writers := fun _ => none
  writersMade := 0
  lifeCycle := fun _ => .none
  readerThreads := fun _ => none
  readerCount := 0
  writerThreads := fun _ => none
  writerCount := 0
  user := .idle

def called (s : Threads Id) (backend : BackendImpl) (call : LifeCycle) : Threads Id :=
  {s with lifeCycle := Function.update s.lifeCycle backend call}

/-- `writerThread?.interrupt()` -/
def interrupt (s : Threads Id) : Threads Id :=
  match s.writerThread with
  | none => s
  | some thread => {s with
      writerThreads := Function.update s.writerThreads thread
        ((s.writerThreads thread).map fun t => {t with interrupted := true})}

/-- One step of `Player.stop`, on whichever thread it runs, and where it goes on. -/
def stopStep (s : Threads Id) : StopPc → Threads Id × Option StopPc
  | .readState => (s,if s.state = .stopped then none else some .writeState)
  | .writeState => ({s with state := .stopped},some .readReader)
  | .readReader => (s,some (match s.reader with | some reader => .readBackend reader | none => .writeReader))
  | .readBackend reader => (s,some (match (s.readers reader).bind Reader.backend with
      | some backend => .teardown backend
      | none => .writeReader))
  | .teardown backend => (s.called backend .teardown,some (.teardownEnd backend))
  | .teardownEnd _ => (s,some .writeReader)
  | .writeReader => ({s with reader := none},some .interrupt)
  | .interrupt => (s.interrupt,none)

def readerView (s : Threads Id) (reader : Reader Id) (queues : Queues) (pc : ReaderPc Id) :
    Pipeline Id where
  state := s.state
  emptyBuffers := s.queues queues.emptyBuffers
  fullBuffers := s.queues queues.fullBuffers
  created := s.created
  readerPc := pc
  readerAttached := true
  queuedTrackId := reader.queuedTrackId
  resuming := reader.resuming
  backend := reader.backend.map (⟨·,true⟩)
  playingTrackId := reader.playingTrackId
  queuedSeekPosition := reader.queuedSeekPosition
  writerPc := if s.writer = none then .idle else .loopHead
  seeking := ((s.writer.bind s.writers).map Writer.seeking).getD false
  interrupted := false
  sought := false

def writerView (s : Threads Id) (writer : Writer) (interrupted : Bool) (pc : WriterPc) :
    Pipeline Id where
  state := s.state
  emptyBuffers := s.queues writer.queues.emptyBuffers
  fullBuffers := s.queues writer.queues.fullBuffers
  created := s.created
  readerPc := .done
  readerAttached := false
  queuedTrackId := none
  resuming := false
  backend := none
  playingTrackId := none
  queuedSeekPosition := none
  writerPc := pc
  seeking := writer.seeking
  interrupted := interrupted
  sought := false

def putQueues (s : Threads Id) (queues : Queues) (p : Pipeline Id) : Threads Id :=
  {s with
    queues := Function.update (Function.update s.queues queues.emptyBuffers p.emptyBuffers)
      queues.fullBuffers p.fullBuffers
    created := p.created}

def putReader (s : Threads Id) (name : Nat) (reader : Reader Id) (p : Pipeline Id) : Threads Id :=
  {s with readers := Function.update s.readers name (some {reader with
    queuedTrackId := p.queuedTrackId
    resuming := p.resuming
    backend := p.backend.map Backend.impl
    playingTrackId := p.playingTrackId
    queuedSeekPosition := p.queuedSeekPosition})}

/-- `writer?.onSeek` raises the flag of the writer that the player has. -/
def putSeeking (s : Threads Id) (seeking : Bool) : Threads Id :=
  match s.writer with
  | none => s
  | some writer => {s with
      writers := Function.update s.writers writer
        ((s.writers writer).map fun w => {w with seeking := seeking})}

/-- The calls on backends and the playlist in a step of the loop that starts at the place. -/
def readerCalls (s : Threads Id) (reader : Reader Id) (p : Pipeline Id) : ReaderPc Id → Threads Id
  | .teardown _ _ =>
    match reader.backend with
    | some backend => s.called backend .teardown
    | none => s
  | .loadTrack _ track =>
    match track.backendId,p.backend with
    | some _,some backend => s.called backend.impl .loadFile
    | _,_ => s
  | .onTrackChange trackId => {s with playingTrackId := some trackId}
  | _ => s

end Threads

/-- `writer.clearBuffers`, as the reader's `onTrackChange` calls it. -/
def ReaderPc.clearsWriter {Id : Type} : ReaderPc Id → Bool
  | .clearBuffers _ | .clearAdd _ _ | .clearAll _ => true
  | _ => false

namespace Threads
variable {Id : Type}

def writerQueues (s : Threads Id) : Option Queues := (s.writer.bind s.writers).map Writer.queues

/-- One step inside `Reader.loop`. -/
def loopStep (bufferCount : Nat) (s : Threads Id) (name : Nat) (cleared : Queues) (pc : ReaderPc Id)
    (answers : Answers Id) : Option (Threads Id × ReaderThreadPc Id) :=
  match s.readers name with
  | none => none
  | some reader =>
    let queues := if pc.clearsWriter then cleared else reader.queues
    match (s.readerView reader queues pc).readerStep bufferCount answers with
    | none => none
    | some p =>
      some ((((s.putQueues queues p).putReader name reader p).putSeeking p.seeking).readerCalls reader p pc,
        .loop name (match pc with | .onTrackChange _ => s.writerQueues.getD cleared | _ => cleared)
          p.readerPc)

/-- One step of a thread that `start` spawned for a reader, and where the thread goes on. -/
def readerThreadStep (bufferCount : Nat) (s : Threads Id) (thread : ReaderThread Id)
    (answers : Answers Id) : Option (Threads Id × ReaderThreadPc Id) :=
  match thread.pc with
  | .readState => some (s,if s.state = .stopped then .create else .readReader)
  | .readReader => some (s,if s.reader = none then .create else .call)
  | .create => some ({s with
      readers := Function.update s.readers s.readersMade (some thread.captured.reader)
      readersMade := s.readersMade + 1
      reader := some s.readersMade},.call)
  | .call => some (s,match s.reader with
      | some reader => .loop reader thread.captured.queues .loopHead
      | none => .checkStopped)
  | .loop _ _ .done => some (s,.checkStopped)
  | .loop reader cleared pc =>
    match pc,answers.isNextTrackAvailable with
    | .trackOver,false => some (s,.stopping reader .readState)
    | _,_ => s.loopStep bufferCount reader cleared pc answers
  | .stopping reader pc =>
    let (t,rest) := s.stopStep pc
    some (t,match rest with
      | some pc => .stopping reader pc
      | none => .loop reader thread.captured.queues (.reset .finish))
  | .checkStopped => some (s,if s.state = .stopped then .clear else .ended)
  | .clear => some ({s with reader := none},.ended)
  | .ended => none

/-- One step of a thread that `start` spawned for a writer; an exception ends the thread. -/
def writerThreadStep (bufferCount : Nat) (s : Threads Id) (thread : WriterThread) (timeout : Bool) :
    Option (Threads Id × WriterThread) :=
  match thread.pc with
  | .create => some ({s with
      writers := Function.update s.writers s.writersMade (some ⟨thread.queues,false⟩)
      writersMade := s.writersMade + 1
      writer := some s.writersMade},{thread with pc := .call})
  | .call => some (s,{thread with pc := match s.writer with
      | some writer => .loop writer .loopHead
      | none => .clear})
  | .loop _ .done => some (s,{thread with pc := .clear})
  | .loop _ (.crashed _) => some (s,{thread with pc := .ended})
  | .loop name pc =>
    match s.writers name with
    | none => none
    | some writer =>
      match (s.writerView writer thread.interrupted pc).writerStep bufferCount timeout with
      | none => none
      | some p =>
        let t := s.putQueues writer.queues p
        some ({t with
            state := p.state
            writers := Function.update t.writers name (some {writer with seeking := p.seeking})},
          {thread with interrupted := p.interrupted, pc := .loop name p.writerPc})
  | .clear => some ({s with writer := none},{thread with pc := .ended})
  | .ended => none

def entry : UserCommand Id → UserPc Id
  | .start trackId => .startState trackId
  | .pause => .pauseState
  | .stop => .stop .readState
  | .play trackId => .handOn trackId
  | .skipToNext nextTrack => .handOn nextTrack
  | .seek seekPosition => .seek seekPosition

def ownQueue (s : Threads Id) (queue : Queues → Nat) : Threads Id × Nat :=
  match s.reader.bind s.readers with
  | some reader => (s,queue reader.queues)
  | none => ({s with
      queues := Function.update s.queues s.queueCount []
      queueCount := s.queueCount + 1},s.queueCount)

def editReader (s : Threads Id) (name : Nat) (edit : Reader Id → Reader Id) : Threads Id :=
  {s with readers := Function.update s.readers name ((s.readers name).map edit)}

def spawnReader (s : Threads Id) (captured : Captured Id) : Threads Id :=
  {s with
    readerThreads := Function.update s.readerThreads s.readerCount (some ⟨captured,.readState⟩)
    readerCount := s.readerCount + 1}

def spawnWriter (s : Threads Id) (captured : Captured Id) : Threads Id :=
  {s with
    writerThreads := Function.update s.writerThreads s.writerCount (some ⟨captured.queues,false,.create⟩)
    writerCount := s.writerCount + 1
    writerThread := some s.writerCount}

def userStep (s : Threads Id) (focusGranted : Bool) : Option (Threads Id × UserPc Id) :=
  match s.user with
  | .idle => none
  | .startState trackId => some (s,if s.state = .playing then .idle else .startResuming trackId)
  | .startResuming trackId =>
    some (s,.startFocus trackId (decide (s.state = .paused) && trackId.isNone))
  | .startFocus trackId resuming => some (s,if focusGranted then .startPlaying trackId resuming else .idle)
  | .startPlaying trackId resuming => some ({s with state := .playing},.startEmpties trackId resuming)
  | .startEmpties trackId resuming =>
    let (t,emptyBuffers) := s.ownQueue Queues.emptyBuffers
    some (t,.startFulls trackId resuming emptyBuffers)
  | .startFulls trackId resuming emptyBuffers =>
    let (t,fullBuffers) := s.ownQueue Queues.fullBuffers
    some (t,.startTrack trackId resuming ⟨emptyBuffers,fullBuffers⟩)
  | .startTrack trackId resuming queues => some (s,match trackId.or s.playingTrackId with
      | some firstTrackId => .startReader ⟨queues,firstTrackId,resuming⟩
      | none => .idle)
  | .startReader captured => some (s.spawnReader captured,.startWriter captured)
  | .startWriter captured => some (s.spawnWriter captured,.idle)
  | .pauseState => some (s,if s.state = .playing then .pauseWrite else .idle)
  | .pauseWrite => some ({s with state := .paused},.pauseInterrupt)
  | .pauseInterrupt => some (s.interrupt,.idle)
  | .stop pc =>
    let (t,rest) := s.stopStep pc
    some (t,match rest with
      | some pc => .stop pc
      | none => .idle)
  | .handOn trackId => some (s,match s.reader with
      | some reader => .handOnQueue reader trackId
      | none => .startState trackId)
  | .handOnQueue reader trackId =>
    some (s.editReader reader fun r => {r with queuedTrackId := trackId},.startState none)
  | .seek seekPosition => some (s,match s.reader with
      | some reader => .seekQueue reader seekPosition
      | none => .idle)
  | .seekQueue reader seekPosition =>
    some (s.editReader reader fun r => {r with queuedSeekPosition := some seekPosition},.idle)

end Threads

inductive ThreadsLabel (Id : Type)
  | command (command : UserCommand Id)
  | user (focusGranted : Bool)
  | reader (thread : Nat) (answers : Answers Id)
  | writer (thread : Nat) (timeout : Bool)

namespace Threads
variable {Id : Type}

def next (bufferCount : Nat) (s : Threads Id) : ThreadsLabel Id → Option (Threads Id)
  | .command command =>
    match s.user with
    | .idle => some {s with user := entry command}
    | _ => none
  | .user focusGranted =>
    match s.userStep focusGranted with
    | none => none
    | some (t,user) => some {t with user := user}
  | .reader name answers =>
    match s.readerThreads name with
    | none => none
    | some thread =>
      match s.readerThreadStep bufferCount thread answers with
      | none => none
      | some (t,pc) => some {t with
          readerThreads := Function.update t.readerThreads name (some {thread with pc := pc})}
  | .writer name timeout =>
    match s.writerThreads name with
    | none => none
    | some thread =>
      match s.writerThreadStep bufferCount thread timeout with
      | none => none
      | some (t,thread) => some {t with
          writerThreads := Function.update t.writerThreads name (some thread)}

end Threads
end Chipbox.Playback
