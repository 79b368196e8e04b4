import Chipbox.Playback.Exclusion

/-! On which backends the readers read and seek, and when a backend is torn down. -/
namespace Chipbox.Playback
variable {Id : Type}

namespace ReaderPc

def reloads : ReaderPc Id → Bool
  | .reset (.load _ _) | .pollFull (.load _ _) | .offer _ (.load _ _) | .teardown _ _
  | .loadTrack _ _ => true
  | _ => false

def exits : ReaderPc Id → Bool
  | .reset .finish | .pollFull .finish | .offer _ .finish | .done => true
  | _ => false

def leaves : ReaderPc Id → Bool
  | .loopHead | .getLastError _ | .checkState _ | .checkOver _ | .put _ => true
  | _ => false

/-- The reader is in a native `readNextSamples` or `seek`. -/
def inCall : ReaderPc Id → Bool
  | .readEnd _ | .seekEnd _ => true
  | _ => false

end ReaderPc

namespace Pipeline

theorem readerStep_backend {bufferCount : Nat} {s t : Pipeline Id} {answers : Answers Id}
    (taken : s.readerStep bufferCount answers = some t)
    (unloaded : ∀ trackId track, s.readerPc ≠ .loadTrack trackId track) :
    t.backend.map Backend.impl = s.backend.map Backend.impl := by
  have torn (backend : Option Backend) :
      (backend.map .teardown).map Backend.impl = backend.map Backend.impl := by
    cases backend <;> rfl
  unfold readerStep at taken
  cases pc : s.readerPc with
  | teardown =>
    simp only [pc] at taken
    cases taken
    exact torn s.backend
  | loadTrack trackId track => exact absurd pc (unloaded trackId track)
  | trackOver =>
    simp only [pc] at taken
    split at taken
    · cases taken
      rfl
    · cases taken
      change s.stop.backend.map Backend.impl = s.backend.map Backend.impl
      unfold stop
      split
      · rfl
      · dsimp only
        split
        · exact torn s.backend
        · rfl
  | poll =>
    simp only [pc] at taken
    split at taken
    · cases taken
      rfl
    · split at taken
      · cases taken
        rfl
      · cases taken
  | _ =>
    simp only [pc] at taken
    repeat' split at taken
    all_goals cases taken
    all_goals rfl

theorem exits_step {bufferCount : Nat} {s t : Pipeline Id} {answers : Answers Id}
    (exits : s.readerPc.exits = true) (taken : s.readerStep bufferCount answers = some t) :
    t.readerPc.exits = true := by
  unfold readerStep at taken
  cases pc : s.readerPc with
  | reset after | pollFull after | offer b after =>
    rw [pc] at exits
    simp only [pc] at taken
    cases after with
    | load => cases exits
    | finish =>
      repeat' split at taken
      all_goals cases taken
      all_goals rfl
  | done =>
    simp only [pc] at taken
    cases taken
  | _ =>
    rw [pc] at exits
    cases exits

theorem leaves_step {bufferCount : Nat} {s t : Pipeline Id} {answers : Answers Id}
    (leaves : s.readerPc.leaves = true) (halted : s.state ≠ .playing)
    (taken : s.readerStep bufferCount answers = some t) :
    t.readerPc.exits = true ∨ t.readerPc.leaves = true := by
  unfold readerStep at taken
  cases pc : s.readerPc with
  | loopHead =>
    simp only [pc,if_neg halted] at taken
    cases taken
    exact .inl rfl
  | checkState b =>
    simp only [pc,if_neg halted] at taken
    cases taken
    exact .inr rfl
  | getLastError b =>
    simp only [pc] at taken
    cases taken
    dsimp only
    split
    · exact .inr rfl
    · exact .inl rfl
  | checkOver b =>
    simp only [pc] at taken
    cases taken
    dsimp only
    split <;> exact .inr rfl
  | put b =>
    simp only [pc] at taken
    split at taken
    · cases taken
      exact .inr rfl
    · cases taken
  | _ =>
    rw [pc] at leaves
    cases leaves

theorem reloads_step {bufferCount : Nat} {s t : Pipeline Id} {answers : Answers Id}
    (reloads : s.readerPc.reloads = true) (taken : s.readerStep bufferCount answers = some t)
    (unloaded : ∀ trackId track, s.readerPc ≠ .loadTrack trackId track) :
    t.readerPc.reloads = true := by
  unfold readerStep at taken
  cases pc : s.readerPc with
  | reset after | pollFull after | offer b after =>
    rw [pc] at reloads
    simp only [pc] at taken
    cases after with
    | finish => cases reloads
    | load =>
      repeat' split at taken
      all_goals cases taken
      all_goals rfl
  | teardown =>
    simp only [pc] at taken
    cases taken
    rfl
  | loadTrack trackId track => exact absurd pc (unloaded trackId track)
  | _ =>
    rw [pc] at reloads
    cases reloads

theorem writerStep_state {bufferCount : Nat} {s t : Pipeline Id} {timeout : Bool}
    (taken : s.writerStep bufferCount timeout = some t) : t.state = s.state ∨ t.state = .error := by
  unfold writerStep at taken
  repeat' split at taken
  all_goals first
    | cases taken; exact .inl rfl
    | cases taken; exact .inr rfl
    | cases taken

end Pipeline

namespace Threads

def backendOf (s : Threads Id) (reader : Nat) : Option BackendImpl :=
  (s.readers reader).bind Reader.backend

def Unused (s : Threads Id) (backend : BackendImpl) : Prop :=
  ∀ i t r cleared pc, s.readerThreads i = some t → t.pc = .loop r cleared pc → pc.inCall = true →
    s.backendOf r ≠ some backend

def ProperAt (s : Threads Id) : ReaderThreadPc Id → Prop
  | .loop r _ (.read _) => (∃ reader, s.readers r = some reader ∧ reader.playingTrackId = none) ∨
      ∀ backend, s.backendOf r = some backend → s.lifeCycle backend = .loadFile
  | .loop r _ (.seek _) => ∀ backend, s.backendOf r = some backend → s.lifeCycle backend = .loadFile
  | .loop r _ (.teardown _ _) => ∀ backend, s.backendOf r = some backend → s.Unused backend
  | .stopping _ (.teardown backend) => s.Unused backend
  | _ => True

/-- The step begins `readNextSamples` and `seek` on a backend whose latest life-cycle call is
`loadFile`, and a teardown on a backend that is in neither of them. -/
def Proper (s : Threads Id) : ThreadsLabel Id → Prop
  | .user _ => ∀ backend, s.user = .stop (.teardown backend) → s.Unused backend
  | .reader i _ => ∀ t, s.readerThreads i = some t → s.ProperAt t.pc
  | _ => True

/-- A `start` that comes to set the state finds no reader thread before or in its loop; a
`stop` by the user tears no backend down that a reader is to use before it looks at the state or
loads again; a reader that tore its backend down has a track with a backend id to load. -/
def Orderly (s : Threads Id) : ThreadsLabel Id → Prop
  | .user _ =>
    (∀ trackId resuming, s.user = .startPlaying trackId resuming → s.NoReader) ∧
    ∀ backend, s.user = .stop (.teardown backend) → ∀ i t r cleared pc, s.readerThreads i = some t →
      t.pc = .loop r cleared pc → s.backendOf r = some backend →
      pc.reloads = true ∨ pc.exits = true ∨ pc.leaves = true
  | .reader i _ => ∀ t r cleared trackId track, s.readerThreads i = some t →
      t.pc = .loop r cleared (.loadTrack trackId track) → s.backendOf r ≠ none → track.backendId ≠ none
  | _ => True

end Threads

def StopPc.halts : StopPc → Bool
  | .readState | .writeState => false
  | _ => true

def StopPc.withdraws : StopPc → Bool
  | .teardown _ | .teardownEnd _ | .writeReader => true
  | _ => false

theorem StopPc.halts_of_withdraws {pc : StopPc} (withdraws : pc.withdraws = true) :
    pc.halts = true := by
  cases pc with
  | readState | writeState => cases withdraws
  | _ => rfl

namespace Threads

def Ready (s : Threads Id) (pc : ReaderPc Id) (backend : BackendImpl) : Prop :=
  s.lifeCycle backend = .loadFile ∨ pc.reloads = true ∨ pc.exits = true ∨
    (pc.leaves = true ∧ s.state ≠ .playing)

end Threads

def ReaderThreadPc.withdraws : ReaderThreadPc Id → Bool
  | .stopping _ pc => pc.withdraws
  | .loop _ _ pc => pc.reloads
  | _ => false

def UserPc.prepares : UserPc Id → Bool
  | .startEmpties _ _ | .startFulls _ _ _ | .startTrack _ _ _ | .startReader _ => true
  | _ => false

theorem ReaderThreadPc.live_of_withdraws {pc : ReaderThreadPc Id} (withdraws : pc.withdraws = true) :
    pc.live = true := by
  cases pc with
  | loop | stopping => rfl
  | _ => cases withdraws

namespace Threads

/-- Someone is about to take the player its reader, or to load a file. -/
def Withdraws (s : Threads Id) : Prop :=
  (∃ pc, s.user = .stop pc ∧ pc.withdraws = true) ∨
  ∃ i t, s.readerThreads i = some t ∧ t.pc.withdraws = true

structure Armed (s : Threads Id) : Prop where
  one : ∀ i j t u, s.readerThreads i = some t → s.readerThreads j = some u →
    t.pc.live = true → u.pc.live = true → i = j
  starting : s.user.prepares = true → s.NoReader
  named : ∀ i t r, s.readerThreads i = some t → t.pc.executes = some r → s.reader = none ∨ s.reader = some r
  halted : ∀ pc, s.user = .stop pc → pc.halts = true → s.state ≠ .playing
  ready : ∀ i t r cleared pc backend, s.readerThreads i = some t → t.pc = .loop r cleared pc →
    s.backendOf r = some backend → s.Ready pc backend
  held : ∀ r backend, s.reader = some r → s.backendOf r = some backend →
    s.lifeCycle backend = .loadFile ∨ s.Withdraws

structure Calm (s t : Threads Id) : Prop where
  state : t.state = s.state ∨ t.state ≠ .playing
  reader : t.reader = s.reader ∨ t.reader = none
  backends : ∀ r, t.backendOf r = s.backendOf r
  lifeCycle : t.lifeCycle = s.lifeCycle
  readerThreads : t.readerThreads = s.readerThreads
  user : t.user = s.user

theorem Calm.halted {s t : Threads Id} (calm : s.Calm t) (halted : s.state ≠ .playing) :
    t.state ≠ .playing := by
  rcases calm.state with same | other
  · rw [same]; exact halted
  · exact other

theorem Calm.ready {s t : Threads Id} (calm : s.Calm t) {pc : ReaderPc Id} {backend : BackendImpl}
    (ready : s.Ready pc backend) : t.Ready pc backend := by
  rcases ready with loaded | reloads | exits | ⟨leaves,halted⟩
  · exact .inl (calm.lifeCycle ▸ loaded)
  · exact .inr (.inl reloads)
  · exact .inr (.inr (.inl exits))
  · exact .inr (.inr (.inr ⟨leaves,calm.halted halted⟩))

theorem Calm.armed {s t : Threads Id} (calm : s.Calm t) (armed : s.Armed) : t.Armed := by
  constructor
  · rw [calm.readerThreads]
    exact armed.one
  · intro prepares i thread here
    exact armed.starting (calm.user ▸ prepares) i thread (calm.readerThreads ▸ here)
  · intro i thread r here executes
    rcases calm.reader with same | lost
    · rw [same]
      exact armed.named i thread r (calm.readerThreads ▸ here) executes
    · exact .inl lost
  · intro pc user halts
    exact calm.halted (armed.halted pc (calm.user ▸ user) halts)
  · intro i thread r cleared pc backend here place own
    exact calm.ready (armed.ready i thread r cleared pc backend (calm.readerThreads ▸ here) place
      (calm.backends r ▸ own))
  · intro r backend named own
    rcases calm.reader with same | lost
    · rw [calm.lifeCycle]
      refine (armed.held r backend (same ▸ named) (calm.backends r ▸ own)).imp id ?_
      unfold Withdraws
      rw [calm.user,calm.readerThreads]
      exact id
    · cases lost.symm.trans named

theorem Armed.withUser {s : Threads Id} (armed : s.Armed) {user : UserPc Id}
    (prepares : user.prepares = true → s.NoReader)
    (halts : ∀ pc, user = .stop pc → pc.halts = true → s.state ≠ .playing)
    (withdraws : ∀ pc, s.user = .stop pc → pc.withdraws = true →
      s.reader = none ∨ ∃ pc, user = .stop pc ∧ pc.withdraws = true) :
    Armed {s with user := user} := by
  refine ⟨armed.one,prepares,armed.named,halts,armed.ready,?_⟩
  intro r backend named own
  rcases armed.held r backend named own with loaded | ⟨pc,stops,withdrawn⟩ | thread
  · exact .inl loaded
  · rcases withdraws pc stops withdrawn with lost | still
    · cases lost.symm.trans named
    · exact .inr (.inl still)
  · exact .inr (.inr thread)

theorem Armed.withReaderThread {s : Threads Id} (armed : s.Armed) {name : Nat} {thread : ReaderThread Id}
    (here : s.readerThreads name = some thread) {pc : ReaderThreadPc Id}
    (live : pc.live = true → thread.pc.live = true)
    (named : ∀ r, pc.executes = some r → s.reader = none ∨ s.reader = some r)
    (ready : ∀ r cleared place backend, pc = .loop r cleared place → s.backendOf r = some backend →
      s.Ready place backend)
    (held : thread.pc.withdraws = true → pc.withdraws = true ∨ s.reader = none) :
    Armed {s with readerThreads := Function.update s.readerThreads name (some {thread with pc := pc})} := by
  have before (i : Nat) (t : ReaderThread Id)
      (there : Function.update s.readerThreads name (some {thread with pc := pc}) i = some t) :
      ∃ old, s.readerThreads i = some old ∧ (t.pc.live = true → old.pc.live = true) := by
    rcases update_some there with ⟨rfl,edited⟩ | ⟨_,there⟩
    · cases edited
      exact ⟨thread,here,live⟩
    · exact ⟨t,there,id⟩
  constructor
  · intro i j first second fst snd alive lively
    obtain ⟨old,earlier,kept⟩ := before i first fst
    obtain ⟨other,later,kept'⟩ := before j second snd
    exact armed.one i j old other earlier later (kept alive) (kept' lively)
  · intro prepares i t there
    obtain ⟨old,earlier,kept⟩ := before i t there
    have dead := armed.starting prepares i old earlier
    cases living : t.pc.live with
    | false => rfl
    | true => exact absurd (kept living) (by simp [dead])
  · intro i t r there executes
    rcases update_some there with ⟨_,edited⟩ | ⟨_,there⟩
    · cases edited
      exact named r executes
    · exact armed.named i t r there executes
  · exact armed.halted
  · intro i t r cleared place backend there at_ own
    rcases update_some there with ⟨_,edited⟩ | ⟨_,there⟩
    · cases edited
      exact ready r cleared place backend at_ own
    · exact armed.ready i t r cleared place backend there at_ own
  · intro r backend has own
    rcases armed.held r backend has own with loaded | user | ⟨i,t,there,withdraws⟩
    · exact .inl loaded
    · exact .inr (.inl user)
    · by_cases same : i = name
      · subst same
        cases there.symm.trans here
        rcases held withdraws with still | lost
        · exact .inr (.inr ⟨i,{thread with pc := pc},Function.update_self _ _ _,still⟩)
        · cases lost.symm.trans has
      · exact .inr (.inr ⟨i,t,(Function.update_of_ne same _ _).trans there,withdraws⟩)

/-- Outside its loop a reader thread names no reader and calls no backend. -/
theorem Armed.withOutside {s : Threads Id} (armed : s.Armed) {name : Nat} {thread : ReaderThread Id}
    (here : s.readerThreads name = some thread) {pc : ReaderThreadPc Id}
    (live : pc.live = true → thread.pc.live = true) (outside : pc.executes = none)
    (keeps : thread.pc.withdraws = false) :
    Armed {s with readerThreads := Function.update s.readerThreads name (some {thread with pc := pc})} := by
  apply armed.withReaderThread here live
  · intro r executes
    cases outside.symm.trans executes
  · intro r cleared place backend moved
    rw [moved] at outside
    cases outside
  · intro withdraws
    cases keeps.symm.trans withdraws

/-- A step of the only reader thread in its loop, which may tear its backend down or load one. -/
theorem Armed.loops {s t : Threads Id} (armed : s.Armed) {name r : Nat} {thread : ReaderThread Id}
    {cleared cleared' : Queues} {place place' : ReaderPc Id}
    (here : s.readerThreads name = some thread) (pc : thread.pc = .loop r cleared place)
    (state : t.state = s.state) (reader : t.reader = s.reader)
    (threads : t.readerThreads = s.readerThreads) (user : t.user = s.user)
    (ready : ∀ backend, t.backendOf r = some backend → t.Ready place' backend)
    (held : ∀ backend, t.backendOf r = some backend → t.lifeCycle backend = .loadFile ∨
      place'.reloads = true ∨ place.reloads = false ∧ s.backendOf r = some backend ∧
        s.lifeCycle backend ≠ .loadFile) :
    Armed {t with
      readerThreads := Function.update t.readerThreads name
        (some {thread with pc := .loop r cleared' place'})} := by
  have alive : thread.pc.live = true := by rw [pc]; rfl
  have only (i : Nat) (u : ReaderThread Id) (there : s.readerThreads i = some u)
      (lively : u.pc.live = true) : i = name := armed.one i name u thread there here lively alive
  have has : s.reader = none ∨ s.reader = some r := armed.named name thread r here (by rw [pc]; rfl)
  have elsewhere (i : Nat) (u : ReaderThread Id)
      (there : Function.update t.readerThreads name
        (some {thread with pc := .loop r cleared' place'}) i = some u)
      (lively : u.pc.live = true) : i = name ∧ u = {thread with pc := .loop r cleared' place'} := by
    rcases update_some there with ⟨same,edited⟩ | ⟨other,there⟩
    · exact ⟨same,(Option.some.inj edited).symm⟩
    · exact absurd (only i u (threads ▸ there) lively) other
  constructor
  · intro i j first second fst snd lively active
    exact (elsewhere i first fst lively).1.trans (elsewhere j second snd active).1.symm
  · intro prepares
    have empty := armed.starting (user ▸ prepares) name thread here
    simp [empty] at alive
  · intro i u r' there executes
    have lively : u.pc.live = true := ReaderThreadPc.live_of_executes (by simp [executes])
    obtain ⟨_,rfl⟩ := elsewhere i u there lively
    cases executes
    change t.reader = none ∨ t.reader = some r
    rw [reader]
    exact has
  · intro stop stops halts
    change t.state ≠ .playing
    rw [state]
    exact armed.halted stop (user ▸ stops) halts
  · intro i u r' _ at_ backend there moved own
    obtain ⟨_,rfl⟩ := elsewhere i u there (by rw [moved]; rfl)
    cases moved
    exact ready backend own
  · intro r' backend named own
    have same : r' = r := by
      rcases has with lost | own
      · cases lost.symm.trans (reader ▸ named)
      · exact Option.some.inj ((reader ▸ named : s.reader = some r').symm.trans own)
    subst same
    rcases held backend own with loaded | reloads | ⟨still,before,torn⟩
    · exact .inl loaded
    · exact .inr (.inr ⟨name,_,Function.update_self _ _ _,reloads⟩)
    · rcases armed.held r' backend (reader ▸ named) before with loaded | ⟨stop,stops,withdraws⟩ | thread
      · exact absurd loaded torn
      · exact .inr (.inl ⟨stop,user.trans stops,withdraws⟩)
      · obtain ⟨i,u,there,withdraws⟩ := thread
        have same := only i u there (ReaderThreadPc.live_of_withdraws withdraws)
        subst same
        cases there.symm.trans here
        rw [pc] at withdraws
        cases withdraws.symm.trans still

theorem readerCalls_frame (s : Threads Id) (reader : Reader Id) (p : Pipeline Id) (pc : ReaderPc Id) :
    (s.readerCalls reader p pc).state = s.state ∧ (s.readerCalls reader p pc).reader = s.reader ∧
      (s.readerCalls reader p pc).readers = s.readers := by
  unfold readerCalls
  repeat' split
  all_goals exact ⟨rfl,rfl,rfl⟩

theorem putSeeking_frame (s : Threads Id) (seeking : Bool) :
    (s.putSeeking seeking).state = s.state ∧ (s.putSeeking seeking).reader = s.reader ∧
      (s.putSeeking seeking).readers = s.readers ∧ (s.putSeeking seeking).lifeCycle = s.lifeCycle := by
  unfold putSeeking
  split <;> exact ⟨rfl,rfl,rfl,rfl⟩

theorem putReader_readers (s : Threads Id) (name : Nat) (reader : Reader Id) (p : Pipeline Id) :
    (s.putReader name reader p).readers = Function.update s.readers name (some {reader with
      queuedTrackId := p.queuedTrackId
      resuming := p.resuming
      backend := p.backend.map Backend.impl
      playingTrackId := p.playingTrackId
      queuedSeekPosition := p.queuedSeekPosition}) := rfl

/-- What a step inside `Reader.loop` does to the backends. -/
structure LoopStep (s t : Threads Id) (name : Nat) (place place' : ReaderPc Id) (reader : Reader Id)
    (p : Pipeline Id) : Prop where
  found : s.readers name = some reader
  state : t.state = s.state
  kept : t.reader = s.reader
  backend : t.backendOf name = p.backend.map Backend.impl
  lifeCycle : t.lifeCycle = (s.readerCalls reader p place).lifeCycle
  moved : p.readerPc = place'

theorem loopStep_backends {bufferCount : Nat} {s t : Threads Id} {name : Nat} {cleared : Queues}
    {place : ReaderPc Id} {answers : Answers Id} {rest : ReaderThreadPc Id}
    (taken : s.loopStep bufferCount name cleared place answers = some (t,rest)) :
    ∃ reader queues p cleared' place', rest = .loop name cleared' place' ∧
      (s.readerView reader queues place).readerStep bufferCount answers = some p ∧
      LoopStep s t name place place' reader p := by
  unfold loopStep at taken
  split at taken
  · cases taken
  next reader found =>
    dsimp only at taken
    split at taken
    · cases taken
    next p stepped =>
      cases taken
      refine ⟨reader,_,p,_,_,rfl,stepped,found,?_,?_,?_,?_,rfl⟩
      · rw [(readerCalls_frame _ _ _ _).1,(putSeeking_frame _ _).1]
        rfl
      · rw [(readerCalls_frame _ _ _ _).2.1,(putSeeking_frame _ _).2.1]
        rfl
      · unfold backendOf
        rw [(readerCalls_frame _ _ _ _).2.2,(putSeeking_frame _ _).2.2.1]
        rw [putReader_readers,Function.update_self]
        rfl
      · cases place with
        | teardown =>
          unfold readerCalls
          dsimp only
          split
          · unfold called
            rw [(putSeeking_frame _ _).2.2.2]
            rfl
          · rw [(putSeeking_frame _ _).2.2.2]
            rfl
        | loadTrack trackId track =>
          unfold readerCalls
          dsimp only
          split
          · unfold called
            rw [(putSeeking_frame _ _).2.2.2]
            rfl
          · rw [(putSeeking_frame _ _).2.2.2]
            rfl
        | _ => exact (putSeeking_frame _ _).2.2.2

theorem view_backend (s : Threads Id) (reader : Reader Id) (queues : Queues) (pc : ReaderPc Id) :
    (s.readerView reader queues pc).backend.map Backend.impl = reader.backend := by
  unfold readerView
  cases reader.backend <;> rfl

theorem loopStep_armed {bufferCount : Nat} {s t : Threads Id} {name r : Nat} {thread : ReaderThread Id}
    {cleared : Queues} {place : ReaderPc Id} {answers : Answers Id} {rest : ReaderThreadPc Id}
    (armed : s.Armed) (here : s.readerThreads name = some thread)
    (pc : thread.pc = .loop r cleared place)
    (loads : ∀ trackId track, place = .loadTrack trackId track → s.backendOf r ≠ none →
      track.backendId ≠ none)
    (taken : s.loopStep bufferCount r cleared place answers = some (t,rest)) :
    Armed {t with readerThreads := Function.update t.readerThreads name (some {thread with pc := rest})} := by
  have keeps := (loopStep_spec taken).1
  obtain ⟨reader,queues,p,cleared',place',rfl,stepped,step⟩ := loopStep_backends taken
  have own : s.backendOf r = reader.backend := by
    unfold backendOf
    rw [step.found]
    rfl
  have ready := armed.ready name thread r cleared place
  by_cases loading : ∃ trackId track, place = .loadTrack trackId track
  · obtain ⟨trackId,track,rfl⟩ := loading
    have loaded (backend : BackendImpl) (made : t.backendOf r = some backend) :
        t.lifeCycle backend = .loadFile := by
      rw [step.backend] at made
      rw [step.lifeCycle]
      unfold Pipeline.readerStep at stepped
      dsimp only [readerView] at stepped
      split at stepped
      next nameless =>
        cases stepped
        have none : s.backendOf r = none := by
          by_contra some
          exact loads trackId track rfl some nameless
        rw [own] at none
        simp [none] at made
      next backendId named =>
        split at stepped
        · cases stepped
        · cases stepped
          cases made
          unfold readerCalls
          dsimp only
          rw [named]
          exact Function.update_self _ _ _
    exact armed.loops here pc step.state step.kept keeps.readerThreads keeps.user
      (fun backend made => .inl (loaded backend made)) (fun backend made => .inl (loaded backend made))
  · have unloaded (trackId : Id) (track : Track) : place ≠ .loadTrack trackId track :=
      fun load => loading ⟨trackId,track,load⟩
    have same : t.backendOf r = s.backendOf r := by
      rw [step.backend,own,Pipeline.readerStep_backend stepped unloaded]
      exact s.view_backend reader queues place
    by_cases tearing : ∃ trackId track, place = .teardown trackId track
    · obtain ⟨trackId,track,rfl⟩ := tearing
      have reloads : place'.reloads = true := by
        rw [← step.moved]
        exact Pipeline.reloads_step rfl stepped unloaded
      exact armed.loops here pc step.state step.kept keeps.readerThreads keeps.user
        (fun _ _ => .inr (.inl reloads)) (fun _ _ => .inr (.inl reloads))
    · have calls : t.lifeCycle = s.lifeCycle := by
        rw [step.lifeCycle]
        unfold readerCalls
        split
        · exact absurd ⟨_,_,rfl⟩ tearing
        · exact absurd ⟨_,_,rfl⟩ loading
        · rfl
        · rfl
      apply armed.loops here pc step.state step.kept keeps.readerThreads keeps.user
      · intro backend made
        rcases ready backend here pc (same ▸ made) with loaded | reloads | exits | ⟨leaves,halted⟩
        · exact .inl (calls ▸ loaded)
        · exact .inr (.inl (step.moved ▸ Pipeline.reloads_step reloads stepped unloaded))
        · exact .inr (.inr (.inl (step.moved ▸ Pipeline.exits_step exits stepped)))
        · rcases Pipeline.leaves_step leaves halted stepped with exits | leaves
          · exact .inr (.inr (.inl (step.moved ▸ exits)))
          · exact .inr (.inr (.inr ⟨step.moved ▸ leaves,step.state ▸ halted⟩))
      · intro backend made
        rw [calls]
        by_cases loaded : s.lifeCycle backend = .loadFile
        · exact .inl loaded
        · cases reloads : place.reloads with
          | true => exact .inr (.inl (step.moved ▸ Pipeline.reloads_step reloads stepped unloaded))
          | false => exact .inr (.inr ⟨rfl,same ▸ made,loaded⟩)

theorem Armed.tears {s : Threads Id} (armed : s.Armed) {backend : BackendImpl} (withdraws : s.Withdraws)
    (harmless : ∀ i t r cleared pc, s.readerThreads i = some t → t.pc = .loop r cleared pc →
      s.backendOf r = some backend →
      pc.reloads = true ∨ pc.exits = true ∨ (pc.leaves = true ∧ s.state ≠ .playing)) :
    (s.called backend .teardown).Armed := by
  refine ⟨armed.one,armed.starting,armed.named,armed.halted,?_,fun _ _ _ _ => .inr withdraws⟩
  intro i t r cleared pc other here place own
  by_cases same : other = backend
  · subst same
    exact .inr (harmless i t r cleared pc here place own)
  · rcases armed.ready i t r cleared pc other here place own with loaded | safe
    · exact .inl ((Function.update_of_ne same _ _).trans loaded)
    · exact .inr safe

/-- What a step of `stop` does, other than to tear down. -/
structure StopStep (s t : Threads Id) (pc : StopPc) (rest : Option StopPc) : Prop where
  calm : s.Calm t
  halts : ∀ later, rest = some later → later.halts = true → pc.halts = true ∨ t.state ≠ .playing
  withdraws : pc.withdraws = true → t.reader = none ∨ ∃ later, rest = some later ∧ later.withdraws = true

theorem calm_of_same {s t : Threads Id} (state : t.state = s.state ∨ t.state ≠ .playing)
    (reader : t.reader = s.reader ∨ t.reader = none) (readers : t.readers = s.readers)
    (lifeCycle : t.lifeCycle = s.lifeCycle) (readerThreads : t.readerThreads = s.readerThreads)
    (user : t.user = s.user) : s.Calm t :=
  ⟨state,reader,fun r => by unfold backendOf; rw [readers],lifeCycle,readerThreads,user⟩

theorem interrupt_calm (s : Threads Id) : s.Calm s.interrupt := by
  unfold interrupt
  split
  · exact calm_of_same (.inl rfl) (.inl rfl) rfl rfl rfl rfl
  · exact calm_of_same (.inl rfl) (.inl rfl) rfl rfl rfl rfl

theorem stopStep_spec (s : Threads Id) {pc : StopPc} (keeps : ∀ backend, pc ≠ .teardown backend) :
    StopStep s (s.stopStep pc).1 pc (s.stopStep pc).2 := by
  have still : s.Calm s := calm_of_same (.inl rfl) (.inl rfl) rfl rfl rfl rfl
  cases pc with
  | readState =>
    refine ⟨still,?_,nofun⟩
    intro later rest halts
    dsimp only [stopStep] at rest
    split at rest
    · cases rest
    · cases rest
      cases halts
  | writeState =>
    exact ⟨calm_of_same (.inr nofun) (.inl rfl) rfl rfl rfl rfl,fun _ _ _ => .inr nofun,nofun⟩
  | readReader => exact ⟨still,fun _ _ _ => .inl rfl,nofun⟩
  | readBackend => exact ⟨still,fun _ _ _ => .inl rfl,nofun⟩
  | teardown backend => exact absurd rfl (keeps backend)
  | teardownEnd => exact ⟨still,fun _ _ _ => .inl rfl,fun _ => .inr ⟨_,rfl,rfl⟩⟩
  | writeReader =>
    exact ⟨calm_of_same (.inl rfl) (.inr rfl) rfl rfl rfl rfl,fun _ _ _ => .inl rfl,fun _ => .inl rfl⟩
  | interrupt => exact ⟨s.interrupt_calm,fun _ _ _ => .inl rfl,nofun⟩

theorem Armed.createReader {s : Threads Id} (armed : s.Armed) {name : Nat} {thread : ReaderThread Id}
    (here : s.readerThreads name = some thread) (creates : thread.pc = .create) :
    Armed {s with
      readers := Function.update s.readers s.readersMade (some thread.captured.reader)
      readersMade := s.readersMade + 1
      reader := some s.readersMade} := by
  have live : thread.pc.live = true := by rw [creates]; rfl
  have idle (i : Nat) (t : ReaderThread Id) (there : s.readerThreads i = some t)
      (executes : t.pc.executes ≠ none) : False := by
    have alive := ReaderThreadPc.live_of_executes executes
    have same := armed.one i name t thread there here alive live
    subst same
    cases there.symm.trans here
    exact executes (by rw [creates]; rfl)
  refine ⟨armed.one,armed.starting,?_,armed.halted,?_,?_⟩
  · intro i t r there executes
    exact (idle i t there (by simp [executes])).elim
  · intro i t r cleared pc backend there place
    exact (idle i t there (by rw [place]; exact nofun)).elim
  · intro r backend named own
    cases named
    unfold backendOf at own
    dsimp only at own
    rw [Function.update_self] at own
    cases own

/-- A step of `stop` on a reader thread. -/
theorem stopping_armed {s : Threads Id} {name r : Nat} {thread : ReaderThread Id} {stop : StopPc}
    (armed : s.Armed) (here : s.readerThreads name = some thread) (pc : thread.pc = .stopping r stop) :
    Armed {(s.stopStep stop).1 with
      readerThreads := Function.update (s.stopStep stop).1.readerThreads name
        (some {thread with pc := match (s.stopStep stop).2 with
          | some later => .stopping r later
          | none => .loop r thread.captured.queues (.reset .finish)})} := by
  have live : thread.pc.live = true := by rw [pc]; rfl
  by_cases tearing : ∃ backend, stop = .teardown backend
  · obtain ⟨backend,rfl⟩ := tearing
    have torn : (s.called backend .teardown).Armed := by
      apply armed.tears (.inr ⟨name,thread,here,by rw [pc]; rfl⟩)
      intro i u own cleared place there at_
      have same := armed.one i name u thread there here (by rw [at_]; rfl) live
      subst same
      cases there.symm.trans here
      cases pc.symm.trans at_
    apply torn.withReaderThread here
    · intro _; exact live
    · intro own executes
      cases executes
      exact torn.named name thread r here (by rw [pc]; rfl)
    · intro own cleared place other moved; cases moved
    · intro _; exact .inl rfl
  · have spec := s.stopStep_spec (fun backend same => tearing ⟨backend,same⟩)
    have stepped := spec.calm.armed armed
    have there : (s.stopStep stop).1.readerThreads name = some thread :=
      (congrFun spec.calm.readerThreads name).trans here
    apply stepped.withReaderThread there
    · intro _; exact live
    · intro own executes
      have same : own = r := by
        split at executes <;> cases executes <;> rfl
      subst same
      exact stepped.named name thread own there (by rw [pc]; rfl)
    · intro own cleared place backend
      split
      · exact nofun
      · intro moved _
        cases moved
        exact .inr (.inr (.inl rfl))
    · intro withdraws
      rw [pc] at withdraws
      rcases spec.withdraws withdraws with lost | ⟨later,rest,still⟩
      · exact .inr lost
      · rw [rest]
        exact .inl still

theorem readerThreadStep_armed {bufferCount : Nat} {s t : Threads Id} {name : Nat}
    {thread : ReaderThread Id} {answers : Answers Id} {rest : ReaderThreadPc Id} (armed : s.Armed)
    (here : s.readerThreads name = some thread) (orderly : s.Orderly (.reader name answers))
    (taken : s.readerThreadStep bufferCount thread answers = some (t,rest)) :
    Armed {t with readerThreads := Function.update t.readerThreads name (some {thread with pc := rest})} := by
  unfold readerThreadStep at taken
  split at taken
  next pc =>
    cases taken
    apply armed.withOutside here
    · intro _; rw [pc]; rfl
    · split <;> rfl
    · rw [pc]; rfl
  next pc =>
    cases taken
    apply armed.withOutside here
    · intro _; rw [pc]; rfl
    · split <;> rfl
    · rw [pc]; rfl
  next pc =>
    cases taken
    apply (armed.createReader here pc).withOutside here
    · intro _; rw [pc]; rfl
    · rfl
    · rw [pc]; rfl
  next pc =>
    cases taken
    apply armed.withReaderThread here
    · intro _; rw [pc]; rfl
    · intro r
      split
      next own named => intro executes; cases executes; exact .inr named
      next => exact nofun
    · intro r cleared place backend
      split
      next own named =>
        intro moved made
        cases moved
        rcases armed.held r backend named made with loaded | ⟨stop,stops,withdraws⟩ | ⟨i,u,there,withdraws⟩
        · exact .inl loaded
        · have halted := armed.halted stop stops (StopPc.halts_of_withdraws withdraws)
          exact .inr (.inr (.inr ⟨rfl,halted⟩))
        · have same := armed.one i name u thread there here
            (ReaderThreadPc.live_of_withdraws withdraws) (by rw [pc]; rfl)
          subst same
          cases there.symm.trans here
          rw [pc] at withdraws
          cases withdraws
      next => exact nofun
    · rw [pc]; exact nofun
  next pc =>
    cases taken
    apply armed.withOutside here
    · intro _; rw [pc]; rfl
    · rfl
    · rw [pc]; rfl
  next r cleared place _ pc =>
    split at taken
    · cases taken
      apply armed.withReaderThread here
      · intro _; rw [pc]; rfl
      · intro own executes
        cases executes
        exact armed.named name thread r here (by rw [pc]; rfl)
      · intro own cleared place other moved; cases moved
      · rw [pc]; exact nofun
    · apply loopStep_armed armed here pc ?_ taken
      rintro trackId track rfl
      exact orderly thread r cleared trackId track here pc
  next r stop pc =>
    cases taken
    exact stopping_armed armed here pc
  next pc =>
    cases taken
    apply armed.withOutside here
    · split <;> exact nofun
    · split <;> rfl
    · rw [pc]; rfl
  next pc =>
    cases taken
    have calm : s.Calm {s with reader := none} := calm_of_same (.inl rfl) (.inr rfl) rfl rfl rfl rfl
    apply (calm.armed armed).withOutside here
    · exact nofun
    · rfl
    · rw [pc]; rfl
  next => cases taken

theorem Armed.spawnReader {s : Threads Id} (armed : s.Armed) {captured : Captured Id}
    (user : s.user = .startReader captured) :
    Armed {s.spawnReader captured with user := .startWriter captured} := by
  have empty := armed.starting (by rw [user]; rfl)
  have only := @empty.spawned _ _ captured
  refine ⟨?_,nofun,?_,nofun,?_,?_⟩
  · intro i j first second fst snd alive lively
    exact (only i first fst alive).1.trans (only j second snd lively).1.symm
  · intro i t r there executes
    have alive : t.pc.live = true := ReaderThreadPc.live_of_executes (by simp [executes])
    rw [(only i t there alive).2] at executes
    cases executes
  · intro i t r cleared pc backend there place
    rw [(only i t there (by rw [place]; rfl)).2] at place
    cases place
  · intro r backend named own
    rcases armed.held r backend named own with loaded | ⟨pc,stops,_⟩ | ⟨i,t,there,withdraws⟩
    · exact .inl loaded
    · cases user.symm.trans stops
    · have alive := ReaderThreadPc.live_of_withdraws withdraws
      simp [empty i t there] at alive

theorem editReader_calm (s : Threads Id) (name : Nat) (edit : Reader Id → Reader Id)
    (same : ∀ reader, (edit reader).backend = reader.backend) : s.Calm (s.editReader name edit) := by
  refine ⟨.inl rfl,.inl rfl,?_,rfl,rfl,rfl⟩
  intro r
  unfold backendOf editReader
  dsimp only
  by_cases named : r = name
  · subst named
    rw [Function.update_self]
    cases s.readers r with
    | none => rfl
    | some reader => exact same reader
  · rw [Function.update_of_ne named]

theorem ownQueue_calm (s : Threads Id) (queue : Queues → Nat) : s.Calm (s.ownQueue queue).1 := by
  unfold ownQueue
  split <;> exact calm_of_same (.inl rfl) (.inl rfl) rfl rfl rfl rfl

/-- Outside `stop` a command goes on to any place that spawns no reader thread, or does where
no other is live. -/
theorem Armed.goesOn {s : Threads Id} (armed : s.Armed) {user : UserPc Id}
    (before : ∀ pc, s.user ≠ .stop pc) (after : ∀ pc, user = .stop pc → pc = .readState)
    (prepares : user.prepares = true → s.NoReader) : Armed {s with user := user} := by
  apply armed.withUser prepares
  · intro pc stops halts
    cases after pc stops
    cases halts
  · intro pc stops
    exact absurd stops (before pc)

theorem Armed.calmlyGoesOn {s t : Threads Id} (armed : s.Armed) (calm : s.Calm t) {user : UserPc Id}
    (before : ∀ pc, s.user ≠ .stop pc) (after : ∀ pc, user = .stop pc → pc = .readState)
    (prepares : user.prepares = true → s.NoReader) : Armed {t with user := user} := by
  apply (calm.armed armed).goesOn
  · intro pc stops
    exact before pc (calm.user.symm.trans stops)
  · exact after
  · intro starts i u there
    exact prepares starts i u (calm.readerThreads ▸ there)

theorem userStep_armed {s t : Threads Id} {focusGranted : Bool} {user : UserPc Id} (armed : s.Armed)
    (orderly : s.Orderly (.user focusGranted)) (taken : s.userStep focusGranted = some (t,user)) :
    Armed {t with user := user} := by
  have starting := armed.starting
  cases pc : s.user with
  | stop stop =>
    unfold userStep at taken
    simp only [pc] at taken
    cases taken
    by_cases tearing : ∃ backend, stop = .teardown backend
    · obtain ⟨backend,rfl⟩ := tearing
      have halted := armed.halted _ pc rfl
      have torn : (s.called backend .teardown).Armed := by
        apply armed.tears (.inl ⟨_,pc,rfl⟩)
        intro i u own cleared place there at_ has
        rcases orderly.2 backend pc i u own cleared place there at_ has with reloads | exits | leaves
        · exact .inl reloads
        · exact .inr (.inl exits)
        · exact .inr (.inr ⟨leaves,halted⟩)
      apply torn.withUser
      · intro prepares; cases prepares
      · intro _ _ _; exact halted
      · intro _ _ _; exact .inr ⟨_,rfl,rfl⟩
    · have spec := s.stopStep_spec (fun backend same => tearing ⟨backend,same⟩)
      apply (spec.calm.armed armed).withUser
      · intro prepares
        split at prepares <;> cases prepares
      · intro later stops halts
        have rest : (s.stopStep stop).2 = some later := by
          split at stops
          next other rest => cases stops; exact rest
          next => cases stops
        rcases spec.halts later rest halts with before | halted
        · exact spec.calm.halted (armed.halted stop pc before)
        · exact halted
      · intro before stops withdraws
        cases (spec.calm.user.trans pc).symm.trans stops
        rcases spec.withdraws withdraws with lost | ⟨later,rest,still⟩
        · exact .inl lost
        · exact .inr ⟨later,by rw [rest],still⟩
  | idle =>
    unfold userStep at taken
    simp only [pc] at taken
    cases taken
  | startReader captured =>
    unfold userStep at taken
    simp only [pc] at taken
    cases taken
    exact armed.spawnReader pc
  | startPlaying trackId resuming =>
    have quiet := orderly.1 trackId resuming pc
    unfold userStep at taken
    simp only [pc] at taken
    cases taken
    refine ⟨armed.one,fun _ => quiet,armed.named,nofun,?_,?_⟩
    · intro i u r cleared place backend there at_
      have dead := quiet i u there
      rw [at_] at dead
      cases dead
    · intro r backend named own
      rcases armed.held r backend named own with loaded | ⟨stop,stops,_⟩ | thread
      · exact .inl loaded
      · cases pc.symm.trans stops
      · exact .inr (.inr thread)
  | startEmpties =>
    have quiet := starting (by rw [pc]; rfl)
    unfold userStep at taken
    simp only [pc] at taken
    cases taken
    have calm := s.ownQueue_calm Queues.emptyBuffers
    apply armed.calmlyGoesOn calm
    · rw [pc]; exact nofun
    · exact nofun
    · intro _; exact quiet
  | startFulls =>
    have quiet := starting (by rw [pc]; rfl)
    unfold userStep at taken
    simp only [pc] at taken
    cases taken
    have calm := s.ownQueue_calm Queues.fullBuffers
    apply armed.calmlyGoesOn calm
    · rw [pc]; exact nofun
    · exact nofun
    · intro _; exact quiet
  | startTrack =>
    have quiet := starting (by rw [pc]; rfl)
    unfold userStep at taken
    simp only [pc] at taken
    cases taken
    apply armed.goesOn
    · rw [pc]; exact nofun
    · intro stop; split <;> exact nofun
    · intro _; exact quiet
  | pauseWrite =>
    unfold userStep at taken
    simp only [pc] at taken
    cases taken
    have calm : s.Calm {s with state := .paused} := calm_of_same (.inr nofun) (.inl rfl) rfl rfl rfl rfl
    apply armed.calmlyGoesOn calm
    · rw [pc]; exact nofun
    · exact nofun
    · intro prepares; cases prepares
  | pauseInterrupt =>
    unfold userStep at taken
    simp only [pc] at taken
    cases taken
    have calm := s.interrupt_calm
    apply armed.calmlyGoesOn calm
    · rw [pc]; exact nofun
    · exact nofun
    · intro prepares; cases prepares
  | startWriter captured =>
    unfold userStep at taken
    simp only [pc] at taken
    cases taken
    have calm : s.Calm (s.spawnWriter captured) := calm_of_same (.inl rfl) (.inl rfl) rfl rfl rfl rfl
    apply armed.calmlyGoesOn calm
    · rw [pc]; exact nofun
    · exact nofun
    · intro prepares; cases prepares
  | handOnQueue reader trackId =>
    unfold userStep at taken
    simp only [pc] at taken
    cases taken
    have calm := s.editReader_calm reader (fun r => {r with queuedTrackId := trackId}) (fun _ => rfl)
    apply armed.calmlyGoesOn calm
    · rw [pc]; exact nofun
    · exact nofun
    · intro prepares; cases prepares
  | seekQueue reader position =>
    unfold userStep at taken
    simp only [pc] at taken
    cases taken
    have calm := s.editReader_calm reader (fun r => {r with queuedSeekPosition := some position})
      (fun _ => rfl)
    apply armed.calmlyGoesOn calm
    · rw [pc]; exact nofun
    · exact nofun
    · intro prepares; cases prepares
  | startState | startResuming | startFocus | pauseState | handOn | seek =>
    unfold userStep at taken
    simp only [pc] at taken
    cases taken
    apply armed.goesOn
    · rw [pc]; exact nofun
    · intro stop stops
      repeat' split at stops
      all_goals cases stops
    · intro prepares
      repeat' split at prepares
      all_goals cases prepares

theorem writerThreadStep_calm {bufferCount : Nat} {s t : Threads Id} {thread next : WriterThread}
    {timeout : Bool} (taken : s.writerThreadStep bufferCount thread timeout = some (t,next)) :
    s.Calm t := by
  unfold writerThreadStep at taken
  split at taken
  case h_5 =>
    split at taken
    · cases taken
    next writer _ =>
      split at taken
      · cases taken
      next p stepped =>
        cases taken
        refine calm_of_same ?_ (.inl rfl) rfl rfl rfl rfl
        rcases Pipeline.writerStep_state stepped with same | error
        · exact .inl same
        · refine .inr ?_
          dsimp only
          rw [error]
          exact nofun
  all_goals cases taken
  all_goals exact calm_of_same (.inl rfl) (.inl rfl) rfl rfl rfl rfl

theorem next_armed {bufferCount : Nat} {s t : Threads Id} {label : ThreadsLabel Id} (armed : s.Armed)
    (orderly : s.Orderly label) (taken : s.next bufferCount label = some t) : t.Armed := by
  unfold next at taken
  cases label with
  | command command =>
    dsimp only at taken
    split at taken
    next pc =>
      cases taken
      apply armed.goesOn
      · rw [pc]; exact nofun
      · intro stop stops; cases command <;> cases stops; rfl
      · intro prepares; cases command <;> cases prepares
    next => cases taken
  | user focusGranted =>
    dsimp only at taken
    split at taken
    · cases taken
    next stepped =>
      cases taken
      exact userStep_armed armed orderly stepped
  | reader name answers =>
    dsimp only at taken
    split at taken
    · cases taken
    next thread here =>
      split at taken
      · cases taken
      next stepped =>
        cases taken
        exact readerThreadStep_armed armed here orderly stepped
  | writer name timeout =>
    dsimp only at taken
    split at taken
    · cases taken
    next thread here =>
      split at taken
      · cases taken
      next u moved stepped =>
        cases taken
        have calm : u.Calm {u with writerThreads := Function.update u.writerThreads name (some moved)} :=
          calm_of_same (.inl rfl) (.inl rfl) rfl rfl rfl rfl
        exact calm.armed ((writerThreadStep_calm stepped).armed armed)

theorem initial_armed : (initial : Threads Id).Armed := by
  refine ⟨?_,?_,?_,nofun,?_,?_⟩
  · intro _ _ _ _ here; cases here
  · intro prepares; cases prepares
  · intro _ _ _ here; cases here
  · intro _ _ _ _ _ _ here; cases here
  · intro _ _ named; cases named

theorem Armed.proper {s : Threads Id} (armed : s.Armed) {label : ThreadsLabel Id}
    (orderly : s.Orderly label) : s.Proper label := by
  cases label with
  | command | writer => trivial
  | user focusGranted =>
    intro backend stops i t r cleared pc there place inCall own
    rcases orderly.2 backend stops i t r cleared pc there place own with safe | safe | safe
    all_goals
      cases pc with
      | readEnd | seekEnd => cases safe
      | _ => cases inCall
  | reader i answers =>
    intro t here
    -- a thread that is not in a native call is the only one that could be
    have unused (backend : BackendImpl) (live : t.pc.live = true)
        (outside : ∀ r cleared pc, t.pc = .loop r cleared pc → pc.inCall = false) : s.Unused backend := by
      intro j u r cleared pc there place inCall
      have same := armed.one j i u t there here (by rw [place]; rfl) live
      subst same
      cases there.symm.trans here
      cases inCall.symm.trans (outside r cleared pc place)
    cases pc : t.pc with
    | stopping r stop =>
      cases stop with
      | teardown backend => exact unused backend (by rw [pc]; rfl) (by rw [pc]; exact nofun)
      | _ => trivial
    | loop r cleared place =>
      have ready := armed.ready i t r cleared place
      cases place with
      | read =>
        refine .inr fun backend own => ?_
        rcases ready backend here pc own with loaded | never | never | never
        · exact loaded
        · cases never
        · cases never
        · cases never.1
      | seek =>
        intro backend own
        rcases ready backend here pc own with loaded | never | never | never
        · exact loaded
        · cases never
        · cases never
        · cases never.1
      | teardown =>
        intro backend _
        apply unused backend (by rw [pc]; rfl)
        intro r' cleared' place' moved
        cases pc.symm.trans moved
        rfl
      | _ => trivial
    | _ => trivial

/-- In a run in which no `start` or `stop` of the user comes between the reader and the backend
it is about to use, and every track loaded has a backend, the life cycles are kept. -/
theorem backends_proper {bufferCount : Nat} (labels : List (ThreadsLabel Id))
    (met : Run.Meets (next bufferCount) Orderly initial labels) :
    Run.Meets (next bufferCount) Proper (initial : Threads Id) labels :=
  Run.meets_of_meets (fun _ _ _ armed orderly taken => next_armed armed orderly taken)
    (fun _ _ armed orderly => armed.proper orderly) initial_armed met

/-- A track is started and its reader reads from the backend it has loaded. -/
theorem backends_proper_started :
    let labels : List (ThreadsLabel Nat) := .command (.start (some 7))::List.replicate 9 (.user true) ++
      List.replicate 23 (.reader 0 .playing)
    (∃ s, Run.exec (next 2) initial labels = some s ∧ s.backendOf 0 = some .psf ∧
      s.lifeCycle .psf = .loadFile ∧ ¬ s.Unused .psf) ∧
    Run.Meets (next 2) Proper initial labels := by
  intro labels
  have orderly : Run.Meets (next 2) Orderly initial labels := by
    refine ⟨trivial,⟨nofun,nofun⟩,⟨nofun,nofun⟩,⟨nofun,nofun⟩,⟨?_,nofun⟩,⟨nofun,nofun⟩,⟨nofun,nofun⟩,
      ⟨nofun,nofun⟩,⟨nofun,nofun⟩,⟨nofun,nofun⟩,?_⟩
    · intro _ _ _ i t here; cases here
    · iterate 23
        refine ⟨?_,?_⟩
        · intro t r cleared trackId track here place
          cases here
          cases place <;> exact fun _ => nofun
      trivial
  exact ⟨⟨_,rfl,rfl,rfl,fun unused => unused 0 _ 0 _ _ rfl rfl rfl rfl⟩,backends_proper labels orderly⟩

/-- A stop between the reader's look at the state and its read: the reader reads from a backend
that was torn down. One step later, the backend is torn down while the reader reads from it. -/
theorem torn_down_in_use :
    (∃ s t : Threads Nat, Run.exec (next 2) initial
        (.command (.start (some 7))::List.replicate 9 (.user true) ++ List.replicate 22 (.reader 0 .playing) ++
          .command .stop::List.replicate 5 (.user true)) = some s ∧
      s.next 2 (.reader 0 .playing) = some t ∧ ¬ s.Proper (.reader 0 .playing)) ∧
    ∃ s t : Threads Nat, Run.exec (next 2) initial
        (.command (.start (some 7))::List.replicate 9 (.user true) ++ List.replicate 23 (.reader 0 .playing) ++
          .command .stop::List.replicate 4 (.user true)) = some s ∧
      s.next 2 (.user true) = some t ∧ ¬ s.Proper (.user true) := by
  constructor
  · refine ⟨_,_,rfl,rfl,?_⟩
    intro proper
    rcases proper _ rfl with ⟨reader,found,untitled⟩ | loaded
    · cases found
      cases untitled
    · cases loaded .psf rfl
  · refine ⟨_,_,rfl,rfl,?_⟩
    intro proper
    exact proper .psf rfl 0 _ 0 _ _ rfl rfl rfl rfl

end Threads
end Chipbox.Playback
