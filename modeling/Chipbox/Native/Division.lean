import Chipbox.Native.TrackEnd

/-! The divisors that the calls and queries of the reader find: the rate of the track, from which
samples become milliseconds, and the size of the FIFO. -/
namespace Chipbox.Native
open Globals

/-- What the reader asks of a backend: the calls passed on and the two queries. -/
inductive ReaderCall
  | call (made : Call)
  | isTrackOver
  | getMillisPlayed

/-- The globals, with the samples of the track buffer that the last load that succeeded has made. -/
structure Served where
  globals : Globals
  loaded : Option Nat

namespace Served

def initial : Served := ⟨.initial,none⟩

def loadedAfter (lib : Lib) (loaded : Option Nat) (rate bufferSize : Nat) (reply : LoadReply) :
    Option Nat :=
  if reply.emulator.isSome then some (loadedSamples lib rate bufferSize) else loaded

/-- A seek that is not ahead loads the track again. -/
def loadedBy (lib : Lib) (s : Served) : Call → Option Nat
  | .loadFile rate bufferSize _ reply => loadedAfter lib s.loaded rate (Word.ofInt bufferSize) reply
  | .seek timeInMs reply =>
    if seekTarget s.globals timeInMs ≤ s.globals.playedSampleCountTrack then
      loadedAfter lib s.loaded s.globals.sampleRateDevice s.globals.bufferLengthShortsDevice reply
    else s.loaded
  | _ => s.loaded

end Served

/-- The queries leave the globals as they are. -/
def serve (lib : Lib) (fuel : Nat) (s : Served) : ReaderCall → Option Served
  | .call made => (call lib fuel s.globals made).map fun after => ⟨after,s.loadedBy lib made⟩
  | .isTrackOver | .getMillisPlayed => some s

/-- The loop of the PSF `generateAudio` comes to a `fifo_put` into a FIFO of size zero. -/
def generateDivides : Nat → Globals → Nat → Nat → Bool
  | 0,_,_,_ => false
  | fuel+1,g,bytesRequested,internalBufferSize =>
    decide (internalBufferSize < bytesRequested) && g.cpuOpen &&
      match sexyExecute g with
      | none => true
      | some (size,g) => generateDivides fuel g bytesRequested (internalBufferSize + size)

/-- A pass of the loop of `seek` does. -/
def seekDivides (lib : Lib) (generateFuel : Nat) : Nat → Globals → Nat → Bool
  | 0,_,_ => false
  | fuel+1,g,samplesRemaining =>
    let samplesToRead := if samplesRemaining > g.bufferLengthSamplesTrack
      then g.bufferLengthSamplesTrack else samplesRemaining
    let bytesRequested := Word.mul samplesToRead bytesPerSample
    decide (0 < samplesRemaining) && !g.stopSeek &&
      (decide (lib = .psf) && generateDivides generateFuel g bytesRequested 0 ||
        match generateAudio lib generateFuel g bytesRequested with
        | none => false
        | some (_,g) => seekDivides lib generateFuel fuel (g.addPlayed samplesToRead)
            (Word.sub samplesRemaining samplesToRead))

/-- The call evaluates `convert_samples_to_ms` at rate zero, or reduces a position of a FIFO of size
zero. A read does so in its first `fifo_get` if at all, since nothing in it resizes the FIFO. -/
def Divides (lib : Lib) (fuel : Nat) (s : Served) : ReaderCall → Prop
  | .isTrackOver => (lib = .psf → s.globals.cpuOpen = true) ∧ s.globals.sampleRateTrack = 0
  | .getMillisPlayed => s.globals.sampleRateTrack = 0
  | .call (.readNextSamples reply) => s.globals.sampleRateTrack ≠ 0 ∧ reply.arrayNull = false ∧
    s.globals.fifoFromLib.size = 0
  | .call (.seek timeInMs reply) =>
    match seekStart lib s.globals timeInMs reply with
    | none => False
    | some start => seekDivides lib fuel fuel start
        (Word.sub (seekTarget s.globals timeInMs) start.playedSampleCountTrack) = true
  | .call (.loadFile ..) | .call .teardown => False

/-- A load has succeeded before the query, and the last one before a read with an array has made a
buffer of at least one sample. -/
def Ready (lib : Lib) (s : Served) : ReaderCall → Prop
  | .isTrackOver => lib = .usf → s.loaded.isSome = true
  | .getMillisPlayed => s.loaded.isSome = true
  | .call (.readNextSamples reply) => reply.arrayNull = false → s.loaded ≠ some 0
  | .call _ => True

def FromReader : ReaderCall → Prop
  | .call (.loadFile rate bufferSize _ _) => 0 < rate ∧ rate < 2^31 ∧ 0 ≤ bufferSize ∧ bufferSize < 2^31
  | _ => True

structure Divisors (lib : Lib) (g : Globals) (loaded : Option Nat) : Prop where
  device : g.sampleRateDevice < 2^31
  shorts : g.bufferLengthShortsDevice < 2^31
  bare : loaded = none → g.sampleRateTrack = 0 ∧ g.playedSampleCountTrack = 0 ∧
    (lib = .psf → g.cpuOpen = false)
  sized : ∀ samples, loaded = some samples → g.sampleRateTrack ≠ 0 ∧
    g.bufferLengthSamplesTrack = samples ∧ g.fifoFromLib.size = 8 * samples

namespace Divisors
variable {lib : Lib} {g after : Globals} {loaded : Option Nat} {samples : Nat}

theorem of_control (divisors : Divisors lib g (some samples)) (control : SameControl g after) :
    Divisors lib after (some samples) := by
  obtain ⟨rate,length,size⟩ := divisors.sized _ rfl
  refine ⟨control.sampleRateDevice ▸ divisors.device,control.shortsDevice ▸ divisors.shorts,nofun,?_⟩
  rintro _ ⟨⟩
  rw [control.sampleRateTrack,control.samplesTrack,control.fifoSize]
  exact ⟨rate,length,size⟩

theorem addPlayed (divisors : Divisors lib g (some samples)) (count : Nat) :
    Divisors lib (g.addPlayed count) (some samples) :=
  ⟨divisors.device,divisors.shorts,nofun,divisors.sized⟩

theorem stopSeek (divisors : Divisors lib g loaded) (stopped : Bool) :
    Divisors lib {g with stopSeek := stopped} loaded :=
  ⟨divisors.device,divisors.shorts,divisors.bare,divisors.sized⟩

theorem lastError (divisors : Divisors lib g loaded) (error : Option String) :
    Divisors lib {g with lastError := error} loaded :=
  ⟨divisors.device,divisors.shorts,divisors.bare,divisors.sized⟩

theorem teardown (divisors : Divisors lib g loaded) : Divisors lib (teardownInternal lib g) loaded := by
  have closed : lib = .psf → (teardownInternal lib g).cpuOpen = false := by
    rintro rfl
    rfl
  obtain ⟨_,_,_,_,_,same⟩ := teardownInternal_same lib g
  rw [same] at closed ⊢
  exact ⟨divisors.device,divisors.shorts,fun none => ⟨(divisors.bare none).1,rfl,closed⟩,divisors.sized⟩

theorem finish {rate bufferSize : Nat} {ready : Globals} (emulator : Emulator) (positive : 0 < rate)
    (small : rate < 2^31) (buffer : bufferSize < 2^31) (device : ready.sampleRateDevice = rate)
    (shorts : ready.bufferLengthShortsDevice = bufferSize)
    (samples : ready.bufferLengthSamplesDevice = bufferSize / shortsPerSample) :
    Divisors lib (finishLoad (trackRate lib rate) emulator ready)
      (some (loadedSamples lib rate bufferSize)) := by
  have room : loadedSamples lib rate bufferSize < 2^48 := loadedSamples_lt positive buffer
  have length : (finishLoad (trackRate lib rate) emulator ready).bufferLengthSamplesTrack =
      loadedSamples lib rate bufferSize := by
    simp only [finishLoad,setHandle,samples,device,loadedSamples]
  have size : (finishLoad (trackRate lib rate) emulator ready).fifoFromLib.size =
      Word.mul (Word.mul (loadedSamples lib rate bufferSize) bytesPerSample) 2 := by
    rw [← length]
    rfl
  refine ⟨?_,?_,(by intro none; cases none),?_⟩
  · simp only [finishLoad,setHandle,device]
    exact small
  · simp only [finishLoad,setHandle,shorts]
    exact buffer
  · rintro _ ⟨⟩
    refine ⟨Nat.pos_iff_ne_zero.mp (trackRate_pos positive),length,?_⟩
    have bytes : Word.mul (loadedSamples lib rate bufferSize) bytesPerSample =
        loadedSamples lib rate bufferSize * 4 := Word.mul_of_lt (by unfold bytesPerSample; omega)
    rw [size,bytes,Word.mul_of_lt (by omega)]
    omega

/-- A load that succeeds sets the divisors, and one that fails keeps them. -/
theorem load {rate bufferSize fadeTimeMs : Nat} {reply : LoadReply} (divisors : Divisors lib g loaded)
    (small : rate < 2^31) (buffer : bufferSize < 2^31)
    (ran : loadFileInternal lib g rate bufferSize fadeTimeMs reply = some after) :
    Divisors lib after (Served.loadedAfter lib loaded rate bufferSize reply) := by
  obtain ⟨positive,_,_,_,_,_,_,_,_,rfl,outcome⟩ := loadFileInternal_cases ran
  unfold Served.loadedAfter
  cases answer : reply.emulator with
  | none =>
    rw [answer] at outcome
    obtain ⟨closed,rfl⟩ := outcome
    refine ⟨small,buffer,fun none => ⟨(divisors.bare none).1,?_,closed⟩,divisors.sized⟩
    dsimp only
    rw [(divisors.bare none).2.1,ite_self]
  | some emulator =>
    rw [answer] at outcome
    obtain ⟨_,rfl⟩ := outcome
    exact finish emulator (Nat.pos_iff_ne_zero.mpr positive) small buffer rfl rfl rfl

/-- Neither an empty request nor a FIFO with a size makes the loop divide. -/
theorem generate {fuel requested internal : Nat} (safe : g.fifoFromLib.size ≠ 0 ∨ requested = 0) :
    generateDivides fuel g requested internal = false := by
  induction fuel generalizing g internal with
  | zero => rfl
  | succ fuel ih =>
    unfold generateDivides
    rcases safe with sized | rfl
    · obtain ⟨size,next,executed⟩ := sexyExecute_some sized
      have control := (sexyExecute_control executed).1
      rw [executed]
      dsimp only
      rw [ih (.inl (control.fifoSize ▸ sized)),Bool.and_false]
    · rw [decide_eq_false (Nat.not_lt_zero _),Bool.false_and,Bool.false_and]

/-- The loop of `seek` asks for nothing while the buffer has no samples, and else has a FIFO. -/
theorem seekLoop_divides {generateFuel fuel remaining : Nat} (divisors : Divisors lib g (some samples)) :
    seekDivides lib generateFuel fuel g remaining = false := by
  induction fuel generalizing g remaining with
  | zero => rfl
  | succ fuel ih =>
    unfold seekDivides
    dsimp only
    obtain ⟨_,length,size⟩ := divisors.sized _ rfl
    by_cases more : 0 < remaining
    · have still : generateDivides generateFuel g (Word.mul (if remaining > g.bufferLengthSamplesTrack
          then g.bufferLengthSamplesTrack else remaining) bytesPerSample) 0 = false := by
        refine generate ?_
        rw [size,length]
        rcases Nat.eq_zero_or_pos samples with rfl | positive
        · right
          rw [if_pos more,Word.mul_of_lt (by decide),Nat.zero_mul]
        · left
          omega
      rw [still,Bool.and_false,Bool.false_or]
      cases generated : generateAudio lib generateFuel g (Word.mul
          (if remaining > g.bufferLengthSamplesTrack then g.bufferLengthSamplesTrack else remaining)
          bytesPerSample) with
      | none => exact Bool.and_false _
      | some outcome =>
        obtain ⟨result,next⟩ := outcome
        dsimp only
        rw [ih ((divisors.of_control (generateAudio_control generated)).addPlayed _),Bool.and_false]
    · rw [decide_eq_false more,Bool.false_and,Bool.false_and]

theorem seekLoop {generateFuel fuel remaining : Nat} (divisors : Divisors lib g (some samples))
    (ran : seekLoop lib generateFuel fuel g remaining = some after) :
    Divisors lib after (some samples) := by
  apply @seekLoop_keeps (Divisors lib · (some samples)) _ _ _ _ _ _ _ divisors ran
  intro middle next _ _ count held generated
  exact (held.of_control (generateAudio_control generated)).addPlayed count

theorem seekTarget_bare (divisors : Divisors lib g none) (timeInMs : Int) : seekTarget g timeInMs = 0 := by
  unfold seekTarget convertMsToSamples Word.mul
  rw [(divisors.bare rfl).1,Nat.zero_mul]
  rfl

theorem seekStart {timeInMs : Int} {reply : LoadReply} (divisors : Divisors lib g loaded)
    (ran : seekStart lib g timeInMs reply = some after) :
    Divisors lib after (Served.loadedBy lib ⟨g,loaded⟩ (.seek timeInMs reply)) := by
  unfold Chipbox.Native.seekStart at ran
  unfold Served.loadedBy
  dsimp only at ran ⊢
  have target : seekTarget {g with stopSeek := false} timeInMs = seekTarget g timeInMs := rfl
  rw [target] at ran
  by_cases back : seekTarget g timeInMs ≤ g.playedSampleCountTrack
  · rw [if_pos back] at ran ⊢
    have torn := (divisors.stopSeek false).teardown
    obtain ⟨_,_,_,_,_,same⟩ := teardownInternal_same lib {g with stopSeek := false}
    rw [same] at ran torn
    exact torn.load divisors.device divisors.shorts ran
  · rw [if_neg back] at ran ⊢
    cases ran
    exact divisors.stopSeek false

/-- With nothing loaded the loop of `seek` has nothing to skip. -/
theorem remaining_bare {timeInMs : Int} {reply : LoadReply} {start : Globals}
    (divisors : Divisors lib g loaded) (began : Divisors lib start none)
    (bare : Served.loadedBy lib ⟨g,loaded⟩ (.seek timeInMs reply) = none) :
    Word.sub (seekTarget g timeInMs) start.playedSampleCountTrack = 0 := by
  have unloaded : loaded = none := by
    unfold Served.loadedBy Served.loadedAfter at bare
    dsimp only at bare
    split at bare
    · split at bare
      · cases bare
      · exact bare
    · exact bare
  subst unloaded
  rw [seekTarget_bare divisors,(began.bare rfl).2.1]
  rfl

theorem seek_divides {fuel : Nat} {timeInMs : Int} {reply : LoadReply} {s : Served}
    (divisors : Divisors lib s.globals s.loaded) :
    ¬ Divides lib fuel s (.call (.seek timeInMs reply)) := by
  unfold Divides
  dsimp only
  cases began : Chipbox.Native.seekStart lib s.globals timeInMs reply with
  | none => exact id
  | some start =>
    dsimp only
    have after := divisors.seekStart began
    cases held : Served.loadedBy lib s (.seek timeInMs reply) with
    | some samples =>
      rw [held] at after
      rw [after.seekLoop_divides]
      exact Bool.false_ne_true
    | none =>
      rw [held] at after
      rw [divisors.remaining_bare after held]
      cases fuel with
      | zero => exact Bool.false_ne_true
      | succ fuel => exact Bool.false_ne_true

theorem seek {fuel : Nat} {timeInMs : Int} {reply : LoadReply} (divisors : Divisors lib g loaded)
    (ran : seek lib fuel g timeInMs reply = some after) :
    Divisors lib after (Served.loadedBy lib ⟨g,loaded⟩ (.seek timeInMs reply)) := by
  unfold Chipbox.Native.seek at ran
  split at ran
  · cases ran
  next start began =>
    have begun := divisors.seekStart began
    cases held : Served.loadedBy lib ⟨g,loaded⟩ (.seek timeInMs reply) with
    | some samples =>
      rw [held] at begun
      exact begun.seekLoop ran
    | none =>
      rw [held] at begun
      rw [divisors.remaining_bare begun held] at ran
      cases fuel with
      | zero => cases ran
      | succ fuel =>
        cases ran
        exact begun

theorem read {fuel : Nat} {reply : ReadReply} {taken : Option (List Byte)}
    (divisors : Divisors lib g loaded) (ran : readNextSamples lib fuel g reply = some (taken,after)) :
    Divisors lib after loaded := by
  unfold readNextSamples at ran
  split at ran
  · cases ran
    exact divisors.lastError _
  next rate =>
    cases loaded with
    | none => exact absurd (divisors.bare rfl).1 rate
    | some samples =>
      split at ran
      · cases ran
        exact divisors.lastError _
      · dsimp only at ran
        split at ran
        · cases ran
        next middle assembled =>
          cases ran
          exact divisors.of_control (assembleAudio_control assembled)
        next bytes middle assembled =>
          have kept := divisors.of_control (assembleAudio_control assembled)
          split at ran
          · cases ran
            exact kept.addPlayed _
          · split at ran
            · cases ran
              exact kept.lastError _
            · cases ran
              exact kept.addPlayed _

end Divisors

theorem serve_divisors {lib : Lib} {fuel : Nat} {s t : Served} {made : ReaderCall}
    (divisors : Divisors lib s.globals s.loaded) (device : FromReader made)
    (taken : serve lib fuel s made = some t) : Divisors lib t.globals t.loaded := by
  cases made with
  | isTrackOver | getMillisPlayed =>
    cases taken
    exact divisors
  | call made =>
    obtain ⟨after,ran,rfl⟩ := Option.map_eq_some_iff.mp taken
    cases made with
    | loadFile rate bufferSize fadeTimeMs reply =>
      obtain ⟨_,small,positive,buffer⟩ := device
      have size : Word.ofInt bufferSize < 2^31 := by
        unfold Word.ofInt
        omega
      exact divisors.load small size ran
    | readNextSamples reply =>
      obtain ⟨⟨taken,last⟩,read,rfl⟩ := Option.map_eq_some_iff.mp ran
      exact divisors.read read
    | seek timeInMs reply => exact divisors.seek (call_seek ran)
    | teardown =>
      rw [call_teardown ran]
      exact divisors.teardown

/-- A call divides by zero exactly when it is made too early. -/
theorem divides_iff {lib : Lib} {fuel : Nat} {s : Served} (divisors : Divisors lib s.globals s.loaded)
    (made : ReaderCall) : ¬ Divides lib fuel s made ↔ Ready lib s made := by
  obtain ⟨g,loaded⟩ := s
  have bare : loaded = none → g.sampleRateTrack = 0 ∧ g.playedSampleCountTrack = 0 ∧
    (lib = .psf → g.cpuOpen = false) := divisors.bare
  have sized : ∀ samples, loaded = some samples → g.sampleRateTrack ≠ 0 ∧
    g.bufferLengthSamplesTrack = samples ∧ g.fifoFromLib.size = 8 * samples := divisors.sized
  cases made with
  | isTrackOver =>
    unfold Divides Ready
    cases loaded with
    | none =>
      obtain ⟨rate,_,closed⟩ := bare rfl
      cases lib with
      | psf => simp [closed rfl]
      | usf => simp [rate]
    | some samples => simp [(sized _ rfl).1]
  | getMillisPlayed =>
    unfold Divides Ready
    cases loaded with
    | none => simp [(bare rfl).1]
    | some samples => simp [(sized _ rfl).1]
  | call made =>
    cases made with
    | readNextSamples reply =>
      unfold Divides Ready
      cases loaded with
      | none => simp [(bare rfl).1]
      | some samples =>
        obtain ⟨rate,_,size⟩ := sized _ rfl
        simp [rate,size]
    | seek timeInMs reply => exact iff_of_true divisors.seek_divides trivial
    | loadFile rate bufferSize fadeTimeMs reply => exact iff_of_true id trivial
    | teardown => exact iff_of_true id trivial

theorem initial_divisors (lib : Lib) :
    Divisors lib Served.initial.globals Served.initial.loaded :=
  ⟨by decide,by decide,fun _ => ⟨rfl,rfl,fun _ => rfl⟩,nofun⟩

/-- No call divides by zero exactly when all queries come after a load that succeeds, and all reads
after one that makes a buffer. -/
theorem no_division_iff (lib : Lib) (fuel : Nat) (calls : List ReaderCall)
    (device : ∀ made ∈ calls, FromReader made) :
    Run.Meets (serve lib fuel) (fun s made => ¬ Divides lib fuel s made) Served.initial calls ↔
      Run.Meets (serve lib fuel) (Ready lib) Served.initial calls := by
  suffices general : ∀ s, Divisors lib s.globals s.loaded →
      (Run.Meets (serve lib fuel) (fun s made => ¬ Divides lib fuel s made) s calls ↔
        Run.Meets (serve lib fuel) (Ready lib) s calls) from general _ (initial_divisors lib)
  induction calls with
  | nil => exact fun _ _ => Iff.rfl
  | cons made rest ih =>
    intro s divisors
    simp only [Run.Meets]
    rw [divides_iff divisors made]
    refine and_congr_right fun _ => ?_
    cases taken : serve lib fuel s made with
    | none => exact Iff.rfl
    | some t =>
      exact ih (fun other listed => device other (.tail _ listed)) t
        (serve_divisors divisors (device made List.mem_cons_self) taken)

def refused : LoadReply := ⟨[],none⟩

theorem no_division_iff_psf : Run.Meets (serve .psf 1) (fun s made => ¬ Divides .psf 1 s made)
    Served.initial [.call (.loadFile 44100 8 180000 refused),.isTrackOver] := by
  refine (no_division_iff .psf 1 _ fun made listed => ?_).mpr ?_
  · rcases List.mem_pair.mp listed with rfl | rfl
    · exact ⟨by decide,by decide,by decide,by decide⟩
    · trivial
  · exact ⟨trivial,nofun,trivial⟩

/-- The first file is refused. Then the USF backend is asked whether the track is over; with PSF it
is, the reader has another track to go on to, and asks for the position after its read. -/
theorem divides_after_refusal :
    ¬ Run.Meets (serve .usf 1) (fun s made => ¬ Divides .usf 1 s made) Served.initial
      [.call (.loadFile 44100 8 180000 refused),.isTrackOver] ∧
    ¬ Run.Meets (serve .psf 1) (fun s made => ¬ Divides .psf 1 s made) Served.initial
      [.call (.loadFile 44100 8 180000 refused),.isTrackOver,
        .call (.readNextSamples ⟨false,none⟩),.getMillisPlayed] :=
  ⟨fun met => met.2.1 ⟨nofun,rfl⟩,fun met => met.2.2.2.1 rfl⟩

end Chipbox.Native
