import Chipbox.Native.Fifo
import Mathlib.Logic.Function.Basic

/-! The globals and entry points of the PSF and USF backends. The two sources are one
text but for the emulator they drive, so one definition serves both and branches
where they differ. A byte of audio is named by its offset in the output of the
emulator since its last load; bytes nothing was written to have no name. -/
namespace Chipbox.Native

inductive Lib
  | psf | usf
  deriving DecidableEq, Repr

/-- `none` is memory that `malloc` returned and nobody has written. -/
abbrev Byte := Option Nat

inductive Resource
  | fifoBuffer | bufferAsShortTrack | bufferAsFloatTrack | bufferAsFloatDevice | emuState
  deriving DecidableEq, Repr

inductive Handle
  | null | live | released
  deriving DecidableEq, Repr

inductive Fault
  | releasedTwice (resource : Resource)
  | passedReleased (resource : Resource)
  deriving DecidableEq, Repr

/-- What a loaded emulator will do: the size of the sound buffer and whether the CPU is
still open after each `sexy_execute`, and the outcome of each `usf_render_resampled`. -/
structure Emulator where
  soundBufferSize : Nat → Nat
  cpuOpen : Nat → Bool
  renderError : Nat → Option String

inductive SrcError
  | mallocFailed | badState | badData | badDataPtr | noPrivate | badSrcRatio | badProcPtr
  | shiftBits | filterLen | badConverter | badChannelCount | sincBadBufferLen
  | sizeIncompatibility | badPrivPtr | badSincState | dataOverlap | badCallback | badMode
  | nullCallback | noVariableRatio | sincPrepareDataBadLen | badInternalState
  deriving DecidableEq, Repr

/-- `src_strerror` on the error codes; none of them maps to a null text. -/
def SrcError.srcStrerror : SrcError → String
  | .mallocFailed => "Malloc failed."
  | .badState => "SRC_STATE pointer is NULL."
  | .badData => "SRC_DATA pointer is NULL."
  | .badDataPtr => "SRC_DATA->data_out or SRC_DATA->data_in is NULL."
  | .noPrivate => "Internal error. No private data."
  | .badSrcRatio => "SRC ratio outside [1/256, 256] range."
  | .badSincState => "src_process() called without reset after end_of_input."
  | .badProcPtr => "Internal error. No process pointer."
  | .shiftBits => "Internal error. SHIFT_BITS too large."
  | .filterLen => "Internal error. Filter length too large."
  | .badConverter => "Bad converter number."
  | .badChannelCount => "Channel count must be >= 1."
  | .sincBadBufferLen => "Internal error. Bad buffer length. Please report this."
  | .sizeIncompatibility =>
    "Internal error. Input data / internal buffer size difference. Please report this."
  | .badPrivPtr => "Internal error. Private pointer is NULL. Please report this."
  | .dataOverlap => "Input and output data arrays overlap."
  | .badCallback => "Supplied callback function pointer is NULL."
  | .badMode => "Calling mode differs from initialisation mode (ie process v callback)."
  | .nullCallback => "Callback function pointer is NULL in src_callback_read ()."
  | .noVariableRatio => "This converter only allows constant conversion ratios."
  | .sincPrepareDataBadLen => "Internal error : Bad length in prepare_data ()."
  | .badInternalState => "Error : Someone is trampling on my internal state."

/-- The outcome of `sexy_load` or `psf_load`: the tags passed to `usf_info` and, where the
file is accepted, the emulator it starts. -/
structure LoadReply where
  tags : List (String × String)
  emulator : Option Emulator

/-- What the environment answers during `readNextSamples`. -/
structure ReadReply where
  arrayNull : Bool
  srcError : Option SrcError

structure Globals where
  initialized : Bool
  stopSeek : Bool
  lastError : Option String
  sampleRateDevice : Nat
  sampleRateTrack : Nat
  bufferLengthShortsDevice : Nat
  bufferLengthSamplesDevice : Nat
  bufferLengthSamplesTrack : Nat
  bufferLengthBytesTrack : Nat
  playedSampleCountTrack : Nat
  trackLengthMs : Nat
  fadeStartThresholdSamplesTrack : Nat
  fadeLengthSamplesTrack : Nat
  fifoFromLib : Fifo Byte
  bufferAsShortTrack : Nat → Byte
  handle : Resource → Handle
  enableCompare : Bool
  enableFifoFull : Bool
  mutedChannels : List Bool
  timeScalingFactor : Rat
  cpuOpen : Bool
  emulator : Emulator
  /-- calls of `sexy_execute` or `usf_render_resampled` since the load -/
  executed : Nat
  /-- bytes the emulator has output since the load -/
  produced : Nat
  /-- violations of handle ownership so far, observed and never read -/
  faults : List Fault

def shortsPerSample : Nat := 2
def bytesPerSample : Nat := 4
def fadeTime : Nat := 7000

def noMemory : Nat → Byte := fun _ => none

def idleEmulator : Emulator := ⟨fun _ => 0,fun _ => false,fun _ => none⟩

def steadyEmulator (size : Nat) : Emulator := ⟨fun _ => size,fun _ => true,fun _ => none⟩

namespace Globals

def initial : Globals where
  initialized := false
  stopSeek := false
  lastError := none
  sampleRateDevice := 0
  sampleRateTrack := 0
  bufferLengthShortsDevice := 0
  bufferLengthSamplesDevice := 0
  bufferLengthSamplesTrack := 0
  bufferLengthBytesTrack := 0
  playedSampleCountTrack := 0
  trackLengthMs := 0
  fadeStartThresholdSamplesTrack := 0
  fadeLengthSamplesTrack := 0
  fifoFromLib := Fifo.fifoInit 0 noMemory
  bufferAsShortTrack := noMemory
  handle := fun _ => .null
  enableCompare := false
  enableFifoFull := false
  mutedChannels := List.replicate 24 false
  timeScalingFactor := 1
  cpuOpen := false
  emulator := idleEmulator
  executed := 0
  produced := 0
  faults := []

def setHandle (g : Globals) (resource : Resource) (handle : Handle) : Globals :=
  {g with handle := Function.update g.handle resource handle}

def fault (g : Globals) (fault : Fault) : Globals := {g with faults := fault::g.faults}

def pass (g : Globals) (resource : Resource) : Globals :=
  if g.handle resource = .released then g.fault (.passedReleased resource) else g

/-- `free` on the pointer, which keeps its value. -/
def free (g : Globals) (resource : Resource) : Globals :=
  match g.handle resource with
  | .null => g
  | .live => g.setHandle resource .released
  | .released => g.fault (.releasedTwice resource)

/-- `g_played_sample_count_track += samples`. -/
def addPlayed (g : Globals) (samples : Nat) : Globals :=
  {g with playedSampleCountTrack := Word.add g.playedSampleCountTrack samples}

end Globals

open Globals

def convertSamplesToMs (sampleRate samples : Nat) : Nat := Word.mul 1000 samples / sampleRate

def convertMsToSamples (sampleRate ms : Nat) : Nat := Word.mul sampleRate ms / 1000

def getMillisPlayedInternal (g : Globals) : Nat :=
  convertSamplesToMs g.sampleRateTrack g.playedSampleCountTrack

def strcasecmp (left right : String) : Bool :=
  left.toList.map Char.toLower == right.toList.map Char.toLower

def usfInfo (g : Globals) (tag : String × String) : Globals :=
  if strcasecmp tag.1 "_enablecompare" && tag.2 != "" then {g with enableCompare := true}
  else if strcasecmp tag.1 "_enablefifofull" && tag.2 != "" then {g with enableFifoFull := true}
  else g

/-- Everything `teardownInternal` does after the backend's own first lines. -/
def releaseBuffers (g : Globals) : Globals :=
  let g := ((g.free .fifoBuffer).free .bufferAsShortTrack)
  let g := ((g.free .bufferAsFloatTrack).free .bufferAsFloatDevice)
  let g := (g.setHandle .bufferAsShortTrack .null).setHandle .bufferAsFloatTrack .null
  {g.setHandle .bufferAsFloatDevice .null with playedSampleCountTrack := 0, initialized := false}

def teardownInternal (lib : Lib) (g : Globals) : Globals :=
  match lib with
  | .psf => {releaseBuffers {g with mutedChannels := List.replicate 24 false} with
      cpuOpen := false, timeScalingFactor := 1}
  | .usf => releaseBuffers (((g.pass .emuState).free .emuState).setHandle .emuState .null)

/-- The double arithmetic of `g_buffer_length_samples_track`, exact below `2^53`. -/
def samplesAtTrackRate (samplesDevice rateTrack rateDevice : Nat) : Nat :=
  samplesDevice * rateTrack / rateDevice

/-- The part of `loadFileInternal` that follows a successful load. -/
def finishLoad (rateTrack : Nat) (emulator : Emulator) (g : Globals) : Globals :=
  let samplesTrack := samplesAtTrackRate g.bufferLengthSamplesDevice rateTrack g.sampleRateDevice
  let bytesTrack := Word.mul samplesTrack bytesPerSample
  let g := {g with
    initialized := true
    sampleRateTrack := rateTrack
    bufferLengthSamplesTrack := samplesTrack
    bufferLengthBytesTrack := bytesTrack
    fadeStartThresholdSamplesTrack :=
      convertMsToSamples rateTrack (Word.sub g.trackLengthMs fadeTime)
    fadeLengthSamplesTrack := convertMsToSamples rateTrack fadeTime
    emulator := emulator
    executed := 0
    produced := 0
    fifoFromLib := Fifo.fifoInit (Word.mul bytesTrack 2) noMemory
    bufferAsShortTrack := noMemory}
  let g := (g.setHandle .fifoBuffer .live).setHandle .bufferAsShortTrack .live
  (g.setHandle .bufferAsFloatTrack .live).setHandle .bufferAsFloatDevice .live

/-- The part of `loadFileInternal` that precedes the load. -/
def prepareLoad (lib : Lib) (g : Globals) (rate bufferSize fadeTimeMs : Nat) : Globals :=
  let g := {g with
    trackLengthMs := fadeTimeMs
    sampleRateDevice := rate
    bufferLengthShortsDevice := bufferSize
    bufferLengthSamplesDevice := bufferSize / shortsPerSample}
  if g.initialized then teardownInternal lib g else g

/-- `loadFileInternal`; a rate of zero divides by zero and has no outcome. -/
def loadFileInternal (lib : Lib) (g : Globals) (rate bufferSize fadeTimeMs : Nat)
    (reply : LoadReply) : Option Globals :=
  if rate = 0 then none
  else
    let g := prepareLoad lib g rate bufferSize fadeTimeMs
    match lib with
    | .psf =>
      match reply.emulator with
      | none => some {g with lastError := some "File load failed.", cpuOpen := false}
      | some emulator => some (finishLoad 44100 emulator {g with cpuOpen := true})
    | .usf =>
      let g := (g.setHandle .emuState .live).pass .emuState
      let g := (reply.tags.foldl usfInfo g).pass .emuState
      match reply.emulator with
      | none => some ({g with lastError := some "File load failed."}.free .emuState)
      | some emulator => some (finishLoad g.sampleRateDevice emulator g)

/-- The names of `count` bytes of the emulator's output from an offset on. -/
def outputBytes (offset count : Nat) : List Byte :=
  (List.range count).map (fun i => some (offset + i))

/-- `sexy_execute`, then `fifo_put` of what it left in the sound buffer. A FIFO of size
zero takes a remainder by zero and has no outcome. -/
def sexyExecute (g : Globals) : Option (Nat × Globals) :=
  let size := g.emulator.soundBufferSize g.executed
  let g := {g with cpuOpen := g.emulator.cpuOpen g.executed, executed := g.executed + 1}
  if size = 0 then some (0,g)
  else if g.fifoFromLib.size = 0 then none
  else
    let g := g.pass .fifoBuffer
    some (size,{g with
      fifoFromLib := (g.fifoFromLib.fifoPut (outputBytes g.produced size)).2
      produced := g.produced + size})

/-- The loop of the PSF `generateAudio`; the fuel bounds the tests of its condition. -/
def generateLoop : Nat → Globals → Nat → Nat → Option (Int × Globals)
  | 0,_,_,_ => none
  | fuel+1,g,bytesRequested,internalBufferSize =>
    if internalBufferSize < bytesRequested then
      if g.cpuOpen then
        match sexyExecute g with
        | none => none
        | some (size,g) => generateLoop fuel g bytesRequested (internalBufferSize + size)
      else some (-1,g)
    else some (internalBufferSize,g)

/-- `usf_render_resampled` into `g_buffer_as_short_track`. -/
def usfRenderResampled (g : Globals) : Option String × Globals :=
  let g := (g.pass .emuState).pass .bufferAsShortTrack
  let count := g.bufferLengthSamplesTrack * bytesPerSample
  match g.emulator.renderError g.executed with
  | some error => (some error,{g with executed := g.executed + 1})
  | none => (none,{g with
      executed := g.executed + 1
      produced := g.produced + count
      bufferAsShortTrack := memcpy g.bufferAsShortTrack 0 (outputBytes g.produced count)})

def generateAudio (lib : Lib) (fuel : Nat) (g : Globals) (bytesRequested : Nat) :
    Option (Int × Globals) :=
  match lib with
  | .psf => generateLoop fuel g bytesRequested 0
  | .usf =>
    match usfRenderResampled g with
    | (some error,g) => some (-1,{g with lastError := some error})
    | (none,g) => some (bytesRequested,g)

/-- `fifo_get` from the FIFO to an offset of `g_buffer_as_short_track`. -/
def getFromFifo (g : Globals) (offset bytesRequested : Nat) : Option (Nat × Globals) :=
  if g.fifoFromLib.size = 0 then none
  else
    let g := (g.pass .fifoBuffer).pass .bufferAsShortTrack
    let got := g.fifoFromLib.fifoGet bytesRequested
    some (got.1.length,{g with
      fifoFromLib := got.2, bufferAsShortTrack := memcpy g.bufferAsShortTrack offset got.1})

/-- The middle of `readNextSamples`: left-over bytes, `generateAudio` and the second
`fifo_get`. Gives the bytes assembled at the track's rate, before fade and resampling,
unless `generateAudio` fails. -/
def assembleAudio (lib : Lib) (fuel : Nat) (g : Globals) : Option (Option (List Byte) × Globals) :=
  match getFromFifo g 0 g.bufferLengthBytesTrack with
  | none => none
  | some (leftoverBytes,g) =>
    let remainingBytesToFill := Word.sub g.bufferLengthBytesTrack leftoverBytes
    match generateAudio lib fuel g remainingBytesToFill with
    | none => none
    | some (generatedBytes,g) =>
      if generatedBytes < 0 then some (none,g)
      else
        match getFromFifo g leftoverBytes remainingBytesToFill with
        | none => none
        | some (_,g) => some (some (bytesAt g.bufferAsShortTrack 0 g.bufferLengthBytesTrack),g)

def readNextSamples (lib : Lib) (fuel : Nat) (g : Globals) (reply : ReadReply) :
    Option (Option (List Byte) × Globals) :=
  if g.sampleRateTrack = 0 then some (none,{g with lastError := some "Initialization failed."})
  else if reply.arrayNull then
    some (none,{g with lastError := some "Couldn't write to Java buffer."})
  else
    let remainingSamples := Word.sub
      (Word.add g.fadeStartThresholdSamplesTrack g.fadeLengthSamplesTrack) g.playedSampleCountTrack
    let samplesToRead := if remainingSamples < g.bufferLengthSamplesTrack
      then remainingSamples else g.bufferLengthSamplesTrack
    match assembleAudio lib fuel g with
    | none => none
    | some (none,g) => some (none,g)
    | some (some taken,g) =>
      if g.sampleRateTrack = g.sampleRateDevice then some (some taken,g.addPlayed samplesToRead)
      else
        match reply.srcError with
        | some error => some (some taken,{g with lastError := some error.srcStrerror})
        | none => some (some taken,g.addPlayed samplesToRead)

/-- The loop of `seek`; what `generateAudio` returns is ignored. -/
def seekLoop (lib : Lib) (generateFuel : Nat) : Nat → Globals → Nat → Option Globals
  | 0,_,_ => none
  | fuel+1,g,samplesRemaining =>
    if 0 < samplesRemaining then
      if g.stopSeek then some g
      else
        let samplesToRead := if samplesRemaining > g.bufferLengthSamplesTrack
          then g.bufferLengthSamplesTrack else samplesRemaining
        match generateAudio lib generateFuel g (Word.mul samplesToRead bytesPerSample) with
        | none => none
        | some (_,g) => seekLoop lib generateFuel fuel (g.addPlayed samplesToRead)
            (Word.sub samplesRemaining samplesToRead)
    else some g

/-- The sample that `seek` aims at. -/
def seekTarget (g : Globals) (timeInMs : Int) : Nat :=
  convertMsToSamples g.sampleRateTrack (Word.ofInt timeInMs)

/-- The part of `seek` that precedes its loop: a target not beyond the played position
tears the track down and loads it again. -/
def seekStart (lib : Lib) (g : Globals) (timeInMs : Int) (reply : LoadReply) : Option Globals :=
  let g := {g with stopSeek := false}
  if seekTarget g timeInMs ≤ g.playedSampleCountTrack then
    let g := teardownInternal lib g
    loadFileInternal lib g g.sampleRateDevice g.bufferLengthShortsDevice g.trackLengthMs reply
  else some g

def seek (lib : Lib) (fuel : Nat) (g : Globals) (timeInMs : Int) (reply : LoadReply) :
    Option Globals :=
  match seekStart lib g timeInMs reply with
  | none => none
  | some start => seekLoop lib fuel fuel start
      (Word.sub (seekTarget g timeInMs) start.playedSampleCountTrack)

def getLastError (g : Globals) : Option String := g.lastError

/-- The calls that `BackendImpl` passes on. Each carries what the environment answers. -/
inductive Call
  | loadFile (rate : Nat) (bufferSize fadeTimeMs : Int) (reply : LoadReply)
  | readNextSamples (reply : ReadReply)
  | seek (timeInMs : Int) (reply : LoadReply)
  | teardown

/-- There is no emulator for `usf_shutdown` or a rendering: the program ends there. -/
def Stateless (lib : Lib) (g : Globals) : Prop := lib = .usf ∧ g.handle .emuState = .null

instance (lib : Lib) (g : Globals) : Decidable (Stateless lib g) := inferInstanceAs (Decidable (_ ∧ _))

def call (lib : Lib) (fuel : Nat) (g : Globals) : Call → Option Globals
  | .loadFile rate bufferSize fadeTimeMs reply =>
    loadFileInternal lib g rate (Word.ofInt bufferSize) (Word.ofInt fadeTimeMs) reply
  | .readNextSamples reply => (readNextSamples lib fuel g reply).map Prod.snd
  | .seek timeInMs reply => if Stateless lib g then none else seek lib fuel g timeInMs reply
  | .teardown => if Stateless lib g then none else some (teardownInternal lib g)

theorem call_seek {lib : Lib} {fuel : Nat} {g after : Globals} {timeInMs : Int} {reply : LoadReply}
    (ran : call lib fuel g (.seek timeInMs reply) = some after) :
    seek lib fuel g timeInMs reply = some after := (Option.ite_none_left_eq_some.mp ran).2

theorem call_teardown {lib : Lib} {fuel : Nat} {g after : Globals}
    (ran : call lib fuel g .teardown = some after) : after = teardownInternal lib g :=
  (Option.some.inj (Option.ite_none_left_eq_some.mp ran).2).symm

end Chipbox.Native
