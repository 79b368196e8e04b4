import Chipbox.Native.Fifo

/-! How `usf.c` hands the samples of the emulator on: what a rendering has no room for waits in
`samplebuf`, and the resampler is fed from `samplebuf2`. -/
namespace Chipbox.Usf

open Native (memcpy bytesAt)

abbrev Frame := BitVec 16 × BitVec 16

def samplebufSize : Nat := 8192
def samplebuf2Size : Nat := 4096

/-- What `usf_push_audio_samples` reads and writes; `written` is how far `sample_buffer` has moved. -/
structure Sink where
  buffer : Nat → Frame
  written : Nat
  sampleBufferCount : Nat
  samplebuf : Nat → Frame
  samplesInBuffer : Nat
  stop : Bool

/-- `usf_push_audio_samples` of the listed frames; what fits nowhere is dropped. -/
def pushAudioSamples (s : Sink) (frames : List Frame) : Sink :=
  let samplesTodo := min frames.length s.sampleBufferCount
  let s := { s with
    sampleBufferCount := s.sampleBufferCount - samplesTodo
    buffer := memcpy s.buffer s.written ((frames.take samplesTodo).map Prod.swap)
    written := s.written + samplesTodo }
  let rest := frames.drop samplesTodo
  if rest.length = 0 then s
  else
    let samplesTodo := min rest.length (samplebufSize - s.samplesInBuffer)
    { s with
      samplebuf := memcpy s.samplebuf s.samplesInBuffer ((rest.take samplesTodo).map Prod.swap)
      samplesInBuffer := s.samplesInBuffer + samplesTodo
      stop := true }

/-- The emulator: what it pushes from its n-th start on, by the room there was. It runs until it is
told to stop. -/
abbrev MainRun := Nat → Nat → List (List Frame)

/-- `usf_state_t`, with the number of times the emulator was started, all that it pushed and all that
the resampler was given. -/
structure UsfState (Resampler : Type) where
  samplebuf : Nat → Frame
  samplesInBuffer : Nat
  samplebuf2 : Nat → Frame
  samplesInBuffer2 : Nat
  resampler : Resampler
  starts : Nat
  pushed : List Frame
  fed : List Frame

/-- `usf_render` into a buffer: the state and the buffer after it. -/
def usfRender {Resampler : Type} (mainRun : MainRun) (s : UsfState Resampler) (buffer : Nat → Frame)
    (count : Nat) : UsfState Resampler × (Nat → Frame) :=
  let doMax := min s.samplesInBuffer count
  let buffer := memcpy buffer 0 (bytesAt s.samplebuf 0 doMax)
  let left := s.samplesInBuffer - doMax
  if left ≠ 0 then
    ({ s with samplesInBuffer := left, samplebuf := memcpy s.samplebuf 0 (bytesAt s.samplebuf doMax left) },
      buffer)
  else
    let room := count - doMax
    let sink := (mainRun s.starts room).foldl pushAudioSamples ⟨buffer,doMax,room,s.samplebuf,0,false⟩
    ({ s with
      samplebuf := sink.samplebuf
      samplesInBuffer := sink.samplesInBuffer
      starts := s.starts + 1
      pushed := s.pushed ++ (mainRun s.starts room).flatten },sink.buffer)

/-- The functions of `resampler.c`; `getSample` also removes the sample. -/
structure ResamplerCalls (Resampler : Type) where
  getFreeCount : Resampler → Nat
  writeSample : Resampler → Frame → Resampler
  getSampleCount : Resampler → Nat × Resampler
  getSample : Resampler → Frame × Resampler
  setRate : Resampler → Resampler

variable {Resampler : Type}

/-- The inner loop that feeds the resampler; `fuel` bounds its passes. -/
def feed (calls : ResamplerCalls Resampler) : Nat → UsfState Resampler → Option (UsfState Resampler)
  | 0,_ => none
  | fuel + 1,s =>
    let free := calls.getFreeCount s.resampler
    if s.samplesInBuffer2 ≠ 0 ∧ free ≠ 0 then
      let j := min free s.samplesInBuffer2
      let frames := bytesAt s.samplebuf2 0 j
      feed calls fuel { s with
        resampler := frames.foldl calls.writeSample s.resampler
        fed := s.fed ++ frames
        samplebuf2 := memcpy s.samplebuf2 0 (bytesAt s.samplebuf2 j (s.samplesInBuffer2 - j))
        samplesInBuffer2 := s.samplesInBuffer2 - j }
    else some s

/-- The inner loop that takes samples out: what was given out, and what is still to give. -/
def drain (calls : ResamplerCalls Resampler) : Nat → UsfState Resampler → List Frame →
    UsfState Resampler × List Frame × Nat
  | 0,s,out => (s,out,0)
  | count + 1,s,out =>
    let (available,resampler) := calls.getSampleCount s.resampler
    if available ≠ 0 then
      let (frame,resampler) := calls.getSample resampler
      drain calls count { s with resampler } (out ++ [frame])
    else ({ s with resampler },out,count + 1)

/-- `usf_render_resampled` into a buffer: the frames it gives out and the state after it. -/
def usfRenderResampled (calls : ResamplerCalls Resampler) (mainRun : MainRun) :
    Nat → UsfState Resampler → Nat → List Frame → Option (UsfState Resampler × List Frame)
  | _,s,0,out => some (s,out)
  | 0,_,_ + 1,_ => none
  | fuel + 1,s,count + 1,out => do
    let s ← feed calls (fuel + 1) s
    let (s,out,count) := drain calls (count + 1) s out
    if count = 0 then some (s,out)
    else if s.samplesInBuffer2 ≠ 0 then usfRenderResampled calls mainRun fuel s count out
    else
      let (s,buffer) := usfRender mainRun s s.samplebuf2 samplebuf2Size
      usfRenderResampled calls mainRun fuel { s with
        samplebuf2 := buffer
        samplesInBuffer2 := samplebuf2Size
        resampler := calls.setRate s.resampler } count out

/-- The samples after `usf_clear`. -/
def initial (resampler : Resampler) : UsfState Resampler :=
  ⟨fun _ => (0,0),0,fun _ => (0,0),0,resampler,0,[],[]⟩

/-- A call of `usf_render_resampled` for a number of frames. -/
def render (calls : ResamplerCalls Resampler) (mainRun : MainRun) (fuel : Nat) (s : UsfState Resampler)
    (count : Nat) : Option (UsfState Resampler) :=
  (usfRenderResampled calls mainRun fuel s count []).map Prod.fst

end Chipbox.Usf
