import Mathlib.Data.Rat.Defs
import Mathlib.Algebra.Order.Ring.Rat
import Mathlib.Data.List.Basic

/-! The player of Game_Music_Emu over the emulator of one format: `Music_Emu.cpp`, as the GME
backend drives it. Times and counts are in samples, two for each stereo frame. -/
namespace Chipbox.Gme

def stereo : Nat := 2
def silenceMax : Nat := 6
def fadeBlockSize : Nat := 512
def fadeShift : Nat := 8
def bufSize : Nat := 2048
def bufTail (remain : Nat) : Nat := bufSize - remain

/-- What a call of `play_` leaves: the samples it wrote, whether it called `set_track_ended`,
and the error it returned. -/
structure Played (Core : Type) (count : Nat) where
  core : Core
  samples : List Int
  filled : samples.length = count
  ended : Bool
  err : Option String

/-- The virtual functions that a format's emulator gives the player, and the silence settings of its
constructor. The player skips with its own `skip_`. -/
structure Emulator (Core : Type) where
  maxInitialSilence : Nat
  silenceLookahead : Nat
  remapTrack_ : Core → Int → Except String Int
  startTrack_ : Core → Int → Core × Option String
  play_ : Core → (count : Nat) → Played Core count
  muteVoices_ : Core → BitVec 32 → Core
  setTempo_ : Core → Rat → Core

structure MusicEmu (Core : Type) where
  core : Core
  sampleRate : Nat
  maxInitialSilence : Nat
  silenceLookahead : Nat
  ignoreSilence : Bool
  muteMask : BitVec 32
  tempo : Rat
  warning : Option String
  currentTrack : Int
  outTime : Nat
  emuTime : Nat
  emuTrackEnded : Bool
  trackEnded : Bool
  fadeStart : Int
  fadeStep : Int
  silenceTime : Nat
  silenceCount : Nat
  bufRemain : Nat
  buf : List Int
  /-- Not in the source: the samples generated for the track so far, leading silence left out. -/
  generated : List Int
  /-- Not in the source: the positions of `generated` at which a call of `play_` began. -/
  starts : List Nat

variable {Core : Type} (emulator : Emulator Core)

def MusicEmu.clearTrackVars (s : MusicEmu Core) : MusicEmu Core :=
  { s with
    currentTrack := -1, outTime := 0, emuTime := 0, emuTrackEnded := true, trackEnded := true
    fadeStart := 1073741824, fadeStep := 1, silenceTime := 0, silenceCount := 0, bufRemain := 0
    warning := none, generated := [], starts := [] }

/-- The constructor, then `set_sample_rate`. -/
def newMusicEmu (core : Core) (rate : Nat) : MusicEmu Core where
  core := core
  sampleRate := rate
  maxInitialSilence := emulator.maxInitialSilence
  silenceLookahead := emulator.silenceLookahead
  ignoreSilence := false
  muteMask := 0
  tempo := 1
  warning := none
  currentTrack := -1
  outTime := 0
  emuTime := 0
  emuTrackEnded := true
  trackEnded := true
  fadeStart := 1073741824
  fadeStep := 1
  silenceTime := 0
  silenceCount := 0
  bufRemain := 0
  buf := List.replicate bufSize 0
  generated := []
  starts := []

def muteVoices (s : MusicEmu Core) (mask : BitVec 32) : MusicEmu Core :=
  { s with muteMask := mask, core := emulator.muteVoices_ s.core mask }

def muteVoice (s : MusicEmu Core) (index : Nat) (mute : Bool) : MusicEmu Core :=
  let bit : BitVec 32 := 1#32 <<< index
  let mask := s.muteMask ||| bit
  muteVoices emulator s (if mute then mask else mask ^^^ bit)

def setTempo (s : MusicEmu Core) (t : Rat) : MusicEmu Core :=
  let t := if t < 2 / 100 then 2 / 100 else t
  let t := if 4 < t then 4 else t
  { s with tempo := t, core := emulator.setTempo_ s.core t }

def endTrackIfError (s : MusicEmu Core) (err : Option String) : MusicEmu Core :=
  match err with
  | none => s
  | some text => { s with emuTrackEnded := true, warning := some text }

/-- A call of `play_` and what the player records of it. -/
def callPlay (s : MusicEmu Core) (count : Nat) : MusicEmu Core × List Int × Option String :=
  let played := emulator.play_ s.core count
  ({ s with
      core := played.core, emuTrackEnded := s.emuTrackEnded || played.ended
      generated := s.generated ++ played.samples, starts := s.starts ++ [s.generated.length] },
    played.samples,played.err)

def emuPlay (s : MusicEmu Core) (count : Nat) : MusicEmu Core × List Int :=
  let s := { s with emuTime := s.emuTime + count }
  if 0 ≤ s.currentTrack ∧ s.emuTrackEnded = false then
    let (s,samples,err) := callPlay emulator s count
    (endTrackIfError s err,samples)
  else
    ({ s with generated := s.generated ++ List.replicate count 0 },List.replicate count 0)

/-- Within half the threshold `0x10` of zero. -/
def Quiet (sample : Int) : Prop := -8 ≤ sample ∧ sample ≤ 8

instance (sample : Int) : Decidable (Quiet sample) := inferInstanceAs (Decidable (_ ∧ _))

/-- The loop of `count_silence` downwards from a position: the first sample is a sentinel
while it runs, so it always stops there. -/
def scanBack (samples : List Int) : Nat → Nat
  | 0 => 0
  | 1 => 0
  | p+2 => if Quiet (samples.getD (p + 1) 0) then scanBack samples (p + 1) else p + 1

def countSilence (samples : List Int) : Nat :=
  samples.length - scanBack samples samples.length

def fillBuf (s : MusicEmu Core) : MusicEmu Core :=
  if s.emuTrackEnded then { s with silenceCount := s.silenceCount + bufSize }
  else
    let (s,samples) := emuPlay emulator s bufSize
    let s := { s with buf := samples }
    let silence := countSilence samples
    if silence < bufSize then { s with silenceTime := s.emuTime - silence, bufRemain := bufSize }
    else { s with silenceCount := s.silenceCount + bufSize }

/-- The loop of `start_track` over the silence at the start, with as many turns as it can take. -/
def trimLoop (stop : Nat) : Nat → MusicEmu Core → MusicEmu Core
  | 0,s => s
  | turns+1,s =>
    if s.emuTime < stop then
      let s := fillBuf emulator s
      if s.bufRemain ≠ 0 ∨ s.emuTrackEnded then s else trimLoop stop turns s
    else s

/-- Plays until non-silence or the end of the track, then counts time from there. -/
def trimSilence (s : MusicEmu Core) : MusicEmu Core :=
  if s.ignoreSilence then s
  else
    let stop := s.maxInitialSilence * stereo * s.sampleRate
    let s := trimLoop emulator stop stop s
    { s with
      emuTime := s.bufRemain, outTime := 0, silenceTime := 0, silenceCount := 0
      generated := s.buf.drop (bufTail s.bufRemain), starts := [0] }

def startTrack (s : MusicEmu Core) (track : Int) : MusicEmu Core × Option String :=
  let s := s.clearTrackVars
  match emulator.remapTrack_ s.core track with
  | .error err => (s,some err)
  | .ok remapped =>
    let s := { s with currentTrack := track }
    match emulator.startTrack_ s.core remapped with
    | (core,some err) => ({ s with core := core },some err)
    | (core,none) =>
      let s := trimSilence emulator { s with
        core := core, emuTrackEnded := false, trackEnded := false }
      if s.trackEnded then ({ s with warning := none },s.warning) else (s,none)

/-- What `int` and `blargg_long` keep of a number: 32 bits. -/
def blarggLong (n : Int) : Int := n.bmod 4294967296

def msecToSamples (rate : Nat) (msec : Int) : Int :=
  let sec := msec.tdiv 1000
  blarggLong ((sec * rate + ((msec - sec * 1000) * rate).tdiv 1000) * stereo)

def tell (s : MusicEmu Core) : Int :=
  let rate := s.sampleRate * stereo
  let sec := s.outTime / rate
  sec * 1000 + (blarggLong (((s.outTime - sec * rate) * 1000 : Nat) : Int)).tdiv rate

def overwrite (buf samples : List Int) : List Int := samples ++ buf.drop samples.length

/-- The muted loop of `skip_`: whole buffers while more than half the threshold is left. -/
def skipMuted : Nat → MusicEmu Core → Nat → MusicEmu Core × Nat × Option String
  | 0,s,count => (s,count,none)
  | turns+1,s,count =>
    if 15000 < count ∧ s.emuTrackEnded = false then
      match callPlay emulator s bufSize with
      | (s,samples,some err) => ({ s with buf := overwrite s.buf samples },count,some err)
      | (s,samples,none) => skipMuted turns { s with buf := overwrite s.buf samples } (count - bufSize)
    else (s,count,none)

def skipRest : Nat → MusicEmu Core → Nat → MusicEmu Core × Option String
  | 0,s,_ => (s,none)
  | turns+1,s,count =>
    if count ≠ 0 ∧ s.emuTrackEnded = false then
      let n := min bufSize count
      match callPlay emulator s n with
      | (s,samples,some err) => ({ s with buf := overwrite s.buf samples },some err)
      | (s,samples,none) => skipRest turns { s with buf := overwrite s.buf samples } (count - n)
    else (s,none)

def skip_ (s : MusicEmu Core) (count : Nat) : MusicEmu Core × Option String :=
  if 30000 < count then
    let savedMute := s.muteMask
    match skipMuted emulator count (muteVoices emulator s (BitVec.allOnes 32)) count with
    | (s,_,some err) => (s,some err)
    | (s,count,none) => skipRest emulator count (muteVoices emulator s savedMute) count
  else skipRest emulator count s count

def skip (s : MusicEmu Core) (count : Nat) : MusicEmu Core :=
  let s := { s with outTime := s.outTime + count }
  let n := min count s.silenceCount
  let s := { s with silenceCount := s.silenceCount - n }
  let count := count - n
  let n := min count s.bufRemain
  let s := { s with bufRemain := s.bufRemain - n }
  let count := count - n
  let s : MusicEmu Core :=
    if count ≠ 0 ∧ s.emuTrackEnded = false then
      let s := { s with emuTime := s.emuTime + count }
      let (s,err) := skip_ emulator s count
      endTrackIfError s err
    else s
  if s.silenceCount = 0 ∧ s.bufRemain = 0 then { s with trackEnded := s.trackEnded || s.emuTrackEnded }
  else s

def seekSamples (s : MusicEmu Core) (time : Nat) : MusicEmu Core × Option String :=
  if time < s.outTime then
    match startTrack emulator s s.currentTrack with
    | (s,some err) => (s,some err)
    | (s,none) => (skip emulator s (time - s.outTime),none)
  else (skip emulator s (time - s.outTime),none)

/-- A position that is negative in 32 bits has no outcome: the player would skip a negative number of
samples. -/
def seek (s : MusicEmu Core) (msec : Int) : Option (MusicEmu Core × Option String) :=
  let time := msecToSamples s.sampleRate msec
  if time < 0 then none else some (seekSamples emulator s time.toNat)

def setFade (s : MusicEmu Core) (startMsec : Int) (lengthMsec : Nat) : MusicEmu Core :=
  { s with
    fadeStep := blarggLong (s.sampleRate * lengthMsec / (fadeBlockSize * fadeShift * 1000 / stereo) : Nat)
    fadeStart := msecToSamples s.sampleRate startMsec }

/-- `unit / pow(2, x / step)`, in integers. The processor takes the last five bits of the shift. -/
def intLog (x step unit : Int) : Int :=
  let shift := x.tdiv step
  let fraction := (blarggLong ((x - shift * step) * unit)).tdiv step
  ((unit - fraction) + (fraction >>> (1 : Nat))) >>> (shift % 32).toNat

def fadeUnit : Nat := 2 ^ 14

def fadeGain (s : MusicEmu Core) (i : Nat) : Int :=
  intLog ((blarggLong (s.outTime + i - s.fadeStart)).tdiv fadeBlockSize) s.fadeStep fadeUnit

def fadeSample (gain sample : Int) : Int := (sample * gain) >>> (14 : Nat)

/-- The blocks of the output from an offset on, and whether the fade ends in one of them. -/
def fadeLoop (s : MusicEmu Core) : Nat → Nat → List Int → Bool × List Int
  | 0,_,_ => (false,[])
  | blocks+1,i,io =>
    let gain := fadeGain s i
    let (ended,rest) := fadeLoop s blocks (i + fadeBlockSize) (io.drop fadeBlockSize)
    (decide (gain < (fadeUnit >>> fadeShift : Nat)) || ended,
      (io.take fadeBlockSize).map (fadeSample gain) ++ rest)

def handleFade (s : MusicEmu Core) (out : List Int) : MusicEmu Core × List Int :=
  let blocks := (out.length + (fadeBlockSize - 1)) / fadeBlockSize
  let (ended,out) := fadeLoop s blocks 0 out
  (if ended then { s with trackEnded := true, emuTrackEnded := true } else s,out)

/-- Runs the emulator ahead during a run of silence, with as many turns as it can take. -/
def aheadLoop (aheadTime : Int) : Nat → MusicEmu Core → MusicEmu Core
  | 0,s => s
  | turns+1,s =>
    if (s.emuTime : Int) < aheadTime ∧ ¬(s.bufRemain ≠ 0 ∨ s.emuTrackEnded) then
      aheadLoop aheadTime turns (fillBuf emulator s)
    else s

def lookAhead (s : MusicEmu Core) (outCount : Nat) : MusicEmu Core :=
  let aheadTime : Int :=
    s.silenceLookahead * ((s.outTime : Int) + outCount - s.silenceTime) + s.silenceTime
  aheadLoop emulator aheadTime (aheadTime - s.emuTime).toNat s

/-- The first part of `play`, where it owes silence: the state and the zeros it gives out. -/
def playSilence (s : MusicEmu Core) (outCount : Nat) : MusicEmu Core × List Int :=
  if s.silenceCount ≠ 0 then
    let s := lookAhead emulator s outCount
    let pos := min s.silenceCount outCount
    let s := { s with silenceCount := s.silenceCount - pos }
    let s :=
      if (silenceMax * stereo * s.sampleRate : Nat) < (s.emuTime : Int) - s.silenceTime then
        { s with trackEnded := true, emuTrackEnded := true, silenceCount := 0, bufRemain := 0 }
      else s
    (s,List.replicate pos 0)
  else (s,[])

def playBuf (s : MusicEmu Core) (wanted : Nat) : MusicEmu Core × List Int :=
  let n := min s.bufRemain wanted
  ({ s with bufRemain := s.bufRemain - n },(s.buf.drop (bufTail s.bufRemain)).take n)

def searchSilence (s : MusicEmu Core) (samples : List Int) (remain : Nat) : MusicEmu Core :=
  if s.ignoreSilence = false ∨ s.fadeStart < s.outTime then
    let silence := countSilence samples
    let s := if silence < remain then { s with silenceTime := s.emuTime - silence } else s
    if (bufSize : Int) ≤ (s.emuTime : Int) - s.silenceTime then fillBuf emulator s else s
  else s

def playRemain (s : MusicEmu Core) (remain : Nat) : MusicEmu Core × List Int :=
  if remain ≠ 0 then
    let (s,samples) := emuPlay emulator s remain
    let s := { s with trackEnded := s.trackEnded || s.emuTrackEnded }
    (searchSilence emulator s samples remain,samples)
  else (s,[])

def playRaw (s : MusicEmu Core) (outCount : Nat) : MusicEmu Core × List Int :=
  let (s,silence) := playSilence emulator s outCount
  let (s,buffered) := playBuf s (outCount - silence.length)
  let (s,rest) := playRemain emulator s (outCount - silence.length - buffered.length)
  (s,silence ++ buffered ++ rest)

def play (s : MusicEmu Core) (outCount : Nat) : MusicEmu Core × List Int :=
  if s.trackEnded then
    ({ s with outTime := s.outTime + outCount },List.replicate outCount 0)
  else
    let (s,out) := playRaw emulator s outCount
    let (s,out) := if s.fadeStart < s.outTime then handleFade s out else (s,out)
    ({ s with outTime := s.outTime + outCount },out)

end Chipbox.Gme
