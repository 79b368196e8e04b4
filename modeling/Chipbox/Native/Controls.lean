import Chipbox.Native.TrackEnd
import Mathlib.Tactic.NormNum

/-! The voices the user mutes and the tempo the user sets, in the globals of the PSF backend and
in the Settings that the screen shows. -/
namespace Chipbox.Native
open Globals

structure Voice where
  position : Nat
  name : String
  enabled : Bool
  deriving DecidableEq, Repr

structure Settings where
  tempo : Int
  voices : Option (List Voice)
  deriving DecidableEq, Repr

namespace Settings

def setTempo (settings : Settings) (value : Option Int) : Settings :=
  {settings with tempo := value.getD 100}

/-- `settings.voices?.get(position)?.enabled = enabled`, which throws beyond the list. -/
def enableVoice (settings : Settings) (position : Nat) (enabled : Bool) : Option Settings :=
  match settings.voices with
  | none => some settings
  | some voices =>
    match voices[position]? with
    | none => none
    | some voice => some {settings with voices := some (voices.set position {voice with enabled := enabled})}

end Settings

def getVoiceCount : Nat := 24

def getVoiceName (voiceNumber : Nat) : String :=
  let spu := if voiceNumber < 24 then (1,voiceNumber) else (2,voiceNumber - 24)
  s!"SPU{spu.1} Voice {spu.2 + 1}"

def getVoices : List Voice := (List.range getVoiceCount).map fun index => ⟨index,getVoiceName index,true⟩

/-- `muteVoice` of the backend; beyond the array it has no outcome. -/
def muteVoice (g : Globals) (channelNumber : Nat) (enabled : Int) : Option Globals :=
  if channelNumber < g.mutedChannels.length then
    some {g with mutedChannels := g.mutedChannels.set channelNumber (decide (enabled ≠ 0))}
  else none

/-- `setTempo` of the backend, the double as an exact quotient. -/
def setTempo (g : Globals) (tempoRelative : Rat) : Globals := {g with timeScalingFactor := tempoRelative}

structure Panel where
  globals : Globals
  settings : Settings

namespace Player

def setTempo (panel : Panel) (newValue : Int) : Panel :=
  ⟨Native.setTempo panel.globals (newValue / 100),panel.settings.setTempo (some newValue)⟩

def muteVoice (panel : Panel) (position : Nat) (enabled : Bool) : Option Panel :=
  match Native.muteVoice panel.globals position (if enabled then 0 else 1) with
  | none => none
  | some globals => (panel.settings.enableVoice position enabled).map (Panel.mk globals)

/-- What `onTrackChange` shows of a track just loaded. -/
def onTrackChange (panel : Panel) : Panel := ⟨panel.globals,⟨100,some getVoices⟩⟩

end Player

inductive Control
  | muteVoice (position : Nat) (enabled : Bool)
  | setTempo (newValue : Int)
  | seek (timeInMs : Int) (reply : LoadReply)
  | readNextSamples (reply : ReadReply)

def control (fuel : Nat) (panel : Panel) : Control → Option Panel
  | .muteVoice position enabled => Player.muteVoice panel position enabled
  | .setTempo newValue => some (Player.setTempo panel newValue)
  | .seek timeInMs reply =>
    (seek .psf fuel panel.globals timeInMs reply).map fun globals => ⟨globals,panel.settings⟩
  | .readNextSamples reply =>
    (readNextSamples .psf fuel panel.globals reply).map fun result => ⟨result.2,panel.settings⟩

def controlsOf (g : Globals) : List Bool × Rat := (g.mutedChannels,g.timeScalingFactor)

/-- What `teardownInternal` leaves of them. -/
def controlsCleared : List Bool × Rat := (List.replicate 24 false,1)

structure Panel.Agrees (panel : Panel) : Prop where
  voices : ∃ voices, panel.settings.voices = some voices ∧ voices.length = getVoiceCount ∧
    panel.globals.mutedChannels = voices.map fun voice => !voice.enabled
  tempo : panel.globals.timeScalingFactor = panel.settings.tempo / 100

/-- A seek leaves the mute flags and the time scaling factor as they were. -/
def Untouched (fuel : Nat) (panel : Panel) : Control → Prop
  | .seek timeInMs reply => ∀ after, control fuel panel (.seek timeInMs reply) = some after →
      controlsOf after.globals = controlsOf panel.globals
  | _ => True

/-- The seek goes forward, or there is no voice muted and the tempo is the track's own. -/
def SeeksAhead (panel : Panel) : Control → Prop
  | .seek timeInMs _ => panel.globals.playedSampleCountTrack < seekTarget panel.globals timeInMs ∨
      ((∀ muted ∈ panel.globals.mutedChannels, muted = false) ∧ panel.globals.timeScalingFactor = 1)
  | _ => True

theorem Plays.controls {g after : Globals} (plays : Plays g after) : controlsOf after = controlsOf g := by
  obtain ⟨_,_,_,_,_,_,_,rfl,_⟩ := plays
  rfl

@[simp] theorem addPlayed_controls (g : Globals) (samples : Nat) :
    controlsOf (g.addPlayed samples) = controlsOf g := rfl

theorem readNextSamples_controls {lib : Lib} {fuel : Nat} {g after : Globals} {reply : ReadReply}
    {taken : Option (List Byte)} (ran : readNextSamples lib fuel g reply = some (taken,after)) :
    controlsOf after = controlsOf g := by
  rcases readNextSamples_plays ran with plays | ⟨_,plays⟩
  · exact plays.controls
  · rw [plays.controls,addPlayed_controls]

theorem seekLoop_controls {lib : Lib} {generateFuel fuel remaining : Nat} {g after : Globals}
    (ran : seekLoop lib generateFuel fuel g remaining = some after) : controlsOf after = controlsOf g := by
  apply @seekLoop_keeps (fun middle => controlsOf middle = controlsOf g) _ _ _ _ _ _ _ rfl ran
  intro middle next _ _ samples same generated
  rw [addPlayed_controls,(generateAudio_plays generated).controls]
  exact same

theorem loadFileInternal_controls {g after : Globals} {rate bufferSize fadeTimeMs : Nat}
    {reply : LoadReply} (down : g.initialized = false)
    (ran : loadFileInternal .psf g rate bufferSize fadeTimeMs reply = some after) :
    controlsOf after = controlsOf g := by
  unfold loadFileInternal at ran
  split at ran
  · cases ran
  · unfold prepareLoad at ran
    dsimp only at ran
    rw [if_neg (by rw [down]; exact Bool.false_ne_true)] at ran
    cases loaded : reply.emulator with
    | none =>
      rw [loaded] at ran
      cases ran
      rfl
    | some emulator =>
      rw [loaded] at ran
      cases ran
      rfl

theorem teardownInternal_controls (g : Globals) :
    controlsOf (teardownInternal .psf g) = controlsCleared := by
  obtain ⟨_,_,same⟩ := releaseBuffers_same {g with mutedChannels := List.replicate 24 false}
  unfold teardownInternal
  dsimp only
  rw [same]
  rfl

/-- A seek forward keeps the controls, any other clears them. -/
theorem seek_controls {fuel : Nat} {g after : Globals} {timeInMs : Int} {reply : LoadReply}
    (ran : seek .psf fuel g timeInMs reply = some after) : controlsOf after =
      if g.playedSampleCountTrack < seekTarget g timeInMs then controlsOf g else controlsCleared := by
  unfold seek at ran
  split at ran
  · cases ran
  next start started =>
    rw [seekLoop_controls ran]
    by_cases ahead : g.playedSampleCountTrack < seekTarget g timeInMs
    · have skipped : seekStart .psf g timeInMs reply = some {g with stopSeek := false} :=
        if_neg (Nat.not_le_of_lt ahead)
      rw [skipped] at started
      cases started
      rw [if_pos ahead]
      rfl
    · have reloaded : seekStart .psf g timeInMs reply =
          loadFileInternal .psf (teardownInternal .psf {g with stopSeek := false}) _ _ _ reply :=
        if_pos (Nat.le_of_not_lt ahead)
      rw [reloaded] at started
      rw [if_neg ahead,loadFileInternal_controls (teardownInternal_initialized _ _) started]
      exact teardownInternal_controls _

theorem replicate_iff {flags : List Bool} (length : flags.length = 24) :
    flags = List.replicate 24 false ↔ ∀ muted ∈ flags, muted = false := by
  rw [List.eq_replicate_iff]
  exact and_iff_right length

theorem seek_untouched_iff {fuel : Nat} {g after : Globals} {timeInMs : Int} {reply : LoadReply}
    (voices : g.mutedChannels.length = getVoiceCount)
    (ran : seek .psf fuel g timeInMs reply = some after) : controlsOf after = controlsOf g ↔
      (g.playedSampleCountTrack < seekTarget g timeInMs ∨
        ((∀ muted ∈ g.mutedChannels, muted = false) ∧ g.timeScalingFactor = 1)) := by
  rw [seek_controls ran]
  split
  next ahead => exact iff_of_true rfl (.inl ahead)
  next back =>
    rw [or_iff_right back,eq_comm]
    unfold controlsOf controlsCleared
    rw [Prod.mk.injEq,replicate_iff voices]

namespace Panel.Agrees

variable {panel : Panel}

theorem length (agrees : panel.Agrees) : panel.globals.mutedChannels.length = getVoiceCount := by
  obtain ⟨voices,_,count,shown⟩ := agrees.voices
  rw [shown,List.length_map,count]

theorem of_same {globals : Globals} (agrees : panel.Agrees)
    (same : controlsOf globals = controlsOf panel.globals) : Agrees ⟨globals,panel.settings⟩ := by
  obtain ⟨flags,factor⟩ := Prod.mk.inj same
  obtain ⟨voices,listed,count,shown⟩ := agrees.voices
  exact ⟨⟨voices,listed,count,flags.trans shown⟩,factor.trans agrees.tempo⟩

theorem same_of {globals : Globals} (agrees : panel.Agrees) (still : Agrees ⟨globals,panel.settings⟩) :
    controlsOf globals = controlsOf panel.globals := by
  obtain ⟨voices,listed,_,shown⟩ := agrees.voices
  obtain ⟨others,relisted,_,reshown⟩ := still.voices
  have equal : voices = others := Option.some.inj (listed.symm.trans relisted)
  refine Prod.mk.injEq .. ▸ ⟨?_,still.tempo.trans agrees.tempo.symm⟩
  rw [shown,equal]
  exact reshown

theorem setTempo (agrees : panel.Agrees) (newValue : Int) : (Player.setTempo panel newValue).Agrees :=
  ⟨agrees.voices,rfl⟩

theorem muteVoice {after : Panel} {position : Nat} {enabled : Bool} (agrees : panel.Agrees)
    (ran : Player.muteVoice panel position enabled = some after) : after.Agrees := by
  obtain ⟨voices,listed,count,shown⟩ := agrees.voices
  unfold Player.muteVoice at ran
  split at ran
  · cases ran
  next globals muted =>
    unfold Native.muteVoice at muted
    split at muted
    swap
    · cases muted
    next inside =>
      cases muted
      rw [shown,List.length_map] at inside
      have found : voices[position]? = some voices[position] := List.getElem?_eq_getElem inside
      unfold Settings.enableVoice at ran
      rw [listed] at ran
      dsimp only at ran
      rw [found] at ran
      cases ran
      refine ⟨⟨_,rfl,?_,?_⟩,agrees.tempo⟩
      · rw [List.length_set,count]
      · rw [List.map_set,shown]
        cases enabled <;> rfl

end Panel.Agrees

theorem control_agrees {fuel : Nat} {panel after : Panel} {command : Control} (agrees : panel.Agrees)
    (untouched : Untouched fuel panel command) (ran : control fuel panel command = some after) :
    after.Agrees := by
  cases command with
  | muteVoice position enabled => exact agrees.muteVoice ran
  | setTempo newValue =>
    cases ran
    exact agrees.setTempo newValue
  | seek timeInMs reply =>
    have same := untouched after ran
    obtain ⟨globals,_,rfl⟩ := Option.map_eq_some_iff.mp ran
    exact agrees.of_same same
  | readNextSamples reply =>
    obtain ⟨⟨_,globals⟩,read,rfl⟩ := Option.map_eq_some_iff.mp ran
    exact agrees.of_same (readNextSamples_controls read)

theorem untouched_iff {fuel : Nat} {panel after : Panel} {command : Control} (agrees : panel.Agrees)
    (ran : control fuel panel command = some after) :
    Untouched fuel panel command ↔ SeeksAhead panel command := by
  cases command with
  | muteVoice position enabled => exact Iff.rfl
  | setTempo newValue => exact Iff.rfl
  | readNextSamples reply => exact Iff.rfl
  | seek timeInMs reply =>
    obtain ⟨globals,sought,rfl⟩ := Option.map_eq_some_iff.mp ran
    have exactly := seek_untouched_iff agrees.length sought
    apply Iff.trans _ exactly
    constructor
    · intro untouched
      exact untouched _ ran
    · intro same other reran
      rw [ran] at reran
      cases reran
      exact same

theorem untouched_of_agrees {fuel : Nat} {panel : Panel} {command : Control} (agrees : panel.Agrees)
    (still : ∀ after, control fuel panel command = some after → after.Agrees) :
    Untouched fuel panel command := by
  cases command with
  | muteVoice position enabled => trivial
  | setTempo newValue => trivial
  | readNextSamples reply => trivial
  | seek timeInMs reply =>
    intro after ran
    have kept := still after ran
    obtain ⟨globals,_,rfl⟩ := Option.map_eq_some_iff.mp ran
    exact agrees.same_of kept

/-- In any run from a panel that agrees, the panel agrees throughout and no seek touches the
controls exactly when every seek goes forward or finds nothing set. -/
theorem seeks_keep_controls_iff {fuel : Nat} {start finish : Panel} {commands : List Control}
    (agrees : start.Agrees) (run : Run.exec (control fuel) start commands = some finish) :
    Run.Always (control fuel) Panel.Agrees start commands ∧
      Run.Meets (control fuel) (Untouched fuel) start commands ↔
    Run.Meets (control fuel) SeeksAhead start commands := by
  have always : Run.Always (control fuel) Panel.Agrees start commands ↔
      Run.Meets (control fuel) SeeksAhead start commands := by
    apply Run.always_iff_meets (fun _ held => held) _ _ agrees run
    · intro panel command after held ahead ran
      exact control_agrees held ((untouched_iff held ran).mpr ahead) ran
    · intro panel command after held ran still
      apply (untouched_iff held ran).mp
      apply untouched_of_agrees held
      intro other reran
      rw [ran] at reran
      cases reran
      exact still
  rw [← always]
  refine ⟨And.left,fun held => ⟨held,?_⟩⟩
  apply Run.meets_of_meets (fun _ _ _ _ _ _ => trivial) _ trivial (Run.meets_of_always held)
  intro panel command _ agreed
  exact untouched_of_agrees agreed.1 agreed.2

theorem onTrackChange_agrees {panel : Panel} (cleared : controlsOf panel.globals = controlsCleared) :
    (Player.onTrackChange panel).Agrees := by
  obtain ⟨flags,factor⟩ := Prod.mk.inj cleared
  refine ⟨⟨getVoices,rfl,rfl,?_⟩,?_⟩
  · rw [Player.onTrackChange,flags]
    decide
  · rw [Player.onTrackChange,factor]
    norm_num

def firstPanel : Option Panel :=
  (loadFileInternal .psf .initial 44100 8 180000 ⟨[],some (steadyEmulator 16)⟩).map fun globals =>
    Player.onTrackChange ⟨globals,⟨100,none⟩⟩

theorem firstPanel_agrees {panel : Panel} (shown : firstPanel = some panel) : panel.Agrees := by
  obtain ⟨globals,loaded,rfl⟩ := Option.map_eq_some_iff.mp shown
  apply onTrackChange_agrees
  rw [loadFileInternal_controls rfl loaded]
  rfl

/-- A voice muted, then a seek forward by one millisecond. -/
theorem seeks_keep_controls_iff_ahead : ∃ start finish, firstPanel = some start ∧
    Run.exec (control 100) start [.muteVoice 3 false,.seek 1 ⟨[],none⟩] = some finish ∧
    Run.Always (control 100) Panel.Agrees start [.muteVoice 3 false,.seek 1 ⟨[],none⟩] := by
  refine ⟨_,_,rfl,rfl,((seeks_keep_controls_iff (firstPanel_agrees rfl) rfl).mpr ?_).1⟩
  exact ⟨trivial,.inl (by decide),trivial⟩

/-- A seek to the start unmutes the voice, and the screen goes on showing it muted. -/
theorem seek_unmutes : ∃ start finish, firstPanel = some start ∧
    Run.exec (control 100) start
      [.muteVoice 3 false,.seek 0 ⟨[],some (steadyEmulator 16)⟩] = some finish ∧
    finish.globals.mutedChannels = List.replicate 24 false ∧
    ∃ voices voice, finish.settings.voices = some voices ∧ voices[3]? = some voice ∧
      voice.enabled = false :=
  ⟨_,_,rfl,rfl,by decide,_,_,rfl,rfl,rfl⟩

end Chipbox.Native
