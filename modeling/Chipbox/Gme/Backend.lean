import Chipbox.Foundation.Run
import Chipbox.Gme.Silence

/-! The JNI functions of the GME backend over the player, and what their runs give out. -/
namespace Chipbox.Gme

variable {Core : Type} {emulator : Emulator Core}

/-- What `gme_identify_file`, `new_emu` and `load_file` make of a file. -/
inductive Opened (Core : Type)
  | unidentified (err : String)
  | unloaded (core : Core) (err : String)
  | loaded (core : Core)

structure Backend (Core : Type) where
  emu : Option (MusicEmu Core)
  lastError : Option String
  bufferSize : Nat
  fadeTimeMs : Int

inductive Command (Core : Type)
  | loadFile (file : Opened Core) (track : Int) (rate bufferSize : Nat) (fadeTimeMs : Int)
  | readNextSamples
  | seek (timeInMs : Int)
  | setTempo (tempo : Rat)
  | muteVoice (voiceNumber : Nat) (enabled : Bool)
  | teardown

/-- The time is an `int`, the length has its default. -/
def gmeSetFade (s : MusicEmu Core) (startMsec : Int) : MusicEmu Core :=
  setFade s (blarggLong startMsec) 8000

def gmeSeek (emulator : Emulator Core) (s : MusicEmu Core) (msec : Int) :
    Option (MusicEmu Core × Option String) := seek emulator s (blarggLong msec)

theorem fade_keeps (s : MusicEmu Core) (fadeStart fadeStep : Int) :
    ({ s with fadeStart := fadeStart, fadeStep := fadeStep } : MusicEmu Core).outTime = s.outTime ∧
    ({ s with fadeStart := fadeStart, fadeStep := fadeStep } : MusicEmu Core).sampleRate =
      s.sampleRate := ⟨rfl,rfl⟩

theorem gmeSetFade_keeps (s : MusicEmu Core) (startMsec : Int) :
    (gmeSetFade s startMsec).outTime = s.outTime ∧
      (gmeSetFade s startMsec).sampleRate = s.sampleRate := fade_keeps s _ _

def loadFile (emulator : Emulator Core) (b : Backend Core) (file : Opened Core) (track : Int)
    (rate bufferSize : Nat) (fadeTimeMs : Int) : Backend Core :=
  match file with
  | .unidentified err => { b with emu := none, lastError := some err }
  | .unloaded core err => { b with emu := some (newMusicEmu emulator core rate), lastError := some err }
  | .loaded core =>
    match startTrack emulator (newMusicEmu emulator core rate) track with
    | (s,some err) => { b with emu := some s, lastError := some err }
    | (s,none) => ⟨some (gmeSetFade s fadeTimeMs),none,bufferSize,fadeTimeMs⟩

/-- The state after a read and the samples it leaves in the array of the caller. -/
def readNextSamples (emulator : Emulator Core) (b : Backend Core) : Backend Core × Option (List Int) :=
  match b.emu with
  | none => ({ b with lastError := some "Emulator not ready." },none)
  | some s =>
    let (s,out) := play emulator s b.bufferSize
    ({ b with emu := some s, lastError := none },some out)

def getMillisPlayed (b : Backend Core) : Int :=
  match b.emu with
  | none => -1
  | some s => tell s

def isTrackOver (b : Backend Core) : Bool :=
  match b.emu with
  | none => false
  | some s => s.trackEnded

def perform (emulator : Emulator Core) (b : Backend Core) : Command Core → Option (Backend Core)
  | .loadFile file track rate bufferSize fadeTimeMs =>
    some (loadFile emulator b file track rate bufferSize fadeTimeMs)
  | .readNextSamples => some (readNextSamples emulator b).1
  | .seek timeInMs =>
    match b.emu with
    | none => some b
    | some s => (gmeSeek emulator s timeInMs).map fun sought =>
      { b with emu := some (gmeSetFade sought.1 b.fadeTimeMs) }
  | .setTempo tempo =>
    some { b with emu := b.emu.map fun s => gmeSetFade (setTempo emulator s tempo) 1000000000 }
  | .muteVoice voiceNumber enabled =>
    some { b with emu := b.emu.map fun s => muteVoice emulator s voiceNumber enabled }
  | .teardown => some { b with emu := none, fadeTimeMs := 0 }

/-- The times of the player are `blargg_long`. -/
def InRange (b : Backend Core) : Prop :=
  ∀ s ∈ b.emu, s.outTime < 2147483648 ∧ s.emuTime < 2147483648

instance (b : Backend Core) : Decidable (InRange b) :=
  inferInstanceAs (Decidable (∀ s ∈ b.emu, _))

/-- A call after which a time would not be in its range has no outcome. -/
def step (emulator : Emulator Core) (b : Backend Core) (command : Command Core) : Option (Backend Core) :=
  (perform emulator b command).filter fun after => decide (InRange after)

theorem step_perform {b after : Backend Core} {command : Command Core}
    (taken : step emulator b command = some after) :
    perform emulator b command = some after ∧ InRange after := by
  obtain ⟨performed,fits⟩ := Option.filter_eq_some_iff.mp taken
  exact ⟨performed,of_decide_eq_true fits⟩

def unloaded : Backend Core := ⟨none,none,0,0⟩

def run (emulator : Emulator Core) (commands : List (Command Core)) : Option (Backend Core) :=
  Run.exec (step emulator) unloaded commands

/-- A part of a skip: the emulator only adds to what it has generated, and the player's
account of times and silence is not touched. -/
structure Skips (s t : MusicEmu Core) : Prop where
  onward : Onward s t
  emuTime : t.emuTime = s.emuTime
  silenceCount : t.silenceCount = s.silenceCount
  bufRemain : t.bufRemain = s.bufRemain
  trackEnded : t.trackEnded = s.trackEnded

theorem Skips.refl (s : MusicEmu Core) : Skips s s := ⟨.refl _,rfl,rfl,rfl,rfl⟩

theorem Skips.trans {s t u : MusicEmu Core} (first : Skips s t) (second : Skips t u) : Skips s u :=
  ⟨first.onward.trans second.onward,second.emuTime.trans first.emuTime,
    second.silenceCount.trans first.silenceCount,second.bufRemain.trans first.bufRemain,
    second.trackEnded.trans first.trackEnded⟩

theorem Skips.muteVoices (emulator : Emulator Core) (s : MusicEmu Core) (mask : BitVec 32) :
    Skips s (muteVoices emulator s mask) :=
  ⟨⟨List.prefix_rfl,fun _ => id,rfl,rfl,rfl,rfl,rfl,id⟩,rfl,rfl,rfl,rfl⟩

theorem callPlay_skips (emulator : Emulator Core) (s : MusicEmu Core) {n : Nat} (fits : n ≤ bufSize) :
    ∃ t samples err, callPlay emulator s n = (t,samples,err) ∧
      Skips s { t with buf := overwrite t.buf samples } ∧
      t.generated.length = s.generated.length + n := by
  have filled := (emulator.play_ s.core n).filled
  refine ⟨_,_,_,rfl,⟨⟨List.prefix_append _ _,List.subset_append_left _ _,rfl,rfl,rfl,rfl,rfl,?_⟩,
    rfl,rfl,rfl,rfl⟩,?_⟩
  · intro full
    simp only [overwrite,List.length_append,List.length_drop,filled,full]
    omega
  · simp only [List.length_append,filled]

theorem skipRest_skips (emulator : Emulator Core) {turns count : Nat} {s t : MusicEmu Core}
    {err : Option String} (enough : count ≤ turns)
    (skipped : skipRest emulator turns s count = (t,err)) :
    Skips s t ∧ (err = none → t.emuTrackEnded = false →
      t.generated.length = s.generated.length + count) := by
  induction turns generalizing s count with
  | zero =>
    cases skipped
    exact ⟨.refl _,fun _ _ => by omega⟩
  | succ turns ih =>
    obtain ⟨middle,samples,failed,called,skips,length⟩ :=
      callPlay_skips emulator s (Nat.min_le_left bufSize count)
    unfold skipRest at skipped
    split at skipped
    next going =>
      have some_taken : 0 < min bufSize count := by
        have : 0 < bufSize := by decide
        omega
      simp only [called] at skipped
      cases failed with
      | some text =>
        cases skipped
        exact ⟨skips,fun none_failed => by cases none_failed⟩
      | none =>
        obtain ⟨rest,whole⟩ := ih (by omega) skipped
        refine ⟨skips.trans rest,fun fine running => ?_⟩
        have counted := whole fine running
        dsimp only at counted
        omega
    next done =>
      cases skipped
      refine ⟨.refl _,fun _ running => ?_⟩
      have : count = 0 := by simpa [running] using done
      omega

theorem skipMuted_skips (emulator : Emulator Core) {turns count left : Nat} {s t : MusicEmu Core}
    {err : Option String} (skipped : skipMuted emulator turns s count = (t,left,err)) :
    Skips s t ∧ (err = none → left ≤ count ∧
      t.generated.length + left = s.generated.length + count) := by
  induction turns generalizing s count with
  | zero =>
    cases skipped
    exact ⟨.refl _,fun _ => ⟨Nat.le_refl _,rfl⟩⟩
  | succ turns ih =>
    obtain ⟨middle,samples,failed,called,skips,length⟩ :=
      callPlay_skips emulator s (Nat.le_refl bufSize)
    unfold skipMuted at skipped
    split at skipped
    next going =>
      have far : bufSize ≤ count := by
        have : bufSize = 2048 := rfl
        omega
      simp only [called] at skipped
      cases failed with
      | some text =>
        cases skipped
        exact ⟨skips,fun none_failed => by cases none_failed⟩
      | none =>
        obtain ⟨rest,whole⟩ := ih skipped
        refine ⟨skips.trans rest,fun fine => ?_⟩
        obtain ⟨less,counted⟩ := whole fine
        dsimp only at counted
        omega
    next done =>
      cases skipped
      exact ⟨.refl _,fun _ => ⟨Nat.le_refl _,rfl⟩⟩

/-- A skip that neither fails nor meets the end of the track generates all it skips. -/
theorem skip_skips (emulator : Emulator Core) {count : Nat} {s t : MusicEmu Core}
    {err : Option String} (skipped : skip_ emulator s count = (t,err)) :
    Skips s t ∧ (err = none → t.emuTrackEnded = false →
      t.generated.length = s.generated.length + count) := by
  unfold skip_ at skipped
  split at skipped
  next long =>
    dsimp only at skipped
    split at skipped
    next middle left text muted =>
      cases skipped
      obtain ⟨skips,_⟩ := skipMuted_skips emulator muted
      exact ⟨(Skips.muteVoices emulator s _).trans skips,fun none_failed => by cases none_failed⟩
    next middle left muted =>
      obtain ⟨skips,counted⟩ := skipMuted_skips emulator muted
      obtain ⟨less,first⟩ := counted rfl
      obtain ⟨rest,second⟩ := skipRest_skips emulator (Nat.le_refl _) skipped
      refine ⟨(((Skips.muteVoices emulator s _).trans skips).trans (.muteVoices emulator _ _)).trans
        rest,fun fine running => ?_⟩
      have last := second fine running
      simp only [muteVoices] at first last
      omega
  next short => exact skipRest_skips emulator (Nat.le_refl _) skipped

theorem AheadAt.leave {time wanted : Nat} {s : MusicEmu Core} (ahead : AheadAt time s)
    (owed : 0 < wanted → s.silenceCount = 0) :
    AheadAt (time + min s.bufRemain wanted) { s with bufRemain := s.bufRemain - min s.bufRemain wanted } := by
  obtain ⟨_,length,_,_,_,held⟩ := playBuf_gives ahead owed (show playBuf s wanted = (_,_) from rfl)
  rwa [length] at held

def skipHeld (s : MusicEmu Core) (count : Nat) : MusicEmu Core :=
  let taken := min count s.silenceCount
  { s with
    outTime := s.outTime + count, silenceCount := s.silenceCount - taken
    bufRemain := s.bufRemain - min (count - taken) s.bufRemain }

def skipLeft (s : MusicEmu Core) (count : Nat) : Nat :=
  count - min count s.silenceCount - min (count - min count s.silenceCount) s.bufRemain

theorem skip_cases (emulator : Emulator Core) (s : MusicEmu Core) (count : Nat) :
    ∃ middle, (((skipLeft s count = 0 ∨ s.emuTrackEnded = true) ∧ middle = skipHeld s count) ∨
        (0 < skipLeft s count ∧
          Skips { skipHeld s count with emuTime := s.emuTime + skipLeft s count } middle ∧
          (middle.emuTrackEnded = false →
            middle.generated.length = s.generated.length + skipLeft s count))) ∧
      skip emulator s count =
        if middle.silenceCount = 0 ∧ middle.bufRemain = 0 then
          { middle with trackEnded := middle.trackEnded || middle.emuTrackEnded }
        else middle := by
  unfold skip
  dsimp only
  split
  next further =>
    refine ⟨_,.inr ⟨Nat.pos_of_ne_zero further.1,?_⟩,rfl⟩
    rcases skipped : skip_ emulator { skipHeld s count with
      emuTime := s.emuTime + skipLeft s count } (skipLeft s count) with ⟨after,err⟩
    obtain ⟨skips,length⟩ := skip_skips emulator skipped
    simp only [skipHeld,skipLeft] at skipped
    simp only [skipped]
    cases err with
    | none => exact ⟨skips,fun running => length rfl running⟩
    | some text =>
      refine ⟨skips.trans ⟨⟨List.prefix_rfl,fun _ => id,rfl,rfl,rfl,rfl,rfl,id⟩,rfl,rfl,rfl,rfl⟩,?_⟩
      intro running
      cases running
  next here =>
    refine ⟨_,.inl ⟨?_,rfl⟩,rfl⟩
    simp only [skipLeft]
    rw [not_and_or,not_not,Bool.not_eq_false] at here
    exact here

theorem skipHeld_ahead {s : MusicEmu Core} (ahead : AheadAt s.outTime s) {count : Nat}
    (within : skipLeft s count = 0) : AheadAt (s.outTime + count) (skipHeld s count) := by
  unfold skipLeft at within
  obtain ⟨_,first⟩ := ahead.silence (Nat.min_le_right count s.silenceCount)
  have second := first.leave (fun some_left : 0 < count - min count s.silenceCount => by
    dsimp only
    omega)
  have total : s.outTime + min count s.silenceCount +
      min s.bufRemain (count - min count s.silenceCount) = s.outTime + count := by omega
  dsimp only at second
  rw [total,Nat.min_comm s.bufRemain] at second
  exact second.marked s.trackEnded s.emuTrackEnded (s.outTime + count)

/-- Where a skip goes past all that the player holds, nothing is owed after it. -/
theorem skipHeld_drained {s : MusicEmu Core} {count : Nat} (further : 0 < skipLeft s count) :
    (skipHeld s count).silenceCount = 0 ∧ (skipHeld s count).bufRemain = 0 := by
  simp only [skipHeld,skipLeft] at further ⊢
  omega

theorem skipped_ahead {s middle : MusicEmu Core} {count : Nat} (ahead : AheadAt s.outTime s)
    (further : 0 < skipLeft s count)
    (skips : Skips { skipHeld s count with emuTime := s.emuTime + skipLeft s count } middle)
    (length : middle.generated.length = s.generated.length + skipLeft s count) :
    AheadAt (s.outTime + count) middle := by
  obtain ⟨none_owed,drained⟩ := skipHeld_drained further
  have silence : middle.silenceCount = 0 := skips.silenceCount.trans none_owed
  have empty : middle.bufRemain = 0 := skips.bufRemain.trans drained
  have full : middle.buf.length = bufSize := skips.onward.buf ahead.buf
  have spent : middle.emuTime = s.outTime + count := by
    have before := ahead.emuTime
    have after : middle.emuTime = s.emuTime + skipLeft s count := skips.emuTime
    simp only [skipLeft] at after further
    omega
  have size : middle.generated.length = s.outTime + count := by
    rw [length,ahead.length,← spent]
    exact skips.emuTime.symm
  refine ⟨full,by omega,by omega,by omega,?_,fun i _ _ => by omega,fun holding => absurd empty holding⟩
  rw [silence,empty,bufTail,Nat.sub_zero,List.drop_eq_nil_of_le,List.drop_eq_nil_of_le] <;> omega

/-- A skip of a player in order leaves it in order, at the later time. -/
theorem skip_order (emulator : Emulator Core) {s : MusicEmu Core} (order : InOrder s) (count : Nat) :
    InOrder (skip emulator s count) ∧ (skip emulator s count).outTime = s.outTime + count := by
  obtain ⟨middle,how,skipped⟩ := skip_cases emulator s count
  have onward : Onward (skipHeld s count) middle := by
    rcases how with ⟨_,rfl⟩ | ⟨_,skips,_⟩
    · exact .refl _
    · have whole := skips.onward
      exact ⟨whole.1,whole.2,whole.3,whole.4,whole.5,whole.6,whole.7,whole.8⟩
  have trackEnded : middle.trackEnded = s.trackEnded := by
    rcases how with ⟨_,rfl⟩ | ⟨_,skips,_⟩
    · rfl
    · exact skips.trackEnded
  have fits (rate : RateFits middle) : RateFits s := by
    have same : middle.sampleRate = s.sampleRate := onward.sampleRate
    unfold RateFits at rate ⊢
    rwa [← same]
  have ahead : RateFits middle → s.trackEnded = false →
      (0 < skipLeft s count → middle.emuTrackEnded = false) →
      AheadAt (s.outTime + count) middle := by
    intro rate going running
    have held := order.ahead (fits rate) going
    rcases how with ⟨⟨within | ended,rfl⟩⟩ | ⟨further,skips,length⟩
    · exact skipHeld_ahead held within
    · rcases Nat.eq_zero_or_pos (skipLeft s count) with within | further
      · exact skipHeld_ahead held within
      · exact absurd ended (by simpa [skipHeld] using running further)
    · exact skipped_ahead held further skips (length (running further))
  have time : middle.outTime = s.outTime + count := onward.outTime
  have full : middle.buf.length = bufSize := onward.buf order.buf
  have listens : middle.ignoreSilence = false := onward.ignoreSilence.trans order.ignoreSilence
  rw [skipped]
  split
  next caught_up =>
    refine ⟨⟨full,listens,fun rate goes_on => ?_⟩,time⟩
    obtain ⟨going,running⟩ := Bool.or_eq_false_iff.mp goes_on
    rw [trackEnded] at going
    have held := (ahead rate going fun _ => running).marked
      (middle.trackEnded || middle.emuTrackEnded) middle.emuTrackEnded middle.outTime
    rwa [← time] at held
  next owing =>
    refine ⟨⟨full,listens,fun rate goes_on => ?_⟩,time⟩
    rw [trackEnded] at goes_on
    rw [time]
    refine ahead rate goes_on fun further => ?_
    rcases how with ⟨_,rfl⟩ | ⟨_,skips,_⟩
    · exact absurd (skipHeld_drained further) owing
    · obtain ⟨none_owed,drained⟩ := skipHeld_drained further
      exact absurd ⟨skips.silenceCount.trans none_owed,skips.bufRemain.trans drained⟩ owing

theorem fillBuf_bufRemain (emulator : Emulator Core) {s : MusicEmu Core} (held : s.bufRemain ≤ bufSize) :
    (fillBuf emulator s).bufRemain ≤ bufSize := by
  obtain ⟨core,ended,warning,starts,samples,called,_⟩ := emuPlay_cases emulator s bufSize
  unfold fillBuf
  rw [called]
  dsimp only
  split
  · exact held
  · split
    · exact Nat.le_refl _
    · exact held

theorem trimLoop_keeps (emulator : Emulator Core) (turns stop : Nat) {s : MusicEmu Core} (held : s.bufRemain ≤ bufSize) :
    Onward s (trimLoop emulator stop turns s) ∧ (trimLoop emulator stop turns s).bufRemain ≤ bufSize := by
  induction turns generalizing s with
  | zero => exact ⟨.refl s,held⟩
  | succ turns ih =>
    have filled := fillBuf_bufRemain emulator held
    unfold trimLoop
    split
    · dsimp only
      split
      · exact ⟨fillBuf_onward s,filled⟩
      · obtain ⟨onward,last⟩ := ih filled
        exact ⟨(fillBuf_onward s).trans onward,last⟩
    · exact ⟨.refl s,held⟩

/-- The silence left out at the start puts the player in order at time zero. -/
theorem trimSilence_order (emulator : Emulator Core) {s : MusicEmu Core}
    (full : s.buf.length = bufSize) (listens : s.ignoreSilence = false)
    (held : s.bufRemain ≤ bufSize) :
    InOrder (trimSilence emulator s) ∧ (trimSilence emulator s).outTime = 0 := by
  simp only [trimSilence,listens,Bool.false_eq_true,if_false]
  obtain ⟨onward,fits⟩ := trimLoop_keeps emulator (s.maxInitialSilence * stereo * s.sampleRate)
    (s.maxInitialSilence * stereo * s.sampleRate) held
  have filled := onward.buf full
  refine ⟨⟨filled,onward.ignoreSilence.trans listens,fun _ _ => ?_⟩,trivial⟩
  refine ⟨filled,fits,by simp,?_,rfl,fun i _ before => ?_,fun _ => by simpa using fits⟩
  · simp only [List.length_drop,filled,bufTail]
    omega
  · simp at before

theorem startTrack_order (emulator : Emulator Core) {s : MusicEmu Core}
    (full : s.buf.length = bufSize) (listens : s.ignoreSilence = false) (track : Int) :
    InOrder (startTrack emulator s track).1 ∧ (startTrack emulator s track).1.outTime = 0 := by
  unfold startTrack
  dsimp only
  split
  next => exact ⟨⟨full,listens,fun _ going => by cases going⟩,rfl⟩
  next remapped _ =>
    split
    next => exact ⟨⟨full,listens,fun _ going => by cases going⟩,rfl⟩
    next core _ =>
      obtain ⟨order,zero⟩ := trimSilence_order emulator (s := { s.clearTrackVars with
        currentTrack := track, core := core, emuTrackEnded := false, trackEnded := false })
        full listens (Nat.zero_le _)
      split
      · refine ⟨⟨order.buf,order.ignoreSilence,fun rate going => ?_⟩,zero⟩
        have ahead := order.ahead rate going
        exact ⟨ahead.1,ahead.2,ahead.3,ahead.4,ahead.5,ahead.6,ahead.7⟩
      · exact ⟨order,zero⟩

theorem seek_order (emulator : Emulator Core) {s : MusicEmu Core} (order : InOrder s) {msec : Int}
    {sought : MusicEmu Core × Option String} (sought_eq : seek emulator s msec = some sought) :
    InOrder sought.1 := by
  unfold seek at sought_eq
  dsimp only at sought_eq
  split at sought_eq
  · cases sought_eq
  · cases sought_eq
    unfold seekSamples
    split
    next back =>
      have started := (startTrack_order emulator order.buf order.ignoreSilence s.currentTrack).1
      split
      next restarted _ failed =>
        rwa [failed] at started
      next restarted failed =>
        rw [failed] at started
        exact (skip_order emulator started _).1
    next ahead => exact (skip_order emulator order _).1

theorem newMusicEmu_order (emulator : Emulator Core) (core : Core) (rate : Nat) :
    InOrder (newMusicEmu emulator core rate) :=
  ⟨by simp [newMusicEmu],rfl,fun _ going => by cases going⟩

theorem InOrder.fade {s : MusicEmu Core} (order : InOrder s) (fadeStart fadeStep : Int) :
    InOrder { s with fadeStart := fadeStart, fadeStep := fadeStep } := by
  refine ⟨order.buf,order.ignoreSilence,fun rate going => ?_⟩
  have ahead := order.ahead rate going
  exact ⟨ahead.1,ahead.2,ahead.3,ahead.4,ahead.5,ahead.6,ahead.7⟩

theorem InOrder.fadeSet {s : MusicEmu Core} (order : InOrder s) (startMsec : Int) :
    InOrder (gmeSetFade s startMsec) := order.fade _ _

theorem InOrder.core {s : MusicEmu Core} (order : InOrder s) (core : Core) (tempo : Rat)
    (muteMask : BitVec 32) :
    InOrder { s with core := core, tempo := tempo, muteMask := muteMask } := by
  refine ⟨order.buf,order.ignoreSilence,fun rate going => ?_⟩
  have ahead := order.ahead rate going
  exact ⟨ahead.1,ahead.2,ahead.3,ahead.4,ahead.5,ahead.6,ahead.7⟩

def Fine (b : Backend Core) : Prop := ∀ s, b.emu = some s → InOrder s

theorem fine_map {b : Backend Core} {change : MusicEmu Core → MusicEmu Core} (fine : Fine b)
    (keeps : ∀ s, InOrder s → InOrder (change s)) : Fine { b with emu := b.emu.map change } := by
  intro s held
  obtain ⟨before,was,rfl⟩ := Option.map_eq_some_iff.mp held
  exact keeps before (fine before was)

/-- Every function of the backend keeps its emulator in order. -/
theorem step_fine {b after : Backend Core} {command : Command Core} (fine : Fine b)
    (taken : step emulator b command = some after) : Fine after := by
  obtain ⟨performed,_⟩ := step_perform taken
  cases command with
  | loadFile file track rate bufferSize fadeTimeMs =>
    cases performed
    intro s held
    cases file with
    | unidentified err => cases held
    | unloaded core err =>
      cases held
      exact newMusicEmu_order emulator core rate
    | loaded core =>
      have new := newMusicEmu_order emulator core rate
      have started := (startTrack_order emulator new.buf new.ignoreSilence track).1
      simp only [loadFile] at held
      split at held
      next failed =>
        cases held
        rwa [failed] at started
      next fresh =>
        cases held
        rw [fresh] at started
        exact started.fadeSet fadeTimeMs
  | readNextSamples =>
    cases performed
    intro s held
    simp only [readNextSamples] at held
    split at held
    next none_loaded => simp [none_loaded] at held
    next before was =>
      cases held
      exact play_order emulator (fine before was) b.bufferSize
  | seek timeInMs =>
    simp only [perform] at performed
    split at performed
    · cases performed
      exact fine
    next s loaded =>
      obtain ⟨sought,found,rfl⟩ := Option.map_eq_some_iff.mp performed
      intro t held
      cases held
      exact (seek_order emulator (fine s loaded) found).fadeSet _
  | setTempo tempo =>
    cases performed
    exact fine_map fine fun s order => (order.core _ _ _).fadeSet _
  | muteVoice voiceNumber enabled =>
    cases performed
    exact fine_map fine fun s order => order.core _ _ _
  | teardown =>
    cases performed
    exact fun s held => by cases held

theorem run_fine {commands : List (Command Core)} {b : Backend Core}
    (ran : run emulator commands = some b) : Fine b :=
  Run.invariant_of_step (fun _ _ _ fine taken => step_fine fine taken) (fun _ held => by cases held) ran

/-- An emulator of one loud tone without end, with the settings of `Nsf_Emu`. -/
def tone : Emulator Unit where
  maxInitialSilence := 2
  silenceLookahead := 6
  remapTrack_ := fun _ track => .ok track
  startTrack_ := fun core _ => (core,none)
  play_ := fun core count => ⟨core,List.replicate count 100,List.length_replicate,false,none⟩
  muteVoices_ := fun core _ => core
  setTempo_ := fun core _ => core

def toneRun : List (Command Unit) :=
  [.loadFile (.loaded ()) 0 1000 8 60000,.muteVoice 1 true,.readNextSamples]

end Chipbox.Gme
