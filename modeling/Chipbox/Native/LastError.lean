import Chipbox.Native.Frames
import Chipbox.Native.Vgm

/-! The error text of the three backends over whole histories of calls. -/
namespace Chipbox.Native
open Globals

/-- The call takes a branch that stores an error text: the file does not load, nothing
was ever loaded, the Java array cannot be written, rendering or resampling fails. -/
def Fails (lib : Lib) (fuel : Nat) (g : Globals) : Call → Prop
  | .loadFile _ _ _ reply => reply.emulator = none
  | .readNextSamples reply => g.sampleRateTrack = 0 ∨ reply.arrayNull = true ∨
      (lib = .usf ∧ g.emulator.renderError g.executed ≠ none) ∨
      (g.sampleRateTrack ≠ g.sampleRateDevice ∧ reply.srcError ≠ none ∧
        ∃ taken after, assembleAudio lib fuel g = some (some taken,after))
  | .seek timeInMs reply =>
      (seekTarget g timeInMs ≤ g.playedSampleCountTrack ∧ reply.emulator = none) ∨
      (lib = .usf ∧ ∃ start, seekStart lib g timeInMs reply = some start ∧
        ∃ pass < seekPasses (Word.sub (seekTarget g timeInMs) start.playedSampleCountTrack)
            start.bufferLengthSamplesTrack,
          start.emulator.renderError (start.executed + pass) ≠ none)
  | .teardown => False

theorem loadFileInternal_lastError {lib : Lib} {g after : Globals} {rate bufferSize fadeTimeMs : Nat}
    {reply : LoadReply}
    (ran : loadFileInternal lib g rate bufferSize fadeTimeMs reply = some after) :
    after.lastError = none ↔ g.lastError = none ∧ reply.emulator ≠ none := by
  obtain ⟨_,_,_,_,_,_,_,_,_,rfl,outcome⟩ := loadFileInternal_cases ran
  cases answer : reply.emulator with
  | none =>
    rw [answer] at outcome
    obtain ⟨_,rfl⟩ := outcome
    simp
  | some emulator =>
    rw [answer] at outcome
    obtain ⟨_,rfl⟩ := outcome
    simp [finishLoad,setHandle]

theorem generateAudio_lastError {lib : Lib} {fuel requested : Nat} {g after : Globals}
    {result : Int} (ran : generateAudio lib fuel g requested = some (result,after)) :
    after.lastError = none ↔ g.lastError = none ∧
      (lib = .usf → g.emulator.renderError g.executed = none) := by
  cases lib with
  | psf => simp [(generateLoop_control ran).2]
  | usf =>
    obtain ⟨middle,_,_,outcome,error⟩ := generateAudio_usf fuel g requested
    rw [ran] at outcome
    cases rendered : g.emulator.renderError g.executed with
    | none => rw [rendered] at outcome; cases outcome; simp [error]
    | some text => rw [rendered] at outcome; cases outcome; simp

theorem assembleAudio_lastError {lib : Lib} {fuel : Nat} {g after : Globals}
    {taken : Option (List Byte)} (ran : assembleAudio lib fuel g = some (taken,after)) :
    (after.lastError = none ↔ g.lastError = none ∧
      (lib = .usf → g.emulator.renderError g.executed = none)) ∧ SameControl g after := by
  unfold assembleAudio at ran
  split at ran
  · cases ran
  next count first got =>
    obtain ⟨control,error,executed,_⟩ := getFromFifo_control got
    dsimp only at ran
    split at ran
    · cases ran
    next result second generated =>
      have made := generateAudio_lastError generated
      have control := control.trans (generateAudio_control generated)
      rw [error,executed,(getFromFifo_control got).1.emulator] at made
      split at ran
      · cases ran; exact ⟨made,control⟩
      · split at ran
        · cases ran
        next rest third again =>
          obtain ⟨last,same,_⟩ := getFromFifo_control again
          cases ran
          rw [same]
          exact ⟨made,control.trans last⟩

/-- Without room for a single sample the loop of `seek` makes no progress. -/
theorem seekLoop_stuck (lib : Lib) (generateFuel fuel : Nat) (g : Globals) (remaining : Nat)
    (going : g.stopSeek = false) (small : remaining < 2^64) (more : 0 < remaining)
    (empty : g.bufferLengthSamplesTrack = 0) : seekLoop lib generateFuel fuel g remaining = none := by
  induction fuel generalizing g with
  | zero => rfl
  | succ fuel ih =>
    simp only [seekLoop,more,going,empty,if_true,Bool.false_eq_true,if_false]
    split
    · rfl
    next result after generated =>
      have control := generateAudio_control generated
      rw [Word.sub_of_le (Nat.zero_le _) small]
      exact ih _ (control.stopSeek.trans going) (control.samplesTrack.trans empty)

theorem generateAudio_executed {fuel requested : Nat} {g after : Globals} {result : Int}
    (ran : generateAudio .usf fuel g requested = some (result,after)) :
    after.executed = g.executed + 1 := by
  obtain ⟨middle,_,count,outcome,_⟩ := generateAudio_usf fuel g requested
  rw [ran] at outcome
  cases rendered : g.emulator.renderError g.executed with
  | none => rw [rendered] at outcome; cases outcome; exact count
  | some error => rw [rendered] at outcome; cases outcome; exact count

theorem seekLoop_lastError {lib : Lib} {generateFuel fuel : Nat} {g after : Globals}
    {remaining : Nat} (going : g.stopSeek = false) (small : remaining < 2^64)
    (ran : seekLoop lib generateFuel fuel g remaining = some after) :
    after.lastError = none ↔ g.lastError = none ∧
      (lib = .usf → ∀ pass < seekPasses remaining g.bufferLengthSamplesTrack,
        g.emulator.renderError (g.executed + pass) = none) := by
  induction fuel generalizing g remaining with
  | zero => cases ran
  | succ fuel ih =>
    rcases Nat.eq_zero_or_pos remaining with rfl | more
    · simp only [seekLoop,Nat.lt_irrefl,if_false] at ran
      cases ran
      simp
    rcases Nat.eq_zero_or_pos g.bufferLengthSamplesTrack with empty | positive
    · rw [seekLoop_stuck lib generateFuel _ g remaining going small more empty] at ran
      cases ran
    simp only [seekLoop,more,going,if_true,Bool.false_eq_true,if_false] at ran
    split at ran
    · cases ran
    next result middle generated =>
      have control := generateAudio_control generated
      have made := generateAudio_lastError generated
      have bound : Word.sub remaining (if remaining > g.bufferLengthSamplesTrack
          then g.bufferLengthSamplesTrack else remaining) < 2^64 := Word.wrap_lt _
      have rest := ih (g := middle.addPlayed _)
        (control.stopSeek.trans going) bound ran
      simp only [addPlayed,control.samplesTrack,control.emulator,made] at rest
      rw [rest,and_assoc]
      refine and_congr_right fun _ => ?_
      cases lib with
      | psf => simp
      | usf =>
        simp only [forall_const,generateAudio_executed generated]
        -- the first pass is the render just made, the others are those of the rest of the loop
        have passes : seekPasses remaining g.bufferLengthSamplesTrack =
            seekPasses (Word.sub remaining (if remaining > g.bufferLengthSamplesTrack
              then g.bufferLengthSamplesTrack else remaining)) g.bufferLengthSamplesTrack + 1 := by
          by_cases last : remaining > g.bufferLengthSamplesTrack
          · rw [if_pos last,Word.sub_of_le (by omega) small,seekPasses_step last positive]
          · rw [if_neg last,Word.sub_of_le (Nat.le_refl _) small,Nat.sub_self,seekPasses_zero,
              seekPasses_last more (by omega)]
        have shift (pass : Nat) : g.executed + 1 + pass = g.executed + (pass + 1) := by omega
        simp only [shift]
        rw [passes]
        exact (Nat.forall_lt_succ_left (p := fun pass =>
          g.emulator.renderError (g.executed + pass) = none)).symm

theorem seek_lastError {lib : Lib} {fuel : Nat} {g after : Globals} {timeInMs : Int}
    {reply : LoadReply} (ran : seek lib fuel g timeInMs reply = some after) :
    after.lastError = none ↔ g.lastError = none ∧ ¬ Fails lib fuel g (.seek timeInMs reply) := by
  unfold seek at ran
  split at ran
  · cases ran
  next start started =>
    have before : (start.lastError = none ↔ g.lastError = none ∧
        ¬ (seekTarget g timeInMs ≤ g.playedSampleCountTrack ∧ reply.emulator = none)) ∧
        start.stopSeek = false := by
      have began := started
      unfold seekStart at began
      dsimp only at began
      split at began
      next back =>
        have error := loadFileInternal_lastError began
        have stop := (loadFileInternal_frame began).1
        rw [teardownInternal_lastError] at error
        rw [teardownInternal_stopSeek] at stop
        have back : seekTarget g timeInMs ≤ g.playedSampleCountTrack := back
        exact ⟨by rw [error]; simp [back],stop⟩
      next forward =>
        have forward : ¬ seekTarget g timeInMs ≤ g.playedSampleCountTrack := forward
        cases began
        exact ⟨by simp [forward],rfl⟩
    have small : Word.sub (seekTarget g timeInMs) start.playedSampleCountTrack < 2^64 :=
      Word.sub_lt _ _
    rw [seekLoop_lastError before.2 small ran,before.1]
    simp only [Fails,started,Option.some.injEq,exists_eq_left']
    by_cases usf : lib = .usf
    · simp only [usf,forall_const,true_and,not_or,and_assoc,not_exists,not_and,ne_eq,
        Classical.not_not]
    · simp [usf]

theorem readNextSamples_lastError {lib : Lib} {fuel : Nat} {g after : Globals} {reply : ReadReply}
    {taken : Option (List Byte)} (ran : readNextSamples lib fuel g reply = some (taken,after)) :
    after.lastError = none ↔ g.lastError = none ∧ ¬ Fails lib fuel g (.readNextSamples reply) := by
  unfold readNextSamples at ran
  split at ran
  next unloaded => cases ran; simp [Fails,unloaded]
  next loaded =>
    split at ran
    next unwritable => cases ran; simp [Fails,unwritable]
    next writable =>
      dsimp only at ran
      split at ran
      · cases ran
      next middle assembled =>
        have made := (assembleAudio_lastError assembled).1
        cases ran
        simp [Fails,loaded,writable,made,assembled]
      next bytes middle assembled =>
        obtain ⟨made,control⟩ := assembleAudio_lastError assembled
        rw [control.sampleRateTrack,control.sampleRateDevice] at ran
        split at ran
        next same =>
          cases ran
          rw [addPlayed_lastError,made]
          have loaded : g.sampleRateDevice ≠ 0 := by rwa [same] at loaded
          simp [Fails,loaded,writable,same]
        next different =>
          cases resampled : reply.srcError with
          | none =>
            rw [resampled] at ran
            cases ran
            rw [addPlayed_lastError,made]
            simp [Fails,loaded,writable,resampled]
          | some error =>
            rw [resampled] at ran
            cases ran
            refine iff_of_false (fun clean => nomatch clean) (fun clean => clean.2 ?_)
            exact .inr (.inr (.inr ⟨different,by rw [resampled]; exact nofun,bytes,middle,assembled⟩))

/-- A call leaves no error text exactly when there was none and it does not fail: no
branch of any call ever takes a text back. -/
theorem call_lastError {lib : Lib} {fuel : Nat} {g after : Globals} {made : Call}
    (ran : call lib fuel g made = some after) :
    after.lastError = none ↔ g.lastError = none ∧ ¬ Fails lib fuel g made := by
  cases made with
  | loadFile rate bufferSize fadeTimeMs reply => exact loadFileInternal_lastError ran
  | readNextSamples reply =>
    obtain ⟨⟨taken,last⟩,read,same⟩ := Option.map_eq_some_iff.mp ran
    cases same
    exact readNextSamples_lastError read
  | seek timeInMs reply => exact seek_lastError (call_seek ran)
  | teardown => simp [call_teardown ran,Fails,teardownInternal_lastError]

theorem history_lastError {lib : Lib} {fuel : Nat} {start finish : Globals} {history : List Call}
    (ran : Run.exec (call lib fuel) start history = some finish) :
    finish.lastError = none ↔ start.lastError = none ∧
      Run.Meets (call lib fuel) (fun g made => ¬ Fails lib fuel g made) start history :=
  Run.unmarked_iff_meets (fun _ _ _ _ _ => trivial) (fun _ _ _ _ ran => call_lastError ran)
    (trivial : True) ran

/-- After a load that succeeds and reads that do not fail, `getLastError` returns null
exactly when no call before the load failed: an old error text is never taken back. -/
theorem stale_error_iff (lib : Lib) (fuel : Nat) (history : List Call)
    (vgmHistory : List VgmCall) :
    (∀ (rate : Nat) (bufferSize fadeTimeMs : Int) (reply : LoadReply) (reads : List ReadReply)
      (loaded finish : Globals),
      Run.exec (call lib fuel) .initial
        (history ++ [.loadFile rate bufferSize fadeTimeMs reply]) = some loaded →
      reply.emulator ≠ none →
      Run.exec (call lib fuel) loaded (reads.map .readNextSamples) = some finish →
      Run.Meets (call lib fuel) (fun g made => ¬ Fails lib fuel g made) loaded
        (reads.map .readNextSamples) →
      (getLastError finish = none ↔
        Run.Meets (call lib fuel) (fun g made => ¬ Fails lib fuel g made) .initial history)) ∧
    (∀ (filenameLength rate : Nat) (bufferSize : Int) (chips : List Nat)
      (reads : List (Bool × Nat × Bool)) (loaded finish : VgmGlobals),
      Run.exec Vgm.call .initial
        (vgmHistory ++ [.loadFile filenameLength rate bufferSize true chips]) = some loaded →
      Run.exec Vgm.call loaded (reads.map fun r => .readNextSamples r.1 r.2.1 r.2.2) = some finish →
      Run.Meets Vgm.call (fun g made => ¬ Vgm.Fails g made) loaded
        (reads.map fun r => .readNextSamples r.1 r.2.1 r.2.2) →
      (Vgm.getLastError finish = none ↔
        Run.Meets Vgm.call (fun g made => ¬ Vgm.Fails g made) .initial vgmHistory)) := by
  constructor
  · intro rate bufferSize fadeTimeMs reply reads loaded finish load accepted read clean
    have whole : ∀ start finish labels, Run.exec (call lib fuel) start labels = some finish →
        (finish.lastError = none ↔ start.lastError = none ∧
          Run.Meets (call lib fuel) (fun g made => ¬ Fails lib fuel g made) start labels) :=
      fun _ _ _ ran => history_lastError ran
    have seen := Run.unmarked_then whole load read rfl clean
    obtain ⟨before,ran,last⟩ := (Run.exec_append _ _).mp load
    obtain ⟨_,loads,_⟩ := Run.exec_cons.mp last
    rw [getLastError,seen,Run.meets_append _ _ ran,Run.meets_cons loads]
    simp [Fails,accepted]
  · intro filenameLength rate bufferSize chips reads loaded finish load read clean
    have whole : ∀ start finish labels, Run.exec Vgm.call start labels = some finish →
        (finish.lastError = none ↔ start.lastError = none ∧
          Run.Meets Vgm.call (fun g made => ¬ Vgm.Fails g made) start labels) :=
      fun _ _ _ ran => Vgm.history_lastError ran
    have seen := Run.unmarked_then whole load read rfl clean
    obtain ⟨before,ran,last⟩ := (Run.exec_append _ _).mp load
    obtain ⟨_,loads,_⟩ := Run.exec_cons.mp last
    rw [Vgm.getLastError,seen,Run.meets_append _ _ ran,Run.meets_cons loads]
    simp [Vgm.Fails]

theorem read_clean {fuel : Nat} {g : Globals} (loaded : g.sampleRateDevice ≠ 0)
    (same : g.sampleRateTrack = g.sampleRateDevice) :
    ¬ Fails .psf fuel g (.readNextSamples ⟨false,none⟩) := by
  simp [Fails,loaded,same]

def playedOut : List Call :=
  [.loadFile 44100 8 180000 ⟨[],some (steadyEmulator 16)⟩,.readNextSamples ⟨false,none⟩,.teardown]

theorem stale_error_iff_fresh :
    ∃ loaded finish,
      Run.exec (call .psf 4) .initial
        (playedOut ++ [.loadFile 44100 8 180000 ⟨[],some (steadyEmulator 12)⟩]) = some loaded ∧
      Run.exec (call .psf 4) loaded ([⟨false,none⟩,⟨false,none⟩].map .readNextSamples) = some finish ∧
      getLastError finish = none := by
  have before : Run.Meets (call .psf 4) (fun g made => ¬ Fails .psf 4 g made) .initial playedOut :=
    ⟨nofun,read_clean (by decide) rfl,id,trivial⟩
  have clean := (stale_error_iff .psf 4 playedOut []).1 44100 8 180000 ⟨[],some (steadyEmulator 12)⟩
    [⟨false,none⟩,⟨false,none⟩] _ _ rfl nofun rfl
    ⟨read_clean (by decide) rfl,read_clean (by decide) rfl,trivial⟩
  exact ⟨_,_,rfl,rfl,clean.mpr before⟩

/-- A refused file, then a load and a read without any failure: the error of the refused
file is still reported. -/
theorem stale_error_reported :
    ∃ loaded finish,
      Run.exec (call .psf 4) .initial [.loadFile 44100 8 180000 ⟨[],none⟩,
        .loadFile 44100 8 180000 ⟨[],some (steadyEmulator 16)⟩] = some loaded ∧
      Run.exec (call .psf 4) loaded [.readNextSamples ⟨false,none⟩] = some finish ∧
      Run.Meets (call .psf 4) (fun g made => ¬ Fails .psf 4 g made) loaded
        [.readNextSamples ⟨false,none⟩] ∧
      getLastError finish = some "File load failed." :=
  ⟨_,_,rfl,rfl,⟨read_clean (by decide) rfl,trivial⟩,rfl⟩

end Chipbox.Native
