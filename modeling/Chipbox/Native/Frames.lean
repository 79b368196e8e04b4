import Chipbox.Native.Backend

/-! What the helpers of the backend leave alone: handing out and freeing pointers touches
only the handles, producing audio touches only the FIFO, the track buffer and the
emulator. -/
namespace Chipbox.Native
open Globals

namespace Globals

@[simp] theorem setHandle_handle (g : Globals) (resource other : Resource) (handle : Handle) :
    (g.setHandle resource handle).handle other =
      if other = resource then handle else g.handle other := by
  simp [setHandle,Function.update_apply]

@[simp] theorem setHandle_faults (g : Globals) (resource : Resource) (handle : Handle) :
    (g.setHandle resource handle).faults = g.faults := rfl

@[simp] theorem setHandle_lastError (g : Globals) (resource : Resource) (handle : Handle) :
    (g.setHandle resource handle).lastError = g.lastError := rfl

@[simp] theorem pass_lastError (g : Globals) (resource : Resource) :
    (g.pass resource).lastError = g.lastError := by
  unfold pass; split <;> rfl

@[simp] theorem pass_handle (g : Globals) (resource : Resource) :
    (g.pass resource).handle = g.handle := by
  unfold pass; split <;> rfl

@[simp] theorem free_lastError (g : Globals) (resource : Resource) :
    (g.free resource).lastError = g.lastError := by
  unfold free; split <;> rfl

theorem pass_same (g : Globals) (resource : Resource) :
    ∃ faults, g.pass resource = {g with faults := faults} := by
  unfold pass
  split
  · exact ⟨_,rfl⟩
  · exact ⟨_,rfl⟩

theorem free_same (g : Globals) (resource : Resource) :
    ∃ handle faults, g.free resource = {g with handle := handle, faults := faults} := by
  unfold free
  split
  · exact ⟨_,_,rfl⟩
  · exact ⟨_,_,rfl⟩
  · exact ⟨_,_,rfl⟩

theorem pass_live {g : Globals} {resource : Resource} (kept : g.handle resource ≠ .released) :
    g.pass resource = g := if_neg kept

@[simp] theorem addPlayed_lastError (g : Globals) (samples : Nat) :
    (g.addPlayed samples).lastError = g.lastError := rfl

@[simp] theorem addPlayed_faults (g : Globals) (samples : Nat) :
    (g.addPlayed samples).faults = g.faults := rfl

@[simp] theorem addPlayed_handle (g : Globals) (samples : Nat) :
    (g.addPlayed samples).handle = g.handle := rfl

@[simp] theorem addPlayed_fifoFromLib (g : Globals) (samples : Nat) :
    (g.addPlayed samples).fifoFromLib = g.fifoFromLib := rfl

@[simp] theorem addPlayed_initialized (g : Globals) (samples : Nat) :
    (g.addPlayed samples).initialized = g.initialized := rfl

@[simp] theorem addPlayed_sampleRateTrack (g : Globals) (samples : Nat) :
    (g.addPlayed samples).sampleRateTrack = g.sampleRateTrack := rfl

@[simp] theorem addPlayed_samplesTrack (g : Globals) (samples : Nat) :
    (g.addPlayed samples).bufferLengthSamplesTrack = g.bufferLengthSamplesTrack := rfl

@[simp] theorem addPlayed_cpuOpen (g : Globals) (samples : Nat) :
    (g.addPlayed samples).cpuOpen = g.cpuOpen := rfl

@[simp] theorem addPlayed_stopSeek (g : Globals) (samples : Nat) :
    (g.addPlayed samples).stopSeek = g.stopSeek := rfl

end Globals

structure SameControl (g after : Globals) : Prop where
  initialized : after.initialized = g.initialized
  stopSeek : after.stopSeek = g.stopSeek
  sampleRateDevice : after.sampleRateDevice = g.sampleRateDevice
  sampleRateTrack : after.sampleRateTrack = g.sampleRateTrack
  samplesTrack : after.bufferLengthSamplesTrack = g.bufferLengthSamplesTrack
  bytesTrack : after.bufferLengthBytesTrack = g.bufferLengthBytesTrack
  played : after.playedSampleCountTrack = g.playedSampleCountTrack
  handle : after.handle = g.handle
  emulator : after.emulator = g.emulator
  fifoSize : after.fifoFromLib.size = g.fifoFromLib.size
  shortsDevice : after.bufferLengthShortsDevice = g.bufferLengthShortsDevice

namespace SameControl

theorem refl (g : Globals) : SameControl g g := ⟨rfl,rfl,rfl,rfl,rfl,rfl,rfl,rfl,rfl,rfl,rfl⟩

theorem trans {g middle after : Globals} (first : SameControl g middle)
    (second : SameControl middle after) : SameControl g after :=
  ⟨second.initialized.trans first.initialized,second.stopSeek.trans first.stopSeek,
    second.sampleRateDevice.trans first.sampleRateDevice,
    second.sampleRateTrack.trans first.sampleRateTrack,
    second.samplesTrack.trans first.samplesTrack,second.bytesTrack.trans first.bytesTrack,
    second.played.trans first.played,second.handle.trans first.handle,
    second.emulator.trans first.emulator,second.fifoSize.trans first.fifoSize,
    second.shortsDevice.trans first.shortsDevice⟩

end SameControl

/-- A run of the CPU that leaves sound puts it into a FIFO that has a size. -/
theorem sexyExecute_cases {g after : Globals} {size : Nat} (ran : sexyExecute g = some (size,after)) :
    size = g.emulator.soundBufferSize g.executed ∧
      ((size = 0 ∧ after = {g with
          cpuOpen := g.emulator.cpuOpen g.executed, executed := g.executed + 1}) ∨
        (g.fifoFromLib.size ≠ 0 ∧ ∃ faults, after = {g with
            cpuOpen := g.emulator.cpuOpen g.executed, executed := g.executed + 1, faults := faults
            fifoFromLib := (g.fifoFromLib.fifoPut (outputBytes g.produced size)).2
            produced := g.produced + size} ∧
          (g.handle .fifoBuffer ≠ .released → faults = g.faults))) := by
  unfold sexyExecute at ran
  dsimp only at ran
  split at ran
  next silent =>
    cases ran
    exact ⟨silent.symm,.inl ⟨rfl,rfl⟩⟩
  next =>
    split at ran
    · cases ran
    next sized =>
      by_cases kept : g.handle .fifoBuffer = .released
      · obtain ⟨faults,same⟩ := pass_same {g with
          cpuOpen := g.emulator.cpuOpen g.executed, executed := g.executed + 1} .fifoBuffer
        rw [same] at ran
        cases ran
        exact ⟨rfl,.inr ⟨sized,faults,rfl,fun live => absurd kept live⟩⟩
      · rw [pass_live (by exact kept)] at ran
        cases ran
        exact ⟨rfl,.inr ⟨sized,g.faults,rfl,fun _ => rfl⟩⟩

theorem sexyExecute_some {g : Globals} (sized : g.fifoFromLib.size ≠ 0) :
    ∃ size after, sexyExecute g = some (size,after) := by
  unfold sexyExecute
  dsimp only
  rw [if_neg sized]
  split
  · exact ⟨_,_,rfl⟩
  · exact ⟨_,_,rfl⟩

theorem sexyExecute_control {g after : Globals} {size : Nat}
    (ran : sexyExecute g = some (size,after)) :
    SameControl g after ∧ after.lastError = g.lastError ∧
      after.cpuOpen = g.emulator.cpuOpen g.executed ∧ after.executed = g.executed + 1 := by
  obtain ⟨_,⟨_,rfl⟩ | ⟨_,_,rfl,_⟩⟩ := sexyExecute_cases ran
  · exact ⟨⟨rfl,rfl,rfl,rfl,rfl,rfl,rfl,rfl,rfl,rfl,rfl⟩,rfl,rfl,rfl⟩
  · exact ⟨⟨rfl,rfl,rfl,rfl,rfl,rfl,rfl,rfl,rfl,rfl,rfl⟩,rfl,rfl,rfl⟩

theorem generateLoop_keeps {keeps : Globals → Prop}
    (step : ∀ {g after : Globals} {size : Nat}, keeps g → g.cpuOpen = true →
      sexyExecute g = some (size,after) → keeps after)
    {fuel requested internal : Nat} {g after : Globals} {result : Int} (held : keeps g)
    (ran : generateLoop fuel g requested internal = some (result,after)) : keeps after := by
  induction fuel generalizing g internal with
  | zero => cases ran
  | succ fuel ih =>
    unfold generateLoop at ran
    split at ran
    · split at ran
      next opened =>
        split at ran
        · cases ran
        next executed => exact ih (step held opened executed) ran
      next =>
        cases ran
        exact held
    · cases ran
      exact held

theorem generateLoop_control {fuel requested internal : Nat} {g after : Globals} {result : Int}
    (ran : generateLoop fuel g requested internal = some (result,after)) :
    SameControl g after ∧ after.lastError = g.lastError := by
  apply @generateLoop_keeps (fun middle => SameControl g middle ∧ middle.lastError = g.lastError)
    _ _ _ _ _ _ _ ⟨.refl _,rfl⟩ ran
  rintro middle after _ ⟨before,error⟩ _ executed
  obtain ⟨next,same,_⟩ := sexyExecute_control executed
  exact ⟨before.trans next,same.trans error⟩

theorem seekLoop_keeps {keeps : Globals → Prop} {lib : Lib} {generateFuel : Nat}
    (step : ∀ {g middle : Globals} {requested : Nat} {result : Int} (samples : Nat), keeps g →
      generateAudio lib generateFuel g requested = some (result,middle) →
      keeps (middle.addPlayed samples))
    {fuel remaining : Nat} {g after : Globals} (held : keeps g)
    (ran : seekLoop lib generateFuel fuel g remaining = some after) : keeps after := by
  induction fuel generalizing g remaining with
  | zero => cases ran
  | succ fuel ih =>
    unfold seekLoop at ran
    split at ran
    · split at ran
      · cases ran
        exact held
      · dsimp only at ran
        split at ran
        · cases ran
        next generated => exact ih (step _ held generated) ran
    · cases ran
      exact held

theorem usfRenderResampled_control (g : Globals) :
    SameControl g (usfRenderResampled g).2 ∧ (usfRenderResampled g).2.lastError = g.lastError ∧
      (usfRenderResampled g).1 = g.emulator.renderError g.executed ∧
      (usfRenderResampled g).2.executed = g.executed + 1 := by
  obtain ⟨faults,first⟩ := pass_same g .emuState
  obtain ⟨more,second⟩ := pass_same {g with faults := faults} .bufferAsShortTrack
  unfold usfRenderResampled
  rw [first,second]
  dsimp only
  cases g.emulator.renderError g.executed with
  | none => exact ⟨⟨rfl,rfl,rfl,rfl,rfl,rfl,rfl,rfl,rfl,rfl,rfl⟩,rfl,rfl,rfl⟩
  | some error => exact ⟨⟨rfl,rfl,rfl,rfl,rfl,rfl,rfl,rfl,rfl,rfl,rfl⟩,rfl,rfl,rfl⟩

/-- `generateAudio` on a USF emulator: its result and error are those of the next render. -/
theorem generateAudio_usf (fuel : Nat) (g : Globals) (requested : Nat) :
    ∃ after, SameControl g after ∧ after.executed = g.executed + 1 ∧
      generateAudio .usf fuel g requested = some (match g.emulator.renderError g.executed with
        | some error => (-1,{after with lastError := some error})
        | none => (requested,after)) ∧ after.lastError = g.lastError := by
  obtain ⟨control,error,outcome,executed⟩ := usfRenderResampled_control g
  refine ⟨(usfRenderResampled g).2,control,executed,?_,error⟩
  unfold generateAudio
  rw [← outcome]
  rcases usfRenderResampled g with ⟨_ | text,after⟩ <;> rfl

theorem generateAudio_control {lib : Lib} {fuel requested : Nat} {g after : Globals} {result : Int}
    (ran : generateAudio lib fuel g requested = some (result,after)) : SameControl g after := by
  cases lib with
  | psf => exact (generateLoop_control ran).1
  | usf =>
    obtain ⟨middle,control,_,outcome,_⟩ := generateAudio_usf fuel g requested
    rw [ran] at outcome
    cases rendered : g.emulator.renderError g.executed with
    | none => rw [rendered] at outcome; cases outcome; exact control
    | some error =>
      rw [rendered] at outcome
      cases outcome
      exact ⟨control.1,control.2,control.3,control.4,control.5,control.6,control.7,control.8,
        control.9,control.10,control.11⟩

theorem getFromFifo_eq {g : Globals} (positive : g.fifoFromLib.size ≠ 0) (offset requested : Nat) :
    ∃ faults, getFromFifo g offset requested = some ((g.fifoFromLib.fifoGet requested).1.length,
      {g with
        fifoFromLib := (g.fifoFromLib.fifoGet requested).2
        bufferAsShortTrack :=
          memcpy g.bufferAsShortTrack offset (g.fifoFromLib.fifoGet requested).1
        faults := faults}) := by
  obtain ⟨faults,first⟩ := pass_same g .fifoBuffer
  obtain ⟨more,second⟩ := pass_same {g with faults := faults} .bufferAsShortTrack
  refine ⟨more,?_⟩
  unfold getFromFifo
  rw [if_neg positive,first,second]

theorem getFromFifo_control {g after : Globals} {offset requested count : Nat}
    (ran : getFromFifo g offset requested = some (count,after)) :
    SameControl g after ∧ after.lastError = g.lastError ∧ after.executed = g.executed ∧
      after.cpuOpen = g.cpuOpen := by
  by_cases positive : g.fifoFromLib.size = 0
  · simp [getFromFifo,positive] at ran
  · obtain ⟨faults,outcome⟩ := getFromFifo_eq positive offset requested
    rw [outcome] at ran
    cases ran
    exact ⟨⟨rfl,rfl,rfl,rfl,rfl,rfl,rfl,rfl,rfl,rfl,rfl⟩,rfl,rfl,rfl⟩

theorem assembleAudio_control {lib : Lib} {fuel : Nat} {g after : Globals}
    {taken : Option (List Byte)} (ran : assembleAudio lib fuel g = some (taken,after)) :
    SameControl g after := by
  unfold assembleAudio at ran
  split at ran
  · cases ran
  next leftover first got =>
    dsimp only at ran
    split at ran
    · cases ran
    next result second generated =>
      have early := (getFromFifo_control got).1.trans (generateAudio_control generated)
      split at ran
      · cases ran
        exact early
      · split at ran
        · cases ran
        next rest third again =>
          cases ran
          exact early.trans (getFromFifo_control again).1

theorem releaseBuffers_same (g : Globals) :
    ∃ handle faults, releaseBuffers g =
      {g with handle := handle, faults := faults, playedSampleCountTrack := 0, initialized := false} := by
  obtain ⟨h₁,f₁,e₁⟩ := free_same g .fifoBuffer
  obtain ⟨h₂,f₂,e₂⟩ := free_same {g with handle := h₁, faults := f₁} .bufferAsShortTrack
  obtain ⟨h₃,f₃,e₃⟩ := free_same {g with handle := h₂, faults := f₂} .bufferAsFloatTrack
  obtain ⟨h₄,f₄,e₄⟩ := free_same {g with handle := h₃, faults := f₃} .bufferAsFloatDevice
  simp only [releaseBuffers,e₁,e₂,e₃,e₄,setHandle]
  exact ⟨_,_,rfl⟩

/-- `teardownInternal` touches the handles, the two flags, the position and the PSF settings. -/
theorem teardownInternal_same (lib : Lib) (g : Globals) :
    ∃ handle faults muted cpu scaling, teardownInternal lib g = {g with
      handle := handle, faults := faults, mutedChannels := muted, cpuOpen := cpu
      timeScalingFactor := scaling, playedSampleCountTrack := 0, initialized := false} := by
  cases lib with
  | psf =>
    obtain ⟨handle,faults,same⟩ :=
      releaseBuffers_same {g with mutedChannels := List.replicate 24 false}
    exact ⟨handle,faults,_,false,1,by rw [teardownInternal,same]⟩
  | usf =>
    obtain ⟨f,e⟩ := pass_same g .emuState
    obtain ⟨h₁,f₁,e₁⟩ := free_same {g with faults := f} .emuState
    obtain ⟨handle,faults,same⟩ :=
      releaseBuffers_same (((g.pass .emuState).free .emuState).setHandle .emuState .null)
    refine ⟨handle,faults,g.mutedChannels,g.cpuOpen,g.timeScalingFactor,?_⟩
    rw [teardownInternal,same,e,e₁]
    rfl

@[simp] theorem teardownInternal_lastError (lib : Lib) (g : Globals) :
    (teardownInternal lib g).lastError = g.lastError := by
  obtain ⟨_,_,_,_,_,same⟩ := teardownInternal_same lib g
  rw [same]

@[simp] theorem teardownInternal_stopSeek (lib : Lib) (g : Globals) :
    (teardownInternal lib g).stopSeek = g.stopSeek := by
  obtain ⟨_,_,_,_,_,same⟩ := teardownInternal_same lib g
  rw [same]

@[simp] theorem teardownInternal_initialized (lib : Lib) (g : Globals) :
    (teardownInternal lib g).initialized = false := by
  obtain ⟨_,_,_,_,_,same⟩ := teardownInternal_same lib g
  rw [same]

@[simp] theorem teardownInternal_played (lib : Lib) (g : Globals) :
    (teardownInternal lib g).playedSampleCountTrack = 0 := by
  obtain ⟨_,_,_,_,_,same⟩ := teardownInternal_same lib g
  rw [same]

@[simp] theorem teardownInternal_sampleRateTrack (lib : Lib) (g : Globals) :
    (teardownInternal lib g).sampleRateTrack = g.sampleRateTrack := by
  obtain ⟨_,_,_,_,_,same⟩ := teardownInternal_same lib g
  rw [same]

/-- What `prepareLoad` does to the globals a load is told apart by. -/
theorem prepareLoad_same (lib : Lib) (g : Globals) (rate bufferSize fadeTimeMs : Nat) :
    ∃ handle faults muted cpu scaling, prepareLoad lib g rate bufferSize fadeTimeMs = {g with
      handle := handle, faults := faults, mutedChannels := muted, cpuOpen := cpu
      timeScalingFactor := scaling, initialized := false, trackLengthMs := fadeTimeMs
      playedSampleCountTrack := if g.initialized then 0 else g.playedSampleCountTrack
      sampleRateDevice := rate, bufferLengthShortsDevice := bufferSize
      bufferLengthSamplesDevice := bufferSize / shortsPerSample} := by
  unfold prepareLoad
  dsimp only
  split
  next loaded =>
    obtain ⟨handle,faults,muted,cpu,scaling,same⟩ := teardownInternal_same lib {g with
      trackLengthMs := fadeTimeMs, sampleRateDevice := rate, bufferLengthShortsDevice := bufferSize
      bufferLengthSamplesDevice := bufferSize / shortsPerSample}
    exact ⟨handle,faults,muted,cpu,scaling,same⟩
  next down =>
    have down : g.initialized = false := by simpa using down
    exact ⟨g.handle,g.faults,g.mutedChannels,g.cpuOpen,g.timeScalingFactor,by rw [← down]⟩

theorem usfInfo_frame (g : Globals) (tags : List (String × String)) :
    ∃ compare full, tags.foldl usfInfo g =
      {g with enableCompare := compare, enableFifoFull := full} := by
  induction tags generalizing g with
  | nil => exact ⟨g.enableCompare,g.enableFifoFull,rfl⟩
  | cons tag rest ih =>
    obtain ⟨compare,full,same⟩ := ih (usfInfo g tag)
    refine ⟨compare,full,?_⟩
    rw [List.foldl_cons,same]
    unfold usfInfo
    split
    · rfl
    · split <;> rfl

/-- A USF load: the state is fresh while the tags are read, and freed where the file is
refused. -/
theorem loadFileInternal_usf (g : Globals) {rate : Nat} (positive : rate ≠ 0)
    (bufferSize fadeTimeMs : Nat) (reply : LoadReply) :
    ∃ compare full, loadFileInternal .usf g rate bufferSize fadeTimeMs reply =
      some (match reply.emulator with
        | none => free {(prepareLoad .usf g rate bufferSize fadeTimeMs).setHandle .emuState .live with
            enableCompare := compare, enableFifoFull := full
            lastError := some "File load failed."} .emuState
        | some emulator => finishLoad
            (prepareLoad .usf g rate bufferSize fadeTimeMs).sampleRateDevice emulator
            {(prepareLoad .usf g rate bufferSize fadeTimeMs).setHandle .emuState .live with
              enableCompare := compare, enableFifoFull := full}) := by
  rw [loadFileInternal,if_neg positive]
  generalize prepareLoad .usf g rate bufferSize fadeTimeMs = ready
  have fresh : (ready.setHandle .emuState .live).pass .emuState =
      ready.setHandle .emuState .live := pass_live (by simp)
  obtain ⟨compare,full,tags⟩ := usfInfo_frame (ready.setHandle .emuState .live) reply.tags
  have still : ({ready.setHandle .emuState .live with
      enableCompare := compare, enableFifoFull := full} : Globals).pass .emuState =
      {ready.setHandle .emuState .live with enableCompare := compare, enableFifoFull := full} :=
    pass_live (by simp)
  refine ⟨compare,full,?_⟩
  dsimp only
  rw [fresh,tags,still]
  cases reply.emulator <;> rfl

def trackRate (lib : Lib) (rateDevice : Nat) : Nat :=
  match lib with
  | .psf => 44100
  | .usf => rateDevice

/-- What a load makes of the globals: those prepared for the track, and where the file is accepted
what `finishLoad` makes of them. -/
theorem loadFileInternal_cases {lib : Lib} {g after : Globals} {rate bufferSize fadeTimeMs : Nat}
    {reply : LoadReply}
    (ran : loadFileInternal lib g rate bufferSize fadeTimeMs reply = some after) :
    rate ≠ 0 ∧ ∃ handle faults muted cpu scaling compare full ready, ready = {g with
        handle := handle, faults := faults, mutedChannels := muted, cpuOpen := cpu
        timeScalingFactor := scaling, enableCompare := compare, enableFifoFull := full
        initialized := false, trackLengthMs := fadeTimeMs
        playedSampleCountTrack := if g.initialized then 0 else g.playedSampleCountTrack
        sampleRateDevice := rate, bufferLengthShortsDevice := bufferSize
        bufferLengthSamplesDevice := bufferSize / shortsPerSample} ∧
      match reply.emulator with
      | none => (lib = .psf → cpu = false) ∧ after = {ready with lastError := some "File load failed."}
      | some emulator => (lib = .psf → cpu = true) ∧
        after = finishLoad (trackRate lib rate) emulator ready := by
  by_cases positive : rate = 0
  · simp [loadFileInternal,positive] at ran
  obtain ⟨handle,faults,muted,cpu,scaling,prepared⟩ :=
    prepareLoad_same lib g rate bufferSize fadeTimeMs
  refine ⟨positive,?_⟩
  cases lib with
  | psf =>
    rw [loadFileInternal,if_neg positive,prepared] at ran
    cases answer : reply.emulator with
    | none =>
      rw [answer] at ran
      cases ran
      exact ⟨handle,faults,muted,false,scaling,g.enableCompare,g.enableFifoFull,_,rfl,fun _ => rfl,rfl⟩
    | some emulator =>
      rw [answer] at ran
      cases ran
      exact ⟨handle,faults,muted,true,scaling,g.enableCompare,g.enableFifoFull,_,rfl,fun _ => rfl,rfl⟩
  | usf =>
    obtain ⟨compare,full,outcome⟩ := loadFileInternal_usf g positive bufferSize fadeTimeMs reply
    rw [outcome,prepared] at ran
    cases answer : reply.emulator with
    | none =>
      rw [answer] at ran
      cases ran
      generalize opened : (setHandle _ Resource.emuState Handle.live) = ready
      obtain ⟨freed,faulted,same⟩ := free_same {ready with
        enableCompare := compare, enableFifoFull := full, lastError := some "File load failed."} .emuState
      rw [same,← opened]
      exact ⟨freed,faulted,muted,cpu,scaling,compare,full,_,rfl,nofun,rfl⟩
    | some emulator =>
      rw [answer] at ran
      cases ran
      exact ⟨_,faults,muted,cpu,scaling,compare,full,_,rfl,nofun,rfl⟩

theorem loadFileInternal_frame {lib : Lib} {g after : Globals} {rate bufferSize fadeTimeMs : Nat}
    {reply : LoadReply}
    (ran : loadFileInternal lib g rate bufferSize fadeTimeMs reply = some after) :
    after.stopSeek = g.stopSeek ∧
      after.playedSampleCountTrack = if g.initialized then 0 else g.playedSampleCountTrack := by
  obtain ⟨_,_,_,_,_,_,_,_,_,rfl,outcome⟩ := loadFileInternal_cases ran
  cases answer : reply.emulator with
  | none =>
    rw [answer] at outcome
    obtain ⟨_,rfl⟩ := outcome
    exact ⟨rfl,rfl⟩
  | some emulator =>
    rw [answer] at outcome
    obtain ⟨_,rfl⟩ := outcome
    exact ⟨rfl,rfl⟩

/-- The passes of the loop of `seek` over the remaining samples. -/
def seekPasses (remaining samplesTrack : Nat) : Nat := (remaining + samplesTrack - 1) / samplesTrack

@[simp] theorem seekPasses_zero (samplesTrack : Nat) : seekPasses 0 samplesTrack = 0 := by
  unfold seekPasses
  rcases Nat.eq_zero_or_pos samplesTrack with rfl | positive
  · rfl
  · exact Nat.div_eq_of_lt (by omega)

theorem seekPasses_last {remaining samplesTrack : Nat} (more : 0 < remaining)
    (last : remaining ≤ samplesTrack) : seekPasses remaining samplesTrack = 1 :=
  Nat.div_eq_of_lt_le (by omega) (by omega)

theorem seekPasses_step {remaining samplesTrack : Nat} (more : samplesTrack < remaining)
    (positive : 0 < samplesTrack) :
    seekPasses remaining samplesTrack = seekPasses (remaining - samplesTrack) samplesTrack + 1 := by
  unfold seekPasses
  rw [← Nat.add_div_right _ positive]
  congr 1
  omega

theorem seekTarget_lt (g : Globals) (timeInMs : Int) : seekTarget g timeInMs < 2^64 :=
  (Nat.div_le_self _ _).trans_lt (Word.mul_lt _ _)

end Chipbox.Native
