import Chipbox.Native.Frames
import Chipbox.Foundation.Run

/-! Ownership of the memory and the emulator state that the PSF and USF backends hold. -/
namespace Chipbox.Native
open Globals

namespace Globals

@[simp] theorem pass_faults (g : Globals) (resource : Resource) :
    (g.pass resource).faults = [] ↔ g.faults = [] ∧ g.handle resource ≠ .released := by
  unfold pass
  split
  next released => simp [fault,released]
  next kept => simp [kept]

@[simp] theorem free_faults (g : Globals) (resource : Resource) :
    (g.free resource).faults = [] ↔ g.faults = [] ∧ g.handle resource ≠ .released := by
  unfold free
  split
  next absent => simp [absent]
  next live => simp [live]
  next released => simp [fault,released]

@[simp] theorem free_handle (g : Globals) (resource other : Resource) :
    (g.free resource).handle other =
      if other = resource ∧ g.handle resource ≠ .null then .released else g.handle other := by
  unfold free
  split
  next absent => simp [absent]
  next live => simp [live]
  next released =>
    by_cases same : other = resource
    · simp [fault,same,released]
    · simp [fault,same]

end Globals

/-- The pointer is kept although nothing is loaded any more. -/
def Dangling (g : Globals) (resource : Resource) : Prop :=
  g.initialized = false ∧ g.handle resource ≠ .null

instance (g : Globals) (resource : Resource) : Decidable (Dangling g resource) :=
  inferInstanceAs (Decidable (_ ∧ _))

/-- No pointer that `teardownInternal` follows is dangling. -/
def TearsDown (lib : Lib) (g : Globals) : Prop :=
  ¬ Dangling g .fifoBuffer ∧ (lib = .usf → ¬ Dangling g .emuState)

/-- The call follows no dangling pointer: a load always may be made, anything else needs
the pointers it follows to be live or null. -/
def Owns (lib : Lib) (g : Globals) : Call → Prop
  | .loadFile _ _ _ _ => True
  | .readNextSamples reply =>
    g.sampleRateTrack = 0 ∨ reply.arrayNull = true ∨ ¬ Dangling g .fifoBuffer
  | .seek timeInMs reply =>
    if seekTarget g timeInMs ≤ g.playedSampleCountTrack then
      TearsDown lib g ∧ (lib = .usf → reply.emulator = none → seekTarget g timeInMs = 0)
    else lib = .usf → ¬ Dangling g .emuState
  | .teardown => TearsDown lib g

/-- What the handles of a reachable state are, by whether a file is loaded. -/
structure Owned (lib : Lib) (g : Globals) : Prop where
  buffers : ∀ resource, resource ≠ .fifoBuffer → resource ≠ .emuState →
    g.handle resource = if g.initialized then .live else .null
  fifoLive : g.initialized = true → g.handle .fifoBuffer = .live
  fifoKept : g.initialized = false → g.handle .fifoBuffer ≠ .live
  fifoNull : g.handle .fifoBuffer = .null → g.sampleRateTrack = 0
  emuLive : lib = .usf → g.initialized = true → g.handle .emuState = .live
  emuKept : lib = .usf → g.initialized = false → g.handle .emuState ≠ .live
  closed : lib = .psf → g.initialized = false → g.cpuOpen = false

namespace Owned

theorem initial (lib : Lib) : Owned lib .initial where
  buffers _ _ _ := rfl
  fifoLive loaded := nomatch loaded
  fifoKept _ := nofun
  fifoNull _ := rfl
  emuLive _ loaded := nomatch loaded
  emuKept _ _ := nofun
  closed _ _ := rfl

variable {lib : Lib} {g : Globals}

theorem released_iff (owned : Owned lib g) {resource : Resource}
    (follows : resource = .fifoBuffer ∨ resource = .emuState ∧ lib = .usf) :
    g.handle resource = .released ↔ Dangling g resource := by
  have phases {handle : Handle} (live : g.initialized = true → handle = .live)
      (kept : g.initialized = false → handle ≠ .live) :
      handle = .released ↔ g.initialized = false ∧ handle ≠ .null := by
    cases loaded : g.initialized with
    | true => simp [live loaded]
    | false =>
      have := kept loaded
      cases handle <;> simp_all
  obtain rfl | ⟨rfl,usf⟩ := follows
  · exact phases owned.fifoLive owned.fifoKept
  · exact phases (owned.emuLive usf) (owned.emuKept usf)

theorem buffer_kept (owned : Owned lib g) {resource : Resource} (fifo : resource ≠ .fifoBuffer)
    (emu : resource ≠ .emuState) : g.handle resource ≠ .released := by
  rw [owned.buffers resource fifo emu]
  split <;> exact nofun

/-- Steps that leave the handles, the flags and the rate alone keep the invariant. -/
theorem of_same {after : Globals} (owned : Owned lib g) (handle : after.handle = g.handle)
    (initialized : after.initialized = g.initialized)
    (rate : after.sampleRateTrack = g.sampleRateTrack)
    (cpu : lib = .psf → g.cpuOpen = false → after.cpuOpen = false) : Owned lib after where
  buffers := by rw [handle,initialized]; exact owned.buffers
  fifoLive := by rw [handle,initialized]; exact owned.fifoLive
  fifoKept := by rw [handle,initialized]; exact owned.fifoKept
  fifoNull := by rw [handle,rate]; exact owned.fifoNull
  emuLive := by rw [handle,initialized]; exact owned.emuLive
  emuKept := by rw [handle,initialized]; exact owned.emuKept
  closed psf := by rw [initialized]; exact fun down => cpu psf (owned.closed psf down)

end Owned

theorem releaseBuffers_handle (g : Globals) (resource : Resource) :
    (releaseBuffers g).handle resource =
      if resource = .emuState then g.handle .emuState
      else if resource = .fifoBuffer ∧ g.handle .fifoBuffer ≠ .null then .released
      else .null := by
  cases resource with
  | fifoBuffer => by_cases absent : g.handle .fifoBuffer = .null <;> simp [releaseBuffers,absent]
  | _ => simp [releaseBuffers]

theorem releaseBuffers_faults (g : Globals) :
    (releaseBuffers g).faults = [] ↔
      g.faults = [] ∧ ∀ resource, resource ≠ .emuState → g.handle resource ≠ .released := by
  have each : (∀ resource, resource ≠ .emuState → g.handle resource ≠ .released) ↔
      g.handle .fifoBuffer ≠ .released ∧ g.handle .bufferAsShortTrack ≠ .released ∧
        g.handle .bufferAsFloatTrack ≠ .released ∧ g.handle .bufferAsFloatDevice ≠ .released := by
    constructor
    · intro kept
      exact ⟨kept _ nofun,kept _ nofun,kept _ nofun,kept _ nofun⟩
    · rintro ⟨fifo,short,track,device⟩ resource other
      cases resource <;> first | assumption | exact absurd rfl other
  rw [each]
  simp [releaseBuffers,and_assoc]

theorem teardownInternal_handle (lib : Lib) (g : Globals) (resource : Resource) :
    (teardownInternal lib g).handle resource =
      if resource = .emuState then (if lib = .usf then .null else g.handle .emuState)
      else if resource = .fifoBuffer ∧ g.handle .fifoBuffer ≠ .null then .released
      else .null := by
  cases lib with
  | psf => simp [teardownInternal,releaseBuffers_handle]
  | usf => simp [teardownInternal,releaseBuffers_handle]

theorem Owned.teardown {lib : Lib} {g : Globals} (owned : Owned lib g) :
    Owned lib (teardownInternal lib g) := by
  have rate := teardownInternal_sampleRateTrack lib g
  refine ⟨?_,?_,?_,?_,?_,?_,?_⟩
  · intro resource fifo emu
    simp [teardownInternal_handle,fifo,emu]
  · simp
  · intro _
    rw [teardownInternal_handle]
    split <;> simp_all
    split <;> exact nofun
  · rw [teardownInternal_handle,rate]
    intro absent
    refine owned.fifoNull ?_
    by_contra kept
    simp [kept] at absent
  · simp
  · intro usf _
    simp [teardownInternal_handle,usf]
  · rintro rfl _
    rfl

theorem teardownInternal_faults {lib : Lib} {g : Globals} (owned : Owned lib g) :
    (teardownInternal lib g).faults = [] ↔ g.faults = [] ∧ TearsDown lib g := by
  have buffers (kept : g.handle .fifoBuffer ≠ .released) (resource : Resource)
      (emu : resource ≠ .emuState) : g.handle resource ≠ .released := by
    by_cases fifo : resource = .fifoBuffer
    · rwa [fifo]
    · exact owned.buffer_kept fifo emu
  have whole : (∀ resource, resource ≠ .emuState → g.handle resource ≠ .released) ↔
      ¬ Dangling g .fifoBuffer := by
    rw [← owned.released_iff (.inl rfl)]
    exact ⟨fun kept => kept _ nofun,buffers⟩
  cases lib with
  | psf =>
    have := releaseBuffers_faults {g with mutedChannels := List.replicate 24 false}
    simpa [teardownInternal,TearsDown,whole] using this
  | usf =>
    have inner : ∀ resource, resource ≠ .emuState →
        (((g.pass .emuState).free .emuState).setHandle .emuState .null).handle resource =
          g.handle resource := by
      intro resource emu
      simp [emu]
    rw [teardownInternal,releaseBuffers_faults]
    simp only [setHandle_faults,free_faults,pass_faults,pass_handle,TearsDown,forall_const,
      ← owned.released_iff (.inr ⟨rfl,rfl⟩)]
    have same : (∀ resource, resource ≠ .emuState →
        (((g.pass .emuState).free .emuState).setHandle .emuState .null).handle resource ≠
          .released) ↔ ∀ resource, resource ≠ .emuState → g.handle resource ≠ .released :=
      forall_congr' fun resource => imp_congr_right fun emu => by rw [inner resource emu]
    rw [same,whole]
    tauto

theorem finishLoad_handle (rateTrack : Nat) (emulator : Emulator) (g : Globals)
    (resource : Resource) :
    (finishLoad rateTrack emulator g).handle resource =
      if resource = .emuState then g.handle .emuState else .live := by
  cases resource <;> simp [finishLoad]

theorem finishLoad_owned {lib : Lib} {g : Globals} (rateTrack : Nat) (emulator : Emulator)
    (emu : lib = .usf → g.handle .emuState = .live) :
    Owned lib (finishLoad rateTrack emulator g) where
  buffers resource _ other := by rw [finishLoad_handle,if_neg other]; rfl
  fifoLive _ := by rw [finishLoad_handle]; rfl
  fifoKept down := nomatch down
  fifoNull absent := by rw [finishLoad_handle] at absent; cases absent
  emuLive usf _ := by rw [finishLoad_handle]; exact emu usf
  emuKept _ down := nomatch down
  closed _ down := nomatch down

theorem prepareLoad_owned {lib : Lib} {g : Globals} (owned : Owned lib g)
    (rate bufferSize fadeTimeMs : Nat) :
    Owned lib (prepareLoad lib g rate bufferSize fadeTimeMs) ∧
      (prepareLoad lib g rate bufferSize fadeTimeMs).initialized = false ∧
      ((prepareLoad lib g rate bufferSize fadeTimeMs).faults = [] ↔ g.faults = []) := by
  have same : Owned lib {g with
      trackLengthMs := fadeTimeMs, sampleRateDevice := rate, bufferLengthShortsDevice := bufferSize
      bufferLengthSamplesDevice := bufferSize / shortsPerSample} :=
    owned.of_same rfl rfl rfl fun _ shut => shut
  unfold prepareLoad
  dsimp only
  split
  next loaded =>
    refine ⟨same.teardown,teardownInternal_initialized lib _,?_⟩
    rw [teardownInternal_faults same]
    simp [TearsDown,Dangling,loaded]
  next down => exact ⟨same,by simpa using down,Iff.rfl⟩

/-- A refused USF file leaves its state released where nothing is loaded. -/
theorem Owned.refused {g after : Globals} (owned : Owned .usf g) (down : after.initialized = false)
    (rate : after.sampleRateTrack = g.sampleRateTrack)
    (others : ∀ resource, resource ≠ .emuState → after.handle resource = g.handle resource)
    (released : after.handle .emuState = .released) (before : g.initialized = false) :
    Owned .usf after where
  buffers resource fifo emu := by
    rw [others resource emu,owned.buffers resource fifo emu,down,before]
  fifoLive loaded := by rw [down] at loaded; cases loaded
  fifoKept _ := by rw [others .fifoBuffer nofun]; exact owned.fifoKept before
  fifoNull := by rw [others .fifoBuffer nofun,rate]; exact owned.fifoNull
  emuLive _ loaded := by rw [down] at loaded; cases loaded
  emuKept _ _ := by rw [released]; exact nofun
  closed psf := nomatch psf

theorem loadFileInternal_owned {lib : Lib} {g after : Globals} {rate bufferSize fadeTimeMs : Nat}
    {reply : LoadReply} (owned : Owned lib g)
    (ran : loadFileInternal lib g rate bufferSize fadeTimeMs reply = some after) :
    Owned lib after ∧ (after.faults = [] ↔ g.faults = []) ∧
      (reply.emulator ≠ none → after.initialized = true) ∧
      (reply.emulator = none → after.initialized = false ∧ after.handle .fifoBuffer ≠ .live ∧
        (lib = .usf → after.handle .emuState = .released)) := by
  obtain ⟨prepared,down,faults⟩ := prepareLoad_owned owned rate bufferSize fadeTimeMs
  unfold loadFileInternal at ran
  split at ran
  · cases ran
  next positive =>
    cases lib with
    | psf =>
      cases loaded : reply.emulator with
      | none =>
        rw [loaded] at ran
        cases ran
        exact ⟨prepared.of_same rfl rfl rfl fun _ _ => rfl,faults,fun some => absurd rfl some,
          fun _ => ⟨down,prepared.fifoKept down,nofun⟩⟩
      | some emulator =>
        rw [loaded] at ran
        cases ran
        exact ⟨finishLoad_owned 44100 emulator nofun,faults,fun _ => rfl,nofun⟩
    | usf =>
      obtain ⟨compare,full,outcome⟩ :=
        loadFileInternal_usf g positive bufferSize fadeTimeMs reply
      rw [loadFileInternal,if_neg positive] at outcome
      rw [outcome] at ran
      cases loaded : reply.emulator with
      | none =>
        rw [loaded] at ran
        cases ran
        obtain ⟨handle,faulted,same⟩ := free_same {(prepareLoad .usf g rate bufferSize
          fadeTimeMs).setHandle .emuState .live with
            enableCompare := compare, enableFifoFull := full
            lastError := some "File load failed."} .emuState
        refine ⟨prepared.refused ?_ ?_ ?_ ?_ down,?_,fun some => absurd rfl some,
          fun _ => ⟨?_,?_,fun _ => by simp⟩⟩
        · rw [same]; exact down
        · rw [same]; rfl
        · intro resource other
          simp [other]
        · simp
        · simpa using faults
        · rw [same]; exact down
        · simpa using prepared.fifoKept down
      | some emulator =>
        rw [loaded] at ran
        cases ran
        exact ⟨finishLoad_owned _ emulator fun _ => by simp,faults,fun _ => rfl,nofun⟩

/-- Where the CPU is open the file is loaded, so the FIFO that `fifo_put` follows is live. -/
theorem sexyExecute_owned {g after : Globals} {size : Nat} (owned : Owned .psf g)
    (opened : g.cpuOpen = true) (ran : sexyExecute g = some (size,after)) :
    Owned .psf after ∧ after.faults = g.faults := by
  have control := (sexyExecute_control ran).1
  have loaded : g.initialized = true := by
    by_contra down
    rw [owned.closed rfl (by simpa using down)] at opened
    cases opened
  have kept : g.handle .fifoBuffer ≠ .released := by
    rw [owned.fifoLive loaded]
    intro released
    cases released
  refine ⟨owned.of_same control.handle control.initialized control.sampleRateTrack
    fun _ shut => (by rw [opened] at shut; cases shut),?_⟩
  obtain ⟨_,⟨_,rfl⟩ | ⟨_,_,rfl,same⟩⟩ := sexyExecute_cases ran
  · rfl
  · exact same kept

theorem generateLoop_owned {fuel requested internal : Nat} {g after : Globals} {result : Int}
    (owned : Owned .psf g) (ran : generateLoop fuel g requested internal = some (result,after)) :
    Owned .psf after ∧ after.faults = g.faults := by
  apply @generateLoop_keeps (fun middle => Owned .psf middle ∧ middle.faults = g.faults)
    _ _ _ _ _ _ _ ⟨owned,rfl⟩ ran
  rintro middle after _ ⟨owned,faults⟩ opened executed
  obtain ⟨next,same⟩ := sexyExecute_owned owned opened executed
  exact ⟨next,same.trans faults⟩

theorem usfRenderResampled_faults (g : Globals) :
    (usfRenderResampled g).2.faults = [] ↔ g.faults = [] ∧ g.handle .emuState ≠ .released ∧
      g.handle .bufferAsShortTrack ≠ .released := by
  have passed : ((g.pass .emuState).pass .bufferAsShortTrack).faults = [] ↔ g.faults = [] ∧
      g.handle .emuState ≠ .released ∧ g.handle .bufferAsShortTrack ≠ .released := by
    simp [and_assoc]
  rw [← passed]
  unfold usfRenderResampled
  dsimp only
  split <;> rfl

/-- Producing audio faults exactly where a USF render is given a dangling emulator state. -/
theorem generateAudio_owned {lib : Lib} {fuel requested : Nat} {g after : Globals} {result : Int}
    (owned : Owned lib g) (ran : generateAudio lib fuel g requested = some (result,after)) :
    Owned lib after ∧
      (after.faults = [] ↔ g.faults = [] ∧ (lib = .usf → ¬ Dangling g .emuState)) := by
  cases lib with
  | psf =>
    obtain ⟨after_owned,faults⟩ := generateLoop_owned owned ran
    simp [after_owned,faults]
  | usf =>
    have control := generateAudio_control ran
    refine ⟨owned.of_same control.handle control.initialized control.sampleRateTrack nofun,?_⟩
    have faults : after.faults = (usfRenderResampled g).2.faults := by
      unfold generateAudio at ran
      dsimp only at ran
      split at ran
      next rendered => cases ran; rw [rendered]
      next rendered => cases ran; rw [rendered]
    rw [faults,usfRenderResampled_faults,← owned.released_iff (.inr ⟨rfl,rfl⟩)]
    simp [owned.buffer_kept]

theorem getFromFifo_owned {lib : Lib} {g after : Globals} {offset requested count : Nat}
    (owned : Owned lib g) (ran : getFromFifo g offset requested = some (count,after)) :
    Owned lib after ∧ (after.faults = [] ↔ g.faults = [] ∧ ¬ Dangling g .fifoBuffer) := by
  obtain ⟨control,_,_,cpu⟩ := getFromFifo_control ran
  refine ⟨owned.of_same control.handle control.initialized control.sampleRateTrack
    fun _ shut => cpu.trans shut,?_⟩
  rw [← owned.released_iff (.inl rfl)]
  unfold getFromFifo at ran
  split at ran
  · cases ran
  · cases ran
    simp [owned.buffer_kept]

theorem Owned.addPlayed {lib : Lib} {g : Globals} (owned : Owned lib g) (samples : Nat) :
    Owned lib (g.addPlayed samples) :=
  owned.of_same (addPlayed_handle _ _) (addPlayed_initialized _ _) (addPlayed_sampleRateTrack _ _)
    fun _ shut => (addPlayed_cpuOpen _ _).trans shut

theorem Owned.lastError {lib : Lib} {g : Globals} (owned : Owned lib g) (error : Option String) :
    Owned lib {g with lastError := error} := owned.of_same rfl rfl rfl fun _ shut => shut

theorem dangling_congr {g after : Globals} (control : SameControl g after) (resource : Resource) :
    Dangling after resource ↔ Dangling g resource := by
  unfold Dangling
  rw [control.initialized,control.handle]

/-- A dangling emulator state comes with a dangling FIFO once something was loaded. -/
theorem Owned.dangling_fifo {lib : Lib} {g : Globals} (owned : Owned lib g)
    (loaded : g.sampleRateTrack ≠ 0) {resource : Resource} (dangling : Dangling g resource) :
    Dangling g .fifoBuffer :=
  ⟨dangling.1,fun absent => loaded (owned.fifoNull absent)⟩

theorem assembleAudio_owned {lib : Lib} {fuel : Nat} {g after : Globals}
    {taken : Option (List Byte)} (owned : Owned lib g) (loaded : g.sampleRateTrack ≠ 0)
    (ran : assembleAudio lib fuel g = some (taken,after)) :
    Owned lib after ∧ (after.faults = [] ↔ g.faults = [] ∧ ¬ Dangling g .fifoBuffer) := by
  unfold assembleAudio at ran
  split at ran
  · cases ran
  next count first got =>
    obtain ⟨owned₁,faults₁⟩ := getFromFifo_owned owned got
    have control₁ := (getFromFifo_control got).1
    dsimp only at ran
    split at ran
    · cases ran
    next result second generated =>
      obtain ⟨owned₂,faults₂⟩ := generateAudio_owned owned₁ generated
      have control₂ := control₁.trans (generateAudio_control generated)
      rw [dangling_congr control₁,faults₁] at faults₂
      have still : second.faults = [] ↔ g.faults = [] ∧ ¬ Dangling g .fifoBuffer :=
        faults₂.trans (and_iff_left_of_imp fun clean _ dangling =>
          clean.2 (owned.dangling_fifo loaded dangling))
      split at ran
      · cases ran; exact ⟨owned₂,still⟩
      · split at ran
        · cases ran
        next rest third again =>
          obtain ⟨owned₃,faults₃⟩ := getFromFifo_owned owned₂ again
          rw [dangling_congr control₂,still] at faults₃
          cases ran
          exact ⟨owned₃,faults₃.trans (and_iff_left_of_imp And.right)⟩

theorem readNextSamples_owned {lib : Lib} {fuel : Nat} {g after : Globals} {reply : ReadReply}
    {taken : Option (List Byte)} (owned : Owned lib g)
    (ran : readNextSamples lib fuel g reply = some (taken,after)) :
    Owned lib after ∧ (after.faults = [] ↔ g.faults = [] ∧ Owns lib g (.readNextSamples reply)) := by
  unfold readNextSamples at ran
  split at ran
  next unloaded => cases ran; exact ⟨owned.lastError _,by simp [Owns,unloaded]⟩
  next loaded =>
    split at ran
    next unwritable => cases ran; exact ⟨owned.lastError _,by simp [Owns,unwritable]⟩
    next writable =>
      dsimp only at ran
      split at ran
      · cases ran
      next middle assembled =>
        obtain ⟨owned,faults⟩ := assembleAudio_owned owned loaded assembled
        cases ran
        exact ⟨owned,by rw [faults]; simp [Owns,loaded,writable]⟩
      next bytes middle assembled =>
        obtain ⟨owned,faults⟩ := assembleAudio_owned owned loaded assembled
        have still : middle.faults = [] ↔ g.faults = [] ∧ Owns lib g (.readNextSamples reply) := by
          rw [faults]; simp [Owns,loaded,writable]
        split at ran
        · cases ran; exact ⟨owned.addPlayed _,by rw [addPlayed_faults]; exact still⟩
        · split at ran
          · cases ran; exact ⟨owned.lastError _,still⟩
          · cases ran; exact ⟨owned.addPlayed _,by rw [addPlayed_faults]; exact still⟩

theorem seekLoop_owned {lib : Lib} {generateFuel fuel : Nat} {g after : Globals} {remaining : Nat}
    (owned : Owned lib g) (going : g.stopSeek = false)
    (ran : seekLoop lib generateFuel fuel g remaining = some after) :
    Owned lib after ∧ (after.faults = [] ↔ g.faults = [] ∧
      (lib = .usf → 0 < remaining → ¬ Dangling g .emuState)) := by
  induction fuel generalizing g remaining with
  | zero => cases ran
  | succ fuel ih =>
    simp only [seekLoop,going,Bool.false_eq_true,if_false] at ran
    split at ran
    next more =>
      split at ran
      · cases ran
      next result middle generated =>
        have control := generateAudio_control generated
        obtain ⟨owned,faults⟩ := generateAudio_owned owned generated
        obtain ⟨last,rest⟩ := ih (owned.addPlayed _)
          ((addPlayed_stopSeek _ _).trans (control.stopSeek.trans going)) ran
        have still : Dangling (middle.addPlayed (if remaining > g.bufferLengthSamplesTrack
            then g.bufferLengthSamplesTrack else remaining)) .emuState ↔ Dangling g .emuState := by
          rw [← dangling_congr control]
          simp only [Dangling,addPlayed_initialized,addPlayed_handle]
        rw [addPlayed_faults,faults,still] at rest
        refine ⟨last,?_⟩
        rw [rest,and_iff_left_of_imp fun clean usf _ => clean.2 usf]
        simp only [more,forall_const]
    next done => cases ran; exact ⟨owned,by simp [done]⟩

theorem seek_owned {lib : Lib} {fuel : Nat} {g after : Globals} {timeInMs : Int}
    {reply : LoadReply} (owned : Owned lib g)
    (ran : seek lib fuel g timeInMs reply = some after) :
    Owned lib after ∧ (after.faults = [] ↔ g.faults = [] ∧ Owns lib g (.seek timeInMs reply)) := by
  have same : Owned lib {g with stopSeek := false} := owned.of_same rfl rfl rfl fun _ shut => shut
  unfold seek at ran
  split at ran
  · cases ran
  next start started =>
    unfold seekStart at started
    dsimp only at started
    split at started
    next back =>
      have back : seekTarget g timeInMs ≤ g.playedSampleCountTrack := back
      obtain ⟨loaded,faults,accepted,refused⟩ := loadFileInternal_owned same.teardown started
      obtain ⟨going,played⟩ := loadFileInternal_frame started
      rw [teardownInternal_stopSeek] at going
      rw [teardownInternal_initialized,teardownInternal_played] at played
      obtain ⟨last,rest⟩ := seekLoop_owned loaded going ran
      refine ⟨last,?_⟩
      have remaining : Word.sub (seekTarget g timeInMs) start.playedSampleCountTrack =
          seekTarget g timeInMs := by
        rw [played]
        exact Word.sub_of_le (Nat.zero_le _) (seekTarget_lt g timeInMs)
      rw [rest,remaining,faults,teardownInternal_faults same]
      simp only [Owns,back,if_true,and_assoc]
      refine and_congr_right fun _ => and_congr Iff.rfl (imp_congr_right fun usf => ?_)
      cases answer : reply.emulator with
      | none =>
        obtain ⟨down,_,released⟩ := refused answer
        have dangling : Dangling start .emuState :=
          (loaded.released_iff (.inr ⟨rfl,usf⟩)).mp (released usf)
        simp [dangling]
      | some emulator =>
        have live := accepted (by rw [answer]; exact nofun)
        simp [Dangling,live]
    next forward =>
      have forward : ¬ seekTarget g timeInMs ≤ g.playedSampleCountTrack := forward
      cases started
      obtain ⟨last,faults⟩ := seekLoop_owned same rfl ran
      refine ⟨last,?_⟩
      have more : 0 < Word.sub (seekTarget g timeInMs) g.playedSampleCountTrack := by
        rw [Word.sub_of_le (by omega) (seekTarget_lt g timeInMs)]
        omega
      rw [faults]
      simp only [Owns,forward,if_false,more,forall_const]
      exact Iff.rfl

/-- One call keeps the invariant, and faults exactly where it follows a dangling pointer. -/
theorem call_owned {lib : Lib} {fuel : Nat} {g after : Globals} {made : Call} (owned : Owned lib g)
    (ran : call lib fuel g made = some after) :
    Owned lib after ∧ (after.faults = [] ↔ g.faults = [] ∧ Owns lib g made) := by
  cases made with
  | loadFile rate bufferSize fadeTimeMs reply =>
    obtain ⟨owned,faults,_⟩ := loadFileInternal_owned owned ran
    exact ⟨owned,by simpa [Owns] using faults⟩
  | readNextSamples reply =>
    obtain ⟨⟨taken,last⟩,read,same⟩ := Option.map_eq_some_iff.mp ran
    cases same
    exact readNextSamples_owned owned read
  | seek timeInMs reply => exact seek_owned owned (call_seek ran)
  | teardown =>
    rw [call_teardown ran]
    exact ⟨owned.teardown,teardownInternal_faults owned⟩

/-- A history frees no handle twice and follows no released handle exactly when each of
its calls follows only pointers that are live or null. -/
theorem handles_owned_iff {lib : Lib} {fuel : Nat} {history : List Call} {finish : Globals}
    (ran : Run.exec (call lib fuel) .initial history = some finish) :
    finish.faults = [] ↔ Run.Meets (call lib fuel) (Owns lib) .initial history := by
  have whole := Run.unmarked_iff_meets (fun _ _ _ owned taken => (call_owned owned taken).1)
    (fun _ _ _ owned taken => (call_owned owned taken).2) (Owned.initial lib) ran
  rw [whole]
  exact and_iff_right rfl

theorem handles_owned_iff_fresh :
    ∃ finish, Run.exec (call .psf 4) .initial [.loadFile 44100 8 180000 ⟨[],some (steadyEmulator 16)⟩,
      .teardown] = some finish ∧ finish.faults = [] :=
  ⟨_,rfl,(@handles_owned_iff .psf 4 [.loadFile 44100 8 180000 ⟨[],some (steadyEmulator 16)⟩,.teardown]
    _ rfl).mpr ⟨trivial,⟨fun ⟨down,_⟩ => Bool.noConfusion down,nofun⟩,trivial⟩⟩

/-- A track is played, the next file is refused, and the one after it is tried: its
teardown frees the FIFO of the first track once more. -/
theorem fifo_released_twice :
    ∃ finish, Run.exec (call .psf 4) .initial [.loadFile 44100 8 180000 ⟨[],some (steadyEmulator 16)⟩,
      .teardown,.loadFile 44100 8 180000 ⟨[],none⟩,.teardown] = some finish ∧
      finish.faults = [.releasedTwice .fifoBuffer] :=
  ⟨_,rfl,rfl⟩

end Chipbox.Native
