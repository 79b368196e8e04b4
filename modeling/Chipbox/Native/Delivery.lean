import Chipbox.Native.FadeOut

/-! What `readNextSamples` places in the Java array. With resampling the float buffer of the device is
copied whole, without it the short buffer of the track is, however few frames were made. -/
namespace Chipbox.Native
open Globals

/-- A short or float by where it came from; the index counts from the start of its buffer. -/
inductive Audio
  | unwritten
  | silence
  | resampled (read index : Nat)
  | assembled (read index : Nat)
  deriving DecidableEq, Repr

structure Outlet where
  globals : Globals
  reads : Nat
  bufferAsFloatDevice : Nat → Audio

/-- What the environment answers: whether the array is null, and the error of `src_simple` or the
`output_frames_gen` that it reports. -/
structure DeliveryReply where
  arrayNull : Bool
  src : Except SrcError Nat

def DeliveryReply.readReply (reply : DeliveryReply) : ReadReply :=
  ⟨reply.arrayNull,match reply.src with
    | .error error => some error
    | .ok _ => none⟩

/-- `src_simple` into the float buffer of the device, two floats a frame. -/
def resampleInto (outlet : Outlet) (outputFramesGen : Nat) : Nat → Audio := fun index =>
  if index < 2 * outputFramesGen then .resampled outlet.reads index
  else outlet.bufferAsFloatDevice index

/-- The end of `readNextSamples`: what is copied to the array, unless `src_simple` fails, and what
is left in the float buffer. The call has filled the short buffer (`assembleAudio_takes`). -/
def placeSamples (outlet : Outlet) (reply : DeliveryReply) : Option (List Audio) × (Nat → Audio) :=
  if outlet.globals.sampleRateTrack = outlet.globals.sampleRateDevice then
    (some ((List.range (outlet.globals.bufferLengthBytesTrack / 2)).map (Audio.assembled outlet.reads)),
      outlet.bufferAsFloatDevice)
  else
    match reply.src with
    | .error _ => (none,outlet.bufferAsFloatDevice)
    | .ok outputFramesGen =>
      (some ((List.range outlet.globals.bufferLengthShortsDevice).map (resampleInto outlet outputFramesGen)),
        resampleInto outlet outputFramesGen)

/-- `readNextSamples` with what it places in the array, if it places anything. -/
def deliver (lib : Lib) (fuel : Nat) (outlet : Outlet) (reply : DeliveryReply) :
    Option (Option (List Audio) × Outlet) :=
  match readNextSamples lib fuel outlet.globals reply.readReply with
  | none => none
  | some (none,globals) => some (none,⟨globals,outlet.reads + 1,outlet.bufferAsFloatDevice⟩)
  | some (some _,globals) =>
    let placed := placeSamples outlet reply
    some (placed.1,⟨globals,outlet.reads + 1,placed.2⟩)

def deliverOn (lib : Lib) (fuel : Nat) (outlet : Outlet) (reply : DeliveryReply) : Option Outlet :=
  (deliver lib fuel outlet reply).map Prod.snd

/-- The frames that the call itself makes: those that `src_simple` reports, or those that are read where
nothing is resampled. -/
def framesMade (outlet : Outlet) (reply : DeliveryReply) : Nat :=
  if outlet.globals.sampleRateTrack = outlet.globals.sampleRateDevice then samplesToRead outlet.globals
  else reply.src.toOption.getD 0

/-- What is placed at an index is silence, or of a frame that this call made. -/
def Audio.Fresh (outlet : Outlet) (reply : DeliveryReply) (index : Nat) (audio : Audio) : Prop :=
  audio = .silence ∨ (index / 2 < framesMade outlet reply ∧
    (audio = .resampled outlet.reads index ∨ audio = .assembled outlet.reads index))

def DeliversFresh (lib : Lib) (fuel : Nat) (outlet : Outlet) (reply : DeliveryReply) : Prop :=
  ∀ placed after, deliver lib fuel outlet reply = some (some placed,after) →
    ∀ index (audio : Audio), placed[index]? = some audio → audio.Fresh outlet reply index

def copyLength (outlet : Outlet) : Nat :=
  if outlet.globals.sampleRateTrack = outlet.globals.sampleRateDevice
  then outlet.globals.bufferLengthBytesTrack / 2
  else outlet.globals.bufferLengthShortsDevice

/-- A call that places anything makes as many frames as the copy takes. -/
def MakesWhole (lib : Lib) (fuel : Nat) (outlet : Outlet) (reply : DeliveryReply) : Prop :=
  (∃ placed after, deliver lib fuel outlet reply = some (some placed,after)) →
    copyLength outlet ≤ 2 * framesMade outlet reply

def Outlet.Loud (outlet : Outlet) : Prop := ∀ index, outlet.bufferAsFloatDevice index ≠ .silence

section Delivery
variable {lib : Lib} {fuel : Nat} {outlet after : Outlet} {reply : DeliveryReply}

theorem deliver_places {placed : List Audio} (ran : deliver lib fuel outlet reply = some (some placed,after)) :
    (placeSamples outlet reply).1 = some placed := by
  unfold deliver at ran
  split at ran
  · cases ran
  · cases ran
  · exact congrArg Prod.fst (Option.some.inj ran)

theorem resampleInto_loud (loud : outlet.Loud) (outputFramesGen index : Nat) :
    resampleInto outlet outputFramesGen index ≠ .silence := by
  unfold resampleInto
  split
  · exact nofun
  · exact loud index

theorem placeSamples_loud (loud : outlet.Loud) (index : Nat) :
    (placeSamples outlet reply).2 index ≠ .silence := by
  unfold placeSamples
  split
  · exact loud index
  · split
    · exact loud index
    · exact resampleInto_loud loud _ index

theorem Outlet.Loud.deliver (loud : outlet.Loud) (ran : deliverOn lib fuel outlet reply = some after) :
    after.Loud := by
  obtain ⟨⟨placed,last⟩,delivered,rfl⟩ := Option.map_eq_some_iff.mp ran
  unfold Native.deliver at delivered
  split at delivered
  · cases delivered
  · cases delivered
    exact loud
  · cases delivered
    exact placeSamples_loud loud

theorem copy_fresh_iff {count : Nat} {source : Nat → Audio}
    (loud : ∀ index, source index ≠ .silence)
    (made : ∀ index, index / 2 < framesMade outlet reply →
      source index = .resampled outlet.reads index ∨ source index = .assembled outlet.reads index) :
    (∀ index (audio : Audio), ((List.range count).map source)[index]? = some audio →
      audio.Fresh outlet reply index) ↔ count ≤ 2 * framesMade outlet reply := by
  constructor
  · intro fresh
    by_contra more
    have inside : 2 * framesMade outlet reply < count := Nat.lt_of_not_le more
    have listed : ((List.range count).map source)[2 * framesMade outlet reply]? =
        some (source (2 * framesMade outlet reply)) := by
      rw [List.getElem?_map,List.getElem?_range inside]
      rfl
    rcases fresh _ _ listed with silent | ⟨within,_⟩
    · exact loud _ silent
    · omega
  · intro whole index audio listed
    rw [List.getElem?_map] at listed
    obtain ⟨found,position,rfl⟩ := Option.map_eq_some_iff.mp listed
    obtain ⟨inside,rfl⟩ := List.getElem?_eq_some_iff.mp position
    rw [List.length_range] at inside
    rw [List.getElem_range]
    have within : index / 2 < framesMade outlet reply := by omega
    exact .inr ⟨within,made index within⟩

theorem placed_fresh_iff (loud : outlet.Loud) {placed : List Audio}
    (copied : (placeSamples outlet reply).1 = some placed) :
    (∀ index (audio : Audio), placed[index]? = some audio → audio.Fresh outlet reply index) ↔
      copyLength outlet ≤ 2 * framesMade outlet reply := by
  unfold placeSamples at copied
  unfold copyLength
  by_cases same : outlet.globals.sampleRateTrack = outlet.globals.sampleRateDevice
  · rw [if_pos same] at copied ⊢
    cases copied
    exact copy_fresh_iff (fun _ => nofun) fun _ _ => .inr rfl
  · rw [if_neg same] at copied ⊢
    cases answered : reply.src with
    | error error =>
      rw [answered] at copied
      cases copied
    | ok outputFramesGen =>
      rw [answered] at copied
      cases copied
      apply copy_fresh_iff (resampleInto_loud loud outputFramesGen)
      intro index within
      unfold framesMade at within
      rw [if_neg same,answered] at within
      change index / 2 < outputFramesGen at within
      exact .inl (if_pos (by omega))

theorem deliversFresh_iff (loud : outlet.Loud) :
    DeliversFresh lib fuel outlet reply ↔ MakesWhole lib fuel outlet reply := by
  constructor
  · rintro fresh ⟨placed,after,ran⟩
    exact (placed_fresh_iff loud (deliver_places ran)).mp (fresh placed after ran)
  · intro whole placed after ran
    exact (placed_fresh_iff loud (deliver_places ran)).mpr (whole ⟨placed,after,ran⟩)

end Delivery

/-- Over any reads from a float buffer that nothing was written to, everything placed is fresh
exactly when every call that places anything makes as many frames as the copy takes. -/
theorem delivers_fresh_iff {lib : Lib} {fuel : Nat} {g : Globals} {finish : Outlet}
    {replies : List DeliveryReply}
    (run : Run.exec (deliverOn lib fuel) ⟨g,0,fun _ => .unwritten⟩ replies = some finish) :
    Run.Meets (deliverOn lib fuel) (DeliversFresh lib fuel) ⟨g,0,fun _ => .unwritten⟩ replies ↔
      Run.Meets (deliverOn lib fuel) (MakesWhole lib fuel) ⟨g,0,fun _ => .unwritten⟩ replies := by
  have loud : Run.Meets (deliverOn lib fuel) (fun outlet _ => outlet.Loud)
      ⟨g,0,fun _ => .unwritten⟩ replies := by
    have free : Run.Meets (deliverOn lib fuel) (fun _ _ => True) ⟨g,0,fun _ => .unwritten⟩ replies :=
      Run.meets_of_labels (fun _ _ _ => trivial) _
    have base : Outlet.Loud ⟨g,0,fun _ => .unwritten⟩ := fun _ => nofun
    exact Run.meets_of_meets (fun _ _ _ held _ taken => held.deliver taken) (fun _ _ held _ => held)
      base free
  exact Run.meets_iff_among (fun _ _ _ held _ => deliversFresh_iff held) run loud

/-- Where `src_simple` makes no more than its input times the ratio and one frame, a read
that asks for too few samples cannot fill the buffer of the device. -/
theorem makesWhole_asks {lib : Lib} {fuel : Nat} {outlet : Outlet} {reply : DeliveryReply}
    {outputFramesGen : Nat} (resampled : outlet.globals.sampleRateTrack ≠ outlet.globals.sampleRateDevice)
    (places : ∃ placed after, deliver lib fuel outlet reply = some (some placed,after))
    (answered : reply.src = .ok outputFramesGen)
    (bounded : outputFramesGen * outlet.globals.sampleRateTrack ≤
      samplesToRead outlet.globals * outlet.globals.sampleRateDevice + outlet.globals.sampleRateTrack)
    (whole : MakesWhole lib fuel outlet reply) :
    outlet.globals.bufferLengthShortsDevice * outlet.globals.sampleRateTrack ≤
      2 * (samplesToRead outlet.globals * outlet.globals.sampleRateDevice + outlet.globals.sampleRateTrack) := by
  have filled := whole places
  unfold copyLength framesMade at filled
  rw [if_neg resampled,if_neg resampled,answered] at filled
  calc outlet.globals.bufferLengthShortsDevice * outlet.globals.sampleRateTrack
      ≤ 2 * outputFramesGen * outlet.globals.sampleRateTrack :=
        Nat.mul_le_mul_right _ filled
    _ = 2 * (outputFramesGen * outlet.globals.sampleRateTrack) := Nat.mul_assoc _ _ _
    _ ≤ 2 * (samplesToRead outlet.globals * outlet.globals.sampleRateDevice +
          outlet.globals.sampleRateTrack) := Nat.mul_le_mul_left 2 bounded

/-- A first read without resampling, and a second. -/
theorem delivers_fresh_iff_native : ∃ start finish, loadFileInternal .psf .initial 44100 8 180000
    ⟨[],some (steadyEmulator 16)⟩ = some start ∧
    Run.exec (deliverOn .psf 20) ⟨start,0,fun _ => .unwritten⟩ [⟨false,.ok 0⟩,⟨false,.ok 0⟩] = some finish ∧
    Run.Meets (deliverOn .psf 20) (DeliversFresh .psf 20) ⟨start,0,fun _ => .unwritten⟩
      [⟨false,.ok 0⟩,⟨false,.ok 0⟩] := by
  refine ⟨_,_,rfl,rfl,(@delivers_fresh_iff .psf 20 _ _ [⟨false,.ok 0⟩,⟨false,.ok 0⟩] rfl).mpr ?_⟩
  exact ⟨fun _ => by decide,fun _ => by decide,trivial⟩

/-- A device of 96000 Hz with a buffer of eight frames: three samples of the track give at most seven
frames, and the eighth is memory that nothing wrote. -/
theorem delivers_stale : ∃ start after placed, loadFileInternal .psf .initial 96000 16 180000
    ⟨[],some (steadyEmulator 16)⟩ = some start ∧
    start.bufferLengthSamplesTrack = 3 ∧ 7 * start.sampleRateTrack ≤ 3 * start.sampleRateDevice +
      start.sampleRateTrack ∧ ¬ 8 * start.sampleRateTrack ≤ 3 * start.sampleRateDevice +
      start.sampleRateTrack ∧
    deliver .psf 20 ⟨start,0,fun _ => .unwritten⟩ ⟨false,.ok 7⟩ = some (some placed,after) ∧
    placed[14]? = some .unwritten :=
  ⟨_,_,_,rfl,by decide,by decide,by decide,rfl,rfl⟩

end Chipbox.Native
