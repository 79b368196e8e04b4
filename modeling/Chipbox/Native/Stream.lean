import Chipbox.Native.Frames

/-! What a read of a loaded track takes from its emulator. -/
namespace Chipbox.Native
open Globals

/-- The emulator never stops or fails and always has more output to come. -/
structure Emulator.Endless (emulator : Emulator) : Prop where
  stays : ∀ call, emulator.cpuOpen call = true
  renders : ∀ call, emulator.renderError call = none
  outputs : ∀ call, ∃ later, call ≤ later ∧ 0 < emulator.soundBufferSize later

/-- A track is loaded and its emulator is endless. The FIFO, the played position and the
output position may be anything, short of `2^64` bytes moved. -/
structure Loaded (lib : Lib) (g : Globals) : Prop where
  device : g.sampleRateDevice ≠ 0
  rate : g.sampleRateTrack = trackRate lib g.sampleRateDevice
  samples : g.bufferLengthSamplesTrack =
    samplesAtTrackRate (g.bufferLengthShortsDevice / shortsPerSample) g.sampleRateTrack
      g.sampleRateDevice
  frames : 0 < g.bufferLengthSamplesTrack
  bytes : g.bufferLengthBytesTrack = 4 * g.bufferLengthSamplesTrack
  size : g.fifoFromLib.size = 8 * g.bufferLengthSamplesTrack
  valid : g.fifoFromLib.Valid
  room : g.fifoFromLib.readPos + 12 * g.bufferLengthSamplesTrack < 2^64
  cpu : lib = .psf → g.cpuOpen = true
  endless : g.emulator.Endless

@[simp] theorem outputBytes_zero (offset : Nat) : outputBytes offset 0 = [] := rfl

@[simp] theorem outputBytes_length (offset count : Nat) : (outputBytes offset count).length = count := by
  simp [outputBytes]

theorem outputBytes_append (offset first second : Nat) :
    outputBytes offset first ++ outputBytes (offset + first) second =
      outputBytes offset (first + second) := by
  simp only [outputBytes,List.range_add,List.map_append,List.map_map]
  congr 1
  refine List.map_congr_left fun i _ => ?_
  simp [Nat.add_assoc]

theorem outputBytes_take (offset count wanted : Nat) (enough : wanted ≤ count) :
    (outputBytes offset count).take wanted = outputBytes offset wanted := by
  have split := outputBytes_append offset wanted (count - wanted)
  rw [Nat.add_sub_cancel' enough] at split
  rw [← split]
  exact List.take_left' (outputBytes_length _ _)

theorem outputBytes_inj {first second count : Nat} (positive : 0 < count)
    (same : outputBytes first count = outputBytes second count) : first = second := by
  have head := congrArg (fun bytes => bytes[0]?) same
  simpa [outputBytes,positive] using head

/-- The state between two production steps of a PSF read or seek: the FIFO stands for the
queue, and nothing is read from it. -/
structure Streams (g : Globals) (queue : BoundedQueue Byte) : Prop where
  holds : g.fifoFromLib.Holds queue
  room : g.fifoFromLib.readPos + g.fifoFromLib.size < 2^64
  cpu : g.cpuOpen = true
  endless : g.emulator.Endless

theorem sexyExecute_streams {g after : Globals} {queue : BoundedQueue Byte} {size : Nat}
    (streams : Streams g queue) (ran : sexyExecute g = some (size,after)) :
    Streams after (queue.put (outputBytes g.produced size)) ∧
      after.produced = g.produced + size ∧
      after.fifoFromLib.readPos = g.fifoFromLib.readPos ∧
      after.bufferAsShortTrack = g.bufferAsShortTrack := by
  obtain ⟨control,_,cpu,_⟩ := sexyExecute_control ran
  have open_after : after.cpuOpen = true := by rw [cpu]; exact streams.endless.stays _
  have endless : after.emulator.Endless := by rw [control.emulator]; exact streams.endless
  obtain ⟨_,⟨rfl,rfl⟩ | ⟨_,_,rfl,_⟩⟩ := sexyExecute_cases ran
  · refine ⟨?_,rfl,rfl,rfl⟩
    rw [outputBytes_zero,BoundedQueue.put_nil]
    exact ⟨streams.holds,streams.room,open_after,endless⟩
  · obtain ⟨holds,read,length⟩ := streams.holds.put (outputBytes g.produced size) streams.room
    refine ⟨⟨holds,?_,open_after,endless⟩,rfl,read,rfl⟩
    rw [read,length]
    exact streams.room

/-- The loop of `generateAudio` appends a stretch of the output, as much as asked for or
more, to the queue. -/
theorem generateLoop_streams {fuel requested internal : Nat} {g after : Globals} {result : Int}
    {queue : BoundedQueue Byte} (streams : Streams g queue)
    (ran : generateLoop fuel g requested internal = some (result,after)) :
    ∃ count, requested ≤ internal + count ∧ 0 ≤ result ∧
      Streams after (queue.put (outputBytes g.produced count)) ∧
      after.produced = g.produced + count ∧
      after.fifoFromLib.readPos = g.fifoFromLib.readPos ∧
      after.bufferAsShortTrack = g.bufferAsShortTrack := by
  induction fuel generalizing g internal queue with
  | zero => cases ran
  | succ fuel ih =>
    simp only [generateLoop,streams.cpu,if_true] at ran
    split at ran
    next short =>
      split at ran
      · cases ran
      next size middle executed =>
        obtain ⟨next_streams,produced,read,buffer⟩ := sexyExecute_streams streams executed
        obtain ⟨count,enough,fine,last,made,still,kept⟩ := ih next_streams ran
        refine ⟨size + count,by omega,fine,?_,?_,still.trans read,kept.trans buffer⟩
        · rw [← outputBytes_append,← BoundedQueue.put_put,← produced]
          exact last
        · rw [made,produced,Nat.add_assoc]
    next enough =>
      cases ran
      refine ⟨0,by omega,Int.natCast_nonneg _,?_,rfl,rfl,rfl⟩
      simpa using streams

def upcoming (emulator : Emulator) (executed : Nat) : Nat → Nat
  | 0 => 0
  | calls+1 => emulator.soundBufferSize executed + upcoming emulator (executed + 1) calls

theorem upcoming_skip (emulator : Emulator) (executed skipped calls : Nat) :
    upcoming emulator (executed + skipped) calls ≤ upcoming emulator executed (skipped + calls) := by
  induction skipped generalizing executed with
  | zero => simp
  | succ skipped ih =>
    have rest := ih (executed + 1)
    rw [Nat.add_right_comm] at rest
    rw [Nat.add_right_comm skipped 1 calls]
    simp only [upcoming,← Nat.add_assoc] at rest ⊢
    omega

theorem Emulator.Endless.delivers {emulator : Emulator} (endless : emulator.Endless)
    (executed wanted : Nat) : ∃ calls, wanted ≤ upcoming emulator executed calls := by
  induction wanted generalizing executed with
  | zero => exact ⟨0,Nat.zero_le _⟩
  | succ wanted ih =>
    obtain ⟨later,after,positive⟩ := endless.outputs executed
    obtain ⟨calls,enough⟩ := ih (later + 1)
    have skip := upcoming_skip emulator executed (later - executed) (calls + 1)
    have first : upcoming emulator later (calls + 1) =
        emulator.soundBufferSize later + upcoming emulator (later + 1) calls := rfl
    rw [Nat.add_sub_cancel' after,first] at skip
    exact ⟨later - executed + (calls + 1),by omega⟩

/-- With enough fuel the loop returns, and more fuel changes nothing. -/
theorem generateLoop_settles {g : Globals} {queue : BoundedQueue Byte} (streams : Streams g queue)
    (requested internal : Nat) :
    ∃ bound result after, ∀ fuel, bound ≤ fuel →
      generateLoop fuel g requested internal = some (result,after) := by
  obtain ⟨calls,enough⟩ := streams.endless.delivers g.executed (requested - internal)
  induction calls generalizing g internal queue with
  | zero =>
    refine ⟨1,internal,g,fun fuel positive => ?_⟩
    obtain ⟨fuel,rfl⟩ := Nat.exists_eq_add_of_le' positive
    simp only [upcoming] at enough
    have done : ¬ internal < requested := by omega
    simp [generateLoop,done]
  | succ calls ih =>
    obtain ⟨size,middle,executed⟩ := sexyExecute_some streams.holds.positive
    have outcome := sexyExecute_control executed
    have length := (sexyExecute_cases executed).1
    obtain ⟨next_streams,_⟩ := sexyExecute_streams streams executed
    simp only [upcoming,← length] at enough
    obtain ⟨bound,result,after,settled⟩ := ih next_streams (internal + size) (by
      rw [outcome.1.emulator,outcome.2.2.2]
      omega)
    by_cases short : internal < requested
    · refine ⟨bound + 1,result,after,fun fuel positive => ?_⟩
      obtain ⟨fuel,rfl⟩ := Nat.exists_eq_add_of_le' (Nat.le_of_add_left_le positive)
      simp only [generateLoop,short,streams.cpu,executed,if_true]
      exact settled fuel (by omega)
    · refine ⟨1,internal,g,fun fuel positive => ?_⟩
      obtain ⟨fuel,rfl⟩ := Nat.exists_eq_add_of_le' positive
      simp [generateLoop,short]

theorem bytesAt_two_copies {α : Type} (target : Nat → α) (first second : List α) :
    bytesAt (memcpy (memcpy target 0 first) first.length second) 0
      (first.length + second.length) = first ++ second := by
  rw [bytesAt_memcpy,bytesAt_memcpy_start]

theorem getFromFifo_holds {g : Globals} {queue : BoundedQueue Byte}
    (holds : g.fifoFromLib.Holds queue) (offset requested : Nat) :
    ∃ after, getFromFifo g offset requested = some ((queue.get requested).1.length,after) ∧
      SameControl g after ∧ after.fifoFromLib.Holds (queue.get requested).2 ∧
      after.fifoFromLib.readPos ≤ g.fifoFromLib.readPos + requested ∧
      after.produced = g.produced ∧ after.cpuOpen = g.cpuOpen ∧
      after.bufferAsShortTrack = memcpy g.bufferAsShortTrack offset (queue.get requested).1 := by
  obtain ⟨faults,outcome⟩ := getFromFifo_eq holds.positive offset requested
  obtain ⟨bytes,rest,read,_⟩ := holds.get requested
  rw [bytes] at outcome
  exact ⟨_,outcome,(getFromFifo_control outcome).1,rest,read,rfl,rfl,rfl⟩

/-- One USF render replaces the track buffer by the next stretch of the output. -/
theorem generateAudio_renders {g : Globals} (renders : g.emulator.renderError g.executed = none)
    (requested : Nat) :
    ∃ after, (∀ fuel, generateAudio .usf fuel g requested = some ((requested : Int),after)) ∧
      SameControl g after ∧ after.fifoFromLib = g.fifoFromLib ∧
      after.produced = g.produced + 4 * g.bufferLengthSamplesTrack ∧
      after.bufferAsShortTrack =
        memcpy g.bufferAsShortTrack 0 (outputBytes g.produced (4 * g.bufferLengthSamplesTrack)) := by
  obtain ⟨faults,first⟩ := pass_same g .emuState
  obtain ⟨more,second⟩ := pass_same {g with faults := faults} .bufferAsShortTrack
  have outcome : usfRenderResampled g = (none,{g with
      faults := more
      executed := g.executed + 1
      produced := g.produced + g.bufferLengthSamplesTrack * bytesPerSample
      bufferAsShortTrack := memcpy g.bufferAsShortTrack 0
        (outputBytes g.produced (g.bufferLengthSamplesTrack * bytesPerSample))}) := by
    unfold usfRenderResampled
    rw [first,second]
    dsimp only
    rw [renders]
  have bytes : g.bufferLengthSamplesTrack * bytesPerSample = 4 * g.bufferLengthSamplesTrack :=
    Nat.mul_comm _ _
  rw [bytes] at outcome
  refine ⟨(usfRenderResampled g).2,fun fuel => ?_,?_,?_,?_,?_⟩
  · rw [generateAudio,outcome]
  · rw [outcome]
    exact ⟨rfl,rfl,rfl,rfl,rfl,rfl,rfl,rfl,rfl,rfl,rfl⟩
  · rw [outcome]
  · rw [outcome]
  · rw [outcome]

/-- The bytes that the next read of a loaded track takes: what waits in the FIFO and then
the output of a PSF emulator, the next render of a USF emulator. -/
def takenNow (lib : Lib) (g : Globals) : List Byte :=
  match lib with
  | .psf => (g.fifoFromLib.content ++ outputBytes g.produced g.bufferLengthBytesTrack).take
      g.bufferLengthBytesTrack
  | .usf => outputBytes g.produced g.bufferLengthBytesTrack

theorem Loaded.fill {lib : Lib} {g : Globals} (loaded : Loaded lib g) {count : Nat}
    (short : count ≤ g.bufferLengthBytesTrack) :
    Word.sub g.bufferLengthBytesTrack count = g.bufferLengthBytesTrack - count := by
  have room := loaded.room
  apply Word.sub_of_le short
  rw [loaded.bytes]
  omega

theorem Loaded.streams {g after : Globals} {queue : BoundedQueue Byte} (loaded : Loaded .psf g)
    (control : SameControl g after) (cpu : after.cpuOpen = g.cpuOpen)
    (holds : after.fifoFromLib.Holds queue)
    (read : after.fifoFromLib.readPos ≤ g.fifoFromLib.readPos + 4 * g.bufferLengthSamplesTrack) :
    Streams after queue where
  holds := holds
  room := by
    have := loaded.room
    rw [control.fifoSize,loaded.size]
    omega
  cpu := cpu.trans (loaded.cpu rfl)
  endless := by rw [control.emulator]; exact loaded.endless

/-- The second `fifo_get` of a read finishes what the first began. -/
theorem rest_of_read {queue : BoundedQueue Byte} {count wanted : Nat} (offset : Nat)
    (room : wanted ≤ queue.capacity) (enough : wanted - (queue.get wanted).1.length ≤ count) :
    ((((queue.get wanted).2.put (outputBytes offset count)).get
        (wanted - (queue.get wanted).1.length)).1 =
      outputBytes offset (wanted - (queue.get wanted).1.length)) ∧
    (queue.get wanted).1 ++ outputBytes offset (wanted - (queue.get wanted).1.length) =
      (queue.content ++ outputBytes offset wanted).take wanted := by
  have first : (queue.get wanted).1 = queue.content.take wanted := rfl
  have left : wanted - (queue.content.take wanted).length = wanted - queue.content.length := by
    rw [List.length_take]; omega
  rw [first,left] at enough ⊢
  constructor
  · rcases Nat.le_total wanted queue.content.length with full | part
    · simp [BoundedQueue.get,Nat.sub_eq_zero_of_le full]
    · have drained : queue.content.drop wanted = [] := List.drop_eq_nil_of_le part
      simp only [BoundedQueue.get,BoundedQueue.put_content,BoundedQueue.free,drained,
        List.nil_append,List.length_nil,Nat.sub_zero,List.take_take]
      rw [Nat.min_eq_left (by omega)]
      exact outputBytes_take _ _ _ enough
  · rw [List.take_append,outputBytes_take _ _ _ (Nat.sub_le _ _)]

theorem assembleAudio_eq {lib : Lib} {fuel count rest : Nat} {g first middle last : Globals}
    {result : Int} (got : getFromFifo g 0 g.bufferLengthBytesTrack = some (count,first))
    (generated : generateAudio lib fuel first (Word.sub g.bufferLengthBytesTrack count) =
      some (result,middle)) (fine : 0 ≤ result)
    (again : getFromFifo middle count (Word.sub g.bufferLengthBytesTrack count) =
      some (rest,last)) :
    assembleAudio lib fuel g =
      some (some (bytesAt last.bufferAsShortTrack 0 g.bufferLengthBytesTrack),last) := by
  have bytes : first.bufferLengthBytesTrack = g.bufferLengthBytesTrack :=
    (getFromFifo_control got).1.bytesTrack
  have last_bytes : last.bufferLengthBytesTrack = g.bufferLengthBytesTrack :=
    (((getFromFifo_control got).1.trans (generateAudio_control generated)).trans
      (getFromFifo_control again).1).bytesTrack
  unfold assembleAudio
  rw [got]
  dsimp only
  rw [bytes,generated]
  dsimp only
  rw [if_neg (by omega),again]
  dsimp only
  rw [last_bytes]

theorem assembleAudio_none {lib : Lib} {fuel count : Nat} {g first : Globals}
    (got : getFromFifo g 0 g.bufferLengthBytesTrack = some (count,first))
    (stuck : generateAudio lib fuel first (Word.sub g.bufferLengthBytesTrack count) = none) :
    assembleAudio lib fuel g = none := by
  have bytes : first.bufferLengthBytesTrack = g.bufferLengthBytesTrack :=
    (getFromFifo_control got).1.bytesTrack
  unfold assembleAudio
  rw [got]
  dsimp only
  rw [bytes,stuck]

/-- A PSF read of a loaded track takes what waits in the FIFO and then output, and whether
it returns is up to the loop of `generateAudio`. -/
theorem assembleAudio_psf {g first : Globals} {queue : BoundedQueue Byte} {count fuel : Nat}
    (loaded : Loaded .psf g) (content : g.fifoFromLib.content = queue.content)
    (capacity : g.bufferLengthBytesTrack ≤ queue.capacity)
    (length : count = (queue.get g.bufferLengthBytesTrack).1.length)
    (got : getFromFifo g 0 g.bufferLengthBytesTrack = some (count,first))
    (streams : Streams first (queue.get g.bufferLengthBytesTrack).2)
    (produced : first.produced = g.produced)
    (buffer : first.bufferAsShortTrack =
      memcpy g.bufferAsShortTrack 0 (queue.get g.bufferLengthBytesTrack).1) :
    ∀ result middle, generateLoop fuel first (g.bufferLengthBytesTrack - count) 0 =
      some (result,middle) → ∃ after, assembleAudio .psf fuel g = some (some (takenNow .psf g),after) := by
  intro result middle ran
  have short : count ≤ g.bufferLengthBytesTrack := length ▸ queue.get_length_le _
  have fill := loaded.fill short
  obtain ⟨made,enough,fine,more,_,_,kept⟩ := generateLoop_streams streams ran
  obtain ⟨last,again,_,_,_,_,_,filled⟩ :=
    getFromFifo_holds more.holds count (g.bufferLengthBytesTrack - count)
  rw [← fill] at again
  rw [Nat.zero_add] at enough
  refine ⟨last,?_⟩
  rw [assembleAudio_eq got (by rw [fill]; exact ran) fine again,filled,kept,buffer]
  subst length
  obtain ⟨rest,whole⟩ := rest_of_read first.produced capacity enough
  rw [rest]
  have copied := bytesAt_two_copies g.bufferAsShortTrack (queue.get g.bufferLengthBytesTrack).1
    (outputBytes first.produced (g.bufferLengthBytesTrack -
      (queue.get g.bufferLengthBytesTrack).1.length))
  rw [outputBytes_length,Nat.add_sub_cancel' short] at copied
  rw [copied,whole,takenNow,content,produced]

/-- A USF read of a loaded track takes one render, whatever waits in the FIFO. -/
theorem assembleAudio_usf {g first : Globals} {queue : BoundedQueue Byte} {count : Nat}
    (loaded : Loaded .usf g) (length : count = (queue.get g.bufferLengthBytesTrack).1.length)
    (got : getFromFifo g 0 g.bufferLengthBytesTrack = some (count,first))
    (holds : first.fifoFromLib.Holds (queue.get g.bufferLengthBytesTrack).2)
    (produced : first.produced = g.produced) (fuel : Nat) :
    ∃ after, assembleAudio .usf fuel g = some (some (takenNow .usf g),after) := by
  have control := (getFromFifo_control got).1
  have short : count ≤ g.bufferLengthBytesTrack := length ▸ queue.get_length_le _
  have fill := loaded.fill short
  obtain ⟨middle,generated,_,same,_,rendered⟩ := generateAudio_renders
    (by rw [control.emulator]; exact loaded.endless.renders _)
    (g.bufferLengthBytesTrack - count) (g := first)
  rw [← fill] at generated
  rw [← same] at holds
  obtain ⟨last,again,_,_,_,_,_,filled⟩ :=
    getFromFifo_holds holds count (g.bufferLengthBytesTrack - count)
  rw [← fill] at again
  have nothing : ((queue.get g.bufferLengthBytesTrack).2.get (g.bufferLengthBytesTrack - count)).1 =
      [] := by
    rw [length]
    simp only [BoundedQueue.get,List.take_eq_nil_iff,List.drop_eq_nil_iff,List.length_take]
    omega
  refine ⟨last,?_⟩
  rw [assembleAudio_eq got (generated fuel) (Int.natCast_nonneg _) again,filled,nothing,memcpy_nil,
    rendered,takenNow,produced,control.samplesTrack,← loaded.bytes]
  have copied := bytesAt_two_copies first.bufferAsShortTrack
    (outputBytes g.produced g.bufferLengthBytesTrack) []
  rw [memcpy_nil,outputBytes_length,List.length_nil,Nat.add_zero,List.append_nil] at copied
  rw [copied]

/-- Every read of a loaded track that returns takes the bytes `takenNow` names, and with
enough fuel it returns. -/
theorem assembleAudio_takes {lib : Lib} {g : Globals} (loaded : Loaded lib g) :
    (∀ fuel taken after, assembleAudio lib fuel g = some (taken,after) →
      taken = some (takenNow lib g)) ∧
    ∃ bound, ∀ fuel, bound ≤ fuel →
      ∃ after, assembleAudio lib fuel g = some (some (takenNow lib g),after) := by
  obtain ⟨queue,holds⟩ : ∃ queue, g.fifoFromLib.Holds queue := ⟨_,loaded.valid,rfl⟩
  obtain ⟨first,got,control,drained,read,produced,cpu,buffer⟩ :=
    getFromFifo_holds holds 0 g.bufferLengthBytesTrack
  cases lib with
  | psf =>
    have capacity : g.bufferLengthBytesTrack ≤ queue.capacity := by
      rw [← holds.size,loaded.size,loaded.bytes]
      omega
    have streams := loaded.streams control cpu drained (by rw [← loaded.bytes]; exact read)
    have each (fuel : Nat) (result : Int) (middle : Globals) := @assembleAudio_psf g first queue _ fuel
      loaded holds.content capacity rfl got streams produced buffer result middle
    have fill := loaded.fill (queue.get_length_le g.bufferLengthBytesTrack)
    constructor
    · intro fuel taken after ran
      cases generated : generateLoop fuel first (g.bufferLengthBytesTrack -
          (queue.get g.bufferLengthBytesTrack).1.length) 0 with
      | none =>
        rw [assembleAudio_none got (by rw [fill]; exact generated)] at ran
        cases ran
      | some outcome =>
        obtain ⟨last,taken⟩ := each _ _ _ generated
        rw [taken] at ran
        cases ran
        rfl
    · obtain ⟨bound,result,middle,settled⟩ := generateLoop_settles streams
        (g.bufferLengthBytesTrack - (queue.get g.bufferLengthBytesTrack).1.length) 0
      exact ⟨bound,fun fuel enough => each _ _ _ (settled fuel enough)⟩
  | usf =>
    have each := assembleAudio_usf loaded rfl got drained produced
    constructor
    · intro fuel taken after ran
      obtain ⟨last,taken⟩ := each fuel
      rw [taken] at ran
      cases ran
      rfl
    · exact ⟨0,fun fuel _ => each fuel⟩

theorem Loaded.rate_ne {lib : Lib} {g : Globals} (loaded : Loaded lib g) : g.sampleRateTrack ≠ 0 := by
  rw [loaded.rate]
  cases lib with
  | psf => exact nofun
  | usf => exact loaded.device

theorem readNextSamples_takes {lib : Lib} {g : Globals} (loaded : Loaded lib g)
    (srcError : Option SrcError) :
    (∀ fuel taken after, readNextSamples lib fuel g ⟨false,srcError⟩ = some (taken,after) →
      taken = some (takenNow lib g)) ∧
    ∃ bound, ∀ fuel, bound ≤ fuel →
      ∃ after, readNextSamples lib fuel g ⟨false,srcError⟩ = some (some (takenNow lib g),after) := by
  obtain ⟨only,bound,settled⟩ := assembleAudio_takes loaded
  constructor
  · intro fuel taken after ran
    unfold readNextSamples at ran
    rw [if_neg loaded.rate_ne] at ran
    simp only [Bool.false_eq_true,if_false] at ran
    split at ran
    · cases ran
    next middle assembled => cases only _ _ _ assembled
    next bytes middle assembled =>
      rw [← only _ _ _ assembled]
      split at ran
      · cases ran; rfl
      · split at ran
        · cases ran; rfl
        · cases ran; rfl
  · refine ⟨bound,fun fuel enough => ?_⟩
    obtain ⟨middle,assembled⟩ := settled fuel enough
    unfold readNextSamples
    rw [if_neg loaded.rate_ne]
    simp only [Bool.false_eq_true,if_false,assembled]
    split
    · exact ⟨_,rfl⟩
    · split
      · exact ⟨_,rfl⟩
      · exact ⟨_,rfl⟩

namespace Loaded
variable {lib : Lib} {g after : Globals}

theorem of_room (loaded : Loaded lib g) (control : SameControl g after)
    (valid : after.fifoFromLib.Valid)
    (room : after.fifoFromLib.readPos + 12 * g.bufferLengthSamplesTrack < 2^64)
    (cpu : lib = .psf → after.cpuOpen = true) : Loaded lib after where
  device := by rw [control.sampleRateDevice]; exact loaded.device
  rate := by rw [control.sampleRateTrack,control.sampleRateDevice]; exact loaded.rate
  samples := by
    rw [control.samplesTrack,control.shortsDevice,control.sampleRateTrack,control.sampleRateDevice]
    exact loaded.samples
  frames := by rw [control.samplesTrack]; exact loaded.frames
  bytes := by rw [control.bytesTrack,control.samplesTrack]; exact loaded.bytes
  size := by rw [control.fifoSize,control.samplesTrack]; exact loaded.size
  valid := valid
  room := by rw [control.samplesTrack]; exact room
  cpu := cpu
  endless := by rw [control.emulator]; exact loaded.endless

theorem of_control (loaded : Loaded lib g) (control : SameControl g after)
    (valid : after.fifoFromLib.Valid) (read : after.fifoFromLib.readPos = g.fifoFromLib.readPos)
    (cpu : lib = .psf → after.cpuOpen = true) : Loaded lib after := by
  apply loaded.of_room control valid _ cpu
  rw [read]
  exact loaded.room

theorem addPlayed (loaded : Loaded lib g) (samples : Nat) : Loaded lib (g.addPlayed samples) := by
  obtain ⟨device,rate,samples_eq,frames,bytes,size,valid,room,cpu,endless⟩ := loaded
  constructor <;> dsimp only [Globals.addPlayed] <;> assumption

end Loaded

/-- What the next PSF read takes does not change while output is put behind what waits. -/
theorem takenNow_put {queue : BoundedQueue Byte} (offset count : Nat) {wanted : Nat}
    (room : wanted ≤ queue.capacity) :
    ((queue.put (outputBytes offset count)).content ++ outputBytes (offset + count) wanted).take
        wanted = (queue.content ++ outputBytes offset wanted).take wanted := by
  have fits := queue.fits
  rw [BoundedQueue.put_take]
  by_cases full : (queue.content ++ outputBytes offset count).length ≤ queue.capacity
  · rw [List.take_of_length_le full,List.append_assoc,outputBytes_append,List.take_append,
      List.take_append,outputBytes_take _ _ _ (by omega),outputBytes_take _ _ _ (by omega)]
  · have cut : wanted ≤ ((queue.content ++ outputBytes offset count).take queue.capacity).length := by
      rw [List.length_take]
      omega
    rw [List.length_append,outputBytes_length] at full
    rw [List.take_append_of_le_length cut,List.take_take,Nat.min_eq_left room,List.take_append,
      List.take_append,outputBytes_take _ _ _ (by omega),outputBytes_take _ _ _ (by omega)]

/-- One step of a seek: a PSF emulator leaves the next read as it was, a USF emulator
renders one buffer. -/
theorem generateAudio_loaded {lib : Lib} {fuel requested : Nat} {g after : Globals} {result : Int}
    (loaded : Loaded lib g) (ran : generateAudio lib fuel g requested = some (result,after)) :
    Loaded lib after ∧ (lib = .psf → takenNow lib after = takenNow lib g) ∧
      (lib = .usf → after.produced = g.produced + 4 * g.bufferLengthSamplesTrack) := by
  have control := generateAudio_control ran
  cases lib with
  | psf =>
    obtain ⟨queue,holds⟩ : ∃ queue, g.fifoFromLib.Holds queue := ⟨_,loaded.valid,rfl⟩
    have streams := loaded.streams (SameControl.refl g) rfl holds (Nat.le_add_right _ _)
    obtain ⟨count,_,_,more,produced,read,_⟩ := generateLoop_streams streams ran
    have capacity : g.bufferLengthBytesTrack ≤ queue.capacity := by
      rw [← holds.size,loaded.size,loaded.bytes]
      omega
    obtain ⟨valid,_⟩ := id more.holds
    refine ⟨loaded.of_control control valid read fun _ => more.cpu,fun _ => ?_,nofun⟩
    simp only [takenNow]
    rw [more.holds.content,produced,control.bytesTrack,takenNow_put _ _ capacity,holds.content]
  | usf =>
    obtain ⟨last,generated,_,fifo,produced,_⟩ :=
      generateAudio_renders (loaded.endless.renders g.executed) requested
    rw [generated fuel] at ran
    cases ran
    refine ⟨loaded.of_control control ?_ ?_ nofun,nofun,fun _ => produced⟩
    · rw [fifo]; exact loaded.valid
    · rw [fifo]

theorem generateAudio_settles {lib : Lib} {g : Globals} (loaded : Loaded lib g) (requested : Nat) :
    ∃ bound result after, ∀ fuel, bound ≤ fuel →
      generateAudio lib fuel g requested = some (result,after) := by
  cases lib with
  | psf =>
    obtain ⟨queue,holds⟩ : ∃ queue, g.fifoFromLib.Holds queue := ⟨_,loaded.valid,rfl⟩
    exact generateLoop_settles
      (loaded.streams (SameControl.refl g) rfl holds (Nat.le_add_right _ _)) requested 0
  | usf =>
    obtain ⟨last,generated,_⟩ :=
      generateAudio_renders (loaded.endless.renders g.executed) requested
    exact ⟨0,_,last,fun fuel _ => generated fuel⟩

def loadedSamples (lib : Lib) (rate bufferSize : Nat) : Nat :=
  samplesAtTrackRate (bufferSize / shortsPerSample) (trackRate lib rate) rate

theorem finishLoad_loaded {lib : Lib} {ready : Globals} {emulator : Emulator} {rate bufferSize : Nat}
    (device : ready.sampleRateDevice = rate) (shorts : ready.bufferLengthShortsDevice = bufferSize)
    (samples : ready.bufferLengthSamplesDevice = bufferSize / shortsPerSample) (positive : rate ≠ 0)
    (frames : 0 < loadedSamples lib rate bufferSize)
    (room : 12 * loadedSamples lib rate bufferSize < 2^64)
    (cpu : lib = .psf → ready.cpuOpen = true) (endless : emulator.Endless) :
    let after := finishLoad (trackRate lib rate) emulator ready
    Loaded lib after ∧ after.bufferLengthSamplesTrack = loadedSamples lib rate bufferSize ∧
      after.fifoFromLib.content = [] ∧ after.produced = 0 := by
  have length : (finishLoad (trackRate lib rate) emulator ready).bufferLengthSamplesTrack =
      loadedSamples lib rate bufferSize := by
    simp only [finishLoad,setHandle,samples,device,loadedSamples]
  have bytes : (finishLoad (trackRate lib rate) emulator ready).bufferLengthBytesTrack =
      4 * loadedSamples lib rate bufferSize := by
    simp only [finishLoad,setHandle,samples,device]
    rw [Word.mul_of_lt (by unfold loadedSamples at room; unfold bytesPerSample; omega),
      Nat.mul_comm]
    rfl
  have fifo : (finishLoad (trackRate lib rate) emulator ready).fifoFromLib =
      Fifo.fifoInit (8 * loadedSamples lib rate bufferSize) noMemory := by
    have double : (finishLoad (trackRate lib rate) emulator ready).fifoFromLib = Fifo.fifoInit
        (Word.mul (finishLoad (trackRate lib rate) emulator ready).bufferLengthBytesTrack 2)
          noMemory := by
      simp only [finishLoad,setHandle]
    rw [double,bytes,Word.mul_of_lt (by omega)]
    congr 1
    omega
  refine ⟨?_,length,by rw [fifo]; rfl,by simp only [finishLoad,setHandle]⟩
  constructor
  · simpa only [finishLoad,setHandle,device] using positive
  · simp only [finishLoad,setHandle,device]
  · rw [length]
    simp only [finishLoad,setHandle,device,shorts,loadedSamples]
  · rw [length]; exact frames
  · rw [bytes,length]
  · rw [fifo,length]; rfl
  · rw [fifo]
    exact Fifo.init_valid _ _ (by omega) (by omega)
  · rw [fifo,length]
    simp only [Fifo.fifoInit]
    omega
  · simpa only [finishLoad,setHandle] using cpu
  · simpa only [finishLoad,setHandle] using endless

/-- A load that succeeds with an endless emulator gives a loaded track. -/
theorem loadFileInternal_loaded {lib : Lib} {rate bufferSize : Nat} {reply : LoadReply}
    {emulator : Emulator} (g : Globals) (fadeTimeMs : Nat) (positive : rate ≠ 0)
    (accepted : reply.emulator = some emulator) (endless : emulator.Endless)
    (frames : 0 < loadedSamples lib rate bufferSize)
    (room : 12 * loadedSamples lib rate bufferSize < 2^64) :
    ∃ after, loadFileInternal lib g rate bufferSize fadeTimeMs reply = some after ∧
      Loaded lib after ∧ after.bufferLengthSamplesTrack = loadedSamples lib rate bufferSize ∧
      after.fifoFromLib.content = [] ∧ after.produced = 0 := by
  obtain ⟨_,_,_,_,_,ready⟩ := prepareLoad_same lib g rate bufferSize fadeTimeMs
  cases lib with
  | psf =>
    rw [loadFileInternal,if_neg positive]
    dsimp only
    rw [accepted]
    refine ⟨_,rfl,?_⟩
    rw [ready]
    exact @finishLoad_loaded .psf _ _ _ _ rfl rfl rfl positive frames room (fun _ => rfl) endless
  | usf =>
    obtain ⟨compare,full,outcome⟩ := loadFileInternal_usf g positive bufferSize fadeTimeMs reply
    rw [outcome,accepted,ready]
    refine ⟨_,rfl,?_⟩
    exact @finishLoad_loaded .usf _ _ _ _ rfl rfl rfl positive frames room
      (by intro same; cases same) endless

end Chipbox.Native
