import Chipbox.Foundation.Run
import Chipbox.Usf.Render
import Mathlib.Data.List.Basic
import Mathlib.Tactic.Common

/-! The way of the samples from the emulator to the resampler: none is lost, doubled or moved. -/
namespace Chipbox.Usf

open Native (memcpy bytesAt bytesAt_zero bytesAt_length bytesAt_add bytesAt_memcpy bytesAt_memcpy_start)

section Copies
variable {α : Type}

theorem bytesAt_copied (target source : Nat → α) (offset count : Nat) :
    bytesAt (memcpy target 0 (bytesAt source offset count)) 0 count = bytesAt source offset count := by
  have copied := bytesAt_memcpy_start target (bytesAt source offset count)
  rwa [bytesAt_length] at copied

/-- What is taken from the front of a buffer, and the rest that is moved there. -/
theorem bytesAt_moved (source : Nat → α) {taken count : Nat} (bound : taken ≤ count) :
    bytesAt source 0 taken ++ bytesAt (memcpy source 0 (bytesAt source taken (count - taken))) 0 (count - taken) =
      bytesAt source 0 count := by
  have split := bytesAt_add source 0 taken (count - taken)
  rw [Nat.add_sub_cancel' bound,Nat.zero_add] at split
  rw [bytesAt_copied,split]

end Copies

namespace Sink

def held (s : Sink) : List Frame := bytesAt s.buffer 0 s.written ++ bytesAt s.samplebuf 0 s.samplesInBuffer

def Orderly (s : Sink) : Prop := s.sampleBufferCount = 0 ∨ s.samplesInBuffer = 0

structure Took (s t : Sink) (frames : List Frame) : Prop where
  held : t.held = s.held ++ frames.map Prod.swap
  orderly : t.Orderly
  filled : t.written + t.sampleBufferCount = s.written + s.sampleBufferCount
  room : t.sampleBufferCount = s.sampleBufferCount - frames.length
  waiting : t.samplesInBuffer = s.samplesInBuffer + (frames.length - s.sampleBufferCount)

end Sink

theorem pushAudioSamples_took {s : Sink} (orderly : s.Orderly) {frames : List Frame}
    (fits : frames.length ≤ s.sampleBufferCount + (samplebufSize - s.samplesInBuffer)) :
    s.Took (pushAudioSamples s frames) frames := by
  by_cases small : frames.length ≤ s.sampleBufferCount
  · -- The buffer takes all.
    have todo : min frames.length s.sampleBufferCount = frames.length := min_eq_left small
    have copied := bytesAt_memcpy s.buffer s.written (frames.map Prod.swap)
    rw [List.length_map] at copied
    simp only [pushAudioSamples,todo,List.drop_length,List.take_length,List.length_nil,if_true]
    refine ⟨?_,?_,?_,rfl,?_⟩
    · rw [Sink.held,copied]
      obtain full | none := orderly
      · have empty : frames = [] := List.length_eq_zero_iff.mp (by omega)
        subst empty
        rw [List.map_nil,List.append_nil,List.append_nil]
        rfl
      · rw [Sink.held,none,bytesAt_zero,List.append_nil,List.append_nil]
    · obtain full | none := orderly
      · exact .inl (by dsimp only; omega)
      · exact .inr none
    · dsimp only
      omega
    · dsimp only
      omega
  · -- The buffer is filled, and the rest waits.
    have todo : min frames.length s.sampleBufferCount = s.sampleBufferCount := min_eq_right (by omega)
    have rest : (frames.drop s.sampleBufferCount).length = frames.length - s.sampleBufferCount :=
      List.length_drop
    have waits : min (frames.drop s.sampleBufferCount).length (samplebufSize - s.samplesInBuffer) =
        (frames.drop s.sampleBufferCount).length := min_eq_left (by rw [rest]; omega)
    have first := bytesAt_memcpy s.buffer s.written ((frames.take s.sampleBufferCount).map Prod.swap)
    rw [List.length_map,List.length_take,Nat.min_eq_left (by omega)] at first
    have second := bytesAt_memcpy s.samplebuf s.samplesInBuffer ((frames.drop s.sampleBufferCount).map Prod.swap)
    rw [List.length_map] at second
    simp only [pushAudioSamples,todo,waits,List.take_length]
    rw [if_neg (by omega)]
    refine ⟨?_,.inl (Nat.sub_self _),?_,?_,?_⟩
    · rw [Sink.held,first,second,Sink.held]
      have whole : frames.map Prod.swap = (frames.take s.sampleBufferCount).map Prod.swap ++
          (frames.drop s.sampleBufferCount).map Prod.swap := by
        rw [← List.map_append,List.take_append_drop]
      rw [whole]
      obtain full | none := orderly
      · rw [full,List.take_zero,List.map_nil,List.append_nil,List.nil_append,List.append_assoc]
      · rw [none,bytesAt_zero,List.nil_append,List.append_nil,List.append_assoc]
    · dsimp only
      omega
    · dsimp only
      omega
    · dsimp only
      rw [rest]

theorem pushes_took {pushes : List (List Frame)} : ∀ {s : Sink}, s.Orderly →
    pushes.flatten.length ≤ s.sampleBufferCount + (samplebufSize - s.samplesInBuffer) →
    s.samplesInBuffer ≤ samplebufSize → s.Took (pushes.foldl pushAudioSamples s) pushes.flatten := by
  induction pushes with
  | nil =>
    intro s orderly fits small
    exact ⟨(List.append_nil _).symm,orderly,rfl,rfl,by simp⟩
  | cons frames pushes ih =>
    intro s orderly fits small
    rw [List.flatten_cons,List.length_append] at fits
    have first := pushAudioSamples_took orderly (by omega : frames.length ≤ _)
    have room := first.room
    have waiting := first.waiting
    have rest := @ih (pushAudioSamples s frames) first.orderly (by omega) (by omega)
    rw [List.foldl_cons,List.flatten_cons]
    refine ⟨?_,rest.orderly,rest.filled.trans first.filled,?_,?_⟩
    · rw [rest.held,first.held,List.map_append,List.append_assoc]
    · rw [rest.room,room,List.length_append]
      omega
    · rw [rest.waiting,waiting,room,List.length_append]
      omega

/-- A start of the emulator pushes more than there is room for, which stops it, and what is left of it
fits in `samplebuf`, whose overflow `usf_push_audio_samples` only reports. -/
def MainRun.Fits (mainRun : MainRun) : Prop := ∀ starts room,
  room < (mainRun starts room).flatten.length ∧ (mainRun starts room).flatten.length ≤ room + samplebufSize

variable {Resampler : Type} {calls : ResamplerCalls Resampler} {mainRun : MainRun}

/-- A rendering puts the frames that waited, and new ones behind them, into the buffer; the last of
the new ones wait. -/
structure Rendered (s t : UsfState Resampler) (buffer : Nat → Frame) (count : Nat) (audio : List Frame) : Prop where
  pushed : t.pushed = s.pushed ++ audio
  order : bytesAt buffer 0 count ++ bytesAt t.samplebuf 0 t.samplesInBuffer =
    bytesAt s.samplebuf 0 s.samplesInBuffer ++ audio.map Prod.swap
  small : t.samplesInBuffer ≤ samplebufSize
  fed : t.fed = s.fed

theorem usfRender_rendered (fits : mainRun.Fits) {s : UsfState Resampler} (small : s.samplesInBuffer ≤ samplebufSize)
    (buffer : Nat → Frame) (count : Nat) : ∃ audio,
      Rendered s (usfRender mainRun s buffer count).1 (usfRender mainRun s buffer count).2 count audio := by
  by_cases enough : count < s.samplesInBuffer
  · -- What waits is enough.
    have doMax : min s.samplesInBuffer count = count := min_eq_right enough.le
    have left : s.samplesInBuffer - count ≠ 0 := by omega
    refine ⟨[],?_⟩
    simp only [usfRender,doMax]
    rw [if_pos left]
    refine ⟨(List.append_nil _).symm,?_,by dsimp only; omega,rfl⟩
    dsimp only
    rw [bytesAt_copied,bytesAt_moved s.samplebuf enough.le,List.map_nil,List.append_nil]
  · -- All that waits goes first, and the emulator runs.
    have doMax : min s.samplesInBuffer count = s.samplesInBuffer := min_eq_left (by omega)
    obtain ⟨beyond,most⟩ := fits s.starts (count - s.samplesInBuffer)
    refine ⟨(mainRun s.starts (count - s.samplesInBuffer)).flatten,?_⟩
    simp only [usfRender,doMax]
    rw [if_neg (by omega)]
    have took := @pushes_took (mainRun s.starts (count - s.samplesInBuffer))
      ⟨memcpy buffer 0 (bytesAt s.samplebuf 0 s.samplesInBuffer),s.samplesInBuffer,count - s.samplesInBuffer,
        s.samplebuf,0,false⟩ (.inr rfl) most (Nat.zero_le _)
    have room := took.room
    have waiting := took.waiting
    have filled := took.filled
    dsimp only at room waiting filled
    rw [room,Nat.sub_eq_zero_of_le beyond.le,Nat.add_zero,Nat.add_sub_cancel' (Nat.le_of_not_lt enough)] at filled
    have held := took.held
    rw [Sink.held,Sink.held,filled,bytesAt_copied,bytesAt_zero,List.append_nil] at held
    exact ⟨rfl,held,by dsimp only; omega,rfl⟩

/-- All that the emulator pushed was given to the resampler, or waits before it, in order. -/
structure Whole (s : UsfState Resampler) : Prop where
  audio : s.fed ++ bytesAt s.samplebuf2 0 s.samplesInBuffer2 ++ bytesAt s.samplebuf 0 s.samplesInBuffer =
    s.pushed.map Prod.swap
  small : s.samplesInBuffer ≤ samplebufSize

theorem feed_whole {fuel : Nat} : ∀ {s t : UsfState Resampler}, Whole s → feed calls fuel s = some t → Whole t := by
  induction fuel with
  | zero =>
    intro s t whole ran
    cases ran
  | succ fuel ih =>
    intro s t whole ran
    rw [feed] at ran
    dsimp only at ran
    split at ran
    · refine ih ?_ ran
      refine ⟨?_,whole.small⟩
      have bound : min (calls.getFreeCount s.resampler) s.samplesInBuffer2 ≤ s.samplesInBuffer2 := min_le_right _ _
      rw [List.append_assoc s.fed,bytesAt_moved s.samplebuf2 bound]
      exact whole.audio
    · cases ran
      exact whole

theorem drain_whole {count : Nat} : ∀ {s : UsfState Resampler} {out : List Frame}, Whole s →
    Whole (drain calls count s out).1 := by
  induction count with
  | zero => exact fun whole => whole
  | succ count ih =>
    intro s out whole
    rw [drain]
    dsimp only
    split
    · exact ih ⟨whole.audio,whole.small⟩
    · exact ⟨whole.audio,whole.small⟩

theorem usfRenderResampled_whole (fits : mainRun.Fits) {fuel : Nat} : ∀ {s : UsfState Resampler} {count : Nat}
    {out : List Frame} {result : UsfState Resampler × List Frame}, Whole s →
    usfRenderResampled calls mainRun fuel s count out = some result → Whole result.1 := by
  induction fuel with
  | zero =>
    intro s count out result whole ran
    cases count with
    | zero =>
      cases ran
      exact whole
    | succ count => cases ran
  | succ fuel ih =>
    intro s count out result whole ran
    cases count with
    | zero =>
      cases ran
      exact whole
    | succ count =>
      rw [usfRenderResampled] at ran
      obtain ⟨t,fedAll,ran⟩ := Option.bind_eq_some_iff.mp ran
      have drained := @drain_whole Resampler calls (count + 1) t out (feed_whole whole fedAll)
      dsimp only at ran
      split at ran
      · cases ran
        exact drained
      · split at ran
        · exact ih drained ran
        · rename_i empty
          obtain ⟨audio,rendered⟩ := usfRender_rendered fits drained.small
            (drain calls (count + 1) t out).1.samplebuf2 samplebuf2Size
          refine ih ?_ ran
          refine ⟨?_,rendered.small⟩
          have before := drained.audio
          rw [not_not.mp empty,bytesAt_zero,List.append_nil] at before
          dsimp only
          rw [rendered.fed,rendered.pushed,List.append_assoc,rendered.order,← List.append_assoc,before,
            List.map_append]

/-- Whatever is rendered, the resampler was given the frames that the emulator pushed, with their channels
in order, and those it was not given yet wait in two buffers. -/
theorem render_whole (fits : mainRun.Fits) (resampler : Resampler) {fuel : Nat} {counts : List Nat}
    {s : UsfState Resampler} (run : Run.exec (render calls mainRun fuel) (initial resampler) counts = some s) :
    s.fed ++ bytesAt s.samplebuf2 0 s.samplesInBuffer2 ++ bytesAt s.samplebuf 0 s.samplesInBuffer =
      s.pushed.map Prod.swap := by
  have whole : Whole s := by
    refine Run.invariant_of_step ?_ ⟨rfl,Nat.zero_le _⟩ run
    intro before count after whole rendered
    obtain ⟨result,ran,rfl⟩ := Option.map_eq_some_iff.mp rendered
    exact usfRenderResampled_whole fits whole ran
  exact whole.audio

def queue : ResamplerCalls (List Frame) where
  getFreeCount frames := 2 - frames.length
  writeSample frames frame := frames ++ [frame]
  getSampleCount frames := (frames.length,frames)
  getSample frames := (frames.headD (0,0),frames.tail)
  setRate frames := frames

/-- An emulator that always pushes one frame more than there is room for. -/
def steady : MainRun := fun _ room => [List.replicate (room + 1) (1,2)]

theorem render_whole_queue : ∃ s, Run.exec (render queue steady 9) (initial []) [1,2] = some s ∧
    s.fed ++ bytesAt s.samplebuf2 0 s.samplesInBuffer2 ++ bytesAt s.samplebuf 0 s.samplesInBuffer =
      s.pushed.map Prod.swap := by
  obtain ⟨s,run⟩ : ∃ s, Run.exec (render queue steady 9) (initial []) [1,2] = some s := ⟨_,rfl⟩
  refine ⟨s,run,render_whole ?_ [] run⟩
  intro starts room
  simp only [steady,List.flatten_singleton,List.length_replicate,samplebufSize]
  omega

end Chipbox.Usf
