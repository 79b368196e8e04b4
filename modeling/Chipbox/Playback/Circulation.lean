import Chipbox.Playback.Pool

/-! When buffers are lost from circulation while playback goes on. -/
namespace Chipbox.Playback
variable {Id : Type}

/-- The buffer that the reader has polled from `emptyBuffers`. -/
def ReaderPc.polled : ReaderPc Id → Option AudioBuffer
  | .read b | .readEnd b | .getLastError b | .checkState b | .checkOver b | .put b => some b
  | _ => none

namespace Pipeline

def NoError (s : Pipeline Id) : Label Id → Prop
  | .reader answers => (∃ b, s.readerPc = .getLastError b) → answers.getLastError = none
  | _ => True

def KeepsPolled (bufferCount : Nat) (s : Pipeline Id) (label : Label Id) : Prop :=
  ∀ t, s.next bufferCount label = some t → ∀ b, s.readerPc.polled = some b →
    (∃ same, t.readerPc.polled = some same ∧ same.id = b.id) ∨
      t.fullBuffers = s.fullBuffers ++ [b]

/-- A track is playing when the reader reads, and no VGM track is over right after. -/
def ReadsOn (s : Pipeline Id) : Label Id → Prop
  | .reader answers =>
    match s.readerPc with
    | .read _ => s.playingTrackId ≠ none
    | .checkOver _ => ¬ (s.backend.map Backend.impl = some .vgm ∧ answers.isTrackOver = true)
    | _ => True
  | _ => True

/-- Where the writer finds `emptyBuffers` full, enough buffers are elsewhere when it comes to
clear `fullBuffers`. -/
def ClearsSpare (bufferCount : Nat) (s : Pipeline Id) : Label Id → Prop
  | .writer _ =>
    match s.writerPc with
    | .clearAll _ => bufferCount + s.fullBuffers.length ≤ s.buffers.length
    | _ => True
  | _ => True

/-- The reader keeps what it has polled, or puts it, exactly when it reads on. -/
theorem keepsPolled_iff {bufferCount : Nat} {s t : Pipeline Id} {label : Label Id}
    (playing : s.state = .playing) (noError : s.NoError label)
    (taken : s.next bufferCount label = some t) :
    s.KeepsPolled bufferCount label ↔ s.ReadsOn label := by
  have here : s.KeepsPolled bufferCount label ↔ ∀ b, s.readerPc.polled = some b →
      (∃ same, t.readerPc.polled = some same ∧ same.id = b.id) ∨
        t.fullBuffers = s.fullBuffers ++ [b] := by
    unfold KeepsPolled
    rw [taken]
    exact ⟨fun keeps => keeps t rfl,fun keeps u same => by cases same; exact keeps⟩
  rw [here]
  cases label with
  | writer timeout =>
    rw [(writerStep_reader taken).1]
    exact iff_of_true (fun b held => .inl ⟨b,held,rfl⟩) trivial
  | user command =>
    cases Option.some.inj taken
    rw [(s.command_places command).readerPc]
    exact iff_of_true (fun b held => .inl ⟨b,held,rfl⟩) trivial
  | reader answers =>
    simp only [next,readerStep] at taken
    cases pc : s.readerPc with
    | read b =>
      simp only [pc] at taken
      cases taken
      by_cases untitled : s.playingTrackId = none
      · simp [ReadsOn,pc,ReaderPc.polled,untitled]
      · simp [ReadsOn,pc,ReaderPc.polled,untitled]
    | readEnd b =>
      simp only [pc] at taken
      simp only [ReadsOn,pc,iff_true]
      split at taken
      all_goals
        cases taken
        rintro _ ⟨⟩
        exact .inl ⟨_,rfl,rfl⟩
    | getLastError b =>
      simp only [pc] at taken
      cases taken
      simp [ReadsOn,pc,ReaderPc.polled,noError ⟨b,pc⟩]
    | checkState b =>
      simp only [pc] at taken
      cases taken
      simp [ReadsOn,pc,ReaderPc.polled,playing]
    | checkOver b =>
      simp only [pc] at taken
      cases taken
      by_cases ended : s.backend.map Backend.impl = some .vgm ∧ answers.isTrackOver = true
      · simp [ReadsOn,pc,ReaderPc.polled,ended]
      · simp only [ReadsOn,pc,ReaderPc.polled,ended,if_false,not_false_eq_true,iff_true]
        rintro _ ⟨⟩
        exact .inl ⟨_,rfl,rfl⟩
    | put b =>
      simp only [pc] at taken
      split at taken
      · cases taken
        simp [ReadsOn,pc,ReaderPc.polled]
      · cases taken
    | _ => simp [ReadsOn,pc,ReaderPc.polled]

/-- Where the reader comes from a reset for a track, or from a buffer that `emptyBuffers` did
not take, `emptyBuffers` is full. -/
def Stocked (bufferCount : Nat) (s : Pipeline Id) : Prop :=
  match s.readerPc with
  | .teardown _ _ | .clearAll _ => bufferCount ≤ s.emptyBuffers.length
  | _ => True

theorem readerStep_stocked {bufferCount : Nat} {s t : Pipeline Id} {answers : Answers Id}
    (taken : s.readerStep bufferCount answers = some t) : t.Stocked bufferCount := by
  have after (next : AfterReset Id) (full : ¬ s.emptyBuffers.length < bufferCount) :
      ({s with readerPc := next.pc} : Pipeline Id).Stocked bufferCount := by
    cases next with
    | load trackId track => exact Nat.le_of_not_lt full
    | finish => trivial
  unfold readerStep at taken
  repeat' split at taken
  all_goals cases taken
  all_goals first
    | exact trivial
    | exact after _ (by assumption)
    | exact Nat.le_of_not_lt (by assumption)

theorem next_stocked {bufferCount : Nat} {s t : Pipeline Id} {label : Label Id}
    (stocked : s.Stocked bufferCount) (taken : s.next bufferCount label = some t) :
    t.Stocked bufferCount := by
  cases label with
  | reader answers => exact readerStep_stocked taken
  | writer timeout =>
    have readerPc := (writerStep_reader taken).1
    have grown : s.emptyBuffers.length ≤ t.emptyBuffers.length := by
      cases writerStep_moves taken with
      | giveEmpty _ _ _ more => rw [more,List.length_append]; exact Nat.le_add_right _ _
      | _ => exact Nat.le_of_eq (by congr 1; symm; assumption)
    unfold Stocked at *
    rw [readerPc]
    split at stocked
    · exact Nat.le_trans stocked grown
    · exact Nat.le_trans stocked grown
    · trivial
  | user command =>
    cases Option.some.inj taken
    have same := s.command_places command
    unfold Stocked at *
    rw [same.readerPc,same.empties]
    exact stocked

theorem next_calm {bufferCount : Nat} {s t : Pipeline Id} {label : Label Id}
    (calm : s.interrupted = false) (before : s.state = .playing) (after : t.state = .playing)
    (taken : s.next bufferCount label = some t) : t.interrupted = false := by
  have stops : s.stop.state ≠ .playing := by simp [stop,before]
  cases label with
  | reader answers =>
    simp only [next,readerStep] at taken
    repeat' split at taken
    all_goals cases taken
    all_goals first
      | exact calm
      | exact absurd after stops
  | writer timeout =>
    simp only [next,writerStep] at taken
    repeat' split at taken
    all_goals cases taken
    all_goals first
      | exact calm
      | rfl
  | user command =>
    cases Option.some.inj taken
    cases command with
    | pause => simp [Pipeline.command,pause,before] at after
    | stop => exact absurd after stops
    | startTrackless => exact calm
    | queueTrack trackId => unfold Pipeline.command; dsimp only; split <;> exact calm
    | seek seekPosition => unfold Pipeline.command; dsimp only; split <;> exact calm

/-- Enough buffers are in circulation, and nothing is about to take one out. -/
structure Circulates (bufferCount : Nat) (s : Pipeline Id) : Prop where
  total : bufferCount ≤ s.buffers.length
  stocked : s.Stocked bufferCount
  calm : s.interrupted = false

theorem empties_le_buffers (s : Pipeline Id) : s.emptyBuffers.length ≤ s.buffers.length := by
  simp only [buffers,List.length_append]
  omega

def PlaysOn (bufferCount : Nat) (s : Pipeline Id) (label : Label Id) : Prop :=
  (s.state = .playing ∧ ∀ t, s.next bufferCount label = some t → t.state = .playing) ∧
    s.NoError label ∧ s.ReadsOn label

theorem readerStep_total {bufferCount : Nat} {s t : Pipeline Id} {answers : Answers Id}
    (circulates : Circulates bufferCount s) (plays : s.PlaysOn bufferCount (.reader answers))
    (taken : s.readerStep bufferCount answers = some t) : bufferCount ≤ t.buffers.length := by
  obtain ⟨total,stocked,_⟩ := circulates
  obtain ⟨⟨playing,_⟩,noError,readsOn⟩ := plays
  have balance := readerMove_balance (readerStep_moves taken) (readerStep_writerPc taken) fun _ => 1
  simp only [weight_one] at balance
  rcases balance with ⟨same,_⟩ | ⟨grown,_⟩ | ⟨b,why,empties,_⟩ | ⟨⟨trackId,pc⟩,empties,_⟩
  · omega
  · omega
  · cases why with
    | full _ enough =>
      rw [← empties] at enough
      exact Nat.le_trans enough t.empties_le_buffers
    | untitled pc untitled =>
      simp only [ReadsOn,pc] at readsOn
      exact absurd untitled readsOn
    | failed pc error => exact absurd (noError ⟨b,pc⟩) error
    | halted pc halted => exact absurd playing halted
    | ended pc vgm ended =>
      simp only [ReadsOn,pc] at readsOn
      exact absurd ⟨vgm,ended⟩ readsOn
  · simp only [Stocked,pc] at stocked
    rw [← empties] at stocked
    exact Nat.le_trans stocked t.empties_le_buffers

theorem writerStep_total {bufferCount : Nat} {s t : Pipeline Id} {timeout : Bool}
    (circulates : Circulates bufferCount s) (taken : s.writerStep bufferCount timeout = some t) :
    bufferCount ≤ t.buffers.length ↔ s.ClearsSpare bufferCount (.writer timeout) := by
  obtain ⟨total,_,calm⟩ := circulates
  by_cases clears : ∃ held, s.writerPc = .clearAll held
  · obtain ⟨held,pc⟩ := clears
    simp only [writerStep,pc] at taken
    cases taken
    simp only [ClearsSpare,pc,buffers,hands_afterClear,List.length_append,List.length_nil]
    have held_hands : (WriterPc.clearAll held).hands = held.toList := rfl
    rw [held_hands]
    omega
  · have spare : s.ClearsSpare bufferCount (.writer timeout) := by
      cases pc : s.writerPc with
      | clearAll held => exact absurd ⟨held,pc⟩ clears
      | _ => simp only [ClearsSpare,pc]
    refine iff_of_true ?_ spare
    have balance := writerMove_balance (writerStep_moves taken) (writerStep_reader taken).1 fun _ => 1
    simp only [weight_one] at balance
    rcases balance with same | ⟨b,why,empties,_⟩ | ⟨held,pc,_⟩
    · omega
    · rcases why with ⟨_,_,enough⟩ | ⟨_,interrupted⟩
      · rw [← empties] at enough
        exact Nat.le_trans enough t.empties_le_buffers
      · rw [calm] at interrupted
        cases interrupted
    · exact absurd ⟨held,pc⟩ clears

theorem next_circulates {bufferCount : Nat} {s t : Pipeline Id} {label : Label Id}
    (circulates : Circulates bufferCount s) (plays : s.PlaysOn bufferCount label)
    (taken : s.next bufferCount label = some t) :
    bufferCount ≤ t.buffers.length ↔ s.ClearsSpare bufferCount label := by
  cases label with
  | reader answers => exact iff_of_true (readerStep_total circulates plays taken) trivial
  | writer timeout => exact writerStep_total circulates taken
  | user command =>
    refine iff_of_true ?_ trivial
    cases Option.some.inj taken
    have same := s.command_weight command fun _ => 1
    rw [weight_one,weight_one] at same
    rw [same]
    exact circulates.total

/-- While the state stays playing and no error is reported: the reader keeps every buffer it
polls and, from the first track's reset on, `bufferCount` buffers stay in circulation exactly
when the reader reads on in every step and the writer clears only spare buffers. -/
theorem circulation_iff {bufferCount : Nat} {start middle finish : Pipeline Id}
    {first rest : List (Label Id)} (begins : start.Begins)
    (before : Run.exec (next bufferCount) start first = some middle)
    (loads : ∃ trackId track, middle.readerPc = .teardown trackId track)
    (after : Run.exec (next bufferCount) middle rest = some finish)
    (playing : Run.Always (next bufferCount) (fun s => s.state = .playing) start (first ++ rest))
    (noError : Run.Meets (next bufferCount) NoError start (first ++ rest)) :
    (Run.Meets (next bufferCount) (KeepsPolled bufferCount) start (first ++ rest) ∧
      Run.Always (next bufferCount) (fun s => bufferCount ≤ s.buffers.length) middle rest) ↔
    (Run.Meets (next bufferCount) ReadsOn start (first ++ rest) ∧
      Run.Meets (next bufferCount) (ClearsSpare bufferCount) middle rest) := by
  have run := (Run.exec_append first rest).mpr ⟨middle,before,after⟩
  have undisturbed := Run.meets_and.mpr ⟨Run.meets_of_always playing,noError⟩
  have reads := Run.meets_iff_among (fun s label t allowed taken =>
    keepsPolled_iff allowed.1.1 allowed.2 taken) run undisturbed
  rw [reads]
  refine and_congr_right fun readsOn => ?_
  have plays : Run.Meets (next bufferCount) (PlaysOn bufferCount) start (first ++ rest) :=
    Run.meets_and.mpr ⟨Run.meets_of_always playing,Run.meets_and.mpr ⟨noError,readsOn⟩⟩
  obtain ⟨plays_first,plays_rest⟩ := (Run.meets_append first rest before).mp plays
  have kept (s : Pipeline Id) (label : Label Id) (t : Pipeline Id)
      (held : s.Stocked bufferCount ∧ s.interrupted = false) (allowed : s.PlaysOn bufferCount label)
      (taken : s.next bufferCount label = some t) :
      t.Stocked bufferCount ∧ t.interrupted = false :=
    ⟨next_stocked held.1 taken,next_calm held.2 allowed.1.1 (allowed.1.2 t taken) taken⟩
  have stocked_start : start.Stocked bufferCount := by
    rw [Stocked,begins.reader]
    trivial
  obtain ⟨stocked,calm⟩ :=
    Run.guarded_invariant kept ⟨stocked_start,begins.interrupted⟩ before plays_first
  have base : Circulates bufferCount middle := by
    obtain ⟨trackId,track,pc⟩ := loads
    refine ⟨?_,stocked,calm⟩
    simp only [Stocked,pc] at stocked
    exact Nat.le_trans stocked middle.empties_le_buffers
  refine Run.always_iff_meets_among (fun s circulates => circulates.total)
    (fun s label t circulates allowed spare taken => ?_)
    (fun s label t circulates allowed taken total => ?_) base after plays_rest
  · exact ⟨(next_circulates circulates allowed taken).mpr spare,next_stocked circulates.stocked taken,
      next_calm circulates.calm allowed.1.1 (allowed.1.2 t taken) taken⟩
  · exact (next_circulates circulates allowed taken).mp total

theorem noError_of_answers {bufferCount : Nat} {labels : List (Label Id)}
    (fine : ∀ answers, .reader answers ∈ labels → answers.getLastError = none)
    (start : Pipeline Id) : Run.Meets (next bufferCount) NoError start labels := by
  refine Run.meets_of_labels (fun label member s => ?_) start
  cases label with
  | reader answers => exact fun _ => fine answers member
  | writer timeout => trivial
  | user command => trivial

/-- A PSF track is loaded, and its first buffer is put and played. -/
theorem circulation_iff_played :
    let first : List (Label Nat) := List.replicate 7 (.reader .playing)
    let rest : List (Label Nat) := List.replicate 14 (.reader .playing) ++ List.replicate 6 (.writer false)
    ∃ middle finish, Run.exec (next 1) (initial 0) first = some middle ∧
      Run.exec (next 1) middle rest = some finish ∧
      ((Run.Meets (next 1) (KeepsPolled 1) (initial 0) (first ++ rest) ∧
        Run.Always (next 1) (fun s => 1 ≤ s.buffers.length) middle rest) ↔
      (Run.Meets (next 1) ReadsOn (initial 0) (first ++ rest) ∧
        Run.Meets (next 1) (ClearsSpare 1) middle rest)) := by
  intro first rest
  obtain ⟨middle,before,loads,finish,after⟩ : ∃ middle, Run.exec (next 1) (initial 0) first =
    some middle ∧ (∃ trackId track, middle.readerPc = .teardown trackId track) ∧
      ∃ finish, Run.exec (next 1) middle rest = some finish := ⟨_,rfl,⟨_,_,rfl⟩,_,rfl⟩
  refine ⟨middle,finish,before,after,
    circulation_iff (initial_begins 0) before loads after (by decide) (noError_of_answers ?_ _)⟩
  intro answers member
  simp [first,rest] at member
  cases member
  rfl

/-- A VGM track is over when its first buffer is filled, and the only buffer is dropped. -/
theorem vgm_leaks : ∃ s : Pipeline Nat,
    let answers := {(.playing : Answers Nat) with getTrackSync := some ⟨some 1⟩}
    let labels := List.replicate 19 (.reader answers) ++ [.reader {answers with isTrackOver := true}]
    Run.exec (next 1) (initial 0) labels = some s ∧
    Run.Always (next 1) (fun s => s.state = .playing) (initial 0) labels ∧
    Run.Meets (next 1) NoError (initial 0) labels ∧ s.playingTrackId = some 0 ∧
    s.buffers.length = 0 := by
  refine ⟨_,rfl,by decide,noError_of_answers ?_ _,rfl,rfl⟩
  intro answers member
  simp at member
  rcases member with rfl | rfl <;> rfl

end Pipeline
end Chipbox.Playback
