import Chipbox.Playback.Moves

/-! What the reader does once a track is over. An iteration of `Reader.loop` that has seen the end of the
loaded track may go on to read it. -/
namespace Chipbox.Playback
variable {Id : Type}

/-- The pipeline, and whether the reader has seen the end of the loaded track in this iteration. -/
structure Watch (Id : Type) where
  pipeline : Pipeline Id
  ended : Bool

namespace Watch

/-- A step of the reader that starts an iteration, or asks the backend of a loaded track. -/
def sees (w : Watch Id) (answers : Answers Id) : Bool :=
  match w.pipeline.readerPc with
  | .loopHead => false
  | .isTrackOver =>
    answers.isTrackOver && (match w.pipeline.backend with
      | none => false
      | some backend => backend.loaded)
  | _ => w.ended

def next (bufferCount : Nat) (w : Watch Id) (label : Label Id) : Option (Watch Id) :=
  match w.pipeline.next bufferCount label with
  | none => none
  | some pipeline => some ⟨pipeline,match label with
      | .reader answers => w.sees answers
      | _ => w.ended⟩

/-- The reader calls `readNextSamples` for a loaded track that it has seen to be over. -/
def ReadsPast (w : Watch Id) : Label Id → Prop
  | .reader _ => w.ended = true ∧ ∃ audioBuffer backend, w.pipeline.readerPc = .readEnd audioBuffer ∧
      w.pipeline.backend = some backend ∧ backend.loaded = true
  | _ => False

/-- The reader hands on a buffer in an iteration that has seen the end. -/
def PutsPast (w : Watch Id) : Label Id → Prop
  | .reader _ => w.ended = true ∧ ∃ audioBuffer, w.pipeline.readerPc = .put audioBuffer
  | _ => False

def StaysWithin (w : Watch Id) (label : Label Id) : Prop := ¬ w.ReadsPast label ∧ ¬ w.PutsPast label

/-- Where the end has been seen and the writer has nothing left to play, no track comes next. -/
def LastTrackEnds (w : Watch Id) : Label Id → Prop
  | .reader answers => w.ended = true → w.pipeline.readerPc = .trackOver →
      answers.isNextTrackAvailable = false
  | _ => True

end Watch

namespace ReaderPc

def reading : ReaderPc Id → Bool
  | .poll | .read _ | .readEnd _ | .getLastError _ | .checkState _ | .checkOver _ | .put _ => true
  | _ => false

@[simp] theorem afterReset_reading (next : AfterReset Id) : next.pc.reading = false := by
  cases next <;> rfl

end ReaderPc

namespace Pipeline

/-- The reader starts reading only where it has asked whether the track is over or
queued the next one. -/
theorem readerStep_reading {bufferCount : Nat} {s t : Pipeline Id} {answers : Answers Id}
    (taken : s.readerStep bufferCount answers = some t) (reads : t.readerPc.reading = true) :
    s.readerPc.reading = true ∨
      (s.readerPc = .isTrackOver ∧ s.backend ≠ none ∧ answers.isTrackOver = false) ∨
      (s.readerPc = .trackOver ∧ answers.isNextTrackAvailable = true) := by
  unfold readerStep at taken
  cases pc : s.readerPc with
  | isTrackOver =>
    rw [pc] at taken
    cases taken
    dsimp only at reads
    split at reads
    · cases reads
    next on =>
      rw [not_or,Bool.not_eq_true] at on
      exact .inr (.inl ⟨rfl,on⟩)
  | trackOver =>
    rw [pc] at taken
    cases more : answers.isNextTrackAvailable with
    | true => exact .inr (.inr ⟨rfl,rfl⟩)
    | false =>
      rw [more] at taken
      cases taken
      cases reads
  | poll | read | readEnd | getLastError | checkState | checkOver | put => exact .inl rfl
  | reset after =>
    rw [pc] at taken
    cases taken
    dsimp only at reads
    split at reads
    · cases reads
    · rw [ReaderPc.afterReset_reading] at reads
      cases reads
  | offer b after =>
    simp only [pc] at taken
    split at taken
    · cases taken
      cases reads
    · cases taken
      dsimp only at reads
      rw [ReaderPc.afterReset_reading] at reads
      cases reads
  | loopHead | onTrackChange | peek =>
    simp only [pc] at taken
    cases taken
    dsimp only at reads
    split at reads
    · cases reads
    · cases reads
  | _ =>
    simp only [pc] at taken
    repeat' split at taken
    all_goals cases taken
    all_goals cases reads

end Pipeline

namespace Watch

theorem next_cases {bufferCount : Nat} {w v : Watch Id} {label : Label Id}
    (taken : w.next bufferCount label = some v) :
    (∃ answers, label = .reader answers ∧
      w.pipeline.readerStep bufferCount answers = some v.pipeline ∧ v.ended = w.sees answers) ∨
    (v.pipeline.readerPc = w.pipeline.readerPc ∧ v.ended = w.ended) := by
  unfold next at taken
  split at taken
  · cases taken
  next pipeline stepped =>
    cases taken
    cases label with
    | reader answers => exact .inl ⟨answers,rfl,stepped,rfl⟩
    | writer timeout => exact .inr ⟨(Pipeline.writerStep_reader stepped).1,rfl⟩
    | user command =>
      cases stepped
      exact .inr ⟨(Pipeline.command_places _ command).readerPc,rfl⟩

/-- An iteration that has seen the end does not read. -/
def Idles (w : Watch Id) : Prop := w.ended = true → w.pipeline.readerPc.reading = false

theorem next_idles {bufferCount : Nat} {w v : Watch Id} {label : Label Id} (idles : w.Idles)
    (last : w.LastTrackEnds label) (taken : w.next bufferCount label = some v) : v.Idles := by
  rcases next_cases taken with ⟨answers,rfl,stepped,seen⟩ | ⟨pc,ended⟩
  · intro now
    by_contra reads
    rw [Bool.not_eq_false] at reads
    rw [seen] at now
    rcases Pipeline.readerStep_reading stepped reads with before | ⟨pc,_,on⟩ | ⟨pc,more⟩
    · -- a reading iteration goes on reading, and has not seen the end
      have same : w.sees answers = w.ended := by
        unfold sees
        split
        next pc => rw [pc] at before; cases before
        next pc => rw [pc] at before; cases before
        · rfl
      rw [same] at now
      rw [idles now] at before
      cases before
    · unfold sees at now
      rw [pc,on] at now
      cases now
    · have same : w.sees answers = w.ended := by
        unfold sees
        rw [pc]
      rw [same] at now
      rw [last now pc] at more
      cases more
  · intro now
    rw [pc]
    exact idles (ended.symm.trans now)

theorem Idles.staysWithin {w : Watch Id} (idles : w.Idles) (label : Label Id) : w.StaysWithin label := by
  cases label with
  | writer timeout => exact ⟨id,id⟩
  | user command => exact ⟨id,id⟩
  | reader answers =>
    constructor
    · rintro ⟨ended,audioBuffer,backend,pc,_⟩
      have reads := idles ended
      rw [pc] at reads
      cases reads
    · rintro ⟨ended,audioBuffer,pc⟩
      have reads := idles ended
      rw [pc] at reads
      cases reads

/-- In every run in which a track that is over is the last, no step reads it on or hands on
a buffer read after its end. -/
theorem staysWithin_of_last {bufferCount : Nat} {start : Pipeline Id} {labels : List (Label Id)}
    (last : Run.Meets (next bufferCount) LastTrackEnds ⟨start,false⟩ labels) :
    Run.Meets (next bufferCount) StaysWithin ⟨start,false⟩ labels := by
  apply Run.meets_of_meets _ _ _ last
  · exact Idles
  · intro w label v idles ends taken
    exact next_idles idles ends taken
  · intro w label idles _
    exact idles.staysWithin label
  · exact nofun

def trackIsOver (nextAvailable : Bool) : Answers Nat :=
  {(Answers.playing : Answers Nat) with
    isTrackOver := true, isNextTrackAvailable := nextAvailable, getNextTrack := some 1}

/-- The last track is over at once, and the reader ends. -/
theorem staysWithin_of_last_over : ∃ finish,
    Run.exec (next 2) ⟨Pipeline.initial 0,false⟩
      (List.replicate 20 (.reader (trackIsOver false))) = some finish ∧
    finish.pipeline.readerPc = .done ∧
    Run.Meets (next 2) StaysWithin ⟨Pipeline.initial 0,false⟩
      (List.replicate 20 (.reader (trackIsOver false))) := by
  refine ⟨_,rfl,rfl,staysWithin_of_last ?_⟩
  apply Run.meets_of_labels
  intro label member w
  rw [List.eq_of_mem_replicate member]
  intro _ _
  rfl

/-- With another track to come the reader reads the one that is over, and hands the buffer on. -/
theorem reads_past_end : ∃ w v,
    Run.exec (next 2) ⟨Pipeline.initial 0,false⟩
      (List.replicate 21 (.reader (trackIsOver true))) = some w ∧
    w.ReadsPast (.reader (trackIsOver true)) ∧
    Run.exec (next 2) w (List.replicate 4 (.reader (trackIsOver true))) = some v ∧
    v.PutsPast (.reader (trackIsOver true)) :=
  ⟨_,_,rfl,⟨rfl,_,_,rfl,rfl,rfl⟩,rfl,⟨rfl,_,rfl⟩⟩

end Watch
end Chipbox.Playback
