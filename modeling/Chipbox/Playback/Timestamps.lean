import Chipbox.Playback.Moves

/-! When the writer meets a buffer without a time. -/
namespace Chipbox.Playback
variable {Id : Type}

def AudioBuffer.Loaded (b : AudioBuffer) : Prop := b.source.any Backend.loaded = true

/-- A buffer that passed the checks has a time, and any that a loaded backend filled. -/
def ReaderPc.Timed : ReaderPc Id → Prop
  | .getLastError b | .checkState b | .checkOver b => b.Loaded → 0 ≤ b.timeStamp
  | .put b => 0 ≤ b.timeStamp
  | _ => True

/-- The reader has called `readNextSamples`, and asks for the time next. -/
def ReaderPc.fills : ReaderPc Id → Bool
  | .readEnd _ => true
  | _ => false

/-- The buffer at the last check before `fullBuffers.put`. -/
def ReaderPc.checked : ReaderPc Id → Option AudioBuffer
  | .checkOver b => some b
  | _ => none

/-- The buffer that the writer is about to play has a time, and it has met no other. -/
def WriterPc.Timed : WriterPc → Prop
  | .write b => 0 ≤ b.timeStamp
  | .crashed _ => False
  | _ => True

theorem afterReset_timed (next : AfterReset Id) : next.pc.Timed := by
  cases next <;> trivial

theorem afterClear_timed (held : Option AudioBuffer) : (WriterPc.afterClear held).Timed := by
  cases held <;> trivial

namespace Pipeline

/-- A backend whose `loadFile` succeeded reports a time that is not negative. -/
def Honest (s : Pipeline Id) : Label Id → Prop
  | .reader answers => s.readerPc.fills = true → s.backend.all Backend.loaded = true →
      s.backend ≠ none → 0 ≤ answers.getMillisPlayed
  | _ => True

instance (s : Pipeline Id) : ∀ label, Decidable (s.Honest label)
  | .reader answers => inferInstanceAs (Decidable (s.readerPc.fills = true →
      s.backend.all Backend.loaded = true → s.backend ≠ none → 0 ≤ answers.getMillisPlayed))
  | .writer _ | .user _ => .isTrue trivial

/-- A buffer that gets past the last check was filled by a backend that had loaded its file, or that
answered a time that is not negative. The checks before it keep back what a backend with an error
filled, and what was filled when the player had stopped playing. -/
def FillsTimed (s : Pipeline Id) : Label Id → Prop
  | .reader answers => ∀ b ∈ s.readerPc.checked, b.Loaded ∨ (b.source ≠ none ∧ 0 ≤ b.timeStamp) ∨
      (s.backend.map Backend.impl = some .vgm ∧ answers.isTrackOver = true)
  | _ => True

instance (s : Pipeline Id) : ∀ label, Decidable (s.FillsTimed label)
  | .reader answers => inferInstanceAs (Decidable (∀ b ∈ s.readerPc.checked,
      b.source.any Backend.loaded = true ∨ (b.source ≠ none ∧ 0 ≤ b.timeStamp) ∨
        (s.backend.map Backend.impl = some .vgm ∧ answers.isTrackOver = true)))
  | .writer _ | .user _ => .isTrue trivial

structure Timed (s : Pipeline Id) : Prop where
  fulls : ∀ b ∈ s.fullBuffers, 0 ≤ b.timeStamp
  reader : s.readerPc.Timed
  writer : s.writerPc.Timed

/-- The fill of a loaded backend gives a time, the checks pass the buffer on as it is, and the
last one passes on none without a time. -/
theorem readerStep_timed {bufferCount : Nat} {s t : Pipeline Id} {answers : Answers Id}
    (timed : s.readerPc.Timed) (honest : s.Honest (.reader answers))
    (fills : s.FillsTimed (.reader answers)) (taken : s.readerStep bufferCount answers = some t) :
    t.readerPc.Timed := by
  unfold readerStep at taken
  cases pc : s.readerPc with
  | readEnd b =>
    simp only [pc] at taken
    have filling : s.readerPc.fills = true := by rw [pc]; rfl
    split at taken
    next absent =>
      cases taken
      intro loaded
      rw [AudioBuffer.Loaded,AudioBuffer.fill,absent] at loaded
      cases loaded
    next backend present =>
      cases taken
      intro loaded
      rw [AudioBuffer.Loaded,AudioBuffer.fill,present] at loaded
      exact honest filling (by rw [present]; exact loaded) (by rw [present]; exact nofun)
  | checkOver b =>
    simp only [pc] at taken
    rw [pc] at timed
    have filled := fills b (by rw [pc]; rfl)
    cases taken
    dsimp only
    split
    · trivial
    next passes =>
      rcases filled with loaded | reports | ended
      · exact timed loaded
      · exact reports.2
      · exact absurd ended passes
  | _ =>
    simp only [pc] at taken
    rw [pc] at timed
    repeat' split at taken
    all_goals cases taken
    all_goals first
      | exact trivial
      | exact timed
      | exact afterReset_timed _

theorem writerStep_timed {bufferCount : Nat} {s t : Pipeline Id} {timeout : Bool}
    (timed : s.Timed) (taken : s.writerStep bufferCount timeout = some t) : t.writerPc.Timed := by
  obtain ⟨fulls,_,timed⟩ := timed
  unfold writerStep at taken
  cases pc : s.writerPc with
  | poll =>
    simp only [pc] at taken
    split at taken
    next b rest full =>
      cases taken
      exact fulls b (by rw [full]; exact List.mem_cons_self)
    next => cases taken; trivial
  | wait =>
    simp only [pc] at taken
    split at taken
    · cases taken; trivial
    · split at taken
      next b rest full =>
        cases taken
        exact fulls b (by rw [full]; exact List.mem_cons_self)
      next =>
        split at taken
        · cases taken; trivial
        · cases taken
  | write b =>
    simp only [pc] at taken
    rw [pc] at timed
    cases taken
    dsimp only
    rw [if_neg (Int.not_lt.mpr timed)]
    trivial
  | _ =>
    simp only [pc] at taken
    repeat' split at taken
    all_goals cases taken
    all_goals first
      | exact trivial
      | exact afterClear_timed _

theorem readerMove_fulls {bufferCount : Nat} {answers : Answers Id} {s t : Pipeline Id}
    (move : ReaderMove bufferCount answers s t) (timed : s.Timed) :
    ∀ b ∈ t.fullBuffers, 0 ≤ b.timeStamp := by
  obtain ⟨fulls,reader,_⟩ := timed
  cases move with
  | stay _ same | fill _ _ _ _ _ same | giveEmpty _ _ _ _ _ same | takeEmpty _ _ _ _ same
  | drop _ _ _ _ same => rw [same]; exact fulls
  | create _ _ _ _ _ nothing | clearAll _ _ nothing => simp [nothing]
  | takeFull b _ _ rest => exact fun other member => fulls other (by rw [rest]; exact .tail _ member)
  | outlive _ _ _ changed =>
    intro other member
    rw [changed] at member
    obtain ⟨b,old,rfl⟩ := List.mem_map.mp member
    exact fulls b old
  | giveFull b pc _ _ more =>
    intro other member
    rw [more] at member
    rcases List.mem_append.mp member with old | new
    · exact fulls other old
    · cases List.mem_singleton.mp new
      rw [pc] at reader
      exact reader

theorem writerMove_fulls {bufferCount : Nat} {s t : Pipeline Id}
    (move : WriterMove bufferCount s t) : ∀ b ∈ t.fullBuffers, b ∈ s.fullBuffers := by
  cases move with
  | stay _ same | blank _ _ _ _ same | giveEmpty _ _ _ _ same | drop _ _ _ _ same =>
    rw [same]; exact fun _ member => member
  | play _ _ _ rest | clear _ _ _ _ rest =>
    rw [rest]; exact fun _ member => .tail _ member
  | clearAll _ _ _ nothing => simp [nothing]

theorem next_timed {bufferCount : Nat} {s t : Pipeline Id} {label : Label Id} (timed : s.Timed)
    (honest : s.Honest label) (fills : s.FillsTimed label)
    (taken : s.next bufferCount label = some t) : t.Timed := by
  cases label with
  | reader answers =>
    refine ⟨readerMove_fulls (readerStep_moves taken) timed,
      readerStep_timed timed.reader honest fills taken,?_⟩
    rw [readerStep_writerPc taken]
    exact timed.writer
  | writer timeout =>
    refine ⟨fun b member => timed.fulls b (writerMove_fulls (writerStep_moves taken) b member),
      ?_,writerStep_timed timed taken⟩
    rw [(writerStep_reader taken).1]
    exact timed.reader
  | user command =>
    cases Option.some.inj taken
    have same := s.command_places command
    exact ⟨by rw [same.fulls]; exact timed.fulls,by rw [same.readerPc]; exact timed.reader,
      by rw [same.writerPc]; exact timed.writer⟩

/-- In a run whose buffers without a time are all kept back by the reader's checks, every full buffer
has a time and the writer never throws. -/
theorem timestamps_valid {bufferCount : Nat} {start s : Pipeline Id} (begins : start.Begins)
    (fulls : ∀ b ∈ start.fullBuffers, 0 ≤ b.timeStamp) {labels : List (Label Id)}
    (run : Run.exec (next bufferCount) start labels = some s)
    (honest : Run.Meets (next bufferCount) Honest start labels)
    (met : Run.Meets (next bufferCount) FillsTimed start labels) :
    (∀ b ∈ s.fullBuffers, 0 ≤ b.timeStamp) ∧
      ∀ b, s.writerPc ≠ .crashed b := by
  have base : start.Timed := ⟨fulls,by rw [begins.reader]; trivial,by rw [begins.writer]; trivial⟩
  have timed := Run.guarded_invariant (fun _ _ _ timed both taken =>
    next_timed timed both.1 both.2 taken) base run (Run.meets_and.mpr ⟨honest,met⟩)
  refine ⟨timed.fulls,fun b crashed => ?_⟩
  have still := timed.writer
  rw [crashed] at still
  exact still

def tornDown : Answers Id :=
  {(.playing : Answers Id) with getMillisPlayed := -1, getLastError := some "Emulator not ready."}

/-- A track is loaded, its first buffer is filled, put and played. A stop then meets the reader in
its second fill, which gets no time, and the error keeps that buffer back. -/
theorem timestamps_valid_played :
    let labels : List (Label Nat) := List.replicate 30 (.reader .playing) ++
      List.replicate 6 (.writer false) ++ [.user .stop] ++ List.replicate 2 (.reader tornDown)
    ∃ s : Pipeline Nat, Run.exec (next 2) (initial 0) labels = some s ∧
      (∀ b ∈ s.fullBuffers, 0 ≤ b.timeStamp) ∧ ∀ b, s.writerPc ≠ .crashed b := by
  intro labels
  obtain ⟨s,run⟩ : ∃ s : Pipeline Nat, Run.exec (next 2) (initial 0) labels = some s := ⟨_,rfl⟩
  exact ⟨s,run,timestamps_valid (initial_begins 0) nofun run (by decide) (by decide)⟩

/-- The first track has no backend and another is to follow: the reader goes on to read, and the
writer throws on what it has put. -/
theorem writer_throws : ∃ s : Pipeline Nat,
    let answers := {(.playing : Answers Nat) with getTrackSync := some ⟨none⟩}
    Run.exec (next 1) (initial 0) (List.replicate 23 (.reader answers)) = some s ∧
    (∃ b ∈ s.fullBuffers, b.timeStamp = -2) ∧
    Run.Meets (next 1) Honest (initial 0) (List.replicate 23 (.reader answers)) ∧
    ∃ t, Run.exec (next 1) s (List.replicate 4 (.writer false)) = some t ∧
      ∃ b, t.writerPc = .crashed b := by
  refine ⟨_,rfl,⟨_,.head _,rfl⟩,?_,_,rfl,_,rfl⟩
  refine Run.meets_of_labels (fun label member s => ?_) _
  cases List.eq_of_mem_replicate member
  exact fun _ _ _ => Int.le_refl 0

end Pipeline
end Chipbox.Playback
