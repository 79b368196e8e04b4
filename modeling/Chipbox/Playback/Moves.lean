import Chipbox.Playback.Pipeline

/-! Where the audio buffers are, in the two queues and the hands of the two threads, and how
each step moves them. -/
namespace Chipbox.Playback
variable {Id : Type}

namespace ReaderPc

def hands : ReaderPc Id → List AudioBuffer
  | .offer b _ | .clearAdd b _ | .read b | .readEnd b | .getLastError b | .checkState b
  | .checkOver b | .put b => [b]
  | _ => []

end ReaderPc

namespace WriterPc

def hands : WriterPc → List AudioBuffer
  | .write b | .checkSeeking b | .unflag b | .put b | .crashed b => [b]
  | .clearBuffers held | .clearAll held => held.toList
  | .clearAdd b held => b::held.toList
  | _ => []

end WriterPc

@[simp] theorem hands_afterReset (next : AfterReset Id) : next.pc.hands = [] := by
  cases next <;> rfl

@[simp] theorem hands_afterClear (held : Option AudioBuffer) :
    (WriterPc.afterClear held).hands = held.toList := by
  cases held <;> rfl

inductive Drops (bufferCount : Nat) (answers : Answers Id) (s : Pipeline Id) (b : AudioBuffer) : Prop
  | full (pc : (∃ next, s.readerPc = .offer b next) ∨ ∃ trackId, s.readerPc = .clearAdd b trackId)
      (enough : bufferCount ≤ s.emptyBuffers.length)
  | untitled (pc : s.readerPc = .read b) (untitled : s.playingTrackId = none)
  | failed (pc : s.readerPc = .getLastError b) (error : answers.getLastError ≠ none)
  | halted (pc : s.readerPc = .checkState b) (halted : s.state ≠ .playing)
  | ended (pc : s.readerPc = .checkOver b) (vgm : s.backend.map Backend.impl = some .vgm)
      (ended : answers.isTrackOver = true)

inductive ReaderMove (bufferCount : Nat) (answers : Answers Id) (s t : Pipeline Id) : Prop
  | stay (empties : t.emptyBuffers = s.emptyBuffers) (fulls : t.fullBuffers = s.fullBuffers)
      (created : t.created = s.created) (hands : t.readerPc.hands = s.readerPc.hands)
  | fill (b : AudioBuffer) (millis : Int) (pc : s.readerPc = .readEnd b)
      (then_pc : t.readerPc = .getLastError (b.fill millis s.backend s.sought))
      (empties : t.emptyBuffers = s.emptyBuffers) (fulls : t.fullBuffers = s.fullBuffers)
      (created : t.created = s.created)
  | outlive (pc : ∃ position, s.readerPc = .seek position)
      (then_pc : ∃ position, t.readerPc = .seekEnd position)
      (empties : t.emptyBuffers = s.emptyBuffers)
      (fulls : t.fullBuffers = s.fullBuffers.map .outlive) (created : t.created = s.created)
  | create (next : AfterReset Id) (pc : s.readerPc = .pollFull next)
      (then_pc : t.readerPc = .offer (.new s.created) next) (nothing : s.fullBuffers = [])
      (empties : t.emptyBuffers = s.emptyBuffers) (fulls : t.fullBuffers = [])
      (created : t.created = s.created + 1)
  | takeFull (b : AudioBuffer) (free : s.readerPc.hands = []) (hands : t.readerPc.hands = [b.clear])
      (fulls : s.fullBuffers = b::t.fullBuffers) (empties : t.emptyBuffers = s.emptyBuffers)
      (created : t.created = s.created)
  | giveEmpty (b : AudioBuffer) (held : s.readerPc.hands = [b]) (free : t.readerPc.hands = [])
      (room : s.emptyBuffers.length < bufferCount) (empties : t.emptyBuffers = s.emptyBuffers ++ [b])
      (fulls : t.fullBuffers = s.fullBuffers) (created : t.created = s.created)
  | takeEmpty (b : AudioBuffer) (pc : s.readerPc = .poll) (then_pc : t.readerPc = .read b)
      (empties : s.emptyBuffers = b::t.emptyBuffers) (fulls : t.fullBuffers = s.fullBuffers)
      (created : t.created = s.created)
  | giveFull (b : AudioBuffer) (pc : s.readerPc = .put b) (then_pc : t.readerPc = .loopHead)
      (room : s.fullBuffers.length < bufferCount) (fulls : t.fullBuffers = s.fullBuffers ++ [b])
      (empties : t.emptyBuffers = s.emptyBuffers) (created : t.created = s.created)
  | drop (b : AudioBuffer) (why : Drops bufferCount answers s b) (free : t.readerPc.hands = [])
      (empties : t.emptyBuffers = s.emptyBuffers) (fulls : t.fullBuffers = s.fullBuffers)
      (created : t.created = s.created)
  | clearAll (pc : ∃ trackId, s.readerPc = .clearAll trackId) (free : t.readerPc.hands = [])
      (fulls : t.fullBuffers = []) (empties : t.emptyBuffers = s.emptyBuffers)
      (created : t.created = s.created)

inductive WriterMove (bufferCount : Nat) (s t : Pipeline Id) : Prop
  | stay (empties : t.emptyBuffers = s.emptyBuffers) (fulls : t.fullBuffers = s.fullBuffers)
      (hands : t.writerPc.hands = s.writerPc.hands)
  | blank (b : AudioBuffer) (pc : s.writerPc = .checkSeeking b ∨ s.writerPc = .unflag b)
      (then_pc : t.writerPc = .put b.clear) (empties : t.emptyBuffers = s.emptyBuffers)
      (fulls : t.fullBuffers = s.fullBuffers)
  | play (b : AudioBuffer) (pc : s.writerPc = .poll ∨ s.writerPc = .wait)
      (then_pc : t.writerPc = .write b) (fulls : s.fullBuffers = b::t.fullBuffers)
      (empties : t.emptyBuffers = s.emptyBuffers)
  | clear (b : AudioBuffer) (held : Option AudioBuffer) (pc : s.writerPc = .clearBuffers held)
      (then_pc : t.writerPc = .clearAdd b.clear held) (fulls : s.fullBuffers = b::t.fullBuffers)
      (empties : t.emptyBuffers = s.emptyBuffers)
  | giveEmpty (b : AudioBuffer) (hands : s.writerPc.hands = b::t.writerPc.hands)
      (room : s.emptyBuffers.length < bufferCount) (empties : t.emptyBuffers = s.emptyBuffers ++ [b])
      (fulls : t.fullBuffers = s.fullBuffers)
  | drop (b : AudioBuffer) (hands : s.writerPc.hands = b::t.writerPc.hands)
      (why : (∃ held, s.writerPc = .clearAdd b held ∧ bufferCount ≤ s.emptyBuffers.length) ∨
        (s.writerPc = .put b ∧ s.interrupted = true))
      (empties : t.emptyBuffers = s.emptyBuffers) (fulls : t.fullBuffers = s.fullBuffers)
  | clearAll (held : Option AudioBuffer) (pc : s.writerPc = .clearAll held)
      (then_pc : t.writerPc = .afterClear held) (fulls : t.fullBuffers = [])
      (empties : t.emptyBuffers = s.emptyBuffers)

namespace Pipeline

@[simp] theorem stop_fulls (s : Pipeline Id) : s.stop.fullBuffers = s.fullBuffers := by
  unfold stop; split <;> rfl

@[simp] theorem stop_empties (s : Pipeline Id) : s.stop.emptyBuffers = s.emptyBuffers := by
  unfold stop; split <;> rfl

@[simp] theorem stop_created (s : Pipeline Id) : s.stop.created = s.created := by
  unfold stop; split <;> rfl

@[simp] theorem stop_writerPc (s : Pipeline Id) : s.stop.writerPc = s.writerPc := by
  unfold stop; split <;> rfl

theorem readerStep_moves {bufferCount : Nat} {s t : Pipeline Id} {answers : Answers Id}
    (taken : s.readerStep bufferCount answers = some t) : ReaderMove bufferCount answers s t := by
  unfold readerStep at taken
  have stays (pc : s.readerPc.hands = t.readerPc.hands) (empties : t.emptyBuffers = s.emptyBuffers)
    (fulls : t.fullBuffers = s.fullBuffers) (created : t.created = s.created) :
    ReaderMove bufferCount answers s t := .stay empties fulls created pc.symm
  cases pc : s.readerPc with
  | loopHead =>
    simp only [pc] at taken
    cases taken
    exact stays (by rw [pc]; dsimp only; split <;> rfl) rfl rfl rfl
  | queuedTrack =>
    simp only [pc] at taken
    split at taken
    all_goals
      cases taken
      exact stays (by rw [pc]; rfl) rfl rfl rfl
  | getTrackSync trackId =>
    simp only [pc] at taken
    split at taken
    · cases taken
      exact stays (by rw [pc]; rfl) rfl rfl rfl
    · split at taken
      all_goals
        cases taken
        exact stays (by rw [pc]; rfl) rfl rfl rfl
  | reset after =>
    simp only [pc] at taken
    cases taken
    refine stays ?_ rfl rfl rfl
    rw [pc]
    dsimp only
    split
    · rfl
    · exact (hands_afterReset after).symm
  | pollFull after =>
    simp only [pc] at taken
    split at taken
    next nothing =>
      cases taken
      exact .create after pc rfl nothing rfl nothing rfl
    next b rest fulls =>
      cases taken
      exact .takeFull b (by rw [pc]; rfl) rfl fulls rfl rfl
  | offer b after =>
    simp only [pc] at taken
    split at taken
    next room =>
      cases taken
      exact .giveEmpty b (by rw [pc]; rfl) rfl room rfl rfl rfl
    next full =>
      cases taken
      exact .drop b (.full (.inl ⟨after,pc⟩) (Nat.le_of_not_lt full)) (by simp) rfl rfl rfl
  | loadTrack trackId track =>
    simp only [pc] at taken
    split at taken
    · cases taken
      exact stays (by rw [pc]; rfl) rfl rfl rfl
    · split at taken
      · cases taken
      · cases taken
        exact stays (by rw [pc]; rfl) rfl rfl rfl
  | onTrackChange trackId =>
    simp only [pc] at taken
    cases taken
    exact stays (by rw [pc]; dsimp only; split <;> rfl) rfl rfl rfl
  | clearBuffers trackId =>
    simp only [pc] at taken
    split at taken
    next nothing =>
      cases taken
      exact stays (by rw [pc]; rfl) rfl rfl rfl
    next b rest fulls =>
      cases taken
      exact .takeFull b (by rw [pc]; rfl) rfl fulls rfl rfl
  | clearAdd b trackId =>
    simp only [pc] at taken
    split at taken
    next room =>
      cases taken
      exact .giveEmpty b (by rw [pc]; rfl) rfl room rfl rfl rfl
    next full =>
      cases taken
      exact .drop b (.full (.inr ⟨trackId,pc⟩) (Nat.le_of_not_lt full)) rfl rfl rfl rfl
  | clearAll trackId =>
    simp only [pc] at taken
    cases taken
    exact .clearAll ⟨trackId,pc⟩ rfl rfl rfl rfl
  | queuedSeek =>
    simp only [pc] at taken
    split at taken
    all_goals
      cases taken
      exact stays (by rw [pc]; rfl) rfl rfl rfl
  | seek position =>
    simp only [pc] at taken
    split at taken
    · cases taken
      exact stays (by rw [pc]; rfl) rfl rfl rfl
    · cases taken
      exact .outlive ⟨position,pc⟩ ⟨position,rfl⟩ rfl rfl rfl
  | teardown | setField | unqueueTrack | seekEnd | onSeek | unqueueSeek =>
    simp only [pc] at taken
    cases taken
    exact stays (by rw [pc]; rfl) rfl rfl rfl
  | isTrackOver | peek =>
    simp only [pc] at taken
    cases taken
    exact stays (by rw [pc]; dsimp only; split <;> rfl) rfl rfl rfl
  | trackOver =>
    simp only [pc] at taken
    split at taken
    · cases taken
      exact stays (by rw [pc]; rfl) rfl rfl rfl
    · cases taken
      exact stays (by rw [pc]; rfl) (by simp) (by simp) (by simp)
  | poll =>
    simp only [pc] at taken
    split at taken
    next b rest empties =>
      cases taken
      exact .takeEmpty b pc rfl empties rfl rfl
    next =>
      split at taken
      · cases taken
        exact stays (by rw [pc]; rfl) rfl rfl rfl
      · cases taken
  | read b =>
    simp only [pc] at taken
    cases taken
    by_cases untitled : s.playingTrackId = none
    · exact .drop b (.untitled pc untitled) (by simp [untitled,ReaderPc.hands]) rfl rfl rfl
    · exact stays (by simp [pc,untitled,ReaderPc.hands]) rfl rfl rfl
  | readEnd b =>
    simp only [pc] at taken
    split at taken
    · cases taken
      exact .fill b _ pc rfl rfl rfl rfl
    · cases taken
      exact .fill b _ pc rfl rfl rfl rfl
  | getLastError b =>
    simp only [pc] at taken
    cases taken
    by_cases fine : s.backend = none ∨ answers.getLastError = none
    · exact stays (by simp [pc,fine,ReaderPc.hands]) rfl rfl rfl
    · exact .drop b (.failed pc (not_or.mp fine).2) (by simp [fine,ReaderPc.hands]) rfl rfl rfl
  | checkState b =>
    simp only [pc] at taken
    cases taken
    by_cases playing : s.state = .playing
    · exact stays (by simp [pc,playing,ReaderPc.hands]) rfl rfl rfl
    · exact .drop b (.halted pc playing) (by simp [playing,ReaderPc.hands]) rfl rfl rfl
  | checkOver b =>
    simp only [pc] at taken
    cases taken
    by_cases ended : s.backend.map Backend.impl = some .vgm ∧ answers.isTrackOver = true
    · exact .drop b (.ended pc ended.1 ended.2) (by simp [ended,ReaderPc.hands]) rfl rfl rfl
    · exact stays (by rw [pc]; dsimp only; rw [if_neg ended]; rfl) rfl rfl rfl
  | put b =>
    simp only [pc] at taken
    split at taken
    next room =>
      cases taken
      exact .giveFull b pc rfl room rfl rfl rfl
    next => cases taken
  | done =>
    simp only [pc] at taken
    cases taken

theorem writerStep_moves {bufferCount : Nat} {s t : Pipeline Id} {timeout : Bool}
    (taken : s.writerStep bufferCount timeout = some t) : WriterMove bufferCount s t := by
  unfold writerStep at taken
  cases pc : s.writerPc with
  | idle =>
    simp only [pc] at taken
    cases taken
    exact .stay rfl rfl (by rw [pc]; rfl)
  | loopHead =>
    simp only [pc] at taken
    cases taken
    exact .stay rfl rfl (by rw [pc]; dsimp only; split <;> rfl)
  | poll =>
    simp only [pc] at taken
    split at taken
    next b rest fulls =>
      cases taken
      exact .play b (.inl pc) rfl fulls rfl
    next =>
      cases taken
      exact .stay rfl rfl (by rw [pc]; rfl)
  | wait =>
    simp only [pc] at taken
    split at taken
    · cases taken
      exact .stay rfl rfl (by rw [pc]; rfl)
    · split at taken
      next b rest fulls =>
        cases taken
        exact .play b (.inr pc) rfl fulls rfl
      next =>
        split at taken
        · cases taken
          exact .stay rfl rfl (by rw [pc]; rfl)
        · cases taken
  | write b =>
    simp only [pc] at taken
    cases taken
    exact .stay rfl rfl (by rw [pc]; dsimp only; split <;> rfl)
  | checkSeeking b =>
    simp only [pc] at taken
    cases taken
    by_cases seeking : s.seeking = true
    · exact .stay rfl rfl (by simp [pc,seeking,WriterPc.hands])
    · exact .blank b (.inl pc) (if_neg seeking) rfl rfl
  | clearBuffers held =>
    simp only [pc] at taken
    split at taken
    next =>
      cases taken
      exact .stay rfl rfl (by rw [pc]; exact hands_afterClear held)
    next b rest fulls =>
      cases taken
      exact .clear b held pc rfl fulls rfl
  | clearAdd b held =>
    simp only [pc] at taken
    split at taken
    next room =>
      cases taken
      exact .giveEmpty b (by rw [pc]; rfl) room rfl rfl
    next full =>
      cases taken
      exact .drop b (by rw [pc]; rfl) (.inl ⟨held,pc,Nat.le_of_not_lt full⟩) rfl rfl
  | clearAll held =>
    simp only [pc] at taken
    cases taken
    exact .clearAll held pc rfl rfl rfl
  | unflag b =>
    simp only [pc] at taken
    cases taken
    exact .blank b (.inr pc) rfl rfl rfl
  | put b =>
    simp only [pc] at taken
    split at taken
    next interrupted =>
      cases taken
      exact .drop b (by rw [pc]; rfl) (.inr ⟨pc,interrupted⟩) rfl rfl
    next =>
      split at taken
      next room =>
        cases taken
        exact .giveEmpty b (by rw [pc]; rfl) room rfl rfl
      next => cases taken
  | crashed | done =>
    simp only [pc] at taken
    cases taken

theorem readerStep_writerPc {bufferCount : Nat} {s t : Pipeline Id} {answers : Answers Id}
    (taken : s.readerStep bufferCount answers = some t) : t.writerPc = s.writerPc := by
  unfold readerStep at taken
  repeat' split at taken
  all_goals first
    | cases taken; rfl
    | cases taken; exact stop_writerPc s
    | cases taken

theorem writerStep_reader {bufferCount : Nat} {s t : Pipeline Id} {timeout : Bool}
    (taken : s.writerStep bufferCount timeout = some t) :
    t.readerPc = s.readerPc ∧ t.created = s.created := by
  unfold writerStep at taken
  repeat' split at taken
  all_goals first
    | cases taken; exact ⟨rfl,rfl⟩
    | cases taken

structure SamePlaces (s t : Pipeline Id) : Prop where
  empties : t.emptyBuffers = s.emptyBuffers
  fulls : t.fullBuffers = s.fullBuffers
  created : t.created = s.created
  readerPc : t.readerPc = s.readerPc
  writerPc : t.writerPc = s.writerPc

theorem command_places (s : Pipeline Id) (command : Command Id) :
    SamePlaces s (s.command command) := by
  cases command with
  | pause =>
    unfold Pipeline.command pause
    dsimp only
    split <;> exact ⟨rfl,rfl,rfl,rfl,rfl⟩
  | stop =>
    unfold Pipeline.command stop
    dsimp only
    split <;> exact ⟨rfl,rfl,rfl,rfl,rfl⟩
  | startTrackless => exact ⟨rfl,rfl,rfl,rfl,rfl⟩
  | queueTrack trackId =>
    unfold Pipeline.command
    dsimp only
    split <;> exact ⟨rfl,rfl,rfl,rfl,rfl⟩
  | seek seekPosition =>
    unfold Pipeline.command
    dsimp only
    split <;> exact ⟨rfl,rfl,rfl,rfl,rfl⟩

end Pipeline
end Chipbox.Playback
