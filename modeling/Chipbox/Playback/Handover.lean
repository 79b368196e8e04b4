import Chipbox.Playback.Moves

/-! How a seek of the reader reaches the writer. -/
namespace Chipbox.Playback
variable {Id : Type}

/-- The reader has begun `backend.seek` and not yet told the writer. -/
def ReaderPc.seeks : ReaderPc Id → Bool
  | .seekEnd _ | .onSeek _ => true
  | _ => false

/-- What the reader has filled is not stale, and fresh only after a seek. -/
def ReaderPc.Marked (sought : Bool) : ReaderPc Id → Prop
  | .getLastError b | .checkState b | .checkOver b | .put b =>
    b.stale = false ∧ (b.fresh = true → sought = true)
  | _ => True

/-- The reader is about to put a buffer into `fullBuffers`. -/
def ReaderPc.puts : ReaderPc Id → Bool
  | .put _ => true
  | _ => false

def ReaderPc.tells : ReaderPc Id → Bool
  | .onSeek _ => true
  | _ => false

/-- The writer has left its loop and clears `fullBuffers`. -/
def WriterPc.closes : WriterPc → Bool
  | .clearBuffers none | .clearAdd _ none | .clearAll none => true
  | _ => false

def WriterPc.over : WriterPc → Bool
  | .crashed _ | .done => true
  | _ => false

theorem afterReset_seeks (next : AfterReset Id) : next.pc.seeks = false := by
  cases next <;> rfl

theorem afterReset_marked (sought : Bool) (next : AfterReset Id) : next.pc.Marked sought := by
  cases next <;> trivial

namespace Pipeline

/-- A seek waits for the writer to clear `fullBuffers`. -/
def Pending (s : Pipeline Id) : Prop := s.seeking = true ∨ s.readerPc.seeks = true

/-- The writer plays no buffer that was full at a seek and clears none filled since. -/
def HandsOver (s : Pipeline Id) : Label Id → Prop
  | .writer _ =>
    match s.writerPc with
    | .write b => b.stale = false
    | .clearBuffers _ => ∀ b, s.fullBuffers.head? = some b → b.fresh = false
    | .clearAll _ => ∀ b ∈ s.fullBuffers, b.fresh = false
    | _ => True
  | _ => True

/-- No full buffer was filled since the latest `backend.seek`. -/
def NoneFresh (s : Pipeline Id) : Prop := ∀ b ∈ s.fullBuffers, b.fresh = false

/-- When the writer may take its step once a `backend.seek` was made. -/
def WriterTurn (s : Pipeline Id) : WriterPc → Prop
  | .loopHead => s.state ≠ .playing → s.NoneFresh
  | .poll => s.Pending → s.fullBuffers = []
  | .wait => if s.interrupted then s.NoneFresh else s.Pending → s.fullBuffers = []
  | .unflag _ => s.readerPc.seeks = false → s.fullBuffers = []
  | .put _ => s.interrupted = true → s.NoneFresh
  | .idle | .write _ | .checkSeeking _ | .clearBuffers _ | .clearAdd _ _ | .clearAll _ | .crashed _ | .done => True

/-- When a thread may take its step once a `backend.seek` was made and while the writer runs. -/
def Turn (s : Pipeline Id) : Label Id → Prop
  | .reader _ => (s.readerPc.puts = true → ¬ s.Pending ∧ s.writerPc.closes = false) ∧
      (s.readerPc.tells = true → s.writerPc.attached = true ∨ s.fullBuffers = [])
  | .writer _ => s.WriterTurn s.writerPc
  | .user _ => True

/-- While a `backend.seek` is pending the reader puts nothing and the writer polls nothing to play.
The writer has begun when the reader tells it, lowers its flag with nothing full, and leaves its loop
with nothing fresh in `fullBuffers`, where the reader then puts nothing more. -/
def InTurn (s : Pipeline Id) (label : Label Id) : Prop :=
  s.sought = true → s.writerPc.over = false → s.Turn label

instance (s : Pipeline Id) : Decidable s.Pending := inferInstanceAs (Decidable (_ ∨ _))

instance (s : Pipeline Id) : Decidable s.NoneFresh :=
  inferInstanceAs (Decidable (∀ b ∈ s.fullBuffers, b.fresh = false))

instance (s : Pipeline Id) : ∀ pc, Decidable (s.WriterTurn pc)
  | .loopHead => inferInstanceAs (Decidable (s.state ≠ .playing → s.NoneFresh))
  | .poll => inferInstanceAs (Decidable (s.Pending → s.fullBuffers = []))
  | .wait => inferInstanceAs (Decidable (if s.interrupted then s.NoneFresh else s.Pending → s.fullBuffers = []))
  | .unflag _ => inferInstanceAs (Decidable (s.readerPc.seeks = false → s.fullBuffers = []))
  | .put _ => inferInstanceAs (Decidable (s.interrupted = true → s.NoneFresh))
  | .idle | .write _ | .checkSeeking _ | .clearBuffers _ | .clearAdd _ _ | .clearAll _ | .crashed _ | .done =>
    .isTrue trivial

instance (s : Pipeline Id) : ∀ label, Decidable (s.Turn label)
  | .reader _ => inferInstanceAs (Decidable ((s.readerPc.puts = true → ¬ s.Pending ∧ s.writerPc.closes = false) ∧
      (s.readerPc.tells = true → s.writerPc.attached = true ∨ s.fullBuffers = [])))
  | .writer _ => inferInstanceAs (Decidable (s.WriterTurn s.writerPc))
  | .user _ => .isTrue trivial

instance (s : Pipeline Id) (label : Label Id) : Decidable (s.InTurn label) :=
  inferInstanceAs (Decidable (s.sought = true → s.writerPc.over = false → s.Turn label))

/-- What the writer relies on: a buffer to play is not stale, it clears in its loop for a seek, and
after its loop where nothing is fresh. -/
def WriterReady (s : Pipeline Id) : Prop :=
  match s.writerPc with
  | .write b => b.stale = false
  | .clearBuffers none | .clearAdd _ none | .clearAll none => s.NoneFresh
  | .clearBuffers (some _) | .clearAdd _ (some _) | .clearAll (some _) | .unflag _ => s.seeking = true
  | _ => True

/-- Full buffers are stale only while a seek is pending, and then none is fresh. Before the first
`backend.seek` they are neither. -/
structure HandedOver (s : Pipeline Id) : Prop where
  stale : ∀ b ∈ s.fullBuffers, b.stale = true → s.Pending ∧ s.sought = true
  fresh : s.Pending → s.NoneFresh
  sought : ∀ b ∈ s.fullBuffers, b.fresh = true → s.sought = true
  backend : s.sought = true → s.backend ≠ none
  reader : s.readerPc.Marked s.sought
  writer : s.WriterReady

theorem NoneFresh.of_sub {s t : Pipeline Id} (none_fresh : s.NoneFresh)
    (fulls : ∀ b ∈ t.fullBuffers, b ∈ s.fullBuffers) : t.NoneFresh :=
  fun b member => none_fresh b (fulls b member)

theorem HandedOver.noneFresh {s : Pipeline Id} (handed : HandedOver s)
    (turn : s.sought = true → s.NoneFresh) : s.NoneFresh := by
  intro b member
  by_contra fresh
  have filled : b.fresh = true := by simpa using fresh
  exact fresh (turn (handed.sought b member filled) b member)

theorem WriterReady.mono {s t : Pipeline Id} (ready : s.WriterReady) (writerPc : t.writerPc = s.writerPc)
    (seeking : s.seeking = true → t.seeking = true)
    (fresh : s.writerPc.closes = true → s.NoneFresh → t.NoneFresh) : t.WriterReady := by
  unfold WriterReady at *
  rw [writerPc]
  cases pc : s.writerPc with
  | clearBuffers held | clearAdd _ held | clearAll held =>
    rw [pc] at ready
    cases held with
    | none => exact fresh (by rw [pc]; rfl) ready
    | some b => exact seeking ready
  | unflag b =>
    rw [pc] at ready
    exact seeking ready
  | write b =>
    rw [pc] at ready
    exact ready
  | _ => trivial

theorem HandedOver.clears {s : Pipeline Id} (handed : HandedOver s) {held : Option AudioBuffer}
    (pc : s.writerPc = .clearBuffers held ∨ s.writerPc = .clearAll held) : s.NoneFresh := by
  have ready := handed.writer
  unfold WriterReady at ready
  rcases pc with pc | pc
  all_goals
    rw [pc] at ready
    cases held with
    | none => exact ready
    | some b => exact handed.fresh (.inl ready)

theorem HandedOver.handsOver {s : Pipeline Id} (handed : HandedOver s) (label : Label Id) :
    s.HandsOver label := by
  cases label with
  | reader answers => trivial
  | user command => trivial
  | writer timeout =>
    have ready := handed.writer
    unfold WriterReady at ready
    cases pc : s.writerPc with
    | write b =>
      simp only [pc] at ready
      simpa only [HandsOver,pc] using ready
    | clearBuffers held =>
      simp only [HandsOver,pc]
      exact fun b first => handed.clears (.inl pc) b (List.mem_of_mem_head? first)
    | clearAll held =>
      simp only [HandsOver,pc]
      exact handed.clears (.inr pc)
    | _ => simp only [HandsOver,pc]

/-- Steps that leave the seek and the writer alone and only take from `fullBuffers`. -/
theorem HandedOver.shrink {s t : Pipeline Id} (handed : HandedOver s)
    (fulls : ∀ b ∈ t.fullBuffers, b ∈ s.fullBuffers) (seeking : t.seeking = s.seeking)
    (seeks : t.readerPc.seeks = s.readerPc.seeks) (sought : t.sought = s.sought)
    (backend : s.backend ≠ none → t.backend ≠ none) (writerPc : t.writerPc = s.writerPc)
    (reader : t.readerPc.Marked s.sought) : HandedOver t := by
  have pending : t.Pending ↔ s.Pending := by rw [Pending,seeking,seeks,Pending]
  refine ⟨fun b member stale => ?_,fun waits => (handed.fresh (pending.mp waits)).of_sub fulls,
    fun b member fresh => by rw [sought]; exact handed.sought b (fulls b member) fresh,
    fun made => backend (handed.backend (by rw [← sought]; exact made)),by rw [sought]; exact reader,
    handed.writer.mono writerPc (by rw [seeking]; exact id) fun _ none_fresh => none_fresh.of_sub fulls⟩
  obtain ⟨waits,made⟩ := handed.stale b (fulls b member) stale
  exact ⟨pending.mpr waits,by rw [sought]; exact made⟩

theorem stop_seek (s : Pipeline Id) : s.stop.seeking = s.seeking ∧ s.stop.sought = s.sought ∧
    (s.backend ≠ none → s.stop.backend ≠ none) := by
  unfold stop
  split
  · exact ⟨rfl,rfl,id⟩
  · refine ⟨rfl,rfl,?_⟩
    dsimp only
    split <;> simp

/-- A buffer is put, once something was sought only where no seek is pending and the writer is in
its loop. -/
theorem HandedOver.puts {s : Pipeline Id} (handed : HandedOver s) {b : AudioBuffer}
    (marked : b.stale = false ∧ (b.fresh = true → s.sought = true))
    (turn : s.sought = true → ¬ s.Pending ∧ s.writerPc.closes = false) :
    HandedOver {s with fullBuffers := s.fullBuffers ++ [b], readerPc := .loopHead} := by
  have sought : ∀ other ∈ s.fullBuffers ++ [b], other.fresh = true → s.sought = true := by
    intro other member fresh
    rcases List.mem_append.mp member with old | new
    · exact handed.sought other old fresh
    · cases List.mem_singleton.mp new
      exact marked.2 fresh
  refine ⟨fun other member stale => ?_,fun waits other member => ?_,sought,handed.backend,trivial,
    handed.writer.mono rfl id fun closes _ other member => ?_⟩
  · rcases List.mem_append.mp member with old | new
    · obtain ⟨waits,made⟩ := handed.stale other old stale
      exact absurd waits (turn made).1
    · cases List.mem_singleton.mp new
      exact absurd stale (by simp [marked.1])
  · by_contra fresh
    have made := sought other member (by simpa using fresh)
    rcases waits with flag | seeks
    · exact (turn made).1 (.inl flag)
    · cases seeks
  · by_contra fresh
    have made := sought other member (by simpa using fresh)
    rw [(turn made).2] at closes
    cases closes

theorem readerStep_handedOver {bufferCount : Nat} {s t : Pipeline Id} {answers : Answers Id}
    (handed : HandedOver s) (turn : s.sought = true → s.Turn (.reader answers))
    (taken : s.readerStep bufferCount answers = some t) : HandedOver t := by
  have marked := handed.reader
  unfold readerStep at taken
  cases pc : s.readerPc with
  | seek position =>
    simp only [pc] at taken
    split at taken
    next absent =>
      have unsought : s.sought ≠ true := fun made => handed.backend made absent
      cases taken
      exact ⟨fun b member stale => absurd (handed.stale b member stale).2 unsought,
        fun _ => handed.noneFresh fun made => absurd made unsought,handed.sought,handed.backend,trivial,
        handed.writer.mono rfl id fun _ none_fresh => none_fresh⟩
    next backend present =>
      cases taken
      have outlived : ∀ b ∈ s.fullBuffers.map AudioBuffer.outlive, b.fresh = false := by
        intro b member
        obtain ⟨old,_,rfl⟩ := List.mem_map.mp member
        rfl
      exact ⟨fun _ _ _ => ⟨.inr rfl,rfl⟩,fun _ => outlived,fun _ _ _ => rfl,fun _ => by rw [present]; exact nofun,
        trivial,handed.writer.mono rfl id fun _ _ => outlived⟩
  | seekEnd position =>
    simp only [pc] at taken
    cases taken
    exact handed.shrink (fun _ member => member) rfl (by rw [pc]; rfl) rfl id rfl trivial
  | onSeek position =>
    simp only [pc] at taken
    cases taken
    have waits : s.Pending := .inr (by rw [pc]; rfl)
    refine ⟨fun b member stale => ?_,fun _ => handed.fresh waits,handed.sought,handed.backend,trivial,
      handed.writer.mono rfl (fun flag => by simp [flag]) fun _ none_fresh => none_fresh⟩
    obtain ⟨_,made⟩ := handed.stale b member stale
    rcases (turn made).2 (by rw [pc]; rfl) with attached | nothing
    · exact ⟨.inl (by simp [attached]),made⟩
    · dsimp only at member
      rw [nothing] at member
      cases member
  | readEnd b =>
    simp only [pc] at taken
    split at taken
    all_goals
      cases taken
      exact handed.shrink (fun _ member => member) rfl (by rw [pc]; rfl) rfl id rfl ⟨rfl,id⟩
  | put b =>
    simp only [pc] at taken
    rw [pc] at marked
    split at taken
    · cases taken
      exact handed.puts marked fun made => (turn made).1 (by rw [pc]; rfl)
    · cases taken
  | reset after =>
    simp only [pc] at taken
    cases taken
    refine handed.shrink (fun _ member => member) rfl ?_ rfl id rfl ?_
    · rw [pc]
      dsimp only
      split
      · rfl
      · exact afterReset_seeks after
    · dsimp only
      split
      · trivial
      · exact afterReset_marked _ after
  | offer b after =>
    simp only [pc] at taken
    split at taken
    · cases taken
      exact handed.shrink (fun _ member => member) rfl (by rw [pc]; rfl) rfl id rfl trivial
    · cases taken
      exact handed.shrink (fun _ member => member) rfl (by rw [pc]; exact afterReset_seeks after) rfl id rfl
        (afterReset_marked _ after)
  | pollFull after | clearBuffers trackId =>
    simp only [pc] at taken
    split at taken
    next =>
      cases taken
      exact handed.shrink (fun _ member => member) rfl (by rw [pc]; rfl) rfl id rfl trivial
    next fulls =>
      cases taken
      exact handed.shrink (fun _ member => by rw [fulls]; exact .tail _ member) rfl (by rw [pc]; rfl) rfl id
        rfl trivial
  | clearAll trackId =>
    simp only [pc] at taken
    cases taken
    exact handed.shrink nofun rfl (by rw [pc]; rfl) rfl id rfl trivial
  | teardown trackId track =>
    simp only [pc] at taken
    cases taken
    exact handed.shrink (fun _ member => member) rfl (by rw [pc]; rfl) rfl (by simp) rfl trivial
  | loadTrack trackId track =>
    simp only [pc] at taken
    split at taken
    · cases taken
      exact handed.shrink (fun _ member => member) rfl (by rw [pc]; rfl) rfl id rfl trivial
    · split at taken
      · cases taken
      · cases taken
        exact handed.shrink (fun _ member => member) rfl (by rw [pc]; rfl) rfl
          (by intro _ absent; cases absent) rfl trivial
  | trackOver =>
    simp only [pc] at taken
    split at taken
    · cases taken
      exact handed.shrink (fun _ member => member) rfl (by rw [pc]; rfl) rfl id rfl trivial
    · cases taken
      obtain ⟨seeking,sought,backend⟩ := s.stop_seek
      exact handed.shrink (by simp) seeking (by rw [pc]; rfl) sought backend (by simp) trivial
  | _ =>
    simp only [pc] at taken
    rw [pc] at marked
    repeat' split at taken
    all_goals cases taken
    all_goals first
      | exact handed.shrink (fun _ member => member) rfl (by rw [pc]; rfl) rfl id rfl trivial
      | exact handed.shrink (fun _ member => member) rfl (by rw [pc]; rfl) rfl id rfl marked

/-- A step of the writer that only takes from `fullBuffers` and keeps the flag. -/
theorem HandedOver.writes {s t : Pipeline Id} (handed : HandedOver s)
    (fulls : ∀ b ∈ t.fullBuffers, b ∈ s.fullBuffers) (seeking : t.seeking = s.seeking)
    (readerPc : t.readerPc = s.readerPc) (sought : t.sought = s.sought)
    (backend : t.backend = s.backend) (ready : t.WriterReady) : HandedOver t := by
  have pending : t.Pending ↔ s.Pending := by rw [Pending,seeking,readerPc,Pending]
  refine ⟨fun b member stale => ?_,fun waits => (handed.fresh (pending.mp waits)).of_sub fulls,
    fun b member fresh => by rw [sought]; exact handed.sought b (fulls b member) fresh,
    by rw [sought,backend]; exact handed.backend,by rw [readerPc,sought]; exact handed.reader,ready⟩
  obtain ⟨waits,made⟩ := handed.stale b (fulls b member) stale
  exact ⟨pending.mpr waits,by rw [sought]; exact made⟩

theorem HandedOver.plays {s : Pipeline Id} (handed : HandedOver s)
    (turn : s.sought = true → s.Pending → s.fullBuffers = []) {b : AudioBuffer} {rest : List AudioBuffer}
    (fulls : s.fullBuffers = b::rest) :
    HandedOver {s with fullBuffers := rest, writerPc := .write b} := by
  refine handed.writes (fun other member => by rw [fulls]; exact .tail _ member) rfl rfl rfl rfl ?_
  by_contra stale
  obtain ⟨waits,made⟩ := handed.stale b (by rw [fulls]; exact .head _) (by simpa [WriterReady] using stale)
  rw [turn made waits] at fulls
  cases fulls

theorem writerStep_handedOver {bufferCount : Nat} {s t : Pipeline Id} {timeout : Bool}
    (handed : HandedOver s) (turn : s.sought = true → s.WriterTurn s.writerPc)
    (taken : s.writerStep bufferCount timeout = some t) : HandedOver t := by
  have ready := handed.writer
  unfold WriterReady at ready
  unfold writerStep at taken
  cases pc : s.writerPc with
  | idle =>
    simp only [pc] at taken
    cases taken
    exact handed.writes (fun _ member => member) rfl rfl rfl rfl trivial
  | loopHead =>
    simp only [pc] at taken
    rw [pc] at turn
    cases taken
    refine handed.writes (fun _ member => member) rfl rfl rfl rfl ?_
    by_cases playing : s.state = .playing
    · simp [WriterReady,playing]
    · rw [if_neg playing]
      exact handed.noneFresh fun made => turn made playing
  | poll =>
    simp only [pc] at taken
    rw [pc] at turn
    split at taken
    next b rest fulls =>
      cases taken
      exact handed.plays turn fulls
    next =>
      cases taken
      exact handed.writes (fun _ member => member) rfl rfl rfl rfl trivial
  | wait =>
    simp only [pc] at taken
    rw [pc] at turn
    dsimp only [WriterTurn] at turn
    split at taken
    next interrupted =>
      cases taken
      rw [if_pos interrupted] at turn
      exact handed.writes (fun _ member => member) rfl rfl rfl rfl (handed.noneFresh turn)
    next calm =>
      rw [if_neg calm] at turn
      split at taken
      next b rest fulls =>
        cases taken
        exact handed.plays turn fulls
      next nothing =>
        split at taken
        · cases taken
          refine handed.writes (fun _ member => member) rfl rfl rfl rfl fun b member => ?_
          dsimp only at member
          rw [nothing] at member
          cases member
        · cases taken
  | write b =>
    simp only [pc] at taken
    cases taken
    refine handed.writes (fun _ member => member) rfl rfl rfl rfl ?_
    by_cases invalid : b.timeStamp < 0
    · simp [WriterReady,invalid]
    · simp [WriterReady,invalid]
  | checkSeeking b =>
    simp only [pc] at taken
    cases taken
    refine handed.writes (fun _ member => member) rfl rfl rfl rfl ?_
    by_cases seeking : s.seeking = true
    · simp [WriterReady,seeking]
    · simp [WriterReady,seeking]
  | clearBuffers held =>
    have none_fresh := handed.clears (.inl pc)
    simp only [pc] at taken ready
    split at taken
    next nothing =>
      cases taken
      refine handed.writes (fun _ member => member) rfl rfl rfl rfl ?_
      cases held with
      | none => trivial
      | some b => exact ready
    next b rest fulls =>
      cases taken
      have fewer : ∀ other ∈ rest, other ∈ s.fullBuffers := fun _ member => by rw [fulls]; exact .tail _ member
      refine handed.writes fewer rfl rfl rfl rfl ?_
      cases held with
      | none => exact none_fresh.of_sub fewer
      | some b => exact ready
  | clearAdd b held =>
    simp only [pc] at taken ready
    split at taken
    all_goals
      cases taken
      refine handed.writes (fun _ member => member) rfl rfl rfl rfl ?_
      cases held with
      | none => exact ready
      | some b => exact ready
  | clearAll held =>
    simp only [pc] at taken ready
    cases taken
    refine handed.writes nofun rfl rfl rfl rfl ?_
    cases held with
    | none => trivial
    | some b => exact ready
  | unflag b =>
    simp only [pc] at taken ready
    rw [pc] at turn
    cases taken
    refine ⟨fun b member stale => ?_,fun _ => handed.fresh (.inl ready),handed.sought,handed.backend,
      handed.reader,trivial⟩
    obtain ⟨_,made⟩ := handed.stale b member stale
    -- the flag falls with nothing full, or the reader is to raise it again
    cases seeks : s.readerPc.seeks with
    | true => exact ⟨.inr seeks,made⟩
    | false =>
      dsimp only at member
      rw [turn made seeks] at member
      cases member
  | put b =>
    simp only [pc] at taken
    rw [pc] at turn
    split at taken
    next interrupted =>
      cases taken
      exact handed.writes (fun _ member => member) rfl rfl rfl rfl
        (handed.noneFresh fun made => turn made interrupted)
    · split at taken
      · cases taken
        exact handed.writes (fun _ member => member) rfl rfl rfl rfl trivial
      · cases taken
  | crashed b =>
    simp only [pc] at taken
    cases taken
  | done =>
    simp only [pc] at taken
    cases taken

theorem command_handedOver {s : Pipeline Id} (handed : HandedOver s) (command : Command Id) :
    HandedOver (s.command command) := by
  have same := s.command_places command
  have seeks : (s.command command).seeking = s.seeking ∧ (s.command command).sought = s.sought ∧
      (s.backend ≠ none → (s.command command).backend ≠ none) := by
    cases command with
    | pause => unfold Pipeline.command pause; dsimp only; split <;> exact ⟨rfl,rfl,id⟩
    | stop => exact s.stop_seek
    | startTrackless => exact ⟨rfl,rfl,id⟩
    | queueTrack trackId => unfold Pipeline.command; dsimp only; split <;> exact ⟨rfl,rfl,id⟩
    | seek seekPosition => unfold Pipeline.command; dsimp only; split <;> exact ⟨rfl,rfl,id⟩
  exact handed.shrink (by rw [same.fulls]; exact fun _ member => member) seeks.1
    (by rw [same.readerPc]) seeks.2.1 seeks.2.2 same.writerPc (by rw [same.readerPc]; exact handed.reader)

theorem over_handsOver {s : Pipeline Id} (ended : s.writerPc.over = true) (label : Label Id) :
    s.HandsOver label := by
  cases label with
  | reader answers => trivial
  | user command => trivial
  | writer timeout => cases pc : s.writerPc <;> simp_all [HandsOver,WriterPc.over]

theorem next_over {bufferCount : Nat} {s t : Pipeline Id} {label : Label Id}
    (ended : s.writerPc.over = true) (taken : s.next bufferCount label = some t) :
    t.writerPc.over = true := by
  cases label with
  | reader answers => rwa [readerStep_writerPc taken]
  | user command =>
    cases Option.some.inj taken
    rwa [(s.command_places command).writerPc]
  | writer timeout =>
    unfold next writerStep at taken
    cases pc : s.writerPc <;> simp_all [WriterPc.over]

theorem next_handedOver {bufferCount : Nat} {s t : Pipeline Id} {label : Label Id}
    (handed : s.writerPc.over = true ∨ HandedOver s) (turn : s.InTurn label)
    (taken : s.next bufferCount label = some t) : t.writerPc.over = true ∨ HandedOver t := by
  rcases handed with ended | handed
  · exact .inl (next_over ended taken)
  · cases runs : s.writerPc.over with
    | true => exact .inl (next_over runs taken)
    | false =>
      right
      cases label with
      | reader answers => exact readerStep_handedOver handed (fun made => turn made runs) taken
      | writer timeout => exact writerStep_handedOver handed (fun made => turn made runs) taken
      | user command =>
        cases Option.some.inj taken
        exact command_handedOver handed command

/-- In a run whose threads take turns around each seek, the writer plays no buffer that was
full at a seek, and its `clearBuffers` takes none that was filled since. -/
theorem seek_handed_over {bufferCount : Nat} {start : Pipeline Id} (begins : start.Begins)
    (unsought : start.sought = false)
    (unmarked : ∀ b ∈ start.fullBuffers, b.stale = false ∧ b.fresh = false)
    {labels : List (Label Id)} (met : Run.Meets (next bufferCount) InTurn start labels) :
    Run.Meets (next bufferCount) HandsOver start labels := by
  have base : HandedOver start := by
    refine ⟨fun b member stale => ?_,fun _ b member => (unmarked b member).2,fun b member fresh => ?_,
      fun made => ?_,by rw [begins.reader]; trivial,by rw [WriterReady,begins.writer]; trivial⟩
    · simp [(unmarked b member).1] at stale
    · simp [(unmarked b member).2] at fresh
    · simp [unsought] at made
  refine Run.meets_of_meets (fun s label t handed turn taken => next_handedOver handed turn taken)
    (fun s label handed _ => ?_) (.inr base) met
  rcases handed with ended | handed
  · exact over_handsOver ended label
  · exact handed.handsOver label

/-- Three buffers: the writer holds one and a second is full at the seek. The third is filled after it
and put when the writer has cleared the second, which then plays it and leaves its loop at a pause. -/
theorem seek_handed_over_told :
    let labels : List (Label Nat) := List.replicate 38 (.reader .playing) ++ List.replicate 4 (.writer false) ++
      [.user (.seek 5)] ++ List.replicate 14 (.reader .playing) ++ List.replicate 6 (.writer false) ++
      [.reader .playing] ++ List.replicate 2 (.writer false)
    (∃ s, Run.exec (next 3) (initial 0) labels = some s ∧ ∃ b, s.writerPc = .write b ∧ b.fresh = true) ∧
    Run.Meets (next 3) HandsOver (initial 0)
      (labels ++ [.user .pause] ++ List.replicate 4 (.writer false)) := by
  intro labels
  have turn : Run.Meets (next 3) InTurn (initial 0)
      (labels ++ [.user .pause] ++ List.replicate 4 (.writer false)) := by decide +kernel
  exact ⟨⟨_,rfl,_,rfl,rfl⟩,seek_handed_over (initial_begins 0) rfl nofun turn⟩

/-- The reader seeks while a buffer is full and puts one more before the writer goes on: the
writer plays the one from before the seek and clears the one from after it. -/
theorem seek_crossed : ∃ s t : Pipeline Nat,
    Run.exec (next 2) (initial 0) (List.replicate 24 (.reader .playing) ++
      [.writer false,.writer false,.user (.seek 5)] ++ List.replicate 15 (.reader .playing) ++
      [.writer false]) = some s ∧ ¬ s.HandsOver (.writer false) ∧
    Run.exec (next 2) s [.writer false,.writer false] = some t ∧ ¬ t.HandsOver (.writer false) :=
  ⟨_,_,rfl,nofun,rfl,fun kept => absurd (kept _ rfl) (by decide)⟩

end Pipeline
end Chipbox.Playback
