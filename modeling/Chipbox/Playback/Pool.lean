import Chipbox.Playback.Moves
import Mathlib.Algebra.GroupWithZero.Nat
import Mathlib.Data.List.Basic

/-! The pool of audio buffers: none is in two places, they are few, and the two threads do not
wait for each other. -/
namespace Chipbox.Playback
variable {Id : Type}

def weight (w : Nat → Nat) (buffers : List AudioBuffer) : Nat := (buffers.map fun b => w b.id).sum

section Weight
variable (w : Nat → Nat)

@[simp] theorem weight_nil : weight w [] = 0 := rfl

@[simp] theorem weight_cons (b : AudioBuffer) (rest : List AudioBuffer) :
    weight w (b::rest) = w b.id + weight w rest := by
  simp [weight]

@[simp] theorem weight_append (first second : List AudioBuffer) :
    weight w (first ++ second) = weight w first + weight w second := by
  simp [weight]

theorem weight_map (change : AudioBuffer → AudioBuffer) (same : ∀ b, (change b).id = b.id)
    (buffers : List AudioBuffer) : weight w (buffers.map change) = weight w buffers := by
  simp [weight,Function.comp_def,same]

end Weight

theorem weight_one (buffers : List AudioBuffer) : weight (fun _ => 1) buffers = buffers.length := by
  simp [weight]

theorem weight_count (id : Nat) (buffers : List AudioBuffer) :
    weight (fun other => if other = id then 1 else 0) buffers =
      (buffers.map AudioBuffer.id).count id := by
  induction buffers with
  | nil => rfl
  | cons b rest ih =>
    rw [weight_cons,ih,List.map_cons,List.count_cons,Nat.add_comm]
    simp

@[simp] theorem clear_id (b : AudioBuffer) : b.clear.id = b.id := rfl

@[simp] theorem fill_id (b : AudioBuffer) (millisPlayed : Int) (source : Option Backend) (sought : Bool) :
    (b.fill millisPlayed source sought).id = b.id := rfl

namespace Pipeline

def buffers (s : Pipeline Id) : List AudioBuffer :=
  s.emptyBuffers ++ s.fullBuffers ++ s.readerPc.hands ++ s.writerPc.hands

theorem Drops.hands {bufferCount : Nat} {answers : Answers Id} {s : Pipeline Id} {b : AudioBuffer}
    (why : Drops bufferCount answers s b) : s.readerPc.hands = [b] := by
  cases why with
  | full pc =>
    rcases pc with ⟨_,pc⟩ | ⟨_,pc⟩ <;> rw [pc] <;> rfl
  | untitled pc => rw [pc]; rfl
  | failed pc => rw [pc]; rfl
  | halted pc => rw [pc]; rfl
  | ended pc => rw [pc]; rfl

/-- A step of the reader moves buffers, creates the next one, drops the one in its hand or
clears the full ones. -/
theorem readerMove_balance {bufferCount : Nat} {answers : Answers Id} {s t : Pipeline Id}
    (move : ReaderMove bufferCount answers s t) (writerPc : t.writerPc = s.writerPc) (w : Nat → Nat) :
    (weight w t.buffers = weight w s.buffers ∧ t.created = s.created) ∨
    (weight w t.buffers = weight w s.buffers + w s.created ∧ t.created = s.created + 1) ∨
    (∃ b, Drops bufferCount answers s b ∧ t.emptyBuffers = s.emptyBuffers ∧
      weight w t.buffers + w b.id = weight w s.buffers ∧ t.created = s.created) ∨
    ((∃ trackId, s.readerPc = .clearAll trackId) ∧ t.emptyBuffers = s.emptyBuffers ∧
      weight w t.buffers + weight w s.fullBuffers = weight w s.buffers ∧ t.created = s.created) := by
  unfold buffers
  rw [writerPc]
  cases move with
  | stay empties fulls created hands =>
    left
    rw [empties,fulls,hands]
    exact ⟨rfl,created⟩
  | fill b millis pc then_pc empties fulls created =>
    left
    rw [empties,fulls,pc,then_pc]
    simp [ReaderPc.hands,created]
  | outlive pc then_pc empties fulls created =>
    left
    obtain ⟨_,pc⟩ := pc
    obtain ⟨_,then_pc⟩ := then_pc
    rw [empties,fulls,pc,then_pc]
    simp [ReaderPc.hands,created,weight_map w AudioBuffer.outlive fun _ => rfl]
  | create next pc then_pc nothing empties fulls created =>
    right; left
    rw [empties,fulls,nothing,pc,then_pc]
    simp only [weight_append,weight_nil,weight_cons,ReaderPc.hands,AudioBuffer.new]
    omega
  | takeFull b free hands fulls empties created =>
    left
    rw [empties,fulls,free,hands]
    simp [created]
    omega
  | giveEmpty b held free room empties fulls created =>
    left
    rw [empties,fulls,held,free]
    simp [created]
    omega
  | takeEmpty b pc then_pc empties fulls created =>
    left
    rw [empties,fulls,pc,then_pc]
    simp [ReaderPc.hands,created]
    omega
  | giveFull b pc then_pc room fulls empties created =>
    left
    rw [empties,fulls,pc,then_pc]
    simp [ReaderPc.hands,created]
  | drop b why free empties fulls created =>
    right; right; left
    refine ⟨b,why,empties,?_,created⟩
    rw [empties,fulls,free,Drops.hands why]
    simp
    omega
  | clearAll pc free fulls empties created =>
    right; right; right
    refine ⟨pc,empties,?_,created⟩
    obtain ⟨_,pc⟩ := pc
    rw [empties,fulls,free,pc]
    simp [ReaderPc.hands]
    omega

/-- A step of the writer moves buffers, drops one or clears the full ones. -/
theorem writerMove_balance {bufferCount : Nat} {s t : Pipeline Id}
    (move : WriterMove bufferCount s t) (readerPc : t.readerPc = s.readerPc) (w : Nat → Nat) :
    weight w t.buffers = weight w s.buffers ∨
    (∃ b, ((∃ held, s.writerPc = .clearAdd b held ∧ bufferCount ≤ s.emptyBuffers.length) ∨
        (s.writerPc = .put b ∧ s.interrupted = true)) ∧ t.emptyBuffers = s.emptyBuffers ∧
      weight w t.buffers + w b.id = weight w s.buffers) ∨
    (∃ held, s.writerPc = .clearAll held ∧
      weight w t.buffers + weight w s.fullBuffers = weight w s.buffers) := by
  unfold buffers
  rw [readerPc]
  cases move with
  | stay empties fulls hands =>
    left
    rw [empties,fulls,hands]
  | blank b pc then_pc empties fulls =>
    left
    have held : s.writerPc.hands = [b] := by
      rcases pc with pc | pc <;> rw [pc] <;> rfl
    rw [empties,fulls,held,then_pc]
    simp [WriterPc.hands]
  | play b pc then_pc fulls empties =>
    left
    have free : s.writerPc.hands = [] := by
      rcases pc with pc | pc <;> rw [pc] <;> rfl
    rw [empties,fulls,free,then_pc]
    simp [WriterPc.hands]
    omega
  | clear b held pc then_pc fulls empties =>
    left
    rw [empties,fulls,pc,then_pc]
    simp [WriterPc.hands]
    omega
  | giveEmpty b hands room empties fulls =>
    left
    rw [empties,fulls,hands]
    simp
    omega
  | drop b hands why empties fulls =>
    right; left
    refine ⟨b,why,empties,?_⟩
    rw [empties,fulls,hands]
    simp
    omega
  | clearAll held pc then_pc fulls empties =>
    right; right
    refine ⟨held,pc,?_⟩
    rw [empties,fulls,pc,then_pc,hands_afterClear]
    simp [WriterPc.hands]
    omega

theorem readerMove_weight {bufferCount : Nat} {answers : Answers Id} {s t : Pipeline Id}
    (move : ReaderMove bufferCount answers s t) (writerPc : t.writerPc = s.writerPc) (w : Nat → Nat) :
    (weight w t.buffers ≤ weight w s.buffers ∧ t.created = s.created) ∨
      (weight w t.buffers = weight w s.buffers + w s.created ∧ t.created = s.created + 1) := by
  rcases readerMove_balance move writerPc w with
    ⟨same,created⟩ | grown | ⟨b,_,_,lost,created⟩ | ⟨_,_,lost,created⟩
  · exact .inl ⟨Nat.le_of_eq same,created⟩
  · exact .inr grown
  · exact .inl ⟨by omega,created⟩
  · exact .inl ⟨by omega,created⟩

theorem writerMove_weight {bufferCount : Nat} {s t : Pipeline Id}
    (move : WriterMove bufferCount s t) (readerPc : t.readerPc = s.readerPc) (w : Nat → Nat) :
    weight w t.buffers ≤ weight w s.buffers := by
  rcases writerMove_balance move readerPc w with same | ⟨b,_,_,lost⟩ | ⟨_,_,lost⟩ <;> omega

theorem command_weight (s : Pipeline Id) (command : Command Id) (w : Nat → Nat) :
    weight w (s.command command).buffers = weight w s.buffers := by
  obtain ⟨empties,fulls,_,readerPc,writerPc⟩ := s.command_places command
  rw [buffers,empties,fulls,readerPc,writerPc,buffers]

theorem next_weight {bufferCount : Nat} {s t : Pipeline Id} {label : Label Id}
    (taken : s.next bufferCount label = some t) (w : Nat → Nat) :
    (weight w t.buffers ≤ weight w s.buffers ∧ t.created = s.created) ∨
      (weight w t.buffers = weight w s.buffers + w s.created ∧ t.created = s.created + 1) := by
  cases label with
  | reader answers =>
    exact readerMove_weight (readerStep_moves taken) (readerStep_writerPc taken) w
  | writer timeout =>
    obtain ⟨readerPc,created⟩ := writerStep_reader taken
    exact .inl ⟨writerMove_weight (writerStep_moves taken) readerPc w,created⟩
  | user command =>
    cases Option.some.inj taken
    exact .inl ⟨Nat.le_of_eq (s.command_weight command w),(s.command_places command).created⟩

def Distinct (s : Pipeline Id) : Prop :=
  ∀ id, (s.buffers.map AudioBuffer.id).count id ≤ if id < s.created then 1 else 0

theorem next_distinct {bufferCount : Nat} {s t : Pipeline Id} {label : Label Id}
    (distinct : s.Distinct) (taken : s.next bufferCount label = some t) : t.Distinct := by
  intro id
  have before := distinct id
  have after := next_weight taken fun other => if other = id then 1 else 0
  simp only [weight_count] at after
  rcases after with ⟨fewer,same⟩ | ⟨more,same⟩
  · rw [same]
    exact Nat.le_trans fewer before
  · rw [same,more]
    by_cases named : s.created = id
    · subst named
      simp only [Nat.lt_irrefl,if_false,Nat.le_zero_eq] at before
      simp [before]
    · have still : id < s.created + 1 ↔ id < s.created := by omega
      simpa only [if_neg named,still,Nat.add_zero] using before

/-- The queues keep to their capacity. Beyond `bufferCount + 2` there is at most the buffer that
the reader has just created while `emptyBuffers` is full, which it is about to drop. -/
structure Few (bufferCount : Nat) (s : Pipeline Id) : Prop where
  empties : s.emptyBuffers.length ≤ bufferCount
  fulls : s.fullBuffers.length ≤ bufferCount
  total : s.buffers.length ≤ bufferCount + 2 ∨
    ((∃ b next, s.readerPc = .offer b next) ∧ s.emptyBuffers.length = bufferCount ∧
      s.buffers.length ≤ bufferCount + 3)

theorem writerHands_length (pc : WriterPc) : pc.hands.length ≤ 2 := by
  cases pc with
  | clearBuffers held | clearAll held => cases held <;> simp [WriterPc.hands]
  | clearAdd b held => cases held <;> simp [WriterPc.hands]
  | _ => simp [WriterPc.hands]

theorem readerMove_capacity {bufferCount : Nat} {answers : Answers Id} {s t : Pipeline Id}
    (move : ReaderMove bufferCount answers s t) (empties : s.emptyBuffers.length ≤ bufferCount)
    (fulls : s.fullBuffers.length ≤ bufferCount) :
    t.emptyBuffers.length ≤ bufferCount ∧ t.fullBuffers.length ≤ bufferCount := by
  cases move with
  | outlive _ _ same changed =>
    rw [same,changed,List.length_map]
    exact ⟨empties,fulls⟩
  | takeFull _ _ _ rest same =>
    rw [rest,List.length_cons] at fulls
    rw [same]
    exact ⟨empties,by omega⟩
  | giveEmpty _ _ _ room more same =>
    rw [more,same,List.length_append,List.length_singleton]
    exact ⟨room,fulls⟩
  | takeEmpty _ _ _ rest same =>
    rw [rest,List.length_cons] at empties
    rw [same]
    exact ⟨by omega,fulls⟩
  | giveFull _ _ _ room more same =>
    rw [more,same,List.length_append,List.length_singleton]
    exact ⟨empties,room⟩
  | stay same still | fill _ _ _ _ same still | drop _ _ _ same still =>
    rw [same,still]
    exact ⟨empties,fulls⟩
  | create _ _ _ _ same nothing | clearAll _ _ nothing same =>
    rw [same,nothing]
    exact ⟨empties,Nat.zero_le _⟩

theorem writerMove_capacity {bufferCount : Nat} {s t : Pipeline Id}
    (move : WriterMove bufferCount s t) (empties : s.emptyBuffers.length ≤ bufferCount)
    (fulls : s.fullBuffers.length ≤ bufferCount) :
    s.emptyBuffers.length ≤ t.emptyBuffers.length ∧
      t.emptyBuffers.length ≤ bufferCount ∧ t.fullBuffers.length ≤ bufferCount := by
  cases move with
  | stay same still | blank _ _ _ same still | drop _ _ _ same still =>
    rw [same,still]
    exact ⟨Nat.le_refl _,empties,fulls⟩
  | play _ _ _ rest same | clear _ _ _ _ rest same =>
    rw [rest,List.length_cons] at fulls
    rw [same]
    exact ⟨Nat.le_refl _,empties,by omega⟩
  | giveEmpty _ _ room more same =>
    rw [more,same,List.length_append,List.length_singleton]
    exact ⟨Nat.le_succ _,room,fulls⟩
  | clearAll _ _ _ nothing same =>
    rw [same,nothing]
    exact ⟨Nat.le_refl _,empties,Nat.zero_le _⟩

theorem readerStep_few {bufferCount : Nat} {s t : Pipeline Id} {answers : Answers Id}
    (few : Few bufferCount s) (taken : s.readerStep bufferCount answers = some t) :
    Few bufferCount t := by
  obtain ⟨empties,fulls,total⟩ := few
  have move := readerStep_moves taken
  have writerPc := readerStep_writerPc taken
  obtain ⟨empties_t,fulls_t⟩ := readerMove_capacity move empties fulls
  refine ⟨empties_t,fulls_t,?_⟩
  rcases total with within | ⟨⟨b,next,pc⟩,full,most⟩
  · have moved := readerMove_weight move writerPc fun _ => 1
    simp only [weight_one] at moved
    cases move with
    | create next pc then_pc nothing same still =>
      have hands := writerHands_length s.writerPc
      have total : t.buffers.length = s.emptyBuffers.length + 1 + s.writerPc.hands.length := by
        simp [buffers,same,still,then_pc,writerPc,ReaderPc.hands]
        omega
      rcases Nat.lt_or_ge s.emptyBuffers.length bufferCount with room | full
      · left
        omega
      · right
        refine ⟨⟨_,_,then_pc⟩,by rw [same]; omega,by omega⟩
    | _ => left; omega
  · left
    unfold readerStep at taken
    simp only [pc] at taken
    rw [if_neg (by omega)] at taken
    cases taken
    simp only [buffers,pc,ReaderPc.hands,List.length_append,List.length_singleton] at most
    simp only [buffers,hands_afterReset,List.length_append,List.length_nil]
    omega

theorem next_few {bufferCount : Nat} {s t : Pipeline Id} {label : Label Id}
    (few : Few bufferCount s) (taken : s.next bufferCount label = some t) : Few bufferCount t := by
  cases label with
  | reader answers => exact readerStep_few few taken
  | writer timeout =>
    obtain ⟨empties,fulls,total⟩ := few
    have move := writerStep_moves taken
    obtain ⟨readerPc,_⟩ := writerStep_reader taken
    obtain ⟨grown,empties_t,fulls_t⟩ := writerMove_capacity move empties fulls
    have fewer := writerMove_weight move readerPc fun _ => 1
    rw [weight_one,weight_one] at fewer
    refine ⟨empties_t,fulls_t,?_⟩
    rcases total with within | ⟨pc,full,most⟩
    · exact .inl (Nat.le_trans fewer within)
    · exact .inr ⟨by rw [readerPc]; exact pc,by omega,by omega⟩
  | user command =>
    cases Option.some.inj taken
    obtain ⟨empties,fulls,_,readerPc,writerPc⟩ := s.command_places command
    have same : (s.command command).buffers = s.buffers := by
      rw [buffers,empties,fulls,readerPc,writerPc,buffers]
    refine ⟨by rw [empties]; exact few.empties,by rw [fulls]; exact few.fulls,?_⟩
    rw [readerPc,empties,same]
    exact few.total

/-- The reader waits in `fullBuffers.put`. -/
def ReaderBlocked (bufferCount : Nat) (s : Pipeline Id) : Prop :=
  (∃ b, s.readerPc = .put b) ∧ bufferCount ≤ s.fullBuffers.length

/-- The writer waits in `emptyBuffers.put`. -/
def WriterBlocked (bufferCount : Nat) (s : Pipeline Id) : Prop :=
  (∃ b, s.writerPc = .put b) ∧ bufferCount ≤ s.emptyBuffers.length

theorem Few.not_both {bufferCount : Nat} {s : Pipeline Id} (few : Few bufferCount s)
    (positive : 1 ≤ bufferCount) :
    ¬ (s.ReaderBlocked bufferCount ∧ s.WriterBlocked bufferCount) := by
  rintro ⟨⟨⟨b,reader⟩,fulls⟩,⟨⟨held,writer⟩,empties⟩⟩
  rcases few.total with within | ⟨⟨_,_,pc⟩,_⟩
  · simp only [buffers,reader,writer,ReaderPc.hands,WriterPc.hands,List.length_append,
      List.length_singleton] at within
    omega
  · rw [pc] at reader
    cases reader

/-- From empty queues on, in every interleaving: no buffer is in two places, there are at most
three more than `bufferCount`, and the threads never wait for each other. -/
theorem pool_safe {bufferCount : Nat} (positive : 1 ≤ bufferCount) {start s : Pipeline Id}
    (begins : start.Begins) (noEmpties : start.emptyBuffers = []) (noFulls : start.fullBuffers = [])
    {labels : List (Label Id)} (run : Run.exec (next bufferCount) start labels = some s) :
    (s.buffers.map AudioBuffer.id).Nodup ∧ s.buffers.length ≤ bufferCount + 3 ∧
      ¬ (s.ReaderBlocked bufferCount ∧ s.WriterBlocked bufferCount) := by
  have nothing : start.buffers = [] := by
    rw [buffers,noEmpties,noFulls,begins.reader,begins.writer]
    rfl
  have distinct : s.Distinct := Run.invariant_of_step (fun _ _ _ => next_distinct)
    (by intro id; rw [nothing]; exact Nat.zero_le _) run
  have few : Few bufferCount s := Run.invariant_of_step (fun _ _ _ => next_few)
    ⟨by simp [noEmpties],by simp [noFulls],.inl (by simp [nothing])⟩ run
  refine ⟨List.nodup_iff_count.mpr fun id => ?_,?_,few.not_both positive⟩
  · have once := distinct id
    split at once <;> omega
  · rcases few.total with within | ⟨_,_,most⟩ <;> omega

/-- The first track is loaded and its first buffer put. -/
theorem pool_safe_started : ∃ s : Pipeline Nat,
    Run.exec (next 1) (initial 0) (List.replicate 21 (.reader .playing)) = some s ∧
    s.fullBuffers.length = 1 ∧ (s.buffers.map AudioBuffer.id).Nodup ∧ s.buffers.length ≤ 1 + 3 ∧
      ¬ (s.ReaderBlocked 1 ∧ s.WriterBlocked 1) := by
  obtain ⟨s,run,full⟩ : ∃ s : Pipeline Nat, Run.exec (next 1) (initial 0)
    (List.replicate 21 (.reader .playing)) = some s ∧ s.fullBuffers.length = 1 := ⟨_,rfl,rfl⟩
  exact ⟨s,run,full,pool_safe (Nat.le_refl 1) (initial_begins 0) rfl rfl run⟩

end Pipeline
end Chipbox.Playback
