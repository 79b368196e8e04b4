import Chipbox.Playback.Moves

/-! When the reader takes over what the user asks of it: a track or a seek position. -/
namespace Chipbox.Playback
variable {Id : Type}

namespace ReaderPc

/-- The track that the reader has read from `queuedTrackId` and not yet made the playing one. -/
def takes : ReaderPc Id → Option Id
  | .getTrackSync trackId | .teardown trackId _ | .loadTrack trackId _ | .onTrackChange trackId
  | .clearBuffers trackId | .clearAdd _ trackId | .clearAll trackId | .setField trackId
  | .reset (.load trackId _) | .pollFull (.load trackId _) | .offer _ (.load trackId _) => some trackId
  | _ => none

/-- The reader has read `queuedTrackId` and is to set it to null. -/
def takesTrack : ReaderPc Id → Bool
  | .unqueueTrack => true
  | pc => pc.takes.isSome

/-- The reader has read `queuedSeekPosition` and is to set it to null. -/
def takesSeek : ReaderPc Id → Bool
  | .seek _ | .seekEnd _ | .onSeek _ | .unqueueSeek => true
  | _ => false

/-- The reader has begun a round and not yet read `queuedSeekPosition`. -/
def beforeSeek : ReaderPc Id → Bool
  | .queuedTrack | .queuedSeek => true
  | pc => pc.takesTrack

theorem beforeSeek_of_takes {pc : ReaderPc Id} {trackId : Id} (taking : pc.takes = some trackId) :
    pc.beforeSeek = true ∧ pc.takesSeek = false := by
  cases pc with
  | reset after | pollFull after | offer b after =>
    cases after with
    | load => exact ⟨rfl,rfl⟩
    | finish => cases taking
  | getTrackSync | teardown | loadTrack | onTrackChange | clearBuffers | clearAdd | clearAll
    | setField => exact ⟨rfl,rfl⟩
  | _ => cases taking

end ReaderPc

namespace Pipeline

def Assigns (trackId : Id) (s : Pipeline Id) : Label Id → Prop
  | .reader _ => s.readerPc = .setField trackId
  | _ => False

/-- The step passes the position to `backend.seek`. -/
def Seeks (position : Int) (s : Pipeline Id) : Label Id → Prop
  | .reader _ => s.readerPc = .seek position ∧ s.backend ≠ none
  | _ => False

def LastTrack (_ : Pipeline Id) : Label Id → Prop
  | .user (.queueTrack (some _)) => False
  | _ => True

def LastSeek (_ : Pipeline Id) : Label Id → Prop
  | .user (.seek _) => False
  | _ => True

/-- Nothing takes a stored track's place: the user stores no null, and the reader, at a
track's end, does not replace one that is queued. -/
def KeepsTrack (s : Pipeline Id) : Label Id → Prop
  | .user (.queueTrack none) => False
  | .reader answers => s.readerPc = .trackOver → answers.isNextTrackAvailable = true →
      s.queuedTrackId = none ∨
      s.queuedTrackId = if answers.repeatOne then s.playingTrackId else answers.getNextTrack
  | _ => True

def KeepsSeek (s : Pipeline Id) : Label Id → Prop
  | .reader _ => ∀ position, s.readerPc = .seek position → s.backend ≠ none
  | _ => True

def CompletesRound (bufferCount : Nat) (s : Pipeline Id) (labels : List (Label Id)) : Prop :=
  ∃ first answers second before finish, labels = first ++ .reader answers::second ∧
    Run.exec (next bufferCount) s first = some before ∧ before.readerPc = .loopHead ∧
    Run.exec (next bufferCount) before (.reader answers::second) = some finish ∧
    finish.readerPc = .loopHead

def TrackWaits (trackId : Id) (s : Pipeline Id) : Prop :=
  (s.queuedTrackId = some trackId ∧ s.readerPc.takesTrack = false) ∨ s.readerPc.takes = some trackId

def TrackPending (trackId : Id) (s : Pipeline Id) : Prop :=
  (s.queuedTrackId = some trackId ∧ s.readerPc = .queuedTrack) ∨ s.readerPc.takes = some trackId

def SeekWaits (position : Int) (s : Pipeline Id) : Prop :=
  (s.queuedSeekPosition = some position ∧ s.readerPc.takesSeek = false) ∨ s.readerPc = .seek position

def SeekPending (position : Int) (s : Pipeline Id) : Prop :=
  (s.queuedSeekPosition = some position ∧ s.readerPc.beforeSeek = true) ∨ s.readerPc = .seek position

theorem takes_step {bufferCount : Nat} {s t : Pipeline Id} {answers : Answers Id} {trackId : Id}
    (taking : s.readerPc.takes = some trackId) (unassigned : s.readerPc ≠ .setField trackId)
    (taken : s.readerStep bufferCount answers = some t) : t.readerPc.takes = some trackId := by
  unfold readerStep at taken
  cases pc : s.readerPc with
  | reset after | pollFull after | offer b after =>
    rw [pc] at taking
    simp only [pc] at taken
    cases after with
    | finish => cases taking
    | load other track =>
      repeat' split at taken
      all_goals cases taken
      all_goals exact taking
  | setField other =>
    rw [pc] at taking
    cases taking
    exact absurd pc unassigned
  | getTrackSync | teardown | loadTrack | clearBuffers | clearAdd | clearAll =>
    rw [pc] at taking
    simp only [pc] at taken
    repeat' split at taken
    all_goals cases taken
    all_goals exact taking
  | onTrackChange =>
    rw [pc] at taking
    simp only [pc] at taken
    cases taken
    dsimp only
    split <;> exact taking
  | _ =>
    rw [pc] at taking
    cases taking

/-- A reader that is not taking a track over reads the queued one or leaves it alone. -/
theorem untaken_step {bufferCount : Nat} {s t : Pipeline Id} {answers : Answers Id} {trackId : Id}
    (queued : s.queuedTrackId = some trackId) (untaken : s.readerPc.takesTrack = false)
    (keeps : s.KeepsTrack (.reader answers)) (taken : s.readerStep bufferCount answers = some t) :
    TrackWaits trackId t := by
  unfold readerStep at taken
  cases pc : s.readerPc with
  | queuedTrack =>
    simp only [pc,queued] at taken
    cases taken
    exact .inr rfl
  | reset after | pollFull after | offer b after =>
    rw [pc] at untaken
    simp only [pc] at taken
    cases after with
    | load => cases untaken
    | finish =>
      repeat' split at taken
      all_goals cases taken
      all_goals exact .inl ⟨queued,rfl⟩
  | trackOver =>
    simp only [pc] at taken
    split at taken
    next available =>
      cases taken
      rcases keeps pc available with nothing | same
      · cases nothing.symm.trans queued
      · exact .inl ⟨same.symm.trans queued,rfl⟩
    next =>
      cases taken
      refine .inl ⟨?_,rfl⟩
      unfold stop
      split <;> exact queued
  | getTrackSync | teardown | loadTrack | onTrackChange | clearBuffers | clearAdd | clearAll
    | setField | unqueueTrack =>
    rw [pc] at untaken
    cases untaken
  | _ =>
    simp only [pc] at taken
    repeat' split at taken
    all_goals cases taken
    all_goals exact .inl ⟨queued,rfl⟩

theorem seekless_step {bufferCount : Nat} {s t : Pipeline Id} {answers : Answers Id} {position : Int}
    (queued : s.queuedSeekPosition = some position) (unsought : s.readerPc.takesSeek = false)
    (taken : s.readerStep bufferCount answers = some t) :
    t.readerPc = .seek position ∧ s.readerPc = .queuedSeek ∨
      t.queuedSeekPosition = some position ∧ t.readerPc.takesSeek = false := by
  unfold readerStep at taken
  cases pc : s.readerPc with
  | queuedSeek =>
    simp only [pc,queued] at taken
    cases taken
    exact .inl ⟨rfl,rfl⟩
  | seek | seekEnd | onSeek | unqueueSeek =>
    rw [pc] at unsought
    cases unsought
  | reset after | offer b after =>
    simp only [pc] at taken
    cases after with
    | load | finish =>
      repeat' split at taken
      all_goals cases taken
      all_goals exact .inr ⟨queued,rfl⟩
  | trackOver =>
    simp only [pc] at taken
    split at taken
    · cases taken
      exact .inr ⟨queued,rfl⟩
    · cases taken
      refine .inr ⟨?_,rfl⟩
      unfold stop
      split <;> exact queued
  | _ =>
    simp only [pc] at taken
    repeat' split at taken
    all_goals cases taken
    all_goals exact .inr ⟨queued,rfl⟩

/-- What the writer and the commands that make no request leave alone. -/
theorem writerStep_requests {bufferCount : Nat} {s t : Pipeline Id} {timeout : Bool}
    (taken : s.writerStep bufferCount timeout = some t) :
    t.queuedTrackId = s.queuedTrackId ∧ t.queuedSeekPosition = s.queuedSeekPosition := by
  unfold writerStep at taken
  repeat' split at taken
  all_goals first
    | cases taken; exact ⟨rfl,rfl⟩
    | cases taken

theorem track_command {s : Pipeline Id} {command : Command Id}
    (last : s.LastTrack (.user command)) (keeps : s.KeepsTrack (.user command)) :
    (s.command command).queuedTrackId = s.queuedTrackId := by
  cases command with
  | queueTrack stored =>
    cases stored with
    | none => exact keeps.elim
    | some _ => exact last.elim
  | pause => unfold Pipeline.command pause; dsimp only; split <;> rfl
  | stop => unfold Pipeline.command stop; dsimp only; split <;> rfl
  | startTrackless => rfl
  | seek seekPosition => unfold Pipeline.command; dsimp only; split <;> rfl

theorem seek_command {s : Pipeline Id} {command : Command Id} (last : s.LastSeek (.user command)) :
    (s.command command).queuedSeekPosition = s.queuedSeekPosition := by
  cases command with
  | seek _ => exact last.elim
  | pause => unfold Pipeline.command pause; dsimp only; split <;> rfl
  | stop => unfold Pipeline.command stop; dsimp only; split <;> rfl
  | startTrackless => rfl
  | queueTrack trackId => unfold Pipeline.command; dsimp only; split <;> rfl

theorem trackWaits_step {bufferCount : Nat} {s t : Pipeline Id} {label : Label Id} {trackId : Id}
    (waits : s.TrackWaits trackId) (last : s.LastTrack label) (keeps : s.KeepsTrack label)
    (unassigned : ¬ s.Assigns trackId label) (taken : s.next bufferCount label = some t) :
    TrackWaits trackId t := by
  cases label with
  | reader answers =>
    rcases waits with ⟨queued,untaken⟩ | taking
    · exact untaken_step queued untaken keeps taken
    · exact .inr (takes_step taking unassigned taken)
  | writer timeout =>
    have same := writerStep_reader taken
    unfold TrackWaits
    rw [same.1,(writerStep_requests taken).1]
    exact waits
  | user command =>
    cases Option.some.inj taken
    unfold TrackWaits
    rw [track_command last keeps,(s.command_places command).readerPc]
    exact waits

theorem trackPending_step {bufferCount : Nat} {s t : Pipeline Id} {label : Label Id} {trackId : Id}
    (pending : s.TrackPending trackId) (last : s.LastTrack label) (keeps : s.KeepsTrack label)
    (unassigned : ¬ s.Assigns trackId label) (taken : s.next bufferCount label = some t) :
    TrackPending trackId t := by
  cases label with
  | reader answers =>
    rcases pending with ⟨queued,pc⟩ | taking
    · have stepped : s.readerStep bufferCount answers = some t := taken
      unfold readerStep at stepped
      simp only [pc,queued] at stepped
      cases stepped
      exact .inr rfl
    · exact .inr (takes_step taking unassigned taken)
  | writer timeout =>
    have same := writerStep_reader taken
    unfold TrackPending
    rw [same.1,(writerStep_requests taken).1]
    exact pending
  | user command =>
    cases Option.some.inj taken
    unfold TrackPending
    rw [track_command last keeps,(s.command_places command).readerPc]
    exact pending

theorem seekWaits_step {bufferCount : Nat} {s t : Pipeline Id} {label : Label Id} {position : Int}
    (waits : s.SeekWaits position) (last : s.LastSeek label) (keeps : s.KeepsSeek label)
    (unsought : ¬ s.Seeks position label) (taken : s.next bufferCount label = some t) :
    SeekWaits position t := by
  cases label with
  | reader answers =>
    rcases waits with ⟨queued,idle⟩ | pc
    · rcases seekless_step queued idle taken with reads | rests
      · exact .inr reads.1
      · exact .inl rests
    · exact absurd ⟨pc,keeps position pc⟩ unsought
  | writer timeout =>
    have same := writerStep_reader taken
    unfold SeekWaits
    rw [same.1,(writerStep_requests taken).2]
    exact waits
  | user command =>
    cases Option.some.inj taken
    unfold SeekWaits
    rw [seek_command last,(s.command_places command).readerPc]
    exact waits

theorem beforeSeek_step {bufferCount : Nat} {s t : Pipeline Id} {answers : Answers Id}
    (early : s.readerPc.beforeSeek = true) (unread : s.readerPc ≠ .queuedSeek)
    (taken : s.readerStep bufferCount answers = some t) : t.readerPc.beforeSeek = true := by
  cases taking : s.readerPc.takes with
  | some trackId =>
    by_cases assigns : s.readerPc = .setField trackId
    · unfold readerStep at taken
      simp only [assigns] at taken
      cases taken
      rfl
    · exact (ReaderPc.beforeSeek_of_takes (takes_step taking assigns taken)).1
  | none =>
    unfold readerStep at taken
    cases pc : s.readerPc with
    | queuedTrack =>
      simp only [pc] at taken
      split at taken
      all_goals
        cases taken
        rfl
    | unqueueTrack =>
      simp only [pc] at taken
      cases taken
      rfl
    | queuedSeek => exact absurd pc unread
    | reset after | pollFull after | offer b after =>
      rw [pc] at early taking
      cases after with
      | load => cases taking
      | finish => cases early
    | getTrackSync | teardown | loadTrack | onTrackChange | clearBuffers | clearAdd | clearAll
    | setField =>
      rw [pc] at taking
      cases taking
    | _ =>
      rw [pc] at early
      cases early

theorem takesSeek_of_beforeSeek {pc : ReaderPc Id} (early : pc.beforeSeek = true) :
    pc.takesSeek = false := by
  cases pc with
  | reset after | pollFull after | offer b after => rfl
  | seek | seekEnd | onSeek | unqueueSeek => cases early
  | _ => rfl

theorem seekPending_step {bufferCount : Nat} {s t : Pipeline Id} {label : Label Id} {position : Int}
    (pending : s.SeekPending position) (last : s.LastSeek label) (keeps : s.KeepsSeek label)
    (unsought : ¬ s.Seeks position label) (taken : s.next bufferCount label = some t) :
    SeekPending position t := by
  cases label with
  | reader answers =>
    rcases pending with ⟨queued,early⟩ | pc
    · rcases seekless_step queued (takesSeek_of_beforeSeek early) taken with reads | rests
      · exact .inr reads.1
      · refine .inl ⟨rests.1,beforeSeek_step early (fun pc => ?_) taken⟩
        have stepped : s.readerStep bufferCount answers = some t := taken
        unfold readerStep at stepped
        simp only [pc,queued] at stepped
        cases stepped
        cases rests.2
    · exact absurd ⟨pc,keeps position pc⟩ unsought
  | writer timeout =>
    have same := writerStep_reader taken
    unfold SeekPending
    rw [same.1,(writerStep_requests taken).2]
    exact pending
  | user command =>
    cases Option.some.inj taken
    unfold SeekPending
    rw [seek_command last,(s.command_places command).readerPc]
    exact pending

theorem loopHead_step {bufferCount : Nat} {s t : Pipeline Id} {answers : Answers Id}
    (head : s.readerPc = .loopHead) (playing : s.state = .playing)
    (taken : s.next bufferCount (.reader answers) = some t) :
    t.readerPc = .queuedTrack ∧ t.queuedTrackId = s.queuedTrackId ∧
      t.queuedSeekPosition = s.queuedSeekPosition := by
  have stepped : s.readerStep bufferCount answers = some t := taken
  unfold readerStep at stepped
  simp only [head,if_pos playing] at stepped
  cases stepped
  exact ⟨rfl,rfl,rfl⟩

theorem playing_at {bufferCount : Nat} {start before : Pipeline Id} {first second : List (Label Id)}
    {label : Label Id} (early : Run.exec (next bufferCount) start first = some before)
    (playing : Run.Always (next bufferCount) (fun s => s.state = .playing) start
      (first ++ label::second)) : before.state = .playing := by
  have met := (Run.meets_append _ _ early).mp (Run.meets_of_always playing)
  exact met.2.1.1

/-- A track that is stored while the reader takes no other over, and that nothing replaces, is
the playing one by the end of the reader's next full round; likewise a seek position that is
stored while the reader takes none over, if the reader then has a backend. -/
theorem requests_taken {bufferCount : Nat} (s : Pipeline Id) (attached : s.readerAttached = true)
    (labels : List (Label Id)) (trackId : Id) (position : Int) :
    (let stored := s.command (.queueTrack (some trackId));
      CompletesRound bufferCount stored labels →
      Run.Always (next bufferCount) (fun s => s.state = .playing) stored labels →
      Run.Meets (next bufferCount) LastTrack stored labels →
      s.readerPc.takesTrack = false ∨ s.readerPc.takes = some trackId →
      Run.Meets (next bufferCount) KeepsTrack stored labels →
      Run.Happens (next bufferCount) (Assigns trackId) stored labels) ∧
    (let stored := s.command (.seek position);
      CompletesRound bufferCount stored labels →
      Run.Always (next bufferCount) (fun s => s.state = .playing) stored labels →
      Run.Meets (next bufferCount) LastSeek stored labels →
      s.readerPc.takesSeek = false ∨ s.readerPc = .seek position →
      Run.Meets (next bufferCount) KeepsSeek stored labels →
      Run.Happens (next bufferCount) (Seeks position) stored labels) := by
  constructor
  · rintro stored ⟨first,answers,second,before,finish,rfl,early,head,late,ended⟩ playing last free keeps
    obtain ⟨after,taken,late⟩ := Run.exec_cons.mp late
    have base : TrackWaits trackId stored := by
      unfold stored TrackWaits Pipeline.command
      simp only [attached,if_true,true_and]
      exact free
    refine Run.happens_in_round
      (fun s label t waits held taken => trackWaits_step waits held.1.1 held.1.2 held.2 taken)
      (fun s label t pending held taken => trackPending_step pending held.1.1 held.1.2 held.2 taken)
      (fun s pending (pc : s.readerPc = .loopHead) => ?_) base early taken late (fun waits => ?_) ended
      (Run.meets_and.mpr ⟨last,keeps⟩)
    · rcases pending with ⟨_,queued⟩ | taking
      · cases queued.symm.trans pc
      · rw [pc] at taking
        cases taking
    · have round := loopHead_step head (playing_at early playing) taken
      rcases waits with ⟨queued,_⟩ | taking
      · exact .inl ⟨round.2.1.trans queued,round.1⟩
      · rw [head] at taking
        cases taking
  · rintro stored ⟨first,answers,second,before,finish,rfl,early,head,late,ended⟩ playing last free keeps
    obtain ⟨after,taken,late⟩ := Run.exec_cons.mp late
    have base : SeekWaits position stored := by
      unfold stored SeekWaits Pipeline.command
      simp only [attached,if_true,true_and]
      exact free
    refine Run.happens_in_round
      (fun s label t waits held taken => seekWaits_step waits held.1.1 held.1.2 held.2 taken)
      (fun s label t pending held taken => seekPending_step pending held.1.1 held.1.2 held.2 taken)
      (fun s pending (pc : s.readerPc = .loopHead) => ?_) base early taken late (fun waits => ?_) ended
      (Run.meets_and.mpr ⟨last,keeps⟩)
    · rcases pending with ⟨_,pending⟩ | seeks
      · rw [pc] at pending
        cases pending
      · cases pc.symm.trans seeks
    · have round := loopHead_step head (playing_at early playing) taken
      rcases waits with ⟨queued,_⟩ | seeks
      · exact .inl ⟨round.2.2.trans queued,by rw [round.1]; rfl⟩
      · cases head.symm.trans seeks

/-- A track and a position that are stored at the loop's head. -/
theorem requests_taken_once :
    let s : Pipeline Nat := {initial 0 with
      queuedTrackId := none, backend := some ⟨.psf,true⟩, playingTrackId := some 0
      emptyBuffers := [.new 0,.new 1]}
    Run.Happens (next 2) (Assigns 7) (s.command (.queueTrack (some 7)))
      (List.replicate 18 (.reader .playing)) ∧
    Run.Happens (next 2) (Seeks 5) (s.command (.seek 5)) (List.replicate 15 (.reader .playing)) := by
  intro s
  have keepsTrack : Run.Meets (next 2) KeepsTrack (s.command (.queueTrack (some 7)))
      (List.replicate 18 (.reader .playing)) :=
    ⟨nofun,nofun,nofun,nofun,nofun,nofun,nofun,nofun,nofun,nofun,nofun,nofun,nofun,nofun,nofun,
     nofun,nofun,nofun,trivial⟩
  have keepsSeek : Run.Meets (next 2) KeepsSeek (s.command (.seek 5))
      (List.replicate 15 (.reader .playing)) :=
    ⟨nofun,nofun,nofun,fun _ _ => nofun,nofun,nofun,nofun,nofun,nofun,nofun,nofun,nofun,nofun,
     nofun,nofun,trivial⟩
  constructor
  · exact (requests_taken s rfl (List.replicate 18 (.reader .playing)) 7 0).1
      ⟨[],.playing,List.replicate 17 (.reader .playing),_,_,rfl,rfl,rfl,rfl,rfl⟩ (by decide)
      (Run.meets_of_labels (fun label member s => by rw [List.eq_of_mem_replicate member]; trivial) _)
      (.inl rfl) keepsTrack
  · exact (requests_taken s rfl (List.replicate 15 (.reader .playing)) 0 5).2
      ⟨[],.playing,List.replicate 14 (.reader .playing),_,_,rfl,rfl,rfl,rfl,rfl⟩ (by decide)
      (Run.meets_of_labels (fun label member s => by rw [List.eq_of_mem_replicate member]; trivial) _)
      (.inl rfl) keepsSeek

/-- A track stored between the reader's read of `queuedTrackId` and its write of null: the rest
of that round and the whole of the next pass without it. -/
theorem track_forgotten : ∃ s : Pipeline Nat,
    Run.exec (next 2) (initial 0) (List.replicate 14 (.reader .playing)) = some s ∧
    s.readerAttached = true ∧
    let stored := s.command (.queueTrack (some 7))
    let labels := List.replicate 21 (.reader .playing)
    CompletesRound 2 stored labels ∧
    Run.Always (next 2) (fun s => s.state = .playing) stored labels ∧
    Run.Meets (next 2) LastTrack stored labels ∧
    ¬ Run.Happens (next 2) (Assigns 7) stored labels := by
  refine ⟨_,rfl,rfl,?_,?_,?_,?_⟩
  · exact ⟨List.replicate 10 (.reader .playing),.playing,List.replicate 10 (.reader .playing),_,_,rfl,
      rfl,rfl,rfl,rfl⟩
  · decide
  · exact Run.meets_of_labels
      (fun label member s => by rw [List.eq_of_mem_replicate member]; trivial) _
  · exact Run.not_happens_of_meets ⟨nofun,nofun,nofun,nofun,nofun,nofun,nofun,nofun,nofun,nofun,
   nofun,nofun,nofun,nofun,nofun,nofun,nofun,nofun,nofun,nofun,nofun,trivial⟩

end Pipeline
end Chipbox.Playback
