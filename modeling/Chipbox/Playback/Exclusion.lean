import Chipbox.Playback.Threads

/-! At most one thread runs each loop, and the two loops share their queues, as long as no
thread is started over another. -/
namespace Chipbox.Playback
variable {Id : Type}

/-- The thread is before or in `Reader.loop`. -/
def ReaderThreadPc.live : ReaderThreadPc Id → Bool
  | .readState | .readReader | .create | .call | .loop _ _ _ | .stopping _ _ => true
  | .checkStopped | .clear | .ended => false

def ReaderThreadPc.executes : ReaderThreadPc Id → Option Nat
  | .loop reader _ _ | .stopping reader _ => some reader
  | _ => none

/-- The thread is before or in `Writer.loop`. -/
def WriterThreadPc.live : WriterThreadPc → Bool
  | .create | .call | .loop _ _ => true
  | .clear | .ended => false

def WriterThreadPc.executes : WriterThreadPc → Option Nat
  | .loop writer _ => some writer
  | _ => none

theorem ReaderThreadPc.live_of_executes {pc : ReaderThreadPc Id} (executes : pc.executes ≠ none) :
    pc.live = true := by
  cases pc with
  | loop | stopping => rfl
  | _ => exact absurd rfl executes

theorem WriterThreadPc.live_of_executes {pc : WriterThreadPc} (executes : pc.executes ≠ none) :
    pc.live = true := by
  cases pc with
  | loop => rfl
  | _ => exact absurd rfl executes

theorem update_some {α : Type} {f : Nat → Option α} {name i : Nat} {edited : Option α} {new : α}
    (here : Function.update f name edited i = some new) :
    (i = name ∧ edited = some new) ∨ (i ≠ name ∧ f i = some new) := by
  by_cases named : i = name
  · subst named
    rw [Function.update_self] at here
    exact .inl ⟨rfl,here⟩
  · rw [Function.update_of_ne named] at here
    exact .inr ⟨named,here⟩

namespace Threads

/-- At most one thread executes each loop, and two that do share their queues. -/
structure OneOfEach (s : Threads Id) : Prop where
  reader : ∀ i j t u, s.readerThreads i = some t → s.readerThreads j = some u →
    t.pc.executes ≠ none → u.pc.executes ≠ none → i = j
  writer : ∀ i j t u, s.writerThreads i = some t → s.writerThreads j = some u →
    t.pc.executes ≠ none → u.pc.executes ≠ none → i = j
  queues : ∀ i j t u r w reader writer, s.readerThreads i = some t → s.writerThreads j = some u →
    t.pc.executes = some r → u.pc.executes = some w → s.readers r = some reader →
    s.writers w = some writer → reader.queues = writer.queues

def NoReader (s : Threads Id) : Prop := ∀ i t, s.readerThreads i = some t → t.pc.live = false

def NoWriter (s : Threads Id) : Prop := ∀ i t, s.writerThreads i = some t → t.pc.live = false

/-- A `start` that comes to set the state finds no earlier thread before or in its loop. -/
def StartsAlone (s : Threads Id) : ThreadsLabel Id → Prop
  | .user _ => ∀ trackId resuming, s.user = .startPlaying trackId resuming → s.NoReader ∧ s.NoWriter
  | _ => True

def Fits (s : Threads Id) (queues : Queues) : Prop :=
  ∀ r reader, s.reader = some r → s.readers r = some reader → reader.queues = queues

def ReaderServes (s : Threads Id) (queues : Queues) (pc : ReaderThreadPc Id) : Prop :=
  match pc with
  | .readState | .readReader | .create | .call => s.Fits queues
  | .loop r _ _ | .stopping r _ => ∀ reader, s.readers r = some reader → reader.queues = queues
  | .checkStopped | .clear | .ended => True

def WriterServes (s : Threads Id) (queues : Queues) (pc : WriterThreadPc) : Prop :=
  match pc with
  | .call => ∀ w writer, s.writer = some w → s.writers w = some writer → writer.queues = queues
  | .loop w _ => ∀ writer, s.writers w = some writer → writer.queues = queues
  | .create | .clear | .ended => True

/-- What holds from a `start` that has set the state to the spawn of its last thread. -/
def Prepares (s : Threads Id) (user : UserPc Id) : Prop :=
  match user with
  | .startEmpties _ _ => s.NoReader ∧ s.NoWriter
  | .startFulls _ _ emptyBuffers => s.NoReader ∧ s.NoWriter ∧
      ∀ r reader, s.reader = some r → s.readers r = some reader → reader.queues.emptyBuffers = emptyBuffers
  | .startTrack _ _ queues => s.NoReader ∧ s.NoWriter ∧ s.Fits queues
  | .startReader captured => s.NoReader ∧ s.NoWriter ∧ s.Fits captured.queues
  | .startWriter captured => s.NoWriter ∧
      ∀ i t, s.readerThreads i = some t → t.pc.live = true → t.captured.queues = captured.queues
  | _ => True

structure Alone (s : Threads Id) : Prop where
  oneReader : ∀ i j t u, s.readerThreads i = some t → s.readerThreads j = some u →
    t.pc.live = true → u.pc.live = true → i = j
  oneWriter : ∀ i j t u, s.writerThreads i = some t → s.writerThreads j = some u →
    t.pc.live = true → u.pc.live = true → i = j
  readers : ∀ i t, s.readerThreads i = some t → s.ReaderServes t.captured.queues t.pc
  writers : ∀ i t, s.writerThreads i = some t → s.WriterServes t.queues t.pc
  together : ∀ i j t u, s.readerThreads i = some t → s.writerThreads j = some u →
    t.pc.live = true → u.pc.live = true → t.captured.queues = u.queues
  prepares : s.Prepares s.user

/-- What a step leaves of the things that the threads take their queues from: the player may
have lost its reader or its writer, all else is on its queues as before. -/
structure Keeps (s t : Threads Id) : Prop where
  reader : t.reader = s.reader ∨ t.reader = none
  writer : t.writer = s.writer ∨ t.writer = none
  readers : ∀ r new, t.readers r = some new → ∃ old, s.readers r = some old ∧ old.queues = new.queues
  writers : ∀ w new, t.writers w = some new → ∃ old, s.writers w = some old ∧ old.queues = new.queues
  readerThreads : t.readerThreads = s.readerThreads
  writerThreads : ∀ i new, t.writerThreads i = some new →
    ∃ old, s.writerThreads i = some old ∧ old.queues = new.queues ∧ old.pc = new.pc
  user : t.user = s.user

theorem Keeps.refl (s : Threads Id) : s.Keeps s :=
  ⟨.inl rfl,.inl rfl,fun _ new here => ⟨new,here,rfl⟩,fun _ new here => ⟨new,here,rfl⟩,rfl,
    fun _ new here => ⟨new,here,rfl,rfl⟩,rfl⟩

theorem Keeps.trans {s t u : Threads Id} (first : s.Keeps t) (second : t.Keeps u) : s.Keeps u := by
  refine ⟨?_,?_,?_,?_,second.readerThreads.trans first.readerThreads,?_,second.user.trans first.user⟩
  · rcases second.reader with same | lost
    · rw [same]; exact first.reader
    · exact .inr lost
  · rcases second.writer with same | lost
    · rw [same]; exact first.writer
    · exact .inr lost
  · intro r new here
    obtain ⟨middle,there,same⟩ := second.readers r new here
    obtain ⟨old,before,equal⟩ := first.readers r middle there
    exact ⟨old,before,equal.trans same⟩
  · intro w new here
    obtain ⟨middle,there,same⟩ := second.writers w new here
    obtain ⟨old,before,equal⟩ := first.writers w middle there
    exact ⟨old,before,equal.trans same⟩
  · intro i new here
    obtain ⟨middle,there,same,place⟩ := second.writerThreads i new here
    obtain ⟨old,before,equal,position⟩ := first.writerThreads i middle there
    exact ⟨old,before,equal.trans same,position.trans place⟩

theorem Keeps.fits {s t : Threads Id} (keeps : s.Keeps t) {queues : Queues} (fits : s.Fits queues) :
    t.Fits queues := by
  intro r new named here
  obtain ⟨old,before,same⟩ := keeps.readers r new here
  rcases keeps.reader with kept | lost
  · exact same ▸ fits r old (kept ▸ named) before
  · cases lost.symm.trans named

theorem Keeps.noReader {s t : Threads Id} (keeps : s.Keeps t) (none : s.NoReader) : t.NoReader := by
  intro i thread here
  exact none i thread (keeps.readerThreads ▸ here)

theorem Keeps.noWriter {s t : Threads Id} (keeps : s.Keeps t) (none : s.NoWriter) : t.NoWriter := by
  intro i thread here
  obtain ⟨old,before,_,place⟩ := keeps.writerThreads i thread here
  exact place ▸ none i old before

theorem Keeps.readerServes {s t : Threads Id} (keeps : s.Keeps t) {queues : Queues}
    {pc : ReaderThreadPc Id} (serves : s.ReaderServes queues pc) : t.ReaderServes queues pc := by
  cases pc with
  | readState | readReader | create | call => exact keeps.fits serves
  | loop r | stopping r =>
    intro new here
    obtain ⟨old,before,same⟩ := keeps.readers r new here
    exact same ▸ serves old before
  | checkStopped | clear | ended => trivial

theorem Keeps.writerServes {s t : Threads Id} (keeps : s.Keeps t) {queues : Queues}
    {pc : WriterThreadPc} (serves : s.WriterServes queues pc) : t.WriterServes queues pc := by
  cases pc with
  | call =>
    intro w new named here
    obtain ⟨old,before,same⟩ := keeps.writers w new here
    rcases keeps.writer with kept | lost
    · exact same ▸ serves w old (kept ▸ named) before
    · cases lost.symm.trans named
  | loop w =>
    intro new here
    obtain ⟨old,before,same⟩ := keeps.writers w new here
    exact same ▸ serves old before
  | create | clear | ended => trivial

theorem Keeps.prepares {s t : Threads Id} (keeps : s.Keeps t) {user : UserPc Id}
    (prepares : s.Prepares user) : t.Prepares user := by
  cases user with
  | startEmpties => exact ⟨keeps.noReader prepares.1,keeps.noWriter prepares.2⟩
  | startFulls =>
    refine ⟨keeps.noReader prepares.1,keeps.noWriter prepares.2.1,?_⟩
    intro r new named here
    obtain ⟨old,before,same⟩ := keeps.readers r new here
    rcases keeps.reader with kept | lost
    · exact same ▸ prepares.2.2 r old (kept ▸ named) before
    · cases lost.symm.trans named
  | startTrack | startReader =>
    exact ⟨keeps.noReader prepares.1,keeps.noWriter prepares.2.1,keeps.fits prepares.2.2⟩
  | startWriter =>
    refine ⟨keeps.noWriter prepares.1,?_⟩
    rw [keeps.readerThreads]
    exact prepares.2
  | _ => trivial

theorem Keeps.alone {s t : Threads Id} (keeps : s.Keeps t) (alone : s.Alone) : t.Alone := by
  constructor
  · rw [keeps.readerThreads]
    exact alone.oneReader
  · intro i j first second here there
    obtain ⟨old,before,_,place⟩ := keeps.writerThreads i first here
    obtain ⟨other,after,_,position⟩ := keeps.writerThreads j second there
    rw [← place,← position]
    exact alone.oneWriter i j old other before after
  · intro i thread here
    exact keeps.readerServes (alone.readers i thread (keeps.readerThreads ▸ here))
  · intro i thread here
    obtain ⟨old,before,same,place⟩ := keeps.writerThreads i thread here
    rw [← same,← place]
    exact keeps.writerServes (alone.writers i old before)
  · intro i j first second here there
    obtain ⟨old,before,same,place⟩ := keeps.writerThreads j second there
    rw [← same,← place]
    exact alone.together i j first old (keeps.readerThreads ▸ here) before
  · rw [keeps.user]
    exact keeps.prepares alone.prepares

theorem keeps_of_same {s t : Threads Id} (reader : t.reader = s.reader ∨ t.reader = none)
    (writer : t.writer = s.writer ∨ t.writer = none) (readers : t.readers = s.readers)
    (writers : t.writers = s.writers) (readerThreads : t.readerThreads = s.readerThreads)
    (writerThreads : t.writerThreads = s.writerThreads) (user : t.user = s.user) : s.Keeps t := by
  refine ⟨reader,writer,?_,?_,readerThreads,?_,user⟩
  · intro r new here
    exact ⟨new,readers ▸ here,rfl⟩
  · intro w new here
    exact ⟨new,writers ▸ here,rfl⟩
  · intro i new here
    exact ⟨new,writerThreads ▸ here,rfl,rfl⟩

theorem interrupt_keeps (s : Threads Id) : s.Keeps s.interrupt := by
  unfold interrupt
  split
  · exact .refl s
  next thread _ =>
    refine ⟨.inl rfl,.inl rfl,fun _ new here => ⟨new,here,rfl⟩,fun _ new here => ⟨new,here,rfl⟩,rfl,?_,rfl⟩
    intro i new here
    rcases update_some here with ⟨rfl,edited⟩ | ⟨_,here⟩
    · obtain ⟨old,before,rfl⟩ := Option.map_eq_some_iff.mp edited
      exact ⟨old,before,rfl,rfl⟩
    · exact ⟨new,here,rfl,rfl⟩

theorem stopStep_keeps (s : Threads Id) (pc : StopPc) : s.Keeps (s.stopStep pc).1 := by
  cases pc with
  | readState | readReader | readBackend | teardownEnd => exact .refl s
  | writeState | teardown => exact keeps_of_same (.inl rfl) (.inl rfl) rfl rfl rfl rfl rfl
  | writeReader => exact keeps_of_same (.inr rfl) (.inl rfl) rfl rfl rfl rfl rfl
  | interrupt => exact s.interrupt_keeps

theorem ownQueue_keeps (s : Threads Id) (queue : Queues → Nat) : s.Keeps (s.ownQueue queue).1 := by
  unfold ownQueue
  split
  · exact .refl s
  · exact keeps_of_same (.inl rfl) (.inl rfl) rfl rfl rfl rfl rfl

theorem ownQueue_fits (s : Threads Id) (queue : Queues → Nat) (r : Nat) (reader : Reader Id)
    (named : (s.ownQueue queue).1.reader = some r)
    (here : (s.ownQueue queue).1.readers r = some reader) :
    queue reader.queues = (s.ownQueue queue).2 ∧ s.reader = some r ∧ s.readers r = some reader := by
  unfold ownQueue at named here ⊢
  cases own : s.reader.bind s.readers with
  | some other =>
    rw [own] at named here
    dsimp only at named here
    rw [named,Option.bind_some,here] at own
    cases own
    exact ⟨rfl,named,here⟩
  | none =>
    rw [own] at named here
    dsimp only at named here
    rw [named,Option.bind_some,here] at own
    cases own

theorem readers_keeps {s : Threads Id} {name : Nat} {edited : Option (Reader Id)}
    (same : ∀ new, edited = some new → ∃ old, s.readers name = some old ∧ old.queues = new.queues) :
    s.Keeps {s with readers := Function.update s.readers name edited} := by
  refine ⟨.inl rfl,.inl rfl,?_,fun _ new here => ⟨new,here,rfl⟩,rfl,
    fun _ new here => ⟨new,here,rfl,rfl⟩,rfl⟩
  intro r new here
  rcases update_some here with ⟨rfl,edited⟩ | ⟨_,here⟩
  · exact same new edited
  · exact ⟨new,here,rfl⟩

theorem writers_keeps {s : Threads Id} {name : Nat} {edited : Option Writer}
    (same : ∀ new, edited = some new → ∃ old, s.writers name = some old ∧ old.queues = new.queues) :
    s.Keeps {s with writers := Function.update s.writers name edited} := by
  refine ⟨.inl rfl,.inl rfl,fun _ new here => ⟨new,here,rfl⟩,?_,rfl,
    fun _ new here => ⟨new,here,rfl,rfl⟩,rfl⟩
  intro w new here
  rcases update_some here with ⟨rfl,edited⟩ | ⟨_,here⟩
  · exact same new edited
  · exact ⟨new,here,rfl⟩

theorem editReader_keeps (s : Threads Id) (name : Nat) (edit : Reader Id → Reader Id)
    (same : ∀ reader, (edit reader).queues = reader.queues) : s.Keeps (s.editReader name edit) := by
  apply readers_keeps
  intro new edited
  obtain ⟨old,before,rfl⟩ := Option.map_eq_some_iff.mp edited
  exact ⟨old,before,(same old).symm⟩

theorem putReader_keeps {s : Threads Id} {name : Nat} {reader : Reader Id} (p : Pipeline Id)
    (here : s.readers name = some reader) : s.Keeps (s.putReader name reader p) := by
  apply readers_keeps
  intro new edited
  cases edited
  exact ⟨reader,here,rfl⟩

theorem putSeeking_keeps (s : Threads Id) (seeking : Bool) : s.Keeps (s.putSeeking seeking) := by
  unfold putSeeking
  split
  · exact .refl s
  · apply writers_keeps
    intro new edited
    obtain ⟨old,before,rfl⟩ := Option.map_eq_some_iff.mp edited
    exact ⟨old,before,rfl⟩

theorem putQueues_keeps (s : Threads Id) (queues : Queues) (p : Pipeline Id) :
    s.Keeps (s.putQueues queues p) :=
  keeps_of_same (.inl rfl) (.inl rfl) rfl rfl rfl rfl rfl

theorem called_keeps (s : Threads Id) (backend : BackendImpl) (call : LifeCycle) :
    s.Keeps (s.called backend call) :=
  keeps_of_same (.inl rfl) (.inl rfl) rfl rfl rfl rfl rfl

theorem readerCalls_keeps (s : Threads Id) (reader : Reader Id) (p : Pipeline Id) (pc : ReaderPc Id) :
    s.Keeps (s.readerCalls reader p pc) := by
  unfold readerCalls
  split
  · split
    · exact s.called_keeps _ _
    · exact .refl s
  · split
    · exact s.called_keeps _ _
    · exact .refl s
  · exact keeps_of_same (.inl rfl) (.inl rfl) rfl rfl rfl rfl rfl
  · exact .refl s

/-- What a step inside `Reader.loop` does, but for the backends it calls. -/
theorem loopStep_spec {bufferCount : Nat} {s t : Threads Id} {name : Nat} {cleared : Queues}
    {pc : ReaderPc Id} {answers : Answers Id} {rest : ReaderThreadPc Id}
    (taken : s.loopStep bufferCount name cleared pc answers = some (t,rest)) :
    s.Keeps t ∧ ∃ cleared pc, rest = .loop name cleared pc := by
  unfold loopStep at taken
  split at taken
  · cases taken
  next reader here =>
    dsimp only at taken
    split at taken
    · cases taken
    next p _ =>
      cases taken
      refine ⟨?_,_,_,rfl⟩
      have put := s.putQueues_keeps (if pc.clearsWriter then cleared else reader.queues) p
      have there : (s.putQueues (if pc.clearsWriter then cleared else reader.queues) p).readers name =
        some reader := here
      have stored := put.trans (putReader_keeps p there)
      exact (stored.trans (putSeeking_keeps _ p.seeking)).trans (readerCalls_keeps _ reader p pc)

theorem Alone.withUser {s : Threads Id} (alone : s.Alone) {user : UserPc Id}
    (prepares : s.Prepares user) : Alone {s with user := user} :=
  ⟨alone.oneReader,alone.oneWriter,alone.readers,alone.writers,alone.together,prepares⟩

theorem Alone.withReaderThread {s : Threads Id} (alone : s.Alone) {name : Nat} {thread : ReaderThread Id}
    (here : s.readerThreads name = some thread) {pc : ReaderThreadPc Id}
    (live : pc.live = true → thread.pc.live = true) (serves : s.ReaderServes thread.captured.queues pc) :
    Alone {s with readerThreads := Function.update s.readerThreads name (some {thread with pc := pc})} := by
  have before (i : Nat) (t : ReaderThread Id)
      (there : Function.update s.readerThreads name (some {thread with pc := pc}) i = some t) :
      ∃ old, s.readerThreads i = some old ∧ old.captured = t.captured ∧
        (t.pc.live = true → old.pc.live = true) := by
    rcases update_some there with ⟨rfl,edited⟩ | ⟨_,there⟩
    · cases edited
      exact ⟨thread,here,rfl,live⟩
    · exact ⟨t,there,rfl,id⟩
  have none (empty : s.NoReader) (i : Nat) (t : ReaderThread Id)
      (there : Function.update s.readerThreads name (some {thread with pc := pc}) i = some t) :
      t.pc.live = false := by
    obtain ⟨old,earlier,_,kept⟩ := before i t there
    have dead := Bool.eq_false_iff.mp (empty i old earlier)
    exact Bool.eq_false_iff.mpr (dead ∘ kept)
  constructor
  · intro i j first second fst snd alive lively
    obtain ⟨old,earlier,_,kept⟩ := before i first fst
    obtain ⟨other,later,_,held⟩ := before j second snd
    exact alone.oneReader i j old other earlier later (kept alive) (held lively)
  · exact alone.oneWriter
  · intro i t there
    rcases update_some there with ⟨rfl,edited⟩ | ⟨_,there⟩
    · cases edited
      exact serves
    · exact alone.readers i t there
  · exact alone.writers
  · intro i j first second fst snd alive lively
    obtain ⟨old,earlier,same,kept⟩ := before i first fst
    rw [← same]
    exact alone.together i j old second earlier snd (kept alive) lively
  · have prepared := alone.prepares
    change Prepares _ s.user
    cases user : s.user with
    | startEmpties => rw [user] at prepared; exact ⟨none prepared.1,prepared.2⟩
    | startFulls => rw [user] at prepared; exact ⟨none prepared.1,prepared.2⟩
    | startTrack => rw [user] at prepared; exact ⟨none prepared.1,prepared.2⟩
    | startReader => rw [user] at prepared; exact ⟨none prepared.1,prepared.2⟩
    | startWriter =>
      rw [user] at prepared
      refine ⟨prepared.1,?_⟩
      intro i t there alive
      obtain ⟨old,earlier,same,kept⟩ := before i t there
      rw [← same]
      exact prepared.2 i old earlier (kept alive)
    | _ => trivial

theorem Alone.withWriterThread {s : Threads Id} (alone : s.Alone) {name : Nat}
    {thread : WriterThread} (here : s.writerThreads name = some thread) {pc : WriterThreadPc}
    {interrupted : Bool} (live : pc.live = true → thread.pc.live = true)
    (serves : s.WriterServes thread.queues pc) :
    Alone {s with
      writerThreads := Function.update s.writerThreads name
        (some {thread with interrupted := interrupted, pc := pc})} := by
  let next : WriterThread := {thread with interrupted := interrupted, pc := pc}
  have before (i : Nat) (t : WriterThread)
      (there : Function.update s.writerThreads name (some next) i = some t) :
      ∃ old, s.writerThreads i = some old ∧ old.queues = t.queues ∧
        (t.pc.live = true → old.pc.live = true) := by
    rcases update_some there with ⟨rfl,edited⟩ | ⟨_,there⟩
    · cases edited
      exact ⟨thread,here,rfl,live⟩
    · exact ⟨t,there,rfl,id⟩
  have none (empty : s.NoWriter) (i : Nat) (t : WriterThread)
      (there : Function.update s.writerThreads name (some next) i = some t) : t.pc.live = false := by
    obtain ⟨old,earlier,_,kept⟩ := before i t there
    have dead := Bool.eq_false_iff.mp (empty i old earlier)
    exact Bool.eq_false_iff.mpr (dead ∘ kept)
  constructor
  · exact alone.oneReader
  · intro i j first second fst snd alive lively
    obtain ⟨old,earlier,_,kept⟩ := before i first fst
    obtain ⟨other,later,_,held⟩ := before j second snd
    exact alone.oneWriter i j old other earlier later (kept alive) (held lively)
  · exact alone.readers
  · intro i t there
    rcases update_some there with ⟨rfl,edited⟩ | ⟨_,there⟩
    · cases edited
      exact serves
    · exact alone.writers i t there
  · intro i j first second fst snd alive lively
    obtain ⟨old,earlier,equal,kept⟩ := before j second snd
    rw [← equal]
    exact alone.together i j first old fst earlier alive (kept lively)
  · have prepared := alone.prepares
    change Prepares _ s.user
    cases user : s.user with
    | startEmpties => rw [user] at prepared; exact ⟨prepared.1,none prepared.2⟩
    | startFulls => rw [user] at prepared; exact ⟨prepared.1,none prepared.2.1,prepared.2.2⟩
    | startTrack => rw [user] at prepared; exact ⟨prepared.1,none prepared.2.1,prepared.2.2⟩
    | startReader => rw [user] at prepared; exact ⟨prepared.1,none prepared.2.1,prepared.2.2⟩
    | startWriter => rw [user] at prepared; exact ⟨none prepared.1,prepared.2⟩
    | _ => trivial

/-- The only live reader thread makes a reader: nothing else looks at the player's reader. -/
theorem Alone.createReader {s : Threads Id} (alone : s.Alone) {name : Nat} {thread : ReaderThread Id}
    (here : s.readerThreads name = some thread) (creates : thread.pc = .create) :
    Alone {s with
      readers := Function.update s.readers s.readersMade (some thread.captured.reader)
      readersMade := s.readersMade + 1
      reader := some s.readersMade} := by
  have live : thread.pc.live = true := by rw [creates]; rfl
  refine ⟨alone.oneReader,alone.oneWriter,?_,alone.writers,alone.together,?_⟩
  · intro i t there
    by_cases alive : t.pc.live = true
    · have same := alone.oneReader i name t thread there here alive live
      subst same
      cases there.symm.trans here
      rw [creates]
      intro r reader named found
      cases named
      rcases update_some found with ⟨_,edited⟩ | ⟨other,_⟩
      · cases edited
        rfl
      · exact absurd rfl other
    · cases pc : t.pc with
      | checkStopped | clear | ended => trivial
      | _ =>
        rw [pc] at alive
        exact absurd rfl alive
  · have prepared := alone.prepares
    have occupied (empty : s.NoReader) : False := by simp [empty name thread here] at live
    change Prepares _ s.user
    cases user : s.user with
    | startEmpties => rw [user] at prepared; exact (occupied prepared.1).elim
    | startFulls => rw [user] at prepared; exact (occupied prepared.1).elim
    | startTrack => rw [user] at prepared; exact (occupied prepared.1).elim
    | startReader => rw [user] at prepared; exact (occupied prepared.1).elim
    | startWriter => rw [user] at prepared; exact prepared
    | _ => trivial

theorem Alone.createWriter {s : Threads Id} (alone : s.Alone) {name : Nat} {thread : WriterThread}
    (here : s.writerThreads name = some thread) (creates : thread.pc = .create) :
    Alone {s with
      writers := Function.update s.writers s.writersMade (some ⟨thread.queues,false⟩)
      writersMade := s.writersMade + 1
      writer := some s.writersMade} := by
  have live : thread.pc.live = true := by rw [creates]; rfl
  refine ⟨alone.oneReader,alone.oneWriter,alone.readers,?_,alone.together,?_⟩
  · intro i t there
    by_cases alive : t.pc.live = true
    · have same := alone.oneWriter i name t thread there here alive live
      subst same
      cases there.symm.trans here
      rw [creates]
      trivial
    · cases pc : t.pc with
      | clear | ended => trivial
      | _ =>
        rw [pc] at alive
        exact absurd rfl alive
  · have prepared := alone.prepares
    have occupied (empty : s.NoWriter) : False := by simp [empty name thread here] at live
    change Prepares _ s.user
    cases user : s.user with
    | startEmpties => rw [user] at prepared; exact (occupied prepared.2).elim
    | startFulls => rw [user] at prepared; exact (occupied prepared.2.1).elim
    | startTrack => rw [user] at prepared; exact (occupied prepared.2.1).elim
    | startReader => rw [user] at prepared; exact (occupied prepared.2.1).elim
    | startWriter => rw [user] at prepared; exact (occupied prepared.1).elim
    | _ => trivial

theorem NoReader.spawned {s : Threads Id} (empty : s.NoReader) {captured : Captured Id} (i : Nat)
    (t : ReaderThread Id) (there : (s.spawnReader captured).readerThreads i = some t)
    (alive : t.pc.live = true) : i = s.readerCount ∧ t = ⟨captured,.readState⟩ := by
  rcases update_some there with ⟨named,edited⟩ | ⟨_,there⟩
  · cases edited
    exact ⟨named,rfl⟩
  · simp [empty i t there] at alive

theorem Alone.spawnReader {s : Threads Id} (alone : s.Alone) {captured : Captured Id}
    (user : s.user = .startReader captured) :
    Alone {s.spawnReader captured with user := .startWriter captured} := by
  have prepared := alone.prepares
  rw [user] at prepared
  obtain ⟨noReader,noWriter,fits⟩ := prepared
  have only := @noReader.spawned _ _ captured
  refine ⟨?_,alone.oneWriter,?_,alone.writers,?_,noWriter,?_⟩
  · intro i j first second fst snd alive lively
    exact (only i first fst alive).1.trans (only j second snd lively).1.symm
  · intro i t there
    rcases update_some there with ⟨_,edited⟩ | ⟨_,there⟩
    · cases edited
      exact fits
    · exact alone.readers i t there
  · intro i j first second _ snd _ lively
    simp [noWriter j second snd] at lively
  · intro i t there alive
    rw [(only i t there alive).2]

theorem Alone.spawnWriter {s : Threads Id} (alone : s.Alone) {captured : Captured Id}
    (user : s.user = .startWriter captured) : Alone {s.spawnWriter captured with user := .idle} := by
  have prepared := alone.prepares
  rw [user] at prepared
  obtain ⟨noWriter,serving⟩ := prepared
  have only (i : Nat) (t : WriterThread)
      (there : (s.spawnWriter captured).writerThreads i = some t) (alive : t.pc.live = true) :
      i = s.writerCount ∧ t = ⟨captured.queues,false,.create⟩ := by
    rcases update_some there with ⟨named,edited⟩ | ⟨_,there⟩
    · cases edited
      exact ⟨named,rfl⟩
    · simp [noWriter i t there] at alive
  refine ⟨alone.oneReader,?_,alone.readers,?_,?_,trivial⟩
  · intro i j first second fst snd alive lively
    exact (only i first fst alive).1.trans (only j second snd lively).1.symm
  · intro i t there
    rcases update_some there with ⟨_,edited⟩ | ⟨_,there⟩
    · cases edited
      trivial
    · exact alone.writers i t there
  · intro i j first second fst snd alive lively
    rw [(only j second snd lively).2]
    exact serving i first fst alive

theorem readerThreadStep_alone {bufferCount : Nat} {s t : Threads Id} {name : Nat}
    {thread : ReaderThread Id} {answers : Answers Id} {rest : ReaderThreadPc Id} (alone : s.Alone)
    (here : s.readerThreads name = some thread)
    (taken : s.readerThreadStep bufferCount thread answers = some (t,rest)) :
    Alone {t with readerThreads := Function.update t.readerThreads name (some {thread with pc := rest})} := by
  have serves := alone.readers name thread here
  unfold readerThreadStep at taken
  split at taken
  next pc =>
    cases taken
    rw [pc] at serves
    apply alone.withReaderThread here
    · intro _; rw [pc]; rfl
    · split <;> exact serves
  next pc =>
    cases taken
    rw [pc] at serves
    apply alone.withReaderThread here
    · intro _; rw [pc]; rfl
    · split <;> exact serves
  next pc =>
    cases taken
    have made := alone.createReader here pc
    apply made.withReaderThread here
    · intro _; rw [pc]; rfl
    · have fits := made.readers name thread here
      rw [pc] at fits
      exact fits
  next pc =>
    cases taken
    rw [pc] at serves
    apply alone.withReaderThread here
    · intro _; rw [pc]; rfl
    · split
      next r named => exact fun reader found => serves r reader named found
      next => trivial
  next pc =>
    cases taken
    apply alone.withReaderThread here
    · intro _; rw [pc]; rfl
    · trivial
  next r cleared _ _ pc =>
    rw [pc] at serves
    split at taken
    · cases taken
      apply alone.withReaderThread here
      · intro _; rw [pc]; rfl
      · exact serves
    · obtain ⟨keeps,_,_,rfl⟩ := loopStep_spec taken
      apply (keeps.alone alone).withReaderThread (keeps.readerThreads ▸ here)
      · intro _; rw [pc]; rfl
      · have serving : s.ReaderServes thread.captured.queues (.loop r cleared .loopHead) := serves
        exact keeps.readerServes serving
  next r stop pc =>
    rw [pc] at serves
    have keeps := s.stopStep_keeps stop
    cases taken
    apply (keeps.alone alone).withReaderThread (keeps.readerThreads ▸ here)
    · intro _; rw [pc]; rfl
    · have serving : s.ReaderServes thread.captured.queues (.stopping r stop) := serves
      have stopping := keeps.readerServes serving
      split <;> exact stopping
  next pc =>
    cases taken
    apply alone.withReaderThread here
    · split <;> exact nofun
    · split <;> trivial
  next pc =>
    cases taken
    have keeps : s.Keeps {s with reader := none} :=
      keeps_of_same (.inr rfl) (.inl rfl) rfl rfl rfl rfl rfl
    apply (keeps.alone alone).withReaderThread here
    · exact nofun
    · trivial
  next => cases taken

theorem writerThreadStep_alone {bufferCount : Nat} {s t : Threads Id} {name : Nat}
    {thread next : WriterThread} {timeout : Bool} (alone : s.Alone)
    (here : s.writerThreads name = some thread)
    (taken : s.writerThreadStep bufferCount thread timeout = some (t,next)) :
    Alone {t with writerThreads := Function.update t.writerThreads name (some next)} := by
  have serves := alone.writers name thread here
  unfold writerThreadStep at taken
  split at taken
  next pc =>
    cases taken
    have made := alone.createWriter here pc
    apply made.withWriterThread here
    · intro _; rw [pc]; rfl
    · intro w writer named found
      cases named
      rcases update_some found with ⟨_,edited⟩ | ⟨other,_⟩
      · cases edited
        rfl
      · exact absurd rfl other
  next pc =>
    cases taken
    rw [pc] at serves
    apply alone.withWriterThread here
    · intro _; rw [pc]; rfl
    · split
      next w named => exact fun writer found => serves w writer named found
      next => trivial
  next pc =>
    cases taken
    apply alone.withWriterThread here
    · exact nofun
    · trivial
  next pc =>
    cases taken
    apply alone.withWriterThread here
    · exact nofun
    · trivial
  next w _ _ _ pc =>
    split at taken
    · cases taken
    next writer found =>
      split at taken
      · cases taken
      next p _ =>
        cases taken
        rw [pc] at serves
        have put := s.putQueues_keeps writer.queues p
        have stated : (s.putQueues writer.queues p).Keeps
            {s.putQueues writer.queues p with state := p.state} :=
          keeps_of_same (.inl rfl) (.inl rfl) rfl rfl rfl rfl rfl
        have stored : Keeps {s.putQueues writer.queues p with state := p.state}
            {s.putQueues writer.queues p with
              state := p.state
              writers := Function.update s.writers w (some {writer with seeking := p.seeking})} := by
          apply writers_keeps
          intro new edited
          cases edited
          exact ⟨writer,found,rfl⟩
        have keeps := (put.trans stated).trans stored
        apply (keeps.alone alone).withWriterThread here
        · intro _; rw [pc]; rfl
        · have serving : s.WriterServes thread.queues (.loop w .loopHead) := serves
          exact keeps.writerServes serving
  next pc =>
    cases taken
    have keeps : s.Keeps {s with writer := none} :=
      keeps_of_same (.inl rfl) (.inr rfl) rfl rfl rfl rfl rfl
    apply (keeps.alone alone).withWriterThread here
    · exact nofun
    · trivial
  next => cases taken

theorem userStep_alone {s t : Threads Id} {focusGranted : Bool} {user : UserPc Id} (alone : s.Alone)
    (held : s.StartsAlone (.user focusGranted)) (taken : s.userStep focusGranted = some (t,user)) :
    Alone {t with user := user} := by
  have prepared := alone.prepares
  unfold userStep at taken
  split at taken
  next => cases taken
  next pc =>
    cases taken
    apply alone.withUser
    split <;> trivial
  next pc =>
    cases taken
    exact alone.withUser trivial
  next pc =>
    cases taken
    apply alone.withUser
    split <;> trivial
  next trackId resuming pc =>
    cases taken
    have keeps : s.Keeps {s with state := .playing} :=
      keeps_of_same (.inl rfl) (.inl rfl) rfl rfl rfl rfl rfl
    apply (keeps.alone alone).withUser
    exact held trackId resuming pc
  next pc =>
    cases taken
    rw [pc] at prepared
    have keeps := s.ownQueue_keeps Queues.emptyBuffers
    apply (keeps.alone alone).withUser
    refine ⟨keeps.noReader prepared.1,keeps.noWriter prepared.2,?_⟩
    intro r reader named found
    exact (s.ownQueue_fits Queues.emptyBuffers r reader named found).1
  next emptyBuffers pc =>
    cases taken
    rw [pc] at prepared
    have keeps := s.ownQueue_keeps Queues.fullBuffers
    apply (keeps.alone alone).withUser
    refine ⟨keeps.noReader prepared.1,keeps.noWriter prepared.2.1,?_⟩
    intro r reader named found
    obtain ⟨own,earlier,before⟩ := s.ownQueue_fits Queues.fullBuffers r reader named found
    calc reader.queues = ⟨reader.queues.emptyBuffers,reader.queues.fullBuffers⟩ := rfl
      _ = ⟨emptyBuffers,(s.ownQueue Queues.fullBuffers).2⟩ := by
        rw [own,prepared.2.2 r reader earlier before]
  next queues pc =>
    cases taken
    rw [pc] at prepared
    apply alone.withUser
    split
    · exact prepared
    · trivial
  next captured pc =>
    cases taken
    exact alone.spawnReader pc
  next captured pc =>
    cases taken
    exact alone.spawnWriter pc
  next pc =>
    cases taken
    apply alone.withUser
    split <;> trivial
  next pc =>
    cases taken
    have keeps : s.Keeps {s with state := .paused} :=
      keeps_of_same (.inl rfl) (.inl rfl) rfl rfl rfl rfl rfl
    exact (keeps.alone alone).withUser trivial
  next pc =>
    cases taken
    exact (s.interrupt_keeps.alone alone).withUser trivial
  next stop pc =>
    cases taken
    apply ((s.stopStep_keeps stop).alone alone).withUser
    split <;> trivial
  next pc =>
    cases taken
    apply alone.withUser
    split <;> trivial
  next r trackId pc =>
    cases taken
    have keeps := s.editReader_keeps r (fun reader => {reader with queuedTrackId := trackId}) (fun _ => rfl)
    exact (keeps.alone alone).withUser trivial
  next pc =>
    cases taken
    apply alone.withUser
    split <;> trivial
  next r position pc =>
    cases taken
    have keeps := s.editReader_keeps r
      (fun reader => {reader with queuedSeekPosition := some position}) (fun _ => rfl)
    exact (keeps.alone alone).withUser trivial

theorem next_alone {bufferCount : Nat} {s t : Threads Id} {label : ThreadsLabel Id} (alone : s.Alone)
    (held : s.StartsAlone label) (taken : s.next bufferCount label = some t) : t.Alone := by
  unfold next at taken
  cases label with
  | command command =>
    dsimp only at taken
    split at taken
    · cases taken
      apply alone.withUser
      cases command <;> trivial
    · cases taken
  | user focusGranted =>
    dsimp only at taken
    split at taken
    · cases taken
    next stepped =>
      cases taken
      exact userStep_alone alone held stepped
  | reader name answers =>
    dsimp only at taken
    split at taken
    · cases taken
    next thread here =>
      split at taken
      · cases taken
      next stepped =>
        cases taken
        exact readerThreadStep_alone alone here stepped
  | writer name timeout =>
    dsimp only at taken
    split at taken
    · cases taken
    next thread here =>
      split at taken
      · cases taken
      next stepped =>
        cases taken
        exact writerThreadStep_alone alone here stepped

theorem initial_alone : (initial : Threads Id).Alone := by
  refine ⟨?_,?_,?_,?_,?_,trivial⟩
  · intro _ _ _ _ here; cases here
  · intro _ _ _ _ here; cases here
  · intro _ _ here; cases here
  · intro _ _ here; cases here
  · intro _ _ _ _ here; cases here

theorem Alone.oneOfEach {s : Threads Id} (alone : s.Alone) : s.OneOfEach := by
  refine ⟨?_,?_,?_⟩
  · intro i j t u here there first second
    exact alone.oneReader i j t u here there (ReaderThreadPc.live_of_executes first)
      (ReaderThreadPc.live_of_executes second)
  · intro i j t u here there first second
    exact alone.oneWriter i j t u here there (WriterThreadPc.live_of_executes first)
      (WriterThreadPc.live_of_executes second)
  · intro i j t u r w reader writer here there first second found made
    have together := alone.together i j t u here there
      (ReaderThreadPc.live_of_executes (by simp [first]))
      (WriterThreadPc.live_of_executes (by simp [second]))
    have reading : reader.queues = t.captured.queues := by
      have serves := alone.readers i t here
      cases pc : t.pc with
      | loop | stopping =>
        rw [pc] at serves first
        cases first
        exact serves reader found
      | _ =>
        rw [pc] at first
        cases first
    have writing : writer.queues = u.queues := by
      have serves := alone.writers j u there
      cases pc : u.pc with
      | loop =>
        rw [pc] at serves second
        cases second
        exact serves writer made
      | _ =>
        rw [pc] at second
        cases second
    exact reading.trans (together.trans writing.symm)

/-- If no `start` spawns its threads over one that is before or in its loop, at most one thread
ever executes each loop, and two that do share their queues. -/
theorem one_of_each {bufferCount : Nat} (labels : List (ThreadsLabel Id))
    (met : Run.Meets (next bufferCount) StartsAlone initial labels) :
    Run.Always (next bufferCount) OneOfEach (initial : Threads Id) labels :=
  Run.always_of_meets (fun _ alone => alone.oneOfEach)
    (fun _ _ _ alone held taken => next_alone alone held taken) initial_alone met

/-- A track is started, and both threads come into their loops. -/
theorem one_of_each_started :
    let labels : List (ThreadsLabel Nat) := .command (.start (some 7))::List.replicate 9 (.user true) ++
      List.replicate 6 (.reader 0 .playing) ++ List.replicate 4 (.writer 0 false)
    (∃ s, Run.exec (next 2) initial labels = some s ∧
      (s.readerThreads 0).bind (fun t => t.pc.executes) = some 0 ∧
      (s.writerThreads 0).bind (fun t => t.pc.executes) = some 0) ∧
    Run.Always (next 2) OneOfEach initial labels := by
  intro labels
  have alone : Run.Meets (next 2) StartsAlone initial labels := by
    refine ⟨trivial,nofun,nofun,nofun,?_,nofun,nofun,nofun,nofun,nofun,trivial,trivial,trivial,trivial,
      trivial,trivial,trivial,trivial,trivial,trivial,trivial⟩
    intro _ _ _
    constructor
    · intro i t here; cases here
    · intro i t here; cases here
  exact ⟨⟨_,rfl,rfl,rfl⟩,one_of_each labels alone⟩

/-- A track is started, paused and started again before its reader looks at the state: two
threads are in `Reader.loop`. -/
theorem two_in_loop : ∃ s : Threads Nat, Run.exec (next 2) initial
      (.command (.start (some 7))::List.replicate 9 (.user true) ++ List.replicate 18 (.reader 0 .playing) ++
        .command .pause::List.replicate 3 (.user true) ++
        .command (.start none)::List.replicate 9 (.user true) ++ List.replicate 3 (.reader 1 .playing)) =
      some s ∧ ¬ s.OneOfEach :=
  ⟨_,rfl,fun one => absurd (one.reader 0 1 _ _ rfl rfl nofun nofun) (by decide)⟩

end Threads
end Chipbox.Playback
