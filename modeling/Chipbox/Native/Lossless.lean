import Chipbox.Foundation.Run
import Chipbox.Native.Stream

/-! When a track's audio reaches the listener whole: the buffers that reads of a PSF track
assemble, against the chunks its emulator has delivered. -/
namespace Chipbox.Native
open Globals

structure Listener where
  globals : Globals
  assembled : List Byte

def delivered (g : Globals) : List Byte := outputBytes 0 g.produced

def Listener.hear (l : Listener) (read : Nat × ReadReply) : Option Listener :=
  match readNextSamples .psf read.1 l.globals read.2 with
  | none => none
  | some (none,g) => some {l with globals := g}
  | some (some taken,g) => some ⟨g,l.assembled ++ taken⟩

/-- Each chunk that the loop of `generateAudio` takes up fits into the FIFO with those before
it, and the write position stays below `2^64`. -/
def PutsFit (g : Globals) (bytesRequested internalBufferSize : Nat) : Prop :=
  g.cpuOpen = true → ∀ calls, (∀ earlier < calls, g.emulator.cpuOpen (g.executed + earlier) = true) →
    internalBufferSize + upcoming g.emulator g.executed calls < bytesRequested →
    upcoming g.emulator g.executed (calls + 1) ≤ g.fifoFromLib.fifoFreeSpace ∧
      g.fifoFromLib.writePos + upcoming g.emulator g.executed (calls + 1) < 2^64

/-- The chunks of the next read fit, once it has taken the left-over bytes. -/
def Fits (g : Globals) : Prop :=
  let got := g.fifoFromLib.fifoGet g.bufferLengthBytesTrack
  PutsFit {g with fifoFromLib := got.2} (g.bufferLengthBytesTrack - got.1.length) 0

/-- `after` has the FIFO of `g` with the next `count` bytes of output put behind, and nothing
lost. -/
structure Appended (g after : Globals) (count : Nat) : Prop where
  valid : after.fifoFromLib.Valid
  content : after.fifoFromLib.content = g.fifoFromLib.content ++ outputBytes g.produced count
  produced : after.produced = g.produced + count
  write : after.fifoFromLib.writePos = g.fifoFromLib.writePos + count
  free : after.fifoFromLib.fifoFreeSpace + count = g.fifoFromLib.fifoFreeSpace
  buffer : after.bufferAsShortTrack = g.bufferAsShortTrack

theorem Appended.refl {g : Globals} (valid : g.fifoFromLib.Valid) : Appended g g 0 :=
  ⟨valid,by simp,rfl,rfl,Nat.add_zero _,rfl⟩

theorem Appended.trans {g middle after : Globals} {first second : Nat}
    (before : Appended g middle first) (later : Appended middle after second) :
    Appended g after (first + second) where
  valid := later.valid
  content := by
    rw [later.content,before.content,before.produced,List.append_assoc,outputBytes_append]
  produced := by rw [later.produced,before.produced,Nat.add_assoc]
  write := by rw [later.write,before.write,Nat.add_assoc]
  free := by
    have := before.free
    have := later.free
    omega
  buffer := later.buffer.trans before.buffer

theorem sexyExecute_appends {g after : Globals} {size : Nat} (valid : g.fifoFromLib.Valid)
    (ran : sexyExecute g = some (size,after)) (fits : size ≤ g.fifoFromLib.fifoFreeSpace)
    (below : g.fifoFromLib.writePos + size < 2^64) : Appended g after size := by
  obtain ⟨_,⟨rfl,rfl⟩ | ⟨_,_,rfl,_⟩⟩ := sexyExecute_cases ran
  · exact ⟨valid,by simp,rfl,rfl,Nat.add_zero _,rfl⟩
  · have room := fits
    rw [Fifo.freeSpace_eq _ valid] at room
    have count := Fifo.put_count _ valid (outputBytes g.produced size)
    rw [outputBytes_length,Nat.min_eq_left room] at count
    have total : g.fifoFromLib.writePos + (g.fifoFromLib.fifoPut (outputBytes g.produced size)).1 <
        2^64 := by rw [count]; exact below
    have after_valid := Fifo.put_valid _ valid _ total
    obtain ⟨write,_,same_size⟩ := Fifo.put_positions _ _ total
    refine ⟨after_valid,?_,rfl,?_,?_,rfl⟩
    · dsimp only
      rw [Fifo.put_content _ valid _ total,List.take_of_length_le (by rw [outputBytes_length]; exact room)]
    · rw [write,count]
    · dsimp only
      rw [Fifo.freeSpace_eq _ after_valid,Fifo.freeSpace_eq _ valid,same_size,
        Fifo.put_stored _ valid _ total,count]
      omega

/-- The loop of `generateAudio` puts all it takes up into the FIFO: at least what was asked
for, or less when the CPU closes. -/
theorem generateLoop_appends {fuel requested internal : Nat} {g after : Globals} {result : Int}
    (valid : g.fifoFromLib.Valid) (fits : PutsFit g requested internal)
    (ran : generateLoop fuel g requested internal = some (result,after)) :
    ∃ count, Appended g after count ∧ (g.cpuOpen = false → count = 0) ∧
      ((0 ≤ result ∧ requested ≤ internal + count) ∨
        (result < 0 ∧ after.cpuOpen = false ∧ internal + count < requested)) := by
  induction fuel generalizing g internal with
  | zero => cases ran
  | succ fuel ih =>
    unfold generateLoop at ran
    split at ran
    next short =>
      split at ran
      next opened =>
        split at ran
        · cases ran
        next size middle executed =>
          have sized := (sexyExecute_cases executed).1
          obtain ⟨control,_,cpu,calls⟩ := sexyExecute_control executed
          obtain ⟨room,below⟩ := fits opened 0 nofun (by simpa [upcoming] using short)
          simp only [upcoming,← sized,Nat.add_zero] at room below
          have first := sexyExecute_appends valid executed room below
          have rest : PutsFit middle requested (internal + size) := by
            intro still count openly under
            rw [control.emulator,calls] at openly under ⊢
            obtain ⟨room,below⟩ := fits opened (count + 1) (fun earlier bound => by
              cases earlier with
              | zero => rw [Nat.add_zero,← cpu]; exact still
              | succ earlier =>
                have later := openly earlier (Nat.lt_of_succ_lt_succ bound)
                rwa [Nat.add_right_comm] at later) (by
              rw [upcoming,← sized]
              omega)
            rw [upcoming,← sized] at room below
            have := first.free
            rw [first.write]
            omega
          obtain ⟨count,more,_,outcome⟩ := ih first.valid rest ran
          exact ⟨size + count,first.trans more,by simp [opened],by rw [← Nat.add_assoc]; exact outcome⟩
      next closed =>
        cases ran
        exact ⟨0,.refl valid,fun _ => rfl,.inr ⟨by decide,by simpa using closed,short⟩⟩
    next enough =>
      cases ran
      exact ⟨0,.refl valid,fun _ => rfl,.inl ⟨Int.natCast_nonneg _,by omega⟩⟩

/-- The FIFO holds the output from `start` on, up to the last byte delivered. -/
structure Waits (g : Globals) (start : Nat) : Prop where
  valid : g.fifoFromLib.Valid
  content : g.fifoFromLib.content = outputBytes start g.fifoFromLib.stored
  produced : start + g.fifoFromLib.stored = g.produced

theorem Waits.append {g after : Globals} {start count : Nat} (waits : Waits g start)
    (appended : Appended g after count) : Waits after start := by
  have whole := appended.content
  rw [waits.content,← waits.produced,outputBytes_append] at whole
  have length := congrArg List.length whole
  rw [Fifo.content_length,outputBytes_length] at length
  refine ⟨appended.valid,by rw [length]; exact whole,?_⟩
  rw [length,appended.produced,← waits.produced,Nat.add_assoc]

theorem outputBytes_split (offset count wanted : Nat) :
    (outputBytes offset count).take wanted = outputBytes offset (min wanted count) ∧
    (outputBytes offset count).drop wanted =
      outputBytes (offset + min wanted count) (count - min wanted count) := by
  have split := outputBytes_append offset (min wanted count) (count - min wanted count)
  rw [Nat.add_sub_cancel' (Nat.min_le_right _ _)] at split
  rcases Nat.le_total wanted count with part | all
  · rw [← split,Nat.min_eq_left part]
    exact ⟨List.take_left' (outputBytes_length _ _),List.drop_left' (outputBytes_length _ _)⟩
  · rw [Nat.min_eq_right all]
    simp [List.take_of_length_le,all]

theorem Waits.get {g after : Globals} {start offset requested count : Nat} (waits : Waits g start)
    (got : getFromFifo g offset requested = some (count,after)) :
    Waits after (start + count) ∧ count = min requested g.fifoFromLib.stored ∧
      after.fifoFromLib.stored = g.fifoFromLib.stored - count ∧
      after.bufferAsShortTrack = memcpy g.bufferAsShortTrack offset (outputBytes start count) := by
  obtain ⟨other,same,_,⟨valid,queue⟩,_,produced,_,buffer⟩ :=
    getFromFifo_holds ⟨waits.valid,rfl⟩ offset requested
  cases got.symm.trans same
  have content := congrArg BoundedQueue.content queue
  obtain ⟨taken,left⟩ := outputBytes_split start g.fifoFromLib.stored requested
  simp only [Fifo.toQueue,BoundedQueue.get,waits.content,taken,left] at content buffer ⊢
  rw [outputBytes_length]
  have length := congrArg List.length content
  rw [Fifo.content_length,outputBytes_length] at length
  refine ⟨⟨valid,by rw [length]; exact content,?_⟩,rfl,length,buffer⟩
  rw [length,produced,← waits.produced,Nat.add_assoc,Nat.add_sub_cancel' (Nat.min_le_right _ _)]

/-- A read whose chunks fit assembles the next bytes of the output; where the CPU closes, it
assembles none and leaves less than a buffer. -/
theorem assembleAudio_next {fuel start : Nat} {g after : Globals} {taken : Option (List Byte)}
    (waits : Waits g start) (small : g.bufferLengthBytesTrack < 2^64) (fits : Fits g)
    (ran : assembleAudio .psf fuel g = some (taken,after)) :
    SameControl g after ∧
    match taken with
    | some bytes => bytes = outputBytes start g.bufferLengthBytesTrack ∧
        (g.cpuOpen = true ∨ g.bufferLengthBytesTrack ≤ g.fifoFromLib.stored) ∧
        Waits after (start + g.bufferLengthBytesTrack)
    | none => ∃ later, start ≤ later ∧ Waits after later ∧ after.cpuOpen = false ∧
        after.fifoFromLib.stored < g.bufferLengthBytesTrack := by
  unfold assembleAudio at ran
  split at ran
  · cases ran
  next leftover first got =>
    have control₁ := (getFromFifo_control got).1
    obtain ⟨waits₁,length,remaining,buffer₁⟩ := waits.get got
    rw [control₁.bytesTrack,Word.sub_of_le (by omega) small] at ran
    have fitting : PutsFit first (g.bufferLengthBytesTrack - leftover) 0 := by
      obtain ⟨faults,outcome⟩ := getFromFifo_eq (Nat.ne_of_gt waits.valid.positive) 0
        g.bufferLengthBytesTrack
      cases got.symm.trans outcome
      exact fits
    dsimp only at ran
    split at ran
    · cases ran
    next result second generated =>
      have control₂ := control₁.trans (generateAudio_control generated)
      obtain ⟨count,appended,idle,outcome⟩ := generateLoop_appends waits₁.valid fitting generated
      have waits₂ := waits₁.append appended
      have stored := congrArg List.length appended.content
      simp only [List.length_append,Fifo.content_length,outputBytes_length] at stored
      rcases outcome with ⟨fine,enough⟩ | ⟨failed,closed,short⟩
      · rw [if_neg (by omega)] at ran
        split at ran
        · cases ran
        next rest third again =>
          have control₃ := control₂.trans (getFromFifo_control again).1
          obtain ⟨waits₃,filled,_,buffer₃⟩ := waits₂.get again
          have whole : leftover + rest = g.bufferLengthBytesTrack := by omega
          cases ran
          refine ⟨control₃,?_,?_,?_⟩
          · rw [buffer₃,appended.buffer,buffer₁,control₃.bytesTrack,← whole]
            have copied := bytesAt_two_copies g.bufferAsShortTrack (outputBytes start leftover)
              (outputBytes (start + leftover) rest)
            rw [outputBytes_length,outputBytes_length,outputBytes_append] at copied
            exact copied
          · by_contra neither
            rw [not_or,Bool.not_eq_true,not_le] at neither
            have nothing := idle ((getFromFifo_control got).2.2.2.trans neither.1)
            omega
          · rw [← whole,← Nat.add_assoc]
            exact waits₃
      · rw [if_pos failed] at ran
        cases ran
        exact ⟨control₂,start + leftover,Nat.le_add_right _ _,waits₂,closed,by omega⟩

/-- Everything assembled is output in order. Until the CPU closes it is all that has left the
FIFO; what a failed read took out is followed by no other buffer. -/
structure InOrder (l : Listener) : Prop where
  small : l.globals.bufferLengthBytesTrack < 2^64
  start : ∃ start, Waits l.globals start ∧ (l.assembled = outputBytes 0 start ∨
    (l.globals.cpuOpen = false ∧ l.globals.fifoFromLib.stored < l.globals.bufferLengthBytesTrack ∧
      l.assembled <+: outputBytes 0 start))

theorem outputBytes_upTo {start later : Nat} (ordered : start ≤ later) :
    outputBytes 0 start <+: outputBytes 0 later := by
  have split := outputBytes_append 0 start (later - start)
  rw [Nat.add_sub_cancel' ordered] at split
  exact ⟨_,split⟩

theorem InOrder.played {l : Listener} (ordered : InOrder l) :
    l.assembled <+: delivered l.globals := by
  obtain ⟨start,waits,history⟩ := ordered.start
  have upTo := outputBytes_upTo (Nat.le.intro waits.produced)
  rcases history with all | ⟨_,_,part⟩
  · rw [all]; exact upTo
  · exact part.trans upTo

structure SameAudio (g after : Globals) : Prop where
  fifo : after.fifoFromLib = g.fifoFromLib
  produced : after.produced = g.produced
  cpu : after.cpuOpen = g.cpuOpen
  bytes : after.bufferLengthBytesTrack = g.bufferLengthBytesTrack

theorem SameAudio.addPlayed (g : Globals) (samples : Nat) : SameAudio g (g.addPlayed samples) := by
  constructor <;> dsimp only [Globals.addPlayed]

theorem Waits.congr {g after : Globals} {start : Nat} (waits : Waits g start)
    (same : SameAudio g after) : Waits after start :=
  ⟨by rw [same.fifo]; exact waits.valid,by rw [same.fifo]; exact waits.content,
    by rw [same.fifo,same.produced]; exact waits.produced⟩

/-- What a read returns is what it has assembled; nothing else it does touches the FIFO. -/
theorem readNextSamples_assembles {lib : Lib} {fuel : Nat} {g after : Globals} {reply : ReadReply}
    {taken : Option (List Byte)} (ran : readNextSamples lib fuel g reply = some (taken,after)) :
    (taken = none ∧ SameAudio g after) ∨
    ∃ middle, assembleAudio lib fuel g = some (taken,middle) ∧ SameAudio middle after := by
  unfold readNextSamples at ran
  split at ran
  · cases ran
    exact .inl ⟨rfl,rfl,rfl,rfl,rfl⟩
  · split at ran
    · cases ran
      exact .inl ⟨rfl,rfl,rfl,rfl,rfl⟩
    · right
      dsimp only at ran
      split at ran
      · cases ran
      next middle assembled => cases ran; exact ⟨_,assembled,rfl,rfl,rfl,rfl⟩
      next bytes middle assembled =>
        refine ⟨middle,?_⟩
        split at ran
        · cases ran; exact ⟨assembled,.addPlayed _ _⟩
        · split at ran
          · cases ran; exact ⟨assembled,rfl,rfl,rfl,rfl⟩
          · cases ran; exact ⟨assembled,.addPlayed _ _⟩

theorem InOrder.congr {l : Listener} {after : Globals} (ordered : InOrder l)
    (same : SameAudio l.globals after) : InOrder {l with globals := after} := by
  obtain ⟨small,start,waits,history⟩ := ordered
  refine ⟨by rw [same.bytes]; exact small,start,waits.congr same,?_⟩
  rw [same.cpu,same.fifo,same.bytes]
  exact history

/-- A read whose chunks fit keeps the order. -/
theorem hear_inOrder {l after : Listener} {read : Nat × ReadReply} (ordered : InOrder l)
    (fits : Fits l.globals) (heard : l.hear read = some after) : InOrder after := by
  have whole := ordered
  obtain ⟨small,start,waits,history⟩ := ordered
  unfold Listener.hear at heard
  split at heard
  · cases heard
  next g ran =>
    cases heard
    rcases readNextSamples_assembles ran with ⟨_,same⟩ | ⟨middle,assembled,same⟩
    · exact whole.congr same
    · obtain ⟨control,later,between,still,closed,short⟩ := assembleAudio_next waits small fits assembled
      have kept : InOrder {l with globals := middle} := by
        refine ⟨by rw [control.bytesTrack]; exact small,later,still,.inr ⟨closed,?_,?_⟩⟩
        · rw [control.bytesTrack]
          exact short
        · rcases history with all | ⟨_,_,part⟩
          · rw [all]; exact outputBytes_upTo between
          · exact part.trans (outputBytes_upTo between)
      exact kept.congr same
  next taken g ran =>
    cases heard
    rcases readNextSamples_assembles ran with ⟨absent,_⟩ | ⟨middle,assembled,same⟩
    · cases absent
    · obtain ⟨control,exactly,going,still⟩ := assembleAudio_next waits small fits assembled
      have kept : InOrder ⟨middle,l.assembled ++ taken⟩ := by
        refine ⟨by rw [control.bytesTrack]; exact small,_,still,.inl ?_⟩
        rcases history with all | ⟨closed,short,_⟩
        · have joined := outputBytes_append 0 start l.globals.bufferLengthBytesTrack
          rw [exactly,all]
          rwa [Nat.zero_add] at joined
        · rcases going with opened | full
          · rw [closed] at opened
            cases opened
          · omega
      exact kept.congr same

theorem finishLoad_fifo (rateTrack : Nat) (emulator : Emulator) (g : Globals) :
    let loaded := finishLoad rateTrack emulator g
    loaded.produced = 0 ∧ loaded.bufferLengthBytesTrack < 2^64 ∧
      ∃ size, size < 2^64 ∧ loaded.fifoFromLib = Fifo.fifoInit size noMemory := by
  dsimp only [finishLoad,setHandle]
  exact ⟨rfl,Word.mul_lt _ _,_,Word.mul_lt _ _,rfl⟩

/-- A load that is accepted starts in order, unless the FIFO has no cells. -/
theorem loadFileInternal_inOrder {g loaded : Globals} {rate bufferSize fadeTimeMs : Nat}
    {reply : LoadReply} {emulator : Emulator} (accepted : reply.emulator = some emulator)
    (load : loadFileInternal .psf g rate bufferSize fadeTimeMs reply = some loaded) :
    loaded.fifoFromLib.size = 0 ∨ InOrder ⟨loaded,[]⟩ := by
  by_cases positive : rate = 0
  · simp [loadFileInternal,positive] at load
  rw [loadFileInternal,if_neg positive] at load
  dsimp only at load
  rw [accepted] at load
  obtain ⟨produced,small,size,bounded,fifo⟩ := finishLoad_fifo 44100 emulator
    {prepareLoad .psf g rate bufferSize fadeTimeMs with cpuOpen := true}
  rw [Option.some.inj load] at produced small fifo
  by_cases empty : size = 0
  · left
    rw [fifo,empty]
    rfl
  · right
    refine ⟨small,0,⟨?_,?_,?_⟩,.inl rfl⟩
    · rw [fifo]
      exact Fifo.init_valid _ _ (Nat.pos_of_ne_zero empty) bounded
    · rw [fifo,Fifo.init_content]
      rfl
    · rw [fifo,produced]
      rfl

/-- Without cells the first read that reaches the FIFO divides by zero. -/
theorem hear_cellless {l after : Listener} {read : Nat × ReadReply}
    (cellless : l.globals.fifoFromLib.size = 0) (heard : l.hear read = some after) :
    after.globals.fifoFromLib.size = 0 ∧ after.assembled = l.assembled := by
  have stuck (fuel : Nat) : assembleAudio .psf fuel l.globals = none := by
    simp [assembleAudio,getFromFifo,cellless]
  unfold Listener.hear at heard
  split at heard
  · cases heard
  next g ran =>
    cases heard
    rcases readNextSamples_assembles ran with ⟨_,same⟩ | ⟨middle,assembled,_⟩
    · exact ⟨by rw [same.fifo]; exact cellless,rfl⟩
    · rw [stuck] at assembled
      cases assembled
  next taken g ran =>
    rcases readNextSamples_assembles ran with ⟨absent,_⟩ | ⟨middle,assembled,_⟩
    · cases absent
    · rw [stuck] at assembled
      cases assembled

/-- From an accepted load on, whatever the buffer size, the rates and the chunks: if the chunks
of every read fit, the assembled buffers are a prefix of the delivered chunks. -/
theorem assembled_in_order {g loaded : Globals} {rate bufferSize fadeTimeMs : Nat}
    {reply : LoadReply} {emulator : Emulator} (accepted : reply.emulator = some emulator)
    (load : loadFileInternal .psf g rate bufferSize fadeTimeMs reply = some loaded)
    {reads : List (Nat × ReadReply)} {finish : Listener}
    (run : Run.exec Listener.hear ⟨loaded,[]⟩ reads = some finish)
    (met : Run.Meets Listener.hear (fun l _ => Fits l.globals) ⟨loaded,[]⟩ reads) :
    finish.assembled <+: delivered finish.globals := by
  rcases loadFileInternal_inOrder accepted load with cellless | ordered
  · have still (l : Listener) (read : Nat × ReadReply) (after : Listener)
        (kept : l.globals.fifoFromLib.size = 0 ∧ l.assembled = []) (heard : l.hear read = some after) :
        after.globals.fifoFromLib.size = 0 ∧ after.assembled = [] := by
      obtain ⟨size,same⟩ := hear_cellless kept.1 heard
      exact ⟨size,same.trans kept.2⟩
    have kept := Run.invariant_of_step still ⟨cellless,rfl⟩ run
    rw [kept.2]
    exact List.nil_prefix
  · exact (Run.guarded_invariant (fun _ _ _ ordered fits heard => hear_inOrder ordered fits heard)
      ordered run met).played

theorem upcoming_steady (size executed calls : Nat) :
    upcoming (steadyEmulator size) executed calls = size * calls := by
  induction calls generalizing executed with
  | zero => rfl
  | succ calls ih =>
    rw [upcoming,ih,Nat.mul_succ]
    exact Nat.add_comm _ _

/-- Room for what is asked for and one chunk is enough for chunks of one size. -/
theorem fits_steady {g : Globals} {size : Nat} (steady : g.emulator = steadyEmulator size)
    (room : let got := g.fifoFromLib.fifoGet g.bufferLengthBytesTrack
      let requested := g.bufferLengthBytesTrack - got.1.length
      requested + size ≤ got.2.fifoFreeSpace ∧ got.2.writePos + requested + size < 2^64) : Fits g := by
  intro _ calls _ under
  simp only [steady,upcoming_steady] at under ⊢
  rw [Nat.mul_succ]
  dsimp only at room
  omega

/-- Three buffers of four samples from an emulator that delivers three samples a chunk: two leave
bytes in the FIFO. -/
theorem assembled_in_order_steady : ∃ loaded finish,
    loadFileInternal .psf .initial 44100 8 180000 ⟨[],some (steadyEmulator 12)⟩ = some loaded ∧
    Run.exec Listener.hear ⟨loaded,[]⟩ (List.replicate 3 (3,⟨false,none⟩)) = some finish ∧
    finish.assembled <+: delivered finish.globals := by
  obtain ⟨loaded,load⟩ : ∃ loaded, loadFileInternal .psf .initial 44100 8 180000
    ⟨[],some (steadyEmulator 12)⟩ = some loaded := ⟨_,rfl⟩
  obtain ⟨finish,run⟩ : ∃ finish, Run.exec Listener.hear ⟨loaded,[]⟩
    (List.replicate 3 (3,⟨false,none⟩)) = some finish := by cases load; exact ⟨_,rfl⟩
  have met : Run.Meets Listener.hear (fun l _ => Fits l.globals) ⟨loaded,[]⟩
      (List.replicate 3 (3,⟨false,none⟩)) := by
    cases load
    exact ⟨fits_steady rfl (by decide),fits_steady rfl (by decide),fits_steady rfl (by decide),trivial⟩
  exact ⟨loaded,finish,load,run,assembled_in_order rfl load run met⟩

/-- A chunk of three samples for a buffer of one: what the FIFO refuses is lost, and the third
buffer goes on with the next chunk. -/
theorem chunk_cut : ∃ loaded finish,
    loadFileInternal .psf .initial 44100 2 180000 ⟨[],some (steadyEmulator 12)⟩ = some loaded ∧
    Run.exec Listener.hear ⟨loaded,[]⟩
      [(2,⟨false,none⟩),(2,⟨false,none⟩),(2,⟨false,none⟩)] = some finish ∧
    finish.assembled = outputBytes 0 8 ++ outputBytes 12 4 ∧
    ¬ finish.assembled <+: delivered finish.globals :=
  ⟨_,_,rfl,rfl,by decide,by decide⟩

end Chipbox.Native
