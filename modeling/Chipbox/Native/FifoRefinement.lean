import Chipbox.Native.Fifo

/-! Whole histories of `fifo_put` and `fifo_get` against those of a bounded queue. -/
namespace Chipbox.Native
variable {α : Type}

/-- One `memcpy` of a transfer, by its offsets and its length. -/
structure Copy where
  target : Nat
  source : Nat
  count : Nat

namespace Fifo

/-- The two copies of `fifo_put`, from the input into the ring. -/
def putCopies (fifo : Fifo α) (input : List α) : List Copy :=
  let bytesToActuallyCopy := min input.length fifo.fifoFreeSpace
  let actualWritePos := fifo.writePos % fifo.size
  let bytesToCopyBeforeEnd := min bytesToActuallyCopy (Word.sub fifo.size actualWritePos)
  [⟨actualWritePos,0,bytesToCopyBeforeEnd⟩,
    ⟨0,bytesToCopyBeforeEnd,bytesToActuallyCopy - bytesToCopyBeforeEnd⟩]

/-- The two copies of `fifo_get`, from the ring into the target. -/
def getCopies (fifo : Fifo α) (bytesRequested : Nat) : List Copy :=
  let bytesToActuallyRead := min bytesRequested (Word.sub fifo.writePos fifo.readPos)
  let actualReadPos := fifo.readPos % fifo.size
  let bytesToReadBeforeEnd := min bytesToActuallyRead (Word.sub fifo.size actualReadPos)
  [⟨0,actualReadPos,bytesToReadBeforeEnd⟩,
    ⟨bytesToReadBeforeEnd,0,bytesToActuallyRead - bytesToReadBeforeEnd⟩]

theorem fifoPut_copies (fifo : Fifo α) (input : List α) : (fifo.fifoPut input).2.buffer =
    (fifo.putCopies input).foldl (fun buffer copy =>
      memcpy buffer copy.target ((input.drop copy.source).take copy.count)) fifo.buffer := rfl

theorem fifoGet_copies (fifo : Fifo α) (bytesRequested : Nat) : (fifo.fifoGet bytesRequested).1 =
    (fifo.getCopies bytesRequested).flatMap fun copy => bytesAt fifo.buffer copy.source copy.count := by
  simp [fifoGet,getCopies]

theorem putCopies_inside (fifo : Fifo α) (valid : fifo.Valid) (input : List α) :
    ∀ copy ∈ fifo.putCopies input,
      copy.target + copy.count ≤ fifo.size ∧ copy.source + copy.count ≤ input.length := by
  have inRing := Nat.mod_lt fifo.writePos valid.positive
  have room : Word.sub fifo.size (fifo.writePos % fifo.size) =
      fifo.size - fifo.writePos % fifo.size := Word.sub_of_le (by omega) valid.size_lt
  have free := freeSpace_eq fifo valid
  simp only [putCopies,room,free,List.mem_cons,List.not_mem_nil,or_false,forall_eq_or_imp,forall_eq]
  omega

theorem getCopies_inside (fifo : Fifo α) (valid : fifo.Valid) (bytesRequested : Nat) :
    ∀ copy ∈ fifo.getCopies bytesRequested,
      copy.source + copy.count ≤ fifo.size ∧ copy.target + copy.count ≤ bytesRequested := by
  have inRing := Nat.mod_lt fifo.readPos valid.positive
  have room : Word.sub fifo.size (fifo.readPos % fifo.size) =
      fifo.size - fifo.readPos % fifo.size := Word.sub_of_le (by omega) valid.size_lt
  have available : fifo.stored ≤ fifo.size := valid.fits
  simp only [getCopies,room,available_eq fifo valid,List.mem_cons,List.not_mem_nil,or_false,
    forall_eq_or_imp,forall_eq]
  omega

def called (fifo : Fifo α) : QueueCall α → Fifo α
  | .put input => (fifo.fifoPut input).2
  | .get requested => (fifo.fifoGet requested).2

def answer (fifo : Fifo α) : QueueCall α → Nat ⊕ List α
  | .put input => .inl (fifo.fifoPut input).1
  | .get requested => .inr (fifo.fifoGet requested).1

/-- No copy of the call leaves the ring or the buffer on the other side. -/
def CopiesInside (fifo : Fifo α) : QueueCall α → Prop
  | .put input => ∀ copy ∈ fifo.putCopies input,
      copy.target + copy.count ≤ fifo.size ∧ copy.source + copy.count ≤ input.length
  | .get requested => ∀ copy ∈ fifo.getCopies requested,
      copy.source + copy.count ≤ fifo.size ∧ copy.target + copy.count ≤ requested

/-- The FIFO stands for the queue of the ledger, and its write position counts the bytes
accepted. -/
structure Books (fifo : Fifo α) (l : Ledger α) : Prop where
  holds : fifo.Holds l.queue
  written : fifo.writePos = l.accepted.length

theorem called_books {fifo : Fifo α} {l : Ledger α} (books : fifo.Books l) (made : QueueCall α)
    (total : (l.call made).accepted.length < 2^64) : (fifo.called made).Books (l.call made) := by
  obtain ⟨⟨valid,queue⟩,written⟩ := books
  cases made with
  | put input =>
    have count := put_count fifo valid input
    have free : l.queue.free = fifo.size - fifo.stored := by
      rw [← queue,BoundedQueue.free]
      simp [toQueue]
    have grown : fifo.writePos + (fifo.fifoPut input).1 = (l.call (.put input)).accepted.length := by
      simp only [Ledger.call,List.length_append,List.length_take]
      rw [written,count,free]
      omega
    have fits : fifo.writePos + (fifo.fifoPut input).1 < 2^64 := by omega
    refine ⟨⟨put_valid fifo valid input fits,?_⟩,?_⟩
    · exact (put_refines fifo valid input fits).trans (congrArg (fun q => q.put input) queue)
    · exact (put_positions fifo input fits).1.trans grown
  | get requested =>
    refine ⟨⟨get_valid fifo valid requested,?_⟩,written⟩
    exact (congrArg Prod.snd (get_refines fifo valid requested)).trans
      (congrArg (fun q => (q.get requested).2) queue)

theorem history_books {fifo : Fifo α} {l : Ledger α} (books : fifo.Books l)
    (history : List (QueueCall α)) (total : (history.foldl Ledger.call l).accepted.length < 2^64) :
    (history.foldl called fifo).Books (history.foldl Ledger.call l) := by
  induction history generalizing fifo l with
  | nil => exact books
  | cons made rest ih =>
    have before := Ledger.calls_accepted (l.call made) rest
    exact ih (called_books books made (by rw [List.foldl_cons] at total; omega)) total

theorem answer_eq {fifo : Fifo α} {queue : BoundedQueue α} (holds : fifo.Holds queue)
    (made : QueueCall α) : fifo.answer made = queue.answer made ∧ fifo.CopiesInside made := by
  obtain ⟨valid,rfl⟩ := holds
  cases made with
  | put input =>
    have count := put_count fifo valid input
    refine ⟨?_,putCopies_inside fifo valid input⟩
    simp [answer,BoundedQueue.answer,BoundedQueue.free,toQueue,count]
  | get requested =>
    exact ⟨congrArg Sum.inr (get_bytes fifo valid requested),getCopies_inside fifo valid requested⟩

/-- Over every history of calls that moves fewer than `2^64` bytes, and at every further
call, the FIFO is a bounded queue: its positions are at most one ring apart, what was
accepted is what was got followed by what is stored, the call answers and leaves behind what
that of the queue does, and no copy leaves the ring or the other buffer. -/
theorem fifo_refines_queue (capacity : Nat) (positive : 0 < capacity) (small : capacity < 2^64)
    (malloced : Nat → α) (history : List (QueueCall α)) (made : QueueCall α)
    (total : ((history ++ [made]).foldl Ledger.call (.opened capacity)).accepted.length < 2^64) :
    let fifo := history.foldl called (fifoInit capacity malloced)
    let l := history.foldl Ledger.call (.opened capacity)
    (fifo.readPos ≤ fifo.writePos ∧ fifo.writePos - fifo.readPos ≤ capacity) ∧
    fifo.size = capacity ∧ l.queue.capacity = capacity ∧ fifo.content = l.queue.content ∧
    l.accepted = l.got ++ l.queue.content ∧
    fifo.answer made = l.queue.answer made ∧
    (fifo.called made).content = (l.call made).queue.content ∧
    fifo.CopiesInside made := by
  intro fifo l
  have opened : (fifoInit capacity malloced).Books (.opened capacity) :=
    ⟨⟨init_valid capacity malloced positive small,rfl⟩,rfl⟩
  rw [List.foldl_append] at total
  have before : l.accepted.length < 2^64 := Nat.lt_of_le_of_lt (Ledger.call_accepted l made) total
  have books : fifo.Books l := history_books opened history before
  have after := called_books books made total
  have balanced : l.Balanced := Ledger.calls_balanced (rfl : (Ledger.opened capacity).Balanced) history
  have kept : l.queue.capacity = capacity := Ledger.calls_capacity (.opened capacity) history
  have size : fifo.size = capacity := books.holds.size.trans kept
  obtain ⟨answered,inside⟩ := answer_eq books.holds made
  obtain ⟨valid,_⟩ := books.holds
  exact ⟨⟨valid.ordered,size ▸ valid.fits⟩,size,kept,books.holds.content,balanced,answered,
    after.holds.content,inside⟩

/-- A put and a get through a ring of three bytes, at the wrap. -/
theorem fifo_refines_queue_wrap :
    (([.put [1,2],.get 2,.put [3,4]] : List (QueueCall Nat)).foldl called
      (fifoInit 3 fun _ => 0)).answer (.get 5) = .inr [3,4] :=
  (fifo_refines_queue 3 (by decide) (by decide) (fun _ => 0) [.put [1,2],.get 2,.put [3,4]] (.get 5)
    (by decide)).2.2.2.2.2.1

end Fifo
end Chipbox.Native
