import Chipbox.Foundation.BoundedQueue
import Chipbox.Foundation.Word
import Mathlib.Data.Nat.ModEq

/-! The byte FIFO of the PSF and USF backends: a ring of `size` cells between two
positions that only grow. While the positions stay below `2^64` it is a bounded
queue of the bytes stored between them. -/
namespace Chipbox.Native

structure Fifo (α : Type) where
  writePos : Nat
  readPos : Nat
  size : Nat
  buffer : Nat → α

variable {α : Type}

/-- `memcpy` of the listed bytes to an offset of a buffer. -/
def memcpy (target : Nat → α) (offset : Nat) (bytes : List α) : Nat → α := fun cell =>
  if offset ≤ cell then (bytes[cell - offset]?).getD (target cell) else target cell

/-- The bytes that `memcpy` takes from an offset of a buffer. -/
def bytesAt (source : Nat → α) (offset count : Nat) : List α :=
  (List.range count).map (fun i => source (offset + i))

theorem memcpy_inside (target : Nat → α) (offset index : Nat) (bytes : List α)
    (bound : index < bytes.length) : memcpy target offset bytes (offset + index) = bytes[index] := by
  simp [memcpy,bound]

theorem memcpy_outside (target : Nat → α) (offset cell : Nat) (bytes : List α)
    (outside : cell < offset ∨ offset + bytes.length ≤ cell) :
    memcpy target offset bytes cell = target cell := by
  unfold memcpy
  split
  next above =>
    have absent : bytes[cell - offset]? = none := List.getElem?_eq_none (by omega)
    rw [absent,Option.getD_none]
  next => rfl

@[simp] theorem memcpy_nil (target : Nat → α) (offset : Nat) : memcpy target offset [] = target := by
  funext cell
  exact memcpy_outside target offset cell [] (by simp; omega)

theorem memcpy_append (target : Nat → α) (offset : Nat) (front back : List α) :
    memcpy (memcpy target offset front) (offset + front.length) back = memcpy target offset (front ++ back) := by
  funext cell
  unfold memcpy
  by_cases before : offset ≤ cell
  · by_cases within : offset + front.length ≤ cell
    · rw [if_pos within,if_pos before,List.getElem?_append_right (by omega),if_pos before,
        List.getElem?_eq_none (by omega : front.length ≤ cell - offset),Nat.sub_add_eq]
      rfl
    · rw [if_neg within,if_pos before,if_pos before,List.getElem?_append_left (by omega)]
  · rw [if_neg (by omega),if_neg before,if_neg before]

@[simp] theorem bytesAt_zero (source : Nat → α) (offset : Nat) : bytesAt source offset 0 = [] := rfl

@[simp] theorem bytesAt_length (source : Nat → α) (offset count : Nat) :
    (bytesAt source offset count).length = count := by
  rw [bytesAt,List.length_map,List.length_range]

theorem bytesAt_add (source : Nat → α) (offset first second : Nat) :
    bytesAt source offset (first + second) =
      bytesAt source offset first ++ bytesAt source (offset + first) second := by
  simp [bytesAt,List.range_add,Nat.add_assoc]

theorem bytesAt_memcpy (target : Nat → α) (offset : Nat) (bytes : List α) :
    bytesAt (memcpy target offset bytes) 0 (offset + bytes.length) = bytesAt target 0 offset ++ bytes := by
  rw [bytesAt_add]
  congr 1
  · apply List.map_congr_left
    intro cell below
    exact memcpy_outside target offset _ bytes (.inl (by rw [List.mem_range] at below; omega))
  · apply List.ext_getElem
    · rw [bytesAt_length]
    · intro index inside _
      rw [bytesAt_length] at inside
      simp only [bytesAt,List.getElem_map,List.getElem_range,Nat.zero_add]
      exact memcpy_inside target offset index bytes inside

theorem bytesAt_memcpy_start (target : Nat → α) (bytes : List α) :
    bytesAt (memcpy target 0 bytes) 0 bytes.length = bytes := by
  have copied := bytesAt_memcpy target 0 bytes
  rwa [Nat.zero_add] at copied

namespace Fifo

def fifoInit (length : Nat) (malloced : Nat → α) : Fifo α := ⟨0,0,length,malloced⟩

def fifoFreeSpace (fifo : Fifo α) : Nat :=
  Word.add (Word.sub fifo.size fifo.writePos) fifo.readPos

def fifoPut (fifo : Fifo α) (input : List α) : Nat × Fifo α :=
  let freeSpaceInBuffer := fifo.fifoFreeSpace
  let bytesToActuallyCopy := min input.length freeSpaceInBuffer
  let actualWritePos := fifo.writePos % fifo.size
  let bytesBeforeEnd := Word.sub fifo.size actualWritePos
  let bytesToCopyBeforeEnd := min bytesToActuallyCopy bytesBeforeEnd
  let atEnd := memcpy fifo.buffer actualWritePos (input.take bytesToCopyBeforeEnd)
  let atStart := memcpy atEnd 0
    ((input.drop bytesToCopyBeforeEnd).take (bytesToActuallyCopy - bytesToCopyBeforeEnd))
  (bytesToActuallyCopy,{fifo with
    writePos := Word.add fifo.writePos bytesToActuallyCopy, buffer := atStart})

def fifoGet (fifo : Fifo α) (bytesRequested : Nat) : List α × Fifo α :=
  let bytesAvailable := Word.sub fifo.writePos fifo.readPos
  let bytesToActuallyRead := min bytesRequested bytesAvailable
  let actualReadPos := fifo.readPos % fifo.size
  let bytesToReadBeforeEnd := min bytesToActuallyRead (Word.sub fifo.size actualReadPos)
  let beforeEnd := bytesAt fifo.buffer actualReadPos bytesToReadBeforeEnd
  let fromStart := bytesAt fifo.buffer 0 (bytesToActuallyRead - bytesToReadBeforeEnd)
  (beforeEnd ++ fromStart,{fifo with readPos := Word.add fifo.readPos bytesToActuallyRead})

/-- The positions are ordered, at most one ring apart and below `2^64`. -/
structure Valid (fifo : Fifo α) : Prop where
  positive : 0 < fifo.size
  ordered : fifo.readPos ≤ fifo.writePos
  fits : fifo.writePos - fifo.readPos ≤ fifo.size
  write_lt : fifo.writePos < 2^64
  size_lt : fifo.size < 2^64

def stored (fifo : Fifo α) : Nat := fifo.writePos - fifo.readPos

def content (fifo : Fifo α) : List α :=
  (List.range fifo.stored).map (fun i => fifo.buffer ((fifo.readPos + i) % fifo.size))

@[simp] theorem content_length (fifo : Fifo α) : fifo.content.length = fifo.stored := by
  simp [content]

def toQueue (fifo : Fifo α) (valid : fifo.Valid) : BoundedQueue α :=
  ⟨fifo.size,fifo.content,by rw [content_length]; exact valid.fits⟩

theorem init_valid (length : Nat) (malloced : Nat → α) (positive : 0 < length)
    (small : length < 2^64) : (fifoInit length malloced).Valid :=
  ⟨positive,Nat.le_refl _,Nat.zero_le _,Nat.two_pow_pos 64,small⟩

@[simp] theorem init_content (length : Nat) (malloced : Nat → α) :
    (fifoInit length malloced).content = [] := rfl

theorem ring_index {size position offset : Nat} (inside : offset < size) :
    (position + offset) % size = if position % size + offset < size
      then position % size + offset else position % size + offset - size := by
  have positive : 0 < size := by omega
  have bound := Nat.mod_lt position positive
  rw [Nat.add_mod,Nat.mod_eq_of_lt inside]
  split
  next low => exact Nat.mod_eq_of_lt low
  next high =>
    rw [Nat.mod_eq_sub_mod (by omega)]
    exact Nat.mod_eq_of_lt (by omega)

theorem ring_index_ne {size first second : Nat} (ordered : first < second)
    (apart : second - first < size) : first % size ≠ second % size := by
  intro same
  have divides := (Nat.modEq_iff_dvd' (Nat.le_of_lt ordered)).mp same
  have := Nat.le_of_dvd (by omega) divides
  omega

theorem freeSpace_eq (fifo : Fifo α) (valid : fifo.Valid) :
    fifo.fifoFreeSpace = fifo.size - fifo.stored := by
  have := valid.ordered
  have := valid.fits
  have := valid.write_lt
  have := valid.size_lt
  unfold fifoFreeSpace Word.add Word.sub Word.wrap stored
  omega

/-- `fifo_put` accepts what fits and writes nothing else between the positions. -/
theorem put_count (fifo : Fifo α) (valid : fifo.Valid) (input : List α) :
    (fifo.fifoPut input).1 = min input.length (fifo.size - fifo.stored) := by
  simp only [fifoPut,freeSpace_eq fifo valid]

section Put
variable (fifo : Fifo α) (valid : fifo.Valid) (input : List α)
include valid

theorem put_buffer_new (index : Nat) (accepted : index < (fifo.fifoPut input).1)
    (bound : index < input.length) :
    (fifo.fifoPut input).2.buffer ((fifo.writePos + index) % fifo.size) = input[index] := by
  have count := put_count fifo valid input
  have small := valid.size_lt
  have inRing := Nat.mod_lt fifo.writePos valid.positive
  have room : Word.sub fifo.size (fifo.writePos % fifo.size) =
      fifo.size - fifo.writePos % fifo.size := Word.sub_of_le (by omega) small
  rw [ring_index (by omega)]
  simp only [fifoPut,room] at accepted count ⊢
  rw [count] at accepted ⊢
  split
  next low =>
    rw [memcpy_outside _ 0 _ _ (by
      right
      simp only [List.length_take,List.length_drop]
      omega)]
    rw [memcpy_inside _ _ _ _ (by simp only [List.length_take]; omega)]
    simp
  next high =>
    have start : fifo.writePos % fifo.size + index - fifo.size =
        0 + (index - (fifo.size - fifo.writePos % fifo.size)) := by omega
    rw [start,memcpy_inside _ 0 _ _ (by simp only [List.length_take,List.length_drop]; omega)]
    simp only [List.getElem_take,List.getElem_drop]
    congr 1
    omega

theorem put_buffer_old (index : Nat) (present : index < fifo.stored) :
    (fifo.fifoPut input).2.buffer ((fifo.readPos + index) % fifo.size) =
      fifo.buffer ((fifo.readPos + index) % fifo.size) := by
  have count := put_count fifo valid input
  have small := valid.size_lt
  have ordered := valid.ordered
  have fits := valid.fits
  have inRing := Nat.mod_lt fifo.writePos valid.positive
  have cellBound := Nat.mod_lt (fifo.readPos + index) valid.positive
  have room : Word.sub fifo.size (fifo.writePos % fifo.size) =
      fifo.size - fifo.writePos % fifo.size := Word.sub_of_le (by omega) small
  unfold stored at *
  -- a cell between the positions is none of those that follow the write position
  have apart (j : Nat) (accepted : j < min input.length (fifo.size - (fifo.writePos - fifo.readPos))) :
      (fifo.readPos + index) % fifo.size ≠ (fifo.writePos + j) % fifo.size :=
    ring_index_ne (by omega) (by omega)
  simp only [fifoPut,room] at count ⊢
  rw [count]
  generalize (fifo.readPos + index) % fifo.size = cell at *
  rw [memcpy_outside,memcpy_outside]
  · by_contra inside
    simp only [List.length_take,not_or,not_lt,not_le] at inside
    refine apart (cell - fifo.writePos % fifo.size) (by omega) ?_
    rw [ring_index (by omega),if_pos (by omega)]
    omega
  · by_contra inside
    simp only [List.length_take,List.length_drop,not_or,not_lt,not_le] at inside
    refine apart (cell + (fifo.size - fifo.writePos % fifo.size)) (by omega) ?_
    rw [ring_index (by omega),if_neg (by omega)]
    omega

variable (total : fifo.writePos + (fifo.fifoPut input).1 < 2^64)
include total

omit valid in
theorem put_positions : (fifo.fifoPut input).2.writePos = fifo.writePos + (fifo.fifoPut input).1 ∧
    (fifo.fifoPut input).2.readPos = fifo.readPos ∧ (fifo.fifoPut input).2.size = fifo.size :=
  ⟨Word.add_of_lt total,rfl,rfl⟩

theorem put_valid : (fifo.fifoPut input).2.Valid := by
  obtain ⟨write,read,size⟩ := put_positions fifo input total
  have count := put_count fifo valid input
  have := valid.ordered
  have := valid.fits
  unfold stored at *
  constructor
  · rw [size]; exact valid.positive
  · rw [write,read]; omega
  · rw [write,read,size]; omega
  · rw [write]; exact total
  · rw [size]; exact valid.size_lt

theorem put_stored : (fifo.fifoPut input).2.stored = fifo.stored + (fifo.fifoPut input).1 := by
  obtain ⟨write,read,_⟩ := put_positions fifo input total
  have := valid.ordered
  unfold stored
  rw [write,read]
  omega

theorem put_content : (fifo.fifoPut input).2.content =
    fifo.content ++ input.take (fifo.size - fifo.stored) := by
  obtain ⟨_,read,size⟩ := put_positions fifo input total
  have count := put_count fifo valid input
  have after := put_stored fifo valid input total
  apply List.ext_getElem
  · rw [content_length,after,List.length_append,content_length,List.length_take]
    omega
  · intro i left right
    rw [content_length] at left
    simp only [content,List.getElem_map,List.getElem_range,read,size]
    by_cases old : i < fifo.stored
    · rw [put_buffer_old fifo valid input i old,List.getElem_append_left (by simpa using old)]
      simp
    · have ordered := valid.ordered
      have same : fifo.readPos + i = fifo.writePos + (i - fifo.stored) := by
        unfold stored at *; omega
      rw [same,put_buffer_new fifo valid input (i - fifo.stored) (by omega) (by omega),
        List.getElem_append_right (by simpa using old)]
      simp

/-- `fifo_put` is the put of the bounded queue. -/
theorem put_refines : (fifo.fifoPut input).2.toQueue (put_valid fifo valid input total) =
    (fifo.toQueue valid).put input := by
  apply BoundedQueue.ext
  · exact (put_positions fifo input total).2.2
  · rw [BoundedQueue.put_content]
    simp only [toQueue,BoundedQueue.free,content_length]
    exact put_content fifo valid input total

end Put

section Get
variable (fifo : Fifo α) (valid : fifo.Valid) (requested : Nat)
include valid

theorem available_eq : Word.sub fifo.writePos fifo.readPos = fifo.stored :=
  Word.sub_of_le valid.ordered valid.write_lt

/-- `fifo_get` returns the oldest bytes, as many as are asked for and stored. -/
theorem get_bytes : (fifo.fifoGet requested).1 = fifo.content.take requested := by
  have inRing := Nat.mod_lt fifo.readPos valid.positive
  have fits := valid.fits
  have room : Word.sub fifo.size (fifo.readPos % fifo.size) =
      fifo.size - fifo.readPos % fifo.size := Word.sub_of_le (by omega) valid.size_lt
  simp only [fifoGet,available_eq fifo valid,room]
  apply List.ext_getElem
  · simp only [List.length_append,bytesAt,List.length_map,List.length_range,List.length_take,
      content_length]
    omega
  · intro i left right
    simp only [List.length_take,content_length] at right
    have bounded : fifo.stored ≤ fifo.size := fits
    simp only [List.getElem_take,content,List.getElem_map,List.getElem_range]
    rw [ring_index (by omega)]
    by_cases low : fifo.readPos % fifo.size + i < fifo.size
    · rw [List.getElem_append_left (by simp [bytesAt]; omega),if_pos low]
      simp [bytesAt]
    · rw [List.getElem_append_right (by simp [bytesAt]; omega),if_neg low]
      simp only [bytesAt,List.getElem_map,List.getElem_range,List.length_map,List.length_range]
      congr 1
      omega

theorem get_positions : (fifo.fifoGet requested).2.writePos = fifo.writePos ∧
    (fifo.fifoGet requested).2.readPos = fifo.readPos + min requested fifo.stored ∧
    (fifo.fifoGet requested).2.size = fifo.size ∧
    (fifo.fifoGet requested).2.buffer = fifo.buffer := by
  refine ⟨rfl,?_,rfl,rfl⟩
  have ordered := valid.ordered
  have small := valid.write_lt
  simp only [fifoGet,available_eq fifo valid]
  exact Word.add_of_lt (by unfold stored; omega)

theorem get_valid : (fifo.fifoGet requested).2.Valid := by
  obtain ⟨write,read,size,_⟩ := get_positions fifo valid requested
  have := valid.ordered
  have := valid.fits
  unfold stored at *
  constructor
  · rw [size]; exact valid.positive
  · rw [write,read]; omega
  · rw [write,read,size]; omega
  · rw [write]; exact valid.write_lt
  · rw [size]; exact valid.size_lt

theorem get_content : (fifo.fifoGet requested).2.content = fifo.content.drop requested := by
  obtain ⟨write,read,size,buffer⟩ := get_positions fifo valid requested
  have ordered := valid.ordered
  have remaining : (fifo.fifoGet requested).2.stored = fifo.stored - requested := by
    unfold stored at *; rw [write,read]; omega
  apply List.ext_getElem
  · rw [content_length,remaining,List.length_drop,content_length]
  · intro i left right
    rw [content_length,remaining] at left
    have drained : min requested fifo.stored = requested := by omega
    simp only [content,List.getElem_map,List.getElem_range,List.getElem_drop,read,size,buffer,drained,
      Nat.add_assoc]

/-- `fifo_get` is the get of the bounded queue. -/
theorem get_refines : ((fifo.fifoGet requested).1,
      (fifo.fifoGet requested).2.toQueue (get_valid fifo valid requested)) =
    (fifo.toQueue valid).get requested := by
  refine Prod.ext (get_bytes fifo valid requested) (BoundedQueue.ext ?_ ?_)
  · exact (get_positions fifo valid requested).2.2.1
  · exact get_content fifo valid requested

end Get

def Holds (fifo : Fifo α) (queue : BoundedQueue α) : Prop :=
  ∃ valid : fifo.Valid, fifo.toQueue valid = queue

namespace Holds
variable {fifo : Fifo α} {queue : BoundedQueue α}

theorem content (holds : fifo.Holds queue) : fifo.content = queue.content := by
  obtain ⟨_,rfl⟩ := holds
  rfl

theorem size (holds : fifo.Holds queue) : fifo.size = queue.capacity := by
  obtain ⟨_,rfl⟩ := holds
  rfl

theorem positive (holds : fifo.Holds queue) : fifo.size ≠ 0 := by
  obtain ⟨valid,_⟩ := holds
  exact Nat.ne_of_gt valid.positive

theorem put (holds : fifo.Holds queue) (input : List α) (room : fifo.readPos + fifo.size < 2^64) :
    (fifo.fifoPut input).2.Holds (queue.put input) ∧
      (fifo.fifoPut input).2.readPos = fifo.readPos ∧
      (fifo.fifoPut input).2.size = fifo.size := by
  obtain ⟨valid,rfl⟩ := holds
  have count := put_count fifo valid input
  have ordered := valid.ordered
  have fits := valid.fits
  have total : fifo.writePos + (fifo.fifoPut input).1 < 2^64 := by
    unfold stored at count
    omega
  exact ⟨⟨put_valid fifo valid input total,put_refines fifo valid input total⟩,rfl,rfl⟩

theorem get (holds : fifo.Holds queue) (requested : Nat) :
    (fifo.fifoGet requested).1 = (queue.get requested).1 ∧
      (fifo.fifoGet requested).2.Holds (queue.get requested).2 ∧
      (fifo.fifoGet requested).2.readPos ≤ fifo.readPos + requested ∧
      (fifo.fifoGet requested).2.size = fifo.size := by
  obtain ⟨valid,rfl⟩ := holds
  have refines := get_refines fifo valid requested
  have read := (get_positions fifo valid requested).2.1
  refine ⟨congrArg Prod.fst refines,⟨get_valid fifo valid requested,congrArg Prod.snd refines⟩,?_,rfl⟩
  omega

end Holds
end Fifo
end Chipbox.Native
