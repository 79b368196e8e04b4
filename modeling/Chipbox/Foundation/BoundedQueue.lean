import Mathlib.Data.List.Basic

/-! A queue of bounded capacity that accepts as much of an input as fits and gives
out its oldest items first. -/
namespace Chipbox

structure BoundedQueue (α : Type) where
  capacity : Nat
  content : List α
  fits : content.length ≤ capacity

namespace BoundedQueue
variable {α : Type}

def free (queue : BoundedQueue α) : Nat := queue.capacity - queue.content.length

def empty (capacity : Nat) : BoundedQueue α := ⟨capacity,[],Nat.zero_le _⟩

/-- Accepts the longest prefix of the input that fits. -/
def put (queue : BoundedQueue α) (input : List α) : BoundedQueue α where
  capacity := queue.capacity
  content := queue.content ++ input.take queue.free
  fits := by
    have := queue.fits
    simp only [List.length_append,List.length_take,free]
    omega

/-- Gives out the oldest items, as many as are asked for and there. -/
def get (queue : BoundedQueue α) (requested : Nat) : List α × BoundedQueue α :=
  (queue.content.take requested,{
    capacity := queue.capacity
    content := queue.content.drop requested
    fits := by have := queue.fits; simp only [List.length_drop]; omega})

@[simp] theorem put_capacity (queue : BoundedQueue α) (input : List α) :
    (queue.put input).capacity = queue.capacity := rfl

@[simp] theorem put_content (queue : BoundedQueue α) (input : List α) :
    (queue.put input).content = queue.content ++ input.take queue.free := rfl

@[simp] theorem get_content (queue : BoundedQueue α) (requested : Nat) :
    (queue.get requested).2.content = queue.content.drop requested := rfl

@[simp] theorem get_capacity (queue : BoundedQueue α) (requested : Nat) :
    (queue.get requested).2.capacity = queue.capacity := rfl

theorem get_length_le (queue : BoundedQueue α) (requested : Nat) :
    (queue.get requested).1.length ≤ requested := List.length_take_le _ _

@[ext] theorem ext {first second : BoundedQueue α} (capacity : first.capacity = second.capacity)
    (content : first.content = second.content) : first = second := by
  cases first
  cases second
  simp_all

/-- What a sequence of puts leaves in the queue: the oldest items that fit. -/
theorem put_take (queue : BoundedQueue α) (input : List α) :
    (queue.put input).content = (queue.content ++ input).take queue.capacity := by
  have := queue.fits
  rw [put_content,List.take_append,List.take_of_length_le queue.fits,free]

theorem put_put (queue : BoundedQueue α) (first second : List α) :
    (queue.put first).put second = queue.put (first ++ second) := by
  refine ext (by simp only [put_capacity]) ?_
  rw [put_take,put_take,put_take,put_capacity,← List.append_assoc]
  by_cases fits : (queue.content ++ first).length ≤ queue.capacity
  · rw [List.take_of_length_le fits]
  · have size : ((queue.content ++ first).take queue.capacity).length = queue.capacity := by
      rw [List.length_take]; omega
    rw [List.take_left' size]
    exact (List.take_append_of_le_length (by omega)).symm

@[simp] theorem put_nil (queue : BoundedQueue α) : queue.put [] = queue :=
  ext rfl (by simp)

end BoundedQueue

inductive QueueCall (α : Type)
  | put (input : List α)
  | get (requested : Nat)

def BoundedQueue.answer {α : Type} (queue : BoundedQueue α) : QueueCall α → Nat ⊕ List α
  | .put input => .inl (min input.length queue.free)
  | .get requested => .inr (queue.content.take requested)

/-- A queue with all items it ever accepted and all it ever gave out, in order. -/
structure Ledger (α : Type) where
  queue : BoundedQueue α
  accepted : List α
  got : List α

namespace Ledger
variable {α : Type}

def opened (capacity : Nat) : Ledger α := ⟨.empty capacity,[],[]⟩

def call (l : Ledger α) : QueueCall α → Ledger α
  | .put input => {l with queue := l.queue.put input, accepted := l.accepted ++ input.take l.queue.free}
  | .get requested => {l with
      queue := (l.queue.get requested).2, got := l.got ++ (l.queue.get requested).1}

/-- What came in is what went out followed by what is still there. -/
def Balanced (l : Ledger α) : Prop := l.accepted = l.got ++ l.queue.content

theorem call_balanced {l : Ledger α} (balanced : l.Balanced) (made : QueueCall α) :
    (l.call made).Balanced := by
  unfold Balanced at *
  cases made with
  | put input => simp [call,balanced]
  | get requested => simp [call,balanced,BoundedQueue.get]

theorem calls_balanced {l : Ledger α} (balanced : l.Balanced) (calls : List (QueueCall α)) :
    (calls.foldl call l).Balanced := by
  induction calls generalizing l with
  | nil => exact balanced
  | cons made rest ih => exact ih (call_balanced balanced made)

theorem calls_capacity (l : Ledger α) (calls : List (QueueCall α)) :
    (calls.foldl call l).queue.capacity = l.queue.capacity := by
  induction calls generalizing l with
  | nil => rfl
  | cons made rest ih => exact (ih (l.call made)).trans (by cases made <;> rfl)

theorem call_accepted (l : Ledger α) (made : QueueCall α) :
    l.accepted.length ≤ (l.call made).accepted.length := by
  cases made <;> simp [call]

theorem calls_accepted (l : Ledger α) (calls : List (QueueCall α)) :
    l.accepted.length ≤ (calls.foldl call l).accepted.length := by
  induction calls generalizing l with
  | nil => exact Nat.le_refl _
  | cons made rest ih => exact Nat.le_trans (call_accepted l made) (ih (l.call made))

end Ledger
end Chipbox
