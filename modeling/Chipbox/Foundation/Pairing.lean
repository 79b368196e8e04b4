import Mathlib.Data.List.Nodup
import Mathlib.Logic.Function.Basic

/-! A relation kept twice, as the list of partners of each left element and of each right
element, over any types. -/
namespace Chipbox

structure Pairing (α β : Type) where
  forward : α → List β
  backward : β → List α

namespace Pairing
variable {α β : Type}

theorem ext {first second : Pairing α β} (forward : ∀ left, first.forward left = second.forward left)
    (backward : ∀ right, first.backward right = second.backward right) : first = second := by
  cases first
  cases second
  exact congr (congrArg mk (funext forward)) (funext backward)

/-- The two sides list the same pairs, each pair once. -/
structure Consistent (p : Pairing α β) : Prop where
  agree : ∀ left right, right ∈ p.forward left ↔ left ∈ p.backward right
  forwardOnce : ∀ left, (p.forward left).Nodup
  backwardOnce : ∀ right, (p.backward right).Nodup

def none : Pairing α β := ⟨fun _ => [],fun _ => []⟩

theorem Consistent.none : (none : Pairing α β).Consistent :=
  ⟨fun _ _ => by simp [Pairing.none],fun _ => List.nodup_nil,fun _ => List.nodup_nil⟩

variable [DecidableEq α] [DecidableEq β]

def join (p : Pairing α β) (left : α) (right : β) : Pairing α β :=
  ⟨Function.update p.forward left (p.forward left ++ [right]),
    Function.update p.backward right (p.backward right ++ [left])⟩

def part (p : Pairing α β) (left : α) (right : β) : Pairing α β :=
  ⟨Function.update p.forward left ((p.forward left).erase right),
    Function.update p.backward right ((p.backward right).erase left)⟩

def dropLeft (p : Pairing α β) (left : α) : Pairing α β :=
  ⟨Function.update p.forward left [],fun right => (p.backward right).filter (· ≠ left)⟩

def dropRight (p : Pairing α β) (right : β) : Pairing α β :=
  ⟨fun left => (p.forward left).filter (· ≠ right),Function.update p.backward right []⟩

@[simp] theorem join_forward (p : Pairing α β) (left other : α) (right : β) :
    (p.join left right).forward other =
      if other = left then p.forward left ++ [right] else p.forward other := by
  simp [join,Function.update_apply]

@[simp] theorem join_backward (p : Pairing α β) (left : α) (right other : β) :
    (p.join left right).backward other =
      if other = right then p.backward right ++ [left] else p.backward other := by
  simp [join,Function.update_apply]

@[simp] theorem part_forward (p : Pairing α β) (left other : α) (right : β) :
    (p.part left right).forward other =
      if other = left then (p.forward left).erase right else p.forward other := by
  simp [part,Function.update_apply]

@[simp] theorem part_backward (p : Pairing α β) (left : α) (right other : β) :
    (p.part left right).backward other =
      if other = right then (p.backward right).erase left else p.backward other := by
  simp [part,Function.update_apply]

namespace Consistent
variable {p : Pairing α β}

theorem join (consistent : p.Consistent) {left : α} {right : β}
    (apart : right ∉ p.forward left) : (p.join left right).Consistent where
  agree other wanted := by
    have agree := consistent.agree
    simp only [join_forward,join_backward]
    by_cases isLeft : other = left <;> by_cases isRight : wanted = right <;>
      simp [isLeft,isRight,agree]
  forwardOnce other := by
    simp only [join_forward]
    split
    · exact List.Nodup.append (consistent.forwardOnce left) (List.nodup_singleton _)
        (List.disjoint_singleton.mpr apart)
    · exact consistent.forwardOnce other
  backwardOnce wanted := by
    simp only [join_backward]
    split
    · exact List.Nodup.append (consistent.backwardOnce right) (List.nodup_singleton _)
        (List.disjoint_singleton.mpr fun listed => apart ((consistent.agree _ _).mpr listed))
    · exact consistent.backwardOnce wanted

theorem part (consistent : p.Consistent) (left : α) (right : β) :
    (p.part left right).Consistent where
  agree other wanted := by
    have agree := consistent.agree
    simp only [part_forward,part_backward]
    by_cases isLeft : other = left <;> by_cases isRight : wanted = right <;>
      simp [isLeft,isRight,agree,(consistent.forwardOnce _).mem_erase_iff,
        (consistent.backwardOnce _).mem_erase_iff]
  forwardOnce other := by
    simp only [part_forward]
    split
    · exact (consistent.forwardOnce left).erase right
    · exact consistent.forwardOnce other
  backwardOnce wanted := by
    simp only [part_backward]
    split
    · exact (consistent.backwardOnce right).erase left
    · exact consistent.backwardOnce wanted

omit [DecidableEq β] in
theorem dropLeft (consistent : p.Consistent) (left : α) : (p.dropLeft left).Consistent where
  agree other wanted := by
    have agree := consistent.agree other wanted
    by_cases isLeft : other = left <;> simp [Pairing.dropLeft,isLeft,agree]
  forwardOnce other := by
    simp only [Pairing.dropLeft,Function.update_apply]
    split
    · exact List.nodup_nil
    · exact consistent.forwardOnce other
  backwardOnce wanted := (consistent.backwardOnce wanted).filter _

omit [DecidableEq α] in
theorem dropRight (consistent : p.Consistent) (right : β) : (p.dropRight right).Consistent where
  agree other wanted := by
    have agree := consistent.agree other wanted
    by_cases isRight : wanted = right <;> simp [Pairing.dropRight,isRight,agree]
  forwardOnce other := (consistent.forwardOnce other).filter _
  backwardOnce wanted := by
    simp only [Pairing.dropRight,Function.update_apply]
    split
    · exact List.nodup_nil
    · exact consistent.backwardOnce wanted

end Consistent

/-- The two sides list each pair equally often. -/
def Balanced (p : Pairing α β) : Prop :=
  ∀ left right, (p.forward left).count right = (p.backward right).count left

/-- A property of relations that edits of both sides at once keep. -/
structure Discipline (rel : Pairing α β → Prop) : Prop where
  none : rel Pairing.none
  agree : ∀ {p}, rel p → ∀ left right, right ∈ p.forward left ↔ left ∈ p.backward right
  join : ∀ {p}, rel p → ∀ {left right}, right ∉ p.forward left → rel (p.join left right)
  part : ∀ {p}, rel p → ∀ left right, rel (p.part left right)
  dropLeft : ∀ {p}, rel p → ∀ left, rel (p.dropLeft left)
  dropRight : ∀ {p}, rel p → ∀ right, rel (p.dropRight right)

theorem consistent_discipline : Discipline (Consistent : Pairing α β → Prop) where
  none := .none
  agree := Consistent.agree
  join := Consistent.join
  part := Consistent.part
  dropLeft := Consistent.dropLeft
  dropRight := Consistent.dropRight

namespace Balanced
variable {p : Pairing α β}

theorem agree (balanced : p.Balanced) (left : α) (right : β) :
    right ∈ p.forward left ↔ left ∈ p.backward right := by
  rw [← List.count_pos_iff,← List.count_pos_iff,balanced left right]

theorem join (balanced : p.Balanced) (left : α) (right : β) : (p.join left right).Balanced := by
  intro other wanted
  have equal := balanced other wanted
  rw [join_forward,join_backward]
  by_cases isLeft : other = left <;> by_cases isRight : wanted = right
  · subst isLeft isRight
    simp [equal]
  · subst isLeft
    simp [isRight,Ne.symm isRight,equal]
  · subst isRight
    simp [isLeft,Ne.symm isLeft,equal]
  · simp [isLeft,isRight,equal]

theorem part (balanced : p.Balanced) (left : α) (right : β) : (p.part left right).Balanced := by
  intro other wanted
  have equal := balanced other wanted
  rw [part_forward,part_backward]
  by_cases isLeft : other = left <;> by_cases isRight : wanted = right
  · subst isLeft isRight
    simp [equal]
  · subst isLeft
    simp [isRight,List.count_erase_of_ne isRight,equal]
  · subst isRight
    simp [isLeft,List.count_erase_of_ne isLeft,equal]
  · simp [isLeft,isRight,equal]

theorem dropLeft (balanced : p.Balanced) (left : α) : (p.dropLeft left).Balanced := by
  intro other wanted
  have equal := balanced other wanted
  by_cases isLeft : other = left
  · subst isLeft
    have gone : other ∉ (p.backward wanted).filter (· ≠ other) := by simp
    simp only [Pairing.dropLeft,Function.update_self,List.count_nil]
    exact (List.count_eq_zero.mpr gone).symm
  · have kept := List.count_filter (l := p.backward wanted) (p := (· ≠ left))
      (a := other) (by simpa using isLeft)
    simp only [Pairing.dropLeft,Function.update_apply,if_neg isLeft]
    rw [kept,equal]

theorem dropRight (balanced : p.Balanced) (right : β) : (p.dropRight right).Balanced := by
  intro other wanted
  have equal := balanced other wanted
  by_cases isRight : wanted = right
  · subst isRight
    have gone : wanted ∉ (p.forward other).filter (· ≠ wanted) := by simp
    simp only [Pairing.dropRight,Function.update_self,List.count_nil]
    exact List.count_eq_zero.mpr gone
  · have kept := List.count_filter (l := p.forward other) (p := (· ≠ right))
      (a := wanted) (by simpa using isRight)
    simp only [Pairing.dropRight,Function.update_apply,if_neg isRight]
    rw [kept,equal]

theorem joins (balanced : p.Balanced) (left : α) (rights : List β) :
    (rights.foldl (fun p right => p.join left right) p).Balanced := by
  induction rights generalizing p with
  | nil => exact balanced
  | cons right rest ih => exact ih (balanced.join left right)

end Balanced

theorem balanced_discipline : Discipline (Balanced : Pairing α β → Prop) where
  none := fun _ _ => rfl
  agree := Balanced.agree
  join := fun balanced _ _ _ => balanced.join _ _
  part := Balanced.part
  dropLeft := Balanced.dropLeft
  dropRight := Balanced.dropRight

theorem Consistent.balanced {p : Pairing α β} (consistent : p.Consistent) : p.Balanced := by
  intro left right
  have agree := consistent.agree left right
  by_cases listed : right ∈ p.forward left
  · rw [List.count_eq_one_of_mem (consistent.forwardOnce left) listed,
      List.count_eq_one_of_mem (consistent.backwardOnce right) (agree.mp listed)]
  · rw [List.count_eq_zero.mpr listed,List.count_eq_zero.mpr (mt agree.mpr listed)]

theorem joins_forward (p : Pairing α β) (left : α) (rights : List β) :
    (rights.foldl (fun p right => p.join left right) p).forward left = p.forward left ++ rights := by
  induction rights generalizing p with
  | nil => simp
  | cons right rest ih => simp [ih]

/-- Joining a left element to several right ones in turn keeps the relation consistent
exactly when no partner is joined twice. -/
theorem joins_consistent (p : Pairing α β) (consistent : p.Consistent) (left : α) (rights : List β) :
    (rights.foldl (fun p right => p.join left right) p).Consistent ↔
      (p.forward left ++ rights).Nodup := by
  constructor
  · intro joined
    rw [← joins_forward]
    exact joined.forwardOnce left
  · induction rights generalizing p with
    | nil => exact fun _ => consistent
    | cons right rest ih =>
      intro once
      have apart : right ∉ p.forward left := by
        intro listed
        rw [List.nodup_append] at once
        exact once.2.2 right listed right List.mem_cons_self rfl
      refine ih (p.join left right) (consistent.join apart) ?_
      rw [join_forward,if_pos rfl,List.append_assoc]
      exact once

end Pairing
end Chipbox
