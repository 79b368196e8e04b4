import Mathlib.Logic.Function.Basic
import Mathlib.Data.List.Induction

/-! Writes to the cells of a memory, over any types. -/
namespace Chipbox.Overlay

variable {Cell Value : Type} [DecidableEq Cell]

def overlay (memory : Cell → Value) (writes : List (Cell × Value)) : Cell → Value :=
  writes.foldl (fun memory write => Function.update memory write.1 write.2) memory

def lastWrite (writes : List (Cell × Value)) (cell : Cell) : Option Value :=
  (writes.reverse.find? fun write => decide (write.1 = cell)).map Prod.snd

@[simp] theorem overlay_nil (memory : Cell → Value) : overlay memory [] = memory := rfl

theorem overlay_cons (memory : Cell → Value) (write : Cell × Value) (writes : List (Cell × Value)) :
    overlay memory (write::writes) = overlay (Function.update memory write.1 write.2) writes := rfl

theorem overlay_append (memory : Cell → Value) (first second : List (Cell × Value)) :
    overlay memory (first ++ second) = overlay (overlay memory first) second := List.foldl_append

/-- A cell holds what was written to it last. -/
theorem overlay_eq_lastWrite (memory : Cell → Value) (writes : List (Cell × Value)) (cell : Cell) :
    overlay memory writes cell = (lastWrite writes cell).getD (memory cell) := by
  induction writes using List.reverseRecOn with
  | nil => rfl
  | append_singleton writes write ih =>
    rw [overlay_append,overlay_cons,overlay_nil,lastWrite,List.reverse_append,List.reverse_singleton,
      List.singleton_append,List.find?_cons]
    by_cases same : write.1 = cell
    · simp [same]
    · rw [Function.update_of_ne (Ne.symm same),ih]
      simp [same,lastWrite]

theorem overlay_of_notMem {memory : Cell → Value} {writes : List (Cell × Value)} {cell : Cell}
    (untouched : ∀ write ∈ writes, write.1 ≠ cell) : overlay memory writes cell = memory cell := by
  induction writes generalizing memory with
  | nil => rfl
  | cons write writes ih =>
    rw [overlay_cons,ih fun other member => untouched other (.tail _ member),
      Function.update_of_ne (untouched write List.mem_cons_self).symm]

end Chipbox.Overlay
