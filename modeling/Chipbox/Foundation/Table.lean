import Mathlib.Data.List.Perm.Basic
import Chipbox.Foundation.Index

/-! Tables as lists of rows with a key: look-up, change, deletion and insertion of one
row, for any type of rows. -/
namespace Chipbox

class Row (ρ : Type) where
  key : ρ → Nat

namespace Table
variable {ρ : Type} [Row ρ]

def row? (rows : List ρ) (key : Nat) : Option ρ := rows.find? (fun row => Row.key row = key)

def modify (rows : List ρ) (key : Nat) (change : ρ → ρ) : List ρ :=
  rows.map (fun row => if Row.key row = key then change row else row)

def delete (rows : List ρ) (key : Nat) : List ρ := rows.filter (fun row => Row.key row ≠ key)

def Distinct (rows : List ρ) : Prop := (rows.map Row.key).Nodup

def Below (bound : Nat) (rows : List ρ) : Prop := ∀ row ∈ rows, Row.key row < bound

theorem row?_mem {rows : List ρ} {key : Nat} {row : ρ} (found : row? rows key = some row) :
    row ∈ rows := Index.lookup_mem found

theorem row?_key {rows : List ρ} {key : Nat} {row : ρ} (found : row? rows key = some row) :
    Row.key row = key := Index.lookup_label found

theorem distinct_inj {rows : List ρ} (distinct : Distinct rows) {first second : ρ}
    (left : first ∈ rows) (right : second ∈ rows) (same : Row.key first = Row.key second) :
    first = second := Index.Unique.inj distinct left right same

theorem row?_of_mem {rows : List ρ} (distinct : Distinct rows) {row : ρ} (present : row ∈ rows) :
    row? rows (Row.key row) = some row := Index.Unique.lookup_of_mem distinct present

theorem distinct_map {rows : List ρ} {change : ρ → ρ}
    (keeps : ∀ row, Row.key (change row) = Row.key row) :
    Distinct (rows.map change) ↔ Distinct rows := Index.unique_map keeps

theorem below_map {rows : List ρ} {change : ρ → ρ} {bound : Nat}
    (keeps : ∀ row, Row.key (change row) = Row.key row) :
    Below bound (rows.map change) ↔ Below bound rows := by
  simp [Below,keeps]

theorem key_modified {change : ρ → ρ} (keeps : ∀ row, Row.key (change row) = Row.key row)
    (key : Nat) (row : ρ) : Row.key (if Row.key row = key then change row else row) = Row.key row := by
  split
  · exact keeps row
  · rfl

theorem distinct_modify {rows : List ρ} {change : ρ → ρ}
    (keeps : ∀ row, Row.key (change row) = Row.key row) (key : Nat) :
    Distinct (modify rows key change) ↔ Distinct rows := distinct_map (key_modified keeps key)

theorem below_modify {rows : List ρ} {change : ρ → ρ} {bound : Nat}
    (keeps : ∀ row, Row.key (change row) = Row.key row) (key : Nat) :
    Below bound (modify rows key change) ↔ Below bound rows := below_map (key_modified keeps key)

/-- Where keys are distinct, changes that agree on the row are the same. -/
theorem modify_congr {rows : List ρ} (distinct : Distinct rows) {row : ρ} (present : row ∈ rows)
    {first second : ρ → ρ} (same : first row = second row) :
    modify rows (Row.key row) first = modify rows (Row.key row) second := by
  apply List.map_congr_left
  intro other listed
  split
  next alike =>
    rw [distinct_inj distinct listed present alike]
    exact same
  next => rfl

theorem modify_self {rows : List ρ} (distinct : Distinct rows) {row : ρ} (present : row ∈ rows)
    {change : ρ → ρ} (same : change row = row) : modify rows (Row.key row) change = rows := by
  have still : modify rows (Row.key row) id = rows := by simp [modify]
  exact (modify_congr distinct present same).trans still

theorem modify_modify {rows : List ρ} {key : Nat} {first second : ρ → ρ}
    (keeps : ∀ row, Row.key (first row) = Row.key row) :
    modify (modify rows key first) key second = modify rows key (second ∘ first) := by
  unfold modify
  rw [List.map_map]
  apply List.map_congr_left
  intro row _
  by_cases here : Row.key row = key <;> simp [here,keeps]

theorem mem_delete {rows : List ρ} {key : Nat} {row : ρ} :
    row ∈ delete rows key ↔ row ∈ rows ∧ Row.key row ≠ key := by
  simp [delete]

theorem distinct_delete {rows : List ρ} (distinct : Distinct rows) (key : Nat) :
    Distinct (delete rows key) := Index.Unique.filter distinct _

theorem below_delete {rows : List ρ} {bound : Nat} (below : Below bound rows) (key : Nat) :
    Below bound (delete rows key) := fun row present => below row (mem_delete.mp present).1

theorem distinct_append {rows : List ρ} {row : ρ} (distinct : Distinct rows)
    (below : Below (Row.key row) rows) : Distinct (rows ++ [row]) :=
  Index.Unique.append distinct fun old present => Nat.ne_of_lt (below old present)

theorem below_append {rows : List ρ} {row : ρ} (below : Below (Row.key row) rows) :
    Below (Row.key row + 1) (rows ++ [row]) := by
  intro other present
  rcases List.mem_append.mp present with old | fresh
  · exact Nat.lt_succ_of_lt (below other old)
  · rw [List.mem_singleton.mp fresh]
    exact Nat.lt_succ_self _

theorem below_succ {rows : List ρ} {bound : Nat} (below : Below bound rows) :
    Below (bound + 1) rows := fun row present => Nat.lt_succ_of_lt (below row present)

theorem row?_modify (rows : List ρ) {change : ρ → ρ}
    (keeps : ∀ row, Row.key (change row) = Row.key row) (key other : Nat) :
    row? (modify rows key change) other =
      if other = key then (row? rows key).map change else row? rows other := by
  induction rows with
  | nil => simp [row?,modify]
  | cons row rest ih =>
    simp only [row?,modify,List.map_cons,List.find?_cons] at ih ⊢
    by_cases here : Row.key row = key
    · by_cases wanted : other = key
      · simp [here,keeps,wanted]
      · have passed : ¬ key = other := fun same => wanted same.symm
        simp only [here,if_true,keeps,passed,decide_false]
        simpa only [wanted,if_false] using ih
    · by_cases found : Row.key row = other
      · have other_key : ¬ other = key := fun same => here (found.trans same)
        simp [found,other_key]
      · simp only [here,if_false,found,decide_false]
        exact ih

theorem row?_append (rows : List ρ) (row : ρ) (key : Nat) :
    row? (rows ++ [row]) key = (row? rows key).or (if Row.key row = key then some row else none) := by
  unfold row?
  rw [List.find?_append,List.find?_singleton]
  simp

theorem row?_delete (rows : List ρ) (key other : Nat) :
    row? (delete rows key) other = if other = key then none else row? rows other := by
  unfold row? delete
  rw [List.find?_filter]
  split
  next same => exact List.find?_eq_none.mpr fun row _ => by simp [same]
  next apart =>
    congr 1
    funext row
    by_cases wanted : Row.key row = other
    · simp [wanted,apart]
    · simp [wanted]

theorem row?_map {rows : List ρ} {change : ρ → ρ}
    (keeps : ∀ row, Row.key (change row) = Row.key row) (key : Nat) :
    row? (rows.map change) key = (row? rows key).map change := Index.lookup_map keeps key

theorem row?_fresh {rows : List ρ} {bound : Nat} (below : Below bound rows) :
    row? rows bound = none :=
  List.find?_eq_none.mpr fun row present => by
    have := below row present
    simp only [decide_eq_true_eq]
    omega

end Table
end Chipbox
