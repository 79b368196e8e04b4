import Mathlib.Data.List.Nodup
import Mathlib.Logic.Function.Basic

/-! Rows found by a label and created where none has it. As long as no two rows share a label,
the look-up is a partial function, and finding or creating a row extends it at one point. -/
namespace Chipbox.Index
variable {ρ κ : Type} {label : ρ → κ} {rows : List ρ}

def Unique (label : ρ → κ) (rows : List ρ) : Prop := (rows.map label).Nodup

instance [DecidableEq κ] (rows : List ρ) : Decidable (Unique label rows) :=
  inferInstanceAs (Decidable (List.Nodup _))

theorem Unique.inj (unique : Unique label rows) {first second : ρ} (left : first ∈ rows)
    (right : second ∈ rows) (same : label first = label second) : first = second :=
  List.inj_on_of_nodup_map unique left right same

theorem unique_map {change : ρ → ρ} (keeps : ∀ row, label (change row) = label row) :
    Unique label (rows.map change) ↔ Unique label rows := by
  have same : label ∘ change = label := funext keeps
  rw [Unique,List.map_map,same,Unique]

theorem Unique.filter (unique : Unique label rows) (keep : ρ → Bool) :
    Unique label (rows.filter keep) :=
  unique.sublist (List.Sublist.map _ List.filter_sublist)

theorem Unique.append (unique : Unique label rows) {row : ρ}
    (missing : ∀ old ∈ rows, label old ≠ label row) : Unique label (rows ++ [row]) := by
  unfold Unique
  rw [List.map_append,List.nodup_append]
  refine ⟨unique,List.nodup_singleton _,?_⟩
  intro name named other single
  obtain ⟨old,present,rfl⟩ := List.mem_map.mp named
  rw [List.mem_singleton.mp single]
  exact missing old present

variable [DecidableEq κ]

def lookup (label : ρ → κ) (rows : List ρ) (name : κ) : Option ρ :=
  rows.find? (fun row => label row = name)

def findOrCreate (label : ρ → κ) (rows : List ρ) (created : ρ) : ρ × List ρ :=
  match lookup label rows (label created) with
  | none => (created,rows ++ [created])
  | some row => (row,rows)

theorem lookup_mem {name : κ} {row : ρ} (found : lookup label rows name = some row) : row ∈ rows :=
  List.mem_of_find?_eq_some found

theorem lookup_label {name : κ} {row : ρ} (found : lookup label rows name = some row) :
    label row = name := by
  simpa using List.find?_some found

theorem lookup_none {name : κ} : lookup label rows name = none ↔ ∀ row ∈ rows, label row ≠ name := by
  unfold lookup
  rw [List.find?_eq_none]
  exact forall₂_congr fun _ _ => not_congr decide_eq_true_iff

theorem lookup_map {change : ρ → ρ} (keeps : ∀ row, label (change row) = label row) (name : κ) :
    lookup label (rows.map change) name = (lookup label rows name).map change := by
  unfold lookup
  rw [List.find?_map]
  congr 2
  funext row
  simp [keeps]

theorem Unique.lookup_of_mem (unique : Unique label rows) {row : ρ} (present : row ∈ rows) :
    lookup label rows (label row) = some row := by
  cases found : lookup label rows (label row) with
  | none => exact absurd rfl (lookup_none.mp found row present)
  | some other => rw [unique.inj (lookup_mem found) present (lookup_label found)]

theorem Unique.findOrCreate (unique : Unique label rows) (created : ρ) :
    Unique label (findOrCreate label rows created).2 := by
  unfold Index.findOrCreate
  split
  next missing => exact unique.append (lookup_none.mp missing)
  · exact unique

theorem findOrCreate_mem (label : ρ → κ) (rows : List ρ) (created : ρ) :
    (findOrCreate label rows created).1 ∈ (findOrCreate label rows created).2 := by
  unfold findOrCreate
  split
  next => exact List.mem_append_right rows (List.mem_singleton_self created)
  next found => exact lookup_mem found

theorem findOrCreate_label (label : ρ → κ) (rows : List ρ) (created : ρ) :
    label (findOrCreate label rows created).1 = label created := by
  unfold findOrCreate
  split
  next => rfl
  next found => exact lookup_label found

/-- Finding or creating a row extends the look-up at the label of the row, if at all. -/
theorem lookup_findOrCreate (label : ρ → κ) (rows : List ρ) (created : ρ) :
    lookup label (findOrCreate label rows created).2 =
      Function.update (lookup label rows) (label created)
        (some (findOrCreate label rows created).1) := by
  unfold findOrCreate
  split
  next missing =>
    funext name
    unfold lookup at missing ⊢
    rw [Function.update_apply,List.find?_append,List.find?_singleton]
    by_cases here : name = label created
    · subst here
      simp [missing]
    · have apart : ¬ label created = name := fun same => here same.symm
      simp [here,apart]
  next found =>
    rw [← found]
    exact (Function.update_eq_self _ _).symm

end Chipbox.Index
