import Mathlib.Data.List.Basic

/-! Finite runs of a partial step function, conditions met by their steps and
properties held by their states. Nothing here names a particular system: the
step function, its states and its labels are parameters. -/
namespace Chipbox.Run

variable {State Label : Type*}

/-- Executes the labels in order, `none` at the first step that is not enabled. -/
def exec (next : State → Label → Option State) : State → List Label → Option State
  | start,[] => some start
  | start,label::rest =>
    match next start label with
    | none => none
    | some middle => exec next middle rest

/-- Every step of the run is taken in a state and with a label that meet the guard. -/
def Meets (next : State → Label → Option State) (guard : State → Label → Prop) :
    State → List Label → Prop
  | _,[] => True
  | start,label::rest => guard start label ∧
    match next start label with
    | none => True
    | some middle => Meets next guard middle rest

/-- Every state of the run has the property, the first and the last included. -/
def Always (next : State → Label → Option State) (property : State → Prop) :
    State → List Label → Prop
  | start,[] => property start
  | start,label::rest => property start ∧
    match next start label with
    | none => True
    | some middle => Always next property middle rest

def Happens (next : State → Label → Option State) (event : State → Label → Prop) :
    State → List Label → Prop
  | _,[] => False
  | start,label::rest => event start label ∨
    match next start label with
    | none => False
    | some middle => Happens next event middle rest

variable {next : State → Label → Option State}

instance decideMeets (guard : State → Label → Prop) [∀ s l, Decidable (guard s l)] :
    ∀ start labels, Decidable (Meets next guard start labels)
  | _,[] => .isTrue trivial
  | start,label::rest =>
    match taken : next start label with
    | none => decidable_of_iff (guard start label) (by simp [Meets,taken])
    | some middle =>
      have := decideMeets guard middle rest
      decidable_of_iff (guard start label ∧ Meets next guard middle rest) (by simp [Meets,taken])

instance decideAlways (property : State → Prop) [∀ s, Decidable (property s)] :
    ∀ start labels, Decidable (Always next property start labels)
  | start,[] => decidable_of_iff (property start) Iff.rfl
  | start,label::rest =>
    match taken : next start label with
    | none => decidable_of_iff (property start) (by simp [Always,taken])
    | some middle =>
      have := decideAlways property middle rest
      decidable_of_iff (property start ∧ Always next property middle rest) (by simp [Always,taken])

@[simp] theorem exec_nil (start : State) : exec next start [] = some start := rfl

@[simp] theorem exec_singleton (start : State) (label : Label) :
    exec next start [label] = next start label := by
  cases taken : next start label <;> simp [exec,taken]

@[simp] theorem meets_nil (guard : State → Label → Prop) (start : State) :
    Meets next guard start [] := trivial

theorem meets_of_labels {guard : State → Label → Prop} {labels : List Label}
    (meets : ∀ label ∈ labels, ∀ s, guard s label) (start : State) :
    Meets next guard start labels := by
  induction labels generalizing start with
  | nil => trivial
  | cons label rest ih =>
    refine ⟨meets label List.mem_cons_self start,?_⟩
    split
    · trivial
    · exact ih (fun other member => meets other (.tail _ member)) _

theorem exec_cons {start finish : State} {label : Label} {rest : List Label} :
    exec next start (label::rest) = some finish ↔
      ∃ middle, next start label = some middle ∧ exec next middle rest = some finish := by
  cases taken : next start label with
  | none => simp [exec,taken]
  | some middle => simp [exec,taken]

theorem meets_cons {guard : State → Label → Prop} {start middle : State} {label : Label}
    {rest : List Label} (taken : next start label = some middle) :
    Meets next guard start (label::rest) ↔ guard start label ∧ Meets next guard middle rest := by
  simp only [Meets,taken]

theorem always_cons {property : State → Prop} {start middle : State} {label : Label}
    {rest : List Label} (taken : next start label = some middle) :
    Always next property start (label::rest) ↔
      property start ∧ Always next property middle rest := by
  simp only [Always,taken]

theorem exec_append_eq (start : State) (first second : List Label) :
    exec next start (first ++ second) =
      (exec next start first).bind fun middle => exec next middle second := by
  induction first generalizing start with
  | nil => rfl
  | cons label rest ih =>
    simp only [List.cons_append,exec]
    cases next start label with
    | none => rfl
    | some state => exact ih state

theorem exec_append {start finish : State} (first second : List Label) :
    exec next start (first ++ second) = some finish ↔
      ∃ middle, exec next start first = some middle ∧ exec next middle second = some finish := by
  rw [exec_append_eq,Option.bind_eq_some_iff]

theorem exec_total (enabled : ∀ s label, ∃ t, next s label = some t) (start : State)
    (labels : List Label) : ∃ finish, exec next start labels = some finish := by
  induction labels generalizing start with
  | nil => exact ⟨start,rfl⟩
  | cons label rest ih =>
    obtain ⟨middle,taken⟩ := enabled start label
    obtain ⟨finish,run⟩ := ih middle
    exact ⟨finish,exec_cons.mpr ⟨middle,taken,run⟩⟩

theorem meets_append {guard : State → Label → Prop} {start middle : State}
    (first second : List Label) (run : exec next start first = some middle) :
    Meets next guard start (first ++ second) ↔
      Meets next guard start first ∧ Meets next guard middle second := by
  induction first generalizing start with
  | nil => cases Option.some.inj run; simp
  | cons label rest ih =>
    obtain ⟨state,taken,run⟩ := exec_cons.mp run
    rw [List.cons_append,meets_cons taken,meets_cons taken,ih run,and_assoc]

/-- An invariant that the guarded steps keep holds at the end of every run whose
steps all meet the guard. -/
theorem guarded_invariant {guard : State → Label → Prop} {invariant : State → Prop}
    (preserved : ∀ s label t, invariant s → guard s label → next s label = some t → invariant t)
    {start finish : State} {labels : List Label} (initial : invariant start)
    (run : exec next start labels = some finish) (met : Meets next guard start labels) :
    invariant finish := by
  induction labels generalizing start with
  | nil => cases Option.some.inj run; exact initial
  | cons label rest ih =>
    obtain ⟨middle,taken,run⟩ := exec_cons.mp run
    obtain ⟨held,met⟩ := (meets_cons taken).mp met
    exact ih (preserved start label middle initial held taken) run met

theorem invariant_of_step {invariant : State → Prop}
    (preserved : ∀ s label t, invariant s → next s label = some t → invariant t)
    {start finish : State} {labels : List Label} (initial : invariant start)
    (run : exec next start labels = some finish) : invariant finish := by
  induction labels generalizing start with
  | nil => cases Option.some.inj run; exact initial
  | cons label rest ih =>
    obtain ⟨middle,taken,run⟩ := exec_cons.mp run
    exact ih (preserved start label middle initial taken) run

/-- What a step makes true of its label and every other step keeps is true of all labels taken. -/
theorem exec_each {settled : Label → State → Prop}
    (settles : ∀ s label t, next s label = some t → settled label t)
    (keeps : ∀ s label t other, settled other s → next s label = some t → settled other t)
    {start finish : State} {labels : List Label} (run : exec next start labels = some finish)
    (label : Label) (taken : settled label start ∨ label ∈ labels) : settled label finish := by
  induction labels generalizing start with
  | nil =>
    cases run
    exact taken.resolve_right List.not_mem_nil
  | cons first rest ih =>
    obtain ⟨middle,step,run⟩ := exec_cons.mp run
    apply ih run
    rcases taken with before | listed
    · exact .inl (keeps start first middle label before step)
    · rcases List.mem_cons.mp listed with rfl | later
      · exact .inl (settles start label middle step)
      · exact .inr later

theorem exec_still {start : State} {labels : List Label}
    (still : ∀ label ∈ labels, next start label = some start) :
    exec next start labels = some start := by
  induction labels with
  | nil => rfl
  | cons label rest ih =>
    rw [exec_cons]
    exact ⟨start,still label List.mem_cons_self,ih fun other later => still other (.tail _ later)⟩

theorem exec_foldl (step : State → Label → State) (start : State) (labels : List Label) :
    exec (fun s label => some (step s label)) start labels = some (labels.foldl step start) := by
  induction labels generalizing start with
  | nil => rfl
  | cons label rest ih => exact ih (step start label)

theorem meets_and {first second : State → Label → Prop} {start : State} {labels : List Label} :
    Meets next (fun s label => first s label ∧ second s label) start labels ↔
      Meets next first start labels ∧ Meets next second start labels := by
  induction labels generalizing start with
  | nil => simp
  | cons label rest ih =>
    simp only [Meets]
    cases next start label with
    | none => simp
    | some middle => dsimp only; rw [ih]; tauto

/-- Two guards that agree on the allowed steps agree on a run of them. -/
theorem meets_iff_among {allowed first second : State → Label → Prop}
    (same : ∀ s label t, allowed s label → next s label = some t → (first s label ↔ second s label))
    {start finish : State} {labels : List Label} (run : exec next start labels = some finish)
    (met : Meets next allowed start labels) :
    Meets next first start labels ↔ Meets next second start labels := by
  induction labels generalizing start with
  | nil => exact Iff.rfl
  | cons label rest ih =>
    obtain ⟨middle,taken,run⟩ := exec_cons.mp run
    obtain ⟨permitted,met⟩ := (meets_cons taken).mp met
    rw [meets_cons taken,meets_cons taken,same _ _ _ permitted taken,ih run met]

/-- Under an invariant that the guarded steps keep, one guard may give another. -/
theorem meets_of_meets {guard other : State → Label → Prop} {invariant : State → Prop}
    (kept : ∀ s label t, invariant s → guard s label → next s label = some t → invariant t)
    (gives : ∀ s label, invariant s → guard s label → other s label)
    {start : State} {labels : List Label} (base : invariant start)
    (met : Meets next guard start labels) : Meets next other start labels := by
  induction labels generalizing start with
  | nil => trivial
  | cons label rest ih =>
    simp only [Meets] at met ⊢
    refine ⟨gives _ _ base met.1,?_⟩
    cases taken : next start label with
    | none => trivial
    | some middle =>
      rw [taken] at met
      exact ih (kept _ _ _ base met.1 taken) met.2

theorem always_of_meets {guard : State → Label → Prop} {property invariant : State → Prop}
    (implies : ∀ s, invariant s → property s)
    (kept : ∀ s label t, invariant s → guard s label → next s label = some t → invariant t)
    {start : State} {labels : List Label} (base : invariant start)
    (met : Meets next guard start labels) : Always next property start labels := by
  induction labels generalizing start with
  | nil => exact implies start base
  | cons label rest ih =>
    simp only [Meets] at met
    simp only [Always]
    refine ⟨implies start base,?_⟩
    cases taken : next start label with
    | none => trivial
    | some middle =>
      rw [taken] at met
      exact ih (kept _ _ _ base met.1 taken) met.2

/-- Properties that agree under an invariant hold throughout the same runs. -/
theorem always_congr {property other invariant : State → Prop}
    (same : ∀ s, invariant s → (property s ↔ other s))
    (kept : ∀ s label t, invariant s → next s label = some t → invariant t)
    {start : State} (base : invariant start) (labels : List Label) :
    Always next property start labels ↔ Always next other start labels := by
  induction labels generalizing start with
  | nil => exact same start base
  | cons label rest ih =>
    simp only [Always]
    rw [same start base]
    refine and_congr_right fun _ => ?_
    cases taken : next start label with
    | none => exact Iff.rfl
    | some middle => exact ih (kept _ _ _ base taken)

/-- Where an allowed step keeps an invariant if it meets the guard, and breaks a consequence
of the invariant if it does not, a run of allowed steps has the consequence throughout exactly
when all its steps meet the guard. -/
theorem always_iff_meets_among {allowed guard : State → Label → Prop}
    {property invariant : State → Prop} (implies : ∀ s, invariant s → property s)
    (kept : ∀ s label t, invariant s → allowed s label → guard s label → next s label = some t →
      invariant t)
    (broken : ∀ s label t, invariant s → allowed s label → next s label = some t → property t →
      guard s label)
    {start finish : State} {labels : List Label} (base : invariant start)
    (run : exec next start labels = some finish) (met : Meets next allowed start labels) :
    Always next property start labels ↔ Meets next guard start labels := by
  induction labels generalizing start with
  | nil => simpa [Always] using implies start base
  | cons label rest ih =>
    obtain ⟨middle,taken,run⟩ := exec_cons.mp run
    obtain ⟨permitted,met⟩ := (meets_cons taken).mp met
    rw [always_cons taken,meets_cons taken]
    constructor
    · rintro ⟨_,later⟩
      have here : property middle := by cases rest <;> simp only [Always] at later <;> tauto
      have held := broken _ _ _ base permitted taken here
      exact ⟨held,(ih (kept _ _ _ base permitted held taken) run met).mp later⟩
    · rintro ⟨held,later⟩
      exact ⟨implies _ base,(ih (kept _ _ _ base permitted held taken) run met).mpr later⟩

theorem always_iff_meets {guard : State → Label → Prop} {property invariant : State → Prop}
    (implies : ∀ s, invariant s → property s)
    (kept : ∀ s label t, invariant s → guard s label → next s label = some t → invariant t)
    (broken : ∀ s label t, invariant s → next s label = some t → property t → guard s label)
    {start finish : State} {labels : List Label} (base : invariant start)
    (run : exec next start labels = some finish) :
    Always next property start labels ↔ Meets next guard start labels := by
  have allowed : Meets next (fun _ _ => True) start labels :=
    meets_of_labels (fun _ _ _ => trivial) start
  exact always_iff_meets_among implies (fun s label t held _ => kept s label t held)
    (fun s label t held _ => broken s label t held) base run allowed

/-- The steps of a run that has a property throughout start and end in states with it. -/
theorem meets_of_always {property : State → Prop} {start : State} {labels : List Label}
    (always : Always next property start labels) :
    Meets next (fun s label => property s ∧ ∀ t, next s label = some t → property t) start labels := by
  induction labels generalizing start with
  | nil => trivial
  | cons label rest ih =>
    simp only [Always,Meets] at always ⊢
    refine ⟨⟨always.1,fun t taken => ?_⟩,?_⟩
    · have later := always.2
      rw [taken] at later
      cases rest <;> simp only [Always] at later <;> tauto
    · cases taken : next start label with
      | none => trivial
      | some middle =>
        have later := always.2
        rw [taken] at later
        exact ih later

/-- A mark that steps set and never clear: where a step leaves the state unmarked exactly
when it was unmarked and the guard holds, a run ends unmarked exactly when it started so
and all its steps meet the guard. -/
theorem unmarked_iff_meets {guard : State → Label → Prop} {unmarked invariant : State → Prop}
    (kept : ∀ s label t, invariant s → next s label = some t → invariant t)
    (exactly : ∀ s label t, invariant s → next s label = some t →
      (unmarked t ↔ unmarked s ∧ guard s label))
    {start finish : State} {labels : List Label} (base : invariant start)
    (run : exec next start labels = some finish) :
    unmarked finish ↔ unmarked start ∧ Meets next guard start labels := by
  induction labels generalizing start with
  | nil => cases Option.some.inj run; simp
  | cons label rest ih =>
    obtain ⟨middle,taken,run⟩ := exec_cons.mp run
    rw [meets_cons taken,ih (kept _ _ _ base taken) run,exactly _ _ _ base taken,and_assoc]

/-- Once a first part of a run has set the mark or not, a later part that meets the
guard leaves it to be seen. -/
theorem unmarked_then {guard : State → Label → Prop} {unmarked : State → Prop}
    (whole : ∀ start finish labels, exec next start labels = some finish →
      (unmarked finish ↔ unmarked start ∧ Meets next guard start labels))
    {start middle finish : State} {history rest : List Label}
    (first : exec next start history = some middle) (second : exec next middle rest = some finish)
    (base : unmarked start) (met : Meets next guard middle rest) :
    unmarked finish ↔ Meets next guard start history := by
  rw [whole _ _ _ second,whole _ _ _ first]
  simp only [base,met,true_and,and_true]

theorem happens_or_meets (event : State → Label → Prop) (start : State) (labels : List Label) :
    Happens next event start labels ∨ Meets next (fun s label => ¬ event s label) start labels := by
  induction labels generalizing start with
  | nil => exact .inr trivial
  | cons label rest ih =>
    by_cases here : event start label
    · exact .inl (.inl here)
    · cases taken : next start label with
      | none => exact .inr ⟨here,by rw [taken]; trivial⟩
      | some middle =>
        rcases ih middle with later | never
        · exact .inl (.inr (by rw [taken]; exact later))
        · exact .inr ⟨here,by rw [taken]; exact never⟩

theorem not_happens_of_meets {event : State → Label → Prop} {start : State} {labels : List Label}
    (never : Meets next (fun s label => ¬ event s label) start labels) :
    ¬ Happens next event start labels := by
  induction labels generalizing start with
  | nil => exact id
  | cons label rest ih =>
    simp only [Meets] at never
    simp only [Happens]
    rintro (here | later)
    · exact never.1 here
    · cases taken : next start label with
      | none => simp [taken] at later
      | some middle =>
        rw [taken] at later never
        exact ih never.2 later

/-- A request waits until its event, and where it still waits at the start of a round the
round has begun with it pending and does not end before the event. -/
theorem happens_in_round {guard event : State → Label → Prop} {waits pending ends : State → Prop}
    (waiting : ∀ s label t, waits s → guard s label ∧ ¬ event s label → next s label = some t → waits t)
    (going : ∀ s label t, pending s → guard s label ∧ ¬ event s label → next s label = some t →
      pending t)
    (continues : ∀ s, pending s → ¬ ends s)
    {start before after finish : State} {first second : List Label} {label : Label}
    (base : waits start) (early : exec next start first = some before)
    (taken : next before label = some after) (late : exec next after second = some finish)
    (begins : waits before → pending after) (ended : ends finish)
    (met : Meets next guard start (first ++ label::second)) :
    Happens next event start (first ++ label::second) := by
  rcases happens_or_meets event start (first ++ label::second) with happens | never
  · exact happens
  · have both := meets_and.mpr ⟨met,never⟩
    obtain ⟨before_met,rest_met⟩ := (meets_append first (label::second) early).mp both
    have waited := guarded_invariant waiting base early before_met
    have round_met := ((meets_cons taken).mp rest_met).2
    exact absurd ended (continues _ (guarded_invariant going (begins waited) late round_met))

end Chipbox.Run
