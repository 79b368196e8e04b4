import Chipbox.Psflib.Loader

/-! The files that the PSF loader holds open, and the nesting of libraries it allows. -/
namespace Chipbox.Psflib

/-- The open files after some calls, the one opened last first. None where a file is closed out
of turn or more files than the limit are open at once. -/
def handles (limit : Nat) : List Text → List Event → Option (List Text)
  | held,[] => some held
  | held,.fopen path::rest => if held.length < limit then handles limit (path::held) rest else none
  | [],.fclose _::_ => none
  | path::held,.fclose other::rest => if path = other then handles limit held rest else none

theorem handles_append (limit : Nat) (held : List Text) (first second : List Event) :
    handles limit held (first ++ second) =
      (handles limit held first).bind fun middle => handles limit middle second := by
  induction first generalizing held with
  | nil => rfl
  | cons event rest ih =>
    cases event with
    | fopen path =>
      simp only [List.cons_append,handles]
      split
      · exact ih _
      · rfl
    | fclose path =>
      cases held with
      | nil => rfl
      | cons top held =>
        simp only [List.cons_append,handles]
        split
        · exact ih _
        · rfl

variable {Ctx : Type}

/-- A part of a load that leaves the open files as they were, with room for as many more
meanwhile. -/
def Tidy (room : Nat) (s t : State Ctx) : Prop :=
  ∃ calls, t.events = s.events ++ calls ∧
    ∀ limit held, held.length + room ≤ limit → handles limit held calls = some held

theorem Tidy.refl (room : Nat) (s : State Ctx) : Tidy room s s :=
  ⟨[],by simp,fun _ _ _ => rfl⟩

theorem Tidy.ctx (room : Nat) (s : State Ctx) (ctx : Ctx) : Tidy room s { s with ctx := ctx } :=
  ⟨[],by simp,fun _ _ _ => rfl⟩

theorem Tidy.trans {room : Nat} {s t u : State Ctx} (first : Tidy room s t) (second : Tidy room t u) :
    Tidy room s u := by
  obtain ⟨calls,early,kept⟩ := first
  obtain ⟨more,late,still⟩ := second
  refine ⟨calls ++ more,by rw [late,early,List.append_assoc],fun limit held fits => ?_⟩
  rw [handles_append,kept limit held fits,Option.bind_some]
  exact still limit held fits

theorem Tidy.weaken {room more : Nat} {s t : State Ctx} (tidy : Tidy room s t) (less : room ≤ more) :
    Tidy more s t := by
  obtain ⟨calls,happened,kept⟩ := tidy
  exact ⟨calls,happened,fun limit held fits => kept limit held (by omega)⟩

theorem Tidy.around {room : Nat} {s t : State Ctx} {path : Text} (inside : Tidy room (s.opened path) t) :
    Tidy (room + 1) s (t.closed path) := by
  obtain ⟨calls,happened,kept⟩ := inside
  refine ⟨.fopen path::calls ++ [.fclose path],?_,fun limit held fits => ?_⟩
  · simp only [State.opened,State.closed] at happened ⊢
    rw [happened]
    simp
  · have within : (path::held).length + room ≤ limit := by
      rw [List.length_cons]
      omega
    rw [List.cons_append,handles,if_pos (by omega),handles_append,kept limit _ within,Option.bind_some,
      handles,if_pos rfl,handles]

theorem loadLib_tidy {room : Nat} {load : State Ctx → Text → Outcome Ctx}
    (tidy : ∀ s name, Tidy room s (load s name).1) (tag : Option Tag) (s : State Ctx) :
    Tidy room s (loadLib load tag s).1 := by
  unfold loadLib
  split
  next => exact .refl room s
  next tag =>
    have loaded := tidy s tag.value
    split <;> next result => rwa [result] at loaded

theorem loadLibs_tidy {room : Nat} {load : State Ctx → Text → Outcome Ctx}
    (tidy : ∀ s name, Tidy room s (load s name).1) (tags : List Tag) (turns n : Nat) (s : State Ctx) :
    Tidy room s (loadLibs load tags turns n s).1 := by
  induction turns generalizing n s with
  | zero => exact .refl room s
  | succ turns ih =>
    unfold loadLibs
    split
    next => exact .refl room s
    next tag _ =>
      have loaded := tidy s tag.value
      split
      next result => rwa [result] at loaded
      next result =>
        rw [result] at loaded
        exact loaded.trans (ih (n + 1) _)

theorem loadSections_tidy {zlib : Zlib} {room : Nat} {load : State Ctx → Text → Outcome Ctx}
    (tidy : ∀ s name, Tidy room s (load s name).1) {path : Text} {header : Header} {tags : List Tag}
    {file : List UInt8} {loadTarget : Ctx → List UInt8 → List UInt8 → Ctx × Bool} {s t : State Ctx}
    (inside : Tidy room (s.opened path) t) :
    Tidy (room + 1) s (loadSections zlib load path header tags file loadTarget t).1 := by
  have closed : Tidy (room + 1) s (t.closed path) := inside.around
  unfold loadSections
  split
  next => exact closed
  next reserved compressed _ =>
    dsimp only
    split
    next => exact closed
    next exe _ =>
      split
      next ctx _ => exact closed.trans (.ctx _ _ ctx)
      next ctx _ =>
        have libs := loadLibs_tidy tidy tags tags.length 2 { t.closed path with ctx := ctx }
        have whole := (closed.trans (.ctx _ _ ctx)).trans (libs.weaken (Nat.le_succ room))
        split <;> next result => rwa [result] at whole

theorem loadTagged_tidy {zlib : Zlib} {callbacks : Callbacks Ctx} {room : Nat}
    {load : State Ctx → Text → Outcome Ctx} (tidy : ∀ s name, Tidy room s (load s name).1)
    (outermost : Bool) {path : Text} {header : Header} {tags : List Tag} {file : List UInt8}
    {s t : State Ctx} (inside : Tidy room (s.opened path) t) :
    Tidy (room + 1) s (loadTagged zlib callbacks load outermost path header tags file t).1 := by
  unfold loadTagged
  split
  next ctx _ => exact (inside.trans (.ctx _ _ ctx)).around
  next ctx _ =>
    have reported := inside.trans (.ctx _ _ ctx)
    dsimp only
    split
    next => exact reported.around
    next loadTarget _ =>
      have lib := reported.trans (loadLib_tidy tidy (findTag tags (text "_lib")) _)
      split
      next result =>
        rw [result] at lib
        exact lib.around
      next result =>
        rw [result] at lib
        exact loadSections_tidy tidy lib

/-- However a load goes, it closes each file that it opens, in the opposite order, and holds no
more open at once than it has room for. -/
theorem psfLoadInternal_tidy (files : Text → Option (List UInt8)) (zlib : Zlib)
    (callbacks : Callbacks Ctx) (basePath : Text) (room : Nat) (s : State Ctx) (fileName : Text) :
    Tidy room s (psfLoadInternal files zlib callbacks basePath room s fileName).1 := by
  induction room generalizing s fileName with
  | zero => exact .refl 0 s
  | succ room ih =>
    unfold psfLoadInternal
    dsimp only
    have inside : Tidy room (s.opened (basePath ++ fileName)) (s.opened (basePath ++ fileName)) :=
      .refl room _
    split
    next => exact .refl _ s
    next file _ =>
      split
      next => exact inside.around
      next header _ =>
        split
        next => exact inside.around
        next tags _ => exact loadTagged_tidy ih _ inside

/-- Whatever the files and the callbacks, a load opens at most ten files at once and leaves none
of them open, also where it fails. -/
theorem psfLoad_handles (files : Text → Option (List UInt8)) (zlib : Zlib)
    (callbacks : Callbacks Ctx) (separators uri : Text) (ctx : Ctx) :
    handles 10 [] (psfLoad files zlib callbacks separators uri ctx).1.events = some [] := by
  obtain ⟨calls,happened,kept⟩ := psfLoadInternal_tidy files zlib callbacks
    (splitPath separators uri).1 maxRecursionDepth ⟨ctx,[]⟩ (splitPath separators uri).2
  unfold psfLoad
  split
  · rfl
  · dsimp only
    rw [happened,List.nil_append]
    exact kept 10 [] (Nat.le_refl _)

end Chipbox.Psflib
