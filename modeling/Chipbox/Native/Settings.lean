import Chipbox.Native.Frames
import Chipbox.Foundation.Run

/-! What the settings of the USF emulator depend on. `usf_info` only ever sets the two flags, and
neither a load nor a teardown clears them. -/
namespace Chipbox.Native
open Globals

/-- What `usf_set_compare` and `usf_set_fifo_full` are handed at the end of a load. -/
def emulatorSettings (g : Globals) : Bool × Bool := (g.enableCompare,g.enableFifoFull)

def setsCompare (tag : String × String) : Bool := strcasecmp tag.1 "_enablecompare" && tag.2 != ""

def setsFifoFull (tag : String × String) : Bool :=
  !setsCompare tag && (strcasecmp tag.1 "_enablefifofull" && tag.2 != "")

namespace Call

def tags : Call → List (String × String)
  | .loadFile _ _ _ reply => reply.tags
  | .seek _ reply => reply.tags
  | _ => []

/-- The call is a `loadFile` or a `teardown`. -/
def Loads : Call → Prop
  | .loadFile .. | .teardown => True
  | _ => False

end Call

def tagsOf (history : List Call) : List (String × String) := history.flatMap Call.tags

theorem usfInfo_settings (g : Globals) (tag : String × String) :
    emulatorSettings (usfInfo g tag) =
      (g.enableCompare || setsCompare tag,g.enableFifoFull || setsFifoFull tag) := by
  unfold emulatorSettings usfInfo setsFifoFull setsCompare
  cases strcasecmp tag.1 "_enablecompare" && tag.2 != "" with
  | true => simp
  | false =>
    cases strcasecmp tag.1 "_enablefifofull" && tag.2 != "" with
    | true => simp
    | false => simp

theorem foldl_settings (g : Globals) (tags : List (String × String)) :
    emulatorSettings (tags.foldl usfInfo g) =
      (g.enableCompare || tags.any setsCompare,g.enableFifoFull || tags.any setsFifoFull) := by
  induction tags generalizing g with
  | nil => simp [emulatorSettings]
  | cons tag rest ih =>
    have first := usfInfo_settings g tag
    rw [emulatorSettings,Prod.mk.injEq] at first
    rw [List.foldl_cons,ih,first.1,first.2,List.any_cons,List.any_cons,Bool.or_assoc,Bool.or_assoc]

theorem pass_settings (g : Globals) (resource : Resource) :
    emulatorSettings (g.pass resource) = emulatorSettings g := by
  obtain ⟨_,same⟩ := pass_same g resource
  rw [same]
  rfl

theorem free_settings (g : Globals) (resource : Resource) :
    emulatorSettings (g.free resource) = emulatorSettings g := by
  obtain ⟨_,_,same⟩ := free_same g resource
  rw [same]
  rfl

/-- A load that returns sets the flags of its tags and keeps those that were set. -/
theorem loadFileInternal_settings {g after : Globals} {rate bufferSize fadeTimeMs : Nat}
    {reply : LoadReply} (ran : loadFileInternal .usf g rate bufferSize fadeTimeMs reply = some after) :
    emulatorSettings after = (g.enableCompare || reply.tags.any setsCompare,
      g.enableFifoFull || reply.tags.any setsFifoFull) := by
  obtain ⟨_,_,_,_,_,ready⟩ := prepareLoad_same .usf g rate bufferSize fadeTimeMs
  unfold loadFileInternal at ran
  split at ran
  · cases ran
  · dsimp only at ran
    rw [ready] at ran
    generalize made : (setHandle _ Resource.emuState Handle.live) = opened at ran
    have kept : opened.enableCompare = g.enableCompare ∧ opened.enableFifoFull = g.enableFifoFull := by
      rw [← made]
      exact ⟨rfl,rfl⟩
    have passed := pass_settings opened .emuState
    rw [emulatorSettings,emulatorSettings,Prod.mk.injEq,kept.1,kept.2] at passed
    have loaded := foldl_settings (opened.pass .emuState) reply.tags
    rw [passed.1,passed.2] at loaded
    rw [← loaded]
    split at ran
    · cases ran
      rw [free_settings]
      exact pass_settings _ _
    · cases ran
      exact pass_settings _ _

theorem call_settings {fuel : Nat} {g after : Globals} {made : Call} (loads : made.Loads)
    (ran : call .usf fuel g made = some after) : emulatorSettings after =
      (g.enableCompare || made.tags.any setsCompare,g.enableFifoFull || made.tags.any setsFifoFull) := by
  cases made with
  | loadFile rate bufferSize fadeTimeMs reply => exact loadFileInternal_settings ran
  | readNextSamples reply => cases loads
  | seek timeInMs reply => cases loads
  | teardown =>
    obtain ⟨_,_,_,_,_,same⟩ := teardownInternal_same .usf g
    rw [call_teardown ran,same]
    simp [emulatorSettings,Call.tags]

/-- After any history the flags are those of all the tags it read. -/
theorem history_settings {fuel : Nat} {start finish : Globals} {history : List Call}
    (loads : ∀ made ∈ history, made.Loads) (run : Run.exec (call .usf fuel) start history = some finish) :
    emulatorSettings finish = (start.enableCompare || (tagsOf history).any setsCompare,
      start.enableFifoFull || (tagsOf history).any setsFifoFull) := by
  induction history generalizing start with
  | nil =>
    cases run
    simp [emulatorSettings,tagsOf]
  | cons made rest ih =>
    obtain ⟨middle,taken,run⟩ := Run.exec_cons.mp run
    have first := call_settings (loads made List.mem_cons_self) taken
    rw [emulatorSettings,Prod.mk.injEq] at first
    have later := ih (fun other listed => loads other (.tail _ listed)) run
    have read : tagsOf (made::rest) = made.tags ++ tagsOf rest := List.flatMap_cons
    rw [later,first.1,first.2,read,List.any_append,List.any_append,Bool.or_assoc,Bool.or_assoc]

/-- The file sets the flag itself, or both histories read a tag that sets it or neither did. -/
def Agree (sets : String × String → Bool) (first second : List Call) (tags : List (String × String)) :
    Prop :=
  tags.any sets = true ∨ (tagsOf first).any sets = (tagsOf second).any sets

instance (sets : String × String → Bool) (first second : List Call) (tags : List (String × String)) :
    Decidable (Agree sets first second tags) := inferInstanceAs (Decidable (_ ∨ _))

theorem or_eq_iff_agree (sets : String × String → Bool) (first second : List Call)
    (tags : List (String × String)) : ((tagsOf first).any sets || tags.any sets) =
      ((tagsOf second).any sets || tags.any sets) ↔ Agree sets first second tags := by
  unfold Agree
  cases tags.any sets with
  | true => simp
  | false => simp

/-- Two histories that end in the same load hand the emulator the same settings
exactly when, for each of the two, the file sets it itself or the histories agree. -/
theorem settings_agree_iff {fuel : Nat} {first second : List Call} {rate : Nat}
    {bufferSize fadeTimeMs : Int} {reply : LoadReply} {one other : Globals}
    (loads : ∀ made ∈ first ++ second, made.Loads)
    (run : Run.exec (call .usf fuel) .initial
      (first ++ [.loadFile rate bufferSize fadeTimeMs reply]) = some one)
    (rerun : Run.exec (call .usf fuel) .initial
      (second ++ [.loadFile rate bufferSize fadeTimeMs reply]) = some other) :
    emulatorSettings one = emulatorSettings other ↔
      Agree setsCompare first second reply.tags ∧ Agree setsFifoFull first second reply.tags := by
  have all (history : List Call) (among : ∀ made ∈ history, made ∈ first ++ second) :
      ∀ made ∈ history ++ [.loadFile rate bufferSize fadeTimeMs reply], made.Loads := by
    intro made listed
    rcases List.mem_append.mp listed with early | last
    · exact loads made (among made early)
    · rw [List.mem_singleton.mp last]
      trivial
  rw [history_settings (all first fun _ => List.mem_append_left _) run,
    history_settings (all second fun _ => List.mem_append_right _) rerun,Prod.mk.injEq]
  have read (history : List Call) : tagsOf (history ++ [.loadFile rate bufferSize fadeTimeMs reply]) =
      tagsOf history ++ reply.tags := by
    rw [tagsOf,List.flatMap_append,List.flatMap_singleton]
    rfl
  rw [read,read,List.any_append,List.any_append,List.any_append,List.any_append,
    ← or_eq_iff_agree,← or_eq_iff_agree]
  exact Iff.rfl

def loadTagged (tags : List (String × String)) : Call :=
  .loadFile 44100 8 180000 ⟨tags,some (steadyEmulator 16)⟩

theorem settings_agree_iff_alone : ∃ one other,
    Run.exec (call .usf 1) .initial ([] ++ [loadTagged [("_enablecompare","1")]]) = some one ∧
    Run.exec (call .usf 1) .initial
      ([loadTagged [("_enablecompare","1")],.teardown] ++ [loadTagged [("_enablecompare","1")]]) =
        some other ∧ emulatorSettings one = emulatorSettings other := by
  have loads : ∀ made ∈ ([] ++ [loadTagged [("_enablecompare","1")],.teardown] : List Call),
      made.Loads := by
    simp [loadTagged,Call.Loads]
  refine ⟨_,_,rfl,rfl,(@settings_agree_iff 1 [] [loadTagged [("_enablecompare","1")],.teardown]
    44100 8 180000 ⟨[("_enablecompare","1")],some (steadyEmulator 16)⟩ _ _ loads rfl rfl).mpr ?_⟩
  exact ⟨by decide,by decide⟩

/-- The tag of an earlier, torn down track changes how a file without tags is played. -/
theorem settings_leak : ∃ one other,
    Run.exec (call .usf 1) .initial [loadTagged []] = some one ∧
    Run.exec (call .usf 1) .initial
      [loadTagged [("_enablecompare","1")],.teardown,loadTagged []] = some other ∧
    emulatorSettings one = (false,false) ∧ emulatorSettings other = (true,false) :=
  ⟨_,_,rfl,rfl,rfl,rfl⟩

end Chipbox.Native
