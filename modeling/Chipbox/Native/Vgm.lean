import Chipbox.Foundation.Run
import Mathlib.Algebra.BigOperators.Group.List.Basic
import Mathlib.Algebra.Ring.Int.Defs

/-! The globals and entry points of the VGM backend. -/
namespace Chipbox.Native

def maxActiveChips : Nat := 10

/-- The size of `filename_char_array`. -/
def filenameCapacity : Nat := 260

def getChannelCountForChipId : Nat → Int
  | 0x00 => 4
  | 0x01 | 0x09 | 0x0A | 0x0B => 14
  | 0x02 => 7
  | 0x03 => 8
  | 0x04 => 16
  | 0x05 | 0x10 => 8
  | 0x06 => 6
  | 0x07 | 0x08 => 16
  | 0x0C => 23
  | 0x0D => 24
  | 0x0E => 12
  | 0x0F => 8
  | 0x11 => 1
  | 0x12 => 3
  | 0x13 => 4
  | 0x14 => 6
  | 0x15 => 28
  | 0x16 => 1
  | 0x17 => 1
  | 0x18 => 4
  | 0x19 => 5
  | 0x1A => 8
  | 0x1B => 6
  | 0x1C => 24
  | 0x1D => 4
  | 0x1E => 4
  | 0x1F => 16
  | 0x20 => 32
  | 0x21 => 4
  | 0x22 => 6
  | 0x23 => 6
  | 0x24 => 32
  | 0x25 => 32
  | 0x26 => 16
  | 0x27 => 32
  | 0x28 => 4
  | _ => -1

structure VgmGlobals where
  lastError : Option String
  sampleCount : Int
  playedSampleCount : Int
  sampleRate : Nat
  channelCount : Int
  /-- the used part of `g_active_chip_ids`; its length is `g_active_chip_count` -/
  activeChipIds : List Nat
  deriving DecidableEq, Repr

def VgmGlobals.initial : VgmGlobals := ⟨none,0,0,0,0,[]⟩

inductive VgmCall
  /-- `chips` are the indices of the chips with a clock above zero, in their order -/
  | loadFile (filenameLength rate : Nat) (bufferSize : Int) (opened : Bool) (chips : List Nat)
  | readNextSamples (arrayNull : Bool) (createdSamples : Nat) (trackOver : Bool)
  | seek (samples : Nat)
  | teardown
  deriving DecidableEq, Repr

namespace Vgm

/-- A file name that does not fit its array, or a chip beyond the last array slot, is
written out of bounds and has no outcome. -/
def loadFile (g : VgmGlobals) (filenameLength rate : Nat) (bufferSize : Int) (opened : Bool)
    (chips : List Nat) : Option VgmGlobals :=
  let g := {g with playedSampleCount := 0, sampleCount := bufferSize.tdiv 2, sampleRate := rate}
  if filenameCapacity ≤ filenameLength then none
  else if opened then
    if maxActiveChips < g.activeChipIds.length + chips.length then none
    else some {g with
      channelCount := g.channelCount + (chips.map getChannelCountForChipId).sum
      activeChipIds := g.activeChipIds ++ chips}
  else some {g with lastError := some "Failed to load file."}

def readNextSamples (g : VgmGlobals) (arrayNull : Bool) (createdSamples : Nat)
    (trackOver : Bool) : VgmGlobals :=
  if arrayNull then {g with lastError := some "Couldn't write to Java buffer."}
  else
    let g := {g with playedSampleCount := g.playedSampleCount + createdSamples}
    if g.sampleCount ≠ (createdSamples : Int) ∧ trackOver = false then
      {g with lastError := some "Wrote fewer samples than expected."}
    else g

def teardown (g : VgmGlobals) : VgmGlobals := {g with channelCount := 0, activeChipIds := []}

def getLastError (g : VgmGlobals) : Option String := g.lastError

def call (g : VgmGlobals) : VgmCall → Option VgmGlobals
  | .loadFile filenameLength rate bufferSize opened chips =>
    loadFile g filenameLength rate bufferSize opened chips
  | .readNextSamples arrayNull createdSamples trackOver =>
    some (readNextSamples g arrayNull createdSamples trackOver)
  | .seek samples => some {g with playedSampleCount := samples}
  | .teardown => some (teardown g)

def Fails (g : VgmGlobals) : VgmCall → Prop
  | .loadFile _ _ _ opened _ => opened = false
  | .readNextSamples arrayNull createdSamples trackOver =>
    arrayNull = true ∨ (g.sampleCount ≠ (createdSamples : Int) ∧ trackOver = false)
  | .seek _ => False
  | .teardown => False

instance (g : VgmGlobals) (made : VgmCall) : Decidable (Fails g made) := by
  cases made <;> unfold Fails <;> infer_instance

theorem call_lastError {g after : VgmGlobals} {made : VgmCall} (ran : call g made = some after) :
    after.lastError = none ↔ g.lastError = none ∧ ¬ Fails g made := by
  cases made with
  | loadFile filenameLength rate bufferSize opened chips =>
    simp only [call,loadFile] at ran
    split at ran
    · cases ran
    · split at ran
      next accepted =>
        split at ran
        · cases ran
        · cases ran; simp [Fails,accepted]
      next refused => cases ran; simp [Fails,refused]
  | readNextSamples arrayNull createdSamples trackOver =>
    cases ran
    simp only [readNextSamples,Fails]
    split
    next unwritable => simp [unwritable]
    next writable =>
      split
      next short => simp [short]
      next enough => simp only [writable,Bool.false_eq_true,false_or,enough,not_false_iff,and_true]
  | seek samples => cases ran; simp [Fails]
  | teardown => cases ran; simp [Fails,teardown]

theorem history_lastError {start finish : VgmGlobals} {history : List VgmCall}
    (ran : Run.exec call start history = some finish) :
    finish.lastError = none ↔ start.lastError = none ∧
      Run.Meets call (fun g made => ¬ Fails g made) start history :=
  Run.unmarked_iff_meets (fun _ _ _ _ _ => trivial) (fun _ _ _ _ ran => call_lastError ran)
    (trivial : True) ran

end Vgm
end Chipbox.Native
