import Chipbox.Foundation.Run
import Chipbox.Playback.Commands

/-! Which halts of the playback a gain of the audio focus takes back. -/
namespace Chipbox.Playback
open Chipbox.Player (Playlist Shuffler)
variable {Id : Type}

inductive Halt
  | lossTransient | other
  deriving DecidableEq, Repr

structure Watched (Id : Type) where
  player : Player Id
  haltedBy : Option Halt

namespace Watched

def initial : Watched Id := ⟨.initial,none⟩

def watch (w : Watched Id) (command : PlayerCommand Id) : Option (Watched Id) :=
  let after := w.player.after command
  some ⟨after,if after.state ≠ w.player.state ∧ after.state ≠ .playing then
    some (if Player.isLossTransient command then .lossTransient else .other) else w.haltedBy⟩

/-- A gain of the focus starts playback only if a transient loss halted it. -/
def GainSafe (w : Watched Id) : Prop :=
  ∀ focusGranted, w.player.state ≠ .playing →
    (w.player.onAudioFocusChange .gain focusGranted).state = .playing →
    w.haltedBy = some .lossTransient

/-- While a halt by a transient loss is remembered, the command halts the player for
another reason. -/
def Overrules (w : Watched Id) (command : PlayerCommand Id) : Prop :=
  w.player.focusLossPaused = true ∧ Player.isLossTransient command = false ∧
    w.player.halted command ≠ w.player.state

instance (w : Watched Id) (command : PlayerCommand Id) : Decidable (w.Overrules command) :=
  inferInstanceAs (Decidable (_ ∧ _ ∧ _))

theorem gainSafe_iff (w : Watched Id) : w.GainSafe ↔
    (w.player.focusLossPaused = true → w.player.state = .playing ∨
      w.haltedBy = some .lossTransient) := by
  have gained (focusGranted : Bool) : (w.player.onAudioFocusChange .gain focusGranted).state =
      if w.player.focusLossPaused && focusGranted then .playing else w.player.state := by
    cases flagged : w.player.focusLossPaused <;>
      simp [Player.onAudioFocusChange,flagged,Player.start_state]
  constructor
  · intro safe flagged
    by_cases playing : w.player.state = .playing
    · exact .inl playing
    · exact .inr (safe true playing (by simp [gained,flagged]))
  · intro remembered focusGranted still started
    rw [gained] at started
    split at started
    next both =>
      rw [Bool.and_eq_true] at both
      exact (remembered both.1).resolve_left still
    next => exact absurd started still

theorem watch_safe {w t : Watched Id} {command : PlayerCommand Id} (safe : w.GainSafe)
    (kept : ¬ w.Overrules command) (taken : w.watch command = some t) : t.GainSafe := by
  cases Option.some.inj taken
  rw [gainSafe_iff] at safe ⊢
  dsimp only
  intro flagged
  rcases w.player.after_cases command with ⟨q,trackId,focusGranted,_,same,ran⟩ | halts
  · have state : (w.player.after command).state =
        if focusGranted then .playing else w.player.state := by
      rcases ran with ran | ran <;> simp [ran,Player.start_state,same.state]
    have before : w.player.focusLossPaused = true := by
      rcases ran with ran | ran
      · rwa [ran,Player.start_focusLossPaused,same.focusLossPaused] at flagged
      · rw [ran] at flagged; cases flagged
    rw [state]
    cases focusGranted with
    | true => exact .inl rfl
    | false => simpa using safe before
  · rw [halts.state]
    rw [halts.focusLossPaused] at flagged
    cases transient : Player.isLossTransient command with
    | true =>
      obtain ⟨focusGranted,rfl⟩ : ∃ focusGranted,
          command = .onAudioFocusChange .lossTransient focusGranted := by
        unfold Player.isLossTransient at transient
        split at transient
        · exact ⟨_,rfl⟩
        · cases transient
      by_cases playing : w.player.state = .playing
      · simp [Player.halted,playing]
      · simp only [Player.halted,playing,if_false,ne_eq,not_true_eq_false,false_and]
        simpa [playing] using safe (by simpa [transient,playing] using flagged)
    | false =>
      simp only [transient,Bool.false_and,Bool.or_false] at flagged
      have still : w.player.halted command = w.player.state := by
        by_contra moved
        exact kept ⟨flagged,transient,moved⟩
      rw [still]
      simpa using safe flagged

/-- A halt that overrules a remembered one leaves a player that a gain starts against it. -/
theorem overruled_unsafe {w t : Watched Id} {command : PlayerCommand Id}
    (taken : w.watch command = some t) (safe : t.GainSafe) : ¬ w.Overrules command := by
  rintro ⟨flagged,other,moved⟩
  cases Option.some.inj taken
  obtain ⟨stopped,silent⟩ := w.player.halted_ne_playing moved
  rcases w.player.after_cases command with ⟨q,trackId,focusGranted,call,_⟩ | halts
  · cases silent.symm.trans call
  · have remembered := (gainSafe_iff _).mp safe (by simp [halts.focusLossPaused,flagged])
    simp [halts.state,moved,stopped,other] at remembered

/-- In a run of commands, focus events and thread steps every gain of the focus is safe exactly
when nothing halts the player for another reason while a transient loss is remembered. -/
theorem gain_resumes_iff (commands : List (PlayerCommand Id)) :
    Run.Always watch GainSafe (initial : Watched Id) commands ↔
      Run.Meets watch (fun w command => ¬ w.Overrules command) initial commands := by
  obtain ⟨finish,ran⟩ := Run.exec_total (fun _ _ => ⟨_,rfl⟩) (initial : Watched Id) commands
  exact Run.always_iff_meets (fun _ safe => safe) (fun _ _ _ => watch_safe)
    (fun _ _ _ _ => overruled_unsafe)
    ((gainSafe_iff initial).mpr nofun) ran

/-- Paused by a transient loss, started and paused again by the user: a gain starts it. -/
theorem gain_resumes_paused : ∃ w, Run.exec watch (initial : Watched Nat)
      [.start (some 7) true,.trackChanged 7,.onAudioFocusChange .lossTransient true,.start none true,
        .pause] = some w ∧
    w.player.state = .paused ∧ w.haltedBy = some .other ∧
    (w.player.onAudioFocusChange .gain true).state = .playing :=
  ⟨_,rfl,rfl,rfl,rfl⟩

end Watched
end Chipbox.Playback
