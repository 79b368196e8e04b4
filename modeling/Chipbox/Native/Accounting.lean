import Chipbox.Native.TrackEnd

/-! The sample accounts of the PSF and USF backends: what is left of a track is computed in
unsigned words from a threshold, a fade and a position that come from conversions of their own. -/
namespace Chipbox.Native
open Globals

structure Globals.NoWrap (g : Globals) : Prop where
  fade : fadeTime ≤ g.trackLengthMs
  played : g.playedSampleCountTrack ≤ g.fadeStartThresholdSamplesTrack + g.fadeLengthSamplesTrack

def Advances (lib : Lib) (fuel : Nat) (g : Globals) (made : Call) : Prop :=
  ∀ after, call lib fuel g made = some after →
    after.playedSampleCountTrack - g.playedSampleCountTrack ≤
      g.fadeStartThresholdSamplesTrack + g.fadeLengthSamplesTrack - g.playedSampleCountTrack

def Call.Listens (trackLengthMs : Nat) : Call → Prop
  | .readNextSamples _ => True
  | .seek timeInMs _ => 0 ≤ timeInMs ∧ timeInMs ≤ trackLengthMs
  | _ => False

/-- A seek aims at no sample beyond the end of the fade. -/
def StaysWithin (g : Globals) : Call → Prop
  | .seek timeInMs _ =>
    seekTarget g timeInMs ≤ g.fadeStartThresholdSamplesTrack + g.fadeLengthSamplesTrack
  | _ => True

structure Accounts (lib : Lib) (rate trackLengthMs : Nat) (g : Globals) : Prop where
  device : g.sampleRateDevice = rate
  rateTrack : g.sampleRateTrack = trackRate lib rate
  length : g.trackLengthMs = trackLengthMs
  threshold : g.fadeStartThresholdSamplesTrack =
    convertMsToSamples (trackRate lib rate) (Word.sub trackLengthMs fadeTime)
  fade : g.fadeLengthSamplesTrack = convertMsToSamples (trackRate lib rate) fadeTime

section Accounts
variable {lib : Lib} {rate trackLengthMs : Nat} {g after : Globals}

theorem Accounts.plays (accounts : Accounts lib rate trackLengthMs g) (plays : Plays g after) :
    Accounts lib rate trackLengthMs after := by
  obtain ⟨_,_,_,_,_,_,_,rfl,_⟩ := plays
  exact ⟨accounts.device,accounts.rateTrack,accounts.length,accounts.threshold,accounts.fade⟩

theorem Accounts.playedTo (accounts : Accounts lib rate trackLengthMs g) (samples : Nat) :
    Accounts lib rate trackLengthMs (g.playedTo samples) :=
  ⟨accounts.device,accounts.rateTrack,accounts.length,accounts.threshold,accounts.fade⟩

theorem Accounts.teardown (accounts : Accounts lib rate trackLengthMs g) :
    Accounts lib rate trackLengthMs (teardownInternal lib g) := by
  obtain ⟨_,_,_,_,_,same⟩ := teardownInternal_same lib g
  rw [same]
  exact ⟨accounts.device,accounts.rateTrack,accounts.length,accounts.threshold,accounts.fade⟩

/-- A load settles the accounts, and one that is refused keeps those of the same track. -/
theorem loadFileInternal_accounts {bufferSize : Nat} {reply : LoadReply}
    (before : reply.emulator = none → Accounts lib rate trackLengthMs g)
    (ran : loadFileInternal lib g rate bufferSize trackLengthMs reply = some after) :
    Accounts lib rate trackLengthMs after := by
  obtain ⟨_,_,_,_,_,_,_,_,_,rfl,outcome⟩ := loadFileInternal_cases ran
  cases answer : reply.emulator with
  | none =>
    rw [answer] at outcome
    obtain ⟨_,rfl⟩ := outcome
    have kept := before answer
    exact ⟨rfl,kept.rateTrack,rfl,kept.threshold,kept.fade⟩
  | some emulator =>
    rw [answer] at outcome
    obtain ⟨_,rfl⟩ := outcome
    exact ⟨rfl,rfl,rfl,rfl,rfl⟩

theorem seek_lands {fuel : Nat} {timeInMs : Int} {reply : LoadReply}
    (accounts : Accounts lib rate trackLengthMs g) (ran : seek lib fuel g timeInMs reply = some after) :
    Accounts lib rate trackLengthMs after ∧ after.playedSampleCountTrack = seekTarget g timeInMs := by
  have small := seekTarget_lt g timeInMs
  unfold seek at ran
  split at ran
  · cases ran
  next start started =>
    obtain ⟨settled,going,below⟩ : Accounts lib rate trackLengthMs start ∧ start.stopSeek = false ∧
        start.playedSampleCountTrack ≤ seekTarget g timeInMs := by
      by_cases back : seekTarget g timeInMs ≤ g.playedSampleCountTrack
      · have reloaded : seekStart lib g timeInMs reply =
            loadFileInternal lib (teardownInternal lib {g with stopSeek := false}) _ _ _ reply :=
          if_pos back
        rw [reloaded] at started
        have torn : Accounts lib rate trackLengthMs (teardownInternal lib {g with stopSeek := false}) :=
          Accounts.teardown
            ⟨accounts.device,accounts.rateTrack,accounts.length,accounts.threshold,accounts.fade⟩
        rw [torn.device,torn.length] at started
        obtain ⟨going,played⟩ := loadFileInternal_frame started
        rw [teardownInternal_stopSeek] at going
        rw [teardownInternal_initialized,teardownInternal_played] at played
        exact ⟨loadFileInternal_accounts (fun _ => torn) started,going,by rw [played]; exact Nat.zero_le _⟩
      · have skipped : seekStart lib g timeInMs reply = some {g with stopSeek := false} := if_neg back
        rw [skipped] at started
        cases started
        exact ⟨⟨accounts.device,accounts.rateTrack,accounts.length,accounts.threshold,accounts.fade⟩,
          rfl,Nat.le_of_not_le back⟩
    rw [Word.sub_of_le below small] at ran
    have sum : start.playedSampleCountTrack + (seekTarget g timeInMs - start.playedSampleCountTrack) =
        seekTarget g timeInMs := Nat.add_sub_cancel' below
    have plays := seekLoop_plays going (by rw [sum]; exact small) ran
    rw [sum] at plays
    refine ⟨(settled.playedTo _).plays plays,?_⟩
    obtain ⟨_,_,_,_,_,_,_,rfl,_⟩ := plays
    rfl

theorem Accounts.stop (accounts : Accounts lib rate trackLengthMs g) (small : rate < 2^31) :
    stopSample g = g.fadeStartThresholdSamplesTrack + g.fadeLengthSamplesTrack := by
  have fade := fadeLength_eq (@trackRate_lt lib rate small)
  have stop := @lastSample_eq (trackRate lib rate) trackLengthMs (trackRate_lt small)
  rw [accounts.threshold,accounts.fade,fade,← stop]
  unfold stopSample lastSample
  rw [accounts.threshold,accounts.fade]

theorem samplesToRead_le (below : g.playedSampleCountTrack ≤ stopSample g) :
    samplesToRead g ≤ stopSample g - g.playedSampleCountTrack := by
  have counted := samplesToRead_eq (Plays.refl g) below
  rw [counted]
  exact Nat.min_le_left _ _

theorem readNextSamples_counts {fuel : Nat} {reply : ReadReply} {taken : Option (List Byte)}
    (accounts : Accounts lib rate trackLengthMs g) (small : rate < 2^31) (sound : g.NoWrap)
    (ran : readNextSamples lib fuel g reply = some (taken,after)) :
    Accounts lib rate trackLengthMs after ∧ after.playedSampleCountTrack ≤
      g.fadeStartThresholdSamplesTrack + g.fadeLengthSamplesTrack := by
  have stop := accounts.stop small
  rcases readNextSamples_plays ran with plays | ⟨_,plays⟩
  · refine ⟨accounts.plays plays,?_⟩
    obtain ⟨_,_,_,_,_,_,_,rfl,_⟩ := plays
    exact sound.played
  · refine ⟨(accounts.playedTo _).plays plays,?_⟩
    have position : after.playedSampleCountTrack =
        Word.add g.playedSampleCountTrack (samplesToRead g) := by
      obtain ⟨_,_,_,_,_,_,_,rfl,_⟩ := plays
      rfl
    have below : g.playedSampleCountTrack ≤ stopSample g := by
      rw [stop]
      exact sound.played
    have few := samplesToRead_le below
    have word : stopSample g < 2^64 := Word.wrap_lt _
    rw [position,Word.add_of_lt (by omega)]
    omega

theorem call_accounts {fuel : Nat} {made : Call} (accounts : Accounts lib rate trackLengthMs g)
    (listens : made.Listens trackLengthMs) (ran : call lib fuel g made = some after) :
    Accounts lib rate trackLengthMs after := by
  cases made with
  | loadFile => cases listens
  | teardown => cases listens
  | seek timeInMs reply => exact (seek_lands accounts (call_seek ran)).1
  | readNextSamples reply =>
    obtain ⟨⟨_,last⟩,read,rfl⟩ := Option.map_eq_some_iff.mp ran
    rcases readNextSamples_plays read with plays | ⟨_,plays⟩
    · exact accounts.plays plays
    · exact (accounts.playedTo _).plays plays

theorem Accounts.noWrap_iff (accounts : Accounts lib rate trackLengthMs g)
    (others : Accounts lib rate trackLengthMs after) (sound : g.NoWrap) :
    after.NoWrap ↔ after.playedSampleCountTrack ≤
      g.fadeStartThresholdSamplesTrack + g.fadeLengthSamplesTrack := by
  have same : after.fadeStartThresholdSamplesTrack + after.fadeLengthSamplesTrack =
      g.fadeStartThresholdSamplesTrack + g.fadeLengthSamplesTrack := by
    rw [accounts.threshold,accounts.fade,others.threshold,others.fade]
  constructor
  · intro held
    rw [← same]
    exact held.played
  · intro below
    refine ⟨?_,by rw [same]; exact below⟩
    rw [others.length,← accounts.length]
    exact sound.fade

/-- A step keeps the accounts sound exactly when it stays within the track. -/
theorem call_noWrap_iff {fuel : Nat} {made : Call} (accounts : Accounts lib rate trackLengthMs g)
    (small : rate < 2^31) (sound : g.NoWrap) (listens : made.Listens trackLengthMs)
    (ran : call lib fuel g made = some after) : after.NoWrap ↔ StaysWithin g made := by
  rw [accounts.noWrap_iff (call_accounts accounts listens ran) sound]
  cases made with
  | loadFile => cases listens
  | teardown => cases listens
  | seek timeInMs reply =>
    rw [(seek_lands accounts (call_seek ran)).2]
    exact Iff.rfl
  | readNextSamples reply =>
    obtain ⟨⟨_,last⟩,read,rfl⟩ := Option.map_eq_some_iff.mp ran
    exact iff_of_true (readNextSamples_counts accounts small sound read).2 trivial

/-- Where the length in samples is a word, no time within the track lies beyond its end. -/
theorem Accounts.staysWithin (accounts : Accounts lib rate trackLengthMs g) (small : rate < 2^31)
    (positive : 0 < trackRate lib rate) (long : fadeTime ≤ trackLengthMs)
    (fits : trackRate lib rate * trackLengthMs < 2^64) {made : Call}
    (listens : made.Listens trackLengthMs) : StaysWithin g made := by
  cases made with
  | loadFile => trivial
  | teardown => trivial
  | readNextSamples reply => trivial
  | seek timeInMs reply =>
    obtain ⟨late,early⟩ := listens
    obtain ⟨time,rfl⟩ := Int.eq_ofNat_of_zero_le late
    have within : time ≤ trackLengthMs := Int.ofNat_le.mp early
    have below : trackRate lib rate * time ≤ trackRate lib rate * trackLengthMs :=
      Nat.mul_le_mul_left _ within
    have word : time < 2^64 := Nat.lt_of_le_of_lt (Nat.le_mul_of_pos_left time positive) (by omega)
    have target : seekTarget g time = trackRate lib rate * time / 1000 := by
      have same : Word.ofInt time = time := by
        unfold Word.ofInt
        omega
      unfold seekTarget convertMsToSamples
      rw [accounts.rateTrack,same,Word.mul_of_lt (by omega)]
    have stop := accounts.stop small
    have last := @lastSample_of_long (trackRate lib rate) trackLengthMs (trackRate_lt small) long positive fits
    unfold lastSample at last
    unfold stopSample at stop
    rw [← accounts.threshold,← accounts.fade,stop] at last
    unfold StaysWithin
    dsimp only
    rw [target,last]
    exact Nat.div_le_div_right below

end Accounts

/-- Over any reads and seeks within a track just loaded, no subtraction wraps and every call plays
at most what is left exactly when the track is as long as the fade and either its length
in samples fits a word or no seek aims beyond the end of the fade. -/
theorem accounting_iff {lib : Lib} {fuel rate bufferSize trackLengthMs : Nat} {g start finish : Globals}
    {reply : LoadReply} {emulator : Emulator} {calls : List Call}
    (fresh : g.initialized = true ∨ g.playedSampleCountTrack = 0) (small : rate < 2^31)
    (accepted : reply.emulator = some emulator)
    (loads : loadFileInternal lib g rate bufferSize trackLengthMs reply = some start)
    (listens : ∀ made ∈ calls, made.Listens trackLengthMs)
    (run : Run.exec (call lib fuel) start calls = some finish) :
    Run.Always (call lib fuel) NoWrap start calls ∧
      Run.Meets (call lib fuel) (Advances lib fuel) start calls ↔
    fadeTime ≤ trackLengthMs ∧ (trackRate lib rate * trackLengthMs < 2^64 ∨
      Run.Meets (call lib fuel) StaysWithin start calls) := by
  have accounts : Accounts lib rate trackLengthMs start :=
    loadFileInternal_accounts (fun refused => by rw [accepted] at refused; cases refused) loads
  obtain ⟨positive,begun⟩ := loadFileInternal_begun fresh accepted loads
  have rate_pos := @trackRate_pos lib rate positive
  have allowed : Run.Meets (call lib fuel) (fun _ made => made.Listens trackLengthMs) start calls :=
    Run.meets_of_labels (fun made listed _ => listens made listed) start
  have sound : start.NoWrap ↔ fadeTime ≤ trackLengthMs := by
    constructor
    · intro held
      rw [← accounts.length]
      exact held.fade
    · intro long
      refine ⟨by rw [accounts.length]; exact long,?_⟩
      rw [begun.played]
      exact Nat.zero_le _
  have kept (s : Globals) (made : Call) (t : Globals)
      (held : Accounts lib rate trackLengthMs s ∧ s.NoWrap)
      (guarded : made.Listens trackLengthMs ∧ StaysWithin s made)
      (taken : call lib fuel s made = some t) : Accounts lib rate trackLengthMs t ∧ t.NoWrap :=
    ⟨call_accounts held.1 guarded.1 taken,
      (call_noWrap_iff held.1 small held.2 guarded.1 taken).mpr guarded.2⟩
  constructor
  · rintro ⟨always,_⟩
    have first : start.NoWrap := by
      cases calls <;> simp only [Run.Always] at always <;> tauto
    have exactly : Run.Always (call lib fuel) NoWrap start calls ↔
        Run.Meets (call lib fuel) StaysWithin start calls := by
      refine Run.always_iff_meets_among
        (fun s (held : Accounts lib rate trackLengthMs s ∧ s.NoWrap) => held.2) ?_ ?_
        ⟨accounts,first⟩ run allowed
      · intro s made t held listened within taken
        exact kept s made t held ⟨listened,within⟩ taken
      · intro s made t held listened taken still
        exact (call_noWrap_iff held.1 small held.2 listened taken).mp still
    exact ⟨sound.mp first,.inr (exactly.mp always)⟩
  · rintro ⟨long,either⟩
    have within : Run.Meets (call lib fuel) StaysWithin start calls := by
      rcases either with fits | within
      · apply Run.meets_of_meets _ _ accounts allowed
        · intro s made t held listened taken
          exact call_accounts held listened taken
        · intro s made held listened
          exact held.staysWithin small rate_pos long fits listened
      · exact within
    have both := Run.meets_and.mpr ⟨allowed,within⟩
    refine ⟨Run.always_of_meets (fun _ held => held.2) kept ⟨accounts,sound.mpr long⟩ both,?_⟩
    apply Run.meets_of_meets kept _ ⟨accounts,sound.mpr long⟩ both
    intro s made held guarded t taken
    obtain ⟨later,still⟩ := kept s made t held guarded taken
    have reached := (held.1.noWrap_iff later held.2).mp still
    exact Nat.sub_le_sub_right reached _

/-- A track of the length of the fade, with a seek forward and a read. -/
theorem accounting_iff_fade : ∃ start finish, loadFileInternal .psf .initial 44100 8 7000
    ⟨[],some (steadyEmulator 16)⟩ = some start ∧
    Run.exec (call .psf 20) start [.seek 1 ⟨[],none⟩,.readNextSamples ⟨false,none⟩] = some finish ∧
    Run.Always (call .psf 20) NoWrap start [.seek 1 ⟨[],none⟩,.readNextSamples ⟨false,none⟩] := by
  have listens : ∀ made ∈ ([.seek 1 ⟨[],none⟩,.readNextSamples ⟨false,none⟩] : List Call),
      made.Listens 7000 := by
    simp [Call.Listens]
  refine ⟨_,_,rfl,rfl,((@accounting_iff .psf 20 44100 8 7000 .initial _ _
    ⟨[],some (steadyEmulator 16)⟩ _ _ (.inr rfl) (by decide) rfl rfl listens rfl).mpr ?_).1⟩
  exact ⟨by decide,.inl (by decide)⟩

/-- A track of one second: the threshold of its fade wraps around, and the samples said to be left
after it was all played are more than any track has. -/
theorem short_track_wraps : ∃ start, loadFileInternal .psf .initial 44100 8 1000
    ⟨[],some (steadyEmulator 16)⟩ = some start ∧ ¬ start.NoWrap ∧
    2^53 < Word.sub (stopSample start) 44100 :=
  ⟨_,rfl,fun held => absurd held.fade (by decide),by decide⟩

end Chipbox.Native
