import Chipbox.Gme.TrackEnd

/-! The position that the GME backend reports after a seek and the reads that follow it. -/
namespace Chipbox.Gme

variable {Core : Type} {emulator : Emulator Core}

theorem skip_time (emulator : Emulator Core) (s : MusicEmu Core) (count : Nat) :
    (skip emulator s count).outTime = s.outTime + count ∧
      (skip emulator s count).sampleRate = s.sampleRate := by
  obtain ⟨middle,how,skipped⟩ := skip_cases emulator s count
  have onward : Onward (skipHeld s count) middle := by
    rcases how with ⟨_,rfl⟩ | ⟨_,skips,_⟩
    · exact .refl _
    · have whole := skips.onward
      exact ⟨whole.1,whole.2,whole.3,whole.4,whole.5,whole.6,whole.7,whole.8⟩
  rw [skipped]
  split <;> exact ⟨onward.outTime,onward.sampleRate⟩

theorem startTrack_time (emulator : Emulator Core) {s : MusicEmu Core} (order : InOrder s)
    (track : Int) : (startTrack emulator s track).1.outTime = 0 ∧
      (startTrack emulator s track).1.sampleRate = s.sampleRate :=
  ⟨(startTrack_order emulator order.buf order.ignoreSilence track).2,
    (startTrack_sampleRate emulator s track).1⟩

/-- The position of a time, in all its bits. -/
def samplesAt (rate msec : Nat) : Nat := (msec / 1000 * rate + msec % 1000 * rate / 1000) * stereo

theorem msecToSamples_eq {rate msec : Nat} (near : samplesAt rate msec < 2147483648) :
    msecToSamples rate msec = samplesAt rate msec := by
  have sec : (msec : Int).tdiv 1000 = (msec / 1000 : Nat) := rfl
  have rest : (msec : Int) - (msec / 1000 : Nat) * 1000 = (msec % 1000 : Nat) := by omega
  have part : ((msec % 1000 : Nat) * (rate : Int)).tdiv 1000 = (msec % 1000 * rate / 1000 : Nat) := by
    rw [← Int.natCast_mul]
    rfl
  unfold msecToSamples
  dsimp only
  rw [sec,rest,part,← Int.natCast_mul,← Int.natCast_add,← Int.natCast_mul]
  exact blarggLong_eq (by omega) (Int.ofNat_lt.mpr near)

theorem le_samplesAt {rate : Nat} (slow : 1000 ≤ rate) (msec : Nat) : msec ≤ samplesAt rate msec := by
  have whole : msec / 1000 * 1000 ≤ msec / 1000 * rate := Nat.mul_le_mul_left _ slow
  have part : msec % 1000 ≤ msec % 1000 * rate / 1000 := by
    rw [Nat.le_div_iff_mul_le (by decide)]
    exact Nat.mul_le_mul_left _ slow
  unfold samplesAt stereo
  omega

/-- A seek that succeeds leaves the player at the sample of its time. -/
theorem seek_time {s t : MusicEmu Core} (order : InOrder s) (slow : 1000 ≤ s.sampleRate) {msec : Nat}
    (near : samplesAt s.sampleRate msec < 2147483648) (sought : gmeSeek emulator s msec = some (t,none)) :
    t.outTime = samplesAt s.sampleRate msec ∧ t.sampleRate = s.sampleRate := by
  have less := le_samplesAt slow msec
  unfold gmeSeek seek at sought
  rw [blarggLong_eq (by omega) (by omega),msecToSamples_eq near] at sought
  dsimp only at sought
  rw [if_neg (by omega),Option.some.injEq,Int.toNat_natCast] at sought
  unfold seekSamples at sought
  split at sought
  next back =>
    obtain ⟨zero,rate⟩ := startTrack_time emulator order s.currentTrack
    split at sought
    next => cases sought
    next restarted started =>
      cases sought
      rw [started] at zero rate
      obtain ⟨time,same⟩ := skip_time emulator restarted
        (samplesAt s.sampleRate msec - restarted.outTime)
      refine ⟨time.trans ?_,same.trans rate⟩
      dsimp only at zero
      omega
  next ahead =>
    cases sought
    obtain ⟨time,same⟩ := skip_time emulator s (samplesAt s.sampleRate msec - s.outTime)
    exact ⟨time.trans (by omega),same⟩

theorem play_time (emulator : Emulator Core) (s : MusicEmu Core) (n : Nat) :
    (play emulator s n).1.outTime = s.outTime + n ∧
      (play emulator s n).1.sampleRate = s.sampleRate := by
  cases going : s.trackEnded with
  | true => simp [play,going]
  | false =>
    rcases played : playRaw emulator s n with ⟨t,raw⟩
    have onward := playRaw_onward emulator s n
    rw [played] at onward
    rw [play_going going played]
    exact ⟨rfl,onward.sampleRate⟩

/-- The position of a time in milliseconds, read back: rounded down to the one before where
the rate does not divide evenly. -/
theorem tell_samplesAt {s : MusicEmu Core} {msec : Nat} (slow : 1000 ≤ s.sampleRate)
    (fast : s.sampleRate < 2 ^ 20) (here : s.outTime = samplesAt s.sampleRate msec) :
    tell s = ((if 1000 ∣ msec % 1000 * s.sampleRate then msec else msec - 1 : Nat) : Int) := by
  have positive : 0 < s.sampleRate := by omega
  simp only [samplesAt,stereo] at here
  have below : msec % 1000 * s.sampleRate < 1000 * s.sampleRate :=
    Nat.mul_lt_mul_of_pos_right (Nat.mod_lt _ (by decide)) positive
  generalize frames : msec % 1000 * s.sampleRate / 1000 = q at here
  have fits : q < s.sampleRate := by omega
  have seconds : s.outTime / (s.sampleRate * 2) = msec / 1000 := by
    rw [here,Nat.mul_div_mul_right _ _ (by decide),Nat.add_comm,Nat.add_mul_div_right _ _ positive,
      Nat.div_eq_of_lt fits,Nat.zero_add]
  have rest : s.outTime - msec / 1000 * (s.sampleRate * 2) = q * 2 := by
    rw [here,Nat.add_mul,Nat.mul_assoc]
    omega
  have millis : q * 2 * 1000 / (s.sampleRate * 2) = q * 1000 / s.sampleRate := by
    rw [Nat.mul_right_comm,Nat.mul_div_mul_right _ _ (by decide)]
  have told : tell s = (msec / 1000 * 1000 + q * 1000 / s.sampleRate : Nat) := by
    simp only [tell,stereo,seconds,rest]
    rw [blarggLong_eq (by omega) (by omega),← millis]
    rfl
  rw [told,Int.natCast_inj]
  split
  next even =>
    have whole : q * 1000 = msec % 1000 * s.sampleRate := by omega
    rw [whole,Nat.mul_div_cancel _ positive]
    exact Nat.div_add_mod' msec 1000
  next uneven =>
    have remainder : q * 1000 < msec % 1000 * s.sampleRate := by omega
    have some_millis : 0 < msec % 1000 := Nat.pos_of_ne_zero fun zero => by simp [zero] at uneven
    have last : q * 1000 / s.sampleRate = msec % 1000 - 1 := by
      refine Nat.div_eq_of_lt_le ?_ ?_
      · rw [Nat.sub_one_mul]
        omega
      · rwa [Nat.sub_add_cancel some_millis]
    rw [last]
    omega

theorem reads_time {reads : Nat} {b after : Backend Core} {s : MusicEmu Core} (loaded : b.emu = some s)
    (read : Run.exec (step emulator) b (List.replicate reads .readNextSamples) = some after) :
    ∃ t, after.emu = some t ∧ t.outTime = s.outTime + reads * b.bufferSize := by
  induction reads generalizing b s with
  | zero =>
    cases read
    exact ⟨s,loaded,by simp⟩
  | succ reads ih =>
    rw [List.replicate_succ] at read
    obtain ⟨middle,taken,rest⟩ := Run.exec_cons.mp read
    obtain ⟨performed,_⟩ := step_perform taken
    simp only [perform,readNextSamples,loaded,Option.some.injEq] at performed
    subst performed
    obtain ⟨t,last,later⟩ := ih rfl rest
    refine ⟨t,last,later.trans ?_⟩
    rw [(play_time emulator s b.bufferSize).1,Nat.succ_mul]
    dsimp only
    omega

/-- After any use of the backend and a seek that succeeds, to a time whose position fits 32 bits, the
player is as many samples past that position as were read since, and right after the seek it reports the
time sought, or the millisecond before where the rate does not divide evenly. -/
theorem position_after_seek {commands : List (Command Core)} {b after : Backend Core} {s t : MusicEmu Core}
    (ran : run emulator commands = some b) (loaded : b.emu = some s) (slow : 1000 ≤ s.sampleRate)
    (fast : s.sampleRate < 2 ^ 20) {timeInMs reads : Nat}
    (near : samplesAt s.sampleRate timeInMs < 2147483648) (sought : gmeSeek emulator s timeInMs = some (t,none))
    (read : Run.exec (step emulator) b (.seek timeInMs :: List.replicate reads .readNextSamples) =
      some after) :
    (∃ u, after.emu = some u ∧
      u.outTime = samplesAt s.sampleRate timeInMs + reads * b.bufferSize) ∧
    (reads = 0 → getMillisPlayed after =
      ((if 1000 ∣ timeInMs % 1000 * s.sampleRate then timeInMs else timeInMs - 1 : Nat) : Int)) := by
  obtain ⟨time,same⟩ := seek_time (run_fine ran s loaded) slow near sought
  obtain ⟨still,rated⟩ := gmeSetFade_keeps t b.fadeTimeMs
  obtain ⟨middle,taken,rest⟩ := Run.exec_cons.mp read
  obtain ⟨performed,_⟩ := step_perform taken
  simp only [perform,loaded,sought,Option.map_some,Option.some.injEq] at performed
  subst performed
  constructor
  · obtain ⟨u,last,later⟩ := reads_time rfl rest
    exact ⟨u,last,by rw [later,still,time]⟩
  · rintro rfl
    cases rest
    simp only [getMillisPlayed]
    have rates := rated.trans same
    rw [← rates]
    apply tell_samplesAt
    · rwa [rates]
    · rwa [rates]
    · rw [rates,still,time]

theorem toneRun_seeks : ∃ b s t after, run tone toneRun = some b ∧ b.emu = some s ∧
    s.sampleRate = 1000 ∧ gmeSeek tone s (5 : Nat) = some (t,none) ∧
    Run.exec (step tone) b (.seek (5 : Nat) :: List.replicate 2 .readNextSamples) = some after := by
  have facts : ((run tone toneRun).bind fun b => b.emu.bind fun s => (gmeSeek tone s (5 : Nat)).bind
      fun sought => (Run.exec (step tone) b (.seek (5 : Nat) :: List.replicate 2 .readNextSamples)).map
        fun _ => (s.sampleRate,sought.2)) = some (1000,none) := by
    decide +kernel
  obtain ⟨b,ran,held⟩ := Option.bind_eq_some_iff.mp facts
  obtain ⟨s,loaded,held⟩ := Option.bind_eq_some_iff.mp held
  obtain ⟨⟨t,err⟩,sought,held⟩ := Option.bind_eq_some_iff.mp held
  obtain ⟨after,read,values⟩ := Option.map_eq_some_iff.mp held
  simp only [Prod.mk.injEq] at values
  obtain ⟨rate,rfl⟩ := values
  exact ⟨b,s,t,after,ran,loaded,rate,sought,read⟩

theorem position_after_seek_tone : ∃ b s t after, run tone toneRun = some b ∧ b.emu = some s ∧
    gmeSeek tone s (5 : Nat) = some (t,none) ∧
    Run.exec (step tone) b (.seek (5 : Nat) :: List.replicate 2 .readNextSamples) = some after ∧
    (∃ u, after.emu = some u ∧ u.outTime = samplesAt s.sampleRate 5 + 2 * b.bufferSize) := by
  obtain ⟨b,s,t,after,ran,loaded,rate,sought,read⟩ := toneRun_seeks
  have near : samplesAt s.sampleRate 5 < 2147483648 := by
    rw [rate]
    decide
  exact ⟨b,s,t,after,ran,loaded,sought,read,
    (position_after_seek ran loaded (by omega) (by omega) near sought read).1⟩

end Chipbox.Gme
