import Chipbox.Gme.MusicEmu
import Mathlib.Data.List.GetD
import Mathlib.Data.List.Infix
import Mathlib.Tactic.Common

/-! The silence look-ahead of the GME player against the samples that its emulator generates.
The search for silence takes the first sample of a call for a sentinel and never tests it. -/
namespace Chipbox.Gme

variable {Core : Type} {emulator : Emulator Core}

theorem scanBack_le (samples : List Int) (p : Nat) : scanBack samples p ≤ p := by
  fun_induction scanBack samples p with
  | case1 => exact Nat.le_refl _
  | case2 => exact Nat.zero_le _
  | case3 p quiet ih => omega
  | case4 p loud => omega

theorem scanBack_quiet (samples : List Int) (p j : Nat) (after : scanBack samples p < j)
    (before : j < p) : Quiet (samples.getD j 0) := by
  fun_induction scanBack samples p with
  | case1 => omega
  | case2 => omega
  | case3 p quiet ih =>
    rcases Nat.lt_or_ge j (p + 1) with inside | last
    · exact ih after inside
    · rw [show j = p + 1 by omega]
      exact quiet
  | case4 p loud => omega

theorem countSilence_le (samples : List Int) : countSilence samples ≤ samples.length :=
  Nat.sub_le _ _

/-- The samples of a run of silence are quiet, but for the one it begins with. -/
theorem countSilence_quiet {samples : List Int} {j : Nat} {sample : Int}
    (listed : samples[j]? = some sample) (inside : samples.length < j + countSilence samples) :
    Quiet sample := by
  obtain ⟨bound,rfl⟩ := List.getElem?_eq_some_iff.mp listed
  have back := scanBack_le samples samples.length
  have quiet := scanBack_quiet samples samples.length j
    (by unfold countSilence at inside; omega) bound
  rwa [List.getD_eq_getElem _ _ bound] at quiet

def Hushed (s : MusicEmu Core) (i : Nat) : Prop :=
  ∃ sample, s.generated[i]? = some sample ∧ (Quiet sample ∨ i ∈ s.starts)

/-- What comes out at a position is the sample generated for it, or a zero in place of one
taken for silence. -/
def Heard (s : MusicEmu Core) (i : Nat) (sample : Int) : Prop :=
  s.generated[i]? = some sample ∨ (sample = 0 ∧ Hushed s i)

/-- The emulator goes on: it only adds to what it has generated, and the controls of the
player stay. -/
structure Onward (s t : MusicEmu Core) : Prop where
  generated : s.generated <+: t.generated
  starts : s.starts ⊆ t.starts
  outTime : t.outTime = s.outTime
  sampleRate : t.sampleRate = s.sampleRate
  ignoreSilence : t.ignoreSilence = s.ignoreSilence
  fadeStart : t.fadeStart = s.fadeStart
  fadeStep : t.fadeStep = s.fadeStep
  buf : s.buf.length = bufSize → t.buf.length = bufSize

theorem Onward.refl (s : MusicEmu Core) : Onward s s :=
  ⟨List.prefix_rfl,fun _ => id,rfl,rfl,rfl,rfl,rfl,id⟩

theorem Onward.trans {s t u : MusicEmu Core} (first : Onward s t) (second : Onward t u) :
    Onward s u where
  generated := first.generated.trans second.generated
  starts := fun _ member => second.starts (first.starts member)
  outTime := second.outTime.trans first.outTime
  sampleRate := second.sampleRate.trans first.sampleRate
  ignoreSilence := second.ignoreSilence.trans first.ignoreSilence
  fadeStart := second.fadeStart.trans first.fadeStart
  fadeStep := second.fadeStep.trans first.fadeStep
  buf := fun full => second.buf (first.buf full)

theorem Onward.getElem? {s t : MusicEmu Core} (onward : Onward s t) {i : Nat} {sample : Int}
    (listed : s.generated[i]? = some sample) : t.generated[i]? = some sample := by
  obtain ⟨more,equal⟩ := onward.generated
  rw [← equal]
  obtain ⟨bound,_⟩ := List.getElem?_eq_some_iff.mp listed
  rw [List.getElem?_append_left bound]
  exact listed

theorem Hushed.onward {s t : MusicEmu Core} {i : Nat} (hushed : Hushed s i) (onward : Onward s t) :
    Hushed t i := by
  obtain ⟨sample,listed,reason⟩ := hushed
  exact ⟨sample,onward.getElem? listed,reason.imp_right fun member => onward.starts member⟩

theorem Heard.onward {s t : MusicEmu Core} {i : Nat} {sample : Int} (heard : Heard s i sample)
    (onward : Onward s t) : Heard t i sample := by
  rcases heard with same | ⟨zero,hushed⟩
  · exact .inl (onward.getElem? same)
  · exact .inr ⟨zero,hushed.onward onward⟩

/-- What the player holds when it next gives out the sample of a time: silence still owed for
generated samples it may take for silence, then the end of its buffer, and no more. -/
structure AheadAt (time : Nat) (s : MusicEmu Core) : Prop where
  buf : s.buf.length = bufSize
  remain : s.bufRemain ≤ bufSize
  emuTime : s.emuTime = time + s.silenceCount + s.bufRemain
  length : s.generated.length = s.emuTime
  tail : s.generated.drop (time + s.silenceCount) = s.buf.drop (bufTail s.bufRemain)
  hushed : ∀ i, time ≤ i → i < time + s.silenceCount → Hushed s i
  near : s.bufRemain ≠ 0 → s.emuTime ≤ s.silenceTime + bufSize

theorem emuPlay_cases (emulator : Emulator Core) (s : MusicEmu Core) (count : Nat) :
    ∃ core ended warning starts samples,
      emuPlay emulator s count = ({ s with
        core := core, emuTrackEnded := ended, warning := warning, emuTime := s.emuTime + count
        generated := s.generated ++ samples, starts := starts },samples) ∧
      samples.length = count ∧ s.starts ⊆ starts ∧ (s.emuTrackEnded = true → ended = true) ∧
      ∀ sample, samples[0]? = some sample → Quiet sample ∨ s.generated.length ∈ starts := by
  unfold emuPlay
  dsimp only
  split
  next playing =>
    have first : s.generated.length ∈ s.starts ++ [s.generated.length] := by simp
    simp only [callPlay]
    cases failed : (emulator.play_ s.core count).err with
    | none =>
      exact ⟨_,_,_,_,_,rfl,(emulator.play_ s.core count).filled,List.subset_append_left _ _,
        fun ended => by simp [ended],fun _ _ => .inr first⟩
    | some text =>
      exact ⟨_,_,_,_,_,rfl,(emulator.play_ s.core count).filled,List.subset_append_left _ _,
        fun _ => rfl,fun _ _ => .inr first⟩
  next finished =>
    refine ⟨_,_,_,_,_,rfl,List.length_replicate,fun _ => id,id,fun sample listed => .inl ?_⟩
    have zero := List.eq_of_mem_replicate (List.mem_of_getElem? listed)
    subst zero
    decide

theorem fillBuf_onward (s : MusicEmu Core) : Onward s (fillBuf emulator s) := by
  obtain ⟨core,ended,warning,starts,samples,played,filled,more,_⟩ :=
    emuPlay_cases emulator s bufSize
  unfold fillBuf
  rw [played]
  dsimp only
  split
  · exact ⟨List.prefix_rfl,fun _ => id,rfl,rfl,rfl,rfl,rfl,id⟩
  · split
    · exact ⟨List.prefix_append _ _,more,rfl,rfl,rfl,rfl,rfl,fun _ => filled⟩
    · exact ⟨List.prefix_append _ _,more,rfl,rfl,rfl,rfl,rfl,fun _ => filled⟩

/-- The samples of a call that the search for silence took for silence. -/
theorem hushed_appended {s t : MusicEmu Core} {samples : List Int} {i : Nat}
    (appended : t.generated = s.generated ++ samples)
    (quiet : ∀ j sample, samples[j]? = some sample → 0 < j → s.generated.length + j = i → Quiet sample)
    (first : ∀ sample, samples[0]? = some sample → Quiet sample ∨ s.generated.length ∈ t.starts)
    (after : s.generated.length ≤ i) (before : i < s.generated.length + samples.length) :
    Hushed t i := by
  obtain ⟨j,rfl⟩ := Nat.exists_eq_add_of_le after
  have bound : j < samples.length := by omega
  have listed : samples[j]? = some samples[j] := List.getElem?_eq_getElem bound
  refine ⟨samples[j],?_,?_⟩
  · rw [appended,List.getElem?_append_right after,Nat.add_sub_cancel_left]
    exact listed
  · rcases Nat.eq_zero_or_pos j with rfl | later
    · exact first _ listed
    · exact .inl (quiet j _ listed later rfl)

theorem AheadAt.drained {time : Nat} {s : MusicEmu Core} (ahead : AheadAt time s)
    (drained : s.bufRemain = 0) : s.generated.length = time + s.silenceCount := by
  rw [ahead.length,ahead.emuTime,drained,Nat.add_zero]

/-- Filling the silence buffer of a running emulator keeps what the player holds in order. -/
theorem fillBuf_ahead {time : Nat} {s : MusicEmu Core} (ahead : AheadAt time s)
    (drained : s.bufRemain = 0) (running : s.emuTrackEnded = false) :
    AheadAt time (fillBuf emulator s) := by
  obtain ⟨core,ended,warning,starts,samples,played,filled,more,_,first⟩ :=
    emuPlay_cases emulator s bufSize
  have onward : Onward s (fillBuf emulator s) := fillBuf_onward s
  have drained_length := ahead.drained drained
  have counted := countSilence_le samples
  have spent := ahead.emuTime
  have size := ahead.length
  have owed : ∀ i, time ≤ i → i < time + s.silenceCount → Hushed (fillBuf emulator s) i :=
    fun i after before => (ahead.hushed i after before).onward onward
  simp only [fillBuf,running,Bool.false_eq_true,if_false,played] at owed ⊢
  split
  next loud =>
    rw [if_pos loud] at owed
    refine ⟨filled,Nat.le_refl _,?_,?_,?_,owed,fun _ => ?_⟩
    · dsimp only
      omega
    · simp only [List.length_append,filled,size]
    · dsimp only
      rw [← drained_length,List.drop_left,bufTail,Nat.sub_self,List.drop_zero]
    · dsimp only
      omega
  next silent =>
    rw [if_neg silent] at owed
    refine ⟨filled,by dsimp only; omega,?_,?_,?_,?_,fun held => absurd drained held⟩
    · dsimp only
      omega
    · simp only [List.length_append,filled,size]
    · have none_owed : (s.generated ++ samples).drop (time + (s.silenceCount + bufSize)) = [] :=
        List.drop_eq_nil_of_le (by rw [List.length_append,filled,drained_length,Nat.add_assoc])
      have none_left : samples.drop bufSize = [] := List.drop_eq_nil_of_le (by omega)
      dsimp only
      rw [drained,bufTail,Nat.sub_zero,none_owed,none_left]
    · intro i after before
      dsimp only at before
      rcases Nat.lt_or_ge i (time + s.silenceCount) with old | new
      · exact owed i after old
      · refine hushed_appended (s := s) rfl ?_ first (by omega) (by omega)
        intro j sample listed later _
        exact countSilence_quiet listed (by omega)

theorem aheadLoop_ahead {time : Nat} {aheadTime : Int} {turns : Nat} {s : MusicEmu Core}
    (ahead : AheadAt time s) : AheadAt time (aheadLoop emulator aheadTime turns s) := by
  induction turns generalizing s with
  | zero => exact ahead
  | succ turns ih =>
    unfold aheadLoop
    split
    next turn =>
      have drained : s.bufRemain = 0 := by tauto
      have running : s.emuTrackEnded = false := by simpa using fun ended => turn.2 (.inr ended)
      exact ih (fillBuf_ahead ahead drained running)
    next done => exact ahead

theorem aheadLoop_onward {aheadTime : Int} {turns : Nat} {s : MusicEmu Core} :
    Onward s (aheadLoop emulator aheadTime turns s) := by
  induction turns generalizing s with
  | zero => exact .refl s
  | succ turns ih =>
    unfold aheadLoop
    split
    · exact (fillBuf_onward s).trans ih
    · exact .refl s

def GivesOut (s : MusicEmu Core) (time : Nat) (out : List Int) : Prop :=
  ∀ i sample, out[i]? = some sample → Heard s (time + i) sample

theorem GivesOut.nil (s : MusicEmu Core) (time : Nat) : GivesOut s time [] := by
  intro i sample listed
  simp at listed

theorem GivesOut.onward {s t : MusicEmu Core} {time : Nat} {out : List Int}
    (gives : GivesOut s time out) (onward : Onward s t) : GivesOut t time out :=
  fun i sample listed => (gives i sample listed).onward onward

theorem GivesOut.append {s : MusicEmu Core} {time : Nat} {first second : List Int}
    (early : GivesOut s time first) (late : GivesOut s (time + first.length) second) :
    GivesOut s time (first ++ second) := by
  intro i sample listed
  rcases Nat.lt_or_ge i first.length with inside | after
  · rw [List.getElem?_append_left inside] at listed
    exact early i sample listed
  · rw [List.getElem?_append_right after] at listed
    have heard := late _ sample listed
    rwa [Nat.add_assoc,Nat.add_sub_cancel' after] at heard

theorem GivesOut.of_generated {s : MusicEmu Core} {time : Nat} {out : List Int}
    (same : out <+: s.generated.drop time) : GivesOut s time out := by
  intro i sample listed
  refine .inl ?_
  obtain ⟨more,equal⟩ := same
  obtain ⟨bound,_⟩ := List.getElem?_eq_some_iff.mp listed
  rw [← List.getElem?_drop,← equal,List.getElem?_append_left bound]
  exact listed

theorem AheadAt.silence {time pos : Nat} {s : MusicEmu Core} (ahead : AheadAt time s)
    (owed : pos ≤ s.silenceCount) : GivesOut s time (List.replicate pos 0) ∧
      AheadAt (time + pos) { s with silenceCount := s.silenceCount - pos } := by
  constructor
  · intro i sample listed
    obtain ⟨bound,_⟩ := List.getElem?_eq_some_iff.mp listed
    have zero := List.eq_of_mem_replicate (List.mem_of_getElem? listed)
    rw [List.length_replicate] at bound
    exact .inr ⟨zero,ahead.hushed _ (by omega) (by omega)⟩
  · have together : time + pos + (s.silenceCount - pos) = time + s.silenceCount := by omega
    refine ⟨ahead.buf,ahead.remain,?_,ahead.length,?_,fun i after before => ?_,ahead.near⟩
    · dsimp only
      rw [together]
      exact ahead.emuTime
    · dsimp only
      rw [together]
      exact ahead.tail
    · dsimp only at before
      exact ahead.hushed i (by omega) (by omega)

/-- What the part of `play` that owes silence leaves, with the six-second limit and without. -/
theorem playSilence_cases {n : Nat} {s t : MusicEmu Core} {out : List Int}
    (played : playSilence emulator s n = (t,out)) :
    (s.silenceCount = 0 ∧ t = s ∧ out = []) ∨
    ∃ middle pos, middle = lookAhead emulator s n ∧ pos = min middle.silenceCount n ∧
      out = List.replicate pos 0 ∧
      (((silenceMax * stereo * s.sampleRate : Nat) < (middle.emuTime : Int) - middle.silenceTime ∧
          t = { middle with
            trackEnded := true, emuTrackEnded := true, silenceCount := 0, bufRemain := 0 }) ∨
        t = { middle with silenceCount := middle.silenceCount - pos }) := by
  unfold playSilence at played
  split at played
  next owed =>
    refine .inr ⟨_,_,rfl,rfl,?_⟩
    have rate : (lookAhead emulator s n).sampleRate = s.sampleRate := aheadLoop_onward.sampleRate
    dsimp only at played
    split at played
    next long =>
      cases played
      rw [rate] at long
      exact ⟨rfl,.inl ⟨long,rfl⟩⟩
    next going =>
      cases played
      exact ⟨rfl,.inr rfl⟩
  next none_owed =>
    cases played
    exact .inl ⟨not_not.mp none_owed,rfl,rfl⟩

theorem playSilence_onward {n : Nat} {s t : MusicEmu Core} {out : List Int}
    (played : playSilence emulator s n = (t,out)) : Onward s t := by
  rcases playSilence_cases played with ⟨_,rfl,_⟩ | ⟨middle,pos,looked,_,_,⟨_,rfl⟩ | rfl⟩
  · exact .refl _
  all_goals
    have onward : Onward s middle := by rw [looked]; exact aheadLoop_onward
    exact ⟨onward.generated,onward.starts,onward.outTime,onward.sampleRate,onward.ignoreSilence,
      onward.fadeStart,onward.fadeStep,onward.buf⟩

/-- The silence that a read gives out, and what the player holds after it. Where six seconds of
silence end the track, either the read is satisfied or nothing was held besides. -/
theorem playSilence_gives {time n : Nat} {s t : MusicEmu Core} {out : List Int}
    (ahead : AheadAt time s) (rate : bufSize ≤ silenceMax * stereo * s.sampleRate)
    (played : playSilence emulator s n = (t,out)) :
    GivesOut t time out ∧ out.length ≤ n ∧ (out.length < n → t.silenceCount = 0) ∧
      (AheadAt (time + out.length) t ∨
        (t.trackEnded = true ∧ out.length = n ∧ t.bufRemain = 0)) := by
  rcases playSilence_cases played with ⟨none_owed,rfl,rfl⟩ | ⟨middle,pos,looked,taken,rfl,ended⟩
  · exact ⟨.nil _ time,Nat.zero_le _,fun _ => none_owed,.inl ahead⟩
  · have held : AheadAt time middle := by rw [looked]; exact aheadLoop_ahead ahead
    obtain ⟨gives,later⟩ := held.silence (show pos ≤ middle.silenceCount by omega)
    rw [List.length_replicate]
    rcases ended with ⟨long,rfl⟩ | rfl
    · have drained : middle.bufRemain = 0 := by
        by_contra holding
        have near := held.near holding
        omega
      refine ⟨gives,by omega,fun _ => rfl,?_⟩
      rcases Nat.lt_or_ge pos n with short | enough
      · have all : middle.silenceCount - pos = 0 := by omega
        rw [all] at later
        exact .inl ⟨later.buf,Nat.zero_le _,by rw [later.emuTime,drained],later.length,
          by rw [later.tail,drained],later.hushed,fun holding => absurd rfl holding⟩
      · exact .inr ⟨rfl,by omega,rfl⟩
    · exact ⟨gives,by omega,by dsimp only; omega,.inl later⟩

theorem playBuf_onward (s : MusicEmu Core) (wanted : Nat) : Onward s (playBuf s wanted).1 :=
  ⟨List.prefix_rfl,fun _ => id,rfl,rfl,rfl,rfl,rfl,id⟩

theorem playBuf_gives {time wanted : Nat} {s t : MusicEmu Core} {out : List Int}
    (ahead : AheadAt time s) (owed : 0 < wanted → s.silenceCount = 0)
    (played : playBuf s wanted = (t,out)) :
    GivesOut t time out ∧ out.length = min s.bufRemain wanted ∧
      t.silenceCount = s.silenceCount ∧ t.trackEnded = s.trackEnded ∧
      t.bufRemain = s.bufRemain - min s.bufRemain wanted ∧ AheadAt (time + out.length) t := by
  cases played
  have held := ahead.remain
  have spent := ahead.emuTime
  have size : ((s.buf.drop (bufTail s.bufRemain)).take (min s.bufRemain wanted)).length =
      min s.bufRemain wanted := by
    rw [List.length_take,List.length_drop,ahead.buf]
    unfold bufTail
    omega
  refine ⟨?_,size,rfl,rfl,rfl,?_⟩
  · rcases Nat.eq_zero_or_pos wanted with rfl | some_wanted
    · rw [Nat.min_zero,List.take_zero]
      exact .nil _ time
    · apply GivesOut.of_generated
      have tail := ahead.tail
      rw [owed some_wanted,Nat.add_zero] at tail
      dsimp only
      rw [tail]
      exact List.take_prefix _ _
  · rw [size]
    rcases Nat.eq_zero_or_pos wanted with rfl | some_wanted
    · simpa using ahead
    · have none_owed := owed some_wanted
      have tail := ahead.tail
      rw [none_owed,Nat.add_zero] at tail spent
      have rest : bufTail (s.bufRemain - min s.bufRemain wanted) =
          bufTail s.bufRemain + min s.bufRemain wanted := by
        unfold bufTail
        omega
      refine ⟨ahead.buf,by dsimp only; omega,by dsimp only; omega,ahead.length,?_,?_,?_⟩
      · dsimp only
        rw [none_owed,Nat.add_zero,rest,← List.drop_drop,← List.drop_drop,tail]
      · dsimp only
        intro i after before
        omega
      · dsimp only
        intro holding
        exact ahead.near (by omega)

theorem searchSilence_cases (emulator : Emulator Core) (s : MusicEmu Core) (samples : List Int)
    (remain : Nat) :
    ∃ silenceTime, searchSilence emulator s samples remain = { s with silenceTime := silenceTime } ∨
      searchSilence emulator s samples remain =
        fillBuf emulator { s with silenceTime := silenceTime } := by
  unfold searchSilence
  dsimp only
  split
  · split <;> split
    · exact ⟨_,.inr rfl⟩
    · exact ⟨_,.inl rfl⟩
    · exact ⟨s.silenceTime,.inr rfl⟩
    · exact ⟨s.silenceTime,.inl rfl⟩
  · exact ⟨s.silenceTime,.inl rfl⟩

theorem searchSilence_onward (emulator : Emulator Core) (s : MusicEmu Core) (samples : List Int)
    (remain : Nat) :
    Onward s (searchSilence emulator s samples remain) := by
  have marked (silenceTime : Nat) : Onward s { s with silenceTime := silenceTime } :=
    ⟨List.prefix_rfl,fun _ => id,rfl,rfl,rfl,rfl,rfl,id⟩
  obtain ⟨silenceTime,same | filled⟩ := searchSilence_cases emulator s samples remain
  · rw [same]
    exact marked silenceTime
  · rw [filled]
    exact (marked silenceTime).trans (fillBuf_onward _)

theorem searchSilence_ahead {time remain : Nat} {s : MusicEmu Core} {samples : List Int}
    (ahead : AheadAt time s) (drained : s.bufRemain = 0) (running : s.emuTrackEnded = false) :
    AheadAt time (searchSilence emulator s samples remain) := by
  have marked (silenceTime : Nat) : AheadAt time { s with silenceTime := silenceTime } :=
    ⟨ahead.buf,ahead.remain,ahead.emuTime,ahead.length,ahead.tail,ahead.hushed,
      fun holding => absurd drained holding⟩
  obtain ⟨silenceTime,same | filled⟩ := searchSilence_cases emulator s samples remain
  · rw [same]
    exact marked silenceTime
  · rw [filled]
    exact fillBuf_ahead (marked silenceTime) drained running

theorem fillBuf_trackEnded (s : MusicEmu Core) : (fillBuf emulator s).trackEnded = s.trackEnded := by
  obtain ⟨core,ended,warning,starts,samples,called,_⟩ := emuPlay_cases emulator s bufSize
  unfold fillBuf
  rw [called]
  dsimp only
  split
  · rfl
  · split <;> rfl

theorem searchSilence_trackEnded (s : MusicEmu Core) (samples : List Int) (remain : Nat) :
    (searchSilence emulator s samples remain).trackEnded = s.trackEnded := by
  obtain ⟨silenceTime,same | filled⟩ := searchSilence_cases emulator s samples remain
  · rw [same]
  · rw [filled,fillBuf_trackEnded]

/-- A call of the emulator for the rest of a read, then the search for silence in it. -/
theorem playRemain_cases (emulator : Emulator Core) (s : MusicEmu Core) {remain : Nat}
    (positive : 0 < remain) : ∃ core ended warning starts samples,
      playRemain emulator s remain = (searchSilence emulator { s with
        core := core, emuTrackEnded := ended, warning := warning, emuTime := s.emuTime + remain
        generated := s.generated ++ samples, starts := starts
        trackEnded := s.trackEnded || ended } samples remain,samples) ∧
      samples.length = remain ∧ s.starts ⊆ starts ∧ (s.emuTrackEnded = true → ended = true) ∧
      ∀ sample, samples[0]? = some sample → Quiet sample ∨ s.generated.length ∈ starts := by
  obtain ⟨core,ended,warning,starts,samples,called,facts⟩ := emuPlay_cases emulator s remain
  refine ⟨core,ended,warning,starts,samples,?_,facts⟩
  simp only [playRemain,called,Nat.ne_of_gt positive,ne_eq,not_false_eq_true,if_true]

@[simp] theorem playRemain_zero (s : MusicEmu Core) : playRemain emulator s 0 = (s,[]) := by
  simp [playRemain]

theorem playRemain_onward (emulator : Emulator Core) (s : MusicEmu Core) (remain : Nat) :
    Onward s (playRemain emulator s remain).1 := by
  rcases Nat.eq_zero_or_pos remain with rfl | positive
  · rw [playRemain_zero]
    exact .refl s
  · obtain ⟨core,ended,warning,starts,samples,called,_,more,_⟩ := playRemain_cases emulator s positive
    rw [called]
    refine Onward.trans ?_ (searchSilence_onward emulator _ samples remain)
    exact ⟨List.prefix_append _ _,more,rfl,rfl,rfl,rfl,rfl,id⟩

/-- What is left of a read comes from the emulator, and the search for silence after it keeps
what the player holds in order. -/
theorem playRemain_gives {time remain : Nat} {s t : MusicEmu Core} {out : List Int}
    (ahead : 0 < remain → AheadAt time s ∧ s.silenceCount = 0 ∧ s.bufRemain = 0)
    (played : playRemain emulator s remain = (t,out)) :
    GivesOut t time out ∧ out.length = remain ∧
      (0 < remain → t.trackEnded = false → AheadAt (time + remain) t) := by
  rcases Nat.eq_zero_or_pos remain with rfl | positive
  · rw [playRemain_zero] at played
    cases played
    exact ⟨.nil _ time,rfl,fun some_left => absurd some_left (Nat.lt_irrefl 0)⟩
  · obtain ⟨held,none_owed,drained⟩ := ahead positive
    obtain ⟨core,ended,warning,starts,samples,called,filled,_⟩ := playRemain_cases emulator s positive
    have spent := held.emuTime
    have size := held.length
    rw [none_owed,drained,Nat.add_zero] at spent
    rw [called] at played
    obtain ⟨rfl,rfl⟩ := Prod.mk.inj played
    refine ⟨?_,filled,fun _ going => ?_⟩
    · refine GivesOut.onward (GivesOut.of_generated ?_) (searchSilence_onward emulator _ _ _)
      dsimp only
      rw [← spent,← size,List.drop_left]
    · rw [searchSilence_trackEnded] at going
      have running : ended = false := (Bool.or_eq_false_iff.mp going).2
      refine searchSilence_ahead ⟨held.buf,held.remain,?_,?_,?_,?_,?_⟩ drained running
      · dsimp only
        omega
      · simp only [List.length_append,filled,size]
      · dsimp only
        rw [none_owed,drained,bufTail,Nat.sub_zero,List.drop_eq_nil_of_le,List.drop_eq_nil_of_le]
        · exact held.buf.le
        · rw [List.length_append,filled]
          omega
      · dsimp only
        intro i after before
        omega
      · exact fun holding => absurd drained holding

@[simp] theorem playBuf_zero (s : MusicEmu Core) : playBuf s 0 = (s,[]) := by
  simp [playBuf]

theorem playRaw_onward (emulator : Emulator Core) (s : MusicEmu Core) (outCount : Nat) :
    Onward s (playRaw emulator s outCount).1 := by
  unfold playRaw
  rcases silence : playSilence emulator s outCount with ⟨first,zeros⟩
  have early := playSilence_onward silence
  exact (early.trans (playBuf_onward first _)).trans (playRemain_onward emulator _ _)

/-- A read before its fade gives out as many samples as asked for, and each is heard. -/
theorem playRaw_gives {n : Nat} {s t : MusicEmu Core} {out : List Int}
    (ahead : AheadAt s.outTime s) (rate : bufSize ≤ silenceMax * stereo * s.sampleRate)
    (played : playRaw emulator s n = (t,out)) :
    GivesOut t s.outTime out ∧ out.length = n ∧
      (t.trackEnded = false → AheadAt (s.outTime + n) t) := by
  unfold playRaw at played
  rcases silence : playSilence emulator s n with ⟨first,zeros⟩
  rcases buffered : playBuf first (n - zeros.length) with ⟨second,kept⟩
  rcases remained : playRemain emulator second (n - zeros.length - kept.length) with ⟨third,rest⟩
  simp only [silence,buffered,remained,Prod.mk.injEq] at played
  obtain ⟨rfl,rfl⟩ := played
  obtain ⟨first_gives,short,owed,held | ⟨finished,whole,_⟩⟩ := playSilence_gives ahead rate silence
  · obtain ⟨second_gives,size,none_owed,ended,left_over,second_held⟩ :=
      playBuf_gives held (fun wanted => owed (by omega)) buffered
    obtain ⟨third_gives,filled,third_held⟩ := playRemain_gives (fun some_left =>
      ⟨second_held,by rw [none_owed]; exact owed (by omega),by omega⟩) remained
    have second_on : Onward first second := by
      have onward := playBuf_onward first (n - zeros.length)
      rwa [buffered] at onward
    have third_on : Onward second third := by
      have onward := playRemain_onward emulator second (n - zeros.length - kept.length)
      rwa [remained] at onward
    have before := (first_gives.onward second_on).append second_gives
    have total : (zeros ++ kept ++ rest).length = n := by
      simp only [List.length_append]
      omega
    refine ⟨?_,total,fun going => ?_⟩
    · apply (before.onward third_on).append
      rw [List.length_append,← Nat.add_assoc]
      exact third_gives
    · rcases Nat.eq_zero_or_pos (n - zeros.length - kept.length) with none_left | some_left
      · rw [none_left,playRemain_zero] at remained
        cases remained
        rwa [show s.outTime + zeros.length + kept.length = s.outTime + n by omega] at second_held
      · have last := third_held some_left going
        rwa [show s.outTime + zeros.length + kept.length + (n - zeros.length - kept.length) =
          s.outTime + n by omega] at last
  · rw [whole,Nat.sub_self,playBuf_zero] at buffered
    cases buffered
    rw [whole,Nat.sub_self,Nat.zero_sub,playRemain_zero] at remained
    cases remained
    simp only [List.append_nil]
    exact ⟨first_gives,whole,fun going => by simp [finished] at going⟩

def faded (s : MusicEmu Core) (out : List Int) : List Int :=
  if s.fadeStart < s.outTime then (handleFade s out).2 else out

def fadesOut (s : MusicEmu Core) (out : List Int) : Bool :=
  decide (s.fadeStart < s.outTime) &&
    (fadeLoop s ((out.length + (fadeBlockSize - 1)) / fadeBlockSize) 0 out).1

theorem fadeGain_onward {s t : MusicEmu Core} (onward : Onward s t) (i : Nat) :
    fadeGain t i = fadeGain s i := by
  simp only [fadeGain,onward.outTime,onward.fadeStart,onward.fadeStep]

theorem fadeLoop_onward {s t : MusicEmu Core} (onward : Onward s t) (blocks i : Nat)
    (io : List Int) : fadeLoop t blocks i io = fadeLoop s blocks i io := by
  induction blocks generalizing i io with
  | zero => rfl
  | succ blocks ih => simp only [fadeLoop,fadeGain_onward onward,ih]

theorem faded_onward {s t : MusicEmu Core} (onward : Onward s t) (out : List Int) :
    faded t out = faded s out := by
  simp only [faded,handleFade,fadeLoop_onward onward,onward.outTime,onward.fadeStart]

theorem fadesOut_onward {s t : MusicEmu Core} (onward : Onward s t) (out : List Int) :
    fadesOut t out = fadesOut s out := by
  simp only [fadesOut,fadeLoop_onward onward,onward.outTime,onward.fadeStart]

/-- A read of a track that goes on: the samples before the fade, then the fade. -/
theorem play_going {n : Nat} {s t : MusicEmu Core} {raw : List Int} (going : s.trackEnded = false)
    (played : playRaw emulator s n = (t,raw)) :
    play emulator s n = ({ t with
        trackEnded := t.trackEnded || fadesOut s raw
        emuTrackEnded := t.emuTrackEnded || fadesOut s raw, outTime := s.outTime + n },
      faded s raw) := by
  have onward : Onward s t := by
    have whole := playRaw_onward emulator s n
    rwa [played] at whole
  rw [← faded_onward onward,← fadesOut_onward onward,← onward.outTime]
  simp only [play,going,Bool.false_eq_true,if_false,played,faded,fadesOut]
  split
  next fading =>
    simp only [handleFade,fading,decide_true,Bool.true_and]
    split
    next finished => simp [finished]
    next goes_on => simp [goes_on]
  next clear => simp [clear]

theorem AheadAt.marked {time : Nat} {s : MusicEmu Core} (ahead : AheadAt time s)
    (trackEnded emuTrackEnded : Bool) (outTime : Nat) : AheadAt time { s with
      trackEnded := trackEnded, emuTrackEnded := emuTrackEnded, outTime := outTime } :=
  ⟨ahead.buf,ahead.remain,ahead.emuTime,ahead.length,ahead.tail,ahead.hushed,ahead.near⟩

/-- The sample rate is not so low that the silence buffer holds six seconds. -/
def RateFits (s : MusicEmu Core) : Prop := bufSize ≤ silenceMax * stereo * s.sampleRate

/-- A player whose track has ended, or which holds in order what it owes. -/
structure InOrder (s : MusicEmu Core) : Prop where
  buf : s.buf.length = bufSize
  ignoreSilence : s.ignoreSilence = false
  ahead : RateFits s → s.trackEnded = false → AheadAt s.outTime s

theorem play_order (emulator : Emulator Core) {s : MusicEmu Core} (order : InOrder s) (n : Nat) :
    InOrder (play emulator s n).1 := by
  cases going : s.trackEnded with
  | true =>
    simp only [play,going,if_true]
    exact ⟨order.buf,order.ignoreSilence,fun _ again => by simp at again⟩
  | false =>
    rcases played : playRaw emulator s n with ⟨t,raw⟩
    have onward : Onward s t := by
      have whole := playRaw_onward emulator s n
      rwa [played] at whole
    rw [play_going going played]
    refine ⟨onward.buf order.buf,onward.ignoreSilence.trans order.ignoreSilence,fun rate goes_on => ?_⟩
    have fits : RateFits s := by
      unfold RateFits at rate ⊢
      rwa [← onward.sampleRate]
    obtain ⟨_,_,later⟩ := playRaw_gives (order.ahead fits going) fits played
    exact (later (Bool.or_eq_false_iff.mp goes_on).1).marked _ _ _

end Chipbox.Gme
