import Chipbox.Native.Vgm
import Mathlib.Algebra.Order.BigOperators.Group.List
import Mathlib.Data.List.Infix
import Mathlib.Logic.Function.Basic

/-! The voices of the VGM backend: one flat number for each channel of each active chip. -/
namespace Chipbox.Native

def chipCount : Nat := 0x29

def allowBit31 : Nat → Bool
  | 0x00 | 0x01 | 0x08 | 0x09 | 0x10 | 0x14 | 0x16 | 0x18 | 0x19 | 0x25 | 0x27 => true
  | _ => false

/-- `lngHz` gives the clock field of the header for each chip. -/
def getChipClock (lngHz : Nat → BitVec 32) (chip : Nat) : BitVec 32 :=
  if allowBit31 chip then lngHz chip &&& 0xBFFFFFFF#32 else lngHz chip &&& 0x3FFFFFFF#32

/-- `ChipCnt` of `Chips_GeneralActions`: bit 30 of the clock field starts the chip in both sets, but for
the RF5C68, the RF5C164 and the PWM. -/
def chipCnt (lngHz : Nat → BitVec 32) (chip : Nat) : Nat :=
  match chip with
  | 0x05 | 0x10 | 0x11 => 1
  | chip => if lngHz chip &&& 0x40000000#32 ≠ 0 then 2 else 1

theorem chipCnt_cases (lngHz : Nat → BitVec 32) (chip : Nat) : chipCnt lngHz chip = 1 ∨ chipCnt lngHz chip = 2 := by
  unfold chipCnt
  split
  · exact Or.inl rfl
  · exact Or.inl rfl
  · exact Or.inl rfl
  · split
    · exact Or.inr rfl
    · exact Or.inl rfl

def getChipName (chip : Nat) : Option String :=
  ["SN76496","YM2413","YM2612","YM2151","SegaPCM","RF5C68","YM2203","YM2608",
   "YM2610","YM3812","YM3526","Y8950","YMF262","YMF278B","YMF271","YMZ280B",
   "RF5C164","PWM","AY8910","GameBoy","NES APU","MultiPCM","uPD7759","OKIM6258",
   "OKIM6295","K051649","K054539","HuC6280","C140","K053260","Pokey","QSound",
   "SCSP","WSwan","VSU","SAA1099","ES5503","ES5506","X1-010","C352","GA20"][chip]?

def getAccurateChipName (chip : Nat) : Option String :=
  match chip with
  | 0x00 => some "SN76496"
  | 0x04 => some "Sega PCM"
  | 0x08 => some "YM2610"
  | 0x12 => some "AY-3-8910"
  | 0x13 => some "GB DMG"
  | 0x14 => some "NES APU"
  | 0x19 => some "K051649"
  | 0x1C => some "C140"
  | 0x21 => some "WonderSwan"
  | 0x22 => some "VSU-VUE"
  | 0x25 => some "ES5505"
  | 0x28 => some "Irem GA20"
  | chip => getChipName chip

/-- The fields of `CHIP_OPTS` that have to do with muting. -/
structure ChipOptions where
  disabled : Bool
  chnMute1 : BitVec 32
  chnMute2 : BitVec 32
  chnMute3 : BitVec 32
  deriving DecidableEq, Repr

/-- What `VGMPlay_Init` makes of the options of a chip. -/
def ChipOptions.initial : ChipOptions := ⟨false,0,0,0⟩

namespace Vgm

def activeChips (lngHz : Nat → BitVec 32) : List Nat :=
  (List.range chipCount).filter fun chip => 0 < getChipClock lngHz chip

def getVoiceCount (chips : List Nat) : Int := (chips.map getChannelCountForChipId).sum

def voiceName (chip : Nat) (channel : Int) : Option String :=
  if getChannelCountForChipId chip > 1 then
    (getAccurateChipName chip).map fun name => name ++ " Voice " ++ toString (channel + 1)
  else getAccurateChipName chip

def getVoiceName : List Nat → Int → Option String
  | [],_ => none
  | chip::rest,channel =>
    if channel ≥ getChannelCountForChipId chip then
      getVoiceName rest (channel - getChannelCountForChipId chip)
    else voiceName chip channel

/-- `mask &= ~(1 << channel); mask |= (muted << channel)` -/
def setBit (mask : BitVec 32) (channel : Nat) (muted : Bool) : BitVec 32 :=
  (mask &&& ~~~(1#32 <<< channel)) ||| ((BitVec.ofBool muted).zeroExtend 32 <<< channel)

def specialModes : Nat → Nat
  | 0x06 => 2
  | 0x07 | 0x08 => 3
  | _ => 0

def setMutingData (chip : Nat) (options : ChipOptions) (channel : Nat) (muted : Bool) : ChipOptions :=
  if chip = 0x11 ∨ chip = 0x16 ∨ chip = 0x17 then {options with disabled := muted}
  else
    let currentMode :=
      if specialModes chip = 0 then (if chip = 0x0D then 1 else 0) else channel / 8
    let currentChannel := if specialModes chip = 0 then channel else channel % 8
    match currentMode with
    | 0 => {options with chnMute1 := setBit options.chnMute1 currentChannel muted}
    | 1 => {options with chnMute2 := setBit options.chnMute2 currentChannel muted}
    | 2 => {options with chnMute3 := setBit options.chnMute3 currentChannel muted}
    | _ => options

/-- `ChipOpts`: what each set keeps for each type of chip. -/
structure Options where
  first : Nat → ChipOptions
  second : Nat → ChipOptions

-- VGMPlay_Init
def Options.initial : Options := ⟨fun _ => .initial,fun _ => .initial⟩

def Options.ofSet (options : Options) : Nat → Nat → ChipOptions
  | 0 => options.first
  | _ => options.second

theorem Options.ofSet_zero (options : Options) : options.ofSet 0 = options.first := rfl

theorem Options.ofSet_one (options : Options) : options.ofSet 1 = options.second := rfl

-- g_mute_opts_array points into ChipOpts[0] only
def Options.mute (options : Options) (chip channel : Nat) (muted : Bool) : Options :=
  {options with
    first := Function.update options.first chip (setMutingData chip (options.first chip) channel muted)}

theorem Options.mute_first (options : Options) (chip channel : Nat) (muted : Bool) :
    (options.mute chip channel muted).first =
      Function.update options.first chip (setMutingData chip (options.first chip) channel muted) :=
  rfl

def muteVoice (options : Options) : List Nat → Int → Int → Options
  | [],_,_ => options
  | chip::rest,channel,enabled =>
    if channel ≥ getChannelCountForChipId chip then
      muteVoice options rest (channel - getChannelCountForChipId chip) enabled
    else options.mute chip channel.toNat (enabled ≠ 0)

/-- What the core of a chip is told: one or two masks, and whether its stream is left out. -/
structure CoreMutes where
  mask : BitVec 32
  second : BitVec 32
  disabled : Bool
  deriving DecidableEq, Repr

/-- The muting masks of `Chips_GeneralActions`, and the flag that `FillBuffer` reads. -/
def refreshMuting (chip : Nat) (options : ChipOptions) : CoreMutes :=
  match chip with
  | 0x06 => ⟨options.chnMute1,options.chnMute3,options.disabled⟩
  | 0x07 | 0x08 =>
    ⟨((options.chnMute1 &&& 0x3F#32) <<< 0) ||| ((options.chnMute2 &&& 0x7F#32) <<< 6),
      options.chnMute3,options.disabled⟩
  | 0x0D => ⟨options.chnMute1,options.chnMute2,options.disabled⟩
  | 0x11 | 0x16 | 0x17 => ⟨0,0,options.disabled⟩
  | _ => ⟨options.chnMute1,0,options.disabled⟩

/-- A core mutes a channel: three FM and three AY8910 channels of the YM2203, six FM, six ADPCM, one
DeltaT and three AY8910 channels of the YM2608 and YM2610, the wavetable channels of the YMF278B. -/
def channelMuted (chip : Nat) (core : CoreMutes) (channel : Nat) : Bool :=
  core.disabled || match chip with
    | 0x06 => if channel < 3 then core.mask.getLsbD channel else core.second.getLsbD (channel - 3)
    | 0x07 | 0x08 =>
      if channel < 13 then core.mask.getLsbD channel else core.second.getLsbD (channel - 13)
    | 0x0D => core.second.getLsbD channel
    | _ => core.mask.getLsbD channel

def voiceAt : List Nat → Nat → Option (Nat × Nat)
  | [],_ => none
  | chip::rest,voice =>
    let count := (getChannelCountForChipId chip).toNat
    if count ≤ voice then voiceAt rest (voice - count) else some (chip,voice)

structure MuteCall where
  voice : Nat
  enabled : Int
  deriving DecidableEq, Repr

def muted (chips : List Nat) (calls : List MuteCall) : Options :=
  calls.foldl (fun options call => muteVoice options chips call.voice call.enabled) .initial

def asked (calls : List MuteCall) (voice : Nat) : Bool :=
  calls.foldl (fun before call => if call.voice = voice then call.enabled ≠ 0 else before) false

/-- The core of the set is told to mute the channel of the voice. -/
def voiceMuted (chips : List Nat) (calls : List MuteCall) (set voice : Nat) : Bool :=
  match voiceAt chips voice with
  | none => false
  | some (chip,channel) =>
    channelMuted chip (refreshMuting chip ((muted chips calls).ofSet set chip)) channel

/-- How many cores play the voice. -/
def coreCount (lngHz : Nat → BitVec 32) (chips : List Nat) (voice : Nat) : Nat :=
  match voiceAt chips voice with
  | none => 0
  | some (chip,_) => chipCnt lngHz chip

/-- In a run of calls every voice is muted in each core that plays it exactly when it was asked for, no
call touches another voice, and every voice has the name of the chip and channel that a call for it acts
on. -/
structure MutesRight (lngHz : Nat → BitVec 32) (g : VgmGlobals) (calls : List MuteCall) : Prop where
  muted : ∀ before, before <+: calls → ∀ voice : Nat, voice < g.channelCount →
    ∀ set < coreCount lngHz g.activeChipIds voice,
      voiceMuted g.activeChipIds before set voice = asked before voice
  others : ∀ before call, before ++ [call] <+: calls → ∀ voice : Nat, voice < g.channelCount →
    voice ≠ call.voice → ∀ set < coreCount lngHz g.activeChipIds voice,
      voiceMuted g.activeChipIds (before ++ [call]) set voice =
        voiceMuted g.activeChipIds before set voice
  names : ∀ voice : Nat, voice < g.channelCount → ∃ chip ∈ g.activeChipIds, ∃ channel : Nat,
    getVoiceName g.activeChipIds voice = voiceName chip channel ∧
      ∀ options enabled, muteVoice options g.activeChipIds voice enabled =
        options.mute chip channel (enabled ≠ 0)

/-- The core looks for the channel where it is stored: not so the AY8910 part of the YM2203, and the
YM2608 and YM2610 beyond their FM part. -/
def Reaches (chip channel : Nat) : Prop :=
  (chip = 0x06 → channel < 3) ∧ (chip = 0x07 ∨ chip = 0x08 → channel < 6)

instance (chip channel : Nat) : Decidable (Reaches chip channel) := by
  unfold Reaches
  infer_instance

/-- The voice has one core, which looks for it where it is stored. -/
def Lands (lngHz : Nat → BitVec 32) (chips : List Nat) (voice : Nat) : Prop :=
  ∀ chip channel, voiceAt chips voice = some (chip,channel) →
    Reaches chip channel ∧ chipCnt lngHz chip = 1

section Chip
variable {options : ChipOptions} {chip channel : Nat}

theorem getChannelCountForChipId_le (chip : Nat) : getChannelCountForChipId chip ≤ 32 := by
  unfold getChannelCountForChipId
  split <;> decide

theorem getChannelCountForChipId_pos (known : chip < chipCount) : 0 < getChannelCountForChipId chip := by
  have all : ∀ chip : Fin 0x29, 0 < getChannelCountForChipId chip := by decide
  exact all ⟨chip,known⟩

theorem getLsbD_setBit (mask : BitVec 32) {bit : Nat} (inside : channel < 32) (within : bit < 32)
    (muted : Bool) : (setBit mask channel muted).getLsbD bit =
      if bit = channel then muted else mask.getLsbD bit := by
  unfold setBit
  by_cases same : bit = channel
  · subst same
    cases muted <;> simp [within]
  · rcases Nat.lt_or_gt_of_ne same with below | above
    · cases muted <;> simp [same,within,below]
    · have apart : ¬ bit - channel = 0 := by omega
      cases muted <;> simp [same,within,apart]

/-- The bit that `setMutingData` keeps for a channel. -/
def stored (chip : Nat) (options : ChipOptions) (channel : Nat) : Bool :=
  if chip = 0x11 ∨ chip = 0x16 ∨ chip = 0x17 then options.disabled
  else if chip = 0x06 ∨ chip = 0x07 ∨ chip = 0x08 then
    if channel < 8 then options.chnMute1.getLsbD channel else options.chnMute2.getLsbD (channel - 8)
  else if chip = 0x0D then options.chnMute2.getLsbD channel
  else options.chnMute1.getLsbD channel

section Kinds
variable (options) (channel) (muted : Bool)

theorem setMutingData_single (single : chip = 0x11 ∨ chip = 0x16 ∨ chip = 0x17) :
    setMutingData chip options channel muted = {options with disabled := muted} :=
  if_pos single

theorem setMutingData_split {channel} (split : chip = 0x06 ∨ chip = 0x07 ∨ chip = 0x08)
    (few : channel < 16) : setMutingData chip options channel muted =
      if channel < 8 then {options with chnMute1 := setBit options.chnMute1 channel muted}
      else {options with chnMute2 := setBit options.chnMute2 (channel - 8) muted} := by
  by_cases low : channel < 8
  · have mode : channel / 8 = 0 := Nat.div_eq_of_lt low
    have rest : channel % 8 = channel := Nat.mod_eq_of_lt low
    rcases split with rfl | rfl | rfl <;> simp [setMutingData,specialModes,mode,rest,low]
  · have mode : channel / 8 = 1 := by omega
    have rest : channel % 8 = channel - 8 := by omega
    rcases split with rfl | rfl | rfl <;> simp [setMutingData,specialModes,mode,rest,low]

theorem setMutingData_wave : setMutingData 0x0D options channel muted =
    {options with chnMute2 := setBit options.chnMute2 channel muted} := by
  simp [setMutingData,specialModes]

theorem setMutingData_plain (single : ¬ (chip = 0x11 ∨ chip = 0x16 ∨ chip = 0x17))
    (split : ¬ (chip = 0x06 ∨ chip = 0x07 ∨ chip = 0x08)) (wave : chip ≠ 0x0D) :
    setMutingData chip options channel muted =
      {options with chnMute1 := setBit options.chnMute1 channel muted} := by
  have none : specialModes chip = 0 := by
    unfold specialModes
    split <;> simp_all
  unfold setMutingData
  rw [if_neg single]
  simp [none,wave]

end Kinds

theorem few_of_split (split : chip = 0x06 ∨ chip = 0x07 ∨ chip = 0x08)
    (inside : channel < getChannelCountForChipId chip) : channel < 16 := by
  rcases split with rfl | rfl | rfl <;> simp only [getChannelCountForChipId] at inside <;> omega

theorem sixteen_channels (adpcm : chip = 0x07 ∨ chip = 0x08) : getChannelCountForChipId chip = 16 := by
  rcases adpcm with rfl | rfl <;> rfl

theorem few_channels (inside : channel < getChannelCountForChipId chip) : channel < 32 := by
  have most := getChannelCountForChipId_le chip
  omega

theorem stored_setMutingData {bit : Nat} (inside : channel < getChannelCountForChipId chip)
    (within : bit < getChannelCountForChipId chip) (muted : Bool) :
    stored chip (setMutingData chip options channel muted) bit =
      if bit = channel then muted else stored chip options bit := by
  unfold stored
  by_cases single : chip = 0x11 ∨ chip = 0x16 ∨ chip = 0x17
  · have one : getChannelCountForChipId chip = 1 := by
      rcases single with rfl | rfl | rfl <;> rfl
    have same : bit = channel := by omega
    rw [setMutingData_single options channel muted single,if_pos single,if_pos same]
  rw [if_neg single,if_neg single]
  by_cases split : chip = 0x06 ∨ chip = 0x07 ∨ chip = 0x08
  · have few := few_of_split split inside
    have less := few_of_split split within
    rw [setMutingData_split options muted split few,if_pos split,if_pos split]
    by_cases low : channel < 8
    · rw [if_pos low]
      by_cases under : bit < 8
      · rw [if_pos under,if_pos under,getLsbD_setBit _ (by omega) (by omega)]
      · rw [if_neg under,if_neg under,if_neg (by omega)]
    · rw [if_neg low]
      by_cases under : bit < 8
      · rw [if_pos under,if_pos under,if_neg (by omega)]
      · rw [if_neg under,if_neg under,getLsbD_setBit _ (by omega) (by omega)]
        have positions : bit - 8 = channel - 8 ↔ bit = channel := by omega
        simp only [positions]
  rw [if_neg split,if_neg split]
  by_cases wave : chip = 0x0D
  · subst wave
    rw [setMutingData_wave,if_pos rfl,if_pos rfl,getLsbD_setBit _ (few_channels inside) (few_channels within)]
  · rw [setMutingData_plain options channel muted single split wave,if_neg wave,if_neg wave,
      getLsbD_setBit _ (few_channels inside) (few_channels within)]

/-- Nothing is ever kept in the third mask, nor is the stream of a chip of several channels left out. -/
structure Fits (chip : Nat) (options : ChipOptions) : Prop where
  third : options.chnMute3 = 0
  heard : ¬ (chip = 0x11 ∨ chip = 0x16 ∨ chip = 0x17) → options.disabled = false

theorem Fits.setMutingData (fits : Fits chip options)
    (inside : channel < getChannelCountForChipId chip) (muted : Bool) :
    Fits chip (setMutingData chip options channel muted) := by
  by_cases single : chip = 0x11 ∨ chip = 0x16 ∨ chip = 0x17
  · rw [setMutingData_single options channel muted single]
    exact ⟨fits.third,fun several => absurd single several⟩
  have heard := fits.heard single
  by_cases split : chip = 0x06 ∨ chip = 0x07 ∨ chip = 0x08
  · rw [setMutingData_split options muted split (few_of_split split inside)]
    split
    · exact ⟨fits.third,fun _ => heard⟩
    · exact ⟨fits.third,fun _ => heard⟩
  by_cases wave : chip = 0x0D
  · subst wave
    rw [setMutingData_wave]
    exact ⟨fits.third,fun _ => heard⟩
  · rw [setMutingData_plain options channel muted single split wave]
    exact ⟨fits.third,fun _ => heard⟩

theorem getLsbD_maskVal (first second : BitVec 32) {bit : Nat} (within : bit < 32) :
    (((first &&& 0x3F#32) <<< 0) ||| ((second &&& 0x7F#32) <<< 6)).getLsbD bit =
      if bit < 6 then first.getLsbD bit
      else if bit < 13 then second.getLsbD (bit - 6) else false := by
  have six : ∀ bit : Fin 32, (0x3F#32).getLsbD bit = decide (bit.1 < 6) := by decide
  have seven : ∀ bit : Fin 32, (0x7F#32).getLsbD bit = decide (bit.1 < 7) := by decide
  have low := six ⟨bit,within⟩
  have high := seven ⟨bit - 6,by omega⟩
  dsimp only at low high
  rw [BitVec.getLsbD_or,BitVec.getLsbD_shiftLeft,BitVec.getLsbD_shiftLeft,BitVec.getLsbD_and,
    BitVec.getLsbD_and,Nat.sub_zero,low,high]
  by_cases fm : bit < 6
  · simp [fm,within]
  · by_cases adpcm : bit < 13
    · have inside : bit - 6 < 7 := by omega
      simp [fm,adpcm,within,inside]
    · have outside : ¬ bit - 6 < 7 := by omega
      simp [fm,adpcm,outside]

theorem channelMuted_refreshMuting (fits : Fits chip options)
    (inside : channel < getChannelCountForChipId chip) :
    channelMuted chip (refreshMuting chip options) channel =
      if Reaches chip channel then stored chip options channel
      else if (chip = 0x07 ∨ chip = 0x08) ∧ channel < 13 then stored chip options (channel + 2)
      else false := by
  have third := fits.third
  by_cases single : chip = 0x11 ∨ chip = 0x16 ∨ chip = 0x17
  · rcases single with rfl | rfl | rfl <;> simp [channelMuted,refreshMuting,Reaches,stored]
  have heard := fits.heard single
  by_cases fm : chip = 0x06
  · subst fm
    by_cases reached : channel < 3
    · have low : channel < 8 := by omega
      simp [channelMuted,refreshMuting,Reaches,stored,heard,reached,low]
    · simp [channelMuted,refreshMuting,Reaches,heard,third,reached]
  by_cases adpcm : chip = 0x07 ∨ chip = 0x08
  · have few := few_of_split (by tauto) inside
    have kept (channel : Nat) : stored chip options channel = if channel < 8 then
        options.chnMute1.getLsbD channel else options.chnMute2.getLsbD (channel - 8) := by
      rcases adpcm with rfl | rfl <;> rfl
    have looked : channelMuted chip (refreshMuting chip options) channel = if channel < 13 then
        (((options.chnMute1 &&& 0x3F#32) <<< 0) ||| ((options.chnMute2 &&& 0x7F#32) <<< 6)).getLsbD
          channel else options.chnMute3.getLsbD (channel - 13) := by
      rcases adpcm with rfl | rfl <;> simp [channelMuted,refreshMuting,heard]
    rw [looked,kept,kept,getLsbD_maskVal _ _ (by omega)]
    have reaches : Reaches chip channel ↔ channel < 6 := by
      simp [Reaches,fm,adpcm]
    simp only [reaches,adpcm,true_and,third]
    by_cases low : channel < 6
    · have under : channel < 13 ∧ channel < 8 := by omega
      simp [low,under]
    · have beyond : ¬ channel + 2 < 8 := by omega
      have position : channel + 2 - 8 = channel - 6 := by omega
      simp [low,beyond,position]
  have reaches : Reaches chip channel := ⟨fun same => absurd same fm,fun same => absurd same adpcm⟩
  have split : ¬ (chip = 0x06 ∨ chip = 0x07 ∨ chip = 0x08) := by tauto
  rw [if_pos reaches]
  unfold stored
  rw [if_neg single,if_neg split]
  by_cases wave : chip = 0x0D
  · subst wave
    simp [channelMuted,refreshMuting,heard]
  · rw [if_neg wave]
    unfold channelMuted refreshMuting
    split <;> simp_all

end Chip

section Voices
variable {chips : List Nat} {voice chip channel : Nat}

theorem voiceAt_mem (found : voiceAt chips voice = some (chip,channel)) :
    chip ∈ chips ∧ channel < getChannelCountForChipId chip := by
  induction chips generalizing voice with
  | nil => cases found
  | cons first rest ih =>
    unfold voiceAt at found
    dsimp only at found
    split at found
    · exact ⟨List.mem_cons_of_mem first (ih found).1,(ih found).2⟩
    next inside =>
      cases found
      exact ⟨List.mem_cons_self,by omega⟩

theorem lands_of_voiceAt {lngHz : Nat → BitVec 32} (found : voiceAt chips voice = some (chip,channel))
    (reached : Reaches chip channel) (single : chipCnt lngHz chip = 1) : Lands lngHz chips voice := by
  intro other position again
  cases found.symm.trans again
  exact ⟨reached,single⟩

theorem voiceAt_injective (nodup : chips.Nodup) {other : Nat}
    (found : voiceAt chips voice = some (chip,channel))
    (again : voiceAt chips other = some (chip,channel)) : voice = other := by
  induction chips generalizing voice other with
  | nil => cases found
  | cons first rest ih =>
    obtain ⟨absent,nodup⟩ := List.nodup_cons.mp nodup
    unfold voiceAt at found again
    dsimp only at found again
    split at found
    · split at again
      · have same := ih nodup found again
        omega
      · cases again
        exact absurd (voiceAt_mem found).1 absent
    · split at again
      · cases found
        exact absurd (voiceAt_mem again).1 absent
      · cases found
        cases again
        rfl

theorem voiceAt_add {more : Nat} (found : voiceAt chips voice = some (chip,channel))
    (inside : (channel + more : Nat) < getChannelCountForChipId chip) :
    voiceAt chips (voice + more) = some (chip,channel + more) := by
  induction chips generalizing voice with
  | nil => cases found
  | cons first rest ih =>
    unfold voiceAt at found ⊢
    dsimp only at found ⊢
    split at found
    next beyond =>
      rw [if_pos (by omega)]
      have position : voice + more - (getChannelCountForChipId first).toNat =
          voice - (getChannelCountForChipId first).toNat + more := by omega
      rw [position]
      exact ih found
    · cases found
      exact if_neg (by omega)

variable (known : ∀ chip ∈ chips, chip < chipCount)
include known

theorem voiceAt_of_lt (inside : voice < getVoiceCount chips) :
    ∃ chip channel, voiceAt chips voice = some (chip,channel) := by
  induction chips generalizing voice with
  | nil =>
    change (voice : Int) < 0 at inside
    omega
  | cons first rest ih =>
    have positive := getChannelCountForChipId_pos (known first List.mem_cons_self)
    unfold voiceAt
    dsimp only
    split
    · refine ih (fun chip member => known chip (List.mem_cons_of_mem first member)) ?_
      unfold getVoiceCount at inside ⊢
      rw [List.map_cons,List.sum_cons] at inside
      omega
    · exact ⟨first,voice,rfl⟩

theorem lt_of_voiceAt (found : voiceAt chips voice = some (chip,channel)) :
    (voice : Int) < getVoiceCount chips := by
  induction chips generalizing voice with
  | nil => cases found
  | cons first rest ih =>
    have positive := getChannelCountForChipId_pos (known first List.mem_cons_self)
    have others : 0 ≤ getVoiceCount rest := by
      apply List.sum_nonneg
      intro count member
      obtain ⟨chip,among,rfl⟩ := List.mem_map.mp member
      exact Int.le_of_lt (getChannelCountForChipId_pos (known chip (List.mem_cons_of_mem first among)))
    unfold voiceAt at found
    dsimp only at found
    have sum : getVoiceCount (first::rest) = getChannelCountForChipId first + getVoiceCount rest := by
      unfold getVoiceCount
      rw [List.map_cons,List.sum_cons]
    rw [sum]
    split at found
    · have later := ih (fun chip member => known chip (List.mem_cons_of_mem first member)) found
      omega
    · cases found
      omega

/-- A walk over the chips that takes off the channels of each ends where `voiceAt` does. -/
theorem walk_voiceAt {α : Type} {walk : List Nat → Int → α} {acts : Nat → Int → α} {ended : α}
    (nil : ∀ channel, walk [] channel = ended)
    (cons : ∀ chip rest channel, walk (chip::rest) channel =
      if channel ≥ getChannelCountForChipId chip then
        walk rest (channel - getChannelCountForChipId chip)
      else acts chip channel) :
    walk chips voice = match voiceAt chips voice with
      | none => ended
      | some (chip,channel) => acts chip channel := by
  induction chips generalizing voice with
  | nil => exact nil voice
  | cons first rest ih =>
    have positive := getChannelCountForChipId_pos (known first List.mem_cons_self)
    rw [cons]
    unfold voiceAt
    dsimp only
    by_cases beyond : (getChannelCountForChipId first).toNat ≤ voice
    · have position : (voice : Int) - getChannelCountForChipId first =
          (voice - (getChannelCountForChipId first).toNat : Nat) := by omega
      rw [if_pos beyond,if_pos (by omega),position]
      exact ih fun chip member => known chip (List.mem_cons_of_mem first member)
    · rw [if_neg beyond,if_neg (by omega)]

theorem getVoiceName_at (found : voiceAt chips voice = some (chip,channel)) :
    getVoiceName chips voice = voiceName chip channel := by
  rw [@walk_voiceAt _ _ known _ getVoiceName _ _ (fun _ => rfl) (fun _ _ _ => rfl),found]

theorem muteVoice_at (options : Options) (enabled : Int)
    (found : voiceAt chips voice = some (chip,channel)) :
    muteVoice options chips voice enabled = options.mute chip channel (enabled ≠ 0) := by
  rw [@walk_voiceAt _ _ known _ (muteVoice options · · enabled) _ _ (fun _ => rfl)
    (fun _ _ _ => rfl),found]
  rfl

omit known in
theorem muteVoice_second (options : Options) (enabled voice : Int) :
    (muteVoice options chips voice enabled).second = options.second := by
  induction chips generalizing voice with
  | nil => rfl
  | cons first rest ih =>
    unfold muteVoice
    split
    · exact ih _
    · rfl

theorem muteVoice_none (options : Options) (enabled : Int) (nowhere : voiceAt chips voice = none) :
    muteVoice options chips voice enabled = options := by
  rw [@walk_voiceAt _ _ known _ (muteVoice options · · enabled) _ _ (fun _ => rfl)
    (fun _ _ _ => rfl),nowhere]

end Voices

section Run
variable {chips : List Nat} {calls : List MuteCall}

theorem asked_append (calls : List MuteCall) (call : MuteCall) (voice : Nat) :
    asked (calls ++ [call]) voice =
      if call.voice = voice then decide (call.enabled ≠ 0) else asked calls voice := by
  unfold asked
  rw [List.foldl_append]
  rfl

theorem muted_append (chips : List Nat) (calls : List MuteCall) (call : MuteCall) :
    muted chips (calls ++ [call]) =
      muteVoice (muted chips calls) chips call.voice call.enabled := by
  unfold muted
  rw [List.foldl_append]
  rfl

theorem muted_second (chips : List Nat) (calls : List MuteCall) :
    (muted chips calls).second = fun _ => .initial := by
  induction calls using List.reverseRecOn with
  | nil => rfl
  | append_singleton calls call ih =>
    rw [muted_append,muteVoice_second,ih]

structure Keeps (chips : List Nat) (calls : List MuteCall) (options : Options) : Prop where
  asked : ∀ voice chip channel, voiceAt chips voice = some (chip,channel) →
    stored chip (options.first chip) channel = asked calls voice
  fits : ∀ chip, Fits chip (options.first chip)

theorem keeps_initial : Keeps chips [] .initial := by
  constructor
  · intro voice chip channel _
    unfold stored Options.initial ChipOptions.initial asked
    simp
  · exact fun chip => ⟨rfl,fun _ => rfl⟩

theorem Keeps.call {options : Options} (known : ∀ chip ∈ chips, chip < chipCount)
    (nodup : chips.Nodup) (keeps : Keeps chips calls options) (call : MuteCall) :
    Keeps chips (calls ++ [call]) (muteVoice options chips call.voice call.enabled) := by
  cases acted : voiceAt chips call.voice with
  | none =>
    rw [muteVoice_none known options call.enabled acted]
    refine ⟨fun voice chip channel found => ?_,keeps.fits⟩
    have other : call.voice ≠ voice := by
      intro same
      rw [same,found] at acted
      cases acted
    rw [asked_append,if_neg other]
    exact keeps.asked voice chip channel found
  | some place =>
    obtain ⟨target,position⟩ := place
    have inside := (voiceAt_mem acted).2
    rw [muteVoice_at known options call.enabled acted]
    constructor
    · intro voice chip channel found
      rw [asked_append]
      by_cases here : chip = target
      · subst here
        rw [Options.mute_first,Function.update_self,stored_setMutingData inside (voiceAt_mem found).2]
        have same : channel = position ↔ call.voice = voice := by
          constructor
          · rintro rfl
            exact voiceAt_injective nodup acted found
          · intro same
            rw [same,found] at acted
            exact congrArg Prod.snd (Option.some.inj acted)
        simp only [same]
        rw [keeps.asked voice chip channel found]
      · rw [Options.mute_first,Function.update_of_ne here]
        have other : call.voice ≠ voice := by
          intro same
          rw [same,found] at acted
          exact here (congrArg Prod.fst (Option.some.inj acted))
        rw [if_neg other]
        exact keeps.asked voice chip channel found
    · intro chip
      by_cases here : chip = target
      · subst here
        rw [Options.mute_first,Function.update_self]
        exact (keeps.fits chip).setMutingData inside _
      · rw [Options.mute_first,Function.update_of_ne here]
        exact keeps.fits chip

theorem muted_keeps (known : ∀ chip ∈ chips, chip < chipCount) (nodup : chips.Nodup)
    (calls : List MuteCall) : Keeps chips calls (muted chips calls) := by
  induction calls using List.reverseRecOn with
  | nil => exact keeps_initial
  | append_singleton calls call ih =>
    rw [muted_append]
    exact ih.call known nodup call

theorem asked_of_true {voice : Nat} (muting : asked calls voice = true) :
    ∃ call ∈ calls, call.voice = voice ∧ call.enabled ≠ 0 := by
  induction calls using List.reverseRecOn with
  | nil => cases muting
  | append_singleton calls call ih =>
    rw [asked_append] at muting
    split at muting
    next here => exact ⟨call,by simp,here,of_decide_eq_true muting⟩
    next =>
      obtain ⟨earlier,member,rest⟩ := ih muting
      exact ⟨earlier,List.mem_append_left [call] member,rest⟩

variable (known : ∀ chip ∈ chips, chip < chipCount) (nodup : chips.Nodup)
include known nodup

theorem voiceMuted_first {voice chip channel : Nat}
    (found : voiceAt chips voice = some (chip,channel)) : voiceMuted chips calls 0 voice =
      if Reaches chip channel then asked calls voice
      else if (chip = 0x07 ∨ chip = 0x08) ∧ channel < 13 then asked calls (voice + 2)
      else false := by
  have keeps := muted_keeps known nodup calls
  unfold voiceMuted
  rw [found]
  dsimp only
  rw [Options.ofSet_zero,channelMuted_refreshMuting (keeps.fits chip) (voiceAt_mem found).2,
    keeps.asked voice chip channel found]
  split
  · rfl
  · split
    next beyond =>
      have count := sixteen_channels beyond.1
      exact keeps.asked (voice + 2) chip (channel + 2) (voiceAt_add found (by omega))
    · rfl

/-- Where every voice is right in the first set, none that its core does not look for was asked to be
muted: the voice two further on would have to be as well, and so to the end of the chip. -/
theorem not_asked (right : ∀ voice chip channel, voiceAt chips voice = some (chip,channel) →
      voiceMuted chips calls 0 voice = asked calls voice) {voice chip channel : Nat}
    (found : voiceAt chips voice = some (chip,channel)) (missed : ¬ Reaches chip channel) :
    asked calls voice = false := by
  induction left : 13 - channel using Nat.strong_induction_on generalizing voice channel with
  | _ left ih =>
    rw [← right voice chip channel found,voiceMuted_first known nodup found,if_neg missed]
    split
    next beyond =>
      have count := sixteen_channels beyond.1
      have next := voiceAt_add found (show ((channel + 2 : Nat) : Int) < _ by omega)
      have still : ¬ Reaches chip (channel + 2) := by
        intro reached
        refine missed ⟨fun same => ?_,fun _ => ?_⟩
        · have first := reached.1 same
          omega
        · have first := reached.2 beyond.1
          omega
      exact ih (13 - (channel + 2)) (by omega) next still rfl
    · rfl

theorem first_right_iff : (∀ voice chip channel, voiceAt chips voice = some (chip,channel) →
      voiceMuted chips calls 0 voice = asked calls voice) ↔
    ∀ voice chip channel, voiceAt chips voice = some (chip,channel) → asked calls voice = true →
      Reaches chip channel := by
  constructor
  · intro right voice chip channel found muting
    by_contra missed
    rw [not_asked known nodup right found missed] at muting
    cases muting
  · intro reaches voice chip channel found
    rw [voiceMuted_first known nodup found]
    by_cases reached : Reaches chip channel
    · rw [if_pos reached]
    · have silent : asked calls voice = false :=
        Bool.eq_false_iff.mpr fun muting => reached (reaches voice chip channel found muting)
      rw [if_neg reached,silent]
      split
      next beyond =>
        have count := sixteen_channels beyond.1
        refine Bool.eq_false_iff.mpr fun muting => reached ?_
        have further := reaches (voice + 2) chip (channel + 2) (voiceAt_add found (by omega)) muting
        refine ⟨fun same => ?_,fun same => ?_⟩
        · have first := further.1 same
          omega
        · have first := further.2 same
          omega
      · rfl

omit known nodup in
/-- The cores of the second set never hear of a call. -/
theorem voiceMuted_second (chips : List Nat) (calls : List MuteCall) (voice : Nat) :
    voiceMuted chips calls 1 voice = false := by
  unfold voiceMuted
  cases found : voiceAt chips voice with
  | none => rfl
  | some place =>
    obtain ⟨chip,channel⟩ := place
    dsimp only
    have fits : Fits chip .initial := ⟨rfl,fun _ => rfl⟩
    have empty (channel : Nat) : stored chip .initial channel = false := by
      unfold stored ChipOptions.initial
      simp
    rw [Options.ofSet_one,muted_second,channelMuted_refreshMuting fits (voiceAt_mem found).2]
    simp only [empty,ite_self]

theorem right_iff (lngHz : Nat → BitVec 32) : (∀ voice chip channel,
      voiceAt chips voice = some (chip,channel) → ∀ set < chipCnt lngHz chip,
        voiceMuted chips calls set voice = asked calls voice) ↔
    ∀ voice, asked calls voice = true → Lands lngHz chips voice := by
  constructor
  · intro right voice muting chip channel found
    constructor
    · refine (first_right_iff known nodup).mp (fun voice chip channel found => ?_) voice chip channel
        found muting
      refine right voice chip channel found 0 ?_
      rcases chipCnt_cases lngHz chip with one | two <;> omega
    · rcases chipCnt_cases lngHz chip with one | two
      · exact one
      · have sounds := right voice chip channel found 1 (by omega)
        rw [voiceMuted_second,muting] at sounds
        cases sounds
  · intro lands voice chip channel found set inside
    have here := (first_right_iff known nodup).mpr (fun voice chip channel found muting =>
      (lands voice muting chip channel found).1) voice chip channel found
    rcases chipCnt_cases lngHz chip with one | two
    · have zero : set = 0 := by omega
      rw [zero,here]
    · have silent : asked calls voice = false :=
        Bool.eq_false_iff.mpr fun muting => by
          have one := (lands voice muting chip channel found).2
          omega
      have which : set = 0 ∨ set = 1 := by omega
      rcases which with rfl | rfl
      · exact here
      · rw [voiceMuted_second,silent]

end Run

theorem activeChips_known (lngHz : Nat → BitVec 32) : ∀ chip ∈ activeChips lngHz, chip < chipCount :=
  fun _ member => List.mem_range.mp (List.mem_filter.mp member).1

theorem activeChips_nodup (lngHz : Nat → BitVec 32) : (activeChips lngHz).Nodup :=
  List.nodup_range.filter _

theorem loadFile_teardown {before g : VgmGlobals} {filenameLength rate : Nat} {bufferSize : Int}
    {chips : List Nat}
    (loaded : loadFile (teardown before) filenameLength rate bufferSize true chips = some g) :
    g.activeChipIds = chips ∧ g.channelCount = getVoiceCount chips := by
  unfold loadFile teardown at loaded
  dsimp only at loaded
  split at loaded
  · cases loaded
  · rw [if_pos rfl] at loaded
    split at loaded
    · cases loaded
    · cases loaded
      exact ⟨List.nil_append chips,Int.zero_add _⟩

/-- Once a file is loaded, the voices are muted as asked in a run of calls exactly when no call mutes
a voice whose core looks for it elsewhere, or one of a chip that is there twice. -/
theorem voices_mute_iff {before g : VgmGlobals} {filenameLength rate : Nat} {bufferSize : Int}
    {lngHz : Nat → BitVec 32} (loaded : loadFile (teardown before) filenameLength rate bufferSize true
      (activeChips lngHz) = some g) (calls : List MuteCall) :
    MutesRight lngHz g calls ↔
      ∀ call ∈ calls, call.enabled ≠ 0 → Lands lngHz g.activeChipIds call.voice := by
  obtain ⟨chips,count⟩ := loadFile_teardown loaded
  have known := activeChips_known lngHz
  have nodup := activeChips_nodup lngHz
  rw [← chips] at known nodup count
  have within {voice chip channel : Nat} (found : voiceAt g.activeChipIds voice = some (chip,channel)) :
      (voice : Int) < g.channelCount := by
    rw [count]
    exact lt_of_voiceAt known found
  have cores {voice chip channel : Nat} (found : voiceAt g.activeChipIds voice = some (chip,channel)) :
      coreCount lngHz g.activeChipIds voice = chipCnt lngHz chip := by
    unfold coreCount
    rw [found]
  constructor
  · intro right call member muting
    obtain ⟨earlier,later,rfl⟩ := List.append_of_mem member
    have made : earlier ++ [call] <+: earlier ++ call::later := ⟨later,by simp⟩
    refine (right_iff known nodup lngHz).mp (fun voice chip channel found set inside =>
      right.muted (earlier ++ [call]) made voice (within found) set (by rwa [cores found]))
      call.voice ?_
    rw [asked_append,if_pos rfl]
    exact decide_eq_true muting
  · intro lands
    have muted (before : List MuteCall) (made : before <+: calls) (voice : Nat)
        (inside : (voice : Int) < g.channelCount) (set : Nat)
        (core : set < coreCount lngHz g.activeChipIds voice) :
        voiceMuted g.activeChipIds before set voice = asked before voice := by
      rw [count] at inside
      obtain ⟨chip,channel,found⟩ := voiceAt_of_lt known inside
      rw [cores found] at core
      refine (right_iff known nodup lngHz).mpr (fun voice asks => ?_) voice chip channel found set core
      obtain ⟨call,member,rfl,muting⟩ := asked_of_true asks
      exact lands call (made.subset member) muting
    refine ⟨muted,fun before call made voice inside other set core => ?_,fun voice inside => ?_⟩
    · have earlier : before <+: calls := (List.prefix_append before [call]).trans made
      rw [muted (before ++ [call]) made voice inside set core,muted before earlier voice inside set core,
        asked_append,if_neg (Ne.symm other)]
    · rw [count] at inside
      obtain ⟨chip,channel,found⟩ := voiceAt_of_lt known inside
      exact ⟨chip,(voiceAt_mem found).1,channel,getVoiceName_at known found,
        fun options enabled => muteVoice_at known options enabled found⟩

/-- The header of a file that uses two SN76489 chips, a YM2612 and a YM2608. -/
def arcadeHeader : Nat → BitVec 32
  | 0x00 => 0x40369E99
  | 0x02 => 7670453
  | 0x07 => 7987200
  | _ => 0

/-- The DAC channel of the YM2612 and the last FM channel of the YM2608 are muted, then the first is
heard again, and so is a voice of the SN76489 that nobody muted. -/
theorem voices_mute_iff_arcade : ∃ g,
    loadFile (teardown .initial) 20 44100 4096 true (activeChips arcadeHeader) = some g ∧
      MutesRight arcadeHeader g [⟨10,1⟩,⟨16,1⟩,⟨10,0⟩,⟨3,0⟩] := by
  refine ⟨_,rfl,(@voices_mute_iff .initial _ 20 44100 4096 arcadeHeader rfl _).mpr ?_⟩
  intro call member muting
  have dac := @lands_of_voiceAt (activeChips arcadeHeader) 10 0x02 6 arcadeHeader (by decide)
    (by decide) (by decide)
  have fm := @lands_of_voiceAt (activeChips arcadeHeader) 16 0x07 5 arcadeHeader (by decide)
    (by decide) (by decide)
  simp only [List.mem_cons,List.not_mem_nil,or_false] at member
  rcases member with rfl | rfl | rfl | rfl
  · exact dac
  · exact fm
  · exact dac
  · exact absurd rfl muting

/-- The seventh voice of the YM2608 is stored in a bit that its core is not told of, and the third of the
SN76489 sounds on in the second chip. -/
theorem seventh_voice_sounds : ∃ g,
    loadFile (teardown .initial) 20 44100 4096 true (activeChips arcadeHeader) = some g ∧
      ¬ MutesRight arcadeHeader g [⟨17,1⟩] ∧ ¬ MutesRight arcadeHeader g [⟨2,1⟩] := by
  refine ⟨_,rfl,fun right => ?_,fun right => ?_⟩
  · have heard := right.muted [⟨17,1⟩] (List.prefix_refl _) 17 (by decide) 0 (by decide)
    exact absurd heard (by decide)
  · have heard := right.muted [⟨2,1⟩] (List.prefix_refl _) 2 (by decide) 1 (by decide)
    exact absurd heard (by decide)

end Vgm
end Chipbox.Native
