import Chipbox.Native.Muting

/-! The arrays of fixed size that `loadFile` of the VGM backend writes: the copy of the file name
and the two tables of the active chips. -/
namespace Chipbox.Native.Vgm

inductive FileCall
  /-- `filename` are the bytes of the path before the one that ends it -/
  | loadFile (filename : List UInt8) (rate : Nat) (bufferSize : Int) (opened : Bool)
      (lngHz : Nat → BitVec 32)
  | teardown

def FileCall.made : FileCall → VgmCall
  | .loadFile filename rate bufferSize opened lngHz =>
    .loadFile filename.length rate bufferSize opened (activeChips lngHz)
  | .teardown => .teardown

def fileStep (g : VgmGlobals) (made : FileCall) : Option VgmGlobals := call g made.made

/-- The loop over the chips: the slots of `g_active_chip_ids` and `g_mute_opts_array` that it writes,
and the `g_active_chip_count` that it leaves. -/
def chipLoop (lngHz : Nat → BitVec 32) : List Nat → Nat → List Nat × Nat
  | [],activeChipCount => ([],activeChipCount)
  | chip::rest,activeChipCount =>
    if 0 < getChipClock lngHz chip then
      let after := chipLoop lngHz rest (activeChipCount + 1)
      (activeChipCount::after.1,after.2)
    else chipLoop lngHz rest activeChipCount

/-- `strcpy` fits its array, and the loop over the chips keeps to the slots of the tables. -/
def InBounds (g : VgmGlobals) : FileCall → Prop
  | .loadFile filename _ _ opened lngHz => filename.length + 1 ≤ filenameCapacity ∧
    (opened = true →
      let loop := chipLoop lngHz (List.range chipCount) g.activeChipIds.length
      (∀ slot ∈ loop.1, slot < maxActiveChips) ∧ loop.2 ≤ maxActiveChips)
  | .teardown => True

def TornDownBetween : Bool → List FileCall → Prop
  | _,[] => True
  | loaded,.loadFile .. :: rest => loaded = false ∧ TornDownBetween true rest
  | _,.teardown::rest => TornDownBetween false rest

/-- The path has less than 260 bytes, and the header of a file that opens has at most ten clocks. -/
def Small : FileCall → Prop
  | .loadFile filename _ _ opened lngHz => filename.length < filenameCapacity ∧
    (opened = true → (activeChips lngHz).length ≤ maxActiveChips)
  | .teardown => True

/-- The loop writes one slot after another, one for each chip with a clock. -/
theorem chipLoop_eq (lngHz : Nat → BitVec 32) (chips : List Nat) (activeChipCount : Nat) :
    chipLoop lngHz chips activeChipCount =
      let active := (chips.filter fun chip => 0 < getChipClock lngHz chip).length
      (List.range' activeChipCount active,activeChipCount + active) := by
  induction chips generalizing activeChipCount with
  | nil => rfl
  | cons chip rest ih =>
    unfold chipLoop
    by_cases clocked : 0 < getChipClock lngHz chip
    · have more : (chip::rest).filter (fun chip => decide (0 < getChipClock lngHz chip)) =
          chip::rest.filter fun chip => decide (0 < getChipClock lngHz chip) :=
        List.filter_cons_of_pos (decide_eq_true clocked)
      rw [if_pos clocked,more,ih]
      dsimp only
      rw [List.length_cons,List.range'_succ]
      congr 1
      omega
    · have same : (chip::rest).filter (fun chip => decide (0 < getChipClock lngHz chip)) =
          rest.filter fun chip => decide (0 < getChipClock lngHz chip) :=
        List.filter_cons_of_neg (by simpa using clocked)
      rw [if_neg clocked,same,ih]

theorem inBounds_loadFile (g : VgmGlobals) (filename : List UInt8) (rate : Nat) (bufferSize : Int)
    (opened : Bool) (lngHz : Nat → BitVec 32) :
    InBounds g (.loadFile filename rate bufferSize opened lngHz) ↔ filename.length < filenameCapacity ∧
      (opened = true → g.activeChipIds.length + (activeChips lngHz).length ≤ maxActiveChips) := by
  unfold InBounds
  dsimp only
  rw [chipLoop_eq]
  dsimp only
  change _ ∧ (_ → (∀ slot ∈ List.range' _ (activeChips lngHz).length,_) ∧ _) ↔ _
  refine and_congr Iff.rfl (imp_congr_right fun _ => and_iff_right_of_imp fun fits slot written => ?_)
  have bound : slot < g.activeChipIds.length + (activeChips lngHz).length :=
    (List.mem_range'_1.mp written).2
  have fits : g.activeChipIds.length + (activeChips lngHz).length ≤ maxActiveChips := fits
  omega

/-- A load within bounds has an outcome, with one entry more for each chip with a clock. -/
theorem fileStep_inBounds {g : VgmGlobals} {made : FileCall} (inside : InBounds g made) :
    ∃ after, fileStep g made = some after := by
  cases made with
  | teardown => exact ⟨_,rfl⟩
  | loadFile filename rate bufferSize opened lngHz =>
    obtain ⟨short,fits⟩ := (inBounds_loadFile ..).mp inside
    unfold fileStep FileCall.made call loadFile
    dsimp only
    rw [if_neg (Nat.not_le_of_lt short)]
    cases opened with
    | false => exact ⟨_,rfl⟩
    | true =>
      rw [if_pos rfl,if_neg (Nat.not_lt_of_le (fits rfl))]
      exact ⟨_,rfl⟩

/-- The loads of a sequence with teardowns between stay in their arrays exactly when each path and
each header is small. -/
theorem loads_in_bounds_iff (calls : List FileCall) (torn : TornDownBetween false calls) :
    Run.Meets fileStep InBounds VgmGlobals.initial calls ↔ ∀ made ∈ calls, Small made := by
  suffices general : ∀ (g : VgmGlobals) (loaded : Bool), (loaded = false → g.activeChipIds = []) →
      TornDownBetween loaded calls →
      (Run.Meets fileStep InBounds g calls ↔ ∀ made ∈ calls, Small made) from
    general _ false (fun _ => rfl) torn
  clear torn
  induction calls with
  | nil => exact fun _ _ _ _ => iff_of_true trivial nofun
  | cons made rest ih =>
    intro g loaded empty torn
    have here : InBounds g made ↔ Small made := by
      cases made with
      | teardown => exact Iff.rfl
      | loadFile filename rate bufferSize opened lngHz =>
        rw [inBounds_loadFile,empty torn.1,List.length_nil,Nat.zero_add]
        rfl
    rw [List.forall_mem_cons,← here]
    by_cases inside : InBounds g made
    · obtain ⟨after,taken⟩ := fileStep_inBounds inside
      rw [Run.meets_cons taken]
      refine and_congr_right fun _ => ?_
      cases made with
      | teardown =>
        cases taken
        exact ih _ false (fun _ => rfl) torn
      | loadFile filename rate bufferSize opened lngHz => exact ih after true nofun torn.2
    · exact iff_of_false (fun met => inside met.1) (fun both => inside both.1)

def clocked (count : Nat) : Nat → BitVec 32 := fun chip => if chip < count then 1 else 0

def path (name : String) : List UInt8 := name.toList.map fun c => UInt8.ofNat c.toNat

def twoLoads : List FileCall :=
  [.loadFile (path "/sdcard/Music/Ys II/01 Lilia.vgz") 44100 4096 true (clocked 10),.teardown,
    .loadFile (path "/sdcard/Music/Ys II/02 Over Drive.vgz") 44100 4096 true (clocked 3)]

theorem loads_in_bounds_iff_ten : Run.Meets fileStep InBounds VgmGlobals.initial twoLoads := by
  have torn : TornDownBetween false twoLoads := ⟨rfl,rfl,trivial⟩
  refine (loads_in_bounds_iff _ torn).mpr fun made listed => ?_
  simp only [twoLoads,List.mem_cons,List.not_mem_nil,or_false] at listed
  rcases listed with rfl | rfl | rfl
  · exact ⟨by decide +kernel,fun _ => by decide⟩
  · trivial
  · exact ⟨by decide +kernel,fun _ => by decide⟩

/-- The 260 bytes of a path leave no room for the byte that ends it, and the eleventh chip is beyond
the tables. -/
theorem loads_out_of_bounds :
    ¬ Run.Meets fileStep InBounds VgmGlobals.initial
      [.loadFile (List.replicate 260 0x61) 44100 4096 true (clocked 1)] ∧
    ¬ Run.Meets fileStep InBounds VgmGlobals.initial [.loadFile [] 44100 4096 true (clocked 11)] := by
  constructor
  · intro met
    have fits := ((inBounds_loadFile ..).mp met.1).1
    rw [List.length_replicate] at fits
    exact absurd fits (by decide)
  · intro met
    exact absurd (((inBounds_loadFile ..).mp met.1).2 rfl) (by decide)

end Chipbox.Native.Vgm
