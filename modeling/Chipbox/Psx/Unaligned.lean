import Chipbox.Psx.Physical
import Chipbox.Psx.Operands

/-! Words at any address: the pairs of LWL and LWR and of SWL and SWR over the memory. -/
namespace Chipbox.Psx

open Overlay

variable {Devices : Type}

/-- The machine over the memory of `PsxMem.c`. -/
def psx (ports : Ports Devices) (rest : Machine (Memory × Devices)) : Machine (Memory × Devices) :=
  { rest with
    PSXMu32 := fun world pc => match world.1.psxMemLUT (page pc) with
      | some (.whole (area,base)) => fetch world.1 (area,base + offset pc) 4
      | _ => none
    psxMemRead8 := psxMemRead8 ports
    psxMemRead16 := psxMemRead16 ports
    psxMemRead32 := psxMemRead32 ports
    psxMemWrite8 := psxMemWrite8 ports
    psxMemWrite16 := psxMemWrite16 ports
    psxMemWrite32 := psxMemWrite32 ports }

@[simp] theorem psx_read32 (ports : Ports Devices) (rest : Machine (Memory × Devices)) :
    (psx ports rest).psxMemRead32 = psxMemRead32 ports := rfl

@[simp] theorem psx_write32 (ports : Ports Devices) (rest : Machine (Memory × Devices)) :
    (psx ports rest).psxMemWrite32 = psxMemWrite32 ports := rfl

section Bits

theorem getLsbD_value (bytes : Cell → BitVec 8) (area : Area) (start n i : Nat) (inside : i < 8 * n) :
    (value bytes area start n).getLsbD i = (bytes (area,start + i / 8)).getLsbD (i % 8) := by
  induction n generalizing start i with
  | zero => omega
  | succ n ih =>
    rw [value,BitVec.getLsbD_append]
    by_cases low : i < 8
    · have first : i / 8 = 0 := Nat.div_eq_of_lt low
      rw [if_pos low,first,Nat.mod_eq_of_lt low]
      rfl
    · have place : start + 1 + (i - 8) / 8 = start + i / 8 := by omega
      have bit : (i - 8) % 8 = i % 8 := by omega
      rw [if_neg low,ih (start + 1) (i - 8) (by omega),place,bit]

/-- The masks of the tables: `n` bits, or all but those. -/
theorem getLsbD_low (n : Nat) {i : Nat} (inside : i < 32) :
    (BitVec.ofNat 32 (2 ^ n - 1)).getLsbD i = decide (i < n) := by
  rw [BitVec.getLsbD_ofNat,Nat.testBit_two_pow_sub_one]
  simp [inside]

theorem getLsbD_high (n : Nat) {i : Nat} (inside : i < 32) :
    (~~~(BitVec.ofNat 32 (2 ^ n - 1))).getLsbD i = decide (n ≤ i) := by
  rw [BitVec.getLsbD_not,getLsbD_low n inside]
  rcases Nat.lt_or_ge i n with low | high
  · simp [inside,low,Nat.not_le.mpr low]
  · simp [inside,high,Nat.not_lt.mpr high]

theorem getLsbD_keepLow (n : Nat) (reg mem : Word) {i : Nat} (inside : i < 32) :
    ((reg &&& BitVec.ofNat 32 (2 ^ n - 1)) ||| (mem <<< n)).getLsbD i =
      if i < n then reg.getLsbD i else mem.getLsbD (i - n) := by
  rw [BitVec.getLsbD_or,BitVec.getLsbD_and,getLsbD_low n inside,BitVec.getLsbD_shiftLeft]
  by_cases low : i < n <;> simp [low,inside]

theorem getLsbD_keepHigh {n k : Nat} (whole : n + k = 32) (reg mem : Word) {i : Nat} (inside : i < 32) :
    ((reg &&& ~~~(BitVec.ofNat 32 (2 ^ n - 1))) ||| (mem >>> k)).getLsbD i =
      if i < n then mem.getLsbD (i + k) else reg.getLsbD i := by
  rw [BitVec.getLsbD_or,BitVec.getLsbD_and,getLsbD_high n inside,BitVec.getLsbD_ushiftRight]
  by_cases low : i < n
  · simp [low,Nat.not_le.mpr low,Nat.add_comm]
  · have outside : mem.getLsbD (k + i) = false := BitVec.getLsbD_of_ge _ _ (by omega)
    simp [low,Nat.le_of_not_lt low,outside]

theorem lwlMerge_eq {place : Nat} (small : place < 4) (reg mem : Word) : lwlMerge place reg mem =
    (reg &&& BitVec.ofNat 32 (2 ^ (24 - 8 * place) - 1)) ||| (mem <<< (24 - 8 * place)) := by
  match place,small with
  | 0,_ => rfl
  | 1,_ => rfl
  | 2,_ => rfl
  | 3,_ => rfl

theorem lwrMerge_eq {place : Nat} (small : place < 4) (reg mem : Word) : lwrMerge place reg mem =
    (reg &&& ~~~(BitVec.ofNat 32 (2 ^ (32 - 8 * place) - 1))) ||| (mem >>> (8 * place)) := by
  match place,small with
  | 0,_ => rfl
  | 1,_ => rfl
  | 2,_ => rfl
  | 3,_ => rfl

theorem swlMerge_eq {place : Nat} (small : place < 4) (reg mem : Word) : swlMerge place reg mem =
    (mem &&& ~~~(BitVec.ofNat 32 (2 ^ (8 + 8 * place) - 1))) ||| (reg >>> (24 - 8 * place)) := by
  rw [BitVec.or_comm]
  match place,small with
  | 0,_ => rfl
  | 1,_ => rfl
  | 2,_ => rfl
  | 3,_ => rfl

theorem swrMerge_eq {place : Nat} (small : place < 4) (reg mem : Word) : swrMerge place reg mem =
    (mem &&& BitVec.ofNat 32 (2 ^ (8 * place) - 1)) ||| (reg <<< (8 * place)) := by
  rw [BitVec.or_comm]
  match place,small with
  | 0,_ => rfl
  | 1,_ => rfl
  | 2,_ => rfl
  | 3,_ => rfl

end Bits

section Bytes

def byte (word : Word) (j : Nat) : BitVec 8 := word.extractLsb' (8 * j) 8

theorem getLsbD_byte (word : Word) (j : Nat) {i : Nat} (inside : i < 8) :
    (byte word j).getLsbD i = word.getLsbD (8 * j + i) := by
  rw [byte,BitVec.getLsbD_extractLsb']
  simp [inside]

theorem eq_of_bytes {first second : Word} (same : ∀ j < 4, byte first j = byte second j) :
    first = second := by
  refine BitVec.eq_of_getLsbD_eq fun i inside => ?_
  have bit := congrArg (fun b => b.getLsbD (i % 8)) (same (i / 8) (by omega))
  simp only [getLsbD_byte _ _ (Nat.mod_lt i (by decide : 8 > 0)),Nat.div_add_mod] at bit
  exact bit

theorem byte_value (bytes : Cell → BitVec 8) (area : Area) (start : Nat) {j : Nat} (inside : j < 4) :
    byte (value bytes area start 4) j = bytes (area,start + j) := by
  refine BitVec.eq_of_getLsbD_eq fun i bit => ?_
  have place : (8 * j + i) / 8 = j := by omega
  have rest : (8 * j + i) % 8 = i := by omega
  rw [getLsbD_byte _ _ bit,getLsbD_value bytes area start 4 (8 * j + i) (by omega),place,rest]

theorem byte_lwlMerge {place j : Nat} (small : place < 4) (inside : j < 4) (reg mem : Word) :
    byte (lwlMerge place reg mem) j = if j < 3 - place then byte reg j else byte mem (j - (3 - place)) := by
  refine BitVec.eq_of_getLsbD_eq fun i bit => ?_
  rw [getLsbD_byte _ _ bit,lwlMerge_eq small,getLsbD_keepLow _ _ _ (by omega)]
  by_cases low : j < 3 - place
  · rw [if_pos (by omega),if_pos low,getLsbD_byte _ _ bit]
  · have moved : 8 * j + i - (24 - 8 * place) = 8 * (j - (3 - place)) + i := by omega
    rw [if_neg (by omega),if_neg low,getLsbD_byte _ _ bit,moved]

theorem byte_lwrMerge {place j : Nat} (small : place < 4) (inside : j < 4) (reg mem : Word) :
    byte (lwrMerge place reg mem) j = if j < 4 - place then byte mem (j + place) else byte reg j := by
  refine BitVec.eq_of_getLsbD_eq fun i bit => ?_
  rw [getLsbD_byte _ _ bit,lwrMerge_eq small,getLsbD_keepHigh (by omega) _ _ (by omega)]
  by_cases low : j < 4 - place
  · have moved : 8 * j + i + 8 * place = 8 * (j + place) + i := by omega
    rw [if_pos (by omega),if_pos low,getLsbD_byte _ _ bit,moved]
  · rw [if_neg (by omega),if_neg low,getLsbD_byte _ _ bit]

theorem byte_swlMerge {place j : Nat} (small : place < 4) (inside : j < 4) (reg mem : Word) :
    byte (swlMerge place reg mem) j = if j ≤ place then byte reg (j + (3 - place)) else byte mem j := by
  refine BitVec.eq_of_getLsbD_eq fun i bit => ?_
  rw [getLsbD_byte _ _ bit,swlMerge_eq small,getLsbD_keepHigh (by omega) _ _ (by omega)]
  by_cases low : j ≤ place
  · have moved : 8 * j + i + (24 - 8 * place) = 8 * (j + (3 - place)) + i := by omega
    rw [if_pos (by omega),if_pos low,getLsbD_byte _ _ bit,moved]
  · rw [if_neg (by omega),if_neg low,getLsbD_byte _ _ bit]

theorem byte_swrMerge {place j : Nat} (small : place < 4) (inside : j < 4) (reg mem : Word) :
    byte (swrMerge place reg mem) j = if j < place then byte mem j else byte reg (j - place) := by
  refine BitVec.eq_of_getLsbD_eq fun i bit => ?_
  rw [getLsbD_byte _ _ bit,swrMerge_eq small,getLsbD_keepLow _ _ _ (by omega)]
  by_cases low : j < place
  · rw [if_pos (by omega),if_pos low,getLsbD_byte _ _ bit]
  · have moved : 8 * j + i - 8 * place = 8 * (j - place) + i := by omega
    rw [if_neg (by omega),if_neg low,getLsbD_byte _ _ bit,moved]

end Bytes

section Alignment

theorem place_eq (a : Address) : (a &&& 3#32).toNat = a.toNat % 4 := by
  rw [BitVec.toNat_and]
  exact Nat.and_two_pow_sub_one_eq_mod a.toNat 2

theorem aligned_eq (a : Address) : a &&& ~~~3#32 = (a >>> 2) <<< 2 := by
  refine BitVec.eq_of_getLsbD_eq fun i inside => ?_
  have mask := getLsbD_high 2 inside
  rw [BitVec.getLsbD_and,show ~~~3#32 = ~~~(BitVec.ofNat 32 (2 ^ 2 - 1)) from rfl,mask,
    BitVec.getLsbD_shiftLeft,BitVec.getLsbD_ushiftRight]
  rcases Nat.lt_or_ge i 2 with low | high
  · simp [low]
  · have back : 2 + (i - 2) = i := by omega
    simp [inside,Nat.not_lt.mpr high,high,back]

theorem toNat_aligned (a : Address) : (a &&& ~~~3#32).toNat = a.toNat - a.toNat % 4 := by
  have bound := a.isLt
  rw [aligned_eq,BitVec.toNat_shiftLeft,BitVec.toNat_ushiftRight,Nat.shiftRight_eq_div_pow,
    Nat.shiftLeft_eq]
  omega

theorem page_aligned (a : Address) : page (a &&& ~~~3#32) = page a ∧
    offset (a &&& ~~~3#32) = offset a - a.toNat % 4 := by
  unfold page offset
  rw [toNat_aligned]
  omega

theorem reach_aligned {writeok : Bool} {a : Address} {area : Area} {start : Nat}
    (here : reach writeok a = some (area,start)) :
    a.toNat % 4 ≤ start ∧ reach writeok (a &&& ~~~3#32) = some (area,start - a.toNat % 4) ∧
      start - a.toNat % 4 + 4 ≤ area.size := by
  obtain ⟨same,moved⟩ := page_aligned a
  rw [reach_eq] at here ⊢
  rw [same,moved]
  obtain ⟨⟨entry,base⟩,listed,pointer⟩ := Option.map_eq_some_iff.mp here
  obtain ⟨rfl,rfl⟩ := Prod.mk.inj pointer
  have fits := pageCell_fits listed
  have inside := offset_lt a
  have low : a.toNat % 4 ≤ offset a := by
    unfold offset
    omega
  have four : offset a - a.toNat % 4 + 4 ≤ 0x10000 := by
    unfold offset at *
    omega
  dsimp only
  refine ⟨by omega,?_,by omega⟩
  rw [listed,Option.map_some,Nat.add_sub_assoc low]

theorem port_aligned {a : Address} (memory : ¬Port a) : ¬Port (a &&& ~~~3#32) := by
  obtain ⟨same,_⟩ := page_aligned a
  rintro ⟨ports,high⟩
  rw [toNat_aligned] at high
  exact memory ⟨same ▸ ports,by omega⟩

end Alignment

section Accesses

variable {wide : Bool} {world : Memory × Devices} {a : Address} {area : Area} {start : Nat}

theorem target_aligned (mapped : Mapped wide world.1) (here : reach world.1.writeok a = some (area,start))
    (whole : Whole wide area) (memory : ¬Port a) :
    target world.1 (a &&& ~~~3#32) = .at (area,start - a.toNat % 4) := by
  rw [target_eq mapped (port_aligned memory),(reach_aligned here).2.1]
  exact if_pos whole

theorem psxMemRead32_aligned (ports : Ports Devices) (mapped : Mapped wide world.1)
    (here : reach world.1.writeok a = some (area,start)) (whole : Whole wide area) (memory : ¬Port a) :
    psxMemRead32 ports world (a &&& ~~~3#32) =
      some (value world.1.bytes area (start - a.toNat % 4) 4,world) := by
  have room := (reach_aligned here).2.2
  rw [psxMemRead32,memRead,target_aligned mapped here whole memory]
  simp only [fetch,room,if_true,Option.map_some]

theorem psxMemWrite32_aligned (ports : Ports Devices) (mapped : Mapped wide world.1)
    (here : reach world.1.writeok a = some (area,start)) (whole : Whole wide area) (memory : ¬Port a)
    (word : Word) : psxMemWrite32 ports world (a &&& ~~~3#32) word =
      some ({ world.1 with
        bytes := overlay world.1.bytes (writesAt area (start - a.toNat % 4) (bytesOf 4 word)) },world.2) := by
  have room := (reach_aligned here).2.2
  rw [psxMemWrite32,memWrite,target_aligned mapped here whole memory]
  exact congrArg (Option.map _) (if_pos room)

end Accesses

theorem reach_three {writeok : Bool} {a : Address} {area : Area} {start : Nat}
    (here : reach writeok a = some (area,start)) (inside : start + 4 ≤ area.size) :
    reach writeok (a + 3) = some (area,start + 3) := by
  have first := reach_next here (by omega)
  have second := reach_next first (by omega)
  have third := reach_next second (by omega)
  have moved : a + 1 + 1 + 1 = a + 3 := by
    rw [BitVec.add_assoc,BitVec.add_assoc]
    rfl
  rwa [moved] at third

theorem toNat_three {writeok : Bool} {a : Address} {area : Area} {start : Nat}
    (here : reach writeok a = some (area,start)) : (a + 3).toNat = a.toNat + 3 := by
  have low : page a < 0xbfc8 := by
    unfold reach physical at here
    by_cases main : MainPage (page a)
    · unfold MainPage at main
      omega
    rw [if_neg fun both => main both.1,if_neg main] at here
    split at here
    · omega
    split at here
    · omega
    split at here
    next bios => exact bios.2
    next => cases here
  have parts := page_offset a
  have inside := offset_lt a
  rw [BitVec.toNat_add]
  exact Nat.mod_eq_of_lt (by
    change a.toNat + 3 < 2 ^ 32
    omega)

/-- The places of the first and the last byte of a word at an address. -/
theorem places (a : Nat) : a % 4 = 0 ∧ (a + 3) % 4 = 3 ∨ (a + 3) % 4 + 1 = a % 4 := by omega

theorem lwl_lwr_merge {p q start : Nat} (places : p = 0 ∧ q = 3 ∨ q + 1 = p) (small : p < 4)
    (inside : p ≤ start) (bytes : Cell → BitVec 8) (area : Area) (reg : Word) :
    lwrMerge p (lwlMerge q reg (value bytes area (start + 3 - q) 4)) (value bytes area (start - p) 4) =
      value bytes area start 4 := by
  refine eq_of_bytes fun j bound => ?_
  rw [byte_lwrMerge small bound,byte_value _ _ _ bound]
  split
  next low =>
    have place : start - p + (j + p) = start + j := by omega
    rw [byte_value _ _ _ (by omega),place]
  next high =>
    have place : start + 3 - q + (j - (3 - q)) = start + j := by omega
    rw [byte_lwlMerge (by omega) bound,if_neg (by omega),byte_value _ _ _ (by omega),place]

theorem loadPart_spec (ports : Ports Devices) (rest : Machine (Memory × Devices))
    (merge : Nat → Word → Word → Word) {wide : Bool} {c : Cpu (Memory × Devices)}
    (mapped : Mapped wide c.world.1) {a : Address}
    (address : c.rRs + imm c.code = a) {area : Area} {start : Nat}
    (here : reach c.world.1.writeok a = some (area,start)) (whole : Whole wide area) (memory : ¬Port a)
    (positive : rt c.code ≠ 0) :
    loadPart (psx ports rest) merge c = some (c.setReg (rt c.code)
      (merge (a.toNat % 4) c.rRt (value c.world.1.bytes area (start - a.toNat % 4) 4)),none) := by
  have read := psxMemRead32_aligned ports mapped here whole memory
  rw [loadPart,address,psx_read32,read,Option.map_some,place_eq]
  simp only [Cpu.put,positive,if_false]

theorem storePart_spec (ports : Ports Devices) (rest : Machine (Memory × Devices))
    (merge : Nat → Word → Word → Word) {wide : Bool} {c : Cpu (Memory × Devices)}
    (mapped : Mapped wide c.world.1) {a : Address}
    (address : c.rRs + imm c.code = a) {area : Area} {start : Nat}
    (here : reach c.world.1.writeok a = some (area,start)) (whole : Whole wide area) (memory : ¬Port a) :
    storePart (psx ports rest) merge c = some ({ c with world := ({ c.world.1 with
      bytes := overlay c.world.1.bytes (writesAt area (start - a.toNat % 4) (bytesOf 4
        (merge (a.toNat % 4) c.rRt (value c.world.1.bytes area (start - a.toNat % 4) 4)))) },c.world.2) },
          none) := by
  have read := psxMemRead32_aligned ports mapped here whole memory
  have write := psxMemWrite32_aligned ports mapped here whole memory
  rw [storePart,address,psx_read32,read]
  simp only [psx_write32]
  rw [write,place_eq]
  rfl

/-- LWL of the last byte and LWR of the first byte of a word at any address load it. -/
theorem lwl_lwr (ports : Ports Devices) (rest : Machine (Memory × Devices)) {wide : Bool}
    {c : Cpu (Memory × Devices)} (mapped : Mapped wide c.world.1) {left right : Word}
    (base : rs left = rs right) (target : rt left = rt right)
    (last : imm left = imm right + 3) (positive : rt right ≠ 0) (apart : rt right ≠ rs right) {a : Address}
    (address : c.gpr (rs right) + imm right = a) {area : Area} {start : Nat}
    (here : reach c.world.1.writeok a = some (area,start)) (whole : Whole wide area)
    (inside : start + 4 ≤ area.size) (first_memory : ¬Port a) (last_memory : ¬Port (a + 3)) :
    (psxLWL (psx ports rest) { c with code := left }).bind (fun out =>
      psxLWR (psx ports rest) { out.1 with code := right }) =
        some (({ c with code := right } : Cpu (Memory × Devices)).setReg (rt right)
          (value c.world.1.bytes area start 4),none) := by
  have above : c.gpr (rs left) + imm left = a + 3 := by
    rw [base,last,← address,BitVec.add_assoc]
  have low := (reach_aligned here).1
  have merged := lwl_lwr_merge (places a.toNat) (Nat.mod_lt _ (by decide)) low c.world.1.bytes area
    (c.gpr (rt right))
  have first := loadPart_spec ports rest lwlMerge (c := { c with code := left }) mapped
    above (reach_three here inside) whole last_memory (target ▸ positive)
  rw [psxLWL,first,Option.bind_some]
  generalize partly : lwlMerge _ _ _ = upper
  have same_base : ({ ({ c with code := left } : Cpu (Memory × Devices)).setReg (rt left) upper with
      code := right } : Cpu (Memory × Devices)).rRs = c.gpr (rs right) := by
    refine (setReg_gpr _ _ _ _).trans (if_neg ?_)
    rw [target]
    exact apart.symm
  have same_target : ({ ({ c with code := left } : Cpu (Memory × Devices)).setReg (rt left) upper with
      code := right } : Cpu (Memory × Devices)).rRt = upper := by
    refine (setReg_gpr _ _ _ _).trans (if_pos ?_)
    exact target.symm
  have second := loadPart_spec ports rest lwrMerge
    (c := { ({ c with code := left } : Cpu (Memory × Devices)).setReg (rt left) upper with code := right })
    mapped (by rw [same_base]; exact address) here whole first_memory positive
  have whole : lwrMerge (a.toNat % 4) upper (value c.world.1.bytes area (start - a.toNat % 4) 4) =
      value c.world.1.bytes area start 4 := by
    rw [← merged,← partly,toNat_three here]
    exact congrArg (fun reg => lwrMerge _ (lwlMerge _ (c.gpr reg) _) _) target
  refine Eq.trans second ?_
  rw [same_target]
  refine (congrArg (fun word => some ((Cpu.setReg _ (rt right) word : Cpu (Memory × Devices)),_)) whole).trans ?_
  simp only [Cpu.setReg,target,Function.update_idem]

theorem overlay_writesAt (bytes : Cell → BitVec 8) (area : Area) (start : Nat) (data : List (BitVec 8))
    (other : Area) (j : Nat) : overlay bytes (writesAt area start data) (other,j) =
      if other = area ∧ start ≤ j then (data[j - start]?).getD (bytes (other,j)) else bytes (other,j) := by
  induction data generalizing start bytes with
  | nil => simp [writesAt]
  | cons first data ih =>
    rw [writesAt,overlay_cons,ih]
    by_cases same : other = area
    · subst same
      rcases Nat.lt_trichotomy j start with below | rfl | above
      · rw [if_neg (by omega),if_neg (by omega),Function.update_of_ne (by simp; omega)]
      · rw [if_neg (by omega),if_pos ⟨rfl,Nat.le_refl _⟩,Nat.sub_self]
        simp
      · have next : j - start = j - (start + 1) + 1 := by omega
        rw [if_pos ⟨rfl,by omega⟩,if_pos ⟨rfl,by omega⟩,Function.update_of_ne (by simp; omega),next]
        rfl
    · rw [if_neg fun both => same both.1,if_neg fun both => same both.1,
        Function.update_of_ne (by simp [same])]

theorem bytesOf_getElem? (word : Word) (j : Nat) :
    (bytesOf 4 word)[j]? = if j < 4 then some (byte word j) else none := by
  rw [bytesOf,List.getElem?_map]
  split
  next inside => rw [List.getElem?_range inside]; rfl
  next outside => rw [List.getElem?_eq_none (by simpa using outside)]; rfl

theorem overlay_word (bytes : Cell → BitVec 8) (area : Area) (start : Nat) (word : Word) (other : Area)
    (j : Nat) : overlay bytes (writesAt area start (bytesOf 4 word)) (other,j) =
      if other = area ∧ start ≤ j ∧ j < start + 4 then byte word (j - start) else bytes (other,j) := by
  rw [overlay_writesAt,bytesOf_getElem?]
  by_cases after : other = area ∧ start ≤ j
  · by_cases inside : j < start + 4
    · rw [if_pos after,if_pos (by omega),if_pos ⟨after.1,after.2,inside⟩]
      rfl
    · rw [if_pos after,if_neg (by omega),if_neg fun all => inside all.2.2]
      rfl
  · rw [if_neg after,if_neg fun all => after ⟨all.1,all.2.1⟩]

theorem swl_swr_bytes {p q start : Nat} (places : p = 0 ∧ q = 3 ∨ q + 1 = p) (small : p < 4)
    (inside : p ≤ start) (bytes upper : Cell → BitVec 8) (area : Area) (reg : Word)
    (stored : upper = overlay bytes (writesAt area (start + 3 - q)
      (bytesOf 4 (swlMerge q reg (value bytes area (start + 3 - q) 4))))) :
    overlay upper (writesAt area (start - p) (bytesOf 4 (swrMerge p reg (value upper area (start - p) 4)))) =
      overlay bytes (writesAt area start (bytesOf 4 reg)) := by
  funext ⟨other,j⟩
  have first : upper (other,j) =
      if other = area ∧ start + 3 - q ≤ j ∧ j < start + 3 - q + 4 then
        byte (swlMerge q reg (value bytes area (start + 3 - q) 4)) (j - (start + 3 - q))
      else bytes (other,j) := by
    rw [stored,overlay_word]
  rw [overlay_word,overlay_word]
  by_cases same : other = area
  · subst same
    simp only [true_and] at first ⊢
    by_cases low : start - p ≤ j ∧ j < start - p + 4
    · rw [if_pos low,byte_swrMerge small (by omega)]
      rcases Nat.lt_or_ge j start with before | after
      · have place : start - p + (j - (start - p)) = j := by omega
        rw [if_pos (by omega),byte_value _ _ _ (by omega),place,first,if_neg (by omega),if_neg (by omega)]
      · have place : j - (start - p) - p = j - start := by omega
        rw [if_neg (by omega),if_pos (by omega),place]
    · rw [if_neg low,first]
      by_cases high : start + 3 - q ≤ j ∧ j < start + 3 - q + 4
      · rw [if_pos high,byte_swlMerge (by omega) (by omega)]
        by_cases within : j < start + 4
        · have place : j - (start + 3 - q) + (3 - q) = j - start := by omega
          rw [if_pos (by omega),if_pos (by omega),place]
        · have place : start + 3 - q + (j - (start + 3 - q)) = j := by omega
          rw [if_neg (by omega),if_neg (by omega),byte_value _ _ _ (by omega),place]
      · rw [if_neg high,if_neg (by omega)]
  · rw [if_neg fun all => same all.1] at first ⊢
    rw [first,if_neg fun all => same all.1]

def idle : Machine (Memory × Unit) where
  PSXMu32 := fun _ _ => none
  psxMemRead8 := fun _ _ => none
  psxMemRead16 := fun _ _ => none
  psxMemRead32 := fun _ _ => none
  psxMemWrite8 := fun _ _ _ => none
  psxMemWrite16 := fun _ _ _ => none
  psxMemWrite32 := fun _ _ _ => none
  psxRcntUpdate := fun world _ => world
  interrupt := fun _ => false
  deadLoopSkip := fun _ _ => 0
  psxHLEt := fun _ _ => none
  psxBiosException := fun _ => none

/-- Eight bytes from `0x80010000` on, the address in register 8 and `0xcafebabe` in register 9. -/
def wordCpu : Cpu (Memory × Unit) where
  gpr := fun reg => if reg = 8 then 0x80010000 else if reg = 9 then 0xcafebabe else 0
  lo := 0
  hi := 0
  cp0 := fun _ => 0
  pc := 0
  code := 0
  cycle := 0
  branch := false
  branch2 := false
  branchPC := 0
  world := ({ psxMemInit true (fun _ => 0) with
    bytes := overlay (psxMemInit true fun _ => 0).bytes (writesAt .psxM 0x10000
      [0x11,0x22,0x33,0x44,0x55,0x66,0x77,0x88]) },())

theorem wordCpu_mapped : Mapped true wordCpu.world.1 := rfl

theorem lwl_lwr_odd : (psxLWL (psx bare idle) { wordCpu with code := 0x89090004 }).bind (fun out =>
    psxLWR (psx bare idle) { out.1 with code := 0x99090001 }) =
      some (({ wordCpu with code := 0x99090001 } : Cpu (Memory × Unit)).setReg 9 0x55443322,none) := by
  have here : reach wordCpu.world.1.writeok 0x80010001 = some (.psxM,0x10001) := by decide
  have loaded := lwl_lwr bare idle wordCpu_mapped (show rs 0x89090004 = rs 0x99090001 by decide)
    (by decide) (by decide) (by decide) (by decide) (by decide) here (by decide) (by decide) (by decide)
    (by decide)
  have held : value wordCpu.world.1.bytes .psxM 0x10001 4 = 0x55443322#32 := by decide +kernel
  rw [held] at loaded
  exact loaded

/-- SWL of the last byte and SWR of the first byte of a word at any address store it and nothing
else. -/
theorem swl_swr (ports : Ports Devices) (rest : Machine (Memory × Devices)) {wide : Bool}
    {c : Cpu (Memory × Devices)} (mapped : Mapped wide c.world.1) {left right : Word}
    (base : rs left = rs right) (source : rt left = rt right)
    (last : imm left = imm right + 3) {a : Address} (address : c.gpr (rs right) + imm right = a)
    {area : Area} {start : Nat} (here : reach c.world.1.writeok a = some (area,start))
    (whole : Whole wide area) (inside : start + 4 ≤ area.size) (first_memory : ¬Port a)
    (last_memory : ¬Port (a + 3)) :
    (psxSWL (psx ports rest) { c with code := left }).bind (fun out =>
      psxSWR (psx ports rest) { out.1 with code := right }) =
        some ({ c with code := right, world := ({ c.world.1 with
          bytes := overlay c.world.1.bytes (writesAt area start (bytesOf 4 (c.gpr (rt right)))) },
            c.world.2) },none) := by
  have above : c.gpr (rs left) + imm left = a + 3 := by
    rw [base,last,← address,BitVec.add_assoc]
  have low := (reach_aligned here).1
  have first := storePart_spec ports rest swlMerge (c := { c with code := left }) mapped
    above (reach_three here inside) whole last_memory
  rw [psxSWL,first,Option.bind_some]
  generalize partly : overlay c.world.1.bytes _ = upper
  have second := storePart_spec ports rest swrMerge
    (c := { c with code := right, world := ({ c.world.1 with bytes := upper },c.world.2) })
    mapped address here whole first_memory
  refine Eq.trans second ?_
  have stored : upper = overlay c.world.1.bytes (writesAt area (start + 3 - (a.toNat + 3) % 4) (bytesOf 4
      (swlMerge ((a.toNat + 3) % 4) (c.gpr (rt right))
        (value c.world.1.bytes area (start + 3 - (a.toNat + 3) % 4) 4)))) := by
    rw [← partly,toNat_three here]
    exact congrArg (fun reg => overlay c.world.1.bytes (writesAt _ _ (bytesOf 4
      (swlMerge _ (c.gpr reg) _)))) source
  have whole := swl_swr_bytes (places a.toNat) (Nat.mod_lt _ (by decide)) low c.world.1.bytes upper area
    (c.gpr (rt right)) stored
  exact congrArg (fun bytes => some (({ c with code := right, world := ({ c.world.1 with
    bytes := bytes },c.world.2) } : Cpu (Memory × Devices)),none)) whole

theorem swl_swr_odd : (psxSWL (psx bare idle) { wordCpu with code := 0xa9090004 }).bind (fun out =>
    psxSWR (psx bare idle) { out.1 with code := 0xb9090001 }) =
      some ({ wordCpu with code := 0xb9090001, world := ({ wordCpu.world.1 with
        bytes := overlay wordCpu.world.1.bytes (writesAt .psxM 0x10001 [0xbe,0xba,0xfe,0xca]) },()) },
          none) := by
  have here : reach wordCpu.world.1.writeok 0x80010001 = some (.psxM,0x10001) := by decide
  exact swl_swr bare idle wordCpu_mapped (show rs 0xa9090004 = rs 0xb9090001 by decide) (by decide)
    (by decide) (by decide) here (by decide) (by decide) (by decide) (by decide)

end Chipbox.Psx
