import Chipbox.Psx.Memory
import Mathlib.Algebra.Group.Nat.Defs

/-! What the tables of `PsxMem.c` are for: one store of bytes that the address space shows in
several places, and whose main memory the cache control hides and shows. -/
namespace Chipbox.Psx

open Overlay

variable {Devices : Type}

def MainPage (page : Nat) : Prop :=
  page < 0x80 ∨ (0x8000 ≤ page ∧ page < 0x8080) ∨ (0xa000 ≤ page ∧ page < 0xa080)

instance (page : Nat) : Decidable (MainPage page) := inferInstanceAs (Decidable (_ ∨ _))

/-- The byte of an address: main memory four times over at each of three places, the parallel port,
the scratchpad with the ports, and the BIOS. -/
def physical (mem : Address) : Option Cell :=
  if MainPage (page mem) then some (.psxM,mem.toNat % 0x200000)
  else if page mem = 0x1f00 then some (.psxP,offset mem)
  else if page mem = 0x1f80 then some (.psxH,offset mem)
  else if 0xbfc0 ≤ page mem ∧ page mem < 0xbfc8 then some (.psxR,mem.toNat - 0xbfc00000)
  else none

/-- The byte an access reaches while the main memory is there or hidden. -/
def reach (writeok : Bool) (mem : Address) : Option Cell :=
  if MainPage (page mem) ∧ writeok = false then none else physical mem

def Port (mem : Address) : Prop := page mem = 0x1f80 ∧ 0x1f801000 ≤ mem.toNat

instance (mem : Address) : Decidable (Port mem) := inferInstanceAs (Decidable (_ ∧ _))

/-- The table is the first one, or that without the main memory. -/
def Mapped (wide : Bool) (m : Memory) : Prop :=
  m.psxMemLUT = if m.writeok then initialLUT wide else unmapMain (initialLUT wide)

/-- The processor has a whole pointer to the area: no cast cuts that of the main memory, and the
scratchpad is reached without the table. -/
def Whole (wide : Bool) (area : Area) : Prop := wide = true → area = .psxM ∨ area = .psxH

instance (wide : Bool) (area : Area) : Decidable (Whole wide area) := inferInstanceAs (Decidable (_ → _))

def pageCell (writeok : Bool) (page : Nat) : Option Cell :=
  if MainPage page then if writeok then some (.psxM,page % 0x20 * 0x10000) else none
  else if page = 0x1f00 then some (.psxP,0)
  else if page = 0x1f80 then some (.psxH,0)
  else if 0xbfc0 ≤ page ∧ page < 0xbfc8 then some (.psxR,(page - 0xbfc0) * 0x10000)
  else none

def pagePointer (wide : Bool) (cell : Cell) : Pointer :=
  if cell.1 = .psxM then .whole cell else castU32 wide cell

theorem pagePointer_whole {wide : Bool} {cell target : Cell} (whole : pagePointer wide cell = .whole target) :
    target = cell := by
  unfold pagePointer castU32 at whole
  split_ifs at whole <;> exact (Pointer.whole.inj whole).symm

theorem fillPages_in (lut : LUT) {first n page : Nat} (entry : LUT)
    (start : first ≤ page) (stop : page < first + n) : fillPages lut first n entry page = entry (page - first) :=
  if_pos ⟨start,stop⟩

theorem fillPages_out (lut : LUT) {first n page : Nat} (entry : LUT)
    (outside : page < first ∨ first + n ≤ page) : fillPages lut first n entry page = lut page :=
  if_neg (by omega)

theorem mapMain_eq (lut : LUT) (page : Nat) : mapMain lut page =
    if MainPage page then some (.whole (.psxM,page % 0x20 * 0x10000)) else lut page := by
  unfold mapMain copyPages
  by_cases main : MainPage page
  · rw [if_pos main]
    rcases main with low | ⟨start,stop⟩ | ⟨start,stop⟩
    · rw [fillPages_out _ _ (.inl (by omega)),fillPages_out _ _ (.inl (by omega)),
        fillPages_in _ _ (Nat.zero_le _) (by omega),Nat.sub_zero]
    · have copied : (page - 0x8000) % 0x20 = page % 0x20 := by omega
      rw [fillPages_out _ _ (.inl (by omega)),fillPages_in _ _ start (by omega),
        fillPages_in _ _ (Nat.zero_le _) (by omega),Nat.sub_zero,copied]
    · have copied : (page - 0xa000) % 0x20 = page % 0x20 := by omega
      rw [fillPages_in _ _ start (by omega),fillPages_out _ _ (.inl (by omega)),
        fillPages_in _ _ (Nat.zero_le _) (by omega),Nat.sub_zero,copied]
  · rw [if_neg main]
    unfold MainPage at main
    rw [fillPages_out _ _ (by omega),fillPages_out _ _ (by omega),fillPages_out _ _ (by omega)]

theorem unmapMain_eq (lut : LUT) (page : Nat) :
    unmapMain lut page = if MainPage page then none else lut page := by
  unfold unmapMain
  by_cases main : MainPage page
  · rw [if_pos main]
    rcases main with low | ⟨start,stop⟩ | ⟨start,stop⟩
    · rw [fillPages_out _ _ (.inl (by omega)),fillPages_out _ _ (.inl (by omega)),
        fillPages_in _ _ (Nat.zero_le _) (by omega)]
    · rw [fillPages_out _ _ (.inl (by omega)),fillPages_in _ _ start (by omega)]
    · rw [fillPages_in _ _ start (by omega)]
  · rw [if_neg main]
    unfold MainPage at main
    rw [fillPages_out _ _ (by omega),fillPages_out _ _ (by omega),fillPages_out _ _ (by omega)]

theorem initialLUT_eq (wide : Bool) (page : Nat) :
    initialLUT wide page = (pageCell true page).map (pagePointer wide) := by
  unfold initialLUT pageCell
  by_cases main : MainPage page
  · have few : page < 0x1f00 ∨ (0x8000 ≤ page ∧ page < 0xa080) := by
      unfold MainPage at main
      omega
    rw [if_pos main,fillPages_out _ _ (by omega),fillPages_out _ _ (by omega),
      fillPages_out _ _ (by omega),mapMain_eq,if_pos main]
    rfl
  rw [if_neg main]
  split_ifs with port scratch bios
  · rw [fillPages_out _ _ (by omega),fillPages_out _ _ (by omega),fillPages_in _ _ (by omega) (by omega)]
    rfl
  · rw [fillPages_out _ _ (by omega),fillPages_in _ _ (by omega) (by omega)]
    rfl
  · rw [fillPages_in _ _ bios.1 (by omega)]
    rfl
  · rw [fillPages_out _ _ (by omega),fillPages_out _ _ (by omega),fillPages_out _ _ (by omega),
      mapMain_eq,if_neg main]
    rfl

theorem mapMain_unmapMain (wide : Bool) : mapMain (unmapMain (initialLUT wide)) = initialLUT wide := by
  funext page
  rw [mapMain_eq,unmapMain_eq]
  split
  next main =>
    rw [initialLUT_eq,pageCell,if_pos main]
    rfl
  next => rfl

/-- The table shows what the pages show, through the pointers it has. -/
theorem lut_eq {wide : Bool} {m : Memory} (mapped : Mapped wide m) (page : Nat) :
    m.psxMemLUT page = (pageCell m.writeok page).map (pagePointer wide) := by
  rw [mapped]
  cases m.writeok with
  | true => exact initialLUT_eq wide page
  | false =>
    rw [if_neg Bool.false_ne_true,unmapMain_eq,initialLUT_eq,pageCell,pageCell]
    by_cases main : MainPage page
    · simp [main]
    · rw [if_neg main,if_neg main,if_neg main]

theorem cacheControl_mapped {wide : Bool} {m : Memory} (mapped : Mapped wide m) (mem : Address)
    (value : BitVec 32) : Mapped wide (cacheControl mem value m) := by
  unfold Mapped at mapped
  unfold cacheControl
  split
  · exact mapped
  split
  · split
    · exact mapped
    next shown =>
      rw [if_pos (by simpa using shown)] at mapped
      simp [Mapped,mapped]
  split
  · split
    · exact mapped
    next hidden =>
      rw [if_neg hidden] at mapped
      simp [Mapped,mapped,mapMain_unmapMain]
  · exact mapped

theorem offset_lt (mem : Address) : offset mem < 0x10000 := Nat.mod_lt _ (by decide)

theorem page_offset (mem : Address) : mem.toNat = page mem * 0x10000 + offset mem :=
  (Nat.div_add_mod' _ _).symm

theorem reach_eq (writeok : Bool) (mem : Address) : reach writeok mem =
    (pageCell writeok (page mem)).map fun cell => (cell.1,cell.2 + offset mem) := by
  have parts := page_offset mem
  have inside := offset_lt mem
  have whole : page mem % 0x20 * 0x10000 + offset mem = mem.toNat % 0x200000 := by
    unfold page offset
    omega
  unfold reach physical pageCell
  by_cases main : MainPage (page mem)
  · cases writeok <;> simp [main,whole]
  have shown : ¬(MainPage (page mem) ∧ writeok = false) := fun both => main both.1
  rw [if_neg shown,if_neg main,if_neg main]
  by_cases port : page mem = 0x1f00
  · simp [port]
  rw [if_neg port,if_neg port]
  by_cases scratch : page mem = 0x1f80
  · simp [scratch]
  rw [if_neg scratch,if_neg scratch]
  split
  next bios =>
    have start : (page mem - 0xbfc0) * 0x10000 + offset mem = mem.toNat - 0xbfc0 * 0x10000 := by
      rw [parts,Nat.sub_mul,Nat.sub_add_comm (Nat.mul_le_mul_right _ bios.1)]
    rw [Option.map_some,start]
  next => rfl

theorem pageCell_fits {writeok : Bool} {page : Nat} {area : Area} {base : Nat}
    (shows : pageCell writeok page = some (area,base)) : base + 0x10000 ≤ area.size := by
  unfold pageCell at shows
  split at shows
  · split at shows
    · obtain ⟨rfl,rfl⟩ := Prod.mk.inj (Option.some.inj shows)
      have bound := Nat.mod_lt page (show 0x20 > 0 by decide)
      simp only [Area.size]
      omega
    · cases shows
  split at shows
  · obtain ⟨rfl,rfl⟩ := Prod.mk.inj (Option.some.inj shows)
    exact Nat.le_refl _
  split at shows
  · obtain ⟨rfl,rfl⟩ := Prod.mk.inj (Option.some.inj shows)
    exact Nat.le_refl _
  split at shows
  next bios =>
    obtain ⟨rfl,rfl⟩ := Prod.mk.inj (Option.some.inj shows)
    simp only [Area.size]
    omega
  next => cases shows

theorem lut_whole {wide : Bool} {m : Memory} (mapped : Mapped wide m) {page : Nat} {cell : Cell}
    (entry : m.psxMemLUT page = some (.whole cell)) : pageCell m.writeok page = some cell := by
  rw [lut_eq mapped] at entry
  obtain ⟨shown,listed,whole⟩ := Option.map_eq_some_iff.mp entry
  rw [listed,pagePointer_whole whole]

/-- Only page `0x1f80` shows the scratchpad. -/
theorem pageCell_scratch {writeok : Bool} {page base : Nat}
    (shows : pageCell writeok page = some (.psxH,base)) : page = 0x1f80 := by
  unfold pageCell at shows
  split_ifs at shows <;> simp_all

/-- Away from the scratchpad the processor's pointers are those of the table. -/
theorem pagePointer_eq (wide : Bool) {area : Area} (base : Nat) (other : area ≠ .psxH) :
    pagePointer wide (area,base) = if Whole wide area then .whole (area,base) else .cut := by
  cases wide <;> cases area <;> simp_all [pagePointer,castU32,Whole]

theorem target_eq {wide : Bool} {m : Memory} (mapped : Mapped wide m) {mem : Address}
    (memory : ¬Port mem) : target m mem = match reach m.writeok mem with
      | none => .null
      | some cell => if Whole wide cell.1 then .at cell else .astray := by
  rw [reach_eq,target]
  by_cases ports : page mem = 0x1f80
  · have low : mem.toNat < 0x1f801000 := by
      unfold Port at memory
      omega
    have scratch : pageCell m.writeok 0x1f80 = some (.psxH,0) := rfl
    rw [if_pos ports,if_pos low,ports,scratch,Option.map_some,Nat.zero_add]
    exact (if_pos fun _ => .inr rfl).symm
  rw [if_neg ports,lut_eq mapped]
  cases shows : pageCell m.writeok (page mem) with
  | none => rfl
  | some cell =>
    have other : cell.1 ≠ .psxH := by
      intro same
      have scratch : pageCell m.writeok (page mem) = some (.psxH,cell.2) := by rw [shows,← same]
      exact ports (pageCell_scratch scratch)
    rw [Option.map_some,pagePointer_eq wide cell.2 other]
    by_cases whole : Whole wide cell.1
    · simp [whole]
    · simp [whole]

theorem next_toNat (mem : Address) (low : mem.toNat + 1 < 2 ^ 32) : (mem + 1).toNat = mem.toNat + 1 := by
  rw [BitVec.toNat_add]
  exact Nat.mod_eq_of_lt low

theorem page_next (mem : Address) (inside : offset mem + 1 < 0x10000) :
    page (mem + 1) = page mem ∧ offset (mem + 1) = offset mem + 1 := by
  have bound := mem.isLt
  have parts := page_offset mem
  have next : (mem + 1).toNat = mem.toNat + 1 := next_toNat mem (by omega)
  unfold page offset at *
  rw [next]
  omega

theorem mainPage_iff (mem : Address) : MainPage (page mem) ↔ mem.toNat < 0x800000 ∨
    (0x80000000 ≤ mem.toNat ∧ mem.toNat < 0x80800000) ∨
    (0xa0000000 ≤ mem.toNat ∧ mem.toNat < 0xa0800000) := by
  unfold MainPage page
  omega

/-- The byte after a byte that is reached is reached at the next address, also across pages. -/
theorem reach_next {writeok : Bool} {mem : Address} {area : Area} {start : Nat}
    (here : reach writeok mem = some (area,start)) (inside : start + 1 < area.size) :
    reach writeok (mem + 1) = some (area,start + 1) := by
  have parts := page_offset mem
  unfold reach at here ⊢
  split at here
  · cases here
  next shown =>
  unfold physical at here ⊢
  split at here
  next main =>
    obtain ⟨rfl,rfl⟩ := Prod.mk.inj (Option.some.inj here)
    have visible : ¬writeok = false := fun hidden => shown ⟨main,hidden⟩
    rw [mainPage_iff] at main
    simp only [Area.size] at inside
    have next := next_toNat mem (by omega)
    have main_next : MainPage (page (mem + 1)) := by
      rw [mainPage_iff,next]
      omega
    have counted : (mem.toNat + 1) % 0x200000 = mem.toNat % 0x200000 + 1 := by omega
    rw [if_pos main_next,next,if_neg fun both => visible both.2,counted]
  next other =>
  split at here
  next port =>
    obtain ⟨rfl,rfl⟩ := Prod.mk.inj (Option.some.inj here)
    obtain ⟨same,counted⟩ := page_next mem inside
    rw [same,counted,port]
    simp [MainPage]
  next no_port =>
  split at here
  next scratch =>
    obtain ⟨rfl,rfl⟩ := Prod.mk.inj (Option.some.inj here)
    obtain ⟨same,counted⟩ := page_next mem inside
    rw [same,counted,scratch]
    simp [MainPage]
  next no_scratch =>
  split at here
  next bios =>
    obtain ⟨rfl,rfl⟩ := Prod.mk.inj (Option.some.inj here)
    have low : 0xbfc00000 ≤ mem.toNat := by
      rw [parts]
      exact Nat.le_add_right_of_le (Nat.mul_le_mul_right 0x10000 bios.1)
    have high : mem.toNat + 1 < 0xbfc80000 := by
      have limit : mem.toNat - 0xbfc00000 + 1 < 0x80000 := inside
      omega
    have next := next_toNat mem (by omega)
    have still : 0xbfc0 ≤ page (mem + 1) ∧ page (mem + 1) < 0xbfc8 := by
      unfold page
      rw [next]
      exact ⟨(Nat.le_div_iff_mul_le (by decide)).mpr (by omega),
        (Nat.div_lt_iff_lt_mul (by decide)).mpr (by omega)⟩
    have no_main : ¬MainPage (page (mem + 1)) := by
      unfold MainPage
      omega
    rw [if_neg fun both => no_main both.1,if_neg no_main,if_neg (by omega),if_neg (by omega),
      if_pos still,next,Nat.sub_add_comm low]
  next => cases here

def bytewise (writeok : Bool) : Address → List (BitVec 8) → List (Cell × BitVec 8)
  | _,[] => []
  | mem,byte::data =>
    (reach writeok mem).toList.map (fun cell => (cell,byte)) ++ bytewise writeok (mem + 1) data

theorem bytewise_append (writeok : Bool) (mem : Address) (first second : List (BitVec 8)) :
    bytewise writeok mem (first ++ second) =
      bytewise writeok mem first ++ bytewise writeok (mem + BitVec.ofNat 32 first.length) second := by
  induction first generalizing mem with
  | nil => simp [bytewise]
  | cons byte first ih =>
    have moved : mem + 1 + BitVec.ofNat 32 first.length =
        mem + BitVec.ofNat 32 (first.length + 1) := by
      rw [BitVec.ofNat_add,BitVec.add_comm (BitVec.ofNat 32 first.length),BitVec.add_assoc]
      rfl
    rw [List.cons_append,bytewise,ih,bytewise,List.append_assoc,List.length_cons,moved]

/-- A write through a pointer that stays in its area is one byte by byte. -/
theorem writesAt_eq {writeok : Bool} {mem : Address} {area : Area} {start : Nat}
    (here : reach writeok mem = some (area,start)) (data : List (BitVec 8))
    (inside : start + data.length ≤ area.size) :
    writesAt area start data = bytewise writeok mem data := by
  induction data generalizing mem start with
  | nil => rfl
  | cons byte data ih =>
    rw [bytewise,here,writesAt]
    simp only [List.length_cons] at inside
    cases data with
    | nil => rfl
    | cons next data =>
      have next_here : reach writeok (mem + 1) = some (area,start + 1) :=
        reach_next here (by simp only [List.length_cons] at inside; omega)
      rw [ih next_here (by omega)]
      rfl

theorem reach_isNone {writeok : Bool} {mem other : Address} (same : page mem = page other) :
    (reach writeok mem).isNone = (reach writeok other).isNone := by
  rw [reach_eq,reach_eq,same,Option.isNone_map,Option.isNone_map]

theorem bytewise_absent {writeok : Bool} {mem : Address} (absent : reach writeok mem = none)
    (data : List (BitVec 8)) (inside : offset mem + data.length ≤ 0x10000) :
    bytewise writeok mem data = [] := by
  induction data generalizing mem with
  | nil => rfl
  | cons byte data ih =>
    rw [bytewise,absent]
    simp only [List.length_cons] at inside
    cases data with
    | nil => rfl
    | cons next data =>
      obtain ⟨same,counted⟩ := page_next mem (by
        simp only [List.length_cons] at inside
        omega)
      have still : reach writeok (mem + 1) = none := by
        rw [← Option.isNone_iff_eq_none,reach_isNone same,absent]
        rfl
      rw [ih still (by omega)]
      rfl

theorem bytewise_split (writeok : Bool) (mem : Address) (n : Nat) (data : List (BitVec 8)) :
    bytewise writeok mem data = bytewise writeok mem (data.take n) ++
      bytewise writeok (mem + BitVec.ofNat 32 n) (data.drop n) := by
  rcases Nat.lt_or_ge data.length n with short | long
  · rw [List.take_of_length_le (Nat.le_of_lt short),List.drop_eq_nil_of_le (Nat.le_of_lt short)]
    exact (List.append_nil _).symm
  · have whole := bytewise_append writeok mem (data.take n) (data.drop n)
    rw [List.take_append_drop,List.length_take,Nat.min_eq_left long] at whole
    exact whole

/-- Page by page, `LoadPSXMem` writes each byte where its address shows it. -/
theorem loadPSXMem_spec {wide : Bool} {m : Memory} (mapped : Mapped wide m) (address : Address)
    (data : List (BitVec 8)) {loaded : Memory} (ran : loadPSXMem m address data = some loaded) :
    loaded = { m with bytes := overlay m.bytes (bytewise m.writeok address data) } := by
  fun_induction loadPSXMem m address data with
  | case1 m address => exact (Option.some.inj ran).symm
  | case2 m address data some_left tmplen absent ih =>
    have unreached : reach m.writeok address = none := by
      rw [lut_eq mapped,Option.map_eq_none_iff] at absent
      rw [reach_eq,absent]
      rfl
    have inside := offset_lt address
    have nothing := bytewise_absent unreached (data.take tmplen) (by
      rw [List.length_take]
      omega)
    rw [ih mapped ran,bytewise_split _ _ tmplen data,nothing,List.nil_append]
  | case3 => cases ran
  | case4 => cases ran
  | case5 m address data some_left tmplen area base entry stored kept ih =>
    have inside := offset_lt address
    have shows := lut_whole mapped entry
    have fits := pageCell_fits shows
    have reached : reach m.writeok address = some (area,base + offset address) := by
      rw [reach_eq,shows]
      rfl
    have room : base + offset address + (data.take tmplen).length ≤ area.size := by
      rw [List.length_take]
      omega
    rw [store,if_pos room] at kept
    obtain rfl := Option.some.inj kept
    rw [ih mapped ran,bytewise_split _ _ tmplen data,overlay_append,writesAt_eq reached _ room]

inductive Access
  | write8 (mem : Address) (value : BitVec 8)
  | write16 (mem : Address) (value : BitVec 16)
  | write32 (mem : Address) (value : BitVec 32)
  | load (address : Address) (data : List (BitVec 8))

def Access.run (ports : Ports Devices) (world : Memory × Devices) : Access → Option (Memory × Devices)
  | .write8 mem value => psxMemWrite8 ports world mem value
  | .write16 mem value => psxMemWrite16 ports world mem value
  | .write32 mem value => psxMemWrite32 ports world mem value
  | .load address data => (loadPSXMem world.1 address data).map fun m => (m,world.2)

def Access.OffPorts : Access → Prop
  | .write8 mem _ => ¬Port mem
  | .write16 mem _ => ¬Port mem
  | .write32 mem _ => ¬Port mem
  | .load _ _ => True

instance : (access : Access) → Decidable access.OffPorts
  | .write8 mem _ => inferInstanceAs (Decidable ¬Port mem)
  | .write16 mem _ => inferInstanceAs (Decidable ¬Port mem)
  | .write32 mem _ => inferInstanceAs (Decidable ¬Port mem)
  | .load _ _ => inferInstanceAs (Decidable True)

def Access.shows (writeok : Bool) : Access → Bool
  | .write32 mem value =>
    if mem ≠ 0xfffe0130 then writeok
    else if value = 0x800 ∨ value = 0x804 then false
    else if value = 0x1e988 then true
    else writeok
  | _ => writeok

/-- The bytes of a value go after that of the first, whatever their own addresses show. -/
def valueWrites (writeok : Bool) (mem : Address) (data : List (BitVec 8)) : List (Cell × BitVec 8) :=
  match reach writeok mem with
  | none => []
  | some cell => writesAt cell.1 cell.2 data

def Access.writes (writeok : Bool) : Access → List (Cell × BitVec 8)
  | .write8 mem value => valueWrites writeok mem (bytesOf 1 value)
  | .write16 mem value => valueWrites writeok mem (bytesOf 2 value)
  | .write32 mem value => valueWrites writeok mem (bytesOf 4 value)
  | .load address data => bytewise writeok address data

def shown (writeok : Bool) (accesses : List Access) : Bool := accesses.foldl Access.shows writeok

def written (writeok : Bool) : List Access → List (Cell × BitVec 8)
  | [] => []
  | access::accesses => access.writes writeok ++ written (access.shows writeok) accesses

theorem cacheControl_writeok (mem : Address) (value : BitVec 32) (m : Memory) :
    (cacheControl mem value m).writeok = (Access.write32 mem value).shows m.writeok ∧
      (cacheControl mem value m).bytes = m.bytes := by
  unfold cacheControl
  simp only [Access.shows]
  split_ifs <;> simp_all

theorem cacheControl_absent {mem : Address} {writeok : Bool} (memory : reach writeok mem ≠ none)
    (value : BitVec 32) : (Access.write32 mem value).shows writeok = writeok := by
  have other : mem ≠ 0xfffe0130 := by
    rintro rfl
    exact memory (by cases writeok <;> decide)
  exact if_pos other

theorem memWrite_spec {n : Nat} {hardware : Memory → Devices → Address → BitVec (8 * n) → Memory × Devices}
    {absent : Memory → Memory} {m : Memory} {devices : Devices} {world : Memory × Devices}
    {mem : Address} {value : BitVec (8 * n)} {wide : Bool} (mapped : Mapped wide m) (memory : ¬Port mem)
    (ran : memWrite hardware absent (m,devices) mem value = some world) :
    world.2 = devices ∧
      (reach m.writeok mem = none ∧ world.1 = absent m ∨
        reach m.writeok mem ≠ none ∧
          world.1 = { m with bytes := overlay m.bytes (valueWrites m.writeok mem (bytesOf n value)) }) := by
  unfold memWrite at ran
  rw [target_eq mapped memory] at ran
  cases pointer : reach m.writeok mem with
  | none =>
    rw [pointer] at ran
    obtain rfl := Option.some.inj ran
    exact ⟨rfl,.inl ⟨rfl,rfl⟩⟩
  | some cell =>
    rw [pointer] at ran
    dsimp only at ran
    split_ifs at ran
    obtain ⟨stored,kept,rfl⟩ := Option.map_eq_some_iff.mp ran
    simp only [store] at kept
    split at kept
    · obtain rfl := Option.some.inj kept
      refine ⟨rfl,.inr ⟨Option.some_ne_none _,?_⟩⟩
      simp only [valueWrites,pointer]
    · cases kept

/-- What one access does: the table follows the cache control, and the bytes that are reached are
written. -/
theorem Access.run_spec {ports : Ports Devices} {access : Access} (outside : access.OffPorts)
    {wide : Bool} {m : Memory} {devices : Devices} (mapped : Mapped wide m) {world : Memory × Devices}
    (ran : access.run ports (m,devices) = some world) :
    Mapped wide world.1 ∧ world.1.writeok = access.shows m.writeok ∧
      world.1.bytes = overlay m.bytes (access.writes m.writeok) := by
  cases access with
  | write8 mem value =>
    obtain ⟨_,⟨absent,same⟩ | ⟨_,stored⟩⟩ := memWrite_spec (n := 1) mapped outside ran
    · rw [same]
      exact ⟨mapped,rfl,by simp [writes,valueWrites,absent]⟩
    · rw [stored]
      exact ⟨mapped,rfl,rfl⟩
  | write16 mem value =>
    obtain ⟨_,⟨absent,same⟩ | ⟨_,stored⟩⟩ := memWrite_spec (n := 2) mapped outside ran
    · rw [same]
      exact ⟨mapped,rfl,by simp [writes,valueWrites,absent]⟩
    · rw [stored]
      exact ⟨mapped,rfl,rfl⟩
  | write32 mem value =>
    obtain ⟨_,⟨absent,same⟩ | ⟨there,stored⟩⟩ := memWrite_spec (n := 4) mapped outside ran
    · obtain ⟨shows,still⟩ := cacheControl_writeok mem value m
      rw [same]
      exact ⟨cacheControl_mapped mapped mem value,shows,by simp [writes,valueWrites,absent,still]⟩
    · rw [stored,cacheControl_absent there]
      exact ⟨mapped,rfl,rfl⟩
  | load address data =>
    obtain ⟨loaded,read,rfl⟩ := Option.map_eq_some_iff.mp ran
    rw [loadPSXMem_spec mapped address data read]
    exact ⟨mapped,rfl,rfl⟩

theorem runs_spec {ports : Ports Devices} {accesses : List Access}
    (outside : ∀ access ∈ accesses, access.OffPorts) {wide : Bool} {world later : Memory × Devices}
    (mapped : Mapped wide world.1) (ran : accesses.foldlM (Access.run ports) world = some later) :
    Mapped wide later.1 ∧ later.1.writeok = shown world.1.writeok accesses ∧
      later.1.bytes = overlay world.1.bytes (written world.1.writeok accesses) := by
  induction accesses generalizing world with
  | nil =>
    obtain rfl := Option.some.inj ran
    exact ⟨mapped,rfl,rfl⟩
  | cons access accesses ih =>
    obtain ⟨next,stepped,rest⟩ := Option.bind_eq_some_iff.mp ran
    obtain ⟨next_mapped,shows,bytes⟩ := Access.run_spec (outside access List.mem_cons_self) mapped stepped
    obtain ⟨last_mapped,last_shows,last_bytes⟩ :=
      ih (fun other member => outside other (.tail _ member)) next_mapped rest
    rw [shows] at last_shows last_bytes
    rw [bytes,← overlay_append] at last_bytes
    exact ⟨last_mapped,last_shows,last_bytes⟩

theorem psxMemInit_mapped (wide : Bool) (bios : Nat → BitVec 8) : Mapped wide (psxMemInit wide bios) := rfl

/-- After any run of writes, of any width, outside the ports, and of files that are loaded, a read
gives for each byte what was written last to it under any of its addresses while it was there, and
zero where no memory is or the main memory is hidden. What goes through a pointer that was cut, or
past the end of an area, has no outcome. -/
theorem psxMem_reads {ports : Ports Devices} {wide : Bool} {bios : Nat → BitVec 8} {devices : Devices}
    {accesses : List Access} (outside : ∀ access ∈ accesses, access.OffPorts)
    {world : Memory × Devices}
    (ran : accesses.foldlM (Access.run ports) (psxMemInit wide bios,devices) = some world) {mem : Address}
    (memory : ¬Port mem) (n : Nat)
    (hardware : Memory → Devices → Address → BitVec (8 * n) × Memory × Devices) :
    memRead n hardware world mem = match reach (shown true accesses) mem with
      | none => some (0,world)
      | some (area,start) =>
        if Whole wide area ∧ start + n ≤ area.size then
          some (value (fun cell => (lastWrite (written true accesses) cell).getD
            ((psxMemInit wide bios).bytes cell)) area start n,world)
        else none := by
  obtain ⟨mapped,shows,bytes⟩ := runs_spec outside (psxMemInit_mapped wide bios) ran
  have held : world.1.bytes = fun cell => (lastWrite (written true accesses) cell).getD
      ((psxMemInit wide bios).bytes cell) := by
    rw [bytes]
    funext cell
    exact overlay_eq_lastWrite _ _ cell
  have table : world.1.writeok = shown true accesses := shows
  rw [memRead,target_eq mapped memory,table]
  cases reach (shown true accesses) mem with
  | none => rfl
  | some cell =>
    by_cases whole : Whole wide cell.1
    · simp only [fetch,held,whole,if_true,true_and]
      split <;> rfl
    · simp only [whole,if_false,false_and]

def bare : Ports Unit where
  psxHwRead8 := fun m devices _ => (0,m,devices)
  psxHwRead16 := fun m devices _ => (0,m,devices)
  psxHwRead32 := fun m devices _ => (0,m,devices)
  psxHwWrite8 := fun m devices _ _ => (m,devices)
  psxHwWrite16 := fun m devices _ _ => (m,devices)
  psxHwWrite32 := fun m devices _ _ => (m,devices)

def mirrorRun : List Access :=
  [.load 0x80010000 [0x44,0x33,0x22,0x11],.write8 0xa0010001 0xaa,.write32 0xfffe0130 0x800,
    .write32 0x80010000 0,.write32 0xfffe0130 0x1e988]

theorem psxMem_reads_mirror : ∃ world,
    mirrorRun.foldlM (Access.run bare) (psxMemInit true (fun _ => 0),()) = some world ∧
      psxMemRead32 bare world 0x00210000 = some (0x1122aa44,world) := by
  obtain ⟨world,ran⟩ := Option.isSome_iff_exists.mp (show (mirrorRun.foldlM (Access.run bare)
    (psxMemInit true (fun _ => 0),())).isSome = true by decide +kernel)
  have outside : ∀ access ∈ mirrorRun, access.OffPorts := by decide
  have memory : ¬Port 0x00210000 := by decide
  refine ⟨world,ran,(psxMem_reads outside ran memory 4 bare.psxHwRead32).trans ?_⟩
  have there : reach (shown true mirrorRun) 0x00210000 = some (.psxM,0x10000) := by decide
  have held : value (fun cell => (lastWrite (written true mirrorRun) cell).getD
      ((psxMemInit true fun _ => 0).bytes cell)) .psxM 0x10000 4 = 0x1122aa44#32 := by decide +kernel
  simp only [there,held]
  exact if_pos (by decide)

end Chipbox.Psx
