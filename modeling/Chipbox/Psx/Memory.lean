import Chipbox.Foundation.Overlay
import Mathlib.Tactic.Common

/-! The memory of the PlayStation as `PsxMem.c` keeps it: four areas and a table of pointers into
them, one for each 64 KB of the address space. A pointer stays inside its area or has no meaning. -/
namespace Chipbox.Psx

open Overlay

abbrev Address := BitVec 32

inductive Area
  | psxM
  | psxP
  | psxH
  | psxR
deriving DecidableEq

def Area.size : Area → Nat
  | psxM => 0x200000
  | psxP => 0x10000
  | psxH => 0x10000
  | psxR => 0x80000

abbrev Cell := Area × Nat

/-- A pointer of the table: into an area, or what a cast to 32 bits left of one. -/
inductive Pointer
  | whole (cell : Cell)
  | cut
deriving DecidableEq

/-- `(u32) &area[base]`: where the areas lie above the first 4 GB, as on the 64-bit builds, the upper
half of the pointer is lost. -/
def castU32 (wide : Bool) (cell : Cell) : Pointer := if wide then .cut else .whole cell

abbrev LUT := Nat → Option Pointer

structure Memory where
  bytes : Cell → BitVec 8
  psxMemLUT : LUT
  writeok : Bool

def fillPages (lut : LUT) (first n : Nat) (entry : LUT) : LUT :=
  fun page => if first ≤ page ∧ page < first + n then entry (page - first) else lut page

def copyPages (lut : LUT) (first n : Nat) : LUT := fillPages lut first n lut

def mapMain (lut : LUT) : LUT :=
  copyPages (copyPages (fillPages lut 0 0x80 fun i => some (.whole (.psxM,i % 0x20 * 0x10000))) 0x8000 0x80)
    0xa000 0x80

def unmapMain (lut : LUT) : LUT :=
  fillPages (fillPages (fillPages lut 0 0x80 fun _ => none) 0x8000 0x80 fun _ => none) 0xa000 0x80
    fun _ => none

def initialLUT (wide : Bool) : LUT :=
  fillPages (fillPages (fillPages (mapMain fun _ => none) 0x1f00 1 fun _ => some (castU32 wide (.psxP,0)))
    0x1f80 1 fun _ => some (castU32 wide (.psxH,0))) 0xbfc0 8
    fun i => some (castU32 wide (.psxR,i * 0x10000))

/-- `psxMemInit` and the resets, over what the BIOS holds. -/
def psxMemInit (wide : Bool) (bios : Nat → BitVec 8) : Memory where
  bytes := fun cell => if cell.1 = .psxR then bios cell.2 else 0
  psxMemLUT := initialLUT wide
  writeok := true

def page (mem : Address) : Nat := mem.toNat / 0x10000

def offset (mem : Address) : Nat := mem.toNat % 0x10000

/-- Where an access goes: to the ports of the hardware, nowhere, to a byte, or astray. -/
inductive Target
  | port
  | null
  | at (cell : Cell)
  | astray

def target (m : Memory) (mem : Address) : Target :=
  if page mem = 0x1f80 then if mem.toNat < 0x1f801000 then .at (.psxH,offset mem) else .port
  else match m.psxMemLUT (page mem) with
    | none => .null
    | some .cut => .astray
    | some (.whole (area,base)) => .at (area,base + offset mem)

/-- The little-endian value of `n` bytes. -/
def value (bytes : Cell → BitVec 8) (area : Area) (start : Nat) : (n : Nat) → BitVec (8 * n)
  | 0 => 0#0
  | n + 1 => value bytes area (start + 1) n ++ bytes (area,start)

def bytesOf {w : Nat} (n : Nat) (value : BitVec w) : List (BitVec 8) :=
  (List.range n).map fun i => value.extractLsb' (8 * i) 8

def writesAt (area : Area) : Nat → List (BitVec 8) → List (Cell × BitVec 8)
  | _,[] => []
  | start,byte::data => ((area,start),byte)::writesAt area (start + 1) data

/-- A read of `n` bytes through a pointer. -/
def fetch (m : Memory) (cell : Cell) (n : Nat) : Option (BitVec (8 * n)) :=
  if cell.2 + n ≤ cell.1.size then some (value m.bytes cell.1 cell.2 n) else none

/-- A write, also `memcpy`, through a pointer. -/
def store (m : Memory) (cell : Cell) (data : List (BitVec 8)) : Option Memory :=
  if cell.2 + data.length ≤ cell.1.size then
    some { m with bytes := overlay m.bytes (writesAt cell.1 cell.2 data) }
  else none

/-- The ports from `0x1f801000` on: counters, interrupts, DMA and sound. -/
structure Ports (Devices : Type) where
  psxHwRead8 : Memory → Devices → Address → BitVec 8 × Memory × Devices
  psxHwRead16 : Memory → Devices → Address → BitVec 16 × Memory × Devices
  psxHwRead32 : Memory → Devices → Address → BitVec 32 × Memory × Devices
  psxHwWrite8 : Memory → Devices → Address → BitVec 8 → Memory × Devices
  psxHwWrite16 : Memory → Devices → Address → BitVec 16 → Memory × Devices
  psxHwWrite32 : Memory → Devices → Address → BitVec 32 → Memory × Devices

variable {Devices : Type}

/-- A read of `n` bytes. -/
def memRead (n : Nat) (psxHwRead : Memory → Devices → Address → BitVec (8 * n) × Memory × Devices)
    (world : Memory × Devices) (mem : Address) : Option (BitVec (8 * n) × Memory × Devices) :=
  match target world.1 mem with
  | .port => some (psxHwRead world.1 world.2 mem)
  | .null => some (0,world)
  | .astray => none
  | .at cell => (fetch world.1 cell n).map fun value => (value,world)

def psxMemRead8 (ports : Ports Devices) (world : Memory × Devices) (mem : Address) :
    Option (BitVec 8 × Memory × Devices) := memRead 1 ports.psxHwRead8 world mem

def psxMemRead16 (ports : Ports Devices) (world : Memory × Devices) (mem : Address) :
    Option (BitVec 16 × Memory × Devices) := memRead 2 ports.psxHwRead16 world mem

def psxMemRead32 (ports : Ports Devices) (world : Memory × Devices) (mem : Address) :
    Option (BitVec 32 × Memory × Devices) := memRead 4 ports.psxHwRead32 world mem

/-- A write of `n` bytes to memory or a port. -/
def memWrite {n : Nat} (psxHwWrite : Memory → Devices → Address → BitVec (8 * n) → Memory × Devices)
    (absent : Memory → Memory) (world : Memory × Devices) (mem : Address) (value : BitVec (8 * n)) :
    Option (Memory × Devices) :=
  match target world.1 mem with
  | .port => some (psxHwWrite world.1 world.2 mem value)
  | .null => some (absent world.1,world.2)
  | .astray => none
  | .at cell => (store world.1 cell (bytesOf n value)).map fun m => (m,world.2)

def psxMemWrite8 (ports : Ports Devices) (world : Memory × Devices) (mem : Address) (value : BitVec 8) :
    Option (Memory × Devices) := memWrite (n := 1) ports.psxHwWrite8 id world mem value

def psxMemWrite16 (ports : Ports Devices) (world : Memory × Devices) (mem : Address)
    (value : BitVec 16) : Option (Memory × Devices) :=
  memWrite (n := 2) ports.psxHwWrite16 id world mem value

/-- A write to the cache control register takes the main memory away or gives it back. -/
def cacheControl (mem : Address) (value : BitVec 32) (m : Memory) : Memory :=
  if mem ≠ 0xfffe0130 then m
  else if value = 0x800 ∨ value = 0x804 then
    if m.writeok = false then m else { m with writeok := false, psxMemLUT := unmapMain m.psxMemLUT }
  else if value = 0x1e988 then
    if m.writeok = true then m else { m with writeok := true, psxMemLUT := mapMain m.psxMemLUT }
  else m

def psxMemWrite32 (ports : Ports Devices) (world : Memory × Devices) (mem : Address)
    (value : BitVec 32) : Option (Memory × Devices) :=
  memWrite (n := 4) ports.psxHwWrite32 (cacheControl mem value) world mem value

/-- `LoadPSXMem`: up to the next page first, then page by page. -/
def loadPSXMem (m : Memory) (address : Address) (data : List (BitVec 8)) : Option Memory :=
  if _empty : data = [] then some m
  else
    let tmplen := 0x10000 - offset address
    match m.psxMemLUT (page address) with
    | none => loadPSXMem m (address + BitVec.ofNat 32 tmplen) (data.drop tmplen)
    | some .cut => none
    | some (.whole (area,base)) =>
      match store m (area,base + offset address) (data.take tmplen) with
      | none => none
      | some m => loadPSXMem m (address + BitVec.ofNat 32 tmplen) (data.drop tmplen)
termination_by data.length
decreasing_by
  all_goals
    have length := List.length_pos_iff.mpr _empty
    have inside : offset address < 0x10000 := Nat.mod_lt _ (by decide)
    rw [List.length_drop]
    omega

end Chipbox.Psx
