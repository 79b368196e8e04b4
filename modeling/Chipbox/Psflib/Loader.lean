import Chipbox.Psflib.Tags

/-! The loader of `psflib.c`: a PSF file, the libraries its tags name, and the callbacks that take
tags and data. A file is its bytes; memory does not run out. -/
namespace Chipbox.Psflib

def maxRecursionDepth : Nat := 10

structure Callbacks (Ctx : Type) where
  allowedVersion : UInt8
  /-- Takes the program and the reserved section; true for an error. -/
  loadTarget : Option (Ctx → List UInt8 → List UInt8 → Ctx × Bool)
  /-- Takes a tag; true to reject it. -/
  infoTarget : Option (Ctx → Text → Text → Ctx × Bool)
  infoWantNestedTags : Bool

/-- The functions of zlib: `uncompress` into a buffer that is large enough. -/
structure Zlib where
  crc32 : List UInt8 → Nat
  uncompress : List UInt8 → Option (List UInt8)

inductive Event
  | fopen (path : Text)
  | fclose (path : Text)
deriving DecidableEq

structure State (Ctx : Type) where
  ctx : Ctx
  events : List Event

structure Header where
  version : UInt8
  reservedSize : Nat
  exeCompressedSize : Nat
  exeCrc32 : Nat

def le32 (bytes : List UInt8) (at_ : Nat) : Nat :=
  (bytes.getD at_ 0).toNat + (bytes.getD (at_ + 1) 0).toNat * 256 +
    (bytes.getD (at_ + 2) 0).toNat * 65536 + (bytes.getD (at_ + 3) 0).toNat * 16777216

def readHeader (allowedVersion : UInt8) (file : List UInt8) : Except String Header :=
  if file.length < 16 then .error "File too small to contain a valid header.\n"
  else if file.take 3 ≠ text "PSF" then .error "File does not contain a valid PSF signature.\n"
  else if allowedVersion ≠ 0 ∧ file.getD 3 0 ≠ allowedVersion then .error "Expected PSF version "
  else .ok ⟨file.getD 3 0,le32 file 4,le32 file 8,le32 file 12⟩

/-- The tag follows the sections, whose sizes are added in 32 bits. -/
def readTags (header : Header) (file : List UInt8) : Except String (List Tag) :=
  let sections := (16 + header.reservedSize + header.exeCompressedSize) % 4294967296
  if (sections + 5) % 4294967296 ≤ file.length then
    if file.length < sections then .error "Out of memory allocating tag buffer.\n"
    else
      let tagBuffer := file.drop sections
      .ok (if tagBuffer.take 5 = text "[TAG]" then processTags (tagBuffer.drop 5) else [])
  else .ok []

def readSections (header : Header) (file : List UInt8) : Except String (List UInt8 × List UInt8) :=
  let rest := file.drop 16
  if rest.length < header.reservedSize then .error "Could not read reserved section.\n"
  else if rest.length < header.reservedSize + header.exeCompressedSize then
    .error "Could not read compressed exe section.\n"
  else .ok (rest.take header.reservedSize,
    (rest.drop header.reservedSize).take header.exeCompressedSize)

def decompressExe (zlib : Zlib) (header : Header) (compressed : List UInt8) :
    Except String (List UInt8) :=
  if header.exeCompressedSize = 0 then .ok []
  else if header.exeCrc32 ≠ zlib.crc32 compressed then .error "CRC mismatch on compressed exe section.\n"
  else
    match zlib.uncompress compressed with
    | none => .error "Could not decompress exe section.\n"
    | some exe => .ok exe

variable {Ctx : Type}

def reportTags (infoTarget : Ctx → Text → Text → Ctx × Bool) : List Tag → Ctx → Ctx × Bool
  | [],ctx => (ctx,true)
  | tag::rest,ctx =>
    match infoTarget ctx tag.name tag.value with
    | (ctx,true) => (ctx,false)
    | (ctx,false) => reportTags infoTarget rest ctx

def reportsTags (callbacks : Callbacks Ctx) (outermost : Bool) (tags : List Tag) (ctx : Ctx) :
    Ctx × Bool :=
  match callbacks.infoTarget with
  | none => (ctx,true)
  | some infoTarget =>
    if outermost ∨ callbacks.infoWantNestedTags then reportTags infoTarget tags.reverse ctx
    else (ctx,true)

abbrev Outcome (Ctx : Type) := State Ctx × Except String UInt8

def loadLib (load : State Ctx → Text → Outcome Ctx) (tag : Option Tag) (s : State Ctx) :
    State Ctx × Except String Unit :=
  match tag with
  | none => (s,.ok ())
  | some tag =>
    match load s tag.value with
    | (s,.error message) => (s,.error message)
    | (s,.ok _) => (s,.ok ())

/-- The loop over the libraries from the second on, with as many turns as there are tags. -/
def loadLibs (load : State Ctx → Text → Outcome Ctx) (tags : List Tag) :
    Nat → Nat → State Ctx → State Ctx × Except String Unit
  | 0,_,s => (s,.ok ())
  | turns+1,n,s =>
    match findTag tags (libName n) with
    | none => (s,.ok ())
    | some tag =>
      match load s tag.value with
      | (s,.error message) => (s,.error message)
      | (s,.ok _) => loadLibs load tags turns (n + 1) s

def State.opened (s : State Ctx) (path : Text) : State Ctx :=
  { s with events := s.events ++ [.fopen path] }

def State.closed (s : State Ctx) (path : Text) : State Ctx :=
  { s with events := s.events ++ [.fclose path] }

section Load
variable (files : Text → Option (List UInt8)) (zlib : Zlib) (callbacks : Callbacks Ctx) (basePath : Text)

/-- `psf_load_internal` from the read of the sections on, the file still open. -/
def loadSections (load : State Ctx → Text → Outcome Ctx) (path : Text) (header : Header)
    (tags : List Tag) (file : List UInt8)
    (loadTarget : Ctx → List UInt8 → List UInt8 → Ctx × Bool) (s : State Ctx) : Outcome Ctx :=
  match readSections header file with
  | .error message => (s.closed path,.error message)
  | .ok (reserved,compressed) =>
    let s := s.closed path
    match decompressExe zlib header compressed with
    | .error message => (s,.error message)
    | .ok exe =>
      match loadTarget s.ctx exe reserved with
      | (ctx,true) => ({ s with ctx := ctx },.error "Data handler returned an error.\n")
      | (ctx,false) =>
        match loadLibs load tags tags.length 2 { s with ctx := ctx } with
        | (s,.error message) => (s,.error message)
        | (s,.ok ()) => (s,.ok header.version)

/-- `psf_load_internal` from the report of the tags on. -/
def loadTagged (load : State Ctx → Text → Outcome Ctx) (outermost : Bool) (path : Text)
    (header : Header) (tags : List Tag) (file : List UInt8) (s : State Ctx) : Outcome Ctx :=
  match reportsTags callbacks outermost tags s.ctx with
  | (ctx,false) => (({ s with ctx := ctx } : State Ctx).closed path,.error "Caller rejected tag: ")
  | (ctx,true) =>
    let s := { s with ctx := ctx }
    match callbacks.loadTarget with
    | none => (s.closed path,.ok header.version)
    | some loadTarget =>
      match loadLib load (findTag tags (text "_lib")) s with
      | (s,.error message) => (s.closed path,.error message)
      | (s,.ok ()) => loadSections zlib load path header tags file loadTarget s

/-- `psf_load_internal` with room for as many nested files as the argument says. -/
def psfLoadInternal : Nat → State Ctx → Text → Outcome Ctx
  | 0,s,_ => (s,.error "Exceeded maximum file nesting depth.\n")
  | room+1,s,fileName =>
    let path := basePath ++ fileName
    match files path with
    | none => (s,.error "Error opening file: ")
    | some file =>
      let s := s.opened path
      match readHeader callbacks.allowedVersion file with
      | .error message => (s.closed path,.error message)
      | .ok header =>
        match readTags header file with
        | .error message => (s.closed path,.error message)
        | .ok tags =>
          loadTagged zlib callbacks (psfLoadInternal room) (decide (room + 1 = maxRecursionDepth))
            path header tags file s

end Load

/-- The folder of a path, its last separator included, and the name after it. -/
def splitPath (separators : Text) (uri : Text) : Text × Text :=
  let name := (uri.reverse.takeWhile fun c => !separators.contains c).reverse
  (uri.take (uri.length - name.length),name)

/-- `psf_load`, which says nothing where it is given no path or no separators. -/
def psfLoad (files : Text → Option (List UInt8)) (zlib : Zlib) (callbacks : Callbacks Ctx)
    (separators uri : Text) (ctx : Ctx) : Outcome Ctx :=
  if uri = [] ∨ separators = [] then (⟨ctx,[]⟩,.error "")
  else
    let (basePath,fileName) := splitPath separators uri
    psfLoadInternal files zlib callbacks basePath maxRecursionDepth ⟨ctx,[]⟩ fileName

end Chipbox.Psflib
