import KlaussRuntime.Machinery.Fields
import KlaussRuntime.Machinery.Loops

/-!
# Loader/Elf — `load_elf` of the bare-metal and of the telnet loader

Both loaders read an ELF32 file from the SD card, put its segments at the load address and add the
distance from the link address to every absolute field.  `loader.c` and `pic_loader.c` have the same
`load_elf` but for the texts of their errors; the model is one function with the texts as a
parameter.

Every read of the file goes through `fread_at` and may fail, also after part of the bytes has been
stored.  Each place in the code reads once in each round of its loops, so a pattern of failures is a
function of the place and the rounds (`Site`), and nothing is assumed about it.

The state is the memory before and the stores made since, with a log of the relocations applied.
-/

namespace KlaussRuntime.Loader

open Machinery

/-! ## The file -/

/-- A place where `load_elf` reads, and the rounds of its loops. -/
inductive Site where
  | ehdr
  /-- program header, when the link base is looked for -/
  | scan (i : ℕ)
  /-- program header, when its segment is loaded -/
  | phdr (i : ℕ)
  | segment (i : ℕ)
  | shdr (i : ℕ)
  /-- header of the section the relocations apply to -/
  | target (i : ℕ)
  | rela (i j : ℕ)

/-- A file, and the reads of it that fail, each after having stored so many bytes. -/
structure File where
  bytes : List Byte
  fault : Site → Option ℕ

/-- `fread_at`: the bytes stored, and whether they were all. -/
def File.freadAt (f : File) (site : Site) (offset len : ℕ) : List Byte × Bool :=
  let avail := (f.bytes.drop offset).take len
  match f.fault site with
  | some n => (avail.take n, false)
  | none => (avail, avail.length = len)

/-- `fread_at` into a structure. -/
def File.readStruct (f : File) (site : Site) (offset len : ℕ) : Option (List Byte) :=
  if (f.freadAt site offset len).2 then some (f.freadAt site offset len).1 else none

def u16At (b : List Byte) (k : ℕ) : ℕ := leNat ((b.drop k).take 2)

def u32At (b : List Byte) (k : ℕ) : ℕ := leNat ((b.drop k).take 4)

/-- Conversion to `u32`. -/
def u32 (v : ℤ) : ℕ := (v % 2 ^ 32).toNat

/-- Conversion to `s32`. -/
def s32 (v : ℤ) : ℤ := v.bmod (2 ^ 32)

structure Ehdr where
  ident : List Byte
  machine : ℕ
  entry : ℕ
  phoff : ℕ
  shoff : ℕ
  flags : ℕ
  phentsize : ℕ
  phnum : ℕ
  shentsize : ℕ
  shnum : ℕ
deriving DecidableEq

def Ehdr.parse (b : List Byte) : Ehdr :=
  ⟨b.take 16, u16At b 18, u32At b 24, u32At b 28, u32At b 32, u32At b 36, u16At b 42, u16At b 44,
    u16At b 46, u16At b 48⟩

structure Phdr where
  type : ℕ
  offset : ℕ
  vaddr : ℕ
  filesz : ℕ
  memsz : ℕ
deriving DecidableEq

def Phdr.parse (b : List Byte) : Phdr := ⟨u32At b 0, u32At b 4, u32At b 8, u32At b 16, u32At b 20⟩

structure Shdr where
  type : ℕ
  flags : ℕ
  offset : ℕ
  size : ℕ
  info : ℕ
  entsize : ℕ
deriving DecidableEq

def Shdr.parse (b : List Byte) : Shdr :=
  ⟨u32At b 4, u32At b 8, u32At b 16, u32At b 20, u32At b 28, u32At b 36⟩

structure Rela where
  offset : ℕ
  info : ℕ
deriving DecidableEq

def Rela.parse (b : List Byte) : Rela := ⟨u32At b 0, u32At b 4⟩

/-- `ELF32_R_TYPE` -/
def Rela.type (r : Rela) : ℕ := r.info &&& 0xff

def ptLoad : ℕ := 1

def shtRela : ℕ := 4

def shfAlloc : ℕ := 2

/-- `EM_KLAUSSCPU` -/
def emKlausscpu : ℕ := 0x4B43

/-- `KLAUSSCPU_ABI_VERSION` -/
def abiVersion : ℕ := 3

/-- The width of the field a relocation of this type has the loaders add to: `R_KLAUSSCPU_ABS32` and
`R_KLAUSSCPU_ABS64`. -/
def absWidth (type : ℕ) : Option ℕ := if type = 1 then some 4 else if type = 2 then some 8 else none

namespace File

variable (f : File) (eh : Ehdr)

def readPhdr (site : Site) (i : ℕ) : Option Phdr :=
  (f.readStruct site (u32 (eh.phoff + i * eh.phentsize)) 32).map .parse

def readShdr (site : Site) (i : ℕ) : Option Shdr :=
  (f.readStruct site (u32 (eh.shoff + i * eh.shentsize)) 40).map .parse

def readRela (sh : Shdr) (i j : ℕ) : Option Rela :=
  (f.readStruct (.rela i j) (u32 (sh.offset + j * sh.entsize)) 12).map .parse

end File

/-! ## Loading -/

inductive LoadError where
  | headerRead
  | badMagic
  | machine (machine : ℕ)
  | abi (flags : ℕ)
  | noLoad
  | segmentRead
deriving DecidableEq

structure LoadSt where
  before : Mem
  stores : List Store
  /-- the relocations applied: section and entry -/
  applied : List (ℕ × ℕ)

def LoadSt.start (mem : Mem) : LoadSt := ⟨mem, [], []⟩

/-- The memory: what the stores have made of it. -/
def LoadSt.mem (st : LoadSt) : Mem := st.before.storeAll st.stores

def LoadSt.store (st : LoadSt) (p : ℕ) (bs : List Byte) : LoadSt :=
  { st with stores := st.stores ++ [(p, bs)] }

/-- Add to the field of `w` bytes at `p`. -/
def LoadSt.bump (st : LoadSt) (p w : ℕ) (delta : ℤ) : LoadSt :=
  st.store p (intBytes w (leNat (st.mem.read p w) + delta))

variable (f : File) (eh : Ehdr) (delta : ℤ)

/-- The ELF header and the checks on it. -/
def readEhdr : Except LoadError Ehdr :=
  match f.readStruct .ehdr 0 52 with
  | none => .error .headerRead
  | some b =>
    let eh := Ehdr.parse b
    if eh.ident.take 4 ≠ [0x7f, 0x45, 0x4c, 0x46] then .error .badMagic
    else if eh.machine ≠ emKlausscpu then .error (.machine eh.machine)
    else if eh.flags &&& 0xff ≠ abiVersion then .error (.abi eh.flags)
    else .ok eh

/-- The lowest address of a segment to load. -/
def linkBase : ℕ :=
  (List.range eh.phnum).foldl (fun base i =>
    match f.readPhdr eh (.scan i) i with
    | none => base
    | some p => if p.type = ptLoad ∧ p.vaddr < base then p.vaddr else base) 0xFFFFFFFF

/-- Load the segment of a program header, and zero what it has beyond the file. -/
def placeSegment (i : ℕ) (p : Phdr) (st : LoadSt) : LoadSt × Bool :=
  let dest := u32 (p.vaddr + delta)
  let r := f.freadAt (.segment i) p.offset p.filesz
  let st := if p.filesz > 0 then st.store dest r.1 else st
  if p.filesz > 0 ∧ r.2 = false then (st, false)
  else if p.memsz > p.filesz then
    (st.store (dest + p.filesz) (List.replicate (p.memsz - p.filesz) 0), true)
  else (st, true)

/-- A round of the loop over the segments; false is a `return -1`. -/
def loadSegment (i : ℕ) (st : LoadSt) : LoadSt × Bool :=
  match f.readPhdr eh (.phdr i) i with
  | none => (st, true)
  | some p => if p.type ≠ ptLoad then (st, true) else placeSegment f delta i p st

/-- A round of the loop over the entries of a relocation section; false is the `break`. -/
def applyRela (sh : Shdr) (i j : ℕ) (st : LoadSt) : LoadSt × Bool :=
  match f.readRela sh i j with
  | none => (st, false)
  | some r =>
    match absWidth r.type with
    | none => (st, true)
    | some w =>
      ({ st.bump (u32 (r.offset + delta)) w delta with applied := st.applied ++ [(i, j)] }, true)

/-- A round of the loop over the sections. -/
def relocateSection (i : ℕ) (st : LoadSt) : LoadSt :=
  match f.readShdr eh (.shdr i) i with
  | none => st
  | some sh =>
    if sh.type ≠ shtRela then st
    else if sh.entsize = 0 then st
    else if sh.info = 0 ∨ sh.info ≥ eh.shnum then st
    else
      match f.readShdr eh (.target i) sh.info with
      | none => st
      | some target =>
        if target.flags &&& shfAlloc = 0 then st
        else (loopWhile (applyRela f delta sh i) (List.range (sh.size / sh.entsize)) st).1

def relocate (st : LoadSt) : LoadSt :=
  if delta ≠ 0 ∧ eh.shoff ≠ 0 then
    (List.range eh.shnum).foldl (fun st i => relocateSection f eh delta i st) st
  else st

/-- `load_elf` up to the texts of its errors: the entry address and the state. -/
def loadElf (loadBase : ℕ) (st : LoadSt) : Except LoadError ℕ × LoadSt :=
  match readEhdr f with
  | .error e => (.error e, st)
  | .ok eh =>
    if linkBase f eh = 0xFFFFFFFF then (.error .noLoad, st)
    else
      let delta := s32 (loadBase - linkBase f eh)
      let r := loopWhile (loadSegment f eh delta) (List.range eh.phnum) st
      if r.2 then (.ok (u32 (eh.entry + delta)), relocate f eh delta r.1)
      else (.error .segmentRead, r.1)

/-! ## The two loaders -/

/-- What `%x` prints. -/
def hex (n : ℕ) : String := String.ofList (Nat.toDigits 16 n)

def LoadError.loaderText : LoadError → String
  | .headerRead => "loader: ELF header read failed\n"
  | .badMagic => "loader: bad ELF magic\n"
  | .machine m => "loader: not a KlaussCPU ELF (e_machine 0x" ++ hex m ++ ")\n"
  | .abi flags => "loader: built for C ABI " ++ toString (flags &&& 0xff) ++ ", this loader is ABI "
      ++ toString abiVersion ++ " (e_flags 0x" ++ hex flags ++ "): rebuild it\n"
  | .noLoad => "loader: no PT_LOAD\n"
  | .segmentRead => "loader: segment read failed\n"

def LoadError.picLoaderText : LoadError → String
  | .headerRead => "ELF header read failed\r\n"
  | .badMagic => "Bad ELF magic\r\n"
  | .machine m => "Not a KlaussCPU ELF (e_machine 0x" ++ hex m ++ ")\r\n"
  | .abi flags => "Built for C ABI " ++ toString (flags &&& 0xff) ++ ", this loader is ABI "
      ++ toString abiVersion ++ " (e_flags 0x" ++ hex flags ++ "): rebuild it\r\n"
  | .noLoad => "No PT_LOAD segment\r\n"
  | .segmentRead => "Segment read failed\r\n"

/-- `load_elf` with its texts. -/
def loadElfSaying (text : LoadError → String) (loadBase : ℕ) (st : LoadSt) : Except String ℕ × LoadSt :=
  ((loadElf f loadBase st).1.mapError text, (loadElf f loadBase st).2)

/-- `load_elf` of `loader.c`. -/
def Baremetal.loadElf : ℕ → LoadSt → Except String ℕ × LoadSt := loadElfSaying f LoadError.loaderText

/-- `load_elf` of `pic_loader.c`. -/
def PicLoader.loadElf : ℕ → LoadSt → Except String ℕ × LoadSt := loadElfSaying f LoadError.picLoaderText

/-- `PIC_LOAD_ADDR` of both. -/
def picLoadAddr : ℕ := 0x04000000

end KlaussRuntime.Loader
