import KlaussRuntime.Disk.Protocol

/-!
# Disk/SdPins — the SD disk driver on its pins

The Zephyr driver once more, down to `CTRL`, the chip select and `sd_mutex`, and up to every entry of the
disk API that touches the card; what it stores and returns to its callers is `Disk/SdDriver`'s subject.
The card answers anything at any byte, any deadline may have passed, any pipelined block may be late.  A
wait whose deadline never passes is followed for `fuel` rounds and then cut short.

Calls come one after another: the mutex keeps them apart.  What a call saw of `s_ready`, before it took the
mutex, and of the other globals is a parameter of the call.

All that reaches the bus keeps to the rules of `Disk/Protocol` (`transactions_closed`).  The states between
two steps of a transaction are few: `Idle o` (selected, with `o` open), `Ready` (and the card is), `Away`
(not selected, the mutex held) and `Free`.
-/

namespace KlaussRuntime.Disk.Pins

open Machinery

variable (fuel : ℕ)

/-! ## Commands -/

/-- Clock the bus until a byte meets `stop`, or the deadline has passed. -/
def pollFor (stop : Byte → Bool) : ℕ → Cut Wire (Option Byte)
  | 0 => Cut.stop
  | n + 1 => do
    let r ← spiXfer 0xFF
    if stop r then return some r else do
      let w ← Cut.get
      if w.env.expired w.log then return none else pollFor stop n

def sdWaitReady : Cut Wire ℤ := do
  let r ← pollFor (· == 0xFF) fuel
  return if r.isSome then 0 else -1

/-- What `sd_cmd` waits for before the command. -/
def beforeCmd (cmd : Byte) : Cut Wire ℤ :=
  if cmd = 0 then do
    let _ ← spiXfer 0xFF
    return 0
  else sdWaitReady fuel

def sdCmd (cmd : Byte) (arg : BitVec 32) (crc : Byte) : Cut Wire Byte := do
  let rc ← beforeCmd fuel cmd
  if rc ≠ 0 then return 0xFF else do
    txBytes (frame cmd arg crc)
    pollR1 8

def sdAcmd (acmd : Byte) (arg : BitVec 32) : Cut Wire Byte := do
  let _ ← sdCmd fuel 55 0 0x65
  sdCmd fuel acmd arg 0x77

/-! ## Initialisation -/

def SD_CLK_INIT : BitVec 32 := 249

def SD_CLK_FAST : BitVec 32 := 1

def setClk (div : BitVec 32) : Cut Wire Unit := do
  let w ← Cut.get
  setCtrl (w.ctrl &&& ~~~0xFFFF ||| div &&& 0xFFFF)

/-- The loop on `ACMD41`: whether the card is ready within so many tries. -/
def acmd41 : ℕ → Cut Wire Bool
  | 0 => return false
  | n + 1 => do
    let r ← sdAcmd fuel 41 0x40000000
    if r = 0x00 then return true else acmd41 n

/-- `CMD16`, for a card that is addressed in bytes. -/
def setBlocklen (ocr : Byte) : Cut Wire Byte :=
  if ocr &&& 0x40 ≠ 0 then return 0x00 else sdCmd fuel 16 512 0xFF

/-- From `ready:` on. -/
def afterReady : Cut Wire ℤ := do
  let r ← sdCmd fuel 58 0 0xFD
  if r ≠ 0x00 then do
    csDeassert
    return -4
  else do
    let ocr ← spiXfer 0xFF
    txBytes [0xFF, 0xFF, 0xFF]
    let r ← setBlocklen fuel ocr
    csDeassert
    if r ≠ 0x00 then return -5 else do
      setClk SD_CLK_FAST
      return 0

def sdHwInit : Cut Wire ℤ := do
  setCtrl (SD_CLK_INIT ||| CS_HI ||| PWR_ON)
  txBytes (List.replicate 10 0xFF)
  csAssert
  let r ← sdCmd fuel 0 0 0x95
  if r ≠ 0x01 then do
    csDeassert
    return -1
  else do
    let r ← sdCmd fuel 8 0x1AA 0x87
    if r ≠ 0x01 then do
      csDeassert
      return -2
    else do
      txBytes [0xFF, 0xFF, 0xFF, 0xFF]
      let ready ← acmd41 fuel 2000
      if !ready then do
        csDeassert
        return -3
      else afterReady fuel

/-! ## Blocks -/

/-- `sd_rx_block`. -/
def sdRxBlock (pipe : Bool) : Cut Wire ℤ := do
  let _ ← rxBytes 512
  let w ← Cut.get
  return if pipe && w.env.late w.log then -5 else 0

def sdWaitToken : Cut Wire ℤ := do
  let t ← pollFor (· != 0xFF) fuel
  return match t with
    | none => -2
    | some t => if t ≠ 0xFE then -3 else 0

def sdWaitNotBusy : Cut Wire ℤ := do
  let r ← pollFor (· != 0x00) fuel
  return if r.isSome then 0 else -4

def sdReadBlock (cfg : Config) (lba : BitVec 32) (pipe : Bool) : Cut Wire ℤ := do
  csAssert
  let r1 ← sdCmd fuel 17 (blkArg cfg lba) 0xFF
  if r1 ≠ 0x00 then do
    csDeassert
    return -1
  else do
    let rc ← sdWaitToken fuel
    if rc ≠ 0 then do
      csDeassert
      return rc
    else do
      let rc ← sdRxBlock pipe
      txBytes [0xFF, 0xFF]
      csDeassert
      return rc

/-- A data block behind its token, two bytes for the CRC, and the data response. -/
def sendBlock (token : Byte) (src : Mem) (off : ℕ) : Cut Wire Byte := do
  txBytes [0xFF, token]
  txBytes (src.read off 512 ++ [0xFF, 0xFF])
  spiXfer 0xFF

def sdWriteBlock (cfg : Config) (lba : BitVec 32) (src : Mem) (off : ℕ) : Cut Wire ℤ := do
  csAssert
  let r1 ← sdCmd fuel 24 (blkArg cfg lba) 0xFF
  if r1 ≠ 0x00 then do
    csDeassert
    return -1
  else do
    let resp ← sendBlock 0xFE src off
    if resp &&& 0x1F ≠ 0x05 then do
      csDeassert
      return -3
    else do
      let rc ← sdWaitNotBusy fuel
      csDeassert
      return rc

def sdStopRead : Cut Wire Unit := do
  txBytes [0x40 ||| 12, 0, 0, 0, 0, 0x61]
  let _ ← spiXfer 0xFF
  let _ ← pollR1 8
  let _ ← sdWaitNotBusy fuel
  return ()

/-- One block of `sd_read_multi`. -/
def readRound (cfg : Config) (_ : ℕ) (_ : Unit) : Cut Wire (ℤ × Unit) := do
  let rc ← sdWaitToken fuel
  if rc ≠ 0 then return (rc, ()) else do
    let rc ← sdRxBlock cfg.pipeline
    if rc ≠ 0 then return (rc, ()) else do
      txBytes [0xFF, 0xFF]
      return (0, ())

def sdReadMulti (cfg : Config) (lba : BitVec 32) (n : ℕ) : Cut Wire ℤ := do
  csAssert
  let r1 ← sdCmd fuel 18 (blkArg cfg lba) 0xFF
  if r1 ≠ 0x00 then do
    csDeassert
    return -1
  else do
    let r ← Cut.untilError (readRound fuel cfg) n 0 ()
    sdStopRead fuel
    csDeassert
    return r.1

/-- One block of `sd_write_multi`. -/
def writeRound (src : Mem) (off b : ℕ) (_ : Unit) : Cut Wire (ℤ × Unit) := do
  let resp ← sendBlock 0xFC src (off + 512 * b)
  if resp &&& 0x1F ≠ 0x05 then return (-3, ()) else do
    let rc ← sdWaitNotBusy fuel
    return (rc, ())

def sdWriteMulti (cfg : Config) (lba : BitVec 32) (src : Mem) (off : ℕ) (n : BitVec 32) : Cut Wire ℤ := do
  csAssert
  let _ ← sdAcmd fuel 23 n
  let r1 ← sdCmd fuel 25 (blkArg cfg lba) 0xFF
  if r1 ≠ 0x00 then do
    csDeassert
    return -1
  else do
    let r ← Cut.untilError (writeRound fuel src off) n.toNat 0 ()
    let _ ← sdWaitNotBusy fuel
    txBytes [0xFD, 0xFF]
    let brc ← sdWaitNotBusy fuel
    csDeassert
    return if r.1 ≠ 0 then r.1 else brc

def sdReadCsd : Cut Wire ℤ := do
  csAssert
  let r1 ← sdCmd fuel 9 0 0xAF
  if r1 ≠ 0x00 then do
    csDeassert
    return -1
  else do
    let t ← tryFor (· == 0xFE) 200000
    if t.isNone then do
      csDeassert
      return -2
    else do
      let _ ← rxBytes 16
      txBytes [0xFF, 0xFF]
      csDeassert
      return 0

/-! ## The disk API -/

/-- `n + 1` tries at most, from try `k` on, until one stops them. -/
def retry (body : ℕ → Cut Wire ℤ) (stop : ℤ → Bool) : ℕ → ℕ → Cut Wire ℤ
  | 0, k => body k
  | n + 1, k => do
    let rc ← body k
    if stop rc then return rc else retry body stop n (k + 1)

/-- `k_mutex_lock` and `k_mutex_unlock` around a use of the card. -/
def locked (p : Cut Wire ℤ) : Cut Wire ℤ := do
  Cut.modify fun w => { w with log := w.log ++ [.lock] }
  let rc ← p
  Cut.modify fun w => { w with log := w.log ++ [.unlock] }
  return rc

def accessInit : Cut Wire ℤ := locked (sdHwInit fuel)

/-- The multi-block tries, if there are any. -/
def multiTries (cfg : Config) (count : BitVec 32) (body : Cut Wire ℤ) : Cut Wire ℤ :=
  if 1 < count.toNat ∧ cfg.multiblock then retry (fun _ => body) (· == 0) (SD_RETRIES - 1) 0 else return -1

/-- The per-block tries, sector by sector, for a request the multi-block tries have not settled. -/
def perBlock (count : BitVec 32) (tries : ℕ → Cut Wire ℤ) (rc : ℤ) : Cut Wire ℤ :=
  if rc = 0 then return 0 else do
    let r ← Cut.untilError (fun i (_ : Unit) => do
      let rc ← tries i
      return (rc, ())) count.toNat 0 ()
    return if r.1 ≠ 0 then - EIO else 0

def accessRead (cfg : Config) (sector count : BitVec 32) : Cut Wire ℤ :=
  if ¬ cfg.ready then return - ENODEV
  else locked do
    let rc ← multiTries cfg count (sdReadMulti fuel cfg sector count.toNat)
    perBlock count (fun i => retry (fun a => sdReadBlock fuel cfg (sector + BitVec.ofNat 32 i)
      (cfg.pipeline && a < SD_RETRIES - 1)) (· == 0) (SD_RETRIES - 1) 0) rc

def accessWrite (cfg : Config) (src : Mem) (sector count : BitVec 32) : Cut Wire ℤ :=
  if ¬ cfg.ready then return - ENODEV
  else locked do
    let rc ← multiTries cfg count (sdWriteMulti fuel cfg sector src 0 count)
    perBlock count (fun i => retry (fun _ => sdWriteBlock fuel cfg (sector + BitVec.ofNat 32 i) src
      (i * 512 % 2 ^ 32)) (fun rc => rc == 0 || rc == -4) (SD_RETRIES - 1) 0) rc

/-- `DISK_IOCTL_GET_SECTOR_COUNT`, up to the decoding of the CSD; no other request touches the card. -/
def sectorCount (cfg : Config) : Cut Wire ℤ :=
  if ¬ cfg.ready then return - ENODEV
  else do
    let rc ← locked (sdReadCsd fuel)
    return if rc ≠ 0 then - EIO else 0

inductive Call where
  | init
  | read (cfg : Config) (sector count : BitVec 32)
  | write (cfg : Config) (src : Mem) (sector count : BitVec 32)
  | sectorCount (cfg : Config)

/-- The call gets as far as the card. -/
def Call.uses : Call → Bool
  | init => true
  | read cfg _ _ | write cfg _ _ _ | sectorCount cfg => cfg.ready

def Call.run : Call → Cut Wire ℤ
  | init => accessInit fuel
  | read cfg sector count => accessRead fuel cfg sector count
  | write cfg src sector count => accessWrite fuel cfg src sector count
  | sectorCount cfg => Pins.sectorCount fuel cfg

/-- `s_ready` is zero at boot, so the first call to get as far as the card is an `init`. -/
def Boot (calls : List Call) : Prop := ∀ c, calls.find? Call.uses = some c → c = .init

def runCalls : List Call → Cut Wire Unit
  | [] => return ()
  | c :: calls => do
    let _ ← c.run fuel
    runCalls calls

end KlaussRuntime.Disk.Pins
