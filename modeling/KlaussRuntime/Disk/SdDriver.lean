import KlaussRuntime.Disk.Card
import KlaussRuntime.Machinery.Buffers
import KlaussRuntime.Machinery.Yields

/-!
# Disk/SdDriver — the SD disk driver, byte by byte

The functions of the driver as programs over a `Bus`: the card, and what is left open about the run (the
bytes the card sends, whether a deadline has passed, whether a pipelined block read was late) as a list of
events in the order the driver meets them.  A program that meets an event it does not ask for, or that the
card does not allow, is no run.  `*info` and the profiling counters are left out: they are only logged.

`sd_rx_block` comes in one piece here: the bytes clocked in, and whether it was late; that this is all it
can do is `Disk/RxBlock`'s `returns_of_reaches`.
-/

namespace KlaussRuntime.Disk

open Machinery

inductive Event where
  /-- the card sends a byte -/
  | byte (rx : Byte)
  /-- a deadline is looked at, and has passed or not -/
  | expired (b : Bool)
  /-- a pipelined block read is on time, or late with this in the buffer -/
  | late (buf : Option (Buffer 512))

structure Bus where
  card : Card
  events : List Event

structure Config where
  /-- `s_ready` -/
  ready : Bool
  /-- `s_blockaddr` -/
  blockaddr : Bool
  /-- `klausscpu_sd_pipeline` -/
  pipeline : Bool
  /-- `klausscpu_sd_multiblock` -/
  multiblock : Bool

/-! ## Bytes -/

def spiXfer (tx : Byte) : Prog Bus Byte := fun b =>
  match b.events with
  | .byte rx :: events => (b.card.next tx rx).map fun card => (rx, ⟨card, events⟩)
  | _ => none

/-- `k_uptime_get() >= end`. -/
def expired : Prog Bus Bool := fun b =>
  match b.events with
  | .expired e :: events => some (e, { b with events })
  | _ => none

def lateness : Prog Bus (Option (Buffer 512)) := fun b =>
  match b.events with
  | .late g :: events => some (g, { b with events })
  | _ => none

/-- Bytes whose answers are not looked at. -/
def txBytes : List Byte → Prog Bus Unit
  | [] => pure ()
  | tx :: bs => do
    let _ ← spiXfer tx
    txBytes bs

def rxBytes : ℕ → Prog Bus (List Byte)
  | 0 => pure []
  | n + 1 => do
    let b ← spiXfer 0xFF
    let bs ← rxBytes n
    pure (b :: bs)

/-- Clock the bus until a byte meets `stop`, or the deadline has passed. -/
def pollFor (stop : Byte → Bool) : ℕ → Prog Bus (Option Byte)
  | 0 => fun _ => none
  | n + 1 => do
    let r ← spiXfer 0xFF
    if stop r then pure (some r) else do
      let e ← expired
      if e then pure none else pollFor stop n

/-- …for as long as there are events. -/
def poll (stop : Byte → Bool) : Prog Bus (Option Byte) := fun b => pollFor stop b.events.length b

def csAssert : Prog Bus Unit := pure ()

def csDeassert : Prog Bus Unit := modify fun b => { b with card := b.card.deselect }

/-! ## Commands -/

def sdWaitReady : Prog Bus ℤ := do
  let r ← poll (· == 0xFF)
  pure (if r.isSome then 0 else -1)

/-- The loop for R1. -/
def pollR1 : ℕ → Prog Bus Byte
  | 0 => pure 0xFF
  | n + 1 => do
    let r ← spiXfer 0xFF
    if r &&& 0x80 = 0 then pure r else pollR1 n

/-- The six bytes of a command. -/
def frame (cmd : Byte) (arg : BitVec 32) (crc : Byte) : List Byte :=
  [0x40 ||| (cmd &&& 0x3F), (arg >>> 24).setWidth 8, (arg >>> 16).setWidth 8, (arg >>> 8).setWidth 8,
    arg.setWidth 8, crc ||| 0x01]

def sdCmd (cmd : Byte) (arg : BitVec 32) (crc : Byte) : Prog Bus Byte := do
  let rc ← if cmd = 0 then do
      let _ ← spiXfer 0xFF
      pure 0
    else sdWaitReady
  if rc ≠ 0 then pure 0xFF else do
    txBytes (frame cmd arg crc)
    pollR1 8

def sdAcmd (acmd : Byte) (arg : BitVec 32) : Prog Bus Byte := do
  let _ ← sdCmd 55 0 0x65
  sdCmd acmd arg 0x77

def blkArg (cfg : Config) (lba : BitVec 32) : BitVec 32 := if cfg.blockaddr then lba else lba * 512

/-! ## Data blocks -/

/-- `sd_rx_block`, into `buf + off`. -/
def sdRxBlock (pipe : Bool) (buf : Mem) (off : ℕ) : Prog Bus (ℤ × Mem) := do
  let bs ← rxBytes 512
  if pipe then do
    let late ← lateness
    match late with
    | none => pure (0, buf.write off bs)
    | some g => pure (-5, buf.write off g.bytes)
  else pure (0, buf.write off bs)

/-- `sd_tx_block`, from `src + off`. -/
def sdTxBlock (src : Mem) (off : ℕ) : Prog Bus Unit := txBytes (src.read off 512)

def sdWaitToken : Prog Bus ℤ := do
  let t ← poll (· != 0xFF)
  pure (match t with
    | none => -2
    | some t => if t ≠ 0xFE then -3 else 0)

def sdWaitNotBusy : Prog Bus ℤ := do
  let r ← poll (· != 0x00)
  pure (if r.isSome then 0 else -4)

def sdReadBlock (cfg : Config) (lba : BitVec 32) (buf : Mem) (off : ℕ) (pipe : Bool) :
    Prog Bus (ℤ × Mem) := do
  csAssert
  let r1 ← sdCmd 17 (blkArg cfg lba) 0xFF
  if r1 ≠ 0x00 then do
    csDeassert
    pure (-1, buf)
  else do
    let rc ← sdWaitToken
    if rc ≠ 0 then do
      csDeassert
      pure (rc, buf)
    else do
      let r ← sdRxBlock pipe buf off
      txBytes [0xFF, 0xFF]
      csDeassert
      pure r

/-- A data block behind its token, two bytes for the CRC, and the data response. -/
def sendBlock (token : Byte) (src : Mem) (off : ℕ) : Prog Bus Byte := do
  txBytes [0xFF, token]
  sdTxBlock src off
  txBytes [0xFF, 0xFF]
  spiXfer 0xFF

def sdWriteBlock (cfg : Config) (lba : BitVec 32) (src : Mem) (off : ℕ) : Prog Bus ℤ := do
  csAssert
  let r1 ← sdCmd 24 (blkArg cfg lba) 0xFF
  if r1 ≠ 0x00 then do
    csDeassert
    pure (-1)
  else do
    let resp ← sendBlock 0xFE src off
    if resp &&& 0x1F ≠ 0x05 then do
      csDeassert
      pure (-3)
    else do
      let rc ← sdWaitNotBusy
      csDeassert
      pure rc

def sdStopRead : Prog Bus Unit := do
  txBytes [0x40 ||| 12, 0, 0, 0, 0, 0x61, 0xFF]
  let _ ← pollR1 8
  let _ ← sdWaitNotBusy

/-- One block of `sd_read_multi`. -/
def readRound (cfg : Config) (off b : ℕ) (buf : Mem) : Prog Bus (ℤ × Mem) := do
  let rc ← sdWaitToken
  if rc ≠ 0 then pure (rc, buf) else do
    let r ← sdRxBlock cfg.pipeline buf (off + 512 * b)
    if r.1 ≠ 0 then pure r else do
      txBytes [0xFF, 0xFF]
      pure r

def sdReadMulti (cfg : Config) (lba : BitVec 32) (buf : Mem) (off n : ℕ) : Prog Bus (ℤ × Mem) := do
  csAssert
  let r1 ← sdCmd 18 (blkArg cfg lba) 0xFF
  if r1 ≠ 0x00 then do
    csDeassert
    pure (-1, buf)
  else do
    let r ← untilError (readRound cfg off) n 0 buf
    sdStopRead
    csDeassert
    pure r

/-- One block of `sd_write_multi`. -/
def writeRound (src : Mem) (off b : ℕ) (_ : Unit) : Prog Bus (ℤ × Unit) := do
  let resp ← sendBlock 0xFC src (off + 512 * b)
  if resp &&& 0x1F ≠ 0x05 then pure (-3, ())
  else do
    let rc ← sdWaitNotBusy
    pure (rc, ())

def sdWriteMulti (cfg : Config) (lba : BitVec 32) (src : Mem) (off : ℕ) (n : BitVec 32) : Prog Bus ℤ := do
  csAssert
  let _ ← sdAcmd 23 n
  let r1 ← sdCmd 25 (blkArg cfg lba) 0xFF
  if r1 ≠ 0x00 then do
    csDeassert
    pure (-1)
  else do
    let r ← untilError (writeRound src off) n.toNat 0 ()
    let _ ← sdWaitNotBusy
    txBytes [0xFD, 0xFF]
    let brc ← sdWaitNotBusy
    csDeassert
    pure (if r.1 ≠ 0 then r.1 else brc)

/-! ## The disk API -/

def SD_RETRIES : ℕ := 3

def ENODEV : ℤ := 19

def EIO : ℤ := 5

/-- The multi-block tries of a read, if there are any. -/
def readMultiTries (cfg : Config) (sector count : BitVec 32) (buf : Mem) : Prog Bus (ℤ × Mem) :=
  if 1 < count.toNat ∧ cfg.multiblock then
    retry (fun _ r => sdReadMulti cfg sector r.2 0 count.toNat) (fun r => r.1 == 0) (SD_RETRIES - 1) 0
      (0, buf)
  else pure (-1, buf)

/-- The tries for block `i` of a read. -/
def readTries (cfg : Config) (sector : BitVec 32) (i : ℕ) (buf : Mem) : Prog Bus (ℤ × Mem) :=
  retry (fun a r => sdReadBlock cfg (sector + BitVec.ofNat 32 i) r.2 (i * 512 % 2 ^ 32)
    (cfg.pipeline && a < SD_RETRIES - 1)) (fun r => r.1 == 0) (SD_RETRIES - 1) 0 (0, buf)

def accessRead (cfg : Config) (buf : Mem) (sector count : BitVec 32) : Prog Bus (ℤ × Mem) :=
  if ¬ cfg.ready then pure (-ENODEV, buf) else do
    let r ← readMultiTries cfg sector count buf
    if r.1 = 0 then pure r else do
      let r ← untilError (readTries cfg sector) count.toNat 0 r.2
      pure (if r.1 ≠ 0 then - EIO else 0, r.2)

/-- The multi-block tries of a write, if there are any. -/
def writeMultiTries (cfg : Config) (src : Mem) (sector count : BitVec 32) : Prog Bus ℤ :=
  if 1 < count.toNat ∧ cfg.multiblock then
    retry (fun _ _ => sdWriteMulti cfg sector src 0 count) (fun rc => rc == 0) (SD_RETRIES - 1) 0 0
  else pure (-1)

/-- The tries for block `i` of a write; a card that stays busy gets no other. -/
def writeTries (cfg : Config) (src : Mem) (sector : BitVec 32) (i : ℕ) (_ : Unit) : Prog Bus (ℤ × Unit) := do
  let rc ← retry (fun _ _ => sdWriteBlock cfg (sector + BitVec.ofNat 32 i) src (i * 512 % 2 ^ 32))
    (fun rc => rc == 0 || rc == -4) (SD_RETRIES - 1) 0 0
  pure (rc, ())

def accessWrite (cfg : Config) (src : Mem) (sector count : BitVec 32) : Prog Bus ℤ :=
  if ¬ cfg.ready then pure (-ENODEV) else do
    let rc ← writeMultiTries cfg src sector count
    if rc = 0 then pure 0 else do
      let r ← untilError (writeTries cfg src sector) count.toNat 0 ()
      pure (if r.1 ≠ 0 then - EIO else 0)

end KlaussRuntime.Disk
