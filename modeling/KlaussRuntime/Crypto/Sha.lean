import KlaussRuntime.Machinery.Buffers
import KlaussRuntime.Machinery.Hashing
import KlaussRuntime.Machinery.Runs

/-!
# Crypto/Sha — the SHA-256 and HMAC units, and the drivers on them (`crypto_hw.c`)

The unit compresses one block per START into H and knows nothing of messages: padding, lengths and
partial blocks are the drivers' work.  H can be preset (INIT, RESTORE, and the HMAC wrapper's two
midstates) and read back.  As with the AES unit, an access while a job runs is a fault, and so is a wait
for a DONE that no job brings.

Three ways to hash are here — one-shot (`sha256Hw`), streaming with the state left in the unit
(`sha256HwUpdate`), streaming with the state saved after each call (`sha256HwRupdate`) — and three ways
to compute HMAC on top of them (`hmacSha256Sw`, `hmacSha256HwRmac`, `hmacSha256Hw`).
-/

namespace KlaussRuntime.Crypto

open Machinery Machinery.Hashing

/-- An array of 64-bit registers. -/
abbrev Words (n : ℕ) := Fin n → BitVec 64

/-- What the SHA unit computes: the compression of a block, and whatever a key load leaves in H. -/
structure ShaCore where
  compress : Words 4 → Words 8 → Words 4
  afterKeyLoad : Words 4 → Words 4

/-- The initial hash value of SHA-256 (FIPS 180-4, 5.3.3), as the bytes of a digest. -/
def initialHash : List Byte :=
  [0x6a09e667, 0xbb67ae85, 0x3c6ef372, 0xa54ff53a, 0x510e527f, 0x9b05688c, 0x1f83d9ab,
    0x5be0cd19].flatMap (beBytes 4)

namespace ShaCore

variable (U : ShaCore)

/-- The compression of 64 bytes. -/
def step (h : Words 4) (bs : List Byte) : Words 4 := U.compress h (words 8 bs)

/-- **SHA-256** (FIPS 180-4) over the unit's compression function. -/
def sha256 (m : List Byte) : List Byte :=
  wordsBytes (digest U.step 64 8 (words 4 initialHash) m)

/-- **HMAC-SHA-256** (RFC 2104). -/
def hmac (key text : List Byte) : List Byte := Hashing.hmac U.sha256 64 key text

end ShaCore

/-! ## The unit -/

inductive ShaJob where
  /-- SHA_STATUS_BUSY, with the H that will come out -/
  | block (h : Words 4)
  /-- HMAC_STATUS_BUSY -/
  | keyLoad

structure Sha where
  /-- H, which SHA_DIGEST shows -/
  h : Words 4
  hin : Words 4
  blk : Words 8
  /-- SHA_STATUS_DONE -/
  done : Bool
  job : Option ShaJob
  /-- HMAC_KEY -/
  key : Words 4
  /-- the states after the ipad and the opad block of the loaded key -/
  inner : Words 4
  outer : Words 4

namespace Sha

variable {α : Type} (U : ShaCore)

/-- A register access, faulting while a job runs. -/
def access (f : Sha → α × Sha) : Prog Sha α := gated (fun u => u.job.isSome) f

def writeBlock (ws : Words 8) : Prog Sha Unit := access fun u => ((), { u with blk := ws })

def writeHin (ws : Words 4) : Prog Sha Unit := access fun u => ((), { u with hin := ws })

def readDigest : Prog Sha (Words 4) := access fun u => (u.h, u)

/-- `SHA_CTRL = INIT`: a reset of H; it brings no DONE. -/
def init : Prog Sha Unit := access fun u => ((), { u with h := words 4 initialHash })

/-- `SHA_CTRL = START`. -/
def start : Prog Sha Unit := access fun u => ((),
  { u with done := false, job := some (.block (U.compress u.h u.blk)) })

/-- `SHA_CTRL = RESTORE | START`: `H <- HIN`, and one block. -/
def restoreStart : Prog Sha Unit := access fun u => ((),
  { u with h := u.hin, done := false, job := some (.block (U.compress u.hin u.blk)) })

def writeKey (ws : Words 4) : Prog Sha Unit := access fun u => ((), { u with key := ws })

/-- `HMAC_CTRL = KEY_LOAD`: computes the two midstates. -/
def keyLoad : Prog Sha Unit := access fun u => ((), { u with job := some .keyLoad })

/-- `HMAC_CTRL = START`: `H <- inner`. -/
def hmacStart : Prog Sha Unit := access fun u => ((), { u with h := u.inner })

/-- `HMAC_CTRL = FINAL`: `H <- outer`. -/
def hmacFinal : Prog Sha Unit := access fun u => ((), { u with h := u.outer })

/-- The 256-bit key as a block of 64 bytes. -/
def keyOf (u : Sha) : List Byte := wordsBytes u.key ++ List.replicate 32 0

/-- The unit once its job is over. -/
def finish (u : Sha) : Sha :=
  match u.job with
  | some (.block h) => { u with h := h, done := true, job := none }
  | some .keyLoad => { u with
      h := U.afterKeyLoad u.key, job := none
      inner := U.step (words 4 initialHash) (ipad u.keyOf)
      outer := U.step (words 4 initialHash) (opad u.keyOf) }
  | none => u

/-- `sha_wait`: until DONE stands. -/
def wait : Prog Sha Unit := fun u =>
  if (u.finish U).done then some ((), u.finish U) else none

/-- `sha_wait_idle`: until BUSY falls. -/
def waitIdle : Prog Sha Unit := fun u => some ((), u.finish U)

/-- `hmac_wait`: until the wrapper's BUSY falls, which only a key load sets. -/
def hmacWait : Prog Sha Unit := fun u => match u.job with
  | some .keyLoad => some ((), u.finish U)
  | _ => some ((), u)

end Sha

/-! ## SHA-256 -/

variable (U : ShaCore)

/-- `sha_write_block(data)`, START, `sha_wait`. -/
def compressBlock (data : List Byte) : Prog Sha Unit := do
  Sha.writeBlock (words 8 data)
  Sha.start U
  Sha.wait U

/-- The 64 bytes at `data + 64 * i`. -/
def block64 (data : List Byte) (i : ℕ) : List Byte := (data.drop (64 * i)).take 64

/-- `while (len >= 64)`: a block at a time. -/
def compressBlocks (data : List Byte) (n : ℕ) : Prog Sha Unit :=
  loop (fun i _ => compressBlock U (block64 data i)) n ()

def shaReadDigest : Prog Sha (List Byte) := do return wordsBytes (← Sha.readDigest)

/-- `pad[128]` with the rest of the message and the byte 0x80 behind it. -/
def padArray (rest : List Byte) : List Byte :=
  (put 0 rest (List.replicate 128 0)).set rest.length 0x80

/-- `(partial_len < 56) ? 1 : 2`. -/
def padBlocks (rest : List Byte) : ℕ := if rest.length < 56 then 1 else 2

/-- The one or two blocks of `pad`. -/
def compressPad (pad : List Byte) (blocks : ℕ) : Prog Sha Unit := do
  (if blocks = 2 then compressBlock U (block64 pad 0) else pure ())
  compressBlock U (block64 pad (blocks - 1))

def shaFinalize (rest : List Byte) (totalBits : BitVec 64) : Prog Sha (List Byte) := do
  let blocks := padBlocks rest
  let pad := put (blocks * 64 - 8)
    ([56, 48, 40, 32, 24, 16, 8, 0].map fun i => (totalBits >>> i).setWidth 8) (padArray rest)
  compressPad U pad blocks
  shaReadDigest

def sha256Hw (msg : List Byte) : Prog Sha (List Byte) := do
  Sha.init
  compressBlocks U msg (msg.length / 64)
  shaFinalize U (msg.drop (64 * (msg.length / 64))) (BitVec.ofNat 64 msg.length * 8)

/-! ## SHA-256, streaming -/

/-- `sha256_ctx_t`; what `buf` holds behind `buf_len` is left over from before. -/
structure Sha256Ctx where
  totalBytes : BitVec 64
  buf : Buffer 64
  bufLen : ℕ
  initialized : Bool

def sha256HwInit (ctx : Sha256Ctx) : Prog Sha Sha256Ctx := do
  Sha.init
  return { ctx with totalBytes := 0, bufLen := 0, initialized := true }

/-- The bytes kept from before are filled up first; returns what of the data is still to do. -/
def fillBuf (ctx : Sha256Ctx) (data : List Byte) : Prog Sha (Sha256Ctx × List Byte) :=
  if ctx.bufLen > 0 then do
    let need := 64 - ctx.bufLen
    let take := if data.length < need then data.length else need
    let ctx := { ctx with
      buf := ctx.buf.put ctx.bufLen (data.take take), bufLen := ctx.bufLen + take }
    if ctx.bufLen = 64 then
      compressBlock U ctx.buf.bytes
      return ({ ctx with bufLen := 0 }, data.drop take)
    else return (ctx, data.drop take)
  else return (ctx, data)

def sha256HwUpdate (ctx : Sha256Ctx) (data : List Byte) : Prog Sha Sha256Ctx := do
  let ctx := { ctx with totalBytes := ctx.totalBytes + BitVec.ofNat 64 data.length }
  let (ctx, data) ← fillBuf U ctx data
  compressBlocks U data (data.length / 64)
  let rest := data.drop (64 * (data.length / 64))
  return if rest.length > 0 then { ctx with buf := ctx.buf.put 0 rest, bufLen := rest.length }
    else ctx

/-- The digest, and the context with `initialized = 0`. -/
def sha256HwFinal (ctx : Sha256Ctx) : Prog Sha (List Byte × Sha256Ctx) := do
  let out ← shaFinalize U (ctx.buf.bytes.take ctx.bufLen) (ctx.totalBytes * 8)
  return (out, { ctx with initialized := false })

/-! ## SHA-256 with the state saved after each call -/

def sha256Iv : List Byte :=
  [0x6a, 0x09, 0xe6, 0x67, 0xbb, 0x67, 0xae, 0x85,
    0x3c, 0x6e, 0xf3, 0x72, 0xa5, 0x4f, 0xf5, 0x3a,
    0x51, 0x0e, 0x52, 0x7f, 0x9b, 0x05, 0x68, 0x8c,
    0x1f, 0x83, 0xd9, 0xab, 0x5b, 0xe0, 0xcd, 0x19]

/-- One round of `sha_r_blocks`: the first block goes with the RESTORE. -/
def rBlock (data : List Byte) (b : ℕ) : Prog Sha Unit := do
  Sha.writeBlock (words 8 (block64 data b))
  (if b = 0 then Sha.restoreStart U else Sha.start U)
  Sha.waitIdle U
  Sha.wait U

def shaRBlocks (h : Words 4) (data : List Byte) (nBlocks : ℕ) : Prog Sha (Words 4) :=
  if nBlocks = 0 then return h
  else do
    Sha.waitIdle U
    Sha.writeHin h
    loop (fun b _ => rBlock U data b) nBlocks ()
    Sha.readDigest

/-- `sha256_hw_rctx_t`. -/
structure Rctx where
  h : Words 4
  totalBytes : BitVec 64
  buf : Buffer 64
  bufLen : ℕ

def sha256HwRinit (ctx : Rctx) : Rctx :=
  { ctx with h := words 4 sha256Iv, totalBytes := 0, bufLen := 0 }

def sha256HwRinitFrom (ctx : Rctx) (h : Words 4) (hashed : BitVec 64) : Rctx :=
  { ctx with h := h, totalBytes := hashed, bufLen := 0 }

/-- The part of an update that starts with an empty buffer. -/
def rupdateBlocks (ctx : Rctx) (data : List Byte) : Prog Sha Rctx := do
  let n := data.length / 64
  let h ← shaRBlocks U ctx.h data n
  let rest := data.drop (n * 64)
  return if rest.length > 0 then
      { ctx with h := h, buf := ctx.buf.put 0 rest, bufLen := rest.length }
    else { ctx with h := h }

def sha256HwRupdate (ctx : Rctx) (data : List Byte) : Prog Sha Rctx :=
  let ctx := { ctx with totalBytes := ctx.totalBytes + BitVec.ofNat 64 data.length }
  if ctx.bufLen > 0 then do
    let take := if 64 - ctx.bufLen > data.length then data.length else 64 - ctx.bufLen
    let ctx := { ctx with
      buf := ctx.buf.put ctx.bufLen (data.take take), bufLen := ctx.bufLen + take }
    if ctx.bufLen < 64 then return ctx
    else
      let h ← shaRBlocks U ctx.h ctx.buf.bytes 1
      rupdateBlocks U { ctx with h := h, bufLen := 0 } (data.drop take)
  else rupdateBlocks U ctx data

/-- `pad[128]` with the length in bits at the end of its last block. -/
def padFinal (rest : List Byte) (bits : BitVec 64) : List Byte :=
  (List.range 8).foldl
    (fun pad i => pad.set (padBlocks rest * 64 - 1 - i) ((bits >>> (8 * i)).setWidth 8))
    (padArray rest)

/-- The digest, and the context: its state is now the digest, and its buffer is empty. -/
def sha256HwRfinal (ctx : Rctx) : Prog Sha (List Byte × Rctx) := do
  let rest := ctx.buf.bytes.take ctx.bufLen
  let h ← shaRBlocks U ctx.h (padFinal rest (ctx.totalBytes * 8)) (padBlocks rest)
  return (wordsBytes h, { ctx with h := h, bufLen := 0 })

/-! ## HMAC-SHA-256 -/

/-- `hmac_sha256_hw_key_t`: the states after the ipad and the opad block. -/
structure HmacKey where
  ih : Words 4
  oh : Words 4

/-- `k0[64]`: the hash of a long key, or the key, and zeros. -/
def rkeyBlock (c : Rctx) (key : List Byte) : Prog Sha (List Byte) :=
  if key.length > 64 then do
    let c ← sha256HwRupdate U (sha256HwRinit c) key
    let (out, _) ← sha256HwRfinal U c
    return put 0 out (List.replicate 64 0)
  else return put 0 key (List.replicate 64 0)

/-- Sets up a key; `c` is the context on the stack, with whatever the stack held. -/
def hmacSha256HwRkey (c : Rctx) (key : List Byte) : Prog Sha HmacKey := do
  let k0 ← rkeyBlock U c key
  let ih ← shaRBlocks U (sha256HwRinit c).h (k0.map (· ^^^ 0x36)) 1
  let oh ← shaRBlocks U (sha256HwRinit c).h (k0.map (· ^^^ 0x5c)) 1
  return ⟨ih, oh⟩

def hmacSha256HwRmac (c : Rctx) (k : HmacKey) (msg : List Byte) : Prog Sha (List Byte) := do
  let c ← sha256HwRupdate U (sha256HwRinitFrom c k.ih 64) msg
  let (inner, c) ← sha256HwRfinal U c
  let c ← sha256HwRupdate U (sha256HwRinitFrom c k.oh 64) inner
  let (out, _) ← sha256HwRfinal U c
  return out

/-- The wrapper's inner hash; `fin[128]` takes the rest of the message, and the length counts the ipad
block that KEY_LOAD has compressed. -/
def hmacInner (msg : List Byte) : Prog Sha (List Byte) := do
  Sha.hmacStart
  Sha.hmacWait U
  compressBlocks U msg (msg.length / 64)
  let rest := msg.drop (64 * (msg.length / 64))
  compressBlocks U (padFinal rest (512 + BitVec.ofNat 64 msg.length * 8)) (padBlocks rest)
  shaReadDigest

/-- `ob[64]`: the inner digest, padded as the end of a message of 96 bytes. -/
def outerBlock (inner : List Byte) : List Byte :=
  (List.range 8).foldl
    (fun ob i => ob.set (63 - i) (((768 : BitVec 64) >>> (i * 8)).setWidth 8))
    ((put 0 inner (List.replicate 64 0)).set 32 0x80)

/-- The wrapper's outer hash. -/
def hmacOuter (inner : List Byte) : Prog Sha (List Byte) := do
  Sha.hmacFinal
  Sha.hmacWait U
  compressBlock U (outerBlock inner)
  shaReadDigest

/-- The hardware wrapper; of a key longer than 32 bytes it takes the first 32. -/
def hmacSha256Hw (key msg : List Byte) : Prog Sha (List Byte) := do
  let keyLen := if key.length > 32 then 32 else key.length
  Sha.writeKey (words 4 (put 0 (key.take keyLen) (List.replicate 32 0)))
  Sha.keyLoad
  Sha.hmacWait U
  let inner ← hmacInner U msg
  hmacOuter U inner

/-- `k[64]`, the long key hashed at once. -/
def swKeyBlock (key : List Byte) : Prog Sha (List Byte) :=
  if key.length > 64 then do
    let out ← sha256Hw U key
    return put 0 out (List.replicate 64 0)
  else return put 0 key (List.replicate 64 0)

/-- HMAC on the streaming hash; `ctx` is the context on the stack. -/
def hmacSha256Sw (ctx : Sha256Ctx) (key msg : List Byte) : Prog Sha (List Byte) := do
  let k ← swKeyBlock U key
  let ctx ← sha256HwInit ctx
  let ctx ← sha256HwUpdate U ctx (k.map (· ^^^ 0x36))
  let ctx ← sha256HwUpdate U ctx msg
  let (inner, ctx) ← sha256HwFinal U ctx
  let ctx ← sha256HwInit ctx
  let ctx ← sha256HwUpdate U ctx (k.map (· ^^^ 0x5c))
  let ctx ← sha256HwUpdate U ctx inner
  let (out, _) ← sha256HwFinal U ctx
  return out

end KlaussRuntime.Crypto
