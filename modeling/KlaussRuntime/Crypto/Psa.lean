import KlaussRuntime.Crypto.Drivers
import KlaussRuntime.Crypto.Sha

/-!
# Crypto/Psa — the PSA driver's entry points (`psa_klausscpu.c`)

A PSA hash operation is a context whose state is saved after each call, and a cipher operation one that
keeps its key, the next counter block and the rest of a keystream block.  The entry points check what the
caller asks for and leave the work to the drivers of `Crypto/Sha` and `Crypto/Drivers`; the mutex around
each of those calls is that a call here is one program on the unit.
-/

namespace KlaussRuntime.Crypto

open Machinery

inductive PsaError where
  | notSupported
  | bufferTooSmall
  | invalidArgument
deriving DecidableEq

/-! ## Hash operations -/

/-- `PSA_ALG_SHA_256`. -/
def psaAlgSha256 : BitVec 32 := 0x02000009

def shaCapRestoreBit : BitVec 32 := 1

/-- `sha_hw(alg)`, under what `sha_hw_caps` reads. -/
def shaHw (caps alg : BitVec 32) : Bool := alg == psaAlgSha256 && caps &&& shaCapRestoreBit != 0

/-- A context after `memset(ctx, 0, sizeof(*ctx))`. -/
def Rctx.zero : Rctx := ⟨fun _ => 0, 0, Buffer.zero 64, 0⟩

def psaHashSetup (caps : BitVec 32) (ctx : Rctx) (alg : BitVec 32) : Except PsaError Unit × Rctx :=
  if !shaHw caps alg then (.error .notSupported, ctx) else (.ok (), sha256HwRinit ctx)

/-- `*dst = *src`. -/
def psaHashClone (src : Rctx) : Except PsaError Unit × Rctx := (.ok (), src)

def psaHashAbort : Except PsaError Unit × Rctx := (.ok (), Rctx.zero)

variable (U : ShaCore)

def psaHashUpdate (ctx : Rctx) (input : List Byte) : Prog Sha (Except PsaError Unit × Rctx) := do
  let ctx ← sha256HwRupdate U ctx input
  return (.ok (), ctx)

/-- The hash that goes to the caller's buffer of `hashSize` bytes. -/
def psaHashFinish (ctx : Rctx) (hashSize : ℕ) : Prog Sha (Except PsaError (List Byte) × Rctx) :=
  if hashSize < 32 then return (.error .bufferTooSmall, ctx)
  else do
    let (hash, _) ← sha256HwRfinal U ctx
    return (.ok hash, Rctx.zero)

/-- One message at once; `ctx` is the context on the stack. -/
def psaHashCompute (caps : BitVec 32) (ctx : Rctx) (alg : BitVec 32) (input : List Byte)
    (hashSize : ℕ) : Prog Sha (Except PsaError (List Byte)) :=
  match psaHashSetup caps ctx alg with
  | (.error e, _) => return .error e
  | (.ok (), ctx) => do
    let (_, ctx) ← psaHashUpdate U ctx input
    let (hash, _) ← psaHashFinish U ctx hashSize
    return hash

/-! ## Cipher operations -/

/-- `klausscpu_psa_cipher_ctx_t`. -/
structure CipherCtx where
  key : Buffer 16
  ctr : Buffer 16
  ks : Buffer 16
  left : ℕ

def psaCipherSetIv (ctx : CipherCtx) (iv : List Byte) : Except PsaError Unit × CipherCtx :=
  if iv.length ≠ 16 then (.error .invalidArgument, ctx)
  else (.ok (), { ctx with ctr := ctx.ctr.put 0 iv, left := 0 })

/-- The part of `ctr_crypt` that works on the unit; `len` is not 0. -/
def ctrCryptUnit (C : Cipher) (ctx : CipherCtx) (inp out len : ℕ) : Prog KeyedDev CipherCtx := do
  aesHwSetKey (word (ctx.key.bytes.take 8)) (word (ctx.key.bytes.drop 8))
  let (ctr, ks) ← withKey C fun U => aesCtrHw U ctx.ctr.bytes inp out len false
  return { ctx with
    ctr := ctx.ctr.put 0 ctr, ks := ctx.ks.put 0 (ks.getD [])
    left := if len % 16 ≠ 0 then 16 - len % 16 else 0 }

def ctrCrypt (C : Cipher) (ctx : CipherCtx) (inp out len : ℕ) : Prog KeyedDev CipherCtx := do
  let (left, len, inp, out) ← onDev (useLeft ctx.ks.bytes ctx.left len inp out)
  if len = 0 then return { ctx with left := left }
  else ctrCryptUnit C { ctx with left := left } inp out len

/-- The number of bytes that went to the caller's buffer of `outputSize` bytes. -/
def psaCipherUpdate (C : Cipher) (ctx : CipherCtx) (input inputLength output outputSize : ℕ) :
    Prog KeyedDev (Except PsaError ℕ × CipherCtx) :=
  if outputSize < inputLength then return (.error .bufferTooSmall, ctx)
  else do
    let ctx ← ctrCrypt C ctx input output inputLength
    return (.ok inputLength, ctx)

end KlaussRuntime.Crypto
