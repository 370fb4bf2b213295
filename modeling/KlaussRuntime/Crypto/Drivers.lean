import KlaussRuntime.Crypto.Units

/-!
# Crypto/Drivers — AES-CTR and AES-GCM on the units (`crypto_hw.c`)

The drivers work on byte memory, so a caller may pass one buffer as input and output.  Depending on
what the bitstream offers, GCM runs in one pass with the GHASH unit working alongside the AES unit
(`gcmCtrGhash`), with the unit's counter mode and a hash pass over the ciphertext (`aesCtrHw`), or with
raw blocks and a counter in software (`ctrSoft`); and CTR with the unit's counter mode or with raw blocks
(`aesCtr`).  All of them work under the key that is loaded (`withKey`).
-/

namespace KlaussRuntime.Crypto

open Machinery Machinery.Gcm

/-- The memory and the two units. -/
structure Dev where
  mem : Mem
  aes : Aes
  gcm : Ghash

variable {α : Type} (U : Units)

def onAes (p : Prog Aes α) : Prog Dev α := zoom Dev.aes (fun a d => { d with aes := a }) p

def onGcm (p : Prog Ghash α) : Prog Dev α := zoom Dev.gcm (fun g d => { d with gcm := g }) p

/-- `n` bytes at `p`. -/
def load (p n : ℕ) : Prog Dev (List Byte) := do return (← get).mem.read p n

/-- Bytes stored at `p`. -/
def store (p : ℕ) (bs : List Byte) : Prog Dev Unit :=
  modify fun d => { d with mem := d.mem.write p bs }

def ld64 (p : ℕ) : Prog Dev (BitVec 64) := do return word (← load p 8)

def st64 (p : ℕ) (v : BitVec 64) : Prog Dev Unit := store p (wordBytes v)

/-- A 16-byte array that starts with `bs` and is zero from there on. -/
def padded (bs : List Byte) : List Byte := bs ++ List.replicate (16 - bs.length) 0

/-! ## AES -/

def aesHwEncrypt (lo hi : BitVec 64) : Prog Aes (BitVec 64 × BitVec 64) := do
  Aes.writeIn0 lo
  Aes.writeIn1 U hi
  Aes.goEnc U
  Aes.wait
  Aes.readOut

/-- One CTR block on the unit, stored at `out`. -/
def ctrBlock (inp out : ℕ) : Prog Dev Unit := do
  let i0 ← ld64 inp
  let i1 ← ld64 (inp + 8)
  onAes do Aes.writeIn0 i0; Aes.writeIn1 U i1
  let (o0, o1) ← onAes do Aes.waitOut; Aes.readOut
  st64 out o0
  st64 (out + 8) o1

/-- The last `rest` bytes, as a zero-padded block: its input and its output. -/
def ctrTail (inp out rest : ℕ) : Prog Dev (List Byte × List Byte) := do
  let blk := padded (← load inp rest)
  onAes do Aes.writeIn0 (word (blk.take 8)); Aes.writeIn1 U (word (blk.drop 8))
  let (o0, o1) ← onAes do Aes.waitOut; Aes.readOut
  let o := wordBytes o0 ++ wordBytes o1
  store out (o.take rest)
  return (blk, o)

/-- The tail of `aes_ctr_hw`, with the keystream block it leaves in `ks_tail`. -/
def ctrHwTail (inp out rest : ℕ) : Prog Dev (Option (List Byte)) :=
  if rest > 0 then do
    let (blk, o) ← ctrTail U inp out rest
    return some (xorBytes o blk)
  else pure none

/-- Counter mode on the unit.  Returns the counter block afterwards and `ks_tail`. -/
def aesCtrHw (ctr : List Byte) (inp out len : ℕ) (inc32 : Bool) :
    Prog Dev (List Byte × Option (List Byte)) := do
  onAes Aes.wait
  onAes do Aes.writeCtr (word (ctr.take 8)) (word (ctr.drop 8)); Aes.writeMode true inc32
  loop (fun i _ => ctrBlock U (inp + 16 * i) (out + 16 * i)) (len / 16) ()
  let ksTail ← ctrHwTail U (inp + 16 * (len / 16)) (out + 16 * (len / 16)) (len % 16)
  let (c0, c1) ← onAes Aes.readCtr
  onAes (Aes.writeMode false false)
  return (wordBytes c0 ++ wordBytes c1, ksTail)

/-! ## GHASH -/

def bswap64 (v : BitVec 64) : BitVec 64 :=
  (v &&& 0xFF00000000000000#64) >>> 56 ||| (v &&& 0x00FF000000000000#64) >>> 40
    ||| (v &&& 0x0000FF0000000000#64) >>> 24 ||| (v &&& 0x000000FF00000000#64) >>> 8
    ||| (v &&& 0x00000000FF000000#64) <<< 8 ||| (v &&& 0x0000000000FF0000#64) <<< 24
    ||| (v &&& 0x000000000000FF00#64) <<< 40 ||| (v &&& 0x00000000000000FF#64) <<< 56

/-- `for (i = 15; i >= 12; i--) if (++ctr[i]) break;`, the rounds still to go counted down. -/
def ctrIncFrom : ℕ → List Byte → List Byte
  | 0, ctr => ctr
  | k + 1, ctr =>
    let b := ctr.getD (12 + k) 0 + 1
    let ctr := ctr.set (12 + k) b
    if b ≠ 0 then ctr else ctrIncFrom k ctr

def ctrInc (ctr : List Byte) : List Byte := ctrIncFrom 4 ctr

/-- Hash one block of up to 16 bytes, padded with zeros. -/
def ghashBlock (data : List Byte) : Prog Ghash Unit :=
  if data.length = 16 then Ghash.gcmGhashBlock U (word (data.take 8)) (word (data.drop 8))
  else
    let blk := padded (data.take 16)
    Ghash.gcmGhashBlock U (word (blk.take 8)) (word (blk.drop 8))

/-- `(len - off >= 16) ? 16 : (len - off)`. -/
def pieceLen (len i : ℕ) : ℕ := if len - 16 * i ≥ 16 then 16 else len - 16 * i

/-- `for (off = 0; off < len; off += 16) ghash_block(p + off, …)`. -/
def ghashRegion (p len : ℕ) : Prog Dev Unit :=
  loop (fun i _ => do
    let data ← load (p + 16 * i) (pieceLen len i)
    onGcm (ghashBlock U data)) (nBlocks len) ()

/-! ## The single pass -/

/-- The block GHASH still owes. -/
structure Owed where
  p0 : BitVec 64
  p1 : BitVec 64
  pending : Bool

def payOwed (o : Owed) : Prog Ghash Unit :=
  if o.pending then do
    Ghash.waitDone U
    Ghash.writeX o.p0 o.p1
    Ghash.go
  else pure ()

/-- One round: the AES unit works on this block while GHASH takes in the block it owes, this one when
decrypting, the one before when encrypting. -/
def gcmRound (inp out : ℕ) (dec : Bool) (owed : Owed) : Prog Dev Owed := do
  let i0 ← ld64 inp
  let i1 ← ld64 (inp + 8)
  onAes do Aes.writeIn0 i0; Aes.writeIn1 U i1
  let owed := if dec then ⟨i0, i1, true⟩ else owed
  onGcm (payOwed U owed)
  let (o0, o1) ← onAes do Aes.waitOut; Aes.readOut
  st64 out o0
  st64 (out + 8) o1
  return if dec then { owed with pending := false } else ⟨o0, o1, true⟩

/-- The tail; the partial block is hashed zero-padded, its ciphertext bytes only. -/
def gcmTail (inp out rest : ℕ) (dec : Bool) : Prog Dev Unit :=
  if rest > 0 then do
    let (blk, o) ← ctrTail U inp out rest
    let h := padded ((if dec then blk else o).take rest)
    onGcm (Ghash.waitDone U)
    onGcm (Ghash.gcmGhashBlock U (word (h.take 8)) (word (h.drop 8)))
  else pure ()

def gcmCtrGhash (inp out len : ℕ) (dec : Bool) : Prog Dev Unit := do
  let owed ← loop (fun i owed => gcmRound U (inp + 16 * i) (out + 16 * i) dec owed)
    (len / 16) ⟨0, 0, false⟩
  onGcm (payOwed U owed)
  gcmTail U (inp + 16 * (len / 16)) (out + 16 * (len / 16)) (len % 16) dec
  onGcm (Ghash.waitDone U)
  onAes (Aes.writeMode false false)

def gcmCtrSetup (iv aad aadLen : ℕ) : Prog Dev (BitVec 64 × BitVec 64) := do
  onAes Aes.wait
  onAes (Aes.writeMode false false)
  let (h0, h1) ← onAes (aesHwEncrypt U 0 0)
  onGcm (Ghash.writeH h0 h1)
  onGcm Ghash.reset
  ghashRegion U aad aadLen
  -- E_K(J0) as a CTR block with IN = 0; CTR is then J0+1
  let j0 := (← load iv 12) ++ [0, 0, 0, 1]
  onAes do Aes.writeCtr (word (j0.take 8)) (word (j0.drop 8)); Aes.writeMode true true
  onAes do Aes.writeIn0 0; Aes.writeIn1 U 0
  onAes do Aes.waitOut; Aes.readOut

/-- The length block, and the tag under the mask. -/
def gcmCtrTag (aadLen len : ℕ) (m0 m1 : BitVec 64) : Prog Ghash (List Byte) := do
  Ghash.gcmGhashBlock U (bswap64 (BitVec.ofNat 64 aadLen * 8)) (bswap64 (BitVec.ofNat 64 len * 8))
  let (t0, t1) ← Ghash.readTag
  return wordBytes (t0 ^^^ m0) ++ wordBytes (t1 ^^^ m1)

/-! ## The two passes -/

/-- H, the tag mask and the AAD, as both directions begin without the single pass. -/
def gcmPrelude (iv aad aadLen : ℕ) : Prog Dev (BitVec 64 × BitVec 64) := do
  let (h0, h1) ← onAes (aesHwEncrypt U 0 0)
  onGcm (Ghash.writeH h0 h1)
  let j0 := (← load iv 12) ++ [0, 0, 0, 1]
  let mask ← onAes (aesHwEncrypt U (word (j0.take 8)) (word (j0.drop 8)))
  onGcm Ghash.reset
  ghashRegion U aad aadLen
  return mask

/-- One round of the counter loop in software: the next counter block, its keystream, the text. -/
def softRound (inp out n : ℕ) (hash : Bool) (ctr : List Byte) : Prog Dev (List Byte) := do
  let ctr := ctrInc ctr
  let (k0, k1) ← onAes (aesHwEncrypt U (word (ctr.take 8)) (word (ctr.drop 8)))
  let blk := padded (← load inp n)
  let o := wordBytes (word (blk.take 8) ^^^ k0) ++ wordBytes (word (blk.drop 8) ^^^ k1)
  store out (o.take n)
  onGcm (if hash then ghashBlock U (o.take n) else pure ())
  return ctr

/-- The counter loop in software; encryption hashes each ciphertext block on the way. -/
def ctrSoft (iv inp out len : ℕ) (hash : Bool) : Prog Dev Unit := do
  let ctr := (← load iv 12) ++ [0, 0, 0, 1]
  let _ ← loop (fun i ctr => softRound U (inp + 16 * i) (out + 16 * i) (pieceLen len i) hash ctr)
    (nBlocks len) ctr
  return

/-- What the bitstream offers, and the switch `aes_gcm_single_pass`. -/
structure Config where
  capCtr : Bool
  capInc32 : Bool
  singlePass : Bool

/-- `(caps & (CTR | INC32)) == (CTR | INC32)`. -/
def Config.hwCtr (c : Config) : Bool := c.capCtr && c.capInc32

def Config.gcmCtrCaps (c : Config) : Bool := c.singlePass && c.hwCtr

variable (cfg : Config)

/-- The unit's counter mode. -/
def ctrUnit (iv inp out len : ℕ) : Prog Dev Unit := do
  let ctr := (← load iv 12) ++ [0, 0, 0, 2]
  let _ ← aesCtrHw U ctr inp out len true
  return

/-- Step 5 of encryption: the ciphertext, and its hash. -/
def encryptText (iv pt ct len : ℕ) : Prog Dev Unit :=
  if cfg.hwCtr then do
    ctrUnit U iv pt ct len
    ghashRegion U ct len
  else ctrSoft U iv pt ct len true

/-- Step 6 of decryption. -/
def decryptText (iv ct pt len : ℕ) : Prog Dev Unit :=
  if cfg.hwCtr then ctrUnit U iv ct pt len else ctrSoft U iv ct pt len false

def aesGcmEncrypt (iv aad aadLen pt ct len tagOut : ℕ) : Prog Dev Unit :=
  if cfg.gcmCtrCaps then do
    let (m0, m1) ← gcmCtrSetup U iv aad aadLen
    gcmCtrGhash U pt ct len false
    let tag ← onGcm (gcmCtrTag U aadLen len m0 m1)
    store tagOut tag
  else do
    let (m0, m1) ← gcmPrelude U iv aad aadLen
    encryptText U cfg iv pt ct len
    let tag ← onGcm (gcmCtrTag U aadLen len m0 m1)
    store tagOut tag

/-- `diff |= a[i] ^ b[i]` over the bytes of the tags. -/
def tagDiff (a b : List Byte) : Byte := (xorBytes a b).foldl (· ||| ·) 0

/-- `memset(pt, 0, len); return -1;` -/
def refuse (pt len : ℕ) : Prog Dev ℤ := do
  store pt (List.replicate len 0)
  return -1

def aesGcmDecrypt (iv aad aadLen ct pt len tagIn : ℕ) : Prog Dev ℤ :=
  if cfg.gcmCtrCaps then do
    let (m0, m1) ← gcmCtrSetup U iv aad aadLen
    gcmCtrGhash U ct pt len true
    let computedTag ← onGcm (gcmCtrTag U aadLen len m0 m1)
    let expected ← load tagIn 16
    if tagDiff computedTag expected ≠ 0 then refuse pt len else return 0
  else do
    let (m0, m1) ← gcmPrelude U iv aad aadLen
    ghashRegion U ct len
    let computedTag ← onGcm (gcmCtrTag U aadLen len m0 m1)
    let expected ← load tagIn 16
    if tagDiff computedTag expected ≠ 0 then refuse pt len
    else do
      decryptText U cfg iv ct pt len
      return 0

/-! ## AES-CTR -/

/-- `for (i = 0; i < n; i++) out[i] = in[i] ^ ks[i]`. -/
def xorEach (inp out : ℕ) (ks : List Byte) (n : ℕ) : Prog Dev Unit :=
  loop (fun i _ => do
    let x ← load (inp + i) 1
    store (out + i) (xorBytes x [ks.getD i 0])) n ()

/-- `for (i = p + k - 1; i >= p; i--) if (++ctr[i]) break;`, the rounds still to go counted down. -/
def carryFrom (p : ℕ) : ℕ → List Byte → List Byte
  | 0, ctr => ctr
  | k + 1, ctr =>
    let b := ctr.getD (p + k) 0 + 1
    let ctr := ctr.set (p + k) b
    if b ≠ 0 then ctr else carryFrom p k ctr

/-- `while (left && len) { *out++ = *in++ ^ ks[16 - left]; left--; len--; }`: what is left of the
keystream and of the text, and where input and output go on. -/
def useLeft (ks : List Byte) : ℕ → ℕ → ℕ → ℕ → Prog Dev (ℕ × ℕ × ℕ × ℕ)
  | left + 1, len + 1, inp, out => do
    let x ← load inp 1
    store out (xorBytes x [ks.getD (16 - (left + 1)) 0])
    useLeft ks left len (inp + 1) (out + 1)
  | left, len, inp, out => return (left, len, inp, out)

/-- The counter as two words in memory order: `hi_be` is bytes 8–15, and its carry goes into bytes
0–7. -/
def ctrNext (c : BitVec 64 × BitVec 64) : BitVec 64 × BitVec 64 :=
  let hiBe := bswap64 c.2 + 1
  (if hiBe = 0 then bswap64 (bswap64 c.1 + 1) else c.1, bswap64 hiBe)

/-- One block of `aes_ctr` with a raw block and the counter in software. -/
def ctrRawBlock (inp out : ℕ) (c : BitVec 64 × BitVec 64) : Prog Dev (BitVec 64 × BitVec 64) := do
  let (ksLo, ksHi) ← onAes (aesHwEncrypt U c.1 c.2)
  let a ← ld64 inp
  let b ← ld64 (inp + 8)
  st64 out (a ^^^ ksLo)
  st64 (out + 8) (b ^^^ ksHi)
  return ctrNext c

/-- The last bytes, one by one. -/
def ctrRawTail (inp out rest : ℕ) (c : BitVec 64 × BitVec 64) : Prog Dev Unit :=
  if rest > 0 then do
    let (ksLo, ksHi) ← onAes (aesHwEncrypt U c.1 c.2)
    xorEach inp out (wordBytes ksLo ++ wordBytes ksHi) rest
  else pure ()

def aesCtr (nonceLo nonceHi : BitVec 64) (inp out len : ℕ) : Prog Dev Unit :=
  if cfg.capCtr then do
    let _ ← aesCtrHw U (wordBytes nonceLo ++ wordBytes nonceHi) inp out len false
    return
  else do
    let c ← loop (fun i c => ctrRawBlock U (inp + 16 * i) (out + 16 * i) c) (len / 16)
      (nonceLo, nonceHi)
    ctrRawTail U (inp + 16 * (len / 16)) (out + 16 * (len / 16)) (len % 16) c

/-! ## Keys -/

/-- What the units compute, the key being an argument. -/
structure Cipher where
  encrypt : Block → Block → Block
  mul : Block → Block → Block

def Cipher.units (C : Cipher) (key : Block) : Units := ⟨C.encrypt key, C.mul⟩

/-- The memory, the units, and the key the AES unit has expanded. -/
structure KeyedDev where
  dev : Dev
  key : Block

def onDev (p : Prog Dev α) : Prog KeyedDev α := zoom KeyedDev.dev (fun d s => { s with dev := d }) p

/-- A driver, under the key that is loaded. -/
def withKey (C : Cipher) (p : Units → Prog Dev α) : Prog KeyedDev α := do
  onDev (p (C.units (← get).key))

/-- KEY0, KEY1, KEY_LOAD and `aes_wait`: the key schedule is there afterwards, and DONE is cleared. -/
def aesHwSetKey (keyLo keyHi : BitVec 64) : Prog KeyedDev Unit :=
  gated (fun s => s.dev.aes.job.isSome) fun s => ((),
    { dev := { s.dev with aes := { s.dev.aes with done := false } }, key := block keyLo keyHi })

def aesCtrFull (C : Cipher) (keyLo keyHi nonceLo nonceHi : BitVec 64) (inp out len : ℕ) :
    Prog KeyedDev Unit := do
  aesHwSetKey keyLo keyHi
  withKey C fun U => aesCtr U cfg nonceLo nonceHi inp out len

end KlaussRuntime.Crypto
