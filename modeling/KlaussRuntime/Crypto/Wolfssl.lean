import KlaussRuntime.Crypto.Drivers
import KlaussRuntime.Machinery.Buffers

/-!
# Crypto/Wolfssl — wolfSSL's CTR callback (`wolfssl_hw.c`)

wolfSSL hands every AES-CTR operation to the callback before it looks at the leftover keystream itself,
so the callback keeps wolfSSL's own state up: the next counter block, the keystream of the last partial
block, and how many of its bytes are unused.  Other key sizes are refused and stay with wolfCrypt.
-/

namespace KlaussRuntime.Crypto

open Machinery

/-- What the callback uses of `Aes`; the first words of the key schedule are the key, as big-endian
words. -/
structure WolfAes where
  key : Fin 4 → BitVec 32
  keylen : ℕ
  reg : Buffer 16
  tmp : Buffer 16
  left : ℕ

/-- `k[16]`: the bytes of the key. -/
def keyBytes (key : Fin 4 → BitVec 32) : List Byte :=
  (List.ofFn key).flatMap fun w => [24, 16, 8, 0].map fun i => (w >>> i).setWidth 8

def extractKey128 (aes : WolfAes) : Option (BitVec 64 × BitVec 64) :=
  if aes.keylen ≠ 16 then none
  else some (word ((keyBytes aes.key).take 8), word ((keyBytes aes.key).drop 8))

/-- `for (i = 15; i >= 0; i--) if (++ctr[i]) break;` -/
def ctrIncBe (ctr : List Byte) : List Byte := carryFrom 0 16 ctr

variable (C : Cipher) (cfg : Config)

/-- The full blocks. -/
def hwCtrFull (aes : WolfAes) (out inp full : ℕ) : Prog KeyedDev WolfAes :=
  if full > 0 then do
    withKey C fun U => aesCtr U cfg (word (aes.reg.bytes.take 8)) (word (aes.reg.bytes.drop 8)) inp out full
    return { aes with reg := aes.reg.put 0 (ctrIncBe^[full / 16] aes.reg.bytes) }
  else return aes

/-- The bytes behind them, under a keystream block that is kept. -/
def hwCtrTail (aes : WolfAes) (out inp sz : ℕ) : Prog KeyedDev WolfAes :=
  if sz > 0 then do
    let (ksLo, ksHi) ← withKey C fun U =>
      onAes (aesHwEncrypt U (word (aes.reg.bytes.take 8)) (word (aes.reg.bytes.drop 8)))
    let tmp := aes.tmp.put 0 (wordBytes ksLo ++ wordBytes ksHi)
    onDev (xorEach inp out tmp.bytes sz)
    return { aes with tmp := tmp, reg := aes.reg.put 0 (ctrIncBe aes.reg.bytes), left := 16 - sz }
  else return aes

def hwCtr (aes : WolfAes) (out inp sz : ℕ) (keyLo keyHi : BitVec 64) : Prog KeyedDev WolfAes := do
  let (left, sz, inp, out) ← onDev (useLeft aes.tmp.bytes aes.left sz inp out)
  if sz = 0 then return { aes with left := left }
  else do
    aesHwSetKey keyLo keyHi
    -- sz & ~15
    let full := sz - sz % 16
    let aes ← hwCtrFull C cfg { aes with left := left } out inp full
    hwCtrTail C aes (out + full) (inp + full) (sz - full)

/-- The CTR part of `hw_cipher`; nothing means CRYPTOCB_UNAVAILABLE. -/
def hwCipherCtr (aes : WolfAes) (out inp sz : ℕ) : Prog KeyedDev (Option WolfAes) :=
  match extractKey128 aes with
  | none => return none
  | some (keyLo, keyHi) => do return some (← hwCtr C cfg aes out inp sz keyLo keyHi)

end KlaussRuntime.Crypto
