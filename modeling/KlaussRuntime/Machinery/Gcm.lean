import KlaussRuntime.Machinery.Memory

/-!
# Machinery/Gcm — Galois/Counter Mode (NIST SP 800-38D) over any block function

A block is 128 bits, read as 16 bytes with byte 0 in the low bits.  The mode is generic in the block
function `E` (the cipher under its key) and in the multiplication `mul` of the field.  `gctr` is the
counter mode of §6.5, `ghash` the hash of §6.4, `inc32` the 32-bit incrementing function of §6.2, and
`authEncrypt` authenticated encryption (§7.1) under a 96-bit IV and a full-length tag.

Counter mode puts a text under a keystream of blocks (`crypt`).  It is its own inverse (`gctr_gctr`), and
block `i` of its output is block `i` of the input under the keystream block `i` (`chunk_crypt`), which is
what an implementation works through.
-/

namespace Machinery.Gcm

open Machinery

abbrev Block := BitVec 128

/-! ## Blocks and bytes -/

/-- The 16 bytes of a block. -/
def toBytes (b : Block) : List Byte := leBytes 16 b.toNat

/-- The block some bytes spell, the missing ones being zero. -/
def ofBytes (bs : List Byte) : Block := BitVec.ofNat 128 (leNat bs)

@[simp] theorem length_toBytes (b : Block) : (toBytes b).length = 16 := length_leBytes _ _

theorem toNat_ofBytes {bs : List Byte} (h : bs.length ≤ 16) : (ofBytes bs).toNat = leNat bs := by
  have hlt : leNat bs < 256 ^ 16 := (leNat_lt bs).trans_le (Nat.pow_le_pow_right (by decide) h)
  rw [ofBytes, BitVec.toNat_ofNat]
  exact Nat.mod_eq_of_lt hlt

theorem toBytes_ofBytes {bs : List Byte} (h : bs.length = 16) : toBytes (ofBytes bs) = bs := by
  rw [toBytes, toNat_ofBytes h.le, ← h, leBytes_leNat]

theorem ofBytes_toBytes (b : Block) : ofBytes (toBytes b) = b := by
  rw [ofBytes, toBytes, leNat_leBytes]
  exact BitVec.eq_of_toNat_eq (by rw [BitVec.toNat_ofNat]; have := b.isLt; omega)

theorem ofBytes_append_zeros (bs : List Byte) (k : ℕ) :
    ofBytes (bs ++ List.replicate k 0) = ofBytes bs := by
  rw [ofBytes, leNat_append_zeros, ofBytes]

/-- Byte by byte exclusive or, as long as the shorter string. -/
def xorBytes (xs ys : List Byte) : List Byte := List.zipWith (· ^^^ ·) xs ys

theorem xorBytes_comm (xs ys : List Byte) : xorBytes xs ys = xorBytes ys xs :=
  List.zipWith_comm_of_comm BitVec.xor_comm

theorem xorBytes_xorBytes {xs ys : List Byte} (h : ys.length ≤ xs.length) :
    xorBytes xs (xorBytes xs ys) = ys := by
  induction xs generalizing ys with
  | nil => exact (List.length_eq_zero_iff.mp (Nat.le_zero.mp h)).symm
  | cons x xs ih =>
    cases ys with
    | nil => rfl
    | cons y ys =>
      have hrest := ih (Nat.le_of_succ_le_succ h)
      simp only [xorBytes, List.zipWith_cons_cons] at hrest ⊢
      rw [hrest, ← BitVec.xor_assoc, BitVec.xor_self, BitVec.zero_xor]

theorem toBytes_xor (a b : Block) : toBytes (a ^^^ b) = xorBytes (toBytes a) (toBytes b) := by
  rw [toBytes, BitVec.toNat_xor, leBytes_xor]
  rfl

/-- **A zero-padded block under a keystream block**, cut back to its length. -/
theorem take_toBytes_xor {xs : List Byte} (h : xs.length ≤ 16) (k : Block) :
    (toBytes (k ^^^ ofBytes xs)).take xs.length = xorBytes xs (toBytes k) := by
  have hxs : (toBytes (ofBytes xs)).take xs.length = xs := by
    rw [toBytes, toNat_ofBytes h, take_leBytes_leNat h]
  rw [toBytes_xor, xorBytes_comm, xorBytes, List.take_zipWith, hxs]
  refine List.ext_getElem (by simp [xorBytes, h]) fun i h₁ h₂ => ?_
  simp only [xorBytes, List.getElem_zipWith, List.getElem_take]

/-- Piece `i` of a string cut into blocks. -/
def chunk (i : ℕ) (xs : List Byte) : List Byte := (xs.drop (16 * i)).take 16

/-- The number of blocks, the last one perhaps short. -/
def nBlocks (n : ℕ) : ℕ := (n + 15) / 16

theorem length_chunk (i : ℕ) (xs : List Byte) :
    (chunk i xs).length = min 16 (xs.length - 16 * i) := by simp [chunk]

theorem take_succ_chunk (i : ℕ) (xs : List Byte) :
    xs.take (16 * (i + 1)) = xs.take (16 * i) ++ chunk i xs := by
  rw [mul_add, mul_one, List.take_add, chunk]

/-- The blocks of a string, the last one padded with zeros. -/
def blocks (xs : List Byte) : List Block :=
  (List.range (nBlocks xs.length)).map fun i => ofBytes (chunk i xs)

/-! ## Keystreams -/

/-- Byte `j` of a keystream made of blocks. -/
def keyByte (ks : ℕ → Block) (j : ℕ) : Byte := (toBytes (ks (j / 16))).getD (j % 16) 0

/-- A text under a keystream. -/
def crypt (ks : ℕ → Block) (xs : List Byte) : List Byte := xs.mapIdx fun j x => x ^^^ keyByte ks j

@[simp] theorem length_crypt (ks : ℕ → Block) (xs : List Byte) : (crypt ks xs).length = xs.length := by
  simp [crypt]

/-- **The text comes back** under the same keystream. -/
theorem crypt_crypt (ks : ℕ → Block) (xs : List Byte) : crypt ks (crypt ks xs) = xs := by
  refine List.ext_getElem (by simp) fun i h₁ h₂ => ?_
  simp only [crypt, List.getElem_mapIdx]
  rw [BitVec.xor_assoc, BitVec.xor_self, BitVec.xor_zero]

/-- **Block `i` of the output** is block `i` of the input under keystream block `i`. -/
theorem chunk_crypt (ks : ℕ → Block) (i : ℕ) (xs : List Byte) :
    chunk i (crypt ks xs) = xorBytes (chunk i xs) (toBytes (ks i)) := by
  refine List.ext_getElem (by simp [chunk, xorBytes]) fun j h₁ h₂ => ?_
  have hj : j < 16 := by
    simp only [chunk, List.length_take] at h₁
    omega
  simp only [chunk, crypt, keyByte, xorBytes, List.getElem_take, List.getElem_drop,
    List.getElem_mapIdx, List.getElem_zipWith]
  rw [show (16 * i + j) / 16 = i by omega, show (16 * i + j) % 16 = j by omega,
    List.getD_eq_getElem _ _ (by simpa using hj)]

/-! ## The mode -/

/-- `inc₃₂`: the last four bytes, as a big-endian integer, plus one modulo `2³²`. -/
def inc32 (b : Block) : Block :=
  ofBytes ((toBytes b).take 12 ++ beBytes 4 (beNat ((toBytes b).drop 12) + 1))

variable (E : Block → Block) (mul : Block → Block → Block)

/-- `GCTR`: byte `j` of the output is byte `j` of the input under byte `j mod 16` of
`E(CB_{j div 16})`, where `CB_0` is the initial counter block and `CB_{i+1} = inc₃₂(CB_i)`. -/
def gctr (icb : Block) (xs : List Byte) : List Byte :=
  xs.mapIdx fun j x => x ^^^ (toBytes (E (inc32^[j / 16] icb))).getD (j % 16) 0

/-- `GHASH` continued from a value `y`. -/
def ghashFrom (h y : Block) (xs : List Block) : Block := xs.foldl (fun y x => mul (y ^^^ x) h) y

/-- `GHASH_H`. -/
def ghash (h : Block) (xs : List Block) : Block := ghashFrom mul h 0 xs

/-- The pre-counter block of a 96-bit IV: `IV ‖ 0³¹ ‖ 1`. -/
def preCounter (iv : List Byte) : Block := ofBytes (iv ++ [0, 0, 0, 1])

/-- `[len(A)]₆₄ ‖ [len(C)]₆₄`, in bits. -/
def lengthBlock (a c : ℕ) : Block := ofBytes (beBytes 8 (8 * a) ++ beBytes 8 (8 * c))

/-- The tag of a ciphertext. -/
def tagOf (iv aad c : List Byte) : List Byte :=
  let s := ghash mul (E 0) (blocks aad ++ blocks c ++ [lengthBlock aad.length c.length])
  gctr E (preCounter iv) (toBytes s)

/-- The text under the IV: the ciphertext of a plaintext, and the plaintext of a ciphertext. -/
def cryptOf (iv xs : List Byte) : List Byte := gctr E (inc32 (preCounter iv)) xs

/-- Authenticated encryption: ciphertext and tag. -/
def authEncrypt (iv aad pt : List Byte) : List Byte × List Byte :=
  (cryptOf E iv pt, tagOf E mul iv aad (cryptOf E iv pt))

/-! ## Properties -/

theorem gctr_eq_crypt (icb : Block) (xs : List Byte) :
    gctr E icb xs = crypt (fun i => E (inc32^[i] icb)) xs := rfl

@[simp] theorem length_gctr (icb : Block) (xs : List Byte) : (gctr E icb xs).length = xs.length := by
  rw [gctr_eq_crypt, length_crypt]

@[simp] theorem length_cryptOf (iv xs : List Byte) : (cryptOf E iv xs).length = xs.length :=
  length_gctr E _ xs

/-- **Counter mode is its own inverse.** -/
theorem gctr_gctr (icb : Block) (xs : List Byte) : gctr E icb (gctr E icb xs) = xs := by
  rw [gctr_eq_crypt, gctr_eq_crypt, crypt_crypt]

theorem chunk_gctr (icb : Block) (i : ℕ) (xs : List Byte) :
    chunk i (gctr E icb xs) = xorBytes (chunk i xs) (toBytes (E (inc32^[i] icb))) := by
  rw [gctr_eq_crypt, chunk_crypt]

theorem gctr_block (icb b : Block) : gctr E icb (toBytes b) = toBytes (E icb ^^^ b) := by
  have h := chunk_gctr E icb 0 (toBytes b)
  have hfull : ∀ xs : List Byte, xs.length = 16 → chunk 0 xs = xs := fun xs hxs => by
    simp [chunk, List.take_of_length_le hxs.le]
  rw [hfull _ (by simp), hfull _ (by simp)] at h
  rw [h, toBytes_xor, xorBytes_comm]
  rfl

theorem ghashFrom_append (h y : Block) (xs ys : List Block) :
    ghashFrom mul h y (xs ++ ys) = ghashFrom mul h (ghashFrom mul h y xs) ys :=
  List.foldl_append

/-- Decrypting a ciphertext and encrypting it again gives it back. -/
theorem cryptOf_cryptOf (iv xs : List Byte) : cryptOf E iv (cryptOf E iv xs) = xs :=
  gctr_gctr E _ xs

end Machinery.Gcm
