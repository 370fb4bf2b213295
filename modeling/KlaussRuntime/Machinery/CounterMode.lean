import KlaussRuntime.Machinery.Gcm

/-!
# Machinery/CounterMode — counter mode (NIST SP 800-38A) as a stream

The counter block is one big-endian integer, counted on modulo `2¹²⁸` (`counter`); `ctr` puts a text
under the blocks it leads to.  A text may also come in pieces: `cryptFrom` is the piece at byte `p` of
the stream, and pieces one after the other make up the whole (`cryptFrom_append`).

An implementation that works on pieces keeps the next counter block, the last keystream block and the
number of its bytes not used yet; `Position` says what these are at byte `p`.  Using up bytes
(`Position.use`) and starting on new blocks (`Position.run`) lead from one position to another.
-/

namespace Machinery.CounterMode

open Machinery.Gcm

/-! ## The mode -/

/-- The counter block `i` steps on. -/
def counter (nonce : Block) (i : ℕ) : Block := ofBytes (beBytes 16 (beNat (toBytes nonce) + i))

theorem counter_zero (nonce : Block) : counter nonce 0 = nonce := by
  have h := beBytes_beNat (toBytes nonce)
  rw [length_toBytes] at h
  rw [counter, add_zero, h, ofBytes_toBytes]

theorem counter_counter (nonce : Block) (i j : ℕ) :
    counter (counter nonce i) j = counter nonce (i + j) := by
  have hmod : ∀ n k, beBytes 16 (n % 256 ^ 16 + k) = beBytes 16 (n + k) := fun n k => by
    rw [← beBytes_mod, Nat.mod_add_mod, beBytes_mod]
  rw [counter, counter, toBytes_ofBytes (length_beBytes _ _), beNat_beBytes, hmod, counter, add_assoc]

variable (E : Block → Block)

/-- The keystream: `E(nonce)`, `E(nonce + 1)`, … -/
def stream (nonce : Block) (i : ℕ) : Block := E (counter nonce i)

/-- Counter mode. -/
def ctr (nonce : Block) (xs : List Byte) : List Byte := crypt (stream E nonce) xs

/-! ## A text in pieces -/

/-- The piece of a text that starts at byte `p`. -/
def cryptFrom (ks : ℕ → Block) (p : ℕ) (xs : List Byte) : List Byte :=
  xs.mapIdx fun j x => x ^^^ keyByte ks (p + j)

variable {E} {ks : ℕ → Block} {p : ℕ} {xs : List Byte}

@[simp] theorem length_cryptFrom : (cryptFrom ks p xs).length = xs.length := by simp [cryptFrom]

theorem cryptFrom_zero : cryptFrom ks 0 xs = crypt ks xs := by simp only [cryptFrom, crypt, zero_add]

/-- **One piece after the other.** -/
theorem cryptFrom_append (ks : ℕ → Block) (p : ℕ) (xs ys : List Byte) :
    cryptFrom ks p (xs ++ ys) = cryptFrom ks p xs ++ cryptFrom ks (p + xs.length) ys := by
  simp only [cryptFrom, List.mapIdx_append, Nat.add_left_comm, Nat.add_comm]

/-- A piece that starts with a block is counter mode from there. -/
theorem cryptFrom_mul (nonce : Block) (q : ℕ) :
    cryptFrom (stream E nonce) (16 * q) xs = ctr E (counter nonce q) xs := by
  rw [cryptFrom, ctr, crypt]
  refine congrArg (fun f => List.mapIdx f xs) (funext fun j => funext fun x => ?_)
  rw [keyByte, keyByte, stream, stream, counter_counter, show (16 * q + j) / 16 = q + j / 16 by omega,
    show (16 * q + j) % 16 = j % 16 by omega]

theorem cryptFrom_of_le (h : p % 16 + xs.length ≤ 16) :
    cryptFrom ks p xs = xorBytes xs ((toBytes (ks (p / 16))).drop (p % 16)) := by
  refine List.ext_getElem (by simp [xorBytes]; omega) fun j h₁ h₂ => ?_
  rw [length_cryptFrom] at h₁
  simp only [cryptFrom, keyByte, xorBytes, List.getElem_mapIdx, List.getElem_zipWith,
    List.getElem_drop]
  rw [show (p + j) / 16 = p / 16 by omega, show (p + j) % 16 = p % 16 + j by omega,
    List.getD_eq_getElem _ _ (by simp; omega)]

/-! ## Positions -/

/-- What is kept at byte `p` of the stream: the next counter block, the number of bytes of the last
keystream block that are not used yet, and, if there are any, that block. -/
structure Position (E : Block → Block) (nonce : Block) (p : ℕ) (ctr buf : List Byte) (left : ℕ) :
    Prop where
  ctr_eq : ctr = toBytes (counter nonce (nBlocks p))
  left_eq : left = (16 - p % 16) % 16
  buf_eq : left ≠ 0 → buf = toBytes (stream E nonce (p / 16))

namespace Position

variable {nonce : Block} {c buf : List Byte} {left : ℕ}

theorem start (hc : c.length = 16) (buf : List Byte) : Position E (ofBytes c) 0 c buf 0 := by
  refine ⟨?_, rfl, fun h => absurd rfl h⟩
  rw [nBlocks, counter_zero, toBytes_ofBytes hc]

/-- **Using up bytes** that are left. -/
theorem use (h : Position E nonce p c buf left) {n : ℕ} (hn : n ≤ left) :
    Position E nonce (p + n) c buf (left - n) := by
  have hleft := h.left_eq
  refine ⟨?_, by omega, fun hne => ?_⟩
  · rw [h.ctr_eq, nBlocks, nBlocks, show (p + n + 15) / 16 = (p + 15) / 16 by omega]
  · rw [h.buf_eq (by omega), show (p + n) / 16 = p / 16 by omega]

theorem cryptFrom_use (h : Position E nonce p c buf left) (hxs : xs.length ≤ left) :
    cryptFrom (stream E nonce) p xs = xorBytes xs (buf.drop (16 - left)) := by
  have hleft := h.left_eq
  rcases Nat.eq_zero_or_pos left with hzero | hpos
  · obtain rfl : xs = [] := List.length_eq_zero_iff.mp (by omega)
    rfl
  · rw [cryptFrom_of_le (by omega), h.buf_eq (by omega), show 16 - left = p % 16 by omega]

/-- **With nothing left** the stream goes on with whole blocks. -/
theorem cryptFrom_run (h : Position E nonce p c buf 0) :
    cryptFrom (stream E nonce) p xs = CounterMode.ctr E (ofBytes c) xs := by
  have hleft := h.left_eq
  have hp : p = 16 * nBlocks p := by rw [nBlocks]; omega
  rw [h.ctr_eq, ofBytes_toBytes, ← cryptFrom_mul, ← hp]

/-- …and ends in the last of them, whose keystream is kept if it is not used up. -/
theorem run (h : Position E nonce p c buf 0) (n : ℕ) (buf' : List Byte)
    (hbuf : n % 16 ≠ 0 → buf' = toBytes (stream E (ofBytes c) (n / 16))) :
    Position E nonce (p + n) (toBytes (counter (ofBytes c) (nBlocks n))) buf'
      ((16 - n % 16) % 16) := by
  have hleft := h.left_eq
  have hc : ofBytes c = counter nonce (p / 16) := by
    rw [h.ctr_eq, ofBytes_toBytes, nBlocks, show (p + 15) / 16 = p / 16 by omega]
  refine ⟨?_, by omega, fun hne => ?_⟩
  · rw [hc, counter_counter, nBlocks, nBlocks,
      show p / 16 + (n + 15) / 16 = (p + n + 15) / 16 by omega]
  · rw [hbuf (by omega), hc, stream, stream, counter_counter,
      show p / 16 + n / 16 = (p + n) / 16 by omega]

end Position

end Machinery.CounterMode
