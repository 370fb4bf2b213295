import KlaussRuntime.Machinery.Bytes

/-!
# Machinery/Hashing — iterated hashes, and the MAC over one

A hash in the manner of FIPS 180-4 pads its message to whole blocks and folds a compression function
`f` over them (`digest`).  Blocks have `n` bytes and the length field `w`; the state is of any type.

What an implementation that gets its message in pieces has to keep is the state after the full blocks
(`absorb`) and the bytes behind them (`remainder`): the two determine how the hash goes on
(`absorb_append_remainder`, `remainder_append_remainder`).  Whole blocks leave no bytes behind, so a
hash may start from the state they lead to (`digest_append`), as one does for HMAC (RFC 2104) from the
states after the two pad blocks of a key.
-/

namespace Machinery.Hashing

variable {σ : Type}

/-! ## Blocks -/

/-- The full blocks of a string, of `n` bytes each. -/
def fullBlocks (n : ℕ) (bs : List Byte) : List (List Byte) :=
  (List.range (bs.length / n)).map fun i => (bs.drop (n * i)).take n

/-- The bytes behind the full blocks. -/
def remainder (n : ℕ) (bs : List Byte) : List Byte := bs.drop (n * (bs.length / n))

/-- The state after the full blocks of a string. -/
def absorb (f : σ → List Byte → σ) (n : ℕ) (s : σ) (bs : List Byte) : σ :=
  (fullBlocks n bs).foldl f s

variable {f : σ → List Byte → σ} {n w : ℕ} {s : σ} {a b : List Byte}

theorem length_remainder (n : ℕ) (bs : List Byte) : (remainder n bs).length = bs.length % n := by
  rw [remainder, List.length_drop, Nat.mod_eq_sub_mul_div]

theorem length_remainder_lt (hn : 0 < n) (bs : List Byte) : (remainder n bs).length < n := by
  rw [length_remainder]
  exact Nat.mod_lt _ hn

theorem fullBlocks_of_lt (h : a.length < n) : fullBlocks n a = [] := by
  rw [fullBlocks, Nat.div_eq_of_lt h]
  rfl

theorem absorb_of_lt (h : a.length < n) : absorb f n s a = s := by
  rw [absorb, fullBlocks_of_lt h]
  rfl

theorem remainder_of_lt (h : a.length < n) : remainder n a = a := by
  rw [remainder, Nat.div_eq_of_lt h]
  rfl

theorem absorb_block (hn : 0 < n) (h : a.length = n) : absorb f n s a = f s a := by
  have hone : fullBlocks n a = [a] := by
    rw [fullBlocks, h, Nat.div_self hn, List.range_one, List.map_singleton, mul_zero, List.drop_zero,
      List.take_of_length_le h.le]
  rw [absorb, hone]
  rfl

theorem fullBlocks_append (hn : 0 < n) (h : n ∣ a.length) (b : List Byte) :
    fullBlocks n (a ++ b) = fullBlocks n a ++ fullBlocks n b := by
  obtain ⟨k, hk⟩ := h
  have hcount : (a ++ b).length / n = k + b.length / n := by
    rw [List.length_append, hk, Nat.mul_add_div hn]
  rw [fullBlocks, fullBlocks, fullBlocks, hcount, hk, Nat.mul_div_cancel_left k hn, List.range_add,
    List.map_append, List.map_map]
  refine congrArg₂ _ (List.map_congr_left fun i hi => ?_) (List.map_congr_left fun i _ => ?_)
  · have hend : n * i + n ≤ n * k := by
      rw [← Nat.mul_succ]
      exact Nat.mul_le_mul_left n (List.mem_range.mp hi)
    rw [List.drop_append_of_le_length (by omega), List.take_append_of_le_length]
    rw [List.length_drop]
    omega
  · rw [Function.comp_apply, mul_add, ← hk, List.drop_length_add_append]

theorem absorb_append (hn : 0 < n) (h : n ∣ a.length) (b : List Byte) :
    absorb f n s (a ++ b) = absorb f n (absorb f n s a) b := by
  rw [absorb, fullBlocks_append hn h, List.foldl_append, absorb, absorb]

theorem remainder_append (hn : 0 < n) (h : n ∣ a.length) (b : List Byte) :
    remainder n (a ++ b) = remainder n b := by
  obtain ⟨k, hk⟩ := h
  rw [remainder, List.length_append, hk, Nat.mul_add_div hn, mul_add, ← hk,
    List.drop_length_add_append, remainder]

theorem dvd_length_take (bs : List Byte) : n ∣ (bs.take (n * (bs.length / n))).length := by
  rw [List.length_take, Nat.min_eq_left (Nat.mul_div_le _ _)]
  exact Dvd.intro _ rfl

theorem take_append_remainder (n : ℕ) (bs : List Byte) :
    bs.take (n * (bs.length / n)) ++ remainder n bs = bs := List.take_append_drop _ _

theorem absorb_take (hn : 0 < n) (bs : List Byte) :
    absorb f n s (bs.take (n * (bs.length / n))) = absorb f n s bs := by
  conv_rhs => rw [← take_append_remainder n bs, absorb_append hn (dvd_length_take bs),
    absorb_of_lt (length_remainder_lt hn bs)]

/-- **State and remainder tell how the hash goes on**: the state… -/
theorem absorb_append_remainder (hn : 0 < n) (a b : List Byte) :
    absorb f n s (a ++ b) = absorb f n (absorb f n s a) (remainder n a ++ b) := by
  rw [← absorb_take hn a, ← absorb_append hn (dvd_length_take a), ← List.append_assoc,
    take_append_remainder]

/-- …and the remainder. -/
theorem remainder_append_remainder (hn : 0 < n) (a b : List Byte) :
    remainder n (a ++ b) = remainder n (remainder n a ++ b) := by
  rw [← remainder_append hn (dvd_length_take a) (remainder n a ++ b), ← List.append_assoc,
    take_append_remainder]

/-- **Filling up a block**: the bytes kept and as many of the next ones as it takes. -/
theorem absorb_fill (hn : 0 < n) (ha : a.length ≤ n) (hb : n ≤ a.length + b.length) :
    absorb f n s (a ++ b) = absorb f n (f s (a ++ b.take (n - a.length))) (b.drop (n - a.length)) := by
  have hblock : (a ++ b.take (n - a.length)).length = n := by
    rw [List.length_append, List.length_take]
    omega
  conv_lhs => rw [← List.take_append_drop (n - a.length) b, ← List.append_assoc]
  rw [absorb_append hn (dvd_of_eq hblock.symm), absorb_block hn hblock]

theorem remainder_fill (hn : 0 < n) (ha : a.length ≤ n) (hb : n ≤ a.length + b.length) :
    remainder n (a ++ b) = remainder n (b.drop (n - a.length)) := by
  have hblock : (a ++ b.take (n - a.length)).length = n := by
    rw [List.length_append, List.length_take]
    omega
  conv_lhs => rw [← List.take_append_drop (n - a.length) b, ← List.append_assoc]
  rw [remainder_append hn (dvd_of_eq hblock.symm)]

theorem absorb_take_succ (hn : 0 < n) {i : ℕ} (h : n * (i + 1) ≤ a.length) :
    absorb f n s (a.take (n * (i + 1)))
      = f (absorb f n s (a.take (n * i))) ((a.drop (n * i)).take n) := by
  rw [mul_add, mul_one] at h ⊢
  have hblock : ((a.drop (n * i)).take n).length = n := by
    rw [List.length_take, List.length_drop]
    omega
  have hwhole : n ∣ (a.take (n * i)).length := by
    rw [List.length_take, Nat.min_eq_left (by omega)]
    exact Dvd.intro _ rfl
  rw [List.take_add, absorb_append hn hwhole, absorb_block hn hblock]

/-! ## Padding -/

/-- How many zeros fill the last block of a text of `used` bytes, the one bit's byte and the length. -/
def zeros (n w used : ℕ) : ℕ := (n - (used + 1 + w) % n) % n

/-- The padding of a text of `used` bytes: a one bit, zeros, the length in bits. -/
def padding (n w used len : ℕ) : List Byte :=
  0x80 :: (List.replicate (zeros n w used) 0 ++ beBytes w (8 * len))

theorem zeros_mod (n w used : ℕ) : zeros n w (used % n) = zeros n w used := by
  rw [zeros, zeros, add_assoc, add_assoc, Nat.mod_add_mod]

/-- The hash of a message: the state after its padded blocks. -/
def digest (f : σ → List Byte → σ) (n w : ℕ) (iv : σ) (m : List Byte) : σ :=
  absorb f n iv (m ++ padding n w m.length m.length)

/-- The end of a hash that is in the state `s`, with `k` bytes behind it, and takes in `m` from there. -/
def finish (f : σ → List Byte → σ) (n w : ℕ) (s : σ) (k : ℕ) (m : List Byte) : σ :=
  absorb f n (absorb f n s m) (remainder n m ++ padding n w (remainder n m).length (k + m.length))

/-- **A hash may start from the state whole blocks lead to**… -/
theorem digest_append (hn : 0 < n) (h : n ∣ a.length) (b : List Byte) :
    digest f n w s (a ++ b) = finish f n w (absorb f n s a) a.length b := by
  have hmod : (a.length + b.length) % n = (remainder n b).length := by
    rw [length_remainder, Nat.add_mod, Nat.mod_eq_zero_of_dvd h, zero_add, Nat.mod_mod]
  rw [digest, absorb_append_remainder hn, absorb_append hn h, remainder_append hn h, finish,
    List.length_append, padding, padding, ← zeros_mod, hmod]

/-- …the first of them being the initial one. -/
theorem digest_eq (hn : 0 < n) (m : List Byte) : digest f n w s m = finish f n w s 0 m := by
  have h := digest_append (f := f) (w := w) (s := s) (a := []) hn (dvd_zero n) m
  rwa [absorb_of_lt (a := []) hn] at h

/-! ## HMAC -/

/-- The key as one block: hashed if it is longer, filled up with zeros. -/
def keyBlock (H : List Byte → List Byte) (n : ℕ) (key : List Byte) : List Byte :=
  let k := if n < key.length then H key else key
  k ++ List.replicate (n - k.length) 0

def ipad (block : List Byte) : List Byte := block.map (· ^^^ 0x36)

def opad (block : List Byte) : List Byte := block.map (· ^^^ 0x5c)

/-- HMAC over a hash with blocks of `n` bytes. -/
def hmac (H : List Byte → List Byte) (n : ℕ) (key text : List Byte) : List Byte :=
  H (opad (keyBlock H n key) ++ H (ipad (keyBlock H n key) ++ text))

theorem length_keyBlock {H : List Byte → List Byte} (hH : ∀ m, (H m).length ≤ n) (key : List Byte) :
    (keyBlock H n key).length = n := by
  have hle : (if n < key.length then H key else key).length ≤ n := by
    split_ifs with h
    · exact hH key
    · exact not_lt.mp h
  rw [keyBlock, List.length_append, List.length_replicate]
  exact Nat.add_sub_cancel' hle

end Machinery.Hashing
