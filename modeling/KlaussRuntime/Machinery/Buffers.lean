import KlaussRuntime.Machinery.Memory

/-!
# Machinery/Buffers — byte arrays of a fixed size, and arrays of words

`put p bs buf` is the array after `memcpy(buf + p, bs, …)`; it keeps the size when the bytes fit, and
the bytes before and at the place are the ones expected (`take_put`).  Writing a 64-bit number byte by
byte, from either end, puts its big-endian bytes (`foldl_set_be`, `map_shifts_be`).  A `Buffer` is an
array that carries its size, and `Buffer.Holds` says what its first bytes are.  `words` reads an array of
little-endian 64-bit words out of bytes and `wordsBytes` stores one.
-/

namespace Machinery

variable {n p k : ℕ} {buf bs : List Byte}

/-! ## Copying into an array -/

/-- The array after a copy of `bs` to position `p`. -/
def put (p : ℕ) (bs buf : List Byte) : List Byte := buf.take p ++ bs ++ buf.drop (p + bs.length)

theorem length_put (h : p + bs.length ≤ buf.length) : (put p bs buf).length = buf.length := by
  simp only [put, List.length_append, List.length_take, List.length_drop]
  omega

theorem take_put (h : p ≤ buf.length) :
    (put p bs buf).take (p + bs.length) = buf.take p ++ bs := by
  rw [put]
  exact List.take_left' (by rw [List.length_append, List.length_take, Nat.min_eq_left h])

theorem put_zero (bs buf : List Byte) : put 0 bs buf = bs ++ buf.drop bs.length := by
  rw [put, List.take_zero, List.nil_append, zero_add]

theorem set_put (h : p < buf.length) (x : Byte) : (put (p + 1) bs buf).set p x = put p (x :: bs) buf := by
  rw [put, put, List.append_assoc, List.take_succ_eq_append_getElem h, List.append_assoc,
    List.set_append_right _ _ (by simp), List.length_take, Nat.min_eq_left h.le, Nat.sub_self,
    List.singleton_append, List.set_cons_zero, List.length_cons, List.append_assoc, List.cons_append,
    add_right_comm, add_assoc]

/-- Bytes set one by one, downwards from position `p + k - 1`. -/
theorem foldl_set (g : ℕ → Byte) (h : p + k ≤ buf.length) :
    (List.range k).foldl (fun a i => a.set (p + k - 1 - i) (g i)) buf
      = put p ((List.range k).map g).reverse buf := by
  induction k generalizing p with
  | zero => simp [put]
  | succ k ih =>
    have hlast : (List.range k).foldl (fun a i => a.set (p + (k + 1) - 1 - i) (g i)) buf
        = put (p + 1) ((List.range k).map g).reverse buf := by
      rw [← ih (p := p + 1) (by omega)]
      refine List.foldl_ext _ _ _ fun a i _ => ?_
      rw [show p + (k + 1) - 1 - i = p + 1 + k - 1 - i by omega]
    rw [List.range_succ, List.foldl_append, hlast, List.foldl_cons, List.foldl_nil,
      show p + (k + 1) - 1 - k = p by omega, set_put (by omega), List.map_append, List.map_singleton,
      List.reverse_concat]

/-! ## Buffers -/

/-- An array of `n` bytes. -/
structure Buffer (n : ℕ) where
  bytes : List Byte
  length_bytes : bytes.length = n

namespace Buffer

/-- `memset` to zero. -/
def zero (n : ℕ) : Buffer n := ⟨List.replicate n 0, List.length_replicate⟩

/-- A copy into the buffer; what would lie outside is lost. -/
def put (p : ℕ) (bs : List Byte) (b : Buffer n) : Buffer n :=
  ⟨(Machinery.put p bs b.bytes).take n, by
    rw [List.length_take, Machinery.put, List.length_append, List.length_append, List.length_take,
      List.length_drop, b.length_bytes]
    omega⟩

/-- The first `len` bytes of the buffer are `bs`. -/
structure Holds (b : Buffer n) (len : ℕ) (bs : List Byte) : Prop where
  length : len = bs.length
  bytes : b.bytes.take len = bs

variable {b : Buffer n} {len : ℕ} {cs : List Byte}

theorem holds_nil (b : Buffer n) : b.Holds 0 [] := ⟨rfl, rfl⟩

/-- **Bytes appended** to what a buffer holds. -/
theorem Holds.put (h : b.Holds len bs) (cs : List Byte) (hfit : len + cs.length ≤ n) :
    (b.put len cs).Holds (len + cs.length) (bs ++ cs) := by
  refine ⟨by rw [List.length_append, h.length], ?_⟩
  rw [Buffer.put, List.take_take, Nat.min_eq_left hfit, take_put (by rw [b.length_bytes]; omega), h.bytes]

theorem holds_put_zero (b : Buffer n) (h : cs.length ≤ n) : (b.put 0 cs).Holds cs.length cs := by
  simpa using b.holds_nil.put cs (by omega)

theorem Holds.bytes_eq (h : b.Holds len bs) (hfull : len = n) : b.bytes = bs := by
  rw [← h.bytes, List.take_of_length_le (by rw [b.length_bytes, hfull])]

theorem bytes_put_zero (b : Buffer n) (h : cs.length = n) : (b.put 0 cs).bytes = cs :=
  (b.holds_put_zero h.le).bytes_eq h

end Buffer

/-! ## A 64-bit number in an array, big-endian -/

theorem setWidth_shift (v : BitVec 64) (i : ℕ) :
    (v >>> i).setWidth 8 = BitVec.ofNat 8 (v.toNat >>> i) :=
  BitVec.eq_of_toNat_eq (by simp)

theorem map_shifts_be (v : BitVec 64) :
    [56, 48, 40, 32, 24, 16, 8, 0].map (fun i => (v >>> i).setWidth 8) = beBytes 8 v.toNat := by
  rw [← map_range_beBytes, List.map_congr_left fun i _ => setWidth_shift v i]
  rfl

theorem foldl_set_be (v : BitVec 64) (h : p + 8 ≤ buf.length) :
    (List.range 8).foldl (fun a i => a.set (p + 7 - i) ((v >>> (8 * i)).setWidth 8)) buf
      = put p (beBytes 8 v.toNat) buf := by
  refine (foldl_set (fun i => (v >>> (8 * i)).setWidth 8) h).trans ?_
  rw [List.map_congr_left fun i _ => setWidth_shift v _, map_range_leBytes, beBytes]

/-! ## Words -/

/-- The little-endian words some bytes spell. -/
def words (n : ℕ) (bs : List Byte) : Fin n → BitVec 64 := fun i => word ((bs.drop (8 * i)).take 8)

/-- The bytes of some words. -/
def wordsBytes (ws : Fin n → BitVec 64) : List Byte := (List.ofFn ws).flatMap wordBytes

@[simp] theorem length_wordsBytes (ws : Fin n → BitVec 64) : (wordsBytes ws).length = 8 * n := by
  simp [wordsBytes, List.length_flatMap, List.map_ofFn, Function.comp_def, List.ofFn_const, mul_comm]

theorem wordBytes_word (h : bs.length = 8) : wordBytes (word bs) = bs := by
  rw [wordBytes, toNat_word h.le, ← h, leBytes_leNat]

/-- **Storing the words that were loaded** gives the bytes back. -/
theorem wordsBytes_words (h : bs.length = 8 * n) : wordsBytes (words n bs) = bs := by
  induction n generalizing bs with
  | zero => exact (List.length_eq_zero_iff.mp h).symm
  | succ n ih =>
    have htail : (fun i : Fin n => words (n + 1) bs i.succ) = words n (bs.drop 8) := by
      funext i
      rw [words, words, List.drop_drop, Fin.val_succ, show 8 * (i.val + 1) = 8 + 8 * i.val by ring]
    have hrest : (List.ofFn (words n (bs.drop 8))).flatMap wordBytes = bs.drop 8 :=
      ih (by rw [List.length_drop]; omega)
    have hhead : wordBytes (words (n + 1) bs 0) = bs.take 8 :=
      wordBytes_word (by rw [Fin.val_zero, mul_zero, List.drop_zero, List.length_take]; omega)
    rw [wordsBytes, List.ofFn_succ, List.flatMap_cons, htail, hrest, hhead, List.take_append_drop]

end Machinery
