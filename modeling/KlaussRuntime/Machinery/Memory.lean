import KlaussRuntime.Machinery.Bytes
import Mathlib.Data.List.GetD

/-!
# Machinery/Memory — byte-addressed memory

A memory is a function of the address.  `read` and `write` move a byte string; writing one string
after another writes their concatenation (`write_append`), and a read outside what was written sees
the memory before (`read_write_of_disjoint`).  `word` and `wordBytes` are a little-endian 64-bit load
and store.
-/

namespace Machinery

abbrev Mem := ℕ → Byte

namespace Mem

variable (m : Mem)

/-- The `n` bytes at `p`. -/
def read (p n : ℕ) : List Byte := (List.range n).map fun i => m (p + i)

/-- The memory after the bytes `bs` are stored at `p`. -/
def write (p : ℕ) (bs : List Byte) : Mem := fun a => if p ≤ a then bs.getD (a - p) (m a) else m a

@[simp] theorem length_read (p n : ℕ) : (m.read p n).length = n := by simp [read]

theorem getElem?_read (p n i : ℕ) : (m.read p n)[i]? = if i < n then some (m (p + i)) else none := by
  rw [Mem.read, List.getElem?_map]
  split_ifs with h
  · rw [List.getElem?_range h]
    rfl
  · rw [List.getElem?_eq_none (by simpa using h)]
    rfl

theorem write_apply_of_lt {p i : ℕ} {bs : List Byte} (h : i < bs.length) :
    m.write p bs (p + i) = bs[i] := by
  rw [write, if_pos (Nat.le_add_right p i), Nat.add_sub_cancel_left, List.getD_eq_getElem _ _ h]

theorem write_apply_of_not_mem {p a : ℕ} {bs : List Byte} (h : a < p ∨ p + bs.length ≤ a) :
    m.write p bs a = m a := by
  rw [write]
  split_ifs with hp
  · exact List.getD_eq_default _ _ (by omega)
  · rfl

@[simp] theorem write_nil (p : ℕ) : m.write p [] = m := by
  ext a : 1
  exact m.write_apply_of_not_mem (by simp; omega)

/-- **Writing one string after another writes their concatenation.** -/
theorem write_append (p : ℕ) (as bs : List Byte) :
    m.write p (as ++ bs) = (m.write p as).write (p + as.length) bs := by
  ext a : 1
  simp only [write]
  rcases lt_or_ge a p with h | h
  · rw [if_neg (by omega), if_neg (by omega), if_neg (by omega)]
  · rw [if_pos h]
    rcases lt_or_ge (a - p) as.length with ha | ha
    · rw [if_neg (by omega), if_pos h, List.getD_append _ _ _ _ ha, List.getD_eq_getElem _ _ ha]
    · rw [if_pos (by omega), List.getD_append_right _ _ _ _ ha, if_pos h,
        List.getD_eq_default as _ ha, Nat.sub_add_eq]

/-- **Reading back what was written.** -/
theorem read_write_self (p : ℕ) (bs : List Byte) : (m.write p bs).read p bs.length = bs := by
  refine List.ext_getElem (by simp) fun i h₁ h₂ => ?_
  simp only [Mem.read, List.getElem_map, List.getElem_range, m.write_apply_of_lt h₂]

/-- **A read outside what was written** sees the memory before. -/
theorem read_write_of_disjoint {p q n : ℕ} {bs : List Byte}
    (h : q + n ≤ p ∨ p + bs.length ≤ q) : (m.write p bs).read q n = m.read q n := by
  refine List.map_congr_left fun i hi => ?_
  have := List.mem_range.mp hi
  exact m.write_apply_of_not_mem (by omega)

theorem read_congr {m m' : Mem} {p q n : ℕ} (h : ∀ i < n, m (p + i) = m' (q + i)) :
    m.read p n = m'.read q n :=
  List.map_congr_left fun i hi => h i (List.mem_range.mp hi)

theorem take_drop_read (p n k j : ℕ) :
    ((m.read p n).drop k).take j = m.read (p + k) (min j (n - k)) := by
  refine List.ext_getElem (by simp) fun i h₁ h₂ => ?_
  simp only [List.getElem_take, List.getElem_drop, Mem.read, List.getElem_map, List.getElem_range,
    Nat.add_assoc]

theorem read_add (p n k : ℕ) : m.read p (n + k) = m.read p n ++ m.read (p + n) k := by
  simp only [Mem.read, List.range_add, List.map_append, List.map_map, Function.comp_def, Nat.add_assoc]

end Mem

/-! ## 64-bit words -/

/-- The word some bytes spell, little-endian. -/
def word (bs : List Byte) : BitVec 64 := BitVec.ofNat 64 (leNat bs)

/-- The bytes of a word, little-endian. -/
def wordBytes (w : BitVec 64) : List Byte := leBytes 8 w.toNat

@[simp] theorem length_wordBytes (w : BitVec 64) : (wordBytes w).length = 8 := length_leBytes _ _

theorem leNat_wordBytes (w : BitVec 64) : leNat (wordBytes w) = w.toNat := by
  rw [wordBytes, leNat_leBytes]
  exact Nat.mod_eq_of_lt w.isLt

theorem toNat_word {bs : List Byte} (h : bs.length ≤ 8) : (word bs).toNat = leNat bs := by
  have hlt : leNat bs < 256 ^ 8 :=
    (leNat_lt bs).trans_le (Nat.pow_le_pow_right (by decide) h)
  rw [word, BitVec.toNat_ofNat]
  exact Nat.mod_eq_of_lt hlt

theorem word_wordBytes (w : BitVec 64) : word (wordBytes w) = w :=
  BitVec.eq_of_toNat_eq (by rw [toNat_word (length_wordBytes w).le, leNat_wordBytes])

theorem beBytes_mul_eight (n : ℕ) : beBytes 8 (BitVec.ofNat 64 n * 8).toNat = beBytes 8 (8 * n) := by
  have hnat : (BitVec.ofNat 64 n * 8).toNat = 8 * n % 256 ^ 8 := by
    rw [BitVec.toNat_mul, BitVec.toNat_ofNat, show (8 : BitVec 64).toNat = 8 from rfl]
    omega
  rw [hnat, beBytes_mod]

end Machinery
