import KlaussRuntime.Machinery.CString
import KlaussRuntime.Machinery.Memory

/-!
# Machinery/Printf — formatted text in a buffer

`vsnprintf` puts as much of a text into a buffer as fits before the NUL and returns how long the text is.  What
is read back is text as far as it was put there (`read_vsnprintf`); the byte after is the NUL
(`vsnprintf_last`), and beyond the buffer the memory is as it was (`vsnprintf_beyond`).

A helper that sends what it formatted reads the buffer back.  `Reveals` says that it sends text only: a prefix
of it, and the same bytes whatever the memory held before.
-/

namespace Machinery

/-! ## Numbers -/

/-- The digits of a number in a base. -/
def number (base n : ℕ) : List Byte := (Nat.toDigits base n).map fun c => BitVec.ofNat 8 c.toNat

/-- Zeros in front, up to a width. -/
def padded (width : ℕ) (ds : List Byte) : List Byte := List.replicate (width - ds.length) 0x30 ++ ds

/-- What `%0wd` prints. -/
def integer (width : ℕ) : ℤ → List Byte
  | .ofNat n => padded width (number 10 n)
  | .negSucc n => 0x2d :: padded (width - 1) (number 10 (n + 1))

/-- What `%#x` prints. -/
def prefixedHex (n : ℕ) : List Byte := if n = 0 then [0x30] else [0x30, 0x78] ++ number 16 n

theorem length_number_le {base n k : ℕ} (hbase : 1 < base) (hk : 0 < k) (h : n < base ^ k) :
    (number base n).length ≤ k := by
  rw [number, List.length_map]
  exact (Nat.length_toDigits_le_iff hbase hk).mpr h

theorem length_padded (width : ℕ) (ds : List Byte) : (padded width ds).length = max width ds.length := by
  rw [padded, List.length_append, List.length_replicate]
  omega

theorem length_integer_le {width : ℕ} {v : ℤ} (hlo : -2 ^ 31 ≤ v) (hhi : v < 2 ^ 31) :
    (integer width v).length ≤ max width 11 := by
  have hlen : ∀ n : ℕ, n ≤ 2 ^ 31 → (number 10 n).length ≤ 10 := fun n hn =>
    length_number_le (by decide) (by decide) (by omega)
  cases v with
  | ofNat n =>
    rw [Int.ofNat_eq_natCast] at hhi
    have hn := hlen n (by omega)
    rw [integer, length_padded]
    omega
  | negSucc n =>
    rw [Int.negSucc_eq] at hlo
    have hn := hlen (n + 1) (by omega)
    rw [integer, List.length_cons, length_padded]
    omega

/-! ## Formatting into a buffer -/

/-- `vsnprintf` into the `size` bytes at `buf`; a length that is no `int` is an error. -/
def vsnprintf (m : Mem) (buf size : ℕ) (text : List Byte) : ℤ × Mem :=
  (if text.length < 2 ^ 31 then text.length else -1, m.write buf (text.take (size - 1) ++ [0]))

variable {m : Mem} {buf size n a : ℕ} {text : List Byte}

/-- **What is read back is text**, as far as it was put there. -/
theorem read_vsnprintf (hsize : n ≤ size - 1) (hlen : n ≤ text.length) :
    (vsnprintf m buf size text).2.read buf n = text.take n := by
  have hput : n ≤ (text.take (size - 1) ++ [0]).length := by
    rw [List.length_append, List.length_take]
    omega
  have hread := (m.write buf (text.take (size - 1) ++ [0])).take_drop_read buf
    (text.take (size - 1) ++ [0]).length 0 n
  rw [Mem.read_write_self, List.drop_zero, Nat.add_zero, Nat.sub_zero, Nat.min_eq_left hput] at hread
  rw [vsnprintf, ← hread, List.take_append_of_le_length (by rw [List.length_take]; omega), List.take_take,
    Nat.min_eq_left hsize]

theorem vsnprintf_last (hsize : 0 < size) (hlen : size ≤ text.length) :
    (vsnprintf m buf size text).2 (buf + (size - 1)) = 0 := by
  have hcut : (text.take (size - 1)).length = size - 1 := by
    rw [List.length_take]
    omega
  have hlast : size - 1 < (text.take (size - 1) ++ [0]).length := by
    rw [List.length_append, hcut]
    exact Nat.lt_succ_self _
  rw [vsnprintf]
  dsimp only
  rw [Mem.write_apply_of_lt _ hlast, List.getElem_append_right (by omega)]
  simp

theorem vsnprintf_beyond (hsize : 0 < size) (ha : buf + size ≤ a) : (vsnprintf m buf size text).2 a = m a := by
  refine m.write_apply_of_not_mem (.inr ?_)
  rw [List.length_append, List.length_take, List.length_singleton]
  omega

/-! ## Sending what was formatted -/

/-- What is sent from an array of `size` bytes, as much as `vsnprintf` returned. -/
def sendAll (size : ℕ) (m : Mem) (buf : ℕ) (text : List Byte) : List Byte :=
  let (n, m) := vsnprintf m buf size text
  if 0 < n then m.read buf n.toNat else []

/-- …and with that cut to the array. -/
def sendCut (size : ℕ) (m : Mem) (buf : ℕ) (text : List Byte) : List Byte :=
  let (n, m) := vsnprintf m buf size text
  let n := if (size : ℤ) - 1 < n then (size : ℤ) - 1 else n
  if 0 < n then m.read buf n.toNat else []

/-- **Only the text is sent**: a prefix of it, and the same for any two stacks. -/
def Reveals (helper : Mem → ℕ → List Byte → List Byte) (text : List Byte) : Prop :=
  ∀ m m' buf, helper m buf text <+: text ∧ helper m buf text = helper m' buf text

theorem sendAll_of_lt (hlen : text.length < size) (hsize : size ≤ 2 ^ 31) :
    sendAll size m buf text = text := by
  have hn : (vsnprintf m buf size text).1 = text.length := if_pos (hlen.trans_le hsize)
  have hread : (vsnprintf m buf size text).2.read buf text.length = text := by
    rw [read_vsnprintf (Nat.le_sub_one_of_lt hlen) le_rfl, List.take_length]
  rw [sendAll]
  dsimp only
  rw [hn]
  split
  · exact hread
  · exact (List.eq_nil_of_length_eq_zero (by omega)).symm

/-- **What does not fit is sent with the NUL and what lies behind.** -/
theorem sendAll_getElem (hsize : 0 < size) (hlen : size ≤ text.length) (hint : text.length < 2 ^ 31) (m : Mem)
    (buf : ℕ) :
    (sendAll size m buf text)[size - 1]? = some 0 ∧
    ∀ i, size ≤ i → i < text.length → (sendAll size m buf text)[i]? = some (m (buf + i)) := by
  have hn : (vsnprintf m buf size text).1 = text.length := if_pos hint
  have hsent : sendAll size m buf text = (vsnprintf m buf size text).2.read buf text.length := by
    rw [sendAll]
    dsimp only
    rw [hn]
    split
    · rfl
    · omega
  rw [hsent]
  refine ⟨?_, fun i hi hlt => ?_⟩
  · rw [Mem.getElem?_read, if_pos (by omega), vsnprintf_last hsize hlen]
  · rw [Mem.getElem?_read, if_pos hlt, vsnprintf_beyond hsize (by omega)]

theorem reveals_sendAll (hlen : text.length < size) (hsize : size ≤ 2 ^ 31) : Reveals (sendAll size) text :=
  fun m m' buf => by
    rw [sendAll_of_lt hlen hsize, sendAll_of_lt hlen hsize]
    exact ⟨ List.prefix_rfl, rfl⟩

/-- **A text that does not fit reveals more than the text.** -/
theorem not_reveals_sendAll (hsize : 0 < size) (hlen : size ≤ text.length) (hint : text.length < 2 ^ 31)
    (htext : (0 : Byte) ∉ text) : ¬ Reveals (sendAll size) text := fun h => by
  obtain ⟨rest, hrest⟩ := (h (fun _ => 0) (fun _ => 0) 0).1
  have hlast := (sendAll_getElem hsize hlen hint (fun _ => 0) 0).1
  have hmem : (0 : Byte) ∈ text := by
    rw [← hrest]
    exact List.mem_append_left rest (List.mem_of_getElem? hlast)
  exact htext hmem

/-- The part of a text that an array of `size` bytes has room for; a text of no `int` length is an error. -/
def cutText (size : ℕ) (text : List Byte) : List Byte :=
  if text.length < 2 ^ 31 then text.take (size - 1) else []

/-- **Cut to the array, a text is sent as far as it was put there.** -/
theorem sendCut_eq (hsize : 0 < size) (m : Mem) (buf : ℕ) (text : List Byte) :
    sendCut size m buf text = cutText size text := by
  rw [sendCut, cutText]
  dsimp only
  by_cases hint : text.length < 2 ^ 31
  · have hn : (vsnprintf m buf size text).1 = text.length := if_pos hint
    have hcut : (if (size : ℤ) - 1 < text.length then (size : ℤ) - 1 else text.length)
        = ((min (size - 1) text.length : ℕ) : ℤ) := by
      split <;> omega
    rw [if_pos hint, hn, hcut, Int.toNat_natCast,
      read_vsnprintf (Nat.min_le_left _ _) (Nat.min_le_right _ _), ← List.take_eq_take_min]
    split
    · rfl
    · rw [List.take_eq_take_min, show min (size - 1) text.length = 0 by omega, List.take_zero]
  · have hn : (vsnprintf m buf size text).1 = -1 := if_neg hint
    rw [if_neg hint, hn, if_neg (by omega : ¬ (size : ℤ) - 1 < -1), if_neg (by decide)]

theorem reveals_sendCut (hsize : 0 < size) (text : List Byte) : Reveals (sendCut size) text :=
  fun m m' buf => by
    rw [sendCut_eq hsize, sendCut_eq hsize, cutText]
    refine ⟨?_, rfl⟩
    split
    · exact List.take_prefix _ text
    · exact List.nil_prefix

end Machinery
