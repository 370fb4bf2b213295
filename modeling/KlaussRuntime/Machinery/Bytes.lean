import Mathlib.Tactic
import Mathlib.Data.List.Basic

/-!
# Machinery/Bytes — integers as byte strings

`leBytes n v` are the `n` low bytes of `v`, least significant first, and `leNat` reads such a string
back; `beBytes` and `beNat` are the same in network order.  Reading back what was written keeps the
value modulo `256 ^ n` (`leNat_leBytes`), and the two loops a C program writes — byte `i` is `v`
shifted right by `8 * i`, or by `8 * (n - 1 - i)` — are these two strings.
-/

namespace Machinery

/-- An octet. -/
abbrev Byte := BitVec 8

/-! ## Little-endian -/

/-- The `n` low bytes of `v`, least significant first. -/
def leBytes : ℕ → ℕ → List Byte
  | 0, _ => []
  | n + 1, v => BitVec.ofNat 8 v :: leBytes n (v / 256)

/-- The integer a byte string spells, least significant byte first. -/
def leNat : List Byte → ℕ
  | [] => 0
  | b :: bs => b.toNat + 256 * leNat bs

@[simp] theorem length_leBytes (n v : ℕ) : (leBytes n v).length = n := by
  induction n generalizing v with
  | zero => rfl
  | succ n ih => simp [leBytes, ih]

/-- **Reading back what was written** keeps the value modulo the field's width. -/
theorem leNat_leBytes (n v : ℕ) : leNat (leBytes n v) = v % 256 ^ n := by
  induction n generalizing v with
  | zero => simp [leBytes, leNat, Nat.mod_one]
  | succ n ih =>
    have hstep : v % 256 ^ (n + 1) = v % 256 + 256 * (v / 256 % 256 ^ n) := by
      rw [pow_succ', Nat.mod_mul]
    rw [leBytes, leNat, ih, BitVec.toNat_ofNat, hstep]

theorem leNat_append (a b : List Byte) : leNat (a ++ b) = leNat a + 256 ^ a.length * leNat b := by
  induction a with
  | nil => simp [leNat]
  | cons x a ih =>
    simp only [List.cons_append, leNat, ih, List.length_cons, pow_succ]
    ring

theorem leNat_lt (bs : List Byte) : leNat bs < 256 ^ bs.length := by
  induction bs with
  | nil => simp [leNat]
  | cons b bs ih =>
    have hb : b.toNat < 256 := b.isLt
    simp only [leNat, List.length_cons, pow_succ]
    omega

/-- **Writing back what was read**: a string is the bytes of the integer it spells. -/
theorem leBytes_leNat (bs : List Byte) : leBytes bs.length (leNat bs) = bs := by
  induction bs with
  | nil => rfl
  | cons b bs ih =>
    have hb : b.toNat < 256 := b.isLt
    have hdiv : (b.toNat + 256 * leNat bs) / 256 = leNat bs := by omega
    have hlow : BitVec.ofNat 8 (b.toNat + 256 * leNat bs) = b := by
      refine BitVec.eq_of_toNat_eq ?_
      rw [BitVec.toNat_ofNat]
      omega
    rw [List.length_cons, leNat, leBytes, hdiv, ih, hlow]

theorem leBytes_add (m n v : ℕ) : leBytes (m + n) v = leBytes m v ++ leBytes n (v / 256 ^ m) := by
  induction m generalizing v with
  | zero => simp [leBytes]
  | succ m ih =>
    rw [Nat.succ_add, leBytes, ih, leBytes, List.cons_append, Nat.div_div_eq_div_mul, pow_succ']

theorem take_leBytes_leNat {n : ℕ} {bs : List Byte} (h : bs.length ≤ n) :
    (leBytes n (leNat bs)).take bs.length = bs := by
  obtain ⟨k, rfl⟩ := Nat.exists_eq_add_of_le h
  rw [leBytes_add, leBytes_leNat, List.take_left]

theorem leNat_append_zeros (bs : List Byte) (k : ℕ) :
    leNat (bs ++ List.replicate k 0) = leNat bs := by
  have hzero : leNat (List.replicate k 0) = 0 := by
    induction k with
    | zero => rfl
    | succ k ih => rw [List.replicate_succ, leNat, ih]; rfl
  rw [leNat_append, hzero, mul_zero, add_zero]

theorem leBytes_xor (n a b : ℕ) :
    leBytes n (a ^^^ b) = List.zipWith (· ^^^ ·) (leBytes n a) (leBytes n b) := by
  induction n generalizing a b with
  | zero => rfl
  | succ n ih =>
    have hdiv : (a ^^^ b) / 256 = a / 256 ^^^ b / 256 := by
      simpa only [Nat.shiftRight_eq_div_pow] using
        Nat.shiftRight_xor_distrib (a := a) (b := b) (i := 8)
    rw [leBytes, leBytes, leBytes, List.zipWith_cons_cons, hdiv, ih, BitVec.ofNat_xor]

theorem map_range_leBytes (n v : ℕ) :
    (List.range n).map (fun i => BitVec.ofNat 8 (v >>> (8 * i))) = leBytes n v := by
  induction n generalizing v with
  | zero => rfl
  | succ n ih =>
    have hshift : ∀ i, v >>> (8 * (i + 1)) = (v / 256) >>> (8 * i) := fun i => by
      rw [mul_add, mul_one, add_comm, Nat.shiftRight_add, Nat.shiftRight_eq_div_pow v 8]
    rw [List.range_succ_eq_map, List.map_cons, List.map_map, leBytes, ← ih (v / 256)]
    refine congrArg₂ List.cons (by simp) (List.map_congr_left fun i _ => ?_)
    rw [Function.comp_apply, Nat.succ_eq_add_one, hshift]

/-! ## Big-endian -/

/-- The `n` low bytes of `v`, most significant first. -/
def beBytes (n v : ℕ) : List Byte := (leBytes n v).reverse

/-- The integer a byte string spells, most significant byte first. -/
def beNat (bs : List Byte) : ℕ := leNat bs.reverse

@[simp] theorem length_beBytes (n v : ℕ) : (beBytes n v).length = n := by simp [beBytes]

theorem beNat_beBytes (n v : ℕ) : beNat (beBytes n v) = v % 256 ^ n := by
  rw [beNat, beBytes, List.reverse_reverse, leNat_leBytes]

theorem beBytes_beNat (bs : List Byte) : beBytes bs.length (beNat bs) = bs := by
  have h := leBytes_leNat bs.reverse
  rw [List.length_reverse] at h
  rw [beBytes, beNat, h, List.reverse_reverse]

theorem beBytes_succ (n v : ℕ) : beBytes (n + 1) v = beBytes n (v / 256) ++ [BitVec.ofNat 8 v] := by
  rw [beBytes, leBytes, List.reverse_cons, beBytes]

theorem beNat_concat (bs : List Byte) (b : Byte) : beNat (bs ++ [b]) = b.toNat + 256 * beNat bs := by
  rw [beNat, List.reverse_concat, leNat, beNat]

theorem leBytes_mod (n v : ℕ) : leBytes n (v % 256 ^ n) = leBytes n v := by
  have h := leBytes_leNat (leBytes n v)
  rwa [leNat_leBytes, length_leBytes] at h

theorem beBytes_mod (n v : ℕ) : beBytes n (v % 256 ^ n) = beBytes n v := by
  rw [beBytes, leBytes_mod, beBytes]

theorem beBytes_add (m n v : ℕ) : beBytes (m + n) v = beBytes m (v / 256 ^ n) ++ beBytes n v := by
  rw [beBytes, add_comm, leBytes_add, List.reverse_append, beBytes, beBytes]

theorem map_range_beBytes (n v : ℕ) :
    (List.range n).map (fun i => BitVec.ofNat 8 (v >>> (8 * (n - 1 - i)))) = beBytes n v := by
  rw [beBytes, ← map_range_leBytes, ← List.map_reverse]
  refine List.ext_getElem (by simp) fun i h₁ h₂ => ?_
  simp only [List.getElem_map, List.getElem_range, List.getElem_reverse, List.length_range]

/-! ## Bytes in a word -/

theorem map_packed (b₀ b₁ b₂ b₃ : Byte) :
    [24, 16, 8, 0].map (fun i : ℕ => ((b₀.setWidth 32 <<< 24 ||| b₁.setWidth 32 <<< 16 |||
      b₂.setWidth 32 <<< 8 ||| b₃.setWidth 32) >>> i).setWidth 8) = [b₀, b₁, b₂, b₃] := by
  simp only [List.map_cons, List.map_nil, List.cons.injEq, and_true]
  refine ⟨?_, ?_, ?_, ?_⟩ <;> ext i hi <;>
    simp (disch := omega) [BitVec.getLsbD_of_ge, decide_eq_true, decide_eq_false]

theorem map_packed_le (b₀ b₁ b₂ b₃ : Byte) :
    [0, 8, 16, 24].map (fun i : ℕ => ((b₀.setWidth 32 ||| b₁.setWidth 32 <<< 8 |||
      b₂.setWidth 32 <<< 16 ||| b₃.setWidth 32 <<< 24) >>> i).setWidth 8) = [b₀, b₁, b₂, b₃] := by
  have h := congrArg List.reverse (map_packed b₃ b₂ b₁ b₀)
  rw [← List.map_reverse] at h
  rw [BitVec.or_comm _ (b₃.setWidth 32 <<< 24), BitVec.or_comm _ (b₂.setWidth 32 <<< 16),
    BitVec.or_comm (b₀.setWidth 32), ← BitVec.or_assoc, ← BitVec.or_assoc]
  exact h

theorem packed_bytes (v : BitVec 32) :
    ((v >>> 24).setWidth 8).setWidth 32 <<< 24 ||| ((v >>> 16).setWidth 8).setWidth 32 <<< 16 |||
      ((v >>> 8).setWidth 8).setWidth 32 <<< 8 ||| (v.setWidth 8).setWidth 32 = v := by
  ext i hi
  obtain h | ⟨h, h'⟩ | ⟨h, h'⟩ | h : i < 8 ∨ (8 ≤ i ∧ i < 16) ∨ (16 ≤ i ∧ i < 24) ∨ 24 ≤ i := by omega
  all_goals simp (disch := omega) [BitVec.getLsbD_eq_getElem, decide_eq_true, decide_eq_false]

end Machinery
