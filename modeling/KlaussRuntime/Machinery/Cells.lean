import Mathlib.Logic.Function.Basic
import Mathlib.Tactic

/-!
# Machinery/Cells — memory in 32-bit cells, and stacks in it

A memory of 32-bit cells at 32-bit byte addresses, for programs whose accesses are aligned.  A 64-bit word
takes the cell at its address, for its low half, and the one four bytes on.

A stack grows down: `below p k` is the address `k` bytes under `p`, and `Words m p ws` says that the words
`ws` lie under `p`, the first on top.  A push adds a word (`Words.push`), and whoever leaves the cells under
`p` alone leaves the words there (`Words.congr`).
-/

namespace Machinery

abbrev Address := BitVec 32

abbrev Cells := Address → BitVec 32

namespace Cells

variable (m : Cells) (p : Address)

def store32 (v : BitVec 32) : Cells := Function.update m p v

def load64 : BitVec 64 := m (p + 4) ++ m p

def store64 (w : BitVec 64) : Cells :=
  (m.store32 p (w.extractLsb' 0 32)).store32 (p + 4) (w.extractLsb' 32 32)

variable {m p} {m' : Cells} {a : Address}

theorem store32_same (v : BitVec 32) : m.store32 p v p = v := Function.update_self ..

theorem store32_apply (v : BitVec 32) (h : a ≠ p) : m.store32 p v a = m a := Function.update_of_ne h ..

theorem store64_apply (w : BitVec 64) (h : a ≠ p) (h' : a ≠ p + 4) : m.store64 p w a = m a := by
  rw [store64, store32_apply _ h', store32_apply _ h]

theorem store64_low (w : BitVec 64) : m.store64 p w p = w.extractLsb' 0 32 := by
  rw [store64, store32_apply _ (by bv_omega), store32_same]

theorem store64_high (w : BitVec 64) : m.store64 p w (p + 4) = w.extractLsb' 32 32 := by
  rw [store64, store32_same]

/-- **A word is read back.** -/
@[simp] theorem load64_store64 (w : BitVec 64) : (m.store64 p w).load64 p = w := by
  rw [load64, store64_low, store64_high]
  ext i hi
  simp only [BitVec.getElem_append, BitVec.getElem_extractLsb']
  split_ifs with h
  · rw [Nat.zero_add, BitVec.getLsbD_eq_getElem]
  · rw [show 32 + (i - 32) = i by omega, BitVec.getLsbD_eq_getElem]

theorem load64_congr (h : m' p = m p) (h' : m' (p + 4) = m (p + 4)) : m'.load64 p = m.load64 p := by
  rw [load64, load64, h, h']

end Cells

/-! ## Stacks -/

/-- The address `k` bytes under `p`. -/
def below (p : Address) (k : ℕ) : Address := p - BitVec.ofNat 32 k

variable {m m' : Cells} {p a : Address} {ws : List (BitVec 64)}

@[simp] theorem below_zero (p : Address) : below p 0 = p := BitVec.sub_zero p

@[simp] theorem below_below (p : Address) (k j : ℕ) : below (below p k) j = below p (k + j) := by
  rw [below, below, below, BitVec.ofNat_add, BitVec.sub_sub]

theorem below_add (p : Address) (k j : ℕ) : below p (k + j) + BitVec.ofNat 32 j = below p k := by
  rw [← below_below, below, BitVec.sub_add_cancel]

theorem below_injective {k j : ℕ} (hk : k < 2 ^ 32) (hj : j < 2 ^ 32) (h : below p k = below p j) :
    k = j := by
  have heq : BitVec.ofNat 32 k = BitVec.ofNat 32 j := (BitVec.sub_right_inj p).mp h
  have hnat := congrArg BitVec.toNat heq
  rwa [BitVec.toNat_ofNat, BitVec.toNat_ofNat, Nat.mod_eq_of_lt hk, Nat.mod_eq_of_lt hj] at hnat

/-- The words `ws` lie under `p`. -/
def Words (m : Cells) (p : Address) (ws : List (BitVec 64)) : Prop :=
  ∀ i w, ws[i]? = some w → m.load64 (below p (8 * (i + 1))) = w

/-- The `n` bytes under `p`. -/
def Under (p : Address) (n : ℕ) (a : Address) : Prop := ∃ k, 0 < k ∧ k ≤ n ∧ a = below p k

theorem below_add_four (p : Address) (i : ℕ) : below p (8 * (i + 1)) + 4 = below p (8 * i + 4) :=
  below_add p (8 * i + 4) 4

theorem Under.toNat {n : ℕ} {a : Address} (h : Under p n a) (hn : n ≤ p.toNat) :
    p.toNat - n ≤ a.toNat ∧ a.toNat < p.toNat := by
  obtain ⟨k, hpos, hk, rfl⟩ := h
  have hlt := p.isLt
  rw [below, BitVec.toNat_sub, BitVec.toNat_ofNat]
  omega

theorem Words.congr (h : Words m p ws) (hm : ∀ a, Under p (8 * ws.length) a → m' a = m a) :
    Words m' p ws := by
  intro i w hw
  have hi : i < ws.length := (List.getElem?_eq_some_iff.mp hw).1
  rw [← h i w hw]
  refine Cells.load64_congr (hm _ ⟨8 * (i + 1), by omega, by omega, rfl⟩) ?_
  rw [below_add_four]
  exact hm _ ⟨8 * i + 4, by omega, by omega, rfl⟩

theorem Words.take (h : Words m p ws) (j : ℕ) : Words m p (ws.take j) := by
  intro i w hw
  rw [List.getElem?_take] at hw
  split_ifs at hw
  exact h i w hw

theorem Words.top {high low : BitVec 32} (h : Words m p ((high ++ low) :: ws)) :
    m (below p 8) = low ∧ m (below p 4) = high := by
  have hword : m.load64 (below p 8) = high ++ low := h 0 _ rfl
  rw [Cells.load64, below_add_four p 0] at hword
  have hhigh := congrArg (BitVec.extractLsb' 32 32) hword
  have hlow := congrArg (BitVec.extractLsb' 0 32) hword
  rw [BitVec.extractLsb'_append_eq_left, BitVec.extractLsb'_append_eq_left] at hhigh
  rw [BitVec.extractLsb'_append_eq_right, BitVec.extractLsb'_append_eq_right] at hlow
  exact ⟨hlow, hhigh⟩

theorem store64_below_apply {n : ℕ} (w : BitVec 64) (ha : ¬ Under p (8 * (n + 1)) a) : m.store64 (below p (8 * (n + 1))) w a = m a := by
  refine Cells.store64_apply w (fun h => ha ⟨_, by omega, (Nat.le_refl _), h⟩) fun h => ha ?_
  rw [below_add_four] at h
  exact ⟨8 * n + 4, by omega, by omega, h⟩

/-- **A push adds a word.** -/
theorem Words.push (h : Words m p ws) (hlen : 8 * (ws.length + 1) < 2 ^ 32) (w : BitVec 64) :
    Words (m.store64 (below p (8 * (ws.length + 1))) w) p (ws ++ [w]) := by
  intro i v hv
  rcases Nat.lt_or_ge i ws.length with hlt | hge
  · rw [List.getElem?_append_left hlt] at hv
    rw [← h i v hv]
    have hne : ∀ k, 0 < k → k ≤ 8 * ws.length → m.store64 (below p (8 * (ws.length + 1))) w (below p k) =
        m (below p k) := fun k hpos hk => by
      refine Cells.store64_apply w (fun heq => ?_) fun heq => ?_
      · have := below_injective (by omega) (by omega) heq
        omega
      · rw [below_add_four] at heq
        have := below_injective (by omega) (by omega) heq
        omega
    refine Cells.load64_congr (hne _ (by omega) (by omega)) ?_
    rw [below_add_four]
    exact hne _ (by omega) (by omega)
  · obtain ⟨rfl, rfl⟩ : i = ws.length ∧ v = w := by
      rw [List.getElem?_append_right hge, List.getElem?_singleton] at hv
      split_ifs at hv with hzero
      exact ⟨by omega, (Option.some.inj hv).symm⟩
    exact Cells.load64_store64 _

/-- The words `ws` pushed one after the other. -/
def storeWords (m : Cells) (p : Address) : List (BitVec 64) → Cells
  | [] => m
  | w :: ws => storeWords (m.store64 (below p 8) w) (below p 8) ws

theorem Words.storeWords {vs : List (BitVec 64)} (h : Words m p vs)
    (hlen : 8 * (vs.length + ws.length) < 2 ^ 32) :
    Words (storeWords m (below p (8 * vs.length)) ws) p (vs ++ ws) := by
  induction ws generalizing m vs with
  | nil => rwa [List.append_nil]
  | cons w ws ih =>
    rw [List.length_cons] at hlen
    have hpush := ih (h.push (by omega) w) (by
      rw [List.length_append, List.length_singleton]
      omega)
    rw [List.length_append, List.length_singleton, List.append_assoc, List.singleton_append] at hpush
    rw [Machinery.storeWords, below_below]
    exact hpush

/-- **What was pushed lies there.** -/
theorem words_storeWords (m : Cells) (p : Address) (hlen : 8 * ws.length < 2 ^ 32) :
    Words (storeWords m p ws) p ws := by
  have hnil : Words m p [] := fun i w hw => by simp at hw
  have hwords : Words (storeWords m (below p (8 * ([] : List (BitVec 64)).length)) ws) p ([] ++ ws) :=
    hnil.storeWords (by simpa using hlen)
  rwa [List.length_nil, Nat.mul_zero, below_zero, List.nil_append] at hwords

theorem storeWords_apply (ha : ¬ Under p (8 * ws.length) a) : storeWords m p ws a = m a := by
  induction ws generalizing m p with
  | nil => rfl
  | cons w ws ih =>
    rw [storeWords, ih]
    · refine store64_below_apply (n := 0) w fun ⟨k, hpos, hk, heq⟩ => ha ⟨k, hpos, ?_, heq⟩
      rw [List.length_cons]
      omega
    · rintro ⟨k, hpos, hk, rfl⟩
      refine ha ⟨8 + k, by omega, ?_, below_below p 8 k⟩
      rw [List.length_cons]
      omega

end Machinery
