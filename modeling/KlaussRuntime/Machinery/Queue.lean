import Mathlib.Tactic

/-!
# Machinery/Queue — a queue in a ring of cells

`Queued n cells head xs` says that the entries `xs` wait in a ring of `n` cells, the oldest at `head` and the
others behind it, round the end.  The cell behind the last entry is free while there is room: storing into
it disturbs no entry (`Queued.store`), and once it is stored it can be counted in (`Queued.snoc`).  The
oldest entry leaves by moving `head` on (`Queued.tail`).
-/

namespace Machinery

variable {α : Type*} {n head i j : ℕ} {cells : ℕ → α} {x : α} {xs : List α}

/-- **The entries waiting in a ring**, from `head` on. -/
structure Queued (n : ℕ) (cells : ℕ → α) (head : ℕ) (xs : List α) : Prop where
  head_lt : head < n
  length_le : xs.length ≤ n
  cell : ∀ i (hi : i < xs.length), cells ((head + i) % n) = xs[i]

theorem add_mod_ne (hij : i < j) (hjn : j < i + n) : (head + i) % n ≠ (head + j) % n := by
  intro heq
  have hmod : (head + j - (head + i)) % n = 0 := Nat.sub_mod_eq_zero_of_mod_eq heq.symm
  rw [Nat.add_sub_add_left, Nat.mod_eq_of_lt (by omega)] at hmod
  omega

namespace Queued

theorem nil (h : head < n) : Queued n cells head [] := ⟨h, Nat.zero_le n, by simp⟩

theorem cell_ne (hi : i < xs.length) (hroom : xs.length < n) :
    (head + i) % n ≠ (head + xs.length) % n := add_mod_ne hi (by omega)

/-- **Storing into the free cell** disturbs no entry. -/
theorem store (h : Queued n cells head xs) (hroom : xs.length < n) (x : α) :
    Queued n (Function.update cells ((head + xs.length) % n) x) head xs := by
  refine ⟨h.head_lt, h.length_le, fun i hi => ?_⟩
  rw [Function.update_of_ne (cell_ne hi hroom)]
  exact h.cell i hi

/-- **The free cell is counted in.** -/
theorem snoc (h : Queued n cells head xs) (hroom : xs.length < n)
    (hx : cells ((head + xs.length) % n) = x) : Queued n cells head (xs ++ [x]) := by
  refine ⟨h.head_lt, by simpa using hroom, fun i hi => ?_⟩
  rcases Nat.lt_or_ge i xs.length with hlt | hge
  · rw [List.getElem_append_left hlt]
    exact h.cell i hlt
  · rw [List.getElem_append_right hge, List.getElem_singleton]
    rw [List.length_append, List.length_singleton] at hi
    rw [show i = xs.length by omega, hx]

theorem head_eq (h : Queued n cells head (x :: xs)) : cells head = x := by
  have hcell := h.cell 0 (by simp)
  rwa [Nat.add_zero, Nat.mod_eq_of_lt h.head_lt] at hcell

/-- **The oldest entry leaves.** -/
theorem tail (h : Queued n cells head (x :: xs)) : Queued n cells ((head + 1) % n) xs := by
  have hlen := h.length_le
  rw [List.length_cons] at hlen
  refine ⟨Nat.mod_lt _ (Nat.zero_lt_of_lt h.head_lt), by omega, fun i hi => ?_⟩
  have hcell := h.cell (i + 1) (by simpa using hi)
  rw [List.getElem_cons_succ] at hcell
  rw [← hcell, Nat.mod_add_mod, Nat.add_assoc, Nat.add_comm 1]

end Queued

end Machinery
