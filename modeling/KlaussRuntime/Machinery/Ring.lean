import Mathlib.Data.Nat.Find
import Mathlib.Tactic

/-!
# Machinery/Ring — looking for the next one round a ring

`ring n first` are the `n` places from `first` on, round and round.  Starting after place `c`, the first
place found is not further than any other that would do: seen from such a place `j`, the search goes from
`c` towards `j` and never past it (`find?_ring`).  What it has gone over is `Between j · c`, the places
from `j` up to `c`; it grows as `c` moves, also when the ring gets longer.
-/

namespace Machinery

def ring (n first : ℕ) : List ℕ := (List.range n).map fun i => (first + i) % n

/-- Going up from `j` round the ring, `i` comes no later than `c`. -/
def Between (j i c : ℕ) : Prop := if j < c then j < i ∧ i ≤ c else j < i ∨ i ≤ c

theorem Between.self (j c : ℕ) : Between j c c := by
  unfold Between
  split_ifs <;> omega

theorem add_mod_ring {n x : ℕ} (h : x < 2 * n) : x % n = x ∧ x < n ∨ x % n + n = x := by
  rcases Nat.lt_or_ge x n with hlt | hge
  · exact .inl ⟨Nat.mod_eq_of_lt hlt, hlt⟩
  · right
    rw [Nat.mod_eq_sub_mod hge, Nat.mod_eq_of_lt (by omega)]
    omega

variable {n c j next : ℕ} {p : ℕ → Bool}

/-- **The search goes towards every place that would do, and not past it.** -/
theorem find?_ring (h : (ring n (c + 1)).find? p = some next) (hc : c < n) (hj : j < n)
    (hp : p j = true) (hjc : j ≠ c) (hne : next ≠ j) :
    ¬ Between j next c ∧ ∀ i, Between j i c → Between j i next := by
  rw [ring, List.find?_map, Option.map_eq_some_iff] at h
  obtain ⟨a, hfind, hnext⟩ := h
  obtain ⟨-, ha, hleast⟩ := List.find?_range_eq_some.mp hfind
  rw [List.mem_range] at ha
  -- how far `j` is from `c`
  obtain ⟨b, hb, hround⟩ : ∃ b < n, c + 1 + b = j ∨ c + 1 + b = j + n := by
    rcases Nat.lt_or_ge c j with hlt | hge
    · exact ⟨j - c - 1, by omega, .inl (by omega)⟩
    · exact ⟨n + j - c - 1, by omega, .inr (by omega)⟩
  have hbj : (c + 1 + b) % n = j := by
    rcases hround with heq | heq
    · rw [heq, Nat.mod_eq_of_lt hj]
    · rw [heq, Nat.add_mod_right, Nat.mod_eq_of_lt hj]
  have hab : a < b := by
    rcases Nat.lt_trichotomy a b with hlt | heq | hgt
    · exact hlt
    · rw [heq, hbj] at hnext
      exact absurd hnext.symm hne
    · have hnot := hleast b hgt
      simp [hbj, hp] at hnot
  have hwhere := add_mod_ring (n := n) (x := c + 1 + a) (by omega)
  rw [hnext] at hwhere
  unfold Between
  refine ⟨?_, fun i => ?_⟩
  · split_ifs <;> omega
  · split_ifs <;> omega

end Machinery
