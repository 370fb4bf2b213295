import Mathlib.Algebra.BigOperators.Group.Finset.Piecewise
import Mathlib.Data.Fintype.BigOperators

/-!
# Machinery/Tables — the best entry of a table, and how many parties are in a state

* `bestOf` — the loop that remembers the heaviest fitting entry so far; it ends with one no fitting
  entry outweighs (`bestOf_eq_some`), and finds one if there is one of any weight
  (`exists_bestOf`).
* `count` — the number of parties whose state satisfies a test; when one party moves it changes by
  what that party was and what it is (`count_update`).
-/

namespace Machinery

/-! ## The best entry -/

section Best

variable {α : Type*} (fits : α → Bool) (weight : α → ℕ)

/-- One round: an entry that fits and weighs more than the best so far takes its place. -/
def better (best : Option α × ℕ) (a : α) : Option α × ℕ :=
  if fits a && decide (weight a > best.2) then (some a, weight a) else best

def bestOf (l : List α) : Option α := (l.foldl (better fits weight) (none, 0)).1

/-- What the loop keeps: the best of the entries so far, with its weight. -/
structure IsBest (l : List α) (best : Option α × ℕ) : Prop where
  weight_le : ∀ a ∈ l, fits a = true → weight a ≤ best.2
  found : ∀ a, best.1 = some a → a ∈ l ∧ fits a = true ∧ weight a = best.2
  missing : best.1 = none → best.2 = 0

variable {fits weight} {l : List α} {best : Option α × ℕ} {a : α}

theorem IsBest.snoc (h : IsBest fits weight l best) (a : α) :
    IsBest fits weight (l ++ [a]) (better fits weight best a) := by
  rw [better]
  split
  · next hbetter =>
    rw [Bool.and_eq_true, decide_eq_true_iff] at hbetter
    refine ⟨fun b hb hfits => ?_, fun b hb => ?_, by simp⟩
    · rcases List.mem_append.mp hb with hold | hnew
      · exact (h.weight_le b hold hfits).trans hbetter.2.le
      · rw [List.mem_singleton.mp hnew]
    · cases hb
      exact ⟨List.mem_append_right _ (List.mem_singleton_self _), hbetter.1, rfl⟩
  · next hworse =>
    rw [Bool.and_eq_true, decide_eq_true_iff, not_and, not_lt] at hworse
    refine ⟨fun b hb hfits => ?_, fun b hb => ?_, h.missing⟩
    · rcases List.mem_append.mp hb with hold | hnew
      · exact h.weight_le b hold hfits
      · obtain rfl := List.mem_singleton.mp hnew
        exact hworse hfits
    · obtain ⟨hmem, hrest⟩ := h.found b hb
      exact ⟨List.mem_append_left _ hmem, hrest⟩

theorem IsBest.foldl (h : IsBest fits weight l best) (l' : List α) :
    IsBest fits weight (l ++ l') (l'.foldl (better fits weight) best) := by
  induction l' generalizing l best with
  | nil => rwa [List.append_nil]
  | cons a l' ih =>
    have hnext := ih (h.snoc a)
    rwa [List.append_assoc] at hnext

theorem isBest_bestOf (fits : α → Bool) (weight : α → ℕ) (l : List α) :
    IsBest fits weight l (l.foldl (better fits weight) (none, 0)) :=
  IsBest.foldl (l := []) ⟨by simp, by simp, fun _ => rfl⟩ l

/-- **What the loop finds fits, and nothing that fits outweighs it.** -/
theorem bestOf_eq_some (h : bestOf fits weight l = some a) :
    fits a = true ∧ ∀ b ∈ l, fits b = true → weight b ≤ weight a := by
  have hbest := isBest_bestOf fits weight l
  obtain ⟨-, hfits, hweight⟩ := hbest.found a h
  exact ⟨hfits, fun b hb hfits' => hweight ▸ hbest.weight_le b hb hfits'⟩

/-- **The loop finds something if something fits.** -/
theorem exists_bestOf (hmem : a ∈ l) (hfits : fits a = true) (hpos : 0 < weight a) :
    ∃ b, bestOf fits weight l = some b := by
  have hbest := isBest_bestOf fits weight l
  rw [← Option.ne_none_iff_exists']
  intro hnone
  have hle := hbest.weight_le a hmem hfits
  rw [hbest.missing hnone] at hle
  exact absurd hpos (not_lt.mpr hle)

end Best

/-! ## Counting parties -/

section Count

variable {T α : Type*} [Fintype T]

/-- How many parties pass the test. -/
def count (p : α → Bool) (f : T → α) : ℕ := ∑ t, if p (f t) then 1 else 0

theorem count_eq_zero_iff {p : α → Bool} {f : T → α} : count p f = 0 ↔ ∀ t, p (f t) = false := by
  simp [count]

/-- **When one party moves**, it counts for what it is, no longer for what it was. -/
theorem count_update [DecidableEq T] (p : α → Bool) (f : T → α) (t : T) (x : α) :
    count p (Function.update f t x) + (if p (f t) then 1 else 0)
      = count p f + if p x then 1 else 0 := by
  have hrest : ∑ u ∈ Finset.univ.erase t, (if p (Function.update f t x u) then 1 else 0)
      = ∑ u ∈ Finset.univ.erase t, if p (f u) then 1 else 0 :=
    Finset.sum_congr rfl fun u hu => by rw [Function.update_of_ne (Finset.ne_of_mem_erase hu)]
  rw [count, count, ← Finset.add_sum_erase _ _ (Finset.mem_univ t), hrest, Function.update_self,
    ← Finset.add_sum_erase _ (fun u => if p (f u) then 1 else 0) (Finset.mem_univ t)]
  omega

end Count

end Machinery
