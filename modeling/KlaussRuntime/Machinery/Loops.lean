import Mathlib.Data.List.Range

/-!
# Machinery/Loops — loops over a table that may stop early

`loopWhile body` goes through a list and stops after the first round that says so: a `break`, or a
`return` out of the loop.  The results are for bodies whose rounds go on or stop whatever the state is
(`Steady`): then a round is reached when all before it went on, and what each round adds to a
property of the state adds up (`loopWhile_range_iff`).
-/

namespace Machinery

variable {ι S : Type*}

/-- The state after the loop, and whether it went to the end. -/
def loopWhile (body : ι → S → S × Bool) : List ι → S → S × Bool
  | [], s => (s, true)
  | i :: l, s => if (body i s).2 then loopWhile body l (body i s).1 else ((body i s).1, false)

/-- Which rounds stop does not depend on the state. -/
def Steady (body : ι → S → S × Bool) (goesOn : ι → Bool) : Prop := ∀ i s, (body i s).2 = goesOn i

variable {body : ι → S → S × Bool} {goesOn : ι → Bool} {l : List ι} {s : S} {n : ℕ}

theorem Steady.loopWhile_cons (h : Steady body goesOn) (i : ι) (l : List ι) (s : S) :
    loopWhile body (i :: l) s
      = if goesOn i then loopWhile body l (body i s).1 else ((body i s).1, false) := by
  rw [loopWhile, h]

/-- **The loop goes to the end** when every round goes on. -/
theorem Steady.loopWhile_snd (h : Steady body goesOn) (l : List ι) (s : S) :
    (loopWhile body l s).2 = l.all goesOn := by
  induction l generalizing s with
  | nil => rfl
  | cons i l ih =>
    rw [h.loopWhile_cons, List.all_cons]
    cases goesOn i with
    | true => exact ih _
    | false => rfl

/-- **A loop no round of which stops** is a fold. -/
theorem Steady.loopWhile_eq_foldl (h : Steady body goesOn) (hall : l.all goesOn = true) (s : S) :
    (loopWhile body l s).1 = l.foldl (fun s i => (body i s).1) s := by
  induction l generalizing s with
  | nil => rfl
  | cons i l ih =>
    rw [List.all_cons, Bool.and_eq_true] at hall
    rw [h.loopWhile_cons, if_pos hall.1, List.foldl_cons, ih hall.2]

/-- **What the rounds add up to**: a property each round adds a condition to. -/
theorem Steady.loopWhile_iff (h : Steady body goesOn) {Q : S → Prop} {R : ι → Prop}
    (hround : ∀ i s, Q (body i s).1 ↔ Q s ∧ R i) (l : List ι) (s : S) :
    Q (loopWhile body l s).1 ↔
      Q s ∧ ∀ k (hk : k < l.length), (∀ i ∈ l.take k, goesOn i = true) → R l[k] := by
  induction l generalizing s with
  | nil => simp [loopWhile]
  | cons i l ih =>
    rw [h.loopWhile_cons]
    by_cases hgo : goesOn i = true
    · rw [if_pos hgo, ih, hround, and_assoc]
      refine and_congr_right fun _ => ⟨fun hall k hk hbefore => ?_, fun hall => ⟨?_, fun k hk hbefore => ?_⟩⟩
      · cases k with
        | zero => exact hall.1
        | succ k =>
          refine hall.2 k (Nat.lt_of_succ_lt_succ hk) fun j hj => hbefore j ?_
          rw [List.take_succ_cons]
          exact List.mem_cons_of_mem i hj
      · exact hall 0 (Nat.succ_pos _) (by simp)
      · refine hall (k + 1) (Nat.succ_lt_succ hk) fun j hj => ?_
        rcases List.mem_cons.mp (List.take_succ_cons ▸ hj) with rfl | hj
        · exact hgo
        · exact hbefore j hj
    · rw [if_neg hgo, hround]
      refine and_congr_right fun _ => ⟨fun hi k hk hbefore => ?_, fun hall => ?_⟩
      · cases k with
        | zero => exact hi
        | succ k => exact absurd (hbefore i (by rw [List.take_succ_cons]; exact List.mem_cons_self)) hgo
      · exact hall 0 (Nat.succ_pos _) (by simp)

theorem Steady.loopWhile_range_iff {body : ℕ → S → S × Bool} {goesOn : ℕ → Bool}
    (h : Steady body goesOn) {Q : S → Prop} {R : ℕ → Prop}
    (hround : ∀ i s, Q (body i s).1 ↔ Q s ∧ R i) (n : ℕ) (s : S) :
    Q (loopWhile body (List.range n) s).1 ↔
      Q s ∧ ∀ k < n, (∀ i < k, goesOn i = true) → R k := by
  rw [h.loopWhile_iff hround]
  refine and_congr_right fun _ => forall_congr' fun k => ?_
  simp only [List.length_range, List.getElem_range]
  refine forall_congr' fun hk => imp_congr_left (forall_congr' fun i => imp_congr_left ?_)
  rw [List.take_range, List.mem_range, min_eq_left hk.le]

/-- **What the rounds of a fold add up to.** -/
theorem foldl_iff {f : S → ι → S} {Q : S → Prop} {R : ι → Prop}
    (hround : ∀ i s, Q (f s i) ↔ Q s ∧ R i) (l : List ι) (s : S) :
    Q (l.foldl f s) ↔ Q s ∧ ∀ i ∈ l, R i := by
  induction l generalizing s with
  | nil => simp
  | cons i l ih => rw [List.foldl_cons, ih, hround, List.forall_mem_cons, and_assoc]

end Machinery
