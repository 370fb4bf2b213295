import KlaussRuntime.Machinery.Runs

/-!
# Machinery/Yields — partial correctness for programs that may not come to an end

`Yields p s Q` says that whatever `p`, started in `s`, returns meets `Q`; unlike `Runs` it says nothing
about a `p` that faults or waits forever.  The postcondition of a sequence is asked of its first part
(`Yields.bind`).  Two loops of programs that report errors have rules of their own: rounds that go on until
one fails (`Yields.untilError`), and tries that go on until one stops them (`Yields.retry`).
-/

namespace Machinery

variable {σ α β : Type}

/-- Whatever the program returns meets `Q`. -/
def Yields (p : Prog σ α) (s : σ) (Q : α → σ → Prop) : Prop :=
  ∀ a s', p.run s = some (a, s') → Q a s'

/-- `n` rounds from round `i` on, until one returns an error code. -/
def untilError (body : ℕ → β → Prog σ (ℤ × β)) : ℕ → ℕ → β → Prog σ (ℤ × β)
  | 0, _, b => pure (0, b)
  | n + 1, i, b => do
    let r ← body i b
    if r.1 ≠ 0 then pure r else untilError body n (i + 1) r.2

/-- `n + 1` tries at most, from try `k` on, until one stops them; the last result is returned. -/
def retry (body : ℕ → α → Prog σ α) (stop : α → Bool) : ℕ → ℕ → α → Prog σ α
  | 0, k, a => body k a
  | n + 1, k, a => do
    let a ← body k a
    if stop a then pure a else retry body stop n (k + 1) a

namespace Yields

variable {p : Prog σ α} {f : α → Prog σ β} {s : σ} {P Q : α → σ → Prop} {R : β → σ → Prop}

theorem mono (hp : Yields p s P) (h : ∀ a s', P a s' → Q a s') : Yields p s Q :=
  fun a s' hrun => h a s' (hp a s' hrun)

theorem pure {a : α} (h : Q a s) : Yields (Pure.pure a) s Q := by
  intro a' s' hrun
  cases hrun
  exact h

/-- **Sequencing.** -/
theorem bind (hp : Yields p s P) (hf : ∀ a s', P a s' → Yields (f a) s' R) : Yields (p >>= f) s R := by
  intro b s'' hrun
  rw [StateT.run_bind] at hrun
  obtain ⟨⟨a, s'⟩, hfirst, hrest⟩ := Option.bind_eq_some_iff.mp hrun
  exact hf a s' (hp a s' hfirst) b s'' hrest

theorem modify {g : σ → σ} {Q : PUnit → σ → Prop} (h : Q ⟨⟩ (g s)) :
    Yields (modify g : Prog σ PUnit) s Q := by
  intro a s' hrun
  cases hrun
  exact h

theorem ite {c : Prop} [Decidable c] {q : Prog σ α} (hp : c → Yields p s Q) (hq : ¬ c → Yields q s Q) :
    Yields (if c then p else q) s Q := by
  split
  · exact hp ‹c›
  · exact hq ‹¬ c›

/-- **Rounds until an error**: an invariant every round carries on, or leaves for `E` with its error. -/
theorem untilError {body : ℕ → β → Prog σ (ℤ × β)} (Inv : ℕ → β → σ → Prop) {E : β → σ → Prop}
    {n i : ℕ} {b : β} (h : Inv i b s)
    (hbody : ∀ j b s, i ≤ j → j < i + n → Inv j b s →
      Yields (body j b) s fun r s' => (r.1 = 0 → Inv (j + 1) r.2 s') ∧ (r.1 ≠ 0 → E r.2 s')) :
    Yields (Machinery.untilError body n i b) s fun r s' =>
      (r.1 = 0 → Inv (i + n) r.2 s') ∧ (r.1 ≠ 0 → E r.2 s') := by
  induction n generalizing i b s with
  | zero => exact .pure ⟨fun _ => h, fun hne => absurd rfl hne⟩
  | succ n ih =>
    refine (hbody i b s le_rfl (by omega) h).bind fun r s' hr => .ite (fun hne => ?_) fun h0 => ?_
    · exact .pure ⟨fun h0 => absurd h0 hne, hr.2⟩
    · rw [show i + (n + 1) = i + 1 + n by omega] at hbody ⊢
      exact ih (hr.1 (not_not.mp h0)) fun j b s hij => hbody j b s (by omega)

/-- **Trying again**: every try starts in `Inv`, and keeps it when it does not stop the tries. -/
theorem retry {body : ℕ → α → Prog σ α} {stop : α → Bool} (Inv : α → σ → Prop) {a : α} (hs : Inv a s)
    (hbody : ∀ k a s, Inv a s → Yields (body k a) s fun a s' => Q a s' ∧ (stop a = false → Inv a s'))
    (n k : ℕ) : Yields (Machinery.retry body stop n k a) s Q := by
  induction n generalizing s k a with
  | zero => exact (hbody k a s hs).mono fun a s' h => h.1
  | succ n ih =>
    refine (hbody k a s hs).bind fun a s' h => .ite (fun _ => .pure h.1) fun hgo => ?_
    exact ih (h.2 (by simpa using hgo)) (k + 1)

end Yields

end Machinery
