import Mathlib.Tactic

/-!
# Machinery/Cut — programs that may be cut short

A `Cut σ` program leaves a state whether it returns or not: `none` is a program that has not returned
yet, with the state it has come to.  `Safe I p s Q` says that `p`, started in `s`, returns in `Q`, or is
cut short in a state that meets `I`; so a property of everything a program does on its way is an `I`,
also where the program waits for something that never comes.  With `I` false it is total correctness
(`Ends`).
-/

namespace Machinery

variable {σ α β : Type}

def Cut (σ α : Type) : Type := σ → Option α × σ

namespace Cut

instance instMonad : Monad (Cut σ) where
  pure a := fun s => (some a, s)
  bind p f := fun s =>
    match p s with
    | (some a, s') => f a s'
    | (none, s') => (none, s')

def get : Cut σ σ := fun s => (some s, s)

def modify (g : σ → σ) : Cut σ Unit := fun s => (some (), g s)

/-- The program goes no further. -/
def stop : Cut σ α := fun s => (none, s)

/-- `n` rounds from round `i` on, until one returns an error code. -/
def untilError (body : ℕ → β → Cut σ (ℤ × β)) : ℕ → ℕ → β → Cut σ (ℤ × β)
  | 0, _, b => pure (0, b)
  | n + 1, i, b => do
    let r ← body i b
    if r.1 ≠ 0 then pure r else untilError body n (i + 1) r.2

end Cut

/-- The program returns in `Q`, or is cut short in `I`.  Sealed, so that no proof runs the program. -/
@[irreducible] def Safe (I : σ → Prop) (p : Cut σ α) (s : σ) (Q : α → σ → Prop) : Prop :=
  match p s with
  | (some a, s') => Q a s'
  | (none, s') => I s'

/-- The program returns, in `Q`. -/
abbrev Ends (p : Cut σ α) (s : σ) (Q : α → σ → Prop) : Prop := Safe (fun _ => False) p s Q

namespace Safe

variable {I : σ → Prop} {p : Cut σ α} {f : α → Cut σ β} {s : σ} {P Q : α → σ → Prop}
  {R : β → σ → Prop}

theorem of_run {a : α} {s' : σ} (hrun : p s = (some a, s')) (h : Q a s') : Safe I p s Q := by
  rw [Safe, hrun]
  exact h

theorem of_some {a : α} (hrun : (p s).1 = some a) (h : Q a (p s).2) : Safe I p s Q :=
  of_run (Prod.ext hrun rfl) h

theorem mono (hp : Safe I p s P) (h : ∀ a s', P a s' → Q a s') : Safe I p s Q := by
  rw [Safe] at hp ⊢
  split at hp
  · exact h _ _ hp
  · exact hp

theorem weaken {J : σ → Prop} (hp : Safe I p s Q) (h : ∀ s', I s' → J s') : Safe J p s Q := by
  rw [Safe] at hp ⊢
  split at hp
  · exact hp
  · exact h _ hp

theorem pure {a : α} (h : Q a s) : Safe I (Pure.pure a) s Q := of_run rfl h

theorem stop (h : I s) : Safe I (Cut.stop : Cut σ α) s Q := by
  rw [Safe]
  exact h

/-- **Sequencing.** -/
theorem bind (hp : Safe I p s P) (hf : ∀ a s', P a s' → Safe I (f a) s' R) :
    Safe I (p >>= f) s R := by
  have hrun : (p >>= f) s = match p s with
    | (some a, s') => f a s'
    | (none, s') => (none, s') := rfl
  rw [Safe] at hp ⊢
  rw [hrun]
  split at hp
  · have hrest := hf _ _ hp
    rwa [Safe] at hrest
  · exact hp

theorem get_bind {f : σ → Cut σ β} (h : Safe I (f s) s R) : Safe I (Cut.get >>= f) s R := by
  rw [Safe] at h ⊢
  exact h

theorem ite {c : Prop} [Decidable c] {q : Cut σ α} (hp : c → Safe I p s Q)
    (hq : ¬ c → Safe I q s Q) : Safe I (if c then p else q) s Q := by
  split
  · exact hp ‹c›
  · exact hq ‹¬ c›

/-- **Rounds until an error**: an invariant every round carries on, or leaves for `E` with its error. -/
theorem untilError {body : ℕ → β → Cut σ (ℤ × β)} (Inv : ℕ → β → σ → Prop) {E : β → σ → Prop}
    {n i : ℕ} {b : β} (h : Inv i b s)
    (hbody : ∀ j b s, i ≤ j → j < i + n → Inv j b s →
      Safe I (body j b) s fun r s' => (r.1 = 0 → Inv (j + 1) r.2 s') ∧ (r.1 ≠ 0 → E r.2 s')) :
    Safe I (Cut.untilError body n i b) s fun r s' =>
      (r.1 = 0 → Inv (i + n) r.2 s') ∧ (r.1 ≠ 0 → E r.2 s') := by
  induction n generalizing i b s with
  | zero => exact .pure ⟨fun _ => h, fun hne => absurd rfl hne⟩
  | succ n ih =>
    refine (hbody i b s le_rfl (by omega) h).bind fun r s' hr => .ite (fun hne => ?_) fun h0 => ?_
    · exact .pure ⟨fun h0 => absurd h0 hne, hr.2⟩
    · rw [show i + (n + 1) = i + 1 + n by omega] at hbody ⊢
      exact ih (hr.1 (not_not.mp h0)) fun j b s hij => hbody j b s (by omega)

/-- …and what every round keeps, with an error or without, the rounds keep. -/
theorem untilError_keeps {body : ℕ → β → Cut σ (ℤ × β)} {J : σ → Prop} {n i : ℕ} {b : β} (h : J s)
    (hbody : ∀ {j b s}, J s → Safe I (body j b) s fun _ s' => J s') :
    Safe I (Cut.untilError body n i b) s fun _ s' => J s' := by
  refine (untilError (fun _ _ s => J s) (E := fun _ s => J s) h fun j b s _ _ hs =>
    (hbody hs).mono fun _ _ hs => ⟨fun _ => hs, fun _ => hs⟩).mono fun r s' hr => ?_
  by_cases hrc : r.1 = 0
  · exact hr.1 hrc
  · exact hr.2 hrc

end Safe

end Machinery
