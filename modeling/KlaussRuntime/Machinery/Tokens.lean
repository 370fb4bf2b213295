import Mathlib.Logic.Function.Basic
import Mathlib.Order.Basic
import Mathlib.Tactic.Cases

/-!
# Machinery/Tokens — resources that are used up

A `Ledger` issues tokens, numbered in the order they are issued, and counts how often each is spent.  With
`holds` saying which token each party has, `Affine` states that no token is spent twice: only a token that
somebody has is still to be spent, and nobody else has it.  `Linear` adds that no token gets lost.  Issuing,
passing on and spending keep both; losing a token keeps the first.
-/

namespace Machinery

open Function

structure Ledger where
  /-- how many tokens there are; the next is this one -/
  issued : ℕ
  /-- how often each was spent -/
  spent : ℕ → ℕ

namespace Ledger

def empty : Ledger := ⟨0, fun _ => 0⟩

def issue (l : Ledger) : Ledger := { l with issued := l.issued + 1 }

def spend (l : Ledger) (c : ℕ) : Ledger := { l with spent := update l.spent c (l.spent c + 1) }

theorem spent_spend_self (l : Ledger) (c : ℕ) : (l.spend c).spent c = l.spent c + 1 :=
  update_self c _ _

theorem spent_spend_of_ne (l : Ledger) {c d : ℕ} (h : d ≠ c) : (l.spend c).spent d = l.spent d :=
  update_of_ne h _ _

end Ledger

variable {H : Type*} {l : Ledger} {holds : H → Option ℕ} {x y : H} {c : ℕ}

/-- **Spent at most once.** -/
structure Affine (l : Ledger) (holds : H → Option ℕ) : Prop where
  fresh : ∀ c, l.issued ≤ c → l.spent c = 0
  held : ∀ x c, holds x = some c → c < l.issued ∧ l.spent c = 0
  unique : ∀ x y c, holds x = some c → holds y = some c → x = y
  once : ∀ c, l.spent c ≤ 1

/-- **…and exactly once**, when nobody has it any more. -/
structure Linear (l : Ledger) (holds : H → Option ℕ) : Prop extends Affine l holds where
  kept : ∀ c, c < l.issued → l.spent c = 0 → ∃ x, holds x = some c

theorem Linear.empty : Linear Ledger.empty fun _ : H => none where
  fresh _ _ := rfl
  held _ _ h := by cases h
  unique _ _ _ h := by cases h
  once _ := Nat.zero_le 1
  kept c h := absurd h (Nat.not_lt_zero c)

theorem Linear.spent_or_held (h : Linear l holds) (hc : c < l.issued) :
    l.spent c = 1 ∨ l.spent c = 0 ∧ ∃ x, holds x = some c := by
  rcases Nat.le_one_iff_eq_zero_or_eq_one.mp (h.once c) with h0 | h1
  · exact .inr ⟨h0, h.kept c hc h0⟩
  · exact .inl h1

variable [DecidableEq H]

theorem update_eq_some {v : Option ℕ} (h : update holds x v y = some c) :
    y = x ∧ v = some c ∨ y ≠ x ∧ holds y = some c := by
  by_cases hy : y = x
  · subst hy
    rw [update_self] at h
    exact .inl ⟨rfl, h⟩
  · rw [update_of_ne hy] at h
    exact .inr ⟨hy, h⟩

namespace Affine

theorem drop (h : Affine l holds) (x : H) : Affine l (update holds x none) where
  fresh := h.fresh
  held y c hy := by
    rcases update_eq_some hy with ⟨-, hv⟩ | ⟨-, hy⟩
    · cases hv
    · exact h.held y c hy
  unique y z c hy hz := by
    rcases update_eq_some hy with ⟨-, hv⟩ | ⟨-, hy⟩
    · cases hv
    · rcases update_eq_some hz with ⟨-, hv⟩ | ⟨-, hz⟩
      · cases hv
      · exact h.unique y z c hy hz
  once := h.once

theorem issue (h : Affine l holds) (x : H) :
    Affine l.issue (update holds x (some l.issued)) where
  fresh c hc := h.fresh c (Nat.le_of_succ_le hc)
  held y c hy := by
    rcases update_eq_some hy with ⟨-, hv⟩ | ⟨-, hy⟩
    · cases hv
      exact ⟨Nat.lt_succ_self _, h.fresh _ (Nat.le_refl _)⟩
    · exact ⟨Nat.lt_succ_of_lt (h.held y c hy).1, (h.held y c hy).2⟩
  unique y z c hy hz := by
    have hnew {y : H} (hy : holds y = some l.issued) : False :=
      absurd (h.held y _ hy).1 (Nat.lt_irrefl _)
    rcases update_eq_some hy with ⟨hyx, hv⟩ | ⟨-, hy'⟩ <;>
      rcases update_eq_some hz with ⟨hzx, hw⟩ | ⟨-, hz'⟩
    · rw [hyx, hzx]
    · exact (hnew (hz'.trans hv.symm)).elim
    · exact (hnew (hy'.trans hw.symm)).elim
    · exact h.unique y z c hy' hz'
  once := h.once

theorem spend (h : Affine l holds) (hx : holds x = some c) :
    Affine (l.spend c) (update holds x none) := by
  constructor
  case fresh =>
    intro d hd
    have hne : d ≠ c := fun hdc => absurd (h.held x c hx).1 (Nat.not_lt.mpr (hdc ▸ hd))
    rw [l.spent_spend_of_ne hne]
    exact h.fresh d hd
  case held =>
    intro y d hy
    rcases update_eq_some hy with ⟨-, hv⟩ | ⟨hne, hy⟩
    · cases hv
    · have hdc : d ≠ c := fun hdc => hne (h.unique y x c (hdc ▸ hy) hx)
      rw [l.spent_spend_of_ne hdc]
      exact h.held y d hy
  case unique => exact (h.drop x).unique
  case once =>
    intro d
    by_cases hd : d = c
    · have hone : (l.spend c).spent d = 1 := by rw [hd, l.spent_spend_self, (h.held x c hx).2]
      exact Nat.le_of_eq hone
    · rw [l.spent_spend_of_ne hd]
      exact h.once d

theorem pass (h : Affine l holds) (hx : holds x = some c) (y : H) :
    Affine l (update (update holds x none) y (some c)) where
  fresh := h.fresh
  held z d hz := by
    rcases update_eq_some hz with ⟨-, hv⟩ | ⟨-, hz⟩
    · exact Option.some.inj hv ▸ h.held x c hx
    · exact (h.drop x).held z d hz
  unique z z' d hz hz' := by
    have hgone {z : H} (hz : update holds x none z = some c) : False := by
      rcases update_eq_some hz with ⟨-, hv⟩ | ⟨hne, hz⟩
      · cases hv
      · exact hne (h.unique z x c hz hx)
    rcases update_eq_some hz with ⟨hzy, hv⟩ | ⟨-, hz₁⟩ <;>
      rcases update_eq_some hz' with ⟨hzy', hw⟩ | ⟨-, hz₂⟩
    · rw [hzy, hzy']
    · exact (hgone (hz₂.trans hv.symm)).elim
    · exact (hgone (hz₁.trans hw.symm)).elim
    · exact (h.drop x).unique z z' d hz₁ hz₂
  once := h.once

end Affine

namespace Linear

theorem issue (h : Linear l holds) (hx : holds x = none) :
    Linear l.issue (update holds x (some l.issued)) where
  toAffine := h.toAffine.issue x
  kept c hc hspent := by
    rcases Nat.lt_succ_iff_lt_or_eq.mp hc with hlt | rfl
    · obtain ⟨y, hy⟩ := h.kept c hlt hspent
      refine ⟨y, ?_⟩
      rw [update_of_ne, hy]
      rintro rfl
      rw [hx] at hy
      cases hy
    · exact ⟨x, update_self x _ _⟩

theorem spend (h : Linear l holds) (hx : holds x = some c) :
    Linear (l.spend c) (update holds x none) where
  toAffine := h.toAffine.spend hx
  kept d hd hspent := by
    have hdc : d ≠ c := by
      rintro rfl
      exact absurd hspent (l.spent_spend_self d ▸ Nat.succ_ne_zero _)
    rw [l.spent_spend_of_ne hdc] at hspent
    obtain ⟨y, hy⟩ := h.kept d hd hspent
    refine ⟨y, ?_⟩
    rw [update_of_ne, hy]
    rintro rfl
    exact hdc (Option.some.inj (hy.symm.trans hx))

theorem pass (h : Linear l holds) (hx : holds x = some c) (hy : holds y = none) :
    Linear l (update (update holds x none) y (some c)) where
  toAffine := h.toAffine.pass hx y
  kept d hd hspent := by
    obtain ⟨z, hz⟩ := h.kept d hd hspent
    by_cases hzx : z = x
    · subst hzx
      obtain rfl := Option.some.inj (hx.symm.trans hz)
      exact ⟨y, update_self y _ _⟩
    · refine ⟨z, ?_⟩
      rw [update_of_ne, update_of_ne hzx, hz]
      rintro rfl
      rw [hy] at hz
      cases hz

end Linear

end Machinery
