import Mathlib.Logic.Relation

/-!
# Machinery/Machine — machines that take labelled steps

A machine is a partial step function `step : S → A → Option S`: the label says which party moves and
what the environment answers, `none` that the move is not open.  `Reaches step ok` is the reflexive
transitive closure of the steps that meet `ok`, a condition on the state before the step and its
label; an invariant every such step keeps holds in every state reached (`Reaches.invariant`).  A list of
labels can be run (`runAll`), and what it ends in is reached (`Reaches.of_runAll`).
-/

namespace Machinery

variable {S A : Type*} {step : S → A → Option S} {ok ok' : S → A → Prop} {s s' s'' : S} {a : A}

/-- `s'` is reached from `s` by steps that all meet `ok`. -/
def Reaches (step : S → A → Option S) (ok : S → A → Prop) : S → S → Prop :=
  Relation.ReflTransGen fun s s' => ∃ a, ok s a ∧ step s a = some s'

/-- No condition on the steps. -/
def anyStep : S → A → Prop := fun _ _ => True

namespace Reaches

theorem refl : Reaches step ok s s := Relation.ReflTransGen.refl

theorem snoc (h : Reaches step ok s s') (hok : ok s' a) (hs : step s' a = some s'') :
    Reaches step ok s s'' :=
  Relation.ReflTransGen.tail h ⟨a, hok, hs⟩

theorem trans (h : Reaches step ok s s') (h' : Reaches step ok s' s'') : Reaches step ok s s'' :=
  Relation.ReflTransGen.trans h h'

/-- **The invariant rule.** -/
theorem invariant {Inv : S → Prop} (h : Reaches step ok s s')
    (hstep : ∀ {s s' : S} {a : A}, Inv s → ok s a → step s a = some s' → Inv s') (hs : Inv s) :
    Inv s' := by
  induction h with
  | refl => exact hs
  | tail _ hlast ih =>
    obtain ⟨a, hok, hsome⟩ := hlast
    exact hstep ih hok hsome

theorem mono (h : Reaches step ok s s') (himp : ∀ s a, ok s a → ok' s a) :
    Reaches step ok' s s' :=
  Relation.ReflTransGen.mono (fun _ _ ⟨a, hok, hs⟩ => ⟨a, himp _ a hok, hs⟩) _ _ h

end Reaches

/-- Take the steps one after the other, as long as they meet `ok`. -/
def runAll (step : S → A → Option S) (ok : S → A → Prop) [∀ s a, Decidable (ok s a)] :
    S → List A → Option S
  | s, [] => some s
  | s, a :: as => if ok s a then (step s a).bind fun s' => runAll step ok s' as else none

instance (s : S) (a : A) : Decidable (anyStep s a) := .isTrue trivial

theorem Reaches.of_runAll [∀ s a, Decidable (ok s a)] (as : List A)
    (h : runAll step ok s as = some s') : Reaches step ok s s' := by
  induction as generalizing s with
  | nil =>
    cases h
    exact Reaches.refl
  | cons a as ih =>
    rw [runAll, Option.ite_none_right_eq_some] at h
    obtain ⟨s₁, hstep, hrest⟩ := Option.bind_eq_some_iff.mp h.2
    exact (Reaches.refl.snoc h.1 hstep).trans (ih hrest)

end Machinery
