import Mathlib.Data.List.Induction

/-!
# Machinery/Histories — logs whose events depend on what came before

A log grows by an event at its end.  It is `Regular` when every event in it was allowed by the events
before it; appending an allowed event keeps that (`Regular.snoc`), and so does cutting the end off
(`Regular.of_append`).
-/

namespace Machinery

variable {E F : Type*} {allowed : List E → E → Prop} {log pre post : List E} {e : E}

/-- Every event was allowed by those before it. -/
def Regular (allowed : List E → E → Prop) (log : List E) : Prop :=
  ∀ ⦃pre : List E⦄ ⦃e : E⦄ ⦃post : List E⦄, log = pre ++ e :: post → allowed pre e

theorem Regular.nil : Regular allowed [] := fun _ _ _ h => by simp at h

/-- **One event more.** -/
theorem Regular.snoc (h : Regular allowed log) (he : allowed log e) : Regular allowed (log ++ [e]) := by
  intro pre e' post heq
  rcases List.eq_nil_or_concat post with rfl | ⟨post, last, rfl⟩
  · obtain ⟨rfl, hlast⟩ := List.append_inj' heq rfl
    obtain rfl : e = e' := by simpa using hlast
    exact he
  · rw [List.concat_eq_append, ← List.cons_append, ← List.append_assoc] at heq
    exact h (List.append_inj' heq rfl).1

theorem Regular.allowed_of_cons (h : Regular allowed (pre ++ e :: post)) : allowed pre e := h rfl

theorem Regular.allowed_last (h : Regular allowed (log ++ [e])) : allowed log e := h.allowed_of_cons

theorem Regular.of_append (h : Regular allowed (log ++ post)) : Regular allowed log :=
  fun pre e rest heq => h (show log ++ post = pre ++ e :: (rest ++ post) by rw [heq]; simp)

/-- The event behind the `k`-th entry of a filtered log, and what comes before it. -/
theorem exists_of_getElem?_filterMap {f : E → Option F} {k : ℕ} {x : F}
    (h : (log.filterMap f)[k]? = some x) :
    ∃ pre e post, log = pre ++ e :: post ∧ f e = some x ∧ (pre.filterMap f).length = k := by
  induction log generalizing k with
  | nil => simp at h
  | cons e log ih =>
    cases he : f e with
    | none =>
      rw [List.filterMap_cons_none he] at h
      obtain ⟨pre, e', post, rfl, he', hlen⟩ := ih h
      exact ⟨e :: pre, e', post, rfl, he', by rw [List.filterMap_cons_none he, hlen]⟩
    | some y =>
      rw [List.filterMap_cons_some he] at h
      cases k with
      | zero =>
        obtain rfl : y = x := by simpa using h
        exact ⟨[], e, log, rfl, he, rfl⟩
      | succ k =>
        obtain ⟨pre, e', post, rfl, he', hlen⟩ := ih (by simpa using h)
        exact ⟨e :: pre, e', post, rfl, he', by rw [List.filterMap_cons_some he, List.length_cons, hlen]⟩

end Machinery
