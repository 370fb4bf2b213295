import Mathlib.Logic.Function.Basic
import Mathlib.Data.List.Basic

/-!
# Machinery/Heap — blocks of a heap and the pointers to them

A heap knows which addresses hold a live block and what each was obtained for.  A client keeps its blocks in
a table of pointers.  `Heap.Points` says that the table is in order: every pointer is to a live block of the
kind expected there, no two are to the same, and nothing was freed that was not live; `Heap.Covers` says that
no live block is lost.  Freeing an entry and filling an empty one keep both; forgetting an entry keeps only
the first.
-/

namespace Machinery

open Function

structure Heap (α : Type*) where
  /-- the live blocks, and what each was obtained for -/
  live : ℕ → Option α
  /-- ghost: the addresses that were freed while no block was live there -/
  misfreed : List ℕ

namespace Heap

variable {α ι : Type*}

def empty : Heap α := ⟨fun _ => none, []⟩

def alloc (h : Heap α) (b : ℕ) (a : α) : Heap α := { h with live := update h.live b (some a) }

/-- Freeing a block that is not live is recorded. -/
def free (h : Heap α) (b : ℕ) : Heap α where
  live := update h.live b none
  misfreed := if h.live b = none then b :: h.misfreed else h.misfreed

/-- Freeing what a pointer points to, unless it is null. -/
def release (h : Heap α) : Option ℕ → Heap α
  | none => h
  | some b => h.free b

/-- **The pointers are in order.** -/
structure Points (h : Heap α) (ptr : ι → Option ℕ) (kind : ι → α) : Prop where
  live : ∀ {i b}, ptr i = some b → h.live b = some (kind i)
  inj : ∀ {i j b}, ptr i = some b → ptr j = some b → i = j
  freed : h.misfreed = []

/-- **No live block is lost.** -/
def Covers (h : Heap α) (ptr : ι → Option ℕ) : Prop := ∀ b, h.live b ≠ none → ∃ i, ptr i = some b

variable {h : Heap α} {ptr : ι → Option ℕ} {kind : ι → α} {i j : ι} {b c : ℕ} {a : α}

theorem points_empty (kind : ι → α) : empty.Points (fun _ => none) kind where
  live h := by cases h
  inj h := by cases h
  freed := rfl

theorem covers_empty : (empty : Heap α).Covers (fun _ : ι => none) := fun _ h => absurd rfl h

theorem live_free_of_ne (hne : c ≠ b) : (h.free b).live c = h.live c := update_of_ne hne _ _

theorem live_alloc_of_ne (hne : c ≠ b) : (h.alloc b a).live c = h.live c := update_of_ne hne _ _

theorem live_alloc_self : (h.alloc b a).live b = some a := update_self ..

section Table

variable [DecidableEq ι]

theorem ptr_of_clear (hj : update ptr i none j = some b) : j ≠ i ∧ ptr j = some b := by
  rcases eq_or_ne j i with rfl | hne
  · rw [update_self] at hj
    cases hj
  · exact ⟨hne, by rwa [update_of_ne hne] at hj⟩

theorem Points.clear (hp : h.Points ptr kind) (i : ι) : h.Points (update ptr i none) kind where
  live hj := hp.live (ptr_of_clear hj).2
  inj hj hk := hp.inj (ptr_of_clear hj).2 (ptr_of_clear hk).2
  freed := hp.freed

/-- **An entry is freed**, and cleared. -/
theorem Points.release (hp : h.Points ptr kind) (i : ι) :
    (h.release (ptr i)).Points (update ptr i none) kind := by
  cases hi : ptr i with
  | none => exact hp.clear i
  | some b =>
    refine ⟨fun {j c} hj => ?_, fun hj hk => hp.inj (ptr_of_clear hj).2 (ptr_of_clear hk).2, ?_⟩
    · obtain ⟨hne, hj⟩ := ptr_of_clear hj
      have hcb : c ≠ b := by
        rintro rfl
        exact hne (hp.inj hj hi)
      exact (live_free_of_ne hcb).trans (hp.live hj)
    · have hlive : h.live b ≠ none := by
        rw [hp.live hi]
        exact Option.some_ne_none _
      exact (if_neg hlive).trans hp.freed

/-- **An empty entry is filled** with a block from where none is live. -/
theorem Points.alloc (hp : h.Points ptr kind) (hi : ptr i = none) (hb : h.live b = none) :
    (h.alloc b a).Points (update ptr i (some b)) (update kind i a) := by
  have hold : ∀ {j c}, j ≠ i → update ptr i (some b) j = some c → ptr j = some c ∧ c ≠ b := by
    intro j c hne hj
    rw [update_of_ne hne] at hj
    refine ⟨hj, fun heq => ?_⟩
    rw [heq] at hj
    rw [hp.live hj] at hb
    cases hb
  have hnew : ∀ {j c}, j = i → update ptr i (some b) j = some c → c = b := by
    rintro j c rfl hj
    rw [update_self] at hj
    exact (Option.some.inj hj).symm
  refine ⟨fun {j c} hj => ?_, fun {j k c} hj hk => ?_, hp.freed⟩
  · rcases eq_or_ne j i with rfl | hne
    · rw [hnew rfl hj, live_alloc_self, update_self]
    · rw [live_alloc_of_ne (hold hne hj).2, update_of_ne hne]
      exact hp.live (hold hne hj).1
  · rcases eq_or_ne j i with hji | hji <;> rcases eq_or_ne k i with hki | hki
    · rw [hji, hki]
    · exact absurd (hnew hji hj) (hold hki hk).2
    · exact absurd (hnew hki hk) (hold hji hj).2
    · exact hp.inj (hold hji hj).1 (hold hki hk).1

theorem Covers.release (hc : h.Covers ptr) (i : ι) :
    (h.release (ptr i)).Covers (update ptr i none) := by
  intro c hlive
  have hkept : ∀ {j}, j ≠ i → ptr j = some c → ∃ j, update ptr i none j = some c :=
    fun {j} hne hj => ⟨j, by rw [update_of_ne hne, hj]⟩
  cases hi : ptr i with
  | none =>
    rw [hi] at hlive
    obtain ⟨j, hj⟩ := hc c hlive
    refine hkept (fun heq => ?_) hj
    rw [heq, hi] at hj
    cases hj
  | some b =>
    rw [hi] at hlive
    have hne : c ≠ b := by
      rintro rfl
      exact hlive (update_self ..)
    obtain ⟨j, hj⟩ := hc c (by rwa [← live_free_of_ne (h := h) hne])
    refine hkept (fun heq => ?_) hj
    rw [heq, hi] at hj
    exact hne (Option.some.inj hj).symm

theorem Covers.alloc (hc : h.Covers ptr) (hi : ptr i = none) :
    (h.alloc b a).Covers (update ptr i (some b)) := by
  intro c hlive
  rcases eq_or_ne c b with rfl | hne
  · exact ⟨i, update_self ..⟩
  · rw [live_alloc_of_ne hne] at hlive
    obtain ⟨j, hj⟩ := hc c hlive
    refine ⟨j, ?_⟩
    rw [update_of_ne, hj]
    rintro rfl
    rw [hi] at hj
    cases hj

end Table

end Heap

end Machinery
