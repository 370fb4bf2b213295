import Mathlib.Data.Set.Prod
import Mathlib.Order.Interval.Set.LinearOrder
import Mathlib.Data.Set.Lattice

/-!
# Machinery/Area — half-open rectangles and the smallest one around a set

An `Area` is `[x0, x1) × [y0, y1)` over a linear order, empty when an axis is.  `Bounds r U` says that `r` is the
smallest rectangle around the set of points `U`.  Smallest rectangles grow by hulls: `Bounds.hull` adds one
rectangle more, as long as neither is empty.
-/

namespace Machinery

structure Area (α : Type*) where
  x0 : α
  y0 : α
  x1 : α
  y1 : α

variable {α : Type*} [LinearOrder α]

namespace Area

def points (r : Area α) : Set (α × α) := Set.Ico r.x0 r.x1 ×ˢ Set.Ico r.y0 r.y1

/-- The smallest rectangle around two that are not empty. -/
def hull (r s : Area α) : Area α := ⟨min r.x0 s.x0, min r.y0 s.y0, max r.x1 s.x1, max r.y1 s.y1⟩

variable {r s : Area α} {p : α × α}

theorem mem_points : p ∈ r.points ↔ (r.x0 ≤ p.1 ∧ p.1 < r.x1) ∧ r.y0 ≤ p.2 ∧ p.2 < r.y1 := Iff.rfl

theorem points_nonempty : r.points.Nonempty ↔ r.x0 < r.x1 ∧ r.y0 < r.y1 := by
  rw [points, Set.prod_nonempty_iff, Set.nonempty_Ico, Set.nonempty_Ico]

theorem points_eq_empty : r.points = ∅ ↔ r.x1 ≤ r.x0 ∨ r.y1 ≤ r.y0 := by
  rw [← Set.not_nonempty_iff_eq_empty, points_nonempty, not_and_or, not_lt, not_lt]

/-- A rectangle that is not empty lies in another iff its corners do. -/
theorem points_subset (h : r.points.Nonempty) :
    r.points ⊆ s.points ↔ (s.x0 ≤ r.x0 ∧ r.x1 ≤ s.x1) ∧ s.y0 ≤ r.y0 ∧ r.y1 ≤ s.y1 := by
  obtain ⟨hx, hy⟩ := points_nonempty.mp h
  rw [points, points, Set.prod_subset_prod_iff' h, Set.Ico_subset_Ico_iff hx, Set.Ico_subset_Ico_iff hy]

end Area

/-- **The smallest rectangle** around a set. -/
structure Bounds (r : Area α) (U : Set (α × α)) : Prop where
  subset : U ⊆ r.points
  least : ∀ s : Area α, U ⊆ s.points → r.points ⊆ s.points

variable {r s : Area α} {U : Set (α × α)}

theorem Bounds.of_empty (h : r.points = ∅) : Bounds r ∅ :=
  ⟨Set.empty_subset _, fun s _ => h ▸ Set.empty_subset s.points⟩

theorem Bounds.points (r : Area α) : Bounds r r.points := ⟨subset_rfl, fun _ h => h⟩

/-- **One rectangle more.** -/
theorem Bounds.hull (h : Bounds r U) (hr : r.points.Nonempty) (hs : s.points.Nonempty) :
    Bounds (r.hull s) (U ∪ s.points) := by
  have hleft : r.points ⊆ (r.hull s).points := (Area.points_subset hr).mpr
    ⟨⟨min_le_left _ _, le_max_left _ _⟩, min_le_left _ _, le_max_left _ _⟩
  have hright : s.points ⊆ (r.hull s).points := (Area.points_subset hs).mpr
    ⟨⟨min_le_right _ _, le_max_right _ _⟩, min_le_right _ _, le_max_right _ _⟩
  refine ⟨Set.union_subset (h.subset.trans hleft) hright, fun t ht => ?_⟩
  obtain ⟨hrx, hry⟩ := (Area.points_subset hr).mp (h.least t (Set.subset_union_left.trans ht))
  obtain ⟨hsx, hsy⟩ := (Area.points_subset hs).mp (Set.subset_union_right.trans ht)
  exact (Area.points_subset (hr.mono hleft)).mpr
    ⟨⟨le_min hrx.1 hsx.1, max_le hrx.2 hsx.2⟩, le_min hry.1 hsy.1, max_le hry.2 hsy.2⟩

end Machinery
