import KlaussRuntime.Machinery.Area
import KlaussRuntime.Vnc.Framebuffer

/-!
# Vnc/DirtyBox — the dirty box is exact

`fb_mark_dirty` and the drawing calls widen the box by their rectangle, clipped to the screen; `fb_take_dirty`
hands it out and empties it.  Whatever the calls, the box is the smallest rectangle around what was marked since
(`exactBox`): a rectangle that misses the screen is not marked, the first one after a take replaces the
box, stale rows included, and every other one is added by a hull.  So what is handed out lies on the screen, and
every pixel that has changed lies in it.
-/

namespace KlaussRuntime.Vnc

open Machinery

variable (G : Geometry)

def fbMarkDirty (s : Screen) (x y w h : ℤ) : Screen := dirtyAddLocked G s x y w h

/-- The part of `[x,x+w) × [y,y+h)` that is on the screen. -/
def Geometry.clip (x y w h : ℤ) : Area ℤ := ⟨max 0 x, max 0 y, min G.width (x + w), min G.height (y + h)⟩

def Screen.box (s : Screen) : Area ℤ := ⟨s.dirtyX0, s.dirtyY0, s.dirtyX1, s.dirtyY1⟩

/-- The rectangle a drawing call is asked to draw in, clipped. -/
def Draw.clipped : Draw → Area ℤ
  | .clear _ => G.clip 0 0 G.width G.height
  | .putPixel x y _ => G.clip x y 1 1
  | .fillRect x y w h _ | .drawPattern x y w h => G.clip x y w h

inductive FbCall where
  | markDirty (x y w h : ℤ)
  | draw (d : Draw)
  | takeDirty

/-- The framebuffer, with what was marked since the box was last handed out. -/
structure Tracked where
  screen : Screen
  /-- ghost: the clipped rectangles -/
  marked : List (Area ℤ)
  /-- ghost: the pixels at that time -/
  base : Pixels

namespace Tracked

def perform (t : Tracked) : FbCall → Tracked
  | .markDirty x y w h =>
    { t with screen := fbMarkDirty G t.screen x y w h, marked := G.clip x y w h :: t.marked }
  | .draw d => { t with screen := d.apply G t.screen, marked := d.clipped G :: t.marked }
  | .takeDirty =>
    match fbTakeDirty t.screen with
    | (some _, s) => ⟨s, [], s.fb⟩
    | (none, s) => { t with screen := s }

/-- Nothing is dirty. -/
def start (fb : Pixels) : Tracked := ⟨⟨fb, 0, 0, 0, 0⟩, [], fb⟩

end Tracked

/-- The points of a list of rectangles. -/
def covered (marked : List (Area ℤ)) : Set (ℤ × ℤ) := ⋃ r ∈ marked, r.points

/-- **The dirty box is exact.** -/
structure ExactBox (t : Tracked) : Prop where
  bounds : Bounds t.screen.box (covered t.marked)
  empty : t.screen.dirtyX0 ≥ t.screen.dirtyX1 ↔ ∀ r ∈ t.marked, r.points = ∅
  changed : ∀ x < G.width, ∀ y < G.height, t.screen.at G x y ≠ t.base (G.index x y) →
    ((x : ℤ), (y : ℤ)) ∈ t.screen.box.points
  /-- no cell of the array but those of the rectangle's points is written -/
  confined : ∀ (d : Draw) (i : ℕ), (∀ x y : ℕ, ((x : ℤ), (y : ℤ)) ∈ (d.clipped G).points → i ≠ G.index x y) →
    (d.apply G t.screen).fb i = t.screen.fb i
  taken : ∀ b s, fbTakeDirty t.screen = (some b, s) →
    t.screen.box = ⟨b.x, b.y, b.x + b.w, b.y + b.h⟩ ∧ (0 < b.w ∧ 0 < b.h) ∧
      (0 ≤ b.x ∧ b.x + b.w ≤ G.width) ∧ 0 ≤ b.y ∧ b.y + b.h ≤ G.height

variable {G} {s : Screen} {t : Tracked} {x y w h : ℤ} {px py : ℕ}

/-! ## Marking -/

theorem clampLow_eq (v : ℤ) : clampLow v = max 0 v := by
  unfold clampLow
  split_ifs <;> omega

theorem clampHigh_eq (top : ℕ) (v : ℤ) : clampHigh top v = min (top : ℤ) v := by
  unfold clampHigh
  split_ifs <;> omega

theorem clip_eq_empty : (G.clip x y w h).points = ∅ ↔
    max 0 x ≥ min (G.width : ℤ) (x + w) ∨ max 0 y ≥ min (G.height : ℤ) (y + h) := Area.points_eq_empty

theorem dirtyAddLocked_of_empty (hclip : (G.clip x y w h).points = ∅) : dirtyAddLocked G s x y w h = s := by
  rw [dirtyAddLocked]
  simp only [clampLow_eq, clampHigh_eq]
  exact if_pos (clip_eq_empty.mp hclip)

theorem box_dirtyAddLocked_of_empty (hclip : (G.clip x y w h).points ≠ ∅) (hempty : s.dirtyX0 ≥ s.dirtyX1) :
    (dirtyAddLocked G s x y w h).box = G.clip x y w h := by
  rw [dirtyAddLocked]
  simp only [clampLow_eq, clampHigh_eq]
  rw [if_neg (mt clip_eq_empty.mpr hclip), if_pos hempty]
  rfl

theorem box_dirtyAddLocked (hclip : (G.clip x y w h).points ≠ ∅) (hbox : ¬ s.dirtyX0 ≥ s.dirtyX1) :
    (dirtyAddLocked G s x y w h).box = s.box.hull (G.clip x y w h) := by
  rw [dirtyAddLocked]
  simp only [clampLow_eq, clampHigh_eq]
  rw [if_neg (mt clip_eq_empty.mpr hclip), if_neg hbox]
  simp only [Screen.box, Area.hull, Geometry.clip, Area.mk.injEq]
  refine ⟨?_, ?_, ?_, ?_⟩ <;> split_ifs <;> omega

/-- Clipping what is clipped changes nothing: the rectangle that `fb_fill_rect` and `fb_draw_pattern` mark. -/
theorem clip_clip (x y w h : ℤ) :
    G.clip (clampLow x) (clampLow y) (clampHigh G.width (x + w) - clampLow x)
      (clampHigh G.height (y + h) - clampLow y) = G.clip x y w h := by
  simp only [clampLow_eq, clampHigh_eq, Geometry.clip, Area.mk.injEq]
  omega

/-- The whole screen. -/
def Geometry.area (G : Geometry) : Area ℤ := ⟨0, 0, G.width, G.height⟩

theorem clip_subset (G : Geometry) (x y w h : ℤ) : (G.clip x y w h).points ⊆ G.area.points := by
  rintro ⟨a, b⟩ hp
  rw [Area.mem_points] at hp ⊢
  simp only [Geometry.clip, Geometry.area] at hp ⊢
  omega

/-! ## The box -/

theorem covered_cons (r : Area ℤ) (marked : List (Area ℤ)) :
    covered (r :: marked) = r.points ∪ covered marked := by
  simp [covered, Set.iUnion_or, Set.iUnion_union_distrib]

/-- What holds of the box, given what was marked. -/
structure BoxOk (G : Geometry) (s : Screen) (marked : List (Area ℤ)) : Prop where
  bounds : Bounds s.box (covered marked)
  empty : s.dirtyX0 ≥ s.dirtyX1 ↔ ∀ r ∈ marked, r.points = ∅
  onScreen : covered marked ⊆ G.area.points

namespace BoxOk

variable {marked : List (Area ℤ)} {r : Area ℤ}

theorem covered_eq_empty (hempty : ∀ r ∈ marked, r.points = ∅) : covered marked = ∅ := by
  simpa [covered] using hempty

theorem cons_empty (h : BoxOk G s marked) (hr : r.points = ∅) : BoxOk G s (r :: marked) := by
  have hcov : covered (r :: marked) = covered marked := by rw [covered_cons, hr, Set.empty_union]
  refine ⟨hcov ▸ h.bounds, h.empty.trans ?_, hcov ▸ h.onScreen⟩
  rw [List.forall_mem_cons]
  exact ⟨fun hall => ⟨hr, hall⟩, And.right⟩

/-- A box that is not empty in the one axis that is looked at has points. -/
theorem nonempty (h : BoxOk G s marked) (hbox : ¬ s.dirtyX0 ≥ s.dirtyX1) : s.box.points.Nonempty := by
  rw [h.empty] at hbox
  push Not at hbox
  obtain ⟨r, hr, p, hp⟩ := hbox
  exact ⟨p, h.bounds.subset (Set.mem_biUnion hr hp)⟩

theorem fresh (hempty : s.dirtyX0 ≥ s.dirtyX1) : BoxOk G s [] where
  bounds := by
    rw [covered_eq_empty fun r hr => absurd hr List.not_mem_nil]
    exact .of_empty (Area.points_eq_empty.mpr (.inl hempty))
  empty := iff_of_true hempty fun r hr => absurd hr List.not_mem_nil
  onScreen := by
    rw [covered_eq_empty fun r hr => absurd hr List.not_mem_nil]
    exact Set.empty_subset _

/-- **One rectangle more.** -/
theorem dirtyAddLocked (h : BoxOk G s marked) (x y w h' : ℤ) :
    BoxOk G (dirtyAddLocked G s x y w h') (G.clip x y w h' :: marked) := by
  by_cases hclip : (G.clip x y w h').points = ∅
  · rw [dirtyAddLocked_of_empty hclip]
    exact h.cons_empty hclip
  have hsome : (G.clip x y w h').points.Nonempty := Set.nonempty_iff_ne_empty.mpr hclip
  have honScreen : covered (G.clip x y w h' :: marked) ⊆ G.area.points := by
    rw [covered_cons]
    exact Set.union_subset (clip_subset G x y w h') h.onScreen
  have hbounds : Bounds (Vnc.dirtyAddLocked G s x y w h').box (covered (G.clip x y w h' :: marked)) := by
    rw [covered_cons]
    by_cases hempty : s.dirtyX0 ≥ s.dirtyX1
    · rw [box_dirtyAddLocked_of_empty hclip hempty, covered_eq_empty (h.empty.mp hempty), Set.union_empty]
      exact .points _
    · rw [box_dirtyAddLocked hclip hempty, Set.union_comm]
      exact h.bounds.hull (h.nonempty hempty) hsome
  refine ⟨hbounds, iff_of_false (fun hempty => ?_) fun hall => hclip (hall _ (List.mem_cons_self ..)), honScreen⟩
  obtain ⟨p, hp⟩ := hsome
  have hin := Area.mem_points.mp (hbounds.subset (covered_cons .. ▸ Set.mem_union_left _ hp))
  exact absurd (hin.1.1.trans_lt hin.1.2) (not_lt.mpr hempty)

theorem repaint (h : BoxOk G s marked) (fb : Pixels) : BoxOk G { s with fb } marked :=
  ⟨h.bounds, h.empty, h.onScreen⟩

theorem paintRect (h : BoxOk G s marked) (x y w h' : ℤ) (colour : ℤ → ℤ → BitVec 16) :
    BoxOk G (paintRect G s x y w h' colour) (G.clip x y w h' :: marked) := by
  rw [← clip_clip]
  exact (h.repaint _).dirtyAddLocked _ _ _ _

/-- **A drawing call.** -/
theorem draw (h : BoxOk G s marked) (d : Draw) : BoxOk G (d.apply G s) (d.clipped G :: marked) := by
  cases d with
  | clear color => exact (h.repaint _).dirtyAddLocked 0 0 G.width G.height
  | putPixel x y color =>
    rw [Draw.apply, fbPutPixel]
    split_ifs with hoff
    · refine h.cons_empty (clip_eq_empty.mpr ?_)
      omega
    · exact (h.repaint _).dirtyAddLocked x y 1 1
  | fillRect x y w h' color => exact h.paintRect x y w h' _
  | drawPattern x y w h' => exact h.paintRect x y w h' _

/-- **What is handed out** is the box; it is not empty and lies on the screen. -/
theorem taken (h : BoxOk G s marked) {b : Box} {s' : Screen} (htake : fbTakeDirty s = (some b, s')) :
    s.box = ⟨b.x, b.y, b.x + b.w, b.y + b.h⟩ ∧ (0 < b.w ∧ 0 < b.h) ∧
      (0 ≤ b.x ∧ b.x + b.w ≤ G.width) ∧ 0 ≤ b.y ∧ b.y + b.h ≤ G.height := by
  rw [fbTakeDirty] at htake
  split_ifs at htake with hbox
  swap
  · simp at htake
  obtain ⟨rfl, -⟩ : _ = b ∧ _ := by simpa using htake
  have hsome := h.nonempty (not_le.mpr hbox)
  obtain ⟨hx, hy⟩ := Area.points_nonempty.mp hsome
  obtain ⟨hinX, hinY⟩ := (Area.points_subset hsome).mp (h.bounds.least G.area h.onScreen)
  simp only [Screen.box, Geometry.area] at hx hy hinX hinY
  refine ⟨by simp [Screen.box], ?_⟩
  dsimp only
  omega

end BoxOk

/-! ## What drawing writes -/

/-- A loop over the rows and columns of a clipped rectangle writes the cells of its points. -/
theorem paintRect_fb {colour : ℤ → ℤ → BitVec 16} {i : ℕ}
    (hout : ∀ px py : ℕ, ((px : ℤ), (py : ℤ)) ∈ (G.clip x y w h).points → i ≠ G.index px py) :
    (paintRect G s x y w h colour).fb i = s.fb i := by
  rw [paintRect, dirtyAddLocked_fb]
  dsimp only [writeRect]
  refine forInt_apply_of_ne _ fun yy fb hyy hyy1 => ?_
  refine forInt_apply_of_ne _ fun xx fb hxx hxx1 => ?_
  refine Function.update_of_ne (hout _ _ (Area.mem_points.mpr ?_)) _ _
  simp only [clampLow_eq, clampHigh_eq] at hyy hyy1 hxx hxx1
  simp only [Geometry.clip]
  omega

/-- **No cell but those of the clipped rectangle is written.** -/
theorem Draw.confined (d : Draw) {i : ℕ}
    (hout : ∀ px py : ℕ, ((px : ℤ), (py : ℤ)) ∈ (d.clipped G).points → i ≠ G.index px py) :
    (d.apply G s).fb i = s.fb i := by
  cases d with
  | clear color =>
    rw [Draw.apply, fbClear, dirtyAddLocked_fb]
    dsimp only
    refine forInt_apply_of_ne _ fun k fb hk hk1 => ?_
    -- the cell of this round is that of a point
    have hwidth : 0 < G.width := by
      by_contra hzero
      rw [Nat.eq_zero_of_not_pos hzero] at hk1
      omega
    refine Function.update_of_ne (fun heq => hout (i % G.width) (i / G.width) (Area.mem_points.mpr ?_) ?_) _ _
    · have hcol := Nat.mod_lt i hwidth
      have hrow : i / G.width < G.height := Nat.div_lt_of_lt_mul (by rw [heq]; omega)
      simp only [Draw.clipped, Geometry.clip, zero_add, max_self, min_self, Nat.cast_lt, Int.natCast_nonneg,
        true_and]
      exact ⟨hcol, hrow⟩
    · exact (Nat.div_add_mod' i G.width).symm
  | putPixel x y color =>
    rw [Draw.apply, fbPutPixel]
    split_ifs with hoff
    · rfl
    · rw [dirtyAddLocked_fb]
      refine Function.update_of_ne (hout _ _ (Area.mem_points.mpr ?_)) _ _
      simp only [Draw.clipped, Geometry.clip]
      omega
  | fillRect x y w h color => exact paintRect_fb hout
  | drawPattern x y w h => exact paintRect_fb hout

/-! ## Runs -/

theorem mem_box (s : Screen) (px py : ℕ) : ((px : ℤ), (py : ℤ)) ∈ s.box.points ↔ s.InBox px py := Iff.rfl

/-- What every call keeps. -/
structure Tracked.Ok (G : Geometry) (t : Tracked) : Prop where
  box : BoxOk G t.screen t.marked
  changed : ∀ px < G.width, ∀ py < G.height, t.screen.at G px py ≠ t.base (G.index px py) →
    t.screen.InBox px py

theorem Tracked.Ok.perform (h : t.Ok G) (c : FbCall) : (t.perform G c).Ok G := by
  cases c with
  | markDirty x y w h' =>
    refine ⟨h.box.dirtyAddLocked x y w h', fun px hpx py hpy hne => ?_⟩
    refine inBox_dirtyAddLocked_of_inBox G (h.changed px hpx py hpy ?_) t.screen.fb x y w h'
    rwa [Tracked.perform, fbMarkDirty, Screen.at, dirtyAddLocked_fb] at hne
  | draw d =>
    refine ⟨h.box.draw d, fun px hpx py hpy hne => ?_⟩
    by_cases hsame : (d.apply G t.screen).at G px py = t.screen.at G px py
    · exact d.inBox_of_inBox (h.changed px hpx py hpy (hsame ▸ hne))
    · exact d.changed_inBox hpx hpy hsame
  | takeDirty =>
    rw [Tracked.perform, fbTakeDirty]
    split_ifs
    · exact ⟨.fresh le_rfl, fun px _ py _ hne => absurd rfl hne⟩
    · exact h

/-- **The dirty box is exact** after any calls, with any arguments. -/
theorem exactBox (G : Geometry) (fb : Pixels) (calls : List FbCall) :
    ExactBox G (calls.foldl (Tracked.perform G) (.start fb)) := by
  have hok : (calls.foldl (Tracked.perform G) (.start fb)).Ok G := by
    induction calls using List.reverseRecOn with
    | nil => exact ⟨.fresh le_rfl, fun px _ py _ hne => absurd rfl hne⟩
    | append_singleton calls c ih =>
      rw [List.foldl_concat]
      exact ih.perform c
  exact ⟨hok.box.bounds, hok.box.empty, fun px hpx py hpy hne => (mem_box _ px py).mpr (hok.changed px hpx py hpy hne),
    fun d _ hout => d.confined hout, fun _ _ htake => hok.box.taken htake⟩

end KlaussRuntime.Vnc
