import Mathlib.Tactic
import Mathlib.Logic.Function.Basic

/-!
# Vnc/Framebuffer — the RGB565 framebuffer and its dirty box

`framebuffer.c` keeps the pixels in one array, row after row, and one box of what has changed since
the box was last taken.  Every drawing primitive writes its pixels and then widens the box
(`dirtyAddLocked`); `fbTakeDirty` hands the box out and empties it.

A drawing operation changes only pixels inside the box it leaves (`Draw.changed_inBox`) and never
shrinks the box (`Draw.inBox_of_inBox`).
-/

namespace KlaussRuntime.Vnc

/-- FB_WIDTH and FB_HEIGHT, build-time constants.  ServerInit announces them in 16-bit fields. -/
structure Geometry where
  width : ℕ
  height : ℕ
  width_lt : width < 2 ^ 16
  height_lt : height < 2 ^ 16

/-- The default build: 640 by 480. -/
def Geometry.default : Geometry := ⟨640, 480, by decide, by decide⟩

/-- The array `fb`: one RGB565 value per index. -/
abbrev Pixels := ℕ → BitVec 16

variable (G : Geometry)

/-- `fb[y * FB_WIDTH + x]`. -/
def Geometry.index (x y : ℕ) : ℕ := y * G.width + x

/-- **Equal indices are equal points**, columns being below the width. -/
theorem Geometry.index_inj {x y x' y' : ℕ} (hx : x < G.width) (hx' : x' < G.width)
    (h : G.index x y = G.index x' y') : x = x' ∧ y = y' := by
  unfold Geometry.index at h
  have hcol : x = x' := by
    have hmod := congrArg (· % G.width) h
    simpa only [Nat.mul_add_mod_of_lt hx, Nat.mul_add_mod_of_lt hx'] using hmod
  subst hcol
  exact ⟨rfl, Nat.eq_of_mul_eq_mul_right (show 0 < G.width by omega) (by omega)⟩

/-- What `fb_lock` guards: the pixels and the dirty box `[x0,x1) × [y0,y1)`, empty when
`x0 >= x1`. -/
structure Screen where
  fb : Pixels
  dirtyX0 : ℤ
  dirtyY0 : ℤ
  dirtyX1 : ℤ
  dirtyY1 : ℤ

/-- The pixel at a point. -/
def Screen.at (s : Screen) (x y : ℕ) : BitVec 16 := s.fb (G.index x y)

/-- The point lies in the dirty box. -/
def Screen.InBox (s : Screen) (x y : ℕ) : Prop :=
  (s.dirtyX0 ≤ x ∧ (x : ℤ) < s.dirtyX1) ∧ (s.dirtyY0 ≤ y ∧ (y : ℤ) < s.dirtyY1)

instance (s : Screen) (x y : ℕ) : Decidable (s.InBox x y) :=
  inferInstanceAs (Decidable ((_ ∧ _) ∧ (_ ∧ _)))

/-! ## The dirty box -/

/-- `if (v < 0) v = 0`. -/
def clampLow (v : ℤ) : ℤ := if v < 0 then 0 else v

/-- `if (v > top) v = top`. -/
def clampHigh (top : ℕ) (v : ℤ) : ℤ := if v > top then top else v

/-- Expand the dirty box to cover `[x,x+w) × [y,y+h)`, clipped to the screen. -/
def dirtyAddLocked (s : Screen) (x y w h : ℤ) : Screen :=
  let x1 := clampHigh G.width (x + w)
  let y1 := clampHigh G.height (y + h)
  let x := clampLow x
  let y := clampLow y
  if x ≥ x1 ∨ y ≥ y1 then s
  else if s.dirtyX0 ≥ s.dirtyX1 then
    { s with dirtyX0 := x, dirtyY0 := y, dirtyX1 := x1, dirtyY1 := y1 }
  else
    { s with
      dirtyX0 := if x < s.dirtyX0 then x else s.dirtyX0
      dirtyY0 := if y < s.dirtyY0 then y else s.dirtyY0
      dirtyX1 := if x1 > s.dirtyX1 then x1 else s.dirtyX1
      dirtyY1 := if y1 > s.dirtyY1 then y1 else s.dirtyY1 }

/-- A box handed out by `fbTakeDirty`, as corner and size. -/
structure Box where
  x : ℤ
  y : ℤ
  w : ℤ
  h : ℤ
deriving DecidableEq

def Box.Has (b : Box) (x y : ℕ) : Prop :=
  (b.x ≤ x ∧ (x : ℤ) < b.x + b.w) ∧ (b.y ≤ y ∧ (y : ℤ) < b.y + b.h)

instance (b : Box) (x y : ℕ) : Decidable (b.Has x y) :=
  inferInstanceAs (Decidable ((_ ∧ _) ∧ (_ ∧ _)))

/-- Hand the dirty box out and empty it; `none` when it is empty already. -/
def fbTakeDirty (s : Screen) : Option Box × Screen :=
  if s.dirtyX0 < s.dirtyX1 then
    (some ⟨s.dirtyX0, s.dirtyY0, s.dirtyX1 - s.dirtyX0, s.dirtyY1 - s.dirtyY0⟩,
      { s with dirtyX0 := 0, dirtyX1 := 0 })
  else (none, s)

@[simp] theorem dirtyAddLocked_fb (s : Screen) (x y w h : ℤ) :
    (dirtyAddLocked G s x y w h).fb = s.fb := by
  simp only [dirtyAddLocked]
  split
  · rfl
  · split <;> rfl

/-- Widening never loses a point, whatever was written to the pixels before. -/
theorem inBox_dirtyAddLocked_of_inBox {s : Screen} {px py : ℕ} (h : s.InBox px py) (fb : Pixels)
    (x y w h' : ℤ) : (dirtyAddLocked G { s with fb } x y w h').InBox px py := by
  obtain ⟨⟨hx0, hx1⟩, hy0, hy1⟩ := h
  simp only [dirtyAddLocked]
  split
  · exact ⟨⟨hx0, hx1⟩, hy0, hy1⟩
  · rw [if_neg (by omega)]
    refine ⟨⟨?_, ?_⟩, ?_, ?_⟩ <;> simp only <;> split <;> omega

/-- **Widening covers the part of the rectangle on the screen.** -/
theorem inBox_dirtyAddLocked {s : Screen} {px py : ℕ} {x y w h : ℤ} (hpx : px < G.width)
    (hpy : py < G.height) (hx : x ≤ px ∧ (px : ℤ) < x + w) (hy : y ≤ py ∧ (py : ℤ) < y + h) :
    (dirtyAddLocked G s x y w h).InBox px py := by
  have hlx : clampLow x ≤ px := by unfold clampLow; split <;> omega
  have hly : clampLow y ≤ py := by unfold clampLow; split <;> omega
  have hhx : (px : ℤ) < clampHigh G.width (x + w) := by unfold clampHigh; split <;> omega
  have hhy : (py : ℤ) < clampHigh G.height (y + h) := by unfold clampHigh; split <;> omega
  simp only [dirtyAddLocked]
  rw [if_neg (by omega)]
  split
  · exact ⟨⟨hlx, hhx⟩, hly, hhy⟩
  · refine ⟨⟨?_, ?_⟩, ?_, ?_⟩ <;> simp only <;> split <;> omega

theorem has_of_fbTakeDirty {s s' : Screen} {b : Box} (h : fbTakeDirty s = (some b, s')) (px py : ℕ) :
    b.Has px py ↔ s.InBox px py := by
  unfold fbTakeDirty at h
  split at h
  · obtain ⟨rfl, -⟩ : _ = b ∧ _ := by simpa using h
    unfold Box.Has Screen.InBox
    simp only
    omega
  · simp at h

theorem not_inBox_of_fbTakeDirty {s s' : Screen} (h : fbTakeDirty s = (none, s')) (px py : ℕ) :
    ¬ s.InBox px py := by
  unfold fbTakeDirty at h
  split at h
  · simp at h
  · unfold Screen.InBox
    omega

theorem fbTakeDirty_fb (s : Screen) : (fbTakeDirty s).2.fb = s.fb := by
  unfold fbTakeDirty
  split <;> rfl

/-! ## Drawing -/

/-- `for (int i = lo; i < hi; i++)` over a state. -/
def forInt {σ : Type} (lo hi : ℤ) (body : ℤ → σ → σ) (s : σ) : σ :=
  (List.range (hi - lo).toNat).foldl (fun s (k : ℕ) => body (lo + (k : ℤ)) s) s

/-- The nested loop of `fb_fill_rect` and `fb_draw_pattern`: write `colour xx yy` at every point of
`[x,x1) × [y,y1)`. -/
def writeRect (x y x1 y1 : ℤ) (colour : ℤ → ℤ → BitVec 16) (fb : Pixels) : Pixels :=
  forInt y y1 (fun yy fb => forInt x x1 (fun xx fb =>
    Function.update fb (G.index xx.toNat yy.toNat) (colour xx yy)) fb) fb

def fbClear (s : Screen) (color : BitVec 16) : Screen :=
  let fb := forInt 0 (G.width * G.height) (fun i fb => Function.update fb i.toNat color) s.fb
  dirtyAddLocked G { s with fb } 0 0 G.width G.height

def fbPutPixel (s : Screen) (x y : ℤ) (color : BitVec 16) : Screen :=
  -- `(unsigned)x >= FB_WIDTH`: a negative coordinate wraps to a large one
  if ¬ (0 ≤ x ∧ x < G.width) ∨ ¬ (0 ≤ y ∧ y < G.height) then s
  else dirtyAddLocked G
    { s with fb := Function.update s.fb (G.index x.toNat y.toNat) color } x y 1 1

/-- Clip, write, mark: the shape `fb_fill_rect` and `fb_draw_pattern` share. -/
def paintRect (s : Screen) (x y w h : ℤ) (colour : ℤ → ℤ → BitVec 16) : Screen :=
  let x1 := clampHigh G.width (x + w)
  let y1 := clampHigh G.height (y + h)
  let x := clampLow x
  let y := clampLow y
  dirtyAddLocked G { s with fb := writeRect G x y x1 y1 colour s.fb } x y (x1 - x) (y1 - y)

def fbFillRect (s : Screen) (x y w h : ℤ) (color : BitVec 16) : Screen :=
  paintRect G s x y w h fun _ _ => color

/-- Pack 8-bit RGB into RGB565. -/
def fbRgb (r g b : BitVec 8) : BitVec 16 :=
  (r &&& 0xF8).setWidth 16 <<< 8 ||| (g &&& 0xFC).setWidth 16 <<< 3 ||| (b >>> 3).setWidth 16

/-- The eight colour bars. -/
def bars : List (BitVec 16) :=
  [fbRgb 255 255 255, fbRgb 255 255 0, fbRgb 0 255 255, fbRgb 0 255 0, fbRgb 255 0 255,
    fbRgb 255 0 0, fbRgb 0 0 255, fbRgb 0 0 0]

def patternPixel (x y : ℤ) : BitVec 16 :=
  if y < (G.height * 2) / 3 then
    bars.getD (min 7 (x / (G.width / 8)).toNat) 0
  else
    let g := BitVec.ofInt 8 (x * 255 / (G.width - 1))
    fbRgb g g g

def fbDrawPattern (s : Screen) (x y w h : ℤ) : Screen := paintRect G s x y w h (patternPixel G)

/-- The drawing operations, each one step under `fb_lock`. -/
inductive Draw where
  | clear (color : BitVec 16)
  | putPixel (x y : ℤ) (color : BitVec 16)
  | fillRect (x y w h : ℤ) (color : BitVec 16)
  | drawPattern (x y w h : ℤ)

def Draw.apply (s : Screen) : Draw → Screen
  | .clear color => fbClear G s color
  | .putPixel x y color => fbPutPixel G s x y color
  | .fillRect x y w h color => fbFillRect G s x y w h color
  | .drawPattern x y w h => fbDrawPattern G s x y w h

/-! ## What drawing does to the box -/

/-- A loop that writes one cell per round leaves every other cell alone. -/
theorem forInt_apply_of_ne {f : ℤ → Pixels → Pixels} {lo hi : ℤ} {i : ℕ} (fb : Pixels)
    (h : ∀ k fb, lo ≤ k → k < hi → f k fb i = fb i) : forInt lo hi f fb i = fb i := by
  have hrun : ∀ (ks : List ℕ) (fb : Pixels), (∀ k ∈ ks, (k : ℤ) < hi - lo) →
      ks.foldl (fun s (k : ℕ) => f (lo + (k : ℤ)) s) fb i = fb i := by
    intro ks
    induction ks with
    | nil => intro fb _; rfl
    | cons k ks ih =>
      intro fb hks
      have hk : (k : ℤ) < hi - lo := hks k (by simp)
      rw [List.foldl_cons, ih _ fun k hk => hks k (by simp [hk]), h _ _ (by omega) (by omega)]
  refine hrun _ fb fun k hk => ?_
  have := List.mem_range.mp hk
  omega

/-- **`writeRect` changes only points of its rectangle.** -/
theorem writeRect_apply_of_not_mem {x y x1 y1 : ℤ} {colour : ℤ → ℤ → BitVec 16} {fb : Pixels}
    {px py : ℕ} (hx0 : 0 ≤ x) (hx1 : x1 ≤ G.width) (hy0 : 0 ≤ y) (hpx : px < G.width)
    (h : ¬ ((x ≤ px ∧ (px : ℤ) < x1) ∧ (y ≤ py ∧ (py : ℤ) < y1))) :
    writeRect G x y x1 y1 colour fb (G.index px py) = fb (G.index px py) := by
  refine forInt_apply_of_ne _ fun yy fb hyy hyy1 => ?_
  refine forInt_apply_of_ne _ fun xx fb hxx hxx1 => ?_
  refine Function.update_of_ne (fun heq => h ?_) _ _
  obtain ⟨hcol, hrow⟩ := G.index_inj hpx (by omega) heq
  omega

variable {G} {s : Screen} {px py : ℕ}

theorem paintRect_changed_inBox {x y w h : ℤ} {colour : ℤ → ℤ → BitVec 16} (hpx : px < G.width)
    (hpy : py < G.height) (hne : (paintRect G s x y w h colour).at G px py ≠ s.at G px py) :
    (paintRect G s x y w h colour).InBox px py := by
  have hin : (clampLow x ≤ px ∧ (px : ℤ) < clampHigh G.width (x + w))
      ∧ (clampLow y ≤ py ∧ (py : ℤ) < clampHigh G.height (y + h)) := by
    by_contra hout
    refine hne ?_
    simp only [paintRect, Screen.at, dirtyAddLocked_fb]
    refine writeRect_apply_of_not_mem G ?_ ?_ ?_ hpx hout
    · unfold clampLow; split <;> omega
    · unfold clampHigh; split <;> omega
    · unfold clampLow; split <;> omega
  exact inBox_dirtyAddLocked G hpx hpy (by omega) (by omega)

/-- **A drawing operation changes only pixels inside the box it leaves.** -/
theorem Draw.changed_inBox (d : Draw) (hpx : px < G.width) (hpy : py < G.height)
    (hne : (d.apply G s).at G px py ≠ s.at G px py) : (d.apply G s).InBox px py := by
  cases d with
  | clear color => exact inBox_dirtyAddLocked G hpx hpy (by omega) (by omega)
  | putPixel x y color =>
    simp only [Draw.apply, fbPutPixel] at hne ⊢
    split at hne
    · exact absurd rfl hne
    · rename_i hin
      rw [if_neg hin]
      simp only [Screen.at, dirtyAddLocked_fb] at hne
      have hidx : G.index px py = G.index x.toNat y.toNat := by
        by_contra hidx
        exact hne (Function.update_of_ne hidx _ _)
      obtain ⟨hcol, hrow⟩ := G.index_inj hpx (by omega) hidx
      exact inBox_dirtyAddLocked G hpx hpy (by omega) (by omega)
  | fillRect x y w h color => exact paintRect_changed_inBox hpx hpy hne
  | drawPattern x y w h => exact paintRect_changed_inBox hpx hpy hne

/-- **…and never shrinks the box.** -/
theorem Draw.inBox_of_inBox (d : Draw) (h : s.InBox px py) : (d.apply G s).InBox px py := by
  cases d with
  | clear color => exact inBox_dirtyAddLocked_of_inBox G h _ _ _ _ _
  | putPixel x y color =>
    simp only [Draw.apply, fbPutPixel]
    split
    · exact h
    · exact inBox_dirtyAddLocked_of_inBox G h _ _ _ _ _
  | fillRect x y w h' color => exact inBox_dirtyAddLocked_of_inBox G h _ _ _ _ _
  | drawPattern x y w h' => exact inBox_dirtyAddLocked_of_inBox G h _ _ _ _ _

end KlaussRuntime.Vnc
