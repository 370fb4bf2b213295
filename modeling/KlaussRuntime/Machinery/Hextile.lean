import KlaussRuntime.Machinery.Bytes

/-!
# Machinery/Hextile — a decoder for RFB's Hextile encoding (RFC 6143 §7.7.4)

A Hextile rectangle is cut into 16×16 tiles, left to right and top to bottom, the last column and
row clipped to the rectangle.  Each tile begins with a mask saying which of a raw picture, a
background, a foreground and a list of subrectangles follow.  `decodeTile` reads one tile and
`decodeTiles` walks a list of them; both refuse a stream that ends early, a tile that relies on a
colour nobody gave, and a subrectangle that leaves its tile.

A picture is a function of the coordinates, so what a tile does to it is stated pointwise:
`overlay t g c` is the picture `g` inside `t` and `c` elsewhere, and overlaying the tiles of a
rectangle one after another overlays the rectangle (`foldl_overlay_tilesOf`).
-/

namespace Machinery.Hextile

open Machinery

/-! ## Pixels on the wire -/

/-- How a client wants a pixel laid out: its size in bytes and their order. -/
structure Layout where
  size : ℕ
  big : Bool
deriving DecidableEq

namespace Layout

variable (l : Layout)

/-- The bytes of a pixel value. -/
def encode (v : ℕ) : List Byte := if l.big then beBytes l.size v else leBytes l.size v

/-- The value some bytes spell. -/
def value (bs : List Byte) : ℕ := if l.big then beNat bs else leNat bs

@[simp] theorem length_encode (v : ℕ) : (l.encode v).length = l.size := by
  unfold encode; split <;> simp

theorem value_encode (v : ℕ) : l.value (l.encode v) = v % 256 ^ l.size := by
  unfold value encode; split
  · exact beNat_beBytes _ _
  · exact leNat_leBytes _ _

/-- Read one pixel off the front of a stream. -/
def readPixel (bs : List Byte) : Option (ℕ × List Byte) :=
  if l.size ≤ bs.length then some (l.value (bs.take l.size), bs.drop l.size) else none

theorem readPixel_encode (v : ℕ) (rest : List Byte) :
    l.readPixel (l.encode v ++ rest) = some (v % 256 ^ l.size, rest) := by
  have htake : (l.encode v ++ rest).take l.size = l.encode v := by
    rw [List.take_append_of_le_length (by simp), List.take_of_length_le (by simp)]
  have hdrop : (l.encode v ++ rest).drop l.size = rest := by
    rw [List.drop_append_of_le_length (by simp), List.drop_of_length_le (by simp), List.nil_append]
  rw [readPixel, if_pos (by simp), htake, hdrop, value_encode]

/-- Read `n` pixels off the front of a stream. -/
def readPixels : ℕ → List Byte → Option (List ℕ × List Byte)
  | 0, bs => some ([], bs)
  | n + 1, bs => do
    let (v, bs) ← l.readPixel bs
    let (vs, bs) ← readPixels n bs
    some (v :: vs, bs)

theorem readPixels_encode (vs : List ℕ) (rest : List Byte) :
    l.readPixels vs.length (vs.flatMap l.encode ++ rest)
      = some (vs.map (· % 256 ^ l.size), rest) := by
  induction vs with
  | nil => rfl
  | cons v vs ih =>
    simp [readPixels, List.append_assoc, l.readPixel_encode, ih]

end Layout

/-! ## Pictures -/

/-- A rectangle of the screen, by its corner and its size. -/
structure Rect where
  x : ℕ
  y : ℕ
  w : ℕ
  h : ℕ
deriving DecidableEq

/-- A point lies in a rectangle. -/
def Rect.Has (r : Rect) (px py : ℕ) : Prop :=
  (r.x ≤ px ∧ px < r.x + r.w) ∧ (r.y ≤ py ∧ py < r.y + r.h)

instance (r : Rect) (px py : ℕ) : Decidable (r.Has px py) :=
  inferInstanceAs (Decidable ((_ ∧ _) ∧ (_ ∧ _)))

/-- A picture: the pixel value at each point. -/
abbrev Canvas := ℕ → ℕ → ℕ

/-- The picture `g` inside `r`, the old one elsewhere. -/
def overlay (r : Rect) (g : Canvas) (c : Canvas) : Canvas :=
  fun px py => if r.Has px py then g px py else c px py

/-- One colour inside `r`. -/
def fill (r : Rect) (v : ℕ) (c : Canvas) : Canvas := overlay r (fun _ _ => v) c

/-- A list of pixel values inside `r`, row by row. -/
def blit (r : Rect) (vs : List ℕ) (c : Canvas) : Canvas :=
  overlay r (fun px py => vs.getD ((py - r.y) * r.w + (px - r.x)) 0) c

/-- Where entry `(r, c)` of a table stands in its row-by-row listing. -/
theorem getElem?_flatMap_rows {α : Type*} (g : ℕ → ℕ → α) {w h r c : ℕ} (hr : r < h) (hc : c < w) :
    ((List.range h).flatMap fun r => (List.range w).map (g r))[r * w + c]? = some (g r c) := by
  have hlen : ∀ h, ((List.range h).flatMap fun r => (List.range w).map (g r)).length = h * w := by
    intro h; simp [List.length_flatMap]
  induction h with
  | zero => omega
  | succ h ih =>
    rw [List.range_succ, List.flatMap_append]
    rcases Nat.lt_succ_iff_lt_or_eq.mp hr with hlt | rfl
    · have hidx : r * w + c < h * w := by nlinarith
      rw [List.getElem?_append_left (by rw [hlen]; exact hidx)]
      exact ih hlt
    · rw [List.getElem?_append_right (by rw [hlen]; omega), hlen]
      simp [hc]

theorem blit_rows (g : Canvas) (r : Rect) (c : Canvas) :
    blit r ((List.range r.h).flatMap fun j => (List.range r.w).map fun i => g (r.x + i) (r.y + j)) c
      = overlay r g c := by
  funext px py
  unfold blit overlay
  split_ifs with h
  · obtain ⟨⟨hx0, hx1⟩, hy0, hy1⟩ := h
    have := getElem?_flatMap_rows (fun j i => g (r.x + i) (r.y + j)) (r := py - r.y) (c := px - r.x)
      (h := r.h) (w := r.w) (by omega) (by omega)
    simp only [List.getD_eq_getElem?_getD, this, Option.getD_some]
    rw [Nat.add_sub_cancel' hx0, Nat.add_sub_cancel' hy0]
  · rfl

/-- Overlaying one picture through several windows shows it wherever a window is. -/
theorem foldl_overlay (g : Canvas) (ts : List Rect) (c : Canvas) (px py : ℕ) :
    ts.foldl (fun c t => overlay t g c) c px py
      = if ∃ t ∈ ts, t.Has px py then g px py else c px py := by
  induction ts generalizing c with
  | nil => simp
  | cons t ts ih =>
    rw [List.foldl_cons, ih]
    by_cases ht : t.Has px py
    · simp [overlay, ht]
    · simp [overlay, ht]

/-! ## Tiles -/

/-- The tiles of a rectangle: 16×16, row by row, clipped at the right and lower edge. -/
def tilesOf (r : Rect) : List Rect :=
  (List.range ((r.h + 15) / 16)).flatMap fun j =>
    (List.range ((r.w + 15) / 16)).map fun i =>
      ⟨r.x + 16 * i, r.y + 16 * j, min 16 (r.w - 16 * i), min 16 (r.h - 16 * j)⟩

theorem mem_tilesOf {r t : Rect} : t ∈ tilesOf r ↔
    ∃ j < (r.h + 15) / 16, ∃ i < (r.w + 15) / 16,
      t = ⟨r.x + 16 * i, r.y + 16 * j, min 16 (r.w - 16 * i), min 16 (r.h - 16 * j)⟩ := by
  simp only [tilesOf, List.mem_flatMap, List.mem_range, List.mem_map]
  constructor
  · rintro ⟨j, hj, i, hi, rfl⟩; exact ⟨j, hj, i, hi, rfl⟩
  · rintro ⟨j, hj, i, hi, rfl⟩; exact ⟨j, hj, i, hi, rfl⟩

/-- A tile is nonempty, at most 16 on a side, and inside its rectangle. -/
theorem tile_bounds {r t : Rect} (ht : t ∈ tilesOf r) :
    (0 < t.w ∧ t.w ≤ 16 ∧ 0 < t.h ∧ t.h ≤ 16) ∧
      (r.x ≤ t.x ∧ t.x + t.w ≤ r.x + r.w ∧ r.y ≤ t.y ∧ t.y + t.h ≤ r.y + r.h) := by
  obtain ⟨j, hj, i, hi, rfl⟩ := mem_tilesOf.mp ht
  refine ⟨⟨?_, ?_, ?_, ?_⟩, ?_, ?_, ?_, ?_⟩ <;> simp only <;> omega

/-- **The tiles cover their rectangle, and nothing else.** -/
theorem exists_tile_has {r : Rect} {px py : ℕ} :
    (∃ t ∈ tilesOf r, t.Has px py) ↔ r.Has px py := by
  constructor
  · rintro ⟨t, ht, hp⟩
    have hb := (tile_bounds ht).2
    unfold Rect.Has at hp ⊢
    omega
  · intro hp
    unfold Rect.Has at hp
    refine ⟨_, mem_tilesOf.mpr ⟨(py - r.y) / 16, by omega, (px - r.x) / 16, by omega, rfl⟩, ?_⟩
    unfold Rect.Has
    simp only
    omega

/-- **Overlaying the tiles of a rectangle overlays the rectangle.** -/
theorem foldl_overlay_tilesOf (g : Canvas) (r : Rect) (c : Canvas) :
    (tilesOf r).foldl (fun c t => overlay t g c) c = overlay r g c := by
  funext px py
  rw [foldl_overlay, overlay]
  simp only [exists_tile_has]

/-! ## The decoder -/

/-- The colours a tile may inherit from the one before. -/
structure Carry where
  bg : Option ℕ
  fg : Option ℕ

/-- Read `n` subrectangles of tile `t` and paint them: each in its own colour, read before it, when
`coloured`, else all in `fg`.  A subrectangle is two bytes: corner, then size less one, a nibble
each. -/
def decodeSubrects (l : Layout) (t : Rect) (fg : Option ℕ) (coloured : Bool) :
    ℕ → List Byte → Canvas → Option (Canvas × List Byte)
  | 0, bs, c => some (c, bs)
  | n + 1, bs, c => do
    let (v, bs) ← if coloured then l.readPixel bs else fg.map (·, bs)
    match bs with
    | xy :: wh :: bs =>
      let s : Rect := ⟨t.x + xy.toNat / 16, t.y + xy.toNat % 16, wh.toNat / 16 + 1, wh.toNat % 16 + 1⟩
      if s.x + s.w ≤ t.x + t.w ∧ s.y + s.h ≤ t.y + t.h then
        decodeSubrects l t fg coloured n bs (fill s v c)
      else none
    | _ => none

/-- Read one tile and paint it.  Mask bits: 1 raw, 2 background given, 4 foreground given, 8 any
subrectangles, 16 subrectangles coloured.  A raw tile leaves the colours undefined. -/
def decodeTile (l : Layout) (t : Rect) (k : Carry) (c : Canvas) :
    List Byte → Option (Canvas × Carry × List Byte)
  | [] => none
  | m :: bs =>
    if m.getLsbD 0 then do
      let (vs, bs) ← l.readPixels (t.w * t.h) bs
      some (blit t vs c, ⟨none, none⟩, bs)
    else do
      let (bg, bs) ← if m.getLsbD 1 then l.readPixel bs else k.bg.map (·, bs)
      let (fg, bs) ← if m.getLsbD 2 then (l.readPixel bs).map (fun (v, bs) => (some v, bs))
        else some (k.fg, bs)
      if m.getLsbD 3 then
        match bs with
        | [] => none
        | n :: bs => do
          let (c, bs) ← decodeSubrects l t fg (m.getLsbD 4) n.toNat bs (fill t bg c)
          some (c, ⟨some bg, fg⟩, bs)
      else some (fill t bg c, ⟨some bg, fg⟩, bs)

/-- Read tile after tile. -/
def decodeTiles (l : Layout) : List Rect → Carry → Canvas → List Byte → Option (Canvas × List Byte)
  | [], _, c, bs => some (c, bs)
  | t :: ts, k, c, bs => do
    let (c, k, bs) ← decodeTile l t k c bs
    decodeTiles l ts k c bs

/-- Read a FramebufferUpdate that carries one Hextile rectangle: the message type, a byte of padding
and the number of rectangles, then the rectangle's corner, size and encoding, then its tiles. -/
def decodeUpdate (l : Layout) (c : Canvas) (bs : List Byte) : Option (Rect × Canvas × List Byte) :=
  if 16 ≤ bs.length ∧ bs.take 1 = [0] ∧ beNat ((bs.drop 2).take 2) = 1
      ∧ beNat ((bs.drop 12).take 4) = 5 then
    let r : Rect := ⟨beNat ((bs.drop 4).take 2), beNat ((bs.drop 6).take 2),
      beNat ((bs.drop 8).take 2), beNat ((bs.drop 10).take 2)⟩
    (decodeTiles l (tilesOf r) ⟨none, none⟩ c (bs.drop 16)).map fun (c, bs) => (r, c, bs)
  else none

end Machinery.Hextile
