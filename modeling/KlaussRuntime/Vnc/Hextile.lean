import KlaussRuntime.Machinery.Transport
import KlaussRuntime.Vnc.Framebuffer
import KlaussRuntime.Vnc.PixelFormat
import Mathlib.Data.List.TakeWhile

/-!
# Vnc/Hextile — the Hextile sender, and its round trip through the decoder

    tile ──classify──▸ one colour │ two colours │ more ──▸ background │ runs │ raw pixels

`hextileTile` looks at a tile's colours and stops at the third; a tile of two colours is sent as its
more frequent colour and the runs of the other, row by row (`rowRuns`).  `sendRectHextile` walks the
tiles of an update and batches them into `sendbuf`, flushing when the next tile might not fit.

`decodeTile_hextileTile` — whatever a tile holds, the RFC 6143 decoder paints exactly its converted
pixels — and `length_hextileTile_le` — it never takes more than `HT_TILE_MAX` bytes — are per tile;
`foldlM_htTile_delivers` carries both through the walk and every flush.
-/

namespace KlaussRuntime.Vnc

open Machinery Machinery.Hextile

variable (G : Geometry) (t : Luts) (f : Pixfmt) (fb : Pixels)

/-! ## Colours of a tile -/

/-- Row `r` of the tile at `(tx, ty)`, from its first column. -/
def tileRow (tx ty tw r : ℕ) : List (BitVec 16) :=
  (List.range tw).map fun c => fb ((ty + r) * G.width + tx + c)

/-- The locals of the classification loop: the second colour, how many pixels had the first, and how
many colours were seen. -/
structure Tally where
  c1 : BitVec 16
  n0 : ℕ
  ncol : ℕ

/-- One pixel of the classification loop. -/
def tallyPixel (c0 : BitVec 16) (s : Tally) (px : BitVec 16) : Tally :=
  if px = c0 then { s with n0 := s.n0 + 1 }
  else if s.ncol = 1 then { s with c1 := px, ncol := 2 }
  else if px ≠ s.c1 then { s with ncol := 3 }
  else s

/-- One row, left at the third colour. -/
def tallyRow (c0 : BitVec 16) : Tally → List (BitVec 16) → Tally
  | s, [] => s
  | s, px :: row =>
    if (tallyPixel c0 s px).ncol = 3 then tallyPixel c0 s px else tallyRow c0 (tallyPixel c0 s px) row

/-- Count a tile's colours, bailing out at the third. -/
def classify (c0 : BitVec 16) (rows : List (List (BitVec 16))) : Tally :=
  rows.foldl (fun s row => if s.ncol ≤ 2 then tallyRow c0 s row else s) ⟨0, 0, 1⟩

/-! ## Encoding a tile -/

/-- Emit one pixel value in the client's format. -/
def emitPx (px : BitVec 16) : List Byte := putPixelBytes (convertPixel t px) f.bytes f.isBig

/-- The runs of `fg` in a row, as half-open column ranges; `c` is the column of the row's head. -/
def rowRuns (fg : BitVec 16) : ℕ → List (BitVec 16) → List (ℕ × ℕ)
  | _, [] => []
  | c, px :: row =>
    if px ≠ fg then rowRuns fg (c + 1) row
    else
      let c2 := c + 1 + (row.takeWhile (· = fg)).length
      (c, c2) :: rowRuns fg c2 (row.dropWhile (· = fg))
  termination_by _ row => row.length
  decreasing_by
    · simp
    · have := (List.dropWhile_suffix (fun x => decide (x = fg)) (l := row)).length_le
      simp only [List.length_cons]
      omega

/-- A foreground run: its row and its columns. -/
structure Run where
  r : ℕ
  c : ℕ
  c2 : ℕ

/-- A run as a subrectangle: corner, then size less one, nibble-packed. -/
def Run.bytes (u : Run) : List Byte :=
  [BitVec.ofNat 8 (u.c <<< 4 ||| u.r), BitVec.ofNat 8 ((u.c2 - u.c - 1) <<< 4)]

/-- All foreground runs of a tile. -/
def tileRuns (fg : BitVec 16) (tx ty tw th : ℕ) : List Run :=
  (List.range th).flatMap fun r => (rowRuns fg 0 (tileRow G fb tx ty tw r)).map fun (c, c2) => ⟨r, c, c2⟩

def htRaw : Byte := 0x01
def htBg : Byte := 0x02
def htFg : Byte := 0x04
def htSubrects : Byte := 0x08

/-- HT_TILE_MAX: a raw 16×16 tile at 4 bytes a pixel, and its mask. -/
@[irreducible] def htTileMax : ℕ := 1 + 16 * 16 * 4

/-- One row of a raw tile.  RGB565 LE is the array's own layout, so a native client gets a copy. -/
def rawRow (row : List (BitVec 16)) : List Byte :=
  if t.fmtNative then row.flatMap fun px => leBytes 2 px.toNat else row.flatMap (emitPx t f)

def hextileTile (tile : Rect) : List Byte :=
  let c0 := fb (tile.y * G.width + tile.x)
  let rows := (List.range tile.h).map (tileRow G fb tile.x tile.y tile.w)
  let s := classify c0 rows
  if s.ncol = 1 then htBg :: emitPx t f c0
  else if s.ncol = 2 then
    -- the majority colour is the background: fewer runs
    let (bg, fg) := if 2 * s.n0 < tile.w * tile.h then (s.c1, c0) else (c0, s.c1)
    let runs := tileRuns G fb fg tile.x tile.y tile.w tile.h
    (htBg ||| htFg ||| htSubrects) :: (emitPx t f bg ++ emitPx t f fg
      ++ BitVec.ofNat 8 runs.length :: runs.flatMap Run.bytes)
  else
    htRaw :: rows.flatMap (rawRow t f)

/-! ## Classification -/

/-- What the tally knows of the pixels it has seen. -/
structure Tally.Sound (c0 : BitVec 16) (s : Tally) (seen : List (BitVec 16)) : Prop where
  pos : 1 ≤ s.ncol
  le : s.ncol ≤ 3
  one : s.ncol = 1 → ∀ px ∈ seen, px = c0
  two : s.ncol = 2 → ∀ px ∈ seen, px = c0 ∨ px = s.c1

theorem Tally.Sound.of_three {c0 : BitVec 16} {s : Tally} (h : s.ncol = 3)
    (seen : List (BitVec 16)) : s.Sound c0 seen :=
  ⟨by omega, by omega, fun h' => by omega, fun h' => by omega⟩

theorem Tally.Sound.tallyPixel {c0 : BitVec 16} {s : Tally} {seen : List (BitVec 16)}
    (h : s.Sound c0 seen) (px : BitVec 16) : (tallyPixel c0 s px).Sound c0 (seen ++ [px]) := by
  have hmem : ∀ {P : BitVec 16 → Prop}, (∀ q ∈ seen, P q) → P px → ∀ q ∈ seen ++ [px], P q := by
    intro P hseen hpx q hq
    rcases List.mem_append.mp hq with hq | hq
    · exact hseen q hq
    · rwa [List.mem_singleton.mp hq]
  unfold Vnc.tallyPixel
  split_ifs with hc0 h1 hc1
  · exact ⟨h.pos, h.le, fun hn => hmem (h.one hn) hc0, fun hn => hmem (h.two hn) (Or.inl hc0)⟩
  · exact ⟨by simp, by simp, fun hn => by simp at hn,
      fun _ => hmem (fun q hq => Or.inl (h.one h1 q hq)) (Or.inr rfl)⟩
  · exact .of_three rfl _
  · have hpos := h.pos
    exact ⟨h.pos, h.le, fun hn => absurd hn h1,
      fun hn => hmem (h.two hn) (Or.inr (not_not.mp hc1))⟩

theorem Tally.Sound.tallyRow {c0 : BitVec 16} {s : Tally} {seen : List (BitVec 16)}
    (h : s.Sound c0 seen) (row : List (BitVec 16)) :
    (tallyRow c0 s row).Sound c0 (seen ++ row) := by
  induction row generalizing s seen with
  | nil => rwa [List.append_nil]
  | cons px row ih =>
    have hpx := h.tallyPixel px
    rw [Vnc.tallyRow]
    split_ifs with h3
    · exact .of_three h3 _
    · have := ih hpx
      rwa [List.append_assoc] at this

/-- **The tally of a tile is sound for all its pixels**, wherever it stopped counting. -/
theorem classify_sound (c0 : BitVec 16) (rows : List (List (BitVec 16))) :
    (classify c0 rows).Sound c0 rows.flatten := by
  have hrun : ∀ (rows : List (List (BitVec 16))) (s : Tally) (seen : List (BitVec 16)),
      s.Sound c0 seen →
        (rows.foldl (fun s row => if s.ncol ≤ 2 then tallyRow c0 s row else s) s).Sound c0
          (seen ++ rows.flatten) := by
    intro rows
    induction rows with
    | nil => intro s seen h; simpa using h
    | cons row rows ih =>
      intro s seen h
      have hle := h.le
      rw [List.foldl_cons, List.flatten_cons, ← List.append_assoc]
      refine ih _ _ ?_
      split_ifs with h2
      · exact h.tallyRow row
      · exact .of_three (by omega) _
  exact hrun rows _ [] ⟨by simp, by simp, by simp, by simp⟩

/-! ## Runs -/

theorem rowRuns_bounds (fg : BitVec 16) (c : ℕ) (row : List (BitVec 16)) {a b : ℕ}
    (h : (a, b) ∈ rowRuns fg c row) : c ≤ a ∧ a < b ∧ b ≤ c + row.length := by
  fun_induction rowRuns fg c row with
  | case1 c => simp at h
  | case2 c px row hne ih =>
    have := ih h
    simp only [List.length_cons]
    omega
  | case3 c px row heq c2 ih =>
    have hsplit := congrArg List.length (List.takeWhile_append_dropWhile (p := (· = fg)) (l := row))
    rw [List.length_append] at hsplit
    simp only [List.mem_cons, Prod.mk.injEq, List.length_cons] at h ⊢
    rcases h with ⟨rfl, rfl⟩ | h
    · omega
    · have := ih h
      omega

/-- **The runs are exactly where the foreground is.** -/
theorem exists_rowRuns_iff (fg : BitVec 16) (c : ℕ) (row : List (BitVec 16)) (k : ℕ) :
    (∃ u ∈ rowRuns fg c row, u.1 ≤ k ∧ k < u.2) ↔ c ≤ k ∧ row[k - c]? = some fg := by
  fun_induction rowRuns fg c row with
  | case1 c => simp
  | case2 c px row hne ih =>
    rw [ih]
    constructor
    · rintro ⟨hck, hget⟩
      refine ⟨by omega, ?_⟩
      rwa [show k - c = k - (c + 1) + 1 by omega, List.getElem?_cons_succ]
    · rintro ⟨hck, hget⟩
      rcases Nat.eq_or_lt_of_le hck with rfl | hlt
      · rw [Nat.sub_self, List.getElem?_cons_zero] at hget
        exact absurd (Option.some.inj hget) hne
      · refine ⟨by omega, ?_⟩
        rwa [show k - c = k - (c + 1) + 1 by omega, List.getElem?_cons_succ] at hget
  | case3 c px row heq c2 ih =>
    obtain rfl : px = fg := not_not.mp heq
    -- the columns of this run all hold the foreground, those past it belong to the rest
    have hrow : ∀ i, c2 ≤ c + 1 + i → row[i]? = (row.dropWhile (· = px))[c + 1 + i - c2]? := by
      intro i hi
      conv_lhs => rw [← List.takeWhile_append_dropWhile (p := (· = px)) (l := row)]
      rw [List.getElem?_append_right (by omega)]
      congr 1
      omega
    have hin : ∀ i, c + 1 + i < c2 → row[i]? = some px := by
      intro i hi
      have hlt : i < (row.takeWhile (· = px)).length := by omega
      conv_lhs => rw [← List.takeWhile_append_dropWhile (p := (· = px)) (l := row)]
      rw [List.getElem?_append_left hlt, List.getElem?_eq_getElem hlt]
      have := List.mem_takeWhile_imp (List.getElem_mem hlt)
      simpa using this
    simp only [List.exists_mem_cons_iff, ih]
    constructor
    · rintro (⟨hck, hlt⟩ | ⟨hck, hget⟩)
      · refine ⟨hck, ?_⟩
        rcases Nat.eq_or_lt_of_le hck with rfl | hck
        · simp
        · rw [show k - c = k - (c + 1) + 1 by omega, List.getElem?_cons_succ]
          exact hin _ (by omega)
      · refine ⟨by omega, ?_⟩
        rw [show k - c = k - (c + 1) + 1 by omega, List.getElem?_cons_succ, hrow _ (by omega)]
        rwa [show c + 1 + (k - (c + 1)) - c2 = k - c2 by omega]
    · rintro ⟨hck, hget⟩
      by_cases hlt : k < c2
      · exact Or.inl ⟨hck, hlt⟩
      · refine Or.inr ⟨by omega, ?_⟩
        rw [show k - c = k - (c + 1) + 1 by omega, List.getElem?_cons_succ, hrow _ (by omega)]
          at hget
        rwa [show c + 1 + (k - (c + 1)) - c2 = k - c2 by omega] at hget

/-- Two runs of a row are separated by a pixel, so a row of `n` has at most `(n + 1) / 2`. -/
theorem two_mul_length_rowRuns (fg : BitVec 16) (c : ℕ) (row : List (BitVec 16)) :
    2 * (rowRuns fg c row).length ≤ row.length + 1 ∧
      (row.head? ≠ some fg → 2 * (rowRuns fg c row).length ≤ row.length) := by
  fun_induction rowRuns fg c row with
  | case1 c => simp
  | case2 c px row hne ih =>
    simp only [List.length_cons]
    omega
  | case3 c px row heq c2 ih =>
    obtain rfl : px = fg := not_not.mp heq
    have hhead : (row.dropWhile (· = px)).head? ≠ some px := by
      intro h
      have := List.head?_dropWhile_not (fun x => decide (x = px)) row
      simp [h] at this
    have hlen := (List.dropWhile_suffix (fun x => decide (x = px)) (l := row)).length_le
    have := ih.2 hhead
    simp only [List.length_cons, List.head?_cons, ne_eq, not_true_eq_false, false_implies, and_true]
    omega

/-! ## A tile through the decoder -/

/-- The picture the client should end up with: the converted pixels, cut to the client's size. -/
def shown : Canvas := fun x y => (convertPixel t (fb (G.index x y))).toNat % 256 ^ f.bytes

theorem emitPx_eq (px : BitVec 16) : emitPx t f px = f.layout.encode (convertPixel t px).toNat :=
  putPixelBytes_eq _ _ _

@[simp] theorem length_emitPx (px : BitVec 16) : (emitPx t f px).length = f.bytes :=
  length_putPixelBytes _ _ _

/-- A row copied raw is the row converted: only a native client gets the copy. -/
theorem copyRow_eq {wild : BitVec 32 → BitVec 8 → BitVec 32}
    (h : (buildLuts wild f).fmtNative = true) (px : BitVec 16) :
    leBytes 2 px.toNat = emitPx (buildLuts wild f) f px := by
  obtain ⟨hbpp, hbig, -⟩ := fmtNative_iff.mp h
  have hlayout : f.layout = ⟨2, false⟩ := by
    simp [Pixfmt.layout, Pixfmt.bytes, Pixfmt.isBig, hbpp, hbig]
  have hval : (px.setWidth 32).toNat = px.toNat := by
    rw [BitVec.toNat_setWidth]
    exact Nat.mod_eq_of_lt (by have := px.isLt; omega)
  rw [emitPx_eq, convertPixel_native h, hlayout, hval]
  rfl

theorem flatten_tileRows (tile : Rect) :
    ((List.range tile.h).map (tileRow G fb tile.x tile.y tile.w)).flatten
      = (List.range tile.h).flatMap fun j => (List.range tile.w).map fun i =>
          fb (G.index (tile.x + i) (tile.y + j)) := by
  rw [← List.flatMap_def]
  refine List.flatMap_congr fun j _ => List.map_congr_left fun i _ => ?_
  rw [Geometry.index, add_assoc]

theorem getElem?_tileRow {tx ty tw r c : ℕ} (hc : c < tw) :
    (tileRow G fb tx ty tw r)[c]? = some (fb (G.index (tx + c) (ty + r))) := by
  simp [tileRow, hc, Geometry.index, add_assoc]

theorem length_tileRow (tx ty tw r : ℕ) : (tileRow G fb tx ty tw r).length = tw := by simp [tileRow]

theorem mem_tileRows {tile : Rect} {px py : ℕ} (h : tile.Has px py) :
    fb (G.index px py) ∈ ((List.range tile.h).map (tileRow G fb tile.x tile.y tile.w)).flatten := by
  obtain ⟨⟨hx0, hx1⟩, hy0, hy1⟩ := h
  rw [flatten_tileRows]
  refine List.mem_flatMap.mpr ⟨py - tile.y, List.mem_range.mpr (by omega), ?_⟩
  refine List.mem_map.mpr ⟨px - tile.x, List.mem_range.mpr (by omega), ?_⟩
  congr 2 <;> omega

/-- **The raw branch**: the bytes after the mask are the tile's pixels, converted or copied. -/
theorem rawBytes_eq (wild : BitVec 32 → BitVec 8 → BitVec 32) (rows : List (List (BitVec 16))) :
    rows.flatMap (rawRow (buildLuts wild f) f)
      = (rows.flatten.map fun px => (convertPixel (buildLuts wild f) px).toNat).flatMap
          f.layout.encode := by
  rw [List.flatMap_map]
  simp only [← emitPx_eq]
  rw [List.flatten_eq_flatMap, List.flatMap_assoc]
  refine List.flatMap_congr fun row _ => ?_
  unfold rawRow
  split_ifs with h
  · exact List.flatMap_congr fun px _ => copyRow_eq f h px
  · rfl

theorem decodeTile_raw (wild : BitVec 32 → BitVec 8 → BitVec 32) (tile : Rect) (k : Carry)
    (c : Canvas) (rest : List Byte) :
    decodeTile f.layout tile k c
        (htRaw :: ((List.range tile.h).map (tileRow G fb tile.x tile.y tile.w)).flatMap
          (rawRow (buildLuts wild f) f) ++ rest)
      = some (overlay tile (shown G (buildLuts wild f) f fb) c, ⟨none, none⟩, rest) := by
  have hread := f.layout.readPixels_encode
    ((((List.range tile.h).map (tileRow G fb tile.x tile.y tile.w)).flatten).map fun px =>
      (convertPixel (buildLuts wild f) px).toNat) rest
  have hlen : ((((List.range tile.h).map (tileRow G fb tile.x tile.y tile.w)).flatten).map fun px =>
      (convertPixel (buildLuts wild f) px).toNat).length = tile.w * tile.h := by
    rw [flatten_tileRows]; simp [List.length_flatMap, mul_comm]
  rw [hlen] at hread
  have hmask : (htRaw.getLsbD 0) = true := rfl
  rw [rawBytes_eq, List.cons_append, decodeTile, if_pos hmask, hread]
  have hshow := blit_rows (shown G (buildLuts wild f) f fb) tile c
  rw [flatten_tileRows]
  simpa [List.map_flatMap, Function.comp_def, shown, Pixfmt.layout] using hshow

/-- The subrectangle a run paints in its tile. -/
def Run.rect (tile : Rect) (u : Run) : Rect := ⟨tile.x + u.c, tile.y + u.r, u.c2 - u.c, 1⟩

/-- A run fits its tile, and the tile a nibble. -/
def Run.Fits (tile : Rect) (u : Run) : Prop :=
  u.r < tile.h ∧ u.c < u.c2 ∧ u.c2 ≤ tile.w ∧ tile.w ≤ 16 ∧ tile.h ≤ 16

theorem Run.nibbles {tile : Rect} {u : Run} (h : u.Fits tile) :
    ((BitVec.ofNat 8 (u.c <<< 4 ||| u.r)).toNat / 16 = u.c ∧
      (BitVec.ofNat 8 (u.c <<< 4 ||| u.r)).toNat % 16 = u.r) ∧
      ((BitVec.ofNat 8 ((u.c2 - u.c - 1) <<< 4)).toNat / 16 + 1 = u.c2 - u.c ∧
        (BitVec.ofNat 8 ((u.c2 - u.c - 1) <<< 4)).toNat % 16 = 0) := by
  obtain ⟨hr, hc, hc2, hw, hh⟩ := h
  have hpack : u.c <<< 4 ||| u.r = u.c * 16 + u.r := by
    rw [← Nat.shiftLeft_add_eq_or_of_lt (show u.r < 2 ^ 4 by omega), Nat.shiftLeft_eq]
  rw [hpack, Nat.shiftLeft_eq, BitVec.toNat_ofNat, BitVec.toNat_ofNat]
  omega

/-- **The decoder paints exactly the runs.** -/
theorem decodeSubrects_runs (l : Layout) {tile : Rect} (v : ℕ) {runs : List Run}
    (h : ∀ u ∈ runs, u.Fits tile) (c : Canvas) (rest : List Byte) :
    decodeSubrects l tile (some v) false runs.length (runs.flatMap Run.bytes ++ rest) c
      = some ((runs.map (Run.rect tile)).foldl (fun c r => overlay r (fun _ _ => v) c) c, rest) := by
  induction runs generalizing c with
  | nil => rfl
  | cons u runs ih =>
    have hu := h u (by simp)
    obtain ⟨⟨hx, hy⟩, hw, hh⟩ := Run.nibbles hu
    obtain ⟨hr, hc, hc2, -, -⟩ := hu
    have hin : tile.x + u.c + (u.c2 - u.c) ≤ tile.x + tile.w ∧ tile.y + u.r + 1 ≤ tile.y + tile.h := by
      omega
    simp only [List.length_cons, List.flatMap_cons, Run.bytes, List.cons_append, List.nil_append,
      decodeSubrects, Bool.false_eq_true, if_false, Option.map_some, Option.bind_eq_bind,
      Option.bind_some, hx, hy, hw, hh, Nat.zero_add, hin, and_self, if_true]
    rw [List.map_cons, List.foldl_cons]
    exact ih (fun u hu => h u (by simp [hu])) _

theorem mem_tileRuns {fg : BitVec 16} {tile : Rect} {u : Run} :
    u ∈ tileRuns G fb fg tile.x tile.y tile.w tile.h ↔
      u.r < tile.h ∧ (u.c, u.c2) ∈ rowRuns fg 0 (tileRow G fb tile.x tile.y tile.w u.r) := by
  simp only [tileRuns, List.mem_flatMap, List.mem_range, List.mem_map, Prod.exists]
  constructor
  · rintro ⟨r, hr, a, b, hab, rfl⟩; exact ⟨hr, hab⟩
  · rintro ⟨hr, hab⟩; exact ⟨u.r, hr, u.c, u.c2, hab, rfl⟩

theorem tileRuns_fits (fg : BitVec 16) {tile : Rect} (hw : tile.w ≤ 16) (hh : tile.h ≤ 16) :
    ∀ u ∈ tileRuns G fb fg tile.x tile.y tile.w tile.h, u.Fits tile := by
  intro u hu
  obtain ⟨hr, hu⟩ := (mem_tileRuns G fb).mp hu
  have := rowRuns_bounds fg 0 _ hu
  rw [length_tileRow] at this
  exact ⟨hr, by omega, by omega, hw, hh⟩

/-- **A point of the tile is painted by a run exactly when it holds the foreground.** -/
theorem exists_run_has_iff {fg : BitVec 16} {tile : Rect} {px py : ℕ} (h : tile.Has px py) :
    (∃ r ∈ (tileRuns G fb fg tile.x tile.y tile.w tile.h).map (Run.rect tile), r.Has px py)
      ↔ fb (G.index px py) = fg := by
  obtain ⟨⟨hx0, hx1⟩, hy0, hy1⟩ := h
  have hrow := exists_rowRuns_iff fg 0 (tileRow G fb tile.x tile.y tile.w (py - tile.y)) (px - tile.x)
  rw [getElem?_tileRow G fb (show px - tile.x - 0 < tile.w by omega)] at hrow
  have hpt : G.index (tile.x + (px - tile.x - 0)) (tile.y + (py - tile.y)) = G.index px py := by
    congr 1 <;> omega
  rw [hpt, Option.some.injEq] at hrow
  simp only [Nat.zero_le, true_and] at hrow
  rw [← hrow]
  constructor
  · rintro ⟨_, hu, hhas⟩
    obtain ⟨u, hmem, rfl⟩ := List.mem_map.mp hu
    obtain ⟨hr, hruns⟩ := (mem_tileRuns G fb).mp hmem
    unfold Rect.Has Run.rect at hhas
    simp only at hhas
    have hur : u.r = py - tile.y := by omega
    rw [hur] at hruns
    exact ⟨(u.c, u.c2), hruns, by omega, by omega⟩
  · rintro ⟨⟨a, b⟩, hab, hak, hkb⟩
    refine ⟨_, List.mem_map.mpr ⟨⟨py - tile.y, a, b⟩, (mem_tileRuns G fb).mpr ⟨?_, hab⟩, rfl⟩, ?_⟩
    · simp only; omega
    · unfold Rect.Has Run.rect
      simp only at hak hkb ⊢
      omega

theorem Run.Fits.has {tile : Rect} {u : Run} (h : u.Fits tile) {px py : ℕ}
    (hp : (u.rect tile).Has px py) : tile.Has px py := by
  obtain ⟨hr, hc, hc2, -, -⟩ := h
  unfold Rect.Has Run.rect at *
  simp only at hp
  omega

/-- At most eight runs a row and sixteen rows: the count fits its byte. -/
theorem length_tileRuns_le (fg : BitVec 16) {tile : Rect} (hw : tile.w ≤ 16) (hh : tile.h ≤ 16) :
    (tileRuns G fb fg tile.x tile.y tile.w tile.h).length ≤ 128 := by
  have hrow : ∀ r, (rowRuns fg 0 (tileRow G fb tile.x tile.y tile.w r)).length ≤ 8 := fun r => by
    have := (two_mul_length_rowRuns fg 0 (tileRow G fb tile.x tile.y tile.w r)).1
    rw [length_tileRow] at this
    omega
  calc (tileRuns G fb fg tile.x tile.y tile.w tile.h).length
      = ((List.range tile.h).map fun r =>
          (rowRuns fg 0 (tileRow G fb tile.x tile.y tile.w r)).length).sum := by
        simp [tileRuns, List.length_flatMap]
    _ ≤ ((List.range tile.h).map fun _ => 8).sum := List.sum_le_sum fun r _ => hrow r
    _ = tile.h * 8 := by simp
    _ ≤ 128 := by omega

/-- **The two-colour branch**: background, then the runs of the foreground. -/
theorem decodeTile_twoColour {bg fg : BitVec 16} {tile : Rect} (hw : tile.w ≤ 16) (hh : tile.h ≤ 16)
    (htwo : ∀ px py, tile.Has px py → fb (G.index px py) = bg ∨ fb (G.index px py) = fg)
    (k : Carry) (c : Canvas) (rest : List Byte) :
    ∃ k', decodeTile f.layout tile k c
        ((htBg ||| htFg ||| htSubrects) :: (emitPx t f bg ++ emitPx t f fg
          ++ BitVec.ofNat 8 (tileRuns G fb fg tile.x tile.y tile.w tile.h).length
            :: (tileRuns G fb fg tile.x tile.y tile.w tile.h).flatMap Run.bytes) ++ rest)
      = some (overlay tile (shown G t f fb) c, k', rest) := by
  set runs := tileRuns G fb fg tile.x tile.y tile.w tile.h with hruns
  have hcount : (BitVec.ofNat 8 runs.length).toNat = runs.length := by
    have := length_tileRuns_le G fb fg hw hh
    rw [← hruns] at this
    rw [BitVec.toNat_ofNat]
    omega
  have hfits := tileRuns_fits G fb fg hw hh
  set vb := (convertPixel t bg).toNat % 256 ^ f.bytes with hvb
  set vf := (convertPixel t fg).toNat % 256 ^ f.bytes with hvf
  have hpaint : (runs.map (Run.rect tile)).foldl (fun c r => overlay r (fun _ _ => vf) c)
      (fill tile vb c) = overlay tile (shown G t f fb) c := by
    funext px py
    rw [foldl_overlay, fill]
    unfold overlay
    by_cases hp : tile.Has px py
    · rw [if_pos hp, if_pos hp]
      by_cases hfg : fb (G.index px py) = fg
      · rw [if_pos ((exists_run_has_iff G fb hp).mpr hfg), shown, hfg]
      · rw [if_neg (mt (exists_run_has_iff G fb hp).mp hfg), shown,
          (htwo px py hp).resolve_right hfg]
    · rw [if_neg hp, if_neg hp, if_neg]
      rintro ⟨_, hu, hhas⟩
      obtain ⟨u, hmem, rfl⟩ := List.mem_map.mp hu
      exact hp ((hfits u hmem).has hhas)
  refine ⟨⟨some vb, some vf⟩, ?_⟩
  have hm0 : (htBg ||| htFg ||| htSubrects).getLsbD 0 = false := rfl
  have hm1 : (htBg ||| htFg ||| htSubrects).getLsbD 1 = true := rfl
  have hm2 : (htBg ||| htFg ||| htSubrects).getLsbD 2 = true := rfl
  have hm3 : (htBg ||| htFg ||| htSubrects).getLsbD 3 = true := rfl
  have hm4 : (htBg ||| htFg ||| htSubrects).getLsbD 4 = false := rfl
  have hsub := decodeSubrects_runs f.layout vf hfits (fill tile vb c) rest
  rw [List.cons_append, decodeTile, hm0, hm1, hm2, hm3, hm4]
  simp only [Bool.false_eq_true, if_false, if_true, List.append_assoc, emitPx_eq,
    Layout.readPixel_encode, Option.bind_eq_bind, Option.bind_some, Option.map_some,
    List.cons_append, hcount]
  have hsize : f.layout.size = f.bytes := rfl
  rw [hsize, ← hvb, ← hvf, hsub, hpaint]
  rfl

/-- **The one-colour branch**: the background is the tile. -/
theorem decodeTile_solid {c0 : BitVec 16} {tile : Rect}
    (hone : ∀ px py, tile.Has px py → fb (G.index px py) = c0)
    (k : Carry) (c : Canvas) (rest : List Byte) :
    ∃ k', decodeTile f.layout tile k c (htBg :: emitPx t f c0 ++ rest)
      = some (overlay tile (shown G t f fb) c, k', rest) := by
  have hpaint : fill tile ((convertPixel t c0).toNat % 256 ^ f.bytes) c
      = overlay tile (shown G t f fb) c := by
    funext px py
    unfold fill overlay
    split_ifs with hp
    · rw [shown, hone px py hp]
    · rfl
  refine ⟨⟨some ((convertPixel t c0).toNat % 256 ^ f.bytes), k.fg⟩, ?_⟩
  have hm0 : htBg.getLsbD 0 = false := rfl
  have hm1 : htBg.getLsbD 1 = true := rfl
  have hm2 : htBg.getLsbD 2 = false := rfl
  have hm3 : htBg.getLsbD 3 = false := rfl
  rw [List.cons_append, decodeTile, hm0, hm1, hm2, hm3]
  simp only [Bool.false_eq_true, if_false, if_true, emitPx_eq, Layout.readPixel_encode,
    Option.bind_eq_bind, Option.bind_some]
  have hsize : f.layout.size = f.bytes := rfl
  rw [hsize, hpaint]

/-- **A tile decodes to its converted pixels, whatever it holds and whatever follows it.** -/
theorem decodeTile_hextileTile (wild : BitVec 32 → BitVec 8 → BitVec 32) {tile : Rect}
    (hw : tile.w ≤ 16) (hh : tile.h ≤ 16) (k : Carry) (c : Canvas) (rest : List Byte) :
    ∃ k', decodeTile f.layout tile k c (hextileTile G (buildLuts wild f) f fb tile ++ rest)
      = some (overlay tile (shown G (buildLuts wild f) f fb) c, k', rest) := by
  have hs := classify_sound (fb (tile.y * G.width + tile.x))
    ((List.range tile.h).map (tileRow G fb tile.x tile.y tile.w))
  simp only [hextileTile]
  split_ifs with h1 h2 hmaj
  · exact decodeTile_solid G _ f fb (fun px py hp => hs.one h1 _ (mem_tileRows G fb hp)) k c rest
  · exact decodeTile_twoColour G _ f fb hw hh
      (fun px py hp => (hs.two h2 _ (mem_tileRows G fb hp)).symm) k c rest
  · exact decodeTile_twoColour G _ f fb hw hh
      (fun px py hp => hs.two h2 _ (mem_tileRows G fb hp)) k c rest
  · exact ⟨_, decodeTile_raw G f fb wild tile k c rest⟩

/-- **No tile takes more than HT_TILE_MAX bytes.** -/
theorem length_hextileTile_le (wild : BitVec 32 → BitVec 8 → BitVec 32) {tile : Rect}
    (hb : f.bytes ≤ 4) (hw : tile.w ≤ 16) (hh : tile.h ≤ 16) :
    (hextileTile G (buildLuts wild f) f fb tile).length ≤ htTileMax := by
  have hruns : ∀ fg, ((tileRuns G fb fg tile.x tile.y tile.w tile.h).flatMap Run.bytes).length ≤ 256 := by
    intro fg
    have := length_tileRuns_le G fb fg hw hh
    rw [List.length_flatMap]
    simp [Run.bytes]
    omega
  have harea : tile.w * tile.h ≤ 16 * 16 := Nat.mul_le_mul hw hh
  simp only [hextileTile, htTileMax]
  split_ifs with h1 h2 hmaj
  · simp only [List.length_cons, length_emitPx]
    omega
  · have := hruns (fb (tile.y * G.width + tile.x))
    simp only [List.length_cons, List.length_append, length_emitPx]
    omega
  · have := hruns (classify (fb (tile.y * G.width + tile.x))
      ((List.range tile.h).map (tileRow G fb tile.x tile.y tile.w))).c1
    simp only [List.length_cons, List.length_append, length_emitPx]
    omega
  · rw [rawBytes_eq, flatten_tileRows, List.length_cons, List.length_flatMap]
    have hsize : f.layout.size = f.bytes := rfl
    simp only [Layout.length_encode, hsize, List.map_const', List.sum_replicate, List.length_map,
      List.length_flatMap, List.length_range, smul_eq_mul]
    nlinarith

/-! ## The walk over an update -/

/-- `SENDBUF_SZ`. -/
@[irreducible] def sendbufSz : ℕ := 64 * 1024

/-- `HT_RETRY`. -/
def htRetry : ℕ := 32

/-- The steps of `for (v = start; v < stop; v += 16)`, each with `MIN(16, stop - v)`. -/
def stripes (start stop : ℕ) : List (ℕ × ℕ) :=
  if start < stop then (start, min 16 (stop - start)) :: stripes (start + 16) stop else []
  termination_by stop - start

/-- The tiles in the order the two loops of `send_rect_hextile` visit them. -/
def tileWalk (x y w h : ℕ) : List Rect :=
  (stripes y (y + h)).flatMap fun (ty, th) => (stripes x (x + w)).map fun (tx, tw) => ⟨tx, ty, tw, th⟩

/-- Why an update was not sent: `sendbuf` would have been written past its end, or the peer is
gone, or the arguments were refused. -/
inductive Fault where
  | overrun
  | peer
  | refused
deriving DecidableEq

/-- `if (send_all(...)) return -1;` -/
def trySend (out : Outlet) (buf : List Byte) : Except Fault Outlet :=
  if (out.sendAll buf).1 then .ok (out.sendAll buf).2 else .error .peer

/-- The locals of `send_rect_hextile`: what `sendbuf` holds, the bytes sent before, the socket. -/
structure HtState where
  buf : List Byte
  total : ℕ
  out : Outlet

/-- Send what `sendbuf` holds and start it over. -/
def HtState.flush (s : HtState) : Except Fault HtState := do
  let out ← trySend s.out s.buf
  .ok ⟨[], s.total + s.buf.length, out⟩

/-- Flush when the next tile might not fit. -/
def HtState.makeRoom (s : HtState) : Except Fault HtState :=
  if s.buf.length + htTileMax > sendbufSz then s.flush else .ok s

/-- Send the last tiles, if any. -/
def HtState.flushRest (s : HtState) : Except Fault HtState :=
  if s.buf.length ≠ 0 then s.flush else .ok s

/-- Write at `sendbuf + len`. -/
def HtState.put (s : HtState) (enc : List Byte) : Except Fault HtState :=
  if s.buf.length + enc.length > sendbufSz then .error .overrun
  else .ok { s with buf := s.buf ++ enc }

/-- The body of the tile loop. -/
def htTile (s : HtState) (tile : Rect) : Except Fault HtState := do
  let s ← s.makeRoom
  s.put (hextileTile G t f fb tile)

/-- RFB is big-endian on the wire. -/
def be16 (v : BitVec 16) : List Byte := [(v >>> 8).setWidth 8, v.setWidth 8]

def be32 (v : BitVec 32) : List Byte :=
  [(v >>> 24).setWidth 8, (v >>> 16).setWidth 8, (v >>> 8).setWidth 8, v.setWidth 8]

/-- The header of an update with one rectangle, and the rectangle's. -/
def rectHeader (x y w h encoding : ℕ) : List Byte :=
  be16 (BitVec.ofNat 16 x) ++ be16 (BitVec.ofNat 16 y) ++ be16 (BitVec.ofNat 16 w)
    ++ be16 (BitVec.ofNat 16 h) ++ be32 (BitVec.ofNat 32 encoding)

/-- Send one Hextile update; the result is the socket after it and the new `ht_skip`. -/
def sendRectHextile (htSkip : ℕ) (out : Outlet) (x y w h : ℕ) : Except Fault (Outlet × ℕ) := do
  if f.bytes < 1 ∨ f.bytes > 4 ∨ w = 0 ∨ h = 0 then .error .refused
  let out ← trySend out [0, 0, 0, 1]
  let out ← trySend out (rectHeader x y w h 5)
  let s ← (tileWalk x y w h).foldlM (htTile G t f fb) ⟨[], 0, out⟩
  let s ← s.flushRest
  .ok (s.out, if s.total * 8 > w * h * f.bytes * 7 then htRetry else htSkip)

theorem stripes_eq (x w : ℕ) : stripes x (x + w)
    = (List.range ((w + 15) / 16)).map fun i => (x + 16 * i, min 16 (w - 16 * i)) := by
  induction w using Nat.strong_induction_on generalizing x with
  | _ w ih =>
    rw [stripes]
    split_ifs with h
    · rcases Nat.lt_or_ge w 16 with hlt | hge
      · have hone : (w + 15) / 16 = 1 := by omega
        rw [hone, stripes, if_neg (by omega)]
        simp
      · have hstep : stripes (x + 16) (x + w) = stripes (x + 16) (x + 16 + (w - 16)) := by
          congr 1; omega
        have hn : (w + 15) / 16 = (w - 16 + 15) / 16 + 1 := by omega
        rw [hstep, ih (w - 16) (by omega), hn, List.range_succ_eq_map, List.map_cons, List.map_map]
        refine congrArg₂ List.cons (by simp) (List.map_congr_left fun i _ => ?_)
        simp only [Function.comp_apply, Prod.mk.injEq]
        omega
    · obtain rfl : w = 0 := by omega
      rfl

/-- **The loops visit the decoder's tiles in the decoder's order.** -/
theorem tileWalk_eq (x y w h : ℕ) : tileWalk x y w h = tilesOf ⟨x, y, w, h⟩ := by
  simp only [tileWalk, tilesOf, stripes_eq, List.flatMap_map, List.map_map, Function.comp_def]

theorem be16_eq (v : ℕ) : be16 (BitVec.ofNat 16 v) = beBytes 2 v := by
  simp only [be16, beBytes, leBytes, List.reverse_cons, List.reverse_nil, List.nil_append,
    List.singleton_append, List.cons.injEq, and_true]
  constructor <;> refine BitVec.eq_of_toNat_eq ?_ <;>
    simp only [BitVec.toNat_setWidth, BitVec.toNat_ushiftRight, BitVec.toNat_ofNat,
      Nat.shiftRight_eq_div_pow] <;> omega

/-! ## The round trip -/

/-- What a step of the sender may do to a socket: deliver exactly `bs`, or stop at a failed send on a
socket that can fail. -/
def Delivers {α : Type} (out : Outlet) (bs : List Byte) (next : α → Outlet × List Byte)
    (r : Except Fault α) : Prop :=
  match r with
  | .ok a => (next a).1.sent ++ (next a).2 = out.sent ++ bs ∧ (out.Healthy → (next a).1.Healthy)
  | .error e => e = .peer ∧ ¬ out.Healthy

theorem trySend_delivers (out : Outlet) (buf : List Byte) :
    Delivers out buf (fun o => (o, [])) (trySend out buf) := by
  unfold trySend
  split_ifs with h
  · exact ⟨by rw [List.append_nil, Outlet.sendAll_sent h], fun hh => hh.sendAll buf⟩
  · exact ⟨rfl, fun hh => h (Outlet.sendAll_healthy hh buf)⟩

theorem Delivers.bind {α β : Type} {out : Outlet} {bs₀ bs : List Byte} {next : α → Outlet × List Byte}
    {next' : β → Outlet × List Byte} {r : Except Fault α} {k : α → Except Fault β}
    (h : Delivers out bs₀ next r)
    (hk : ∀ a, r = .ok a → Delivers (next a).1 ((next a).2 ++ bs) next' (k a)) :
    Delivers out (bs₀ ++ bs) next' (r >>= k) := by
  cases r with
  | error e => exact h
  | ok a =>
    change Delivers out (bs₀ ++ bs) next' (k a)
    have ha := hk a rfl
    revert ha
    cases k a with
    | error e => exact fun ha => ⟨ha.1, fun hh => ha.2 (h.2 hh)⟩
    | ok b =>
      intro ha
      refine ⟨?_, fun hh => ha.2 (h.2 hh)⟩
      rw [ha.1, ← List.append_assoc, h.1, List.append_assoc]

/-- Where the bytes of an `HtState` stand: on the wire, or in `sendbuf`. -/
def HtState.held (s : HtState) : Outlet × List Byte := (s.out, s.buf)

theorem flush_delivers (s : HtState) : Delivers s.out s.buf HtState.held s.flush := by
  have h : Delivers s.out (s.buf ++ []) HtState.held s.flush :=
    (trySend_delivers s.out s.buf).bind fun o _ => ⟨rfl, id⟩
  rwa [List.append_nil] at h

theorem makeRoom_delivers (s : HtState) : Delivers s.out s.buf HtState.held s.makeRoom := by
  unfold HtState.makeRoom
  by_cases h : s.buf.length + htTileMax > sendbufSz
  · rw [if_pos h]; exact flush_delivers s
  · rw [if_neg h]; exact ⟨rfl, id⟩

theorem flushRest_delivers (s : HtState) : Delivers s.out s.buf HtState.held s.flushRest := by
  unfold HtState.flushRest
  by_cases h : s.buf.length ≠ 0
  · rw [if_pos h]; exact flush_delivers s
  · rw [if_neg h]; exact ⟨rfl, id⟩

theorem buf_of_flush {s s' : HtState} (h : s.flush = .ok s') : s'.buf = [] := by
  rw [HtState.flush] at h
  cases ho : trySend s.out s.buf with
  | error e => rw [ho] at h; exact absurd h (by simp [bind, Except.bind])
  | ok out =>
    rw [ho] at h
    rw [← Except.ok.inj h]

theorem buf_of_flushRest {s s' : HtState} (h : s.flushRest = .ok s') : s'.buf = [] := by
  unfold HtState.flushRest at h
  by_cases h0 : s.buf.length ≠ 0
  · rw [if_pos h0] at h; exact buf_of_flush h
  · rw [if_neg h0] at h
    rw [← Except.ok.inj h]
    exact List.length_eq_zero_iff.mp (not_not.mp h0)

/-- After `makeRoom` a largest tile fits: an empty buffer has room for one. -/
theorem length_makeRoom {s s' : HtState} (h : s.makeRoom = .ok s') :
    s'.buf.length + htTileMax ≤ sendbufSz := by
  unfold HtState.makeRoom at h
  by_cases hfull : s.buf.length + htTileMax > sendbufSz
  · rw [if_pos hfull] at h
    rw [buf_of_flush h]
    simp [htTileMax, sendbufSz]
  · rw [if_neg hfull] at h
    obtain rfl : s = s' := Except.ok.inj h
    omega

/-- **One tile is delivered whole**: flushed before or not, it always fits what is left. -/
theorem htTile_delivers (wild : BitVec 32 → BitVec 8 → BitVec 32) (hb : f.bytes ≤ 4) {tile : Rect}
    (hw : tile.w ≤ 16) (hh : tile.h ≤ 16) (s : HtState) :
    Delivers s.out (s.buf ++ hextileTile G (buildLuts wild f) f fb tile) HtState.held
      (htTile G (buildLuts wild f) f fb s tile) := by
  refine (makeRoom_delivers s).bind fun s' hs' => ?_
  have hlen := length_hextileTile_le G f fb wild hb hw hh
  have hroom := length_makeRoom hs'
  rw [HtState.put, if_neg (by omega)]
  exact ⟨rfl, id⟩

/-- **…and so is every list of tiles.** -/
theorem foldlM_htTile_delivers (wild : BitVec 32 → BitVec 8 → BitVec 32) (hb : f.bytes ≤ 4)
    {tiles : List Rect} (hsmall : ∀ tile ∈ tiles, tile.w ≤ 16 ∧ tile.h ≤ 16) (s : HtState) :
    Delivers s.out (s.buf ++ tiles.flatMap (hextileTile G (buildLuts wild f) f fb)) HtState.held
      (tiles.foldlM (htTile G (buildLuts wild f) f fb) s) := by
  induction tiles generalizing s with
  | nil => exact ⟨by simp [HtState.held], id⟩
  | cons tile tiles ih =>
    obtain ⟨hw, hh⟩ := hsmall tile (by simp)
    rw [List.foldlM_cons, List.flatMap_cons, ← List.append_assoc]
    exact (htTile_delivers G f fb wild hb hw hh s).bind fun s' _ =>
      ih (fun tile ht => hsmall tile (by simp [ht])) s'

/-- **The decoder follows the walk tile by tile.** -/
theorem decodeTiles_hextileTile (wild : BitVec 32 → BitVec 8 → BitVec 32) {tiles : List Rect}
    (hsmall : ∀ tile ∈ tiles, tile.w ≤ 16 ∧ tile.h ≤ 16) (k : Carry) (c : Canvas) :
    decodeTiles f.layout tiles k c (tiles.flatMap (hextileTile G (buildLuts wild f) f fb))
      = some (tiles.foldl (fun c tile => overlay tile (shown G (buildLuts wild f) f fb) c) c, []) := by
  induction tiles generalizing k c with
  | nil => rfl
  | cons tile tiles ih =>
    obtain ⟨hw, hh⟩ := hsmall tile (by simp)
    obtain ⟨k', hk⟩ := decodeTile_hextileTile G f fb wild hw hh k c
      (tiles.flatMap (hextileTile G (buildLuts wild f) f fb))
    rw [List.flatMap_cons, decodeTiles, hk]
    exact ih (fun tile ht => hsmall tile (by simp [ht])) k' _

/-- The bytes of an update: its headers and its tiles. -/
def updateBytes (x y w h : ℕ) : List Byte :=
  [0, 0, 0, 1] ++ (rectHeader x y w h 5 ++ (tileWalk x y w h).flatMap (hextileTile G t f fb))

theorem sendRectHextile_delivers (wild : BitVec 32 → BitVec 8 → BitVec 32) (hb : 1 ≤ f.bytes)
    (hb4 : f.bytes ≤ 4) (htSkip : ℕ) (out : Outlet) {x y w h : ℕ} (hw : 0 < w) (hh : 0 < h) :
    Delivers out (updateBytes G (buildLuts wild f) f fb x y w h) (fun r : Outlet × ℕ => (r.1, []))
      (sendRectHextile G (buildLuts wild f) f fb htSkip out x y w h) := by
  have hsmall : ∀ tile ∈ tileWalk x y w h, tile.w ≤ 16 ∧ tile.h ≤ 16 := by
    intro tile ht
    rw [tileWalk_eq] at ht
    obtain ⟨⟨-, hw16, -, hh16⟩, -⟩ := tile_bounds ht
    exact ⟨hw16, hh16⟩
  unfold sendRectHextile updateBytes
  rw [if_neg (by omega)]
  refine (trySend_delivers out _).bind fun o₁ _ => ?_
  rw [List.nil_append]
  refine (trySend_delivers o₁ _).bind fun o₂ _ => ?_
  have hwalk := foldlM_htTile_delivers G f fb wild hb4 hsmall ⟨[], 0, o₂⟩
  rw [← List.append_nil ([] ++ _)]
  refine Delivers.bind hwalk fun s _ => ?_
  rw [List.append_nil, ← List.append_nil s.held.2]
  refine (flushRest_delivers s).bind fun s' hs' => ?_
  rw [HtState.held, buf_of_flushRest hs']
  exact ⟨rfl, id⟩

/-- **The decoder reads the header back**, the coordinates fitting their 16-bit fields. -/
theorem decodeUpdate_header (l : Layout) (c : Canvas) {x y w h : ℕ} (hx : x < 2 ^ 16)
    (hy : y < 2 ^ 16) (hw : w < 2 ^ 16) (hh : h < 2 ^ 16) (tiles : List Byte) :
    decodeUpdate l c ([0, 0, 0, 1] ++ (rectHeader x y w h 5 ++ tiles))
      = (decodeTiles l (tilesOf ⟨x, y, w, h⟩) ⟨none, none⟩ c tiles).map
          fun r => (⟨x, y, w, h⟩, r.1, r.2) := by
  have hfield : ∀ v < 2 ^ 16, beNat (be16 (BitVec.ofNat 16 v)) = v := fun v hv => by
    rw [be16_eq, beNat_beBytes]; exact Nat.mod_eq_of_lt (by omega)
  have hfx := hfield x hx
  have hfy := hfield y hy
  have hfw := hfield w hw
  have hfh := hfield h hh
  have henc : beNat (be32 (BitVec.ofNat 32 5)) = 5 := by decide
  have hone : beNat [0, 1] = 1 := by decide
  unfold be16 at hfx hfy hfw hfh
  unfold be32 at henc
  unfold decodeUpdate rectHeader be16 be32
  simp only [List.cons_append, List.nil_append, List.take_succ_cons, List.take_zero,
    List.drop_succ_cons, List.drop_zero, List.length_cons, hfx, hfy, hfw, hfh, henc, hone, and_self,
    and_true]
  rw [if_pos (by omega)]

/-- **Hextile round trip of a whole update.**  For every framebuffer, every rectangle on the screen
and every client format of one to four bytes a pixel: no tile exceeds HT_TILE_MAX and `sendbuf` is
never overrun, on any socket; and on a socket that takes the bytes, in pieces of any size, the stream
sent is one update that the decoder consumes to its last byte, painting the rectangle with exactly
the converted pixels. -/
theorem sendRectHextile_roundTrip (wild : BitVec 32 → BitVec 8 → BitVec 32)
    (hb : 1 ≤ f.bytes ∧ f.bytes ≤ 4) {x y w h : ℕ} (hw : 0 < w) (hh : 0 < h)
    (hx : x + w ≤ G.width) (hy : y + h ≤ G.height) (htSkip : ℕ) :
    (∀ tile ∈ tileWalk x y w h,
      (hextileTile G (buildLuts wild f) f fb tile).length ≤ htTileMax) ∧
    (∀ out, sendRectHextile G (buildLuts wild f) f fb htSkip out x y w h ≠ .error .overrun) ∧
    (∀ out : Outlet, out.Healthy → ∃ out' skip stream,
      sendRectHextile G (buildLuts wild f) f fb htSkip out x y w h = .ok (out', skip) ∧
      out'.sent = out.sent ++ stream ∧
      ∀ screen : Canvas, ∃ screen',
        decodeUpdate f.layout screen stream = some (⟨x, y, w, h⟩, screen', []) ∧
        ∀ px py, (⟨x, y, w, h⟩ : Rect).Has px py →
          screen' px py
            = (convertPixel (buildLuts wild f) (fb (G.index px py))).toNat % 256 ^ f.bytes) := by
  have hsmall : ∀ tile ∈ tileWalk x y w h, tile.w ≤ 16 ∧ tile.h ≤ 16 := by
    intro tile ht
    rw [tileWalk_eq] at ht
    obtain ⟨⟨-, hw16, -, hh16⟩, -⟩ := tile_bounds ht
    exact ⟨hw16, hh16⟩
  refine ⟨fun tile ht => ?_, fun out hover => ?_, fun out hout => ?_⟩
  · exact length_hextileTile_le G f fb wild hb.2 (hsmall tile ht).1 (hsmall tile ht).2
  · have hd := sendRectHextile_delivers G f fb wild hb.1 hb.2 htSkip out hw hh (x := x) (y := y)
    rw [hover] at hd
    exact absurd hd.1 (by decide)
  · have hd := sendRectHextile_delivers G f fb wild hb.1 hb.2 htSkip out hw hh (x := x) (y := y)
    cases hr : sendRectHextile G (buildLuts wild f) f fb htSkip out x y w h with
    | error e => rw [hr] at hd; exact absurd hout hd.2
    | ok r =>
      rw [hr] at hd
      refine ⟨r.1, r.2, updateBytes G (buildLuts wild f) f fb x y w h, rfl, ?_, fun screen => ?_⟩
      · simpa using hd.1
      · have hwl := G.width_lt
        have hhl := G.height_lt
        have htiles := decodeTiles_hextileTile G f fb wild hsmall ⟨none, none⟩ screen
        refine ⟨overlay ⟨x, y, w, h⟩ (shown G (buildLuts wild f) f fb) screen, ?_, fun px py hp => ?_⟩
        · rw [updateBytes, decodeUpdate_header _ _ (by omega) (by omega) (by omega) (by omega),
            ← tileWalk_eq, htiles, tileWalk_eq, foldl_overlay_tilesOf]
          rfl
        · rw [overlay, if_pos hp, shown]

/-- A full-width strip of a native-format frame, to a socket that takes every buffer whole. -/
theorem sendRectHextile_roundTrip_strip :
    ∃ out' skip stream,
      sendRectHextile Geometry.default (buildLuts (fun v _ => v) nativeFmt) nativeFmt
        (fun i => BitVec.ofNat 16 (i / 3)) 0 Outlet.whole 0 3 640 17 = .ok (out', skip) ∧
      out'.sent = [] ++ stream ∧
      ∀ screen : Canvas, ∃ screen',
        decodeUpdate nativeFmt.layout screen stream = some (⟨0, 3, 640, 17⟩, screen', []) ∧
        ∀ px py, (⟨0, 3, 640, 17⟩ : Rect).Has px py →
          screen' px py = (convertPixel (buildLuts (fun v _ => v) nativeFmt)
            (BitVec.ofNat 16 (Geometry.default.index px py / 3))).toNat % 256 ^ nativeFmt.bytes :=
  (sendRectHextile_roundTrip Geometry.default nativeFmt (fun i => BitVec.ofNat 16 (i / 3))
    (fun v _ => v) (by decide) (by decide) (by decide) (by decide) (by decide) 0).2.2
    Outlet.whole Outlet.whole_healthy

end KlaussRuntime.Vnc
