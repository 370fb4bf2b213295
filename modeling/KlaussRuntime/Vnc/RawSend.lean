import KlaussRuntime.Vnc.Hextile

/-!
# Vnc/RawSend — the Raw sender and its four ways to the same bytes

`send_rect` sends a header and then the rows of a rectangle.  A full-width rectangle in the framebuffer's own
format goes out straight from memory; otherwise rows are collected in `sendbuf`, as many as fit, and
each batch is sent: copied by the blitter in one go, copied row by row, or converted pixel by pixel.

However the rows are batched, what goes out is the header and the converted pixels, row by row
(`sendRect_delivers`).  A build's rows have to fit `sendbuf`: with a longer one a batch stays empty and the loop
does not end.
-/

namespace KlaussRuntime.Vnc

open Machinery Machinery.Hextile

/-! ## Memory -/

/-- Byte `k` of the array `fb`; pixels are stored little-endian. -/
def fbByte (fb : Pixels) (k : ℕ) : Byte := (fb (k / 2) >>> (8 * (k % 2))).setWidth 8

/-- `n` bytes from pixel `i` on. -/
def fbCopy (fb : Pixels) (i n : ℕ) : List Byte := (List.range n).map fun k => fbByte fb (2 * i + k)

variable (G : Geometry) (t : Luts) (f : Pixfmt) (fb : Pixels)

/-- One row of the staged path: copied when the format is native, else converted pixel by pixel. -/
def stageRow (x y w row : ℕ) : List Byte :=
  if t.fmtNative then fbCopy fb ((y + row) * G.width + x) (w * f.bytes)
  else (tileRow G fb x y w row).flatMap (emitPx t f)

/-- `blit_start_copy` to packed rows: `rows` rows of `w` pixels, each from the stride `FB_WIDTH`. -/
def blitCopy (x y w row rows : ℕ) : List Byte :=
  (List.range rows).flatMap fun j => fbCopy fb ((y + (row + j)) * G.width + x) (w * 2)

/-- `while (row < h && len + row_bytes <= SENDBUF_SZ)`, with `left` rows to go: how many rows were staged, and
what `sendbuf` holds. -/
def stageRows (x y w : ℕ) : ℕ → ℕ → List Byte → ℕ × List Byte
  | 0, row, buf => (row, buf)
  | left + 1, row, buf =>
    if buf.length + w * f.bytes ≤ sendbufSz then
      stageRows x y w left (row + 1) (buf ++ stageRow G t f fb x y w row)
    else (row, buf)

/-- What the build and the board decide: CONFIG_KLAUSSCPU_VNC_ZERO_COPY, and whether there is a blitter for
sending. -/
structure SendConfig where
  zeroCopy : Bool
  sendBlit : Bool

variable (cfg : SendConfig)

/-- One batch, from `row` on: the next row, and what `sendbuf` holds. -/
def batch (x y w h row : ℕ) : ℕ × List Byte :=
  let rows := min (sendbufSz / (w * f.bytes)) (h - row)
  if t.fmtNative && cfg.sendBlit && decide (0 < rows) then (row + rows, blitCopy G fb x y w row rows)
  else stageRows G t f fb x y w (h - row) row []

/-- `while (row < h)`; nothing when it has not ended after that many rounds. -/
def sendRows (x y w h : ℕ) : ℕ → ℕ → Outlet → Option (Except Fault Outlet)
  | 0, row, out => if row < h then none else some (.ok out)
  | rounds + 1, row, out =>
    if row < h then
      let (next, buf) := batch G t f fb cfg x y w h row
      match trySend out buf with
      | .ok out => sendRows x y w h rounds next out
      | .error e => some (.error e)
    else some (.ok out)

def sendRect (rounds : ℕ) (out : Outlet) (x y w h : ℕ) : Option (Except Fault Outlet) :=
  if f.bytes < 1 ∨ f.bytes > 4 ∨ w = 0 ∨ h = 0 then some (.error .refused)
  else
    match (do let out ← trySend out [0, 0, 0, 1]; trySend out (rectHeader x y w h 0)) with
    | .error e => some (.error e)
    | .ok out =>
      if cfg.zeroCopy && t.fmtNative && decide (x = 0) && decide (w = G.width) then
        some (trySend out (fbCopy fb (y * G.width) (h * (w * f.bytes))))
      else sendRows G t f fb cfg x y w h rounds 0 out

/-! ## What should go out -/

/-- The converted pixels of the rows from `row` on. -/
def rowsFrom (x y w row n : ℕ) : List Byte :=
  (List.range n).flatMap fun j => (tileRow G fb x y w (row + j)).flatMap (emitPx t f)

/-- The update: its header, and the converted pixels row by row. -/
def rawBytes (x y w h : ℕ) : List Byte :=
  [0, 0, 0, 1] ++ rectHeader x y w h 0 ++ rowsFrom G t f fb x y w 0 h

variable {G f fb cfg} {wild : BitVec 32 → BitVec 8 → BitVec 32} {x y w h : ℕ}

/-! ## Copies -/

theorem fbCopy_add (fb : Pixels) (i m n : ℕ) : fbCopy fb i (2 * m + n) = fbCopy fb i (2 * m) ++ fbCopy fb (i + m) n := by
  rw [fbCopy, List.range_add, List.map_append, List.map_map]
  refine congrArg₂ _ rfl (List.map_congr_left fun k _ => ?_)
  rw [Function.comp_apply, Nat.mul_add, Nat.add_assoc]

theorem fbCopy_pixels (fb : Pixels) (i w : ℕ) :
    fbCopy fb i (w * 2) = ((List.range w).map fun c => fb (i + c)).flatMap fun px => leBytes 2 px.toNat := by
  induction w with
  | zero => rfl
  | succ w ih =>
    have hpixel : fbCopy fb (i + w) 2 = leBytes 2 (fb (i + w)).toNat := by
      have hlow : fbByte fb (2 * (i + w) + 0) = BitVec.ofNat 8 (fb (i + w)).toNat := by
        rw [fbByte, Nat.add_zero, Nat.mul_div_cancel_left _ (by decide), Nat.mul_mod_right]
        exact BitVec.eq_of_toNat_eq (by simp)
      have hhigh : fbByte fb (2 * (i + w) + 1) = BitVec.ofNat 8 ((fb (i + w)).toNat / 256) := by
        rw [fbByte, Nat.mul_add_div (by decide), Nat.mul_add_mod]
        exact BitVec.eq_of_toNat_eq (by simp [Nat.shiftRight_eq_div_pow])
      exact congrArg₂ (fun a b => [a, b]) hlow hhigh
    rw [Nat.succ_mul, Nat.mul_comm w 2, fbCopy_add, Nat.mul_comm 2 w, ih, hpixel, List.range_succ, List.map_append,
      List.flatMap_append, List.map_singleton, List.flatMap_singleton]

/-- **A copied row is the row converted** when the format is the framebuffer's. -/
theorem fbCopy_row (hnative : (buildLuts wild f).fmtNative = true) (x y w row : ℕ) :
    fbCopy fb ((y + row) * G.width + x) (w * 2) = (tileRow G fb x y w row).flatMap (emitPx (buildLuts wild f) f) := by
  rw [fbCopy_pixels, tileRow]
  exact List.flatMap_congr fun px _ => copyRow_eq f hnative px

theorem bytes_of_native (hnative : (buildLuts wild f).fmtNative = true) : f.bytes = 2 := by
  rw [Pixfmt.bytes, (fmtNative_iff.mp hnative).1]
  rfl

theorem stageRow_eq (wild : BitVec 32 → BitVec 8 → BitVec 32) (x y w row : ℕ) :
    stageRow G (buildLuts wild f) f fb x y w row = (tileRow G fb x y w row).flatMap (emitPx (buildLuts wild f) f) := by
  rw [stageRow]
  split_ifs with hnative
  · rw [bytes_of_native hnative]
    exact fbCopy_row hnative x y w row
  · rfl

theorem rowsFrom_add (t : Luts) (x y w row m n : ℕ) :
    rowsFrom G t f fb x y w row (m + n) = rowsFrom G t f fb x y w row m ++ rowsFrom G t f fb x y w (row + m) n := by
  simp only [rowsFrom, List.range_add, List.flatMap_append, List.flatMap_map, Nat.add_assoc]

theorem rowsFrom_one (t : Luts) (x y w row : ℕ) :
    rowsFrom G t f fb x y w row 1 = (tileRow G fb x y w row).flatMap (emitPx t f) := by
  simp [rowsFrom]

theorem length_rowsFrom (t : Luts) (x y w row n : ℕ) : (rowsFrom G t f fb x y w row n).length = w * n * f.bytes := by
  simp [rowsFrom, List.length_flatMap, length_tileRow]
  ring

/-- **The blitter's rows.** -/
theorem blitCopy_eq (hnative : (buildLuts wild f).fmtNative = true) (x y w row n : ℕ) :
    blitCopy G fb x y w row n = rowsFrom G (buildLuts wild f) f fb x y w row n :=
  List.flatMap_congr fun j _ => fbCopy_row hnative x y w (row + j)

/-- **A full-width rectangle is one block.** -/
theorem fbCopy_block (hnative : (buildLuts wild f).fmtNative = true) (y h : ℕ) :
    fbCopy fb (y * G.width) (h * (G.width * 2)) = rowsFrom G (buildLuts wild f) f fb 0 y G.width 0 h := by
  induction h with
  | zero => rw [Nat.zero_mul]; rfl
  | succ h ih =>
    have hsize : (h + 1) * (G.width * 2) = 2 * (h * G.width) + G.width * 2 := by ring
    have hblock : 2 * (h * G.width) = h * (G.width * 2) := by ring
    have hnext : y * G.width + h * G.width = (y + h) * G.width + 0 := by ring
    rw [hsize, fbCopy_add, hblock, ih, hnext, fbCopy_row hnative, rowsFrom_add, rowsFrom_one, Nat.zero_add]

/-! ## Batches -/

/-- **Staging takes whole rows**, and at least one when one fits. -/
theorem stageRows_spec (wild : BitVec 32 → BitVec 8 → BitVec 32) (x y w left row : ℕ) (buf : List Byte) :
    ∃ n ≤ left, stageRows G (buildLuts wild f) f fb x y w left row buf
        = (row + n, buf ++ rowsFrom G (buildLuts wild f) f fb x y w row n) ∧
      (0 < left → buf.length + w * f.bytes ≤ sendbufSz → 0 < n) := by
  induction left generalizing row buf with
  | zero => exact ⟨0, le_rfl, by simp [stageRows, rowsFrom], fun hleft => absurd hleft (lt_irrefl 0)⟩
  | succ left ih =>
    rw [stageRows]
    split_ifs with hroom
    · obtain ⟨n, hn, heq, -⟩ := ih (row + 1) (buf ++ stageRow G (buildLuts wild f) f fb x y w row)
      refine ⟨1 + n, by omega, ?_, fun _ _ => by omega⟩
      rw [heq, rowsFrom_add, rowsFrom_one, stageRow_eq, List.append_assoc, Nat.add_assoc]
    · exact ⟨0, Nat.zero_le _, by simp [rowsFrom], fun _ hfits => absurd hfits hroom⟩

/-- **A batch is some of the rows to go.** -/
theorem batch_spec (wild : BitVec 32 → BitVec 8 → BitVec 32) (cfg : SendConfig) {row : ℕ} (hrow : row < h)
    (hfits : w * f.bytes ≤ sendbufSz) (x y : ℕ) :
    ∃ n, 0 < n ∧ n ≤ h - row ∧ batch G (buildLuts wild f) f fb cfg x y w h row
      = (row + n, rowsFrom G (buildLuts wild f) f fb x y w row n) := by
  rw [batch]
  split_ifs with hblit
  · rw [Bool.and_eq_true, Bool.and_eq_true, decide_eq_true_iff] at hblit
    exact ⟨_, hblit.2, min_le_right _ _, by rw [blitCopy_eq hblit.1.1]⟩
  · obtain ⟨n, hn, heq, hpos⟩ := @stageRows_spec G f fb wild x y w (h - row) row []
    refine ⟨n, hpos (by omega) (by simpa using hfits), hn, ?_⟩
    rw [heq, List.nil_append]

/-- **The rows are delivered**, a batch at a time. -/
theorem sendRows_delivers (wild : BitVec 32 → BitVec 8 → BitVec 32) (cfg : SendConfig)
    (hfits : w * f.bytes ≤ sendbufSz) (x y : ℕ) {rounds row : ℕ} (hrounds : h - row ≤ rounds) (out : Outlet) :
    ∃ r, sendRows G (buildLuts wild f) f fb cfg x y w h rounds row out = some r ∧
      Delivers out (rowsFrom G (buildLuts wild f) f fb x y w row (h - row)) (fun o => (o, [])) r := by
  induction rounds generalizing row out with
  | zero =>
    rw [sendRows, if_neg (by omega), Nat.le_zero.mp hrounds]
    exact ⟨_, rfl, by simp [rowsFrom], id⟩
  | succ rounds ih =>
    rw [sendRows]
    split_ifs with hrow
    · obtain ⟨n, hpos, hn, heq⟩ := @batch_spec G f fb w h wild cfg row hrow hfits x y
      have hsplit : h - row = n + (h - (row + n)) := by omega
      have hsend := trySend_delivers out (rowsFrom G (buildLuts wild f) f fb x y w row n)
      rw [heq, hsplit, rowsFrom_add]
      dsimp only
      cases htry : trySend out (rowsFrom G (buildLuts wild f) f fb x y w row n) with
      | error e =>
        rw [htry] at hsend
        exact ⟨_, rfl, hsend⟩
      | ok out' =>
        rw [htry] at hsend
        obtain ⟨r, hr, hdelivers⟩ := ih (show h - (row + n) ≤ rounds by omega) out'
        refine ⟨r, hr, ?_⟩
        exact hsend.bind (r := .ok out') (k := fun _ => r) fun a ha => by
          obtain rfl := Except.ok.inj ha
          exact hdelivers
    · rw [Nat.sub_eq_zero_of_le (not_lt.mp hrow)]
      exact ⟨_, rfl, by simp [rowsFrom], id⟩

/-- **All Raw send paths emit the same bytes.** -/
structure SendsRaw (G : Geometry) (f : Pixfmt) (fb : Pixels) (wild : BitVec 32 → BitVec 8 → BitVec 32)
    (x y w h : ℕ) : Prop where
  /-- every configuration ends, and delivers the update or stops at a peer that is gone -/
  sends : ∀ cfg rounds out, h ≤ rounds → ∃ r, sendRect G (buildLuts wild f) f fb cfg rounds out x y w h = some r ∧
    Delivers out (rawBytes G (buildLuts wild f) f fb x y w h) (fun o => (o, [])) r
  header : ([0, 0, 0, 1] ++ rectHeader x y w h 0).length = 16
  length : (rowsFrom G (buildLuts wild f) f fb x y w 0 h).length = w * h * f.bytes
  /-- in the framebuffer's own format: the blitter, the rows copied and the block sent from memory -/
  blitted : (buildLuts wild f).fmtNative = true →
    blitCopy G fb x y w 0 h = rowsFrom G (buildLuts wild f) f fb x y w 0 h
  copied : (buildLuts wild f).fmtNative = true →
    ((List.range h).flatMap fun j => fbCopy fb ((y + j) * G.width + x) (w * f.bytes))
      = rowsFrom G (buildLuts wild f) f fb x y w 0 h
  zeroCopied : (buildLuts wild f).fmtNative = true → x = 0 → w = G.width →
    fbCopy fb (y * G.width) (h * (w * f.bytes)) = rowsFrom G (buildLuts wild f) f fb x y w 0 h

/-- **The Raw sender**, in any build whose rows fit `sendbuf`, for every rectangle of the screen. -/
theorem sendRect_delivers (wild : BitVec 32 → BitVec 8 → BitVec 32) (fb : Pixels) (hrows : 4 * G.width ≤ sendbufSz)
    (hb : 1 ≤ f.bytes) (hb4 : f.bytes ≤ 4) (hw : 0 < w) (hh : 0 < h) (hx : x + w ≤ G.width) (y : ℕ) :
    SendsRaw G f fb wild x y w h := by
  have hfits : w * f.bytes ≤ sendbufSz :=
    (Nat.mul_le_mul (show w ≤ G.width by omega) hb4).trans (Nat.mul_comm 4 G.width ▸ hrows)
  have hzero : (buildLuts wild f).fmtNative = true → x = 0 → w = G.width →
      fbCopy fb (y * G.width) (h * (w * f.bytes)) = rowsFrom G (buildLuts wild f) f fb x y w 0 h := by
    rintro hnative rfl rfl
    rw [bytes_of_native hnative]
    exact fbCopy_block hnative y h
  refine ⟨fun cfg rounds out hrounds => ?_, rfl, length_rowsFrom _ x y w 0 h, fun hnative => blitCopy_eq hnative x y w 0 h,
    fun hnative => ?_, hzero⟩
  · have hheader : Delivers out ([0, 0, 0, 1] ++ rectHeader x y w h 0) (fun o => (o, []))
        (do let out ← trySend out [0, 0, 0, 1]; trySend out (rectHeader x y w h 0)) :=
      (trySend_delivers out [0, 0, 0, 1]).bind fun o _ => trySend_delivers o _
    rw [sendRect, if_neg (by omega)]
    cases htry : (do let out ← trySend out [0, 0, 0, 1]; trySend out (rectHeader x y w h 0)) with
    | error e =>
      rw [htry] at hheader
      exact ⟨_, rfl, hheader⟩
    | ok out' =>
      rw [htry] at hheader
      -- the rows are sent after the header, in one of two ways
      have hrest : ∀ {r}, Delivers out' (rowsFrom G (buildLuts wild f) f fb x y w 0 h) (fun o => (o, [])) r →
          Delivers out (rawBytes G (buildLuts wild f) f fb x y w h) (fun o => (o, [])) r := fun {r} hr =>
        hheader.bind (r := .ok out') (k := fun _ => r) fun a ha => by
          obtain rfl := Except.ok.inj ha
          exact hr
      dsimp only
      split_ifs with hblock
      · simp only [Bool.and_eq_true, decide_eq_true_iff] at hblock
        rw [hzero hblock.1.1.2 hblock.1.2 hblock.2]
        exact ⟨_, rfl, hrest (trySend_delivers out' _)⟩
      · obtain ⟨r, hr, hdelivers⟩ := @sendRows_delivers G f fb w h wild cfg hfits x y rounds 0 hrounds out'
        exact ⟨r, hr, hrest hdelivers⟩
  · rw [bytes_of_native hnative]
    refine List.flatMap_congr fun j _ => ?_
    rw [fbCopy_row hnative, Nat.zero_add]

/-- A rectangle of the default build, in 32-bit pixels, big-endian. -/
theorem sendRect_delivers_default : 4 * Geometry.default.width ≤ sendbufSz ∧
    SendsRaw .default { nativeFmt with bpp := 32, bigEndian := 1 } (fun i => BitVec.ofNat 16 i) (fun _ _ => 0)
      2 4 10 3 := by
  have hrows : 4 * Geometry.default.width ≤ sendbufSz := by
    rw [sendbufSz]
    decide
  exact ⟨hrows, sendRect_delivers _ _ hrows (by decide) (by decide) (by decide) (by decide) (by decide) 4⟩

end KlaussRuntime.Vnc
