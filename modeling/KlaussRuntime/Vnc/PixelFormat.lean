import KlaussRuntime.Machinery.Hextile

/-!
# Vnc/PixelFormat — the client's pixel format and the conversion tables

`vnc_server.c` keeps three tables indexed by the components of an RGB565 pixel and rebuilds them
(`buildLuts`) when the client sets its format; `convertPixel` looks a pixel up and `putPixelBytes`
lays the value out.  When the format is the framebuffer's own, conversion is the identity
(`convertPixel_native`), which is what lets the senders copy rows instead of converting them.
-/

namespace KlaussRuntime.Vnc

open Machinery Machinery.Hextile

/-- RFB's PIXEL_FORMAT, decoded. -/
structure Pixfmt where
  bpp : BitVec 8
  depth : BitVec 8
  bigEndian : BitVec 8
  trueColour : BitVec 8
  redMax : BitVec 16
  greenMax : BitVec 16
  blueMax : BitVec 16
  redShift : BitVec 8
  greenShift : BitVec 8
  blueShift : BitVec 8
deriving DecidableEq

/-- The framebuffer's own format: RGB565, little-endian. -/
def nativeFmt : Pixfmt :=
  { bpp := 16, depth := 16, bigEndian := 0, trueColour := 1, redMax := 31, greenMax := 63,
    blueMax := 31, redShift := 11, greenShift := 5, blueShift := 0 }

/-- `f->bpp / 8`. -/
def Pixfmt.bytes (f : Pixfmt) : ℕ := f.bpp.toNat / 8

/-- `f->big_endian` as a truth value. -/
def Pixfmt.isBig (f : Pixfmt) : Bool := f.bigEndian ≠ 0

/-- The layout the client decodes by. -/
def Pixfmt.layout (f : Pixfmt) : Layout := ⟨f.bytes, f.isBig⟩

/-! ## The tables -/

/-- The conversion tables and the flag that no conversion is needed. -/
structure Luts where
  lutR : ℕ → BitVec 32
  lutG : ℕ → BitVec 32
  lutB : ℕ → BitVec 32
  fmtNative : Bool

/-- A left shift of a `uint32_t`.  C leaves a shift by 32 or more undefined; `wild` is whatever the
compiler made of one. -/
def shl32 (wild : BitVec 32 → BitVec 8 → BitVec 32) (v : BitVec 32) (s : BitVec 8) : BitVec 32 :=
  if s.toNat < 32 then v <<< s.toNat else wild v s

/-- One table entry: an 8-bit component scaled to `0..max`, rounded, and shifted into place. -/
def lutEntry (wild : BitVec 32 → BitVec 8 → BitVec 32) (c8 : BitVec 8) (max : BitVec 16)
    (shift : BitVec 8) : BitVec 32 :=
  shl32 wild ((c8.setWidth 32 * max.setWidth 32 + 127) / 255) shift

/-- A 5-bit component widened to 8 bits. -/
def widen5 (i : ℕ) : BitVec 8 := BitVec.ofNat 8 (i <<< 3 ||| i >>> 2)

/-- A 6-bit component widened to 8 bits. -/
def widen6 (i : ℕ) : BitVec 8 := BitVec.ofNat 8 (i <<< 2 ||| i >>> 4)

def buildLuts (wild : BitVec 32 → BitVec 8 → BitVec 32) (f : Pixfmt) : Luts where
  lutR i := lutEntry wild (widen5 i) f.redMax f.redShift
  lutG i := lutEntry wild (widen6 i) f.greenMax f.greenShift
  lutB i := lutEntry wild (widen5 i) f.blueMax f.blueShift
  fmtNative := f.bpp == 16 && f.bigEndian == 0 && f.redMax == 31 && f.greenMax == 63
    && f.blueMax == 31 && f.redShift == 11 && f.greenShift == 5 && f.blueShift == 0

def convertPixel (t : Luts) (px : BitVec 16) : BitVec 32 :=
  t.lutR (px >>> 11 &&& 0x1F).toNat ||| t.lutG (px >>> 5 &&& 0x3F).toNat
    ||| t.lutB (px &&& 0x1F).toNat

def putPixelBytes (v : BitVec 32) (bytes : ℕ) (bigEndian : Bool) : List Byte :=
  if bigEndian then (List.range bytes).map fun i => (v >>> (8 * (bytes - 1 - i))).setWidth 8
  else (List.range bytes).map fun i => (v >>> (8 * i)).setWidth 8

/-- **`putPixelBytes` writes the client's layout.** -/
theorem putPixelBytes_eq (v : BitVec 32) (bytes : ℕ) (big : Bool) :
    putPixelBytes v bytes big = (⟨bytes, big⟩ : Layout).encode v.toNat := by
  have hbyte : ∀ s, (v >>> s).setWidth 8 = BitVec.ofNat 8 (v.toNat >>> s) := fun s =>
    BitVec.eq_of_toNat_eq (by simp)
  cases big with
  | true => simp only [putPixelBytes, Layout.encode, hbyte, if_true, map_range_beBytes]
  | false =>
    simp only [putPixelBytes, Layout.encode, hbyte, Bool.false_eq_true, if_false,
      map_range_leBytes]

@[simp] theorem length_putPixelBytes (v : BitVec 32) (bytes : ℕ) (big : Bool) :
    (putPixelBytes v bytes big).length = bytes := by rw [putPixelBytes_eq]; simp

/-! ## The native format -/

theorem lutEntry_native5 (wild : BitVec 32 → BitVec 8 → BitVec 32) {i : ℕ} (hi : i < 32)
    {s : BitVec 8} (hs : s = 11 ∨ s = 0) :
    lutEntry wild (widen5 i) 31 s = BitVec.ofNat 32 i <<< s.toNat := by
  have hscale : ∀ i : Fin 32, ((widen5 i).setWidth 32 * (31 : BitVec 16).setWidth 32 + 127) / 255
      = BitVec.ofNat 32 i := by decide
  have hlt : s.toNat < 32 := by rcases hs with rfl | rfl <;> decide
  rw [lutEntry, shl32, if_pos hlt, hscale ⟨i, hi⟩]

theorem lutEntry_native6 (wild : BitVec 32 → BitVec 8 → BitVec 32) {i : ℕ} (hi : i < 64) :
    lutEntry wild (widen6 i) 63 5 = BitVec.ofNat 32 i <<< 5 := by
  have hscale : ∀ i : Fin 64, ((widen6 i).setWidth 32 * (63 : BitVec 16).setWidth 32 + 127) / 255
      = BitVec.ofNat 32 i := by decide
  rw [lutEntry, shl32, if_pos (by decide), hscale ⟨i, hi⟩]
  rfl

theorem fmtNative_iff {wild : BitVec 32 → BitVec 8 → BitVec 32} {f : Pixfmt} :
    (buildLuts wild f).fmtNative = true ↔
      f.bpp = 16 ∧ f.bigEndian = 0 ∧ f.redMax = 31 ∧ f.greenMax = 63 ∧ f.blueMax = 31 ∧
        f.redShift = 11 ∧ f.greenShift = 5 ∧ f.blueShift = 0 := by
  simp [buildLuts, and_assoc]

/-- The three components of a pixel, put back in their places, are the pixel. -/
theorem or_components (px : BitVec 16) :
    BitVec.ofNat 32 (px >>> 11 &&& 0x1F).toNat <<< 11 ||| BitVec.ofNat 32 (px >>> 5 &&& 0x3F).toNat <<< 5
      ||| BitVec.ofNat 32 (px &&& 0x1F).toNat <<< 0 = px.setWidth 32 := by
  simp only [BitVec.ofNat_toNat]
  refine BitVec.eq_of_getLsbD_eq fun i hi => ?_
  interval_cases i <;> simp

/-- **In the native format a pixel converts to itself.** -/
theorem convertPixel_native {wild : BitVec 32 → BitVec 8 → BitVec 32} {f : Pixfmt}
    (h : (buildLuts wild f).fmtNative = true) (px : BitVec 16) :
    convertPixel (buildLuts wild f) px = px.setWidth 32 := by
  obtain ⟨-, -, hr, hg, hb, hrs, hgs, hbs⟩ := fmtNative_iff.mp h
  have h5 : ∀ v : BitVec 16, (v &&& 0x1F).toNat < 32 := fun v => by
    rw [BitVec.toNat_and]; exact Nat.lt_of_le_of_lt Nat.and_le_right (by decide)
  have h6 : (px >>> 5 &&& 0x3F).toNat < 64 := by
    rw [BitVec.toNat_and]; exact Nat.lt_of_le_of_lt Nat.and_le_right (by decide)
  simp only [convertPixel, buildLuts, hr, hg, hb, hrs, hgs, hbs]
  rw [lutEntry_native5 wild (h5 _) (Or.inl rfl), lutEntry_native5 wild (h5 _) (Or.inr rfl),
    lutEntry_native6 wild h6]
  exact or_components px

end KlaussRuntime.Vnc
