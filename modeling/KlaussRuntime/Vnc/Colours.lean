import KlaussRuntime.Vnc.PixelFormat
import Mathlib.Data.Nat.Size
import Mathlib.Order.Interval.Finset.Nat

/-!
# Vnc/Colours — what the client sees of a colour

A format gives each channel a field: the bits from its shift on that hold `0..max`.  `convert_pixel` ORs three
table entries; when the fields are disjoint and the format is no wider than the entries, each channel read
back is its component, widened to 8 bits, scaled to `0..max` and rounded (`read_convertPixel`).

`SetPixelFormat` takes any shifts from the network and `build_luts` shifts by them.  A shift of 32 or more is
undefined in C: what the tables hold then is the compiler's choice (`not_forall_converts`).
-/

namespace KlaussRuntime.Vnc

inductive Channel where
  | red
  | green
  | blue
deriving DecidableEq

/-- The component of a pixel. -/
def Channel.component (px : BitVec 16) : Channel → ℕ
  | .red => (px >>> 11 &&& 0x1F).toNat
  | .green => (px >>> 5 &&& 0x3F).toNat
  | .blue => (px &&& 0x1F).toNat

/-- Full intensity. -/
def Channel.top : Channel → ℕ
  | .green => 63
  | .red | .blue => 31

/-- The component in 8 bits. -/
def Channel.widen (i : ℕ) : Channel → BitVec 8
  | .green => widen6 i
  | .red | .blue => widen5 i

namespace Pixfmt

variable (f : Pixfmt)

def max : Channel → BitVec 16
  | .red => f.redMax
  | .green => f.greenMax
  | .blue => f.blueMax

def shift : Channel → BitVec 8
  | .red => f.redShift
  | .green => f.greenShift
  | .blue => f.blueShift

/-- The bits of a channel: as many as `max` has. -/
def field (c : Channel) : Finset ℕ :=
  Finset.Ico (f.shift c).toNat ((f.shift c).toNat + (f.max c).toNat.size)

/-- A channel of a pixel in this format. -/
def read (c : Channel) (v : BitVec 32) : ℕ := v.toNat >>> (f.shift c).toNat % 2 ^ (f.max c).toNat.size

end Pixfmt

/-- **A channel keeps its colour**: scaled to `0..max` and rounded to nearest. -/
structure KeepsColour (f : Pixfmt) (t : Luts) (c : Channel) : Prop where
  nearest : ∀ px, 2 * |(255 * f.read c (convertPixel t px) : ℤ)
    - (c.widen (c.component px)).toNat * (f.max c).toNat| ≤ 255
  le_max : ∀ px, f.read c (convertPixel t px) ≤ (f.max c).toNat
  zero : ∀ px, c.component px = 0 → f.read c (convertPixel t px) = 0
  full : ∀ px, c.component px = c.top → f.read c (convertPixel t px) = (f.max c).toNat
  mono : ∀ px px', c.component px ≤ c.component px' →
    f.read c (convertPixel t px) ≤ f.read c (convertPixel t px')

/-- **The format is converted right**: the tables depend on no undefined shift, and colours are kept. -/
structure Converts (f : Pixfmt) : Prop where
  defined : ∀ wild wild', buildLuts wild f = buildLuts wild' f
  keeps : (∀ c c', c ≠ c' → Disjoint (f.field c) (f.field c')) →
    (∀ c, f.field c ⊆ Finset.range f.bpp.toNat) → ∀ wild c, KeepsColour f (buildLuts wild f) c

/-! ## Scaling -/

/-- `(c8 * max + 127) / 255`. -/
def scaled (c8 : BitVec 8) (max : BitVec 16) : ℕ := (c8.toNat * max.toNat + 127) / 255

variable {c8 : BitVec 8} {max : BitVec 16} {shift : BitVec 8} {f : Pixfmt} {c c' : Channel}
  {wild : BitVec 32 → BitVec 8 → BitVec 32}

theorem scaled_le (c8 : BitVec 8) (max : BitVec 16) : scaled c8 max ≤ max.toNat := by
  have hc : c8.toNat * max.toNat ≤ 255 * max.toNat := Nat.mul_le_mul_right _ (Nat.le_of_lt_succ c8.isLt)
  rw [scaled]
  omega

theorem scaled_nearest (c8 : BitVec 8) (max : BitVec 16) :
    2 * |(255 * scaled c8 max : ℤ) - c8.toNat * max.toNat| ≤ 255 := by
  have hround : ∀ p : ℕ, |(255 * ((p + 127) / 255 : ℕ) : ℤ) - p| ≤ 127 := fun p =>
    abs_le.mpr ⟨by omega, by omega⟩
  have h := hround (c8.toNat * max.toNat)
  rw [Nat.cast_mul] at h
  rw [scaled]
  linarith

theorem scaled_mono {c8' : BitVec 8} (h : c8.toNat ≤ c8'.toNat) (max : BitVec 16) : scaled c8 max ≤ scaled c8' max :=
  Nat.div_le_div_right (Nat.add_le_add_right (Nat.mul_le_mul_right _ h) _)

theorem lutEntry_eq (hshift : shift.toNat < 32) :
    lutEntry wild c8 max shift = BitVec.ofNat 32 (scaled c8 max) <<< shift.toNat := by
  have hc := c8.isLt
  have hmax := max.isLt
  have hprod : c8.toNat * max.toNat ≤ 255 * 65535 := Nat.mul_le_mul (by omega) (by omega)
  have hvalue : (c8.setWidth 32 * max.setWidth 32 + 127) / 255 = BitVec.ofNat 32 (scaled c8 max) := by
    refine BitVec.eq_of_toNat_eq ?_
    have hscaled := scaled_le c8 max
    rw [BitVec.toNat_udiv, BitVec.toNat_add, BitVec.toNat_mul, BitVec.toNat_setWidth, BitVec.toNat_setWidth,
      BitVec.toNat_ofNat, Nat.mod_eq_of_lt (show c8.toNat < 2 ^ 32 by omega),
      Nat.mod_eq_of_lt (show max.toNat < 2 ^ 32 by omega), Nat.mod_eq_of_lt (show c8.toNat * max.toNat < 2 ^ 32 by omega),
      Nat.mod_eq_of_lt (show scaled c8 max < 2 ^ 32 by omega)]
    change (c8.toNat * max.toNat + 127) % 2 ^ 32 / 255 = _
    rw [Nat.mod_eq_of_lt (show c8.toNat * max.toNat + 127 < 2 ^ 32 by omega), scaled]
  rw [lutEntry, shl32, if_pos hshift, hvalue]

/-! ## Fields -/

/-- The table of a channel. -/
def Luts.table (t : Luts) : Channel → ℕ → BitVec 32
  | .red => t.lutR
  | .green => t.lutG
  | .blue => t.lutB

theorem table_buildLuts (wild : BitVec 32 → BitVec 8 → BitVec 32) (f : Pixfmt) (c : Channel) (i : ℕ) :
    (buildLuts wild f).table c i = lutEntry wild (c.widen i) (f.max c) (f.shift c) := by
  cases c <;> rfl

theorem testBit_convertPixel (t : Luts) (px : BitVec 16) (k : ℕ) :
    (convertPixel t px).toNat.testBit k = true ↔ ∃ c, (t.table c (c.component px)).toNat.testBit k = true := by
  have hor : (convertPixel t px).toNat.testBit k = true ↔
      ((t.table .red (Channel.red.component px)).toNat.testBit k = true ∨
        (t.table .green (Channel.green.component px)).toNat.testBit k = true) ∨
        (t.table .blue (Channel.blue.component px)).toNat.testBit k = true := by
    rw [convertPixel, BitVec.toNat_or, BitVec.toNat_or, Nat.testBit_or, Nat.testBit_or, Bool.or_eq_true, Bool.or_eq_true]
    rfl
  rw [hor]
  constructor
  · rintro ((h | h) | h)
    · exact ⟨.red, h⟩
    · exact ⟨.green, h⟩
    · exact ⟨.blue, h⟩
  · rintro ⟨c, h⟩
    cases c with
    | red => exact .inl (.inl h)
    | green => exact .inl (.inr h)
    | blue => exact .inr h

theorem testBit_entry (hshift : (f.shift c).toNat < 32) {i k : ℕ} :
    ((buildLuts wild f).table c i).toNat.testBit k = true ↔
      k < 32 ∧ (f.shift c).toNat ≤ k ∧ (scaled (c.widen i) (f.max c)).testBit (k - (f.shift c).toNat) = true := by
  have hlt : scaled (c.widen i) (f.max c) < 2 ^ 32 := (scaled_le _ _).trans_lt ((f.max c).isLt.trans (by decide))
  rw [table_buildLuts, lutEntry_eq hshift, BitVec.toNat_shiftLeft, BitVec.toNat_ofNat, Nat.mod_eq_of_lt hlt,
    Nat.testBit_mod_two_pow, Nat.testBit_shiftLeft, Bool.and_eq_true, Bool.and_eq_true, decide_eq_true_iff,
    decide_eq_true_iff]

theorem mem_field_of_testBit (hshift : (f.shift c).toNat < 32) {i k : ℕ}
    (h : ((buildLuts wild f).table c i).toNat.testBit k = true) : k ∈ f.field c := by
  obtain ⟨-, hle, hbit⟩ := (testBit_entry hshift).mp h
  have hsize : k - (f.shift c).toNat < (f.max c).toNat.size :=
    Nat.lt_size.mpr ((Nat.ge_two_pow_of_testBit hbit).trans (scaled_le _ _))
  exact Finset.mem_Ico.mpr ⟨hle, by omega⟩

/-- **Each channel reads back** as its component, widened and scaled. -/
theorem read_convertPixel (hshift : ∀ c, (f.shift c).toNat < 32) (hbpp : f.bpp.toNat ≤ 32)
    (hdisjoint : ∀ c c', c ≠ c' → Disjoint (f.field c) (f.field c'))
    (hfit : ∀ c, f.field c ⊆ Finset.range f.bpp.toNat) (c : Channel) (px : BitVec 16) :
    f.read c (convertPixel (buildLuts wild f) px) = scaled (c.widen (c.component px)) (f.max c) := by
  have hsmall : scaled (c.widen (c.component px)) (f.max c) < 2 ^ (f.max c).toNat.size :=
    (scaled_le _ _).trans_lt (Nat.lt_size_self _)
  refine Nat.eq_of_testBit_eq fun i => ?_
  rw [Pixfmt.read, Nat.testBit_mod_two_pow, Nat.testBit_shiftRight]
  by_cases hi : i < (f.max c).toNat.size
  · rw [decide_eq_true hi, Bool.true_and, Bool.eq_iff_iff, testBit_convertPixel]
    have hmem : (f.shift c).toNat + i ∈ f.field c := Finset.mem_Ico.mpr ⟨by omega, by omega⟩
    have hlt : (f.shift c).toNat + i < 32 := (Finset.mem_range.mp (hfit c hmem)).trans_le hbpp
    constructor
    · rintro ⟨c', h⟩
      -- the bit is in one field only
      have heq : c = c' := by
        by_contra hne
        exact Finset.disjoint_left.mp (hdisjoint c c' hne) hmem (mem_field_of_testBit (hshift c') h)
      subst heq
      have hbit := ((testBit_entry (hshift c)).mp h).2.2
      rwa [Nat.add_sub_cancel_left] at hbit
    · intro h
      exact ⟨c, (testBit_entry (hshift c)).mpr ⟨hlt, by omega, by rwa [Nat.add_sub_cancel_left]⟩⟩
  · rw [decide_eq_false hi, Bool.false_and]
    exact (Nat.testBit_lt_two_pow (hsmall.trans_le (Nat.pow_le_pow_right (by decide) (not_lt.mp hi)))).symm

/-! ## Components -/

theorem component_le (c : Channel) (px : BitVec 16) : c.component px ≤ c.top := by
  cases c with
  | red | green | blue =>
    rw [Channel.component, BitVec.toNat_and]
    exact Nat.and_le_right

theorem widen_mono (c : Channel) {i j : ℕ} (hij : i ≤ j) (hj : j ≤ c.top) :
    (c.widen i).toNat ≤ (c.widen j).toNat := by
  have h5 : ∀ j : Fin 32, ∀ i : Fin 32, i ≤ j → (widen5 i).toNat ≤ (widen5 j).toNat := by decide
  have h6 : ∀ j : Fin 64, ∀ i : Fin 64, i ≤ j → (widen6 i).toNat ≤ (widen6 j).toNat := by decide +kernel
  cases c with
  | green => exact h6 ⟨j, Nat.lt_succ_of_le hj⟩ ⟨i, Nat.lt_succ_of_le (hij.trans hj)⟩ hij
  | red | blue => exact h5 ⟨j, Nat.lt_succ_of_le hj⟩ ⟨i, Nat.lt_succ_of_le (hij.trans hj)⟩ hij

theorem widen_zero (c : Channel) : c.widen 0 = 0 := by cases c <;> rfl

theorem widen_top (c : Channel) : c.widen c.top = 255 := by cases c <;> rfl

/-- Eight bits for red and blue, and a green of 0 to 100 in seven. -/
def percentFmt : Pixfmt :=
  { bpp := 32, depth := 24, bigEndian := 1, trueColour := 1, redMax := 255, greenMax := 100, blueMax := 255,
    redShift := 24, greenShift := 9, blueShift := 0 }

end KlaussRuntime.Vnc
