import KlaussRuntime.Machinery.Bytes
import KlaussRuntime.Machinery.Runs

/-!
# Machinery/Copying — copying from one memory into another, access by access

A copy routine loads from a source memory, which it does not change, and stores into a target memory;
each access is of one width at one address and is written down.  `Copied m s d k F b b'` says how far
a copy has come: from `b` to `b'` the first `k` bytes at `s` have arrived at `d`, no other byte has
changed, and every access made meets `F`.  A load keeps it (`Copied.load`), and a store of `w` bytes
that spell the next `w` bytes of the source takes it from `k` to `k + w` (`Copied.store`), so a loop's
invariant is `Copied` at the loop's own counter.

Addresses are 64-bit and wrap round.
-/

namespace Machinery.Copying

abbrev Addr := BitVec 64

/-- `p + i`. -/
def off (p : Addr) (i : ℕ) : Addr := p + BitVec.ofNat 64 i

inductive Side where
  | source
  | target
  deriving DecidableEq, Repr

structure Access where
  side : Side
  addr : Addr
  width : ℕ
  deriving DecidableEq, Repr

structure Bus where
  target : Addr → Byte
  /-- The accesses so far, oldest first. -/
  log : List Access

/-- Byte `j` of a word, least significant first. -/
def byteOf {w : ℕ} (x : BitVec w) (j : ℕ) : Byte := (x >>> (8 * j)).setWidth 8

/-- The little-endian word of `w` bytes at `a`. -/
def wordAt (m : Addr → Byte) (w : ℕ) (a : Addr) : BitVec (8 * w) :=
  BitVec.ofNat _ (leNat ((List.range w).map fun j => m (off a j)))

def load (m : Addr → Byte) (w : ℕ) (a : Addr) : Prog Bus (BitVec (8 * w)) := do
  modify fun b => { b with log := b.log ++ [⟨.source, a, w⟩] }
  return wordAt m w a

def store {v : ℕ} (w : ℕ) (a : Addr) (x : BitVec v) : Prog Bus Unit :=
  modify fun b =>
    { target := fun y => if (y - a).toNat < w then byteOf x (y - a).toNat else b.target y
      log := b.log ++ [⟨.target, a, w⟩] }

/-! ## Addresses -/

@[simp] theorem off_zero (p : Addr) : off p 0 = p := by simp [off]

theorem off_off (p : Addr) (i j : ℕ) : off (off p i) j = off p (i + j) := by
  rw [off, off, off, BitVec.ofNat_add, BitVec.add_assoc]

theorem off_add_one (p : Addr) (i : ℕ) : off p i + 1 = off p (i + 1) := off_off p i 1

theorem off_sub_toNat (p y : Addr) : off p (y - p).toNat = y := by
  rw [off, BitVec.ofNat_toNat, BitVec.setWidth_eq]
  bv_omega

theorem toNat_off_sub (p : Addr) {i : ℕ} (h : i < 2 ^ 64) : (off p i - p).toNat = i := by
  rw [off]
  bv_omega

theorem toNat_sub_off (p y : Addr) {k : ℕ} (h : k ≤ (y - p).toNat) :
    (y - off p k).toNat = (y - p).toNat - k := by
  have := (y - p).isLt
  rw [off]
  bv_omega

theorem toNat_sub_off_of_lt (p y : Addr) {k : ℕ} (h : (y - p).toNat < k) (hk : k ≤ 2 ^ 64) :
    2 ^ 64 - k ≤ (y - off p k).toNat := by
  rw [off]
  bv_omega

/-! ## Words and their bytes -/

theorem byteOf_ofNat {w v : ℕ} (h : v < 2 ^ w) (j : ℕ) :
    byteOf (BitVec.ofNat w v) j = BitVec.ofNat 8 (v >>> (8 * j)) := by
  refine BitVec.eq_of_toNat_eq ?_
  rw [byteOf, BitVec.toNat_setWidth, BitVec.toNat_ushiftRight, BitVec.toNat_ofNat,
    BitVec.toNat_ofNat, Nat.mod_eq_of_lt h]

/-- **The bytes of a loaded word** are the bytes at its address. -/
theorem byteOf_wordAt (m : Addr → Byte) {w j : ℕ} (a : Addr) (h : j < w) :
    byteOf (wordAt m w a) j = m (off a j) := by
  set bs := (List.range w).map fun j => m (off a j) with hbs
  have hlen : bs.length = w := by rw [hbs, List.length_map, List.length_range]
  have hlt : leNat bs < 2 ^ (8 * w) := by
    have := leNat_lt bs
    rwa [hlen, show (256 : ℕ) = 2 ^ 8 from rfl, ← pow_mul] at this
  have hbytes : (List.range w).map (fun i => BitVec.ofNat 8 (leNat bs >>> (8 * i))) = bs := by
    rw [map_range_leBytes]
    exact hlen ▸ leBytes_leNat bs
  rw [wordAt, ← hbs, byteOf_ofNat hlt]
  have hget := congrArg (fun l => l[j]?) hbytes
  simpa only [hbs, List.getElem?_map, List.getElem?_range h, Option.map_some, Option.some.injEq]
    using hget

/-- **Two words merged by shifts**: the bytes of `lo` from the `k`-th on, then the first `k` of `hi`. -/
theorem byteOf_merge (lo hi : BitVec 64) {j k : ℕ} (hj : j < 8) (hk : 0 < k) (hk8 : k < 8) :
    byteOf (lo >>> (8 * k) ||| hi <<< (64 - 8 * k)) j
      = if j + k < 8 then byteOf lo (j + k) else byteOf hi (j + k - 8) := by
  refine BitVec.eq_of_getLsbD_eq fun i hi8 => ?_
  split_ifs with h
  · have hcut : 8 * j + i < 64 - 8 * k := by omega
    simp [byteOf, hi8, hcut, show 8 * k + (8 * j + i) = 8 * (j + k) + i by ring]
  · have hcut : ¬ 8 * j + i < 64 - 8 * k := by omega
    have hge : 64 ≤ 8 * k + (8 * j + i) := by omega
    simp [byteOf, hi8, hcut, BitVec.getLsbD_of_ge lo _ hge, BitVec.getLsbD_eq_getElem,
      show 8 * j + i < 64 by omega, show 8 * j + i - (64 - 8 * k) = 8 * (j + k - 8) + i by omega,
      show 8 * (j + k - 8) + i < 64 by omega]

/-! ## How far a copy has come -/

structure Copied (m : Addr → Byte) (s d : Addr) (k : ℕ) (F : Access → Prop) (b b' : Bus) : Prop where
  bytes : ∀ y, b'.target y = if (y - d).toNat < k then m (off s (y - d).toNat) else b.target y
  log : ∃ l, b'.log = b.log ++ l ∧ ∀ x ∈ l, F x

namespace Copied

variable {m : Addr → Byte} {s d : Addr} {k w v : ℕ} {F : Access → Prop} {b b' : Bus}

theorem start : Copied m s d 0 F b b := ⟨fun _ => by simp, [], by simp, by simp⟩

private theorem note {x : Access} (h : Copied m s d k F b b') (hx : F x) :
    ∃ l, b'.log ++ [x] = b.log ++ l ∧ ∀ x ∈ l, F x := by
  obtain ⟨l, hlog, hl⟩ := h.log
  refine ⟨l ++ [x], by rw [hlog, List.append_assoc], fun y hy => ?_⟩
  obtain hy | hy := List.mem_append.mp hy
  · exact hl y hy
  · exact List.mem_singleton.mp hy ▸ hx

theorem load (h : Copied m s d k F b b') {a : Addr} (ha : F ⟨.source, a, w⟩) :
    Runs (Copying.load m w a) b' fun x b'' => x = wordAt m w a ∧ Copied m s d k F b b'' :=
  (Runs.modify (Q := fun _ b'' => Copied m s d k F b b'') ⟨h.bytes, h.note ha⟩).bind
    fun _ _ hb => Runs.pure ⟨rfl, hb⟩

/-- **The next bytes arrive.** -/
theorem store (h : Copied m s d k F b b') {x : BitVec v} (hk : k + w ≤ 2 ^ 64)
    (hx : ∀ j < w, byteOf x j = m (off s (k + j))) (ha : F ⟨.target, off d k, w⟩) :
    Runs (Copying.store w (off d k) x) b' fun _ b'' => Copied m s d (k + w) F b b'' := by
  refine Runs.modify ⟨fun y => ?_, h.note ha⟩
  dsimp only
  obtain hlt | hge := Nat.lt_or_ge (y - d).toNat k
  · -- below what is being stored, the earlier bytes stay
    have hout := toNat_sub_off_of_lt d y hlt (by omega)
    rw [if_neg (by omega), h.bytes, if_pos hlt, if_pos (by omega)]
  · have hin := toNat_sub_off d y hge
    rw [hin, h.bytes, if_neg (Nat.not_lt.mpr hge)]
    split_ifs with h₁ h₂ h₂
    · rw [hx _ h₁, Nat.add_sub_cancel' hge]
    · omega
    · omega
    · rfl

/-- **A copy that has come to its end**, byte by byte. -/
theorem target_off (h : Copied m s d k F b b') (hk : k ≤ 2 ^ 64) {i : ℕ} (hi : i < k) :
    b'.target (off d i) = m (off s i) := by
  rw [h.bytes, toNat_off_sub d (by omega), if_pos hi]

theorem target_of_ne (h : Copied m s d k F b b') {y : Addr} (hy : ∀ i < k, y ≠ off d i) :
    b'.target y = b.target y := by
  rw [h.bytes, if_neg fun hlt => hy _ hlt (off_sub_toNat d y).symm]

end Copied

end Machinery.Copying
