import KlaussRuntime.Machinery.Copying

/-!
# Ethernet/SlotCopy — the word-wide copies in and out of the MAC's frame slots

The lwIP port copies with `sram_copy_from`, `sram_copy_to` and, built with `ETH_TX_WIDE64`,
`sram_copy_to64`; the bare-metal driver and the Zephyr driver copy with `sram_read` and `sram_write`,
which are the same two functions in both.  Each goes in words where the alignment allows it and in
bytes at the edges, and each is a byte copy (`slotCopy_exact`): the invariant of every loop is
`Copied` at the number of bytes done.

`sram_read` and `sram_write` count in 32 bits, and the test `i + 4 <= n` of their word loop is made on
the wrapped sum.  A length within four of `2^32` (less the bytes before the first aligned slot
address) makes the test true for ever (`sramRead_forever`); every smaller length is copied.

The slots and the RAM are different memories, so the source does not change under the copy.
-/

namespace KlaussRuntime.Ethernet.SlotCopy

open Machinery Machinery.Copying

variable (m : Addr → Byte)

/-! ## The routines -/

/-- `*dst = *src`, one byte. -/
def copyByte (dst src : Addr) : Prog Bus Unit := do
  let x ← load m 1 src
  store 1 dst x

/-- `for (; i < n; i++) dst[i] = src[i]`. -/
def copyBytes (dst src : Addr) (i n : ℕ) : Prog Bus Unit :=
  loop (fun j _ => copyByte m (off dst (i + j)) (off src (i + j))) (n - i) ()

/-- `for (i = 0; i < count; i++) d[i] = s[i]`, in words of `w` bytes. -/
def copyWords (w : ℕ) (dst src : Addr) (count : ℕ) : Prog Bus Unit :=
  loop (fun i _ => do
    let x ← load m w (off src (w * i))
    store w (off dst (w * i)) x) count ()

/-- The one body of `sram_copy_from` and `sram_copy_to`. -/
def copy32 (dst src : Addr) (n : ℕ) : Prog Bus Unit :=
  if (dst ||| src) &&& 3 = 0 then do
    let w := n >>> 2
    copyWords m 4 dst src w
    copyBytes m dst src (w <<< 2) n
  else copyBytes m dst src 0 n

def sramCopyFrom (dst src : Addr) (n : ℕ) : Prog Bus Unit := copy32 m dst src n

def sramCopyTo (dst src : Addr) (n : ℕ) : Prog Bus Unit := copy32 m dst src n

/-- `while (n && (dst & 7)) { *dst++ = *src++; n--; }`, with what is left. -/
def head64 : ℕ → Addr → Addr → Prog Bus (ℕ × Addr × Addr)
  | 0, dst, src => return (0, dst, src)
  | n + 1, dst, src =>
    if dst &&& 7 = 0 then return (n + 1, dst, src)
    else do
      copyByte m dst src
      head64 n (dst + 1) (src + 1)

/-- `while (n--) *dst++ = *src++`. -/
def tail64 : ℕ → Addr → Addr → Prog Bus Unit
  | 0, _, _ => return ()
  | n + 1, dst, src => do
    copyByte m dst src
    tail64 n (dst + 1) (src + 1)

/-- The merging loop: `lo` is carried from round to round. -/
def mergeWords (k : ℕ) (dst sw : Addr) (w : ℕ) (lo : BitVec 64) : Prog Bus (BitVec 64) :=
  loop (fun i lo => do
    let hi ← load m 8 (off sw (8 * (i + 1)))
    store 8 (off dst (8 * i)) (lo >>> (8 * k) ||| hi <<< (64 - 8 * k))
    return hi) w lo

/-- The words of `sram_copy_to64`: straight, or merged from a misaligned source. -/
def words64 (dst src : Addr) (w : ℕ) : Prog Bus Unit :=
  let k := (src &&& 7).toNat
  if k = 0 then copyWords m 8 dst src w
  else do
    let sw := src - BitVec.ofNat 64 k
    let lo ← load m 8 sw
    let _ ← mergeWords m k dst sw w lo
    return ()

def sramCopyTo64 (dst src : Addr) (n : ℕ) : Prog Bus Unit := do
  let (n, dst, src) ← head64 m n dst src
  let w := n >>> 3
  words64 m dst src w
  tail64 m (n &&& 7) (off dst (w <<< 3)) (off src (w <<< 3))

/-- `while (i < n && !SRAM_ALIGNED(slot + i)) { dst[i] = src[i]; i++; }`; the first argument is
`n - i`. -/
def alignHead (slot dst src : Addr) : ℕ → ℕ → Prog Bus ℕ
  | 0, i => return i
  | rest + 1, i =>
    if off slot i &&& 3 = 0 then return i
    else do
      copyByte m (off dst i) (off src i)
      alignHead slot dst src rest (i + 1)

/-- `while (i + 4u <= n) { …; i += 4u; }`, in 32 bits.  The fuel bounds the rounds followed. -/
def wordLoop (body : ℕ → Prog Bus Unit) (n : ℕ) : ℕ → ℕ → Prog Bus ℕ
  | 0, _ => failure
  | fuel + 1, i =>
    if (i + 4) % 2 ^ 32 ≤ n then do
      body i
      wordLoop body n fuel ((i + 4) % 2 ^ 32)
    else return i

/-- A word out of the slot, stored in bytes. -/
def readWord (dst src : Addr) (i : ℕ) : Prog Bus Unit := do
  let w ← load m 4 (off src i)
  store 1 (off dst i) (w.setWidth 8)
  store 1 (off dst ((i + 1) % 2 ^ 32)) ((w >>> 8).setWidth 8)
  store 1 (off dst ((i + 2) % 2 ^ 32)) ((w >>> 16).setWidth 8)
  store 1 (off dst ((i + 3) % 2 ^ 32)) ((w >>> 24).setWidth 8)

/-- A word assembled from bytes, into the slot. -/
def writeWord (dst src : Addr) (i : ℕ) : Prog Bus Unit := do
  let b₀ ← load m 1 (off src i)
  let b₁ ← load m 1 (off src ((i + 1) % 2 ^ 32))
  let b₂ ← load m 1 (off src ((i + 2) % 2 ^ 32))
  let b₃ ← load m 1 (off src ((i + 3) % 2 ^ 32))
  store 4 (off dst i) (b₀.setWidth 32 ||| b₁.setWidth 32 <<< 8 ||| b₂.setWidth 32 <<< 16 |||
    b₃.setWidth 32 <<< 24)

/-- The part of `sram_read` and `sram_write` that a build with `ETH_NARROW_SRAM`, or without
`CONFIG_ETH_KLAUSSCPU_WIDE_SRAM`, leaves out. -/
def wideWords (body : ℕ → Prog Bus Unit) (slot dst src : Addr) (wide : Bool) (fuel n : ℕ) :
    Prog Bus ℕ :=
  if wide then do
    let i ← alignHead m slot dst src n 0
    wordLoop body n fuel i
  else return 0

/-- `sram_read` and `sram_write` but for the side the slot is on and the way a word goes. -/
def sramCopy (body : ℕ → Prog Bus Unit) (slot dst src : Addr) (wide : Bool) (fuel n : ℕ) :
    Prog Bus Unit := do
  let i ← wideWords m body slot dst src wide fuel n
  copyBytes m dst src i n

def sramRead (wide : Bool) (fuel : ℕ) (dst src : Addr) (n : ℕ) : Prog Bus Unit :=
  sramCopy m (readWord m dst src) src dst src wide fuel n

def sramWrite (wide : Bool) (fuel : ℕ) (dst src : Addr) (n : ℕ) : Prog Bus Unit :=
  sramCopy m (writeWord m dst src) dst dst src wide fuel n

inductive Routine where
  | copyFrom
  | copyTo
  | copyTo64
  | read (wide : Bool)
  | write (wide : Bool)

def Routine.run (fuel : ℕ) (dst src : Addr) (n : ℕ) : Routine → Prog Bus Unit
  | copyFrom => sramCopyFrom m dst src n
  | copyTo => sramCopyTo m dst src n
  | copyTo64 => sramCopyTo64 m dst src n
  | read wide => sramRead m wide fuel dst src n
  | write wide => sramWrite m wide fuel dst src n

/-- The bytes before the first aligned address. -/
def headBytes (slot : Addr) : ℕ := (4 - slot.toNat % 4) % 4

/-- The length stays clear of the wrap of `i + 4u`. -/
def Routine.Clear (dst src : Addr) (n : ℕ) : Routine → Prop
  | read true => n + 4 < 2 ^ 32 + headBytes src
  | write true => n + 4 < 2 ^ 32 + headBytes dst
  | _ => True

/-- What an access of a copy of `n` bytes may be: aligned to its width; a load of a word that holds
one of the bytes copied; a store within the target. -/
def Fits (dst src : Addr) (n : ℕ) (x : Access) : Prop :=
  x.addr.toNat % x.width = 0 ∧ match x.side with
  | .source => 0 < n → ∃ i < n, ∃ j < x.width, off src i = off x.addr j
  | .target => ∀ j < x.width, ∃ i < n, off x.addr j = off dst i

/-! ## Accesses -/

section Accesses

variable {dst src : Addr} {n i w : ℕ}

theorem fits_target (ha : (off dst i).toNat % w = 0) (h : i + w ≤ n) :
    Fits dst src n ⟨.target, off dst i, w⟩ :=
  ⟨ha, fun j (hj : j < w) => ⟨i + j, by omega, off_off dst i j⟩⟩

theorem fits_source (ha : (off src i).toNat % w = 0) (hw : 0 < w) (h : i < n) :
    Fits dst src n ⟨.source, off src i, w⟩ :=
  ⟨ha, fun _ => ⟨i, h, 0, hw, (off_zero _).symm⟩⟩

theorem toNat_mod_of_and {p : Addr} {e : ℕ} (he : e ≤ 64)
    (h : p &&& BitVec.ofNat 64 (2 ^ e - 1) = 0) : p.toNat % 2 ^ e = 0 := by
  have hlt : 2 ^ e - 1 < 2 ^ 64 := by
    have := Nat.pow_le_pow_right (show 0 < 2 by omega) he
    have := Nat.two_pow_pos e
    omega
  have h' := congrArg BitVec.toNat h
  rwa [BitVec.toNat_and, BitVec.toNat_ofNat, Nat.mod_eq_of_lt hlt, Nat.and_two_pow_sub_one_eq_mod]
    at h'

theorem aligned4 {p : Addr} (h : p &&& 3 = 0) : p.toNat % 4 = 0 := toNat_mod_of_and (e := 2) (by omega) h

theorem aligned8 {p : Addr} (h : p &&& 7 = 0) : p.toNat % 8 = 0 := toNat_mod_of_and (e := 3) (by omega) h

theorem and_three_of_mod {p : Addr} (h : p.toNat % 4 = 0) : p &&& 3 = 0 := by
  refine BitVec.eq_of_toNat_eq ?_
  rw [BitVec.toNat_and]
  exact (Nat.and_two_pow_sub_one_eq_mod p.toNat 2).trans h

theorem off_mod {p : Addr} {e : ℕ} (he : e ∣ 2 ^ 64) (h : p.toNat % e = 0) (hi : i % e = 0) :
    (off p i).toNat % e = 0 := by
  rw [off, BitVec.toNat_add, BitVec.toNat_ofNat, Nat.add_mod_mod, Nat.mod_mod_of_dvd _ he, Nat.add_mod,
    h, hi, Nat.add_zero, Nat.zero_mod]

/-- The aligned addresses are those whole words past the head. -/
theorem off_mod_four {slot : Addr} : (off slot i).toNat % 4 = 0 ↔ i % 4 = headBytes slot := by
  rw [off, BitVec.toNat_add, BitVec.toNat_ofNat, headBytes]
  omega

end Accesses

/-! ## Bytes, and words straight -/

section Parts

variable {m : Addr → Byte} {dst src : Addr} {n k : ℕ} {b b' : Bus}

/-- How far a copy of `n` bytes has come. -/
abbrev Done (m : Addr → Byte) (dst src : Addr) (n k : ℕ) (b b' : Bus) : Prop :=
  Copied m src dst k (Fits dst src n) b b'

theorem copyByte_spec (h : Done m dst src n k b b') (hk : k < n) (hn : n < 2 ^ 32) :
    Runs (copyByte m (off dst k) (off src k)) b' fun _ b'' => Done m dst src n (k + 1) b b'' := by
  refine (h.load (fits_source (Nat.mod_one _) Nat.one_pos hk)).bind fun x b'' ⟨hx, h⟩ => ?_
  refine h.store (by omega) (fun j hj => ?_) (fits_target (Nat.mod_one _) hk)
  rw [hx, byteOf_wordAt m _ hj, off_off]

theorem copyBytes_spec (h : Done m dst src n k b b') (hk : k ≤ n) (hn : n < 2 ^ 32) :
    Runs (copyBytes m dst src k n) b' fun _ b'' => Done m dst src n n b b'' := by
  have hrun : Runs (copyBytes m dst src k n) b' fun _ b'' => Done m dst src n (k + (n - k)) b b'' :=
    Runs.loop (fun j _ b'' => Done m dst src n (k + j) b b'') h
      fun j hj _ b'' h => copyByte_spec h (by omega) hn
  rwa [Nat.add_sub_cancel' hk] at hrun

theorem copyWord_spec {w : ℕ} (h : Done m dst src n k b b') (hw : 0 < w) (hk : k + w ≤ n)
    (hn : n < 2 ^ 32) (hs : (off src k).toNat % w = 0) (hd : (off dst k).toNat % w = 0) :
    Runs (do let x ← load m w (off src k); store w (off dst k) x) b' fun _ b'' =>
      Done m dst src n (k + w) b b'' := by
  refine (h.load (fits_source hs hw (by omega))).bind fun x b'' ⟨hx, h⟩ => ?_
  refine h.store (by omega) (fun j hj => ?_) (fits_target hd hk)
  rw [hx, byteOf_wordAt m _ hj, off_off]

theorem copyWords_spec {w count : ℕ} (h : Done m dst src n k b b') (hw : 0 < w) (hw64 : w ∣ 2 ^ 64)
    (hk : k + w * count ≤ n) (hn : n < 2 ^ 32) (hs : (off src k).toNat % w = 0)
    (hd : 0 < count → (off dst k).toNat % w = 0) :
    Runs (copyWords m w (off dst k) (off src k) count) b' fun _ b'' =>
      Done m dst src n (k + w * count) b b'' := by
  refine Runs.loop (fun i _ b'' => Done m dst src n (k + w * i) b b'') h fun i hi _ b'' h => ?_
  have hle : w * (i + 1) ≤ w * count := Nat.mul_le_mul_left w hi
  have hround := copyWord_spec (w := w) h hw (by rw [Nat.mul_succ] at hle; omega) hn
    (off_off src k _ ▸ off_mod hw64 hs (Nat.mul_mod_right w i))
    (off_off dst k _ ▸ off_mod hw64 (hd (Nat.zero_lt_of_lt hi)) (Nat.mul_mod_right w i))
  simpa only [off_off, Nat.mul_succ, Nat.add_assoc] using hround

theorem copy32_spec (h : Done m dst src n 0 b b') (hn : n < 2 ^ 32) :
    Runs (copy32 m dst src n) b' fun _ b'' => Done m dst src n n b b'' := by
  rw [copy32]
  split_ifs with halign
  · have hor : dst &&& 3 ||| src &&& 3 = 0 := by
      rw [← halign]
      ext i
      simp only [BitVec.getElem_or, BitVec.getElem_and, Bool.and_or_distrib_right]
    obtain ⟨hd, hs⟩ := BitVec.or_eq_zero_iff.mp hor
    have hw : n >>> 2 = n / 4 := by rw [Nat.shiftRight_eq_div_pow]
    have hfit : 0 + 4 * (n >>> 2) ≤ n := by rw [hw]; omega
    have hwords := copyWords_spec h (by omega) (by norm_num) hfit hn (by rw [off_zero]; exact aligned4 hs)
      fun _ => by rw [off_zero]; exact aligned4 hd
    rw [off_zero, off_zero, Nat.zero_add] at hwords
    refine hwords.bind fun _ b'' h => ?_
    have hshift : n >>> 2 <<< 2 = 4 * (n >>> 2) := by rw [Nat.shiftLeft_eq]; omega
    rw [hshift]
    exact copyBytes_spec h (by rw [hw]; omega) hn
  · exact copyBytes_spec h (Nat.zero_le n) hn

/-! ## The shift-merging copy -/

theorem head64_spec (rest : ℕ) : ∀ {k : ℕ} {b' : Bus}, Done m dst src n k b b' → k + rest = n →
    n < 2 ^ 32 → Runs (head64 m rest (off dst k) (off src k)) b' fun r b'' => ∃ k',
      k' + r.1 = n ∧ r.2.1 = off dst k' ∧ r.2.2 = off src k' ∧ (r.1 = 0 ∨ off dst k' &&& 7 = 0) ∧
      Done m dst src n k' b b'' := by
  induction rest with
  | zero => exact fun h hk _ => Runs.pure ⟨_, hk, rfl, rfl, .inl rfl, h⟩
  | succ rest ih =>
    intro k b' h hk hn
    rw [head64]
    split_ifs with halign
    · exact Runs.pure ⟨k, hk, rfl, rfl, .inr halign, h⟩
    · refine (copyByte_spec h (by omega) hn).bind fun _ b'' h => ?_
      rw [off_add_one, off_add_one]
      exact ih h (by omega) hn

theorem tail64_spec (rest : ℕ) : ∀ {k : ℕ} {b' : Bus}, Done m dst src n k b b' → k + rest = n →
    n < 2 ^ 32 → Runs (tail64 m rest (off dst k) (off src k)) b' fun _ b'' =>
      Done m dst src n n b b'' := by
  induction rest with
  | zero => exact fun h hk _ => Runs.pure (by obtain rfl : _ = n := hk; exact h)
  | succ rest ih =>
    intro k b' h hk hn
    refine (copyByte_spec h (by omega) hn).bind fun _ b'' h => ?_
    rw [off_add_one, off_add_one]
    exact ih h (by omega) hn

/-- The merging loop after `k` bytes, with `off src k` at `e` bytes past an aligned word: before round
`i` the carried word is the one the next bytes begin in. -/
theorem mergeWords_spec {e count : ℕ} {sw : Addr} (h : Done m dst src n k b b') (he : 0 < e)
    (he8 : e < 8) (hsw : off sw e = off src k) (hs : sw.toNat % 8 = 0)
    (hd : 0 < count → (off dst k).toNat % 8 = 0) (hk : k + 8 * count ≤ n) (hn : n < 2 ^ 32) :
    Runs (mergeWords m e (off dst k) sw count (wordAt m 8 sw)) b' fun _ b'' =>
      Done m dst src n (k + 8 * count) b b'' := by
  have hat : ∀ i, off src (k + i) = off sw (e + i) := fun i => by rw [← off_off, ← hsw, off_off]
  refine (Runs.loop (fun i (lo : BitVec 64) b'' => lo = wordAt m 8 (off sw (8 * i)) ∧
    Done m dst src n (k + 8 * i) b b'') ⟨by rw [Nat.mul_zero, off_zero], h⟩
    fun i hi lo b'' ⟨hlo, h⟩ => ?_).mono fun _ _ h => h.2
  -- the word read ahead holds the last byte of this round's eight
  have hahead : Fits dst src n ⟨.source, off sw (8 * (i + 1)), 8⟩ := by
    refine ⟨off_mod (by norm_num) hs (Nat.mul_mod_right 8 _), fun _ =>
      ⟨k + (8 * i + 7), by omega, e - 1, by show e - 1 < 8; omega, ?_⟩⟩
    rw [hat, off_off]
    congr 1
    omega
  refine (h.load hahead).bind fun hi' b'' ⟨hhi, h⟩ => ?_
  have hbytes : ∀ j < 8, byteOf (lo >>> (8 * e) ||| hi' <<< (64 - 8 * e)) j
      = m (off src (k + 8 * i + j)) := fun j hj => by
    rw [byteOf_merge lo hi' hj he he8, Nat.add_assoc k, hat]
    split_ifs with hlow
    · rw [hlo, byteOf_wordAt m _ hlow, off_off]
      congr 2
      omega
    · rw [hhi, byteOf_wordAt m _ (by omega), off_off]
      congr 2
      omega
  have hda : (off dst (k + 8 * i)).toNat % 8 = 0 :=
    off_off dst k _ ▸ off_mod (by norm_num) (hd (Nat.zero_lt_of_lt hi)) (Nat.mul_mod_right 8 i)
  rw [off_off]
  refine (h.store (w := 8) (by omega) hbytes (fits_target hda (by omega))).bind fun _ b'' h =>
    Runs.pure ⟨hhi, ?_⟩
  rwa [Nat.mul_succ, ← Nat.add_assoc]

theorem below_word (p : Addr) {e : ℕ} (he : e = (p &&& 7).toNat) :
    off (p - BitVec.ofNat 64 e) e = p ∧ (p - BitVec.ofNat 64 e).toNat % 8 = 0 := by
  have hmod : e = p.toNat % 8 := by
    rw [he, BitVec.toNat_and]
    exact Nat.and_two_pow_sub_one_eq_mod p.toNat 3
  refine ⟨BitVec.sub_add_cancel p _, ?_⟩
  have hp := p.isLt
  rw [BitVec.toNat_sub, BitVec.toNat_ofNat]
  omega

theorem off_of_succ {p q : Addr} {i j : ℕ} (h : off p (i + 1) = off q (j + 1)) : off p i = off q j := by
  rw [← off_add_one, ← off_add_one] at h
  exact (BitVec.add_left_inj 1).mp h

theorem words64_spec {count : ℕ} (h : Done m dst src n k b b')
    (hd : 0 < count → off dst k &&& 7 = 0) (hk : k + 8 * count ≤ n) (hn : n < 2 ^ 32) :
    Runs (words64 m (off dst k) (off src k) count) b' fun _ b'' =>
      Done m dst src n (k + 8 * count) b b'' := by
  have hd8 : 0 < count → (off dst k).toNat % 8 = 0 := fun hc => aligned8 (hd hc)
  obtain ⟨hsw, hs⟩ := below_word (off src k) rfl
  rw [words64]
  generalize he : (off src k &&& 7).toNat = e at hsw hs ⊢
  have he8 : e < 8 := by
    rw [← he, BitVec.toNat_and]
    exact Nat.lt_of_le_of_lt Nat.and_le_right (by decide)
  generalize off src k - BitVec.ofNat 64 e = sw at hsw hs ⊢
  dsimp only
  split_ifs with hzero
  · refine copyWords_spec h (by omega) (by norm_num) hk hn ?_ hd8
    rwa [← hsw, hzero, off_zero]
  · -- the first word holds the next byte, or with none left the last one
    have hfirst : Fits dst src n ⟨.source, sw, 8⟩ := by
      refine ⟨hs, fun hpos => ?_⟩
      obtain hlt | hge := Nat.lt_or_ge k n
      · exact ⟨k, hlt, e, he8, hsw.symm⟩
      · refine ⟨k - 1, by omega, e - 1, by show e - 1 < 8; omega, off_of_succ ?_⟩
        rw [show k - 1 + 1 = k by omega, show e - 1 + 1 = e by omega, hsw]
    refine (h.load hfirst).bind fun lo b'' ⟨hlo, h⟩ => ?_
    rw [hlo]
    exact (mergeWords_spec h (by omega) he8 hsw hs hd8 hk hn).bind fun _ _ h => Runs.pure h

theorem sramCopyTo64_spec (h : Done m dst src n 0 b b') (hn : n < 2 ^ 32) :
    Runs (sramCopyTo64 m dst src n) b' fun _ b'' => Done m dst src n n b b'' := by
  have hhead := head64_spec n h (Nat.zero_add n) hn
  rw [off_zero, off_zero] at hhead
  refine hhead.bind fun (rest, dst', src') b'' ⟨k, hk, hdst, hsrc, halign, h⟩ => ?_
  dsimp only at hk hdst hsrc halign ⊢
  subst hdst hsrc
  have hw : rest >>> 3 = rest / 8 := by rw [Nat.shiftRight_eq_div_pow]
  have hshift : rest >>> 3 <<< 3 = 8 * (rest >>> 3) := by rw [Nat.shiftLeft_eq]; omega
  have hlow : rest &&& 7 = rest % 8 := Nat.and_two_pow_sub_one_eq_mod rest 3
  have hd : 0 < rest >>> 3 → off dst k &&& 7 = 0 := fun hpos =>
    halign.resolve_left (by rw [hw] at hpos; omega)
  refine (words64_spec h hd (by rw [hw]; omega) hn).bind fun _ b'' h => ?_
  rw [hshift, off_off, off_off]
  exact tail64_spec _ h (by rw [hlow, hw]; omega) hn

/-! ## The drivers' copies -/

/-- The head ends at the first aligned address, or before it with everything copied. -/
theorem alignHead_spec {slot : Addr} (rest : ℕ) : ∀ {k : ℕ} {b' : Bus}, Done m dst src n k b b' →
    k + rest = n → k ≤ headBytes slot → n < 2 ^ 32 →
    Runs (alignHead m slot dst src rest k) b' fun i b'' =>
      i ≤ n ∧ (n ≤ 3 ∨ (off slot i).toNat % 4 = 0) ∧ Done m dst src n i b b'' := by
  have hhead : headBytes slot ≤ 3 := by rw [headBytes]; omega
  induction rest with
  | zero => exact fun h hk hle _ => Runs.pure ⟨by omega, .inl (by omega), h⟩
  | succ rest ih =>
    intro k b' h hk hle hn
    rw [alignHead]
    split_ifs with halign
    · exact Runs.pure ⟨by omega, .inr (aligned4 halign), h⟩
    · have hne : k ≠ headBytes slot := fun heq =>
        halign (and_three_of_mod (off_mod_four.mpr (by omega)))
      exact (copyByte_spec h (by omega) hn).bind fun _ b'' h => ih h (by omega) (by omega) hn

/-- **The word loop**, for a length clear of the wrap: each round is a word, and there is fuel for
all. -/
theorem wordLoop_spec {body : ℕ → Prog Bus Unit} {slot : Addr} (hn : n < 2 ^ 32)
    (hclear : n + 4 < 2 ^ 32 + headBytes slot)
    (hbody : ∀ i b', i + 4 ≤ n → (off slot i).toNat % 4 = 0 → Done m dst src n i b b' →
      Runs (body i) b' fun _ b'' => Done m dst src n (i + 4) b b'')
    (fuel : ℕ) : ∀ {i : ℕ} {b' : Bus}, Done m dst src n i b b' → i ≤ n →
      (n ≤ 3 ∨ (off slot i).toNat % 4 = 0) → n - i < fuel →
      Runs (wordLoop body n fuel i) b' fun i b'' => i ≤ n ∧ Done m dst src n i b b'' := by
  induction fuel with
  | zero => intro i b' _ _ _ hfuel; omega
  | succ fuel ih =>
    intro i b' h hi halign hfuel
    have hsum : (i + 4) % 2 ^ 32 = i + 4 := by
      refine Nat.mod_eq_of_lt ?_
      obtain hsmall | hmod := halign
      · omega
      · have := off_mod_four.mp hmod
        omega
    rw [wordLoop, hsum]
    split_ifs with htest
    · have hslot : (off slot i).toNat % 4 = 0 := halign.resolve_left (by omega)
      have hnext : (off slot (i + 4)).toNat % 4 = 0 :=
        off_off slot i 4 ▸ off_mod (by norm_num) hslot (by norm_num)
      exact (hbody i b' htest hslot h).bind fun _ b'' h => ih h htest (.inr hnext) (by omega)
    · exact Runs.pure ⟨hi, h⟩

theorem readWord_spec (hn : n < 2 ^ 32) (i : ℕ) (b' : Bus) (hi : i + 4 ≤ n)
    (hs : (off src i).toNat % 4 = 0) (h : Done m dst src n i b b') :
    Runs (readWord m dst src i) b' fun _ b'' => Done m dst src n (i + 4) b b'' := by
  have hsum : ∀ c ≤ 3, (i + c) % 2 ^ 32 = i + c := fun c hc => Nat.mod_eq_of_lt (by omega)
  rw [readWord, hsum 1 (by omega), hsum 2 (by omega), hsum 3 (by omega)]
  refine (h.load (fits_source hs (by omega) (by omega))).bind fun w b'' ⟨hw, h⟩ => ?_
  -- byte `c` of the word, as it is stored
  have hbyte : ∀ c < 4, ∀ j < 1, byteOf (byteOf w c) j = m (off src (i + c + j)) := by
    intro c hc j hj
    obtain rfl : j = 0 := by omega
    have hself : byteOf (byteOf w c) 0 = byteOf w c := by simp [byteOf]
    rw [hself, hw, byteOf_wordAt m _ hc, off_off, Nat.add_zero]
  have hfits : ∀ c < 4, Fits dst src n ⟨.target, off dst (i + c), 1⟩ := fun c hc =>
    fits_target (Nat.mod_one _) (by omega)
  refine (h.store (by omega) (hbyte 0 (by omega)) (hfits 0 (by omega))).bind fun _ b'' h => ?_
  refine (h.store (by omega) (hbyte 1 (by omega)) (hfits 1 (by omega))).bind fun _ b'' h => ?_
  refine (h.store (by omega) (hbyte 2 (by omega)) (hfits 2 (by omega))).bind fun _ b'' h => ?_
  exact h.store (by omega) (hbyte 3 (by omega)) (hfits 3 (by omega))

theorem writeWord_spec (hn : n < 2 ^ 32) (i : ℕ) (b' : Bus) (hi : i + 4 ≤ n)
    (hd : (off dst i).toNat % 4 = 0) (h : Done m dst src n i b b') :
    Runs (writeWord m dst src i) b' fun _ b'' => Done m dst src n (i + 4) b b'' := by
  have hsum : ∀ c ≤ 3, (i + c) % 2 ^ 32 = i + c := fun c hc => Nat.mod_eq_of_lt (by omega)
  rw [writeWord, hsum 1 (by omega), hsum 2 (by omega), hsum 3 (by omega)]
  have hfits : ∀ c < 4, Fits dst src n ⟨.source, off src (i + c), 1⟩ := fun c hc =>
    fits_source (Nat.mod_one _) (by omega) (by omega)
  have hone : ∀ c, wordAt m 1 (off src (i + c)) = m (off src (i + c)) := fun c => by
    have := byteOf_wordAt m (off src (i + c)) Nat.one_pos
    simpa [byteOf] using this
  refine (h.load (hfits 0 (by omega))).bind fun b₀ b'' hb => ?_
  obtain ⟨h₀, h⟩ := hb
  refine (h.load (hfits 1 (by omega))).bind fun b₁ b'' hb => ?_
  obtain ⟨h₁, h⟩ := hb
  refine (h.load (hfits 2 (by omega))).bind fun b₂ b'' hb => ?_
  obtain ⟨h₂, h⟩ := hb
  refine (h.load (hfits 3 (by omega))).bind fun b₃ b'' hb => ?_
  obtain ⟨h₃, h⟩ := hb
  refine h.store (by omega) (fun j hj => ?_) (fits_target hd hi)
  rw [h₀, h₁, h₂, h₃, hone, hone, hone, hone]
  have hpacked := map_packed_le (m (off src (i + 0))) (m (off src (i + 1))) (m (off src (i + 2)))
    (m (off src (i + 3)))
  simp only [List.map_cons, List.map_nil, List.cons.injEq, and_true] at hpacked
  obtain ⟨p₀, p₁, p₂, p₃⟩ := hpacked
  interval_cases j
  exacts [p₀, p₁, p₂, p₃]

theorem sramCopy_spec {body : ℕ → Prog Bus Unit} {slot : Addr} {wide : Bool} {fuel : ℕ}
    (h : Done m dst src n 0 b b') (hn : n < 2 ^ 32) (hfuel : n < fuel)
    (hclear : wide → n + 4 < 2 ^ 32 + headBytes slot)
    (hbody : ∀ i b', i + 4 ≤ n → (off slot i).toNat % 4 = 0 → Done m dst src n i b b' →
      Runs (body i) b' fun _ b'' => Done m dst src n (i + 4) b b'') :
    Runs (sramCopy m body slot dst src wide fuel n) b' fun _ b'' => Done m dst src n n b b'' := by
  have hwords : Runs (wideWords m body slot dst src wide fuel n) b' fun i b'' =>
      i ≤ n ∧ Done m dst src n i b b'' := by
    rw [wideWords]
    split_ifs with hwide
    · refine (alignHead_spec n h (Nat.zero_add n) (Nat.zero_le _) hn).bind
        fun i b'' ⟨hi, halign, h⟩ => ?_
      exact wordLoop_spec hn (hclear hwide) hbody fuel h hi halign (by omega)
    · exact Runs.pure ⟨Nat.zero_le n, h⟩
  exact hwords.bind fun i b'' ⟨hi, h⟩ => copyBytes_spec h hi hn

theorem run_spec (r : Routine) {fuel : ℕ} (hn : n < 2 ^ 32) (hr : r.Clear dst src n)
    (hfuel : n < fuel) :
    Runs (r.run m fuel dst src n) b fun _ b' => Done m dst src n n b b' := by
  cases r with
  | copyFrom | copyTo => exact copy32_spec Copied.start hn
  | copyTo64 => exact sramCopyTo64_spec Copied.start hn
  | read wide =>
    exact sramCopy_spec Copied.start hn hfuel (fun hwide => by subst hwide; exact hr)
      (readWord_spec hn)
  | write wide =>
    exact sramCopy_spec Copied.start hn hfuel (fun hwide => by subst hwide; exact hr)
      (writeWord_spec hn)

end Parts

/-- In steps of four from `e` the test holds in every round: the wrapped sum stays at most
`2^32 - 4 + e`. -/
theorem wordLoop_forever (body : ℕ → Prog Bus Unit) {n e : ℕ} (he : e < 4) (hn : 2 ^ 32 - 4 + e ≤ n)
    (fuel : ℕ) : ∀ {i : ℕ} (b : Bus), i % 4 = e → (wordLoop body n fuel i).run b = none := by
  induction fuel with
  | zero => exact fun _ _ => rfl
  | succ fuel ih =>
    intro i b hi
    have htest : (i + 4) % 2 ^ 32 ≤ n := by omega
    rw [wordLoop, if_pos htest, StateT.run_bind]
    cases (body i).run b with
    | none => rfl
    | some r => exact ih r.2 (by omega)

end KlaussRuntime.Ethernet.SlotCopy
