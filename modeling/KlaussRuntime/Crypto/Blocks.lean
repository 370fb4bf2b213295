import KlaussRuntime.Crypto.Drivers

/-!
# Crypto/Blocks — steps of a driver, and a text block by block

Input and output of a driver may be one buffer, since a block is read before it is written
(`Separate`).  A loop over the blocks of a text leaves, after `i` blocks, the first `16 * i` bytes of the
text under its keystream (`cryptMem`), and one block more leads from `i` to `i + 1` (`cryptMem_succ`).
The unit's counter mode works that way, with either step of its counter (`runs_aesCtrHwBy`).
-/

namespace KlaussRuntime.Crypto

open Machinery Machinery.Gcm

variable {α β : Type} {U : Units} {d : Dev}

/-! ## Steps of a driver -/

theorem runs_onAes {p : Prog Aes α} {P : α → Aes → Prop} {Q : α → Dev → Prop} (hp : Runs p d.aes P)
    (h : ∀ r a, P r a → Q r { d with aes := a }) : Runs (onAes p) d Q := Runs.zoom hp h

theorem runs_onGcm {p : Prog Ghash α} {P : α → Ghash → Prop} {Q : α → Dev → Prop}
    (hp : Runs p d.gcm P) (h : ∀ r g, P r g → Q r { d with gcm := g }) : Runs (onGcm p) d Q :=
  Runs.zoom hp h

theorem runs_onAes_bind {p : Prog Aes α} {k : α → Prog Dev β} {P : α → Aes → Prop}
    {Q : β → Dev → Prop} (hp : Runs p d.aes P) (hk : ∀ r a, P r a → Runs (k r) { d with aes := a } Q) :
    Runs (onAes p >>= k) d Q :=
  (runs_onAes (Q := fun r d' => ∃ a, P r a ∧ d' = { d with aes := a }) hp
    fun _ a ha => ⟨a, ha, rfl⟩).bind fun r _ ⟨a, ha, hd⟩ => hd ▸ hk r a ha

theorem runs_onGcm_bind {p : Prog Ghash α} {k : α → Prog Dev β} {P : α → Ghash → Prop}
    {Q : β → Dev → Prop} (hp : Runs p d.gcm P) (hk : ∀ r g, P r g → Runs (k r) { d with gcm := g } Q) :
    Runs (onGcm p >>= k) d Q :=
  (runs_onGcm (Q := fun r d' => ∃ g, P r g ∧ d' = { d with gcm := g }) hp
    fun _ g hg => ⟨g, hg, rfl⟩).bind fun r _ ⟨g, hg, hd⟩ => hd ▸ hk r g hg

theorem runs_load (p n : ℕ) : Runs (load p n) d fun r d' => r = d.mem.read p n ∧ d' = d :=
  ⟨_, _, rfl, rfl, rfl⟩

theorem runs_load_bind {p n : ℕ} {k : List Byte → Prog Dev β} {Q : β → Dev → Prop}
    (hk : Runs (k (d.mem.read p n)) d Q) : Runs (load p n >>= k) d Q :=
  (runs_load p n).bind fun _ _ h => h.1 ▸ h.2 ▸ hk

theorem runs_ld64 (p : ℕ) : Runs (ld64 p) d fun r d' => r = word (d.mem.read p 8) ∧ d' = d :=
  runs_load_bind (Runs.pure ⟨rfl, rfl⟩)

theorem runs_ld64_bind {p : ℕ} {k : BitVec 64 → Prog Dev β} {Q : β → Dev → Prop}
    (hk : Runs (k (word (d.mem.read p 8))) d Q) : Runs (ld64 p >>= k) d Q := by
  refine (runs_ld64 p).bind ?_
  rintro _ _ ⟨rfl, rfl⟩
  exact hk

theorem runs_store_bind {p : ℕ} {bs : List Byte} {k : Unit → Prog Dev β} {Q : β → Dev → Prop}
    (hk : Runs (k ()) { d with mem := d.mem.write p bs } Q) : Runs (store p bs >>= k) d Q :=
  (Runs.modify (Q := fun _ d' => d' = { d with mem := d.mem.write p bs }) rfl).bind
    fun _ _ h => h ▸ hk

theorem runs_store {p : ℕ} {bs : List Byte} {Q : Unit → Dev → Prop}
    (h : Q () { d with mem := d.mem.write p bs }) : Runs (store p bs) d Q := Runs.modify h

theorem st64_st64 (m : Mem) (p : ℕ) (b : Block) :
    (m.write p (wordBytes (lowWord b))).write (p + 8) (wordBytes (highWord b))
      = m.write p (toBytes b) := by
  rw [← wordBytes_append, Mem.write_append, length_wordBytes]

theorem block_ld64 (m : Mem) (p : ℕ) :
    block (word (m.read p 8)) (word (m.read (p + 8) 8)) = ofBytes (m.read p 16) := by
  rw [block_word (by simp) (by simp), ← Mem.read_add]

theorem length_padded {bs : List Byte} (h : bs.length ≤ 16) : (padded bs).length = 16 := by
  simp [padded]; omega

theorem ofBytes_padded (bs : List Byte) : ofBytes (padded bs) = ofBytes bs :=
  ofBytes_append_zeros _ _

theorem block_padded {bs : List Byte} (h : bs.length ≤ 16) :
    block (word ((padded bs).take 8)) (word ((padded bs).drop 8)) = ofBytes bs := by
  rw [block_word_take (length_padded h), ofBytes_padded]

theorem toBytes_crypt {xs : List Byte} (h : xs.length = 16) (k : Block) :
    toBytes (k ^^^ ofBytes xs) = xorBytes xs (toBytes k) := by
  rw [← take_toBytes_xor h.le k, h, List.take_of_length_le (by simp)]

/-! ## Counters and lengths -/

/-- **The carry loop** adds one to the bytes it may still reach, as a big-endian integer. -/
theorem carryFrom_append (p l suf : List Byte) :
    carryFrom p.length l.length (p ++ l ++ suf) = p ++ beBytes l.length (beNat l + 1) ++ suf := by
  induction l using List.reverseRecOn generalizing suf with
  | nil => simp [carryFrom, beBytes, leBytes]
  | append_singleton l b ih =>
    have hget : (p ++ (l ++ [b]) ++ suf).getD (p.length + l.length) 0 = b := by
      rw [← List.append_assoc p, List.append_assoc _ [b], List.getD_append_right _ _ _ _ (by simp)]
      simp
    have hset : ∀ v, (p ++ (l ++ [b]) ++ suf).set (p.length + l.length) v = p ++ l ++ (v :: suf) :=
      fun v => by
        rw [← List.append_assoc p, List.append_assoc _ [b], List.set_append_right _ _ (by simp)]
        simp
    have hb := b.isLt
    have hone : (b + 1).toNat = (b.toNat + 1) % 256 := BitVec.toNat_add b 1
    rw [List.length_append, List.length_singleton, carryFrom, hget, hset, beBytes_succ, beNat_concat]
    split_ifs with hcarry
    · -- no carry: the bytes above stay
      have hne : (b + 1).toNat ≠ 0 := fun h0 => hcarry (BitVec.eq_of_toNat_eq h0)
      rw [show (b.toNat + 256 * beNat l + 1) / 256 = beNat l by omega, beBytes_beNat,
        show BitVec.ofNat 8 (b.toNat + 256 * beNat l + 1) = b + 1 from
          BitVec.eq_of_toNat_eq (by rw [BitVec.toNat_ofNat]; omega)]
      simp
    · have hzero : b + 1 = 0 := not_not.mp hcarry
      have h0 : (b + 1).toNat = 0 := congrArg BitVec.toNat hzero
      rw [hzero, ih, show (b.toNat + 256 * beNat l + 1) / 256 = beNat l + 1 by omega,
        show BitVec.ofNat 8 (b.toNat + 256 * beNat l + 1) = 0 from
          BitVec.eq_of_toNat_eq (by rw [BitVec.toNat_ofNat]; change _ = 0; omega)]
      simp

theorem ctrIncFrom_eq_carryFrom (k : ℕ) (ctr : List Byte) : ctrIncFrom k ctr = carryFrom 12 k ctr := by
  induction k generalizing ctr with
  | zero => rfl
  | succ k ih => simp only [ctrIncFrom, carryFrom, ih]

theorem ctrInc_toBytes (b : Block) : ctrInc (toBytes b) = toBytes (inc32 b) := by
  have htake : ((toBytes b).take 12).length = 12 := by simp
  have hdrop : ((toBytes b).drop 12).length = 4 := by simp
  have h := carryFrom_append ((toBytes b).take 12) ((toBytes b).drop 12) []
  rw [List.append_nil, List.append_nil, List.take_append_drop, htake, hdrop] at h
  rw [ctrInc, ctrIncFrom_eq_carryFrom, h, inc32, toBytes_ofBytes (by simp)]

theorem getLsbD_byteMask (k i : ℕ) :
    (255#64 <<< (8 * k)).getLsbD i = decide (i < 64 ∧ 8 * k ≤ i ∧ i < 8 * k + 8) := by
  have hlow : ∀ j, (255#64).getLsbD j = decide (j < 8) := fun j => by
    rw [show 255#64 = (BitVec.allOnes 8).setWidth 64 from rfl, BitVec.getLsbD_setWidth,
      BitVec.getLsbD_allOnes, Bool.and_eq_right_iff_imp]
    simp only [decide_eq_true_iff]
    omega
  rw [BitVec.getLsbD_shiftLeft, hlow, Bool.eq_iff_iff]
  simp only [Bool.and_eq_true, Bool.not_eq_true', decide_eq_true_iff, decide_eq_false_iff_not]
  omega

theorem extractLsb'_byte_ushiftRight (v : BitVec 64) {a : ℕ} (s i : ℕ) (ha : a < 8) :
    ((v &&& 255#64 <<< (8 * a)) >>> (8 * s)).extractLsb' (8 * i) 8
      = if i + s = a then v.extractLsb' (8 * a) 8 else 0#8 := by
  ext j hj
  rw [BitVec.getElem_extractLsb', BitVec.getLsbD_ushiftRight, BitVec.getLsbD_and, getLsbD_byteMask]
  split_ifs with h
  · rw [BitVec.getElem_extractLsb', show 8 * s + (8 * i + j) = 8 * a + j by omega,
      decide_eq_true (by omega), Bool.and_true]
  · rw [decide_eq_false (by omega), Bool.and_false, BitVec.getElem_zero]

theorem extractLsb'_byte_shiftLeft (v : BitVec 64) {i : ℕ} (a s : ℕ) (hi : i < 8) :
    ((v &&& 255#64 <<< (8 * a)) <<< (8 * s)).extractLsb' (8 * i) 8
      = if i = a + s then v.extractLsb' (8 * a) 8 else 0#8 := by
  ext j hj
  rw [BitVec.getElem_extractLsb', BitVec.getLsbD_shiftLeft, BitVec.getLsbD_and, getLsbD_byteMask]
  split_ifs with h
  · rw [BitVec.getElem_extractLsb', show 8 * i + j - 8 * s = 8 * a + j by omega]
    simp [show 8 * i + j < 64 by omega, show ¬ 8 * i + j < 8 * s by omega,
      show 8 * a + j < 64 by omega, hj]
  · rw [BitVec.getElem_zero]
    simp only [Bool.and_eq_false_iff, decide_eq_false_iff_not, Bool.not_eq_false', decide_eq_true_eq]
    omega

/-- **`bswap64` turns the bytes round.** -/
theorem extractLsb'_bswap64 (v : BitVec 64) {i : ℕ} (hi : i < 8) :
    (bswap64 v).extractLsb' (8 * i) 8 = v.extractLsb' (8 * (7 - i)) 8 := by
  have hmasks : bswap64 v
      = (v &&& 255#64 <<< (8 * 7)) >>> (8 * 7) ||| (v &&& 255#64 <<< (8 * 6)) >>> (8 * 5)
        ||| (v &&& 255#64 <<< (8 * 5)) >>> (8 * 3) ||| (v &&& 255#64 <<< (8 * 4)) >>> (8 * 1)
        ||| (v &&& 255#64 <<< (8 * 3)) <<< (8 * 1) ||| (v &&& 255#64 <<< (8 * 2)) <<< (8 * 3)
        ||| (v &&& 255#64 <<< (8 * 1)) <<< (8 * 5) ||| (v &&& 255#64 <<< (8 * 0)) <<< (8 * 7) := rfl
  rw [hmasks]
  simp only [BitVec.extractLsb'_or]
  repeat rw [extractLsb'_byte_ushiftRight v _ i (by decide)]
  repeat rw [extractLsb'_byte_shiftLeft v _ _ hi]
  -- in each place one of the eight bytes arrives
  interval_cases i <;> simp

theorem wordBytes_bswap64 (v : BitVec 64) : wordBytes (bswap64 v) = beBytes 8 v.toNat := by
  have hbyte : ∀ (w : BitVec 64) (i : ℕ), BitVec.ofNat 8 (w.toNat >>> i) = w.extractLsb' i 8 :=
    fun w i => BitVec.eq_of_toNat_eq (by simp)
  rw [wordBytes, ← map_range_leBytes, ← map_range_beBytes]
  refine List.map_congr_left fun i hi => ?_
  rw [hbyte, hbyte, extractLsb'_bswap64 v (List.mem_range.mp hi)]

theorem block_bswap64 (a c : ℕ) :
    block (bswap64 (BitVec.ofNat 64 a * 8)) (bswap64 (BitVec.ofNat 64 c * 8)) = lengthBlock a c := by
  rw [lengthBlock, ← beBytes_mul_eight a, ← beBytes_mul_eight c, ← wordBytes_bswap64, ← wordBytes_bswap64,
    ← block_word (by simp) (by simp), word_wordBytes, word_wordBytes]

theorem inc32_preCounter {iv : List Byte} (h : iv.length = 12) :
    inc32 (preCounter iv) = ofBytes (iv ++ [0, 0, 0, 2]) := by
  rw [inc32, preCounter, toBytes_ofBytes (by simp [h]), ← h, List.take_left, List.drop_left]
  rfl

/-! ## Blocks of text -/

/-- Input and output are one buffer, or do not overlap. -/
def Separate (inp out len : ℕ) : Prop := inp = out ∨ inp + len ≤ out ∨ out + len ≤ inp

instance (inp out len : ℕ) : Decidable (Separate inp out len) :=
  inferInstanceAs (Decidable (_ ∨ _ ∨ _))

variable {inp out len i : ℕ} {m : Mem} {ys : List Byte}

/-- The input from block `i` on is as it was when only the blocks before have been written. -/
theorem read_of_separate (hsep : Separate inp out len) (hys : ys.length = len) {n : ℕ}
    (hn : 16 * i + n ≤ len) :
    (m.write out (ys.take (16 * i))).read (inp + 16 * i) n = m.read (inp + 16 * i) n := by
  refine m.read_write_of_disjoint ?_
  rw [List.length_take, hys]
  unfold Separate at hsep
  omega

theorem write_chunk (hi : 16 * i ≤ ys.length) :
    (m.write out (ys.take (16 * i))).write (out + 16 * i) (chunk i ys)
      = m.write out (ys.take (16 * (i + 1))) := by
  rw [take_succ_chunk, Mem.write_append, List.length_take, Nat.min_eq_left hi]

theorem pieceLen_eq (len i : ℕ) : pieceLen len i = min 16 (len - 16 * i) := by
  unfold pieceLen
  split_ifs <;> omega

theorem chunk_read (m : Mem) (p len i : ℕ) :
    chunk i (m.read p len) = m.read (p + 16 * i) (min 16 (len - 16 * i)) :=
  m.take_drop_read p len (16 * i) 16

/-- The memory after `i` blocks of a text. -/
def cryptMem (ks : ℕ → Block) (m : Mem) (inp out len i : ℕ) : Mem :=
  m.write out ((crypt ks (m.read inp len)).take (16 * i))

variable {ks : ℕ → Block}

@[simp] theorem cryptMem_zero : cryptMem ks m inp out len 0 = m := by simp [cryptMem]

/-- The piece of the input that comes next is still the original one. -/
theorem read_cryptMem (ks : ℕ → Block) (m : Mem) (hsep : Separate inp out len) (hi : 16 * i ≤ len) :
    (cryptMem ks m inp out len i).read (inp + 16 * i) (min 16 (len - 16 * i))
      = chunk i (m.read inp len) := by
  rw [cryptMem, read_of_separate hsep (by simp) (by omega), chunk_read]

/-- **One block on**: the next piece of the input under the next keystream block. -/
theorem cryptMem_succ (hsep : Separate inp out len) (hi : 16 * i ≤ len) :
    (cryptMem ks m inp out len i).write (out + 16 * i)
        (xorBytes ((cryptMem ks m inp out len i).read (inp + 16 * i) (min 16 (len - 16 * i)))
          (toBytes (ks i)))
      = cryptMem ks m inp out len (i + 1) := by
  rw [read_cryptMem ks m hsep hi, ← chunk_crypt, cryptMem, write_chunk (by simpa using hi), cryptMem]

theorem cryptMem_of_le (h : len ≤ 16 * i) :
    cryptMem ks m inp out len i = m.write out (crypt ks (m.read inp len)) := by
  rw [cryptMem, List.take_of_length_le (by simpa using h)]

/-! ## Counter mode on the unit -/

variable {ctr icb : Block} {b : Bool}

theorem runs_ctrBlock (h : d.aes.CountingBy b ctr) (inp out : ℕ) :
    Runs (ctrBlock U inp out) d fun _ d' => d'.aes.CountingBy b (stepBy b ctr) ∧ d'.gcm = d.gcm ∧
      d'.mem = d.mem.write out (xorBytes (d.mem.read inp 16) (toBytes (U.encrypt ctr))) := by
  refine runs_ld64_bind (runs_ld64_bind (runs_onAes_bind (h.start _ _) fun _ a ha => ?_))
  refine runs_onAes_bind ha.takeOut ?_
  rintro _ a ⟨rfl, hcount⟩
  refine runs_store_bind (runs_store ⟨hcount, rfl, ?_⟩)
  rw [st64_st64, block_ld64, toBytes_crypt (by simp)]

theorem runs_ctrTail (h : d.aes.CountingBy b ctr) (inp out : ℕ) {rest : ℕ} (hrest : rest ≤ 16) :
    Runs (ctrTail U inp out rest) d fun r d' =>
      r = (padded (d.mem.read inp rest), toBytes (U.encrypt ctr ^^^ ofBytes (d.mem.read inp rest))) ∧
      d'.aes.CountingBy b (stepBy b ctr) ∧ d'.gcm = d.gcm ∧
      d'.mem = d.mem.write out (xorBytes (d.mem.read inp rest) (toBytes (U.encrypt ctr))) := by
  refine runs_load_bind (runs_onAes_bind (h.start _ _) fun _ a ha => ?_)
  refine runs_onAes_bind ha.takeOut ?_
  rintro _ a ⟨rfl, hcount⟩
  have hlen : (d.mem.read inp rest).length ≤ 16 := by simpa using hrest
  have htake := take_toBytes_xor hlen (U.encrypt ctr)
  rw [Mem.length_read] at htake
  simp only [wordBytes_append, block_padded hlen]
  refine runs_store_bind (Runs.pure ⟨rfl, hcount, rfl, ?_⟩)
  rw [htake]

theorem runs_ctrBlocks (hsep : Separate inp out len) (h : d.aes.CountingBy b icb) :
    Runs (loop (fun i _ => ctrBlock U (inp + 16 * i) (out + 16 * i)) (len / 16) ()) d fun _ d' =>
      d'.aes.CountingBy b ((stepBy b)^[len / 16] icb) ∧ d'.gcm = d.gcm ∧
      d'.mem = cryptMem (unitStream U b icb) d.mem inp out len (len / 16) := by
  refine Runs.loop (fun i _ (d' : Dev) => d'.aes.CountingBy b ((stepBy b)^[i] icb) ∧ d'.gcm = d.gcm ∧
    d'.mem = cryptMem (unitStream U b icb) d.mem inp out len i) ⟨h, rfl, by simp⟩ ?_
  rintro i hi _ d' ⟨haes, hgcm, hmem⟩
  refine (runs_ctrBlock haes _ _).mono ?_
  rintro _ d'' ⟨haes', hgcm', hmem'⟩
  refine ⟨by rwa [Function.iterate_succ_apply'], hgcm'.trans hgcm, ?_⟩
  rw [hmem', hmem, ← cryptMem_succ hsep (by omega), show min 16 (len - 16 * i) = 16 by omega,
    unitStream]

/-- Taking the input out of the tail block leaves its keystream. -/
theorem xorBytes_padded {bs : List Byte} (h : bs.length ≤ 16) (k : Block) :
    xorBytes (toBytes (k ^^^ ofBytes bs)) (padded bs) = toBytes k := by
  rw [← toBytes_ofBytes (length_padded h), ofBytes_padded, ← toBytes_xor, BitVec.xor_assoc,
    BitVec.xor_self, BitVec.xor_zero]

/-- The tail of `aes_ctr_hw`, from the state its full blocks leave. -/
theorem runs_ctrHwTail (hsep : Separate inp out len)
    (haes : d.aes.CountingBy b ((stepBy b)^[len / 16] icb))
    (hmem : d.mem = cryptMem (unitStream U b icb) m inp out len (len / 16)) :
    Runs (ctrHwTail U (inp + 16 * (len / 16)) (out + 16 * (len / 16)) (len % 16)) d fun r d' =>
      d'.aes.CountingBy b ((stepBy b)^[nBlocks len] icb) ∧ d'.gcm = d.gcm ∧
      d'.mem = m.write out (crypt (unitStream U b icb) (m.read inp len)) ∧
      r = if len % 16 > 0 then some (toBytes (unitStream U b icb (len / 16))) else none := by
  unfold ctrHwTail nBlocks
  split_ifs with hrest
  · refine (runs_ctrTail haes _ _ (by omega)).bind ?_
    rintro _ d' ⟨rfl, haes', hgcm', hmem'⟩
    refine Runs.pure ⟨?_, hgcm', ?_, ?_⟩
    · rwa [show (len + 15) / 16 = len / 16 + 1 by omega, Function.iterate_succ_apply']
    · rw [← cryptMem_of_le (i := len / 16 + 1) (by omega), ← cryptMem_succ hsep (by omega), hmem', hmem,
        show min 16 (len - 16 * (len / 16)) = len % 16 by omega, unitStream]
    · rw [xorBytes_padded (by simp; omega), unitStream]
  · refine Runs.pure ⟨?_, rfl, ?_, rfl⟩
    · rwa [show (len + 15) / 16 = len / 16 by omega]
    · rw [hmem, cryptMem_of_le (by omega)]

/-- **`aes_ctr_hw` is counter mode**, in place or between separate buffers.  It leaves the counter block
after the last one used, and the keystream of a short last block. -/
theorem runs_aesCtrHwBy (hsep : Separate inp out len) (h : d.aes.Idle) {ctr : List Byte}
    (hctr : ctr.length = 16) (b : Bool) :
    Runs (aesCtrHw U ctr inp out len b) d fun r d' => d'.aes.Idle ∧ d'.gcm = d.gcm ∧
      d'.mem = d.mem.write out (crypt (unitStream U b (ofBytes ctr)) (d.mem.read inp len)) ∧
      r.1 = toBytes ((stepBy b)^[nBlocks len] (ofBytes ctr)) ∧
      r.2 = if len % 16 > 0 then some (toBytes (unitStream U b (ofBytes ctr) (len / 16)))
        else none := by
  refine runs_onAes_bind (Aes.runs_wait (Q := fun _ a => a = d.aes) h.job rfl) ?_
  rintro _ _ rfl
  refine runs_onAes_bind (h.enterCtrBy b _ _) fun _ a ha => ?_
  rw [block_word_take hctr] at ha
  refine (runs_ctrBlocks hsep ha).bind ?_
  rintro _ d₁ ⟨haes₁, hgcm₁, hmem₁⟩
  refine (runs_ctrHwTail hsep haes₁ hmem₁).bind ?_
  rintro _ d₂ ⟨haes₂, hgcm₂, hmem₂, rfl⟩
  refine runs_onAes_bind (Aes.runs_access (Q := fun r a => a = d₂.aes ∧
    r = (d₂.aes.ctr0, d₂.aes.ctr1)) haes₂.job ⟨rfl, rfl⟩) ?_
  rintro _ _ ⟨rfl, rfl⟩
  refine runs_onAes_bind haes₂.leaveCtr fun _ a hidle =>
    Runs.pure ⟨hidle, hgcm₂.trans hgcm₁, hmem₂, ?_, rfl⟩
  rw [← toBytes_block, haes₂.ctr]

end KlaussRuntime.Crypto
