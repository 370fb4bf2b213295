import KlaussRuntime.Crypto.Blocks
import KlaussRuntime.Machinery.CounterMode

/-!
# Crypto/Ctr — AES-CTR on the unit and in software

The unit counts its counter block on as one big-endian integer.  The software holds the same block as
two words in memory order and carries between them after swapping their bytes; that is the same step
(`block_ctrNext`), so both ways of `aes_ctr` are counter mode (`runs_aesCtr`).
-/

namespace KlaussRuntime.Crypto

open Machinery Machinery.Gcm Machinery.CounterMode

variable {U : Units} {d : Dev} {cfg : Config} {inp out len i n : ℕ} {m : Mem}

/-! ## The counter -/

theorem incFull_iterate (b : Block) (i : ℕ) : incFull^[i] b = counter b i := by
  induction i with
  | zero => exact (counter_zero b).symm
  | succ i ih => rw [Function.iterate_succ_apply', ih, ← counter_counter]; rfl

theorem unitStream_false (nonce : Block) : unitStream U false nonce = stream U.encrypt nonce :=
  funext fun i => congrArg U.encrypt (incFull_iterate nonce i)

theorem bswap64_bswap64 (v : BitVec 64) : bswap64 (bswap64 v) = v := by
  have hreverse : ∀ w, wordBytes (bswap64 w) = (wordBytes w).reverse := wordBytes_bswap64
  rw [← word_wordBytes (bswap64 (bswap64 v)), hreverse, hreverse, List.reverse_reverse, word_wordBytes]

/-- Two words with their bytes swapped are the block of one big-endian integer. -/
theorem toBytes_block_bswap64 (lo hi : BitVec 64) :
    toBytes (block (bswap64 lo) (bswap64 hi)) = beBytes 16 (hi.toNat + 2 ^ 64 * lo.toNat) := by
  have hhi := hi.isLt
  have hdiv : (hi.toNat + 2 ^ 64 * lo.toNat) / 256 ^ 8 = lo.toNat := by omega
  have hmod : (hi.toNat + 2 ^ 64 * lo.toNat) % 256 ^ 8 = hi.toNat := by omega
  rw [toBytes_block, wordBytes_bswap64, wordBytes_bswap64, beBytes_add 8 8, hdiv,
    ← beBytes_mod 8 (hi.toNat + _), hmod]

/-- **The carry between the words** is that of the whole counter. -/
theorem block_ctrNext (c : BitVec 64 × BitVec 64) :
    block (ctrNext c).1 (ctrNext c).2 = incFull (block c.1 c.2) := by
  obtain ⟨lo, hi, rfl⟩ : ∃ lo hi, c = (bswap64 lo, bswap64 hi) :=
    ⟨bswap64 c.1, bswap64 c.2, by rw [bswap64_bswap64, bswap64_bswap64]⟩
  have hnext : ctrNext (bswap64 lo, bswap64 hi)
      = (bswap64 (if hi + 1 = 0 then lo + 1 else lo), bswap64 (hi + 1)) := by
    rw [ctrNext, bswap64_bswap64, bswap64_bswap64]
    split_ifs <;> rfl
  have hsum : (hi + 1).toNat + 2 ^ 64 * (if hi + 1 = 0 then lo + 1 else lo).toNat
      = (hi.toNat + 2 ^ 64 * lo.toNat + 1) % 256 ^ 16 := by
    have hlo := lo.isLt
    have hhi := hi.isLt
    have hlo' : (lo + 1).toNat = (lo.toNat + 1) % 2 ^ 64 := BitVec.toNat_add lo 1
    have hhi' : (hi + 1).toNat = (hi.toNat + 1) % 2 ^ 64 := BitVec.toNat_add hi 1
    have hzero : hi + 1 = 0 ↔ (hi + 1).toNat = 0 := BitVec.toNat_inj.symm
    split_ifs with hcarry <;> rw [hzero] at hcarry <;> omega
  have hnow : (hi.toNat + 2 ^ 64 * lo.toNat) % 256 ^ 16 = hi.toNat + 2 ^ 64 * lo.toNat :=
    Nat.mod_eq_of_lt (by have := lo.isLt; have := hi.isLt; omega)
  rw [hnext, incFull, toBytes_block_bswap64, beNat_beBytes, hnow, ← beBytes_mod, ← hsum,
    ← toBytes_block_bswap64, ofBytes_toBytes]

/-! ## The software loop -/

/-- **Byte by byte** the output is the input under the key bytes. -/
theorem runs_xorEach (hsep : Separate inp out n) {ks : List Byte} (hks : n ≤ ks.length) :
    Runs (xorEach inp out ks n) d fun _ d' =>
      d' = { d with mem := d.mem.write out (xorBytes (d.mem.read inp n) ks) } := by
  have hlen : (xorBytes (d.mem.read inp n) ks).length = n := by simp [xorBytes, hks]
  refine (Runs.loop (fun i _ d' => d' = { d with
    mem := d.mem.write out ((xorBytes (d.mem.read inp n) ks).take i) }) (by simp) ?_).mono ?_
  · rintro i hi _ _ rfl
    refine runs_load_bind (runs_store ?_)
    have hread : (d.mem.write out ((xorBytes (d.mem.read inp n) ks).take i)).read (inp + i) 1
        = [d.mem (inp + i)] := by
      refine (d.mem.read_write_of_disjoint ?_).trans (by simp [Mem.read])
      rw [List.length_take, hlen]
      unfold Separate at hsep
      omega
    have hi' : i < (xorBytes (d.mem.read inp n) ks).length := by omega
    have hget : (xorBytes (d.mem.read inp n) ks)[i] = d.mem (inp + i) ^^^ ks.getD i 0 := by
      rw [List.getD_eq_getElem _ _ (by omega)]
      simp [xorBytes, Mem.read]
    rw [hread, List.take_succ_eq_append_getElem hi', Mem.write_append, hget, List.length_take, hlen,
      Nat.min_eq_left hi.le]
    rfl
  · rintro _ _ rfl
    rw [List.take_of_length_le hlen.le]

theorem runs_ctrRawBlock (h : d.aes.Idle) (c : BitVec 64 × BitVec 64) (inp out : ℕ) :
    Runs (ctrRawBlock U inp out c) d fun c' d' => c' = ctrNext c ∧ d'.aes.Idle ∧ d'.gcm = d.gcm ∧
      d'.mem = d.mem.write out
        (xorBytes (d.mem.read inp 16) (toBytes (U.encrypt (block c.1 c.2)))) := by
  refine runs_onAes_bind (h.ecb _ _) ?_
  rintro _ a ⟨rfl, ha⟩
  refine runs_ld64_bind (runs_ld64_bind (runs_store_bind (runs_store_bind
    (Runs.pure ⟨rfl, ha, rfl, ?_⟩))))
  have hblock : ∀ v w : BitVec 64, (d.mem.write out (wordBytes v)).write (out + 8) (wordBytes w)
      = d.mem.write out (toBytes (block v w)) := fun v w => by
    rw [toBytes_block, Mem.write_append, length_wordBytes]
  rw [hblock, block_xor, block_words, block_ld64, BitVec.xor_comm, toBytes_crypt (by simp)]

theorem runs_ctrRawBlocks (hsep : Separate inp out len) (h : d.aes.Idle) (c : BitVec 64 × BitVec 64) :
    Runs (loop (fun i c => ctrRawBlock U (inp + 16 * i) (out + 16 * i) c) (len / 16) c) d fun c' d' =>
      block c'.1 c'.2 = counter (block c.1 c.2) (len / 16) ∧ d'.aes.Idle ∧ d'.gcm = d.gcm ∧
      d'.mem = cryptMem (stream U.encrypt (block c.1 c.2)) d.mem inp out len (len / 16) := by
  refine Runs.loop (fun i (c' : BitVec 64 × BitVec 64) (d' : Dev) =>
    block c'.1 c'.2 = counter (block c.1 c.2) i ∧ d'.aes.Idle ∧ d'.gcm = d.gcm ∧
    d'.mem = cryptMem (stream U.encrypt (block c.1 c.2)) d.mem inp out len i)
    ⟨(counter_zero (block c.1 c.2)).symm, h, rfl, by rw [cryptMem_zero]⟩ ?_
  rintro i hi c' d' ⟨hc, haes, hgcm, hmem⟩
  refine (runs_ctrRawBlock haes c' _ _).mono ?_
  rintro _ d'' ⟨rfl, haes', hgcm', hmem'⟩
  refine ⟨?_, haes', hgcm'.trans hgcm, ?_⟩
  · rw [block_ctrNext, hc, ← counter_counter]
    rfl
  · rw [hmem', hmem, hc, ← cryptMem_succ hsep (by omega), show min 16 (len - 16 * i) = 16 by omega,
      stream]

theorem runs_ctrRawTail (h : d.aes.Idle) (c : BitVec 64 × BitVec 64) (hsep : Separate inp out n)
    (hn : n ≤ 16) :
    Runs (ctrRawTail U inp out n c) d fun _ d' => d'.aes.Idle ∧ d'.gcm = d.gcm ∧
      d'.mem = d.mem.write out
        (xorBytes (d.mem.read inp n) (toBytes (U.encrypt (block c.1 c.2)))) := by
  unfold ctrRawTail
  split_ifs with hpos
  · refine runs_onAes_bind (h.ecb _ _) ?_
    rintro _ a ⟨rfl, ha⟩
    simp only [wordBytes_append]
    refine (runs_xorEach hsep (by simpa using hn)).mono ?_
    rintro _ _ rfl
    exact ⟨ha, rfl, rfl⟩
  · obtain rfl : n = 0 := by omega
    exact Runs.pure ⟨h, rfl, by simp [xorBytes, Mem.read]⟩

/-- **`aes_ctr`** is counter mode, on the unit's counter and on the one in software. -/
theorem runs_aesCtr (hsep : Separate inp out len) (h : d.aes.Idle) (lo hi : BitVec 64) :
    Runs (aesCtr U cfg lo hi inp out len) d fun _ d' => d'.aes.Idle ∧ d'.gcm = d.gcm ∧
      d'.mem = d.mem.write out (ctr U.encrypt (block lo hi) (d.mem.read inp len)) := by
  unfold aesCtr
  split_ifs
  · refine (runs_aesCtrHwBy hsep h (by simp) false).bind fun _ d' hd => Runs.pure ⟨hd.1, hd.2.1, ?_⟩
    rw [hd.2.2.1, unitStream_false, ← toBytes_block, ofBytes_toBytes, ctr]
  · refine (runs_ctrRawBlocks hsep h (lo, hi)).bind ?_
    rintro c d' ⟨hc, haes, hgcm, hmem⟩
    have hsep' : Separate (inp + 16 * (len / 16)) (out + 16 * (len / 16)) (len % 16) := by
      unfold Separate at hsep ⊢
      omega
    refine (runs_ctrRawTail haes c hsep' (by omega)).mono ?_
    rintro _ d'' ⟨haes', hgcm', hmem'⟩
    refine ⟨haes', hgcm'.trans hgcm, ?_⟩
    rw [ctr, ← cryptMem_of_le (i := len / 16 + 1) (by omega), ← cryptMem_succ hsep (by omega), hmem', hmem,
      hc, show min 16 (len - 16 * (len / 16)) = len % 16 by omega, stream]

/-! ## Under a key -/

variable {α : Type} {C : Cipher} {s : KeyedDev}

theorem runs_withKey {p : Units → Prog Dev α} {P : α → Dev → Prop} {Q : α → KeyedDev → Prop}
    (hp : Runs (p (C.units s.key)) s.dev P) (h : ∀ r d, P r d → Q r { s with dev := d }) :
    Runs (withKey C p) s Q := by
  refine (Runs.get (Q := fun s' s'' => s' = s ∧ s'' = s) ⟨rfl, rfl⟩).bind ?_
  rintro _ _ ⟨rfl, rfl⟩
  exact Runs.zoom hp h

/-- **`aes_hw_set_key`** changes the key and nothing a driver sees. -/
theorem runs_aesHwSetKey (hs : s.dev.aes.Idle) (keyLo keyHi : BitVec 64) :
    Runs (aesHwSetKey keyLo keyHi) s fun _ s' => s'.key = block keyLo keyHi ∧ s'.dev.aes.Idle ∧
      s'.dev.mem = s.dev.mem :=
  Runs.gated (Option.isSome_eq_false_iff.mpr (Option.isNone_iff_eq_none.mpr hs.job))
    ⟨rfl, ⟨hs.job, hs.ctrMode⟩, rfl⟩

theorem runs_withKey_aesCtr (hs : s.dev.aes.Idle) (hsep : Separate inp out len) (lo hi : BitVec 64) :
    Runs (withKey C fun U => aesCtr U cfg lo hi inp out len) s fun _ s' => s'.key = s.key ∧
      s'.dev.aes.Idle ∧ s'.dev.mem = s.dev.mem.write out
        (ctr (C.encrypt s.key) (block lo hi) (s.dev.mem.read inp len)) :=
  runs_withKey (runs_aesCtr hsep hs lo hi) fun _ _ hd => ⟨rfl, hd.1, hd.2.2⟩

theorem runs_withKey_aesCtrHw (hs : s.dev.aes.Idle) (hsep : Separate inp out len) {c : List Byte}
    (hc : c.length = 16) :
    Runs (withKey C fun U => aesCtrHw U c inp out len false) s fun r s' => s'.key = s.key ∧
      s'.dev.aes.Idle ∧
      s'.dev.mem = s.dev.mem.write out (ctr (C.encrypt s.key) (ofBytes c) (s.dev.mem.read inp len)) ∧
      r.1 = toBytes (counter (ofBytes c) (nBlocks len)) ∧
      r.2 = if len % 16 > 0 then some (toBytes (stream (C.encrypt s.key) (ofBytes c) (len / 16)))
        else none := by
  refine runs_withKey (runs_aesCtrHwBy hsep hs hc false) fun r d hd => ⟨rfl, hd.1, ?_, ?_, ?_⟩
  · rw [hd.2.2.1, unitStream_false]
    rfl
  · rw [hd.2.2.2.1, ← incFull_iterate]
    rfl
  · rw [hd.2.2.2.2, unitStream_false]
    rfl

/-- **Hardware CTR and the software loop encrypt alike.**  Whatever the bitstream offers, `aes_ctr` puts
the input under `E(nonce)`, `E(nonce + 1)`, … with the counter a big-endian integer modulo `2¹²⁸`, and so
does `aes_ctr_full` under the key it is given; `aes_ctr_hw` moreover leaves the counter advanced by the
number of blocks used and the keystream of a short last block. -/
theorem aes_ctr_agreement (C : Cipher) {s : KeyedDev} (hs : s.dev.aes.Idle) {inp out len : ℕ}
    (hsep : Separate inp out len) (cfg : Config) (nonceLo nonceHi : BitVec 64) :
    Runs (withKey C fun U => aesCtr U cfg nonceLo nonceHi inp out len) s (fun _ s' =>
      s'.dev.mem = s.dev.mem.write out
        (ctr (C.encrypt s.key) (block nonceLo nonceHi) (s.dev.mem.read inp len))) ∧
    (∀ keyLo keyHi, Runs (aesCtrFull cfg C keyLo keyHi nonceLo nonceHi inp out len) s (fun _ s' =>
      s'.dev.mem = s.dev.mem.write out
        (ctr (C.encrypt (block keyLo keyHi)) (block nonceLo nonceHi) (s.dev.mem.read inp len)))) ∧
    ∀ c : List Byte, c.length = 16 →
      Runs (withKey C fun U => aesCtrHw U c inp out len false) s fun r s' =>
        s'.dev.mem = s.dev.mem.write out
          (ctr (C.encrypt s.key) (ofBytes c) (s.dev.mem.read inp len)) ∧
        r.1 = toBytes (counter (ofBytes c) (nBlocks len)) ∧
        r.2 = if len % 16 > 0 then some (toBytes (C.encrypt s.key (counter (ofBytes c) (len / 16))))
          else none := by
  refine ⟨?_, fun keyLo keyHi => ?_, fun c hc => ?_⟩
  · exact (runs_withKey_aesCtr hs hsep nonceLo nonceHi).mono fun _ _ h => h.2.2
  · refine (runs_aesHwSetKey hs keyLo keyHi).bind fun _ s₁ h₁ => ?_
    refine (runs_withKey_aesCtr h₁.2.1 hsep nonceLo nonceHi).mono fun _ s₂ h₂ => ?_
    rw [h₂.2.2, h₁.1, h₁.2.2]
  · exact (runs_withKey_aesCtrHw hs hsep hc).mono fun _ _ h => h.2.2

/-- A cipher for examples… -/
def xorCipher : Cipher := ⟨fun key b => key ^^^ b, fun a h => (a ^^^ h).rotateLeft 1⟩

/-- …and a device with a memory, its units at rest. -/
def KeyedDev.reset (m : Mem) (key : Block) : KeyedDev :=
  ⟨⟨m, ⟨0, 0, 0, 0, 0, 0, false, false, false, none⟩, ⟨0, 0, 0, 0, 0, false⟩⟩, key⟩

/-- Forty bytes in place in software, from a nonce that wraps to zero after the first block. -/
theorem aes_ctr_agreement_wrap :
    let s := KeyedDev.reset (fun a => BitVec.ofNat 8 a) 7
    s.dev.aes.Idle ∧ Separate 16 16 40 ∧
    Runs (withKey xorCipher fun U => aesCtr U ⟨false, false, false⟩ (-1) (-1) 16 16 40) s fun _ s' =>
      s'.dev.mem = s.dev.mem.write 16
        (ctr (xorCipher.encrypt 7) (block (-1) (-1)) (s.dev.mem.read 16 40)) :=
  ⟨⟨rfl, rfl⟩, by decide, (aes_ctr_agreement xorCipher ⟨rfl, rfl⟩ (by decide) _ _ _).1⟩

end KlaussRuntime.Crypto
