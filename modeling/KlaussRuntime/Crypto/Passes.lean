import KlaussRuntime.Crypto.Blocks

/-!
# Crypto/Passes — what the loops of the GCM drivers compute

The loops over a text — on the unit's counter (`runs_aesCtrHw`), on a counter in software
(`runs_ctrSoft`), in one pass with GHASH (`runs_gcmCtrGhash`) — share one invariant: after `i` blocks the
output holds the first `16 * i` bytes of the counter-mode text (`ctrMem`) and the counter has been
incremented `i` times.  The single pass adds what GHASH still owes (`Owed.Covers`).
-/

namespace KlaussRuntime.Crypto

open Machinery Machinery.Gcm

variable {U : Units} {d : Dev} {inp out len i : ℕ} {m : Mem} {ctr icb : Block}

/-! ## Counter mode with the 32-bit step -/

/-- The memory after `i` blocks of counter mode. -/
def ctrMem (U : Units) (icb : Block) (m : Mem) (inp out len i : ℕ) : Mem :=
  m.write out ((gctr U.encrypt icb (m.read inp len)).take (16 * i))

theorem ctrMem_eq_cryptMem : ctrMem U icb m inp out len i
    = cryptMem (fun i => U.encrypt (inc32^[i] icb)) m inp out len i := by
  rw [ctrMem, gctr_eq_crypt, cryptMem]

@[simp] theorem ctrMem_zero : ctrMem U icb m inp out len 0 = m := by simp [ctrMem]

/-- **One block on**: the next piece of the input under the next keystream block. -/
theorem ctrMem_succ (hsep : Separate inp out len) (hi : 16 * i ≤ len) :
    (ctrMem U icb m inp out len i).write (out + 16 * i)
        (xorBytes ((ctrMem U icb m inp out len i).read (inp + 16 * i) (min 16 (len - 16 * i)))
          (toBytes (U.encrypt (inc32^[i] icb))))
      = ctrMem U icb m inp out len (i + 1) := by
  rw [ctrMem_eq_cryptMem, ctrMem_eq_cryptMem, ← cryptMem_succ hsep hi]

theorem ctrMem_of_le (h : len ≤ 16 * i) :
    ctrMem U icb m inp out len i = m.write out (gctr U.encrypt icb (m.read inp len)) := by
  rw [ctrMem_eq_cryptMem, cryptMem_of_le h, gctr_eq_crypt]

/-- The piece of the input that round `i` handles is still the original one. -/
theorem read_ctrMem (U : Units) (icb : Block) (m : Mem) (hsep : Separate inp out len)
    (hi : 16 * i ≤ len) :
    (ctrMem U icb m inp out len i).read (inp + 16 * i) (min 16 (len - 16 * i))
      = chunk i (m.read inp len) := by
  rw [ctrMem_eq_cryptMem, read_cryptMem _ m hsep hi]

theorem runs_aesCtrHw (hsep : Separate inp out len) (h : d.aes.Idle) {ctr : List Byte}
    (hctr : ctr.length = 16) :
    Runs (aesCtrHw U ctr inp out len true) d fun _ d' => d'.aes.Idle ∧ d'.gcm = d.gcm ∧
      d'.mem = d.mem.write out (gctr U.encrypt (ofBytes ctr) (d.mem.read inp len)) := by
  refine (runs_aesCtrHwBy hsep h hctr true).mono fun _ d' hd => ⟨hd.1, hd.2.1, ?_⟩
  rw [hd.2.2.1, gctr_eq_crypt]
  rfl

/-! ## Hashing -/

variable {h y : Block}

theorem runs_ghashBlock {g : Ghash} (hg : g.Holds h y) {data : List Byte} (hlen : data.length ≤ 16) :
    Runs (ghashBlock U data) g fun _ g' => g'.Holds h (U.mul (y ^^^ ofBytes data) h) := by
  unfold ghashBlock
  split_ifs with hfull
  · rw [← block_word_take hfull]
    exact hg.gcmGhashBlock _ _
  · simp only [List.take_of_length_le hlen]
    rw [← block_padded hlen]
    exact hg.gcmGhashBlock _ _

/-- The hash after `i` blocks of a text. -/
def hashAt (U : Units) (h y : Block) (xs : List Byte) (i : ℕ) : Block :=
  ghashFrom U.mul h y ((List.range i).map fun i => ofBytes (chunk i xs))

theorem hashAt_succ (xs : List Byte) :
    hashAt U h y xs (i + 1) = U.mul (hashAt U h y xs i ^^^ ofBytes (chunk i xs)) h := by
  rw [hashAt, List.range_succ, List.map_append, ghashFrom_append]
  rfl

/-- **Hashing a region** hashes its blocks. -/
theorem runs_ghashRegion (hg : d.gcm.Holds h y) (p len : ℕ) :
    Runs (ghashRegion U p len) d fun _ d' => d'.mem = d.mem ∧ d'.aes = d.aes ∧
      d'.gcm.Holds h (ghashFrom U.mul h y (blocks (d.mem.read p len))) := by
  rw [blocks, Mem.length_read]
  refine Runs.loop (fun i _ (d' : Dev) => d'.mem = d.mem ∧ d'.aes = d.aes ∧
    d'.gcm.Holds h (hashAt U h y (d.mem.read p len) i)) ⟨rfl, rfl, hg⟩ ?_
  rintro i hi _ d' ⟨hmem, haes, hgcm⟩
  refine runs_load_bind ?_
  rw [hmem, pieceLen_eq, ← chunk_read]
  refine runs_onGcm (runs_ghashBlock hgcm (by simp [length_chunk])) fun _ g hg' => ⟨hmem, haes, ?_⟩
  rwa [hashAt_succ]

/-- **The tag** under its mask. -/
theorem runs_gcmCtrTag {g : Ghash} (hg : g.Holds h y) (aadLen len : ℕ) {mask : Block} :
    Runs (gcmCtrTag U aadLen len (lowWord mask) (highWord mask)) g fun r g' =>
      r = toBytes (U.mul (y ^^^ lengthBlock aadLen len) h ^^^ mask) ∧ g'.busy = false := by
  refine (hg.gcmGhashBlock _ _).bind fun _ g' hg' => ?_
  rw [block_bswap64] at hg'
  refine hg'.readTag.bind ?_
  rintro _ _ ⟨rfl, rfl⟩
  refine Runs.pure ⟨?_, hg'.busy⟩
  rw [← toBytes_block, block_xor, block_words, block_words]

/-! ## The single pass -/

/-- GHASH has taken in the text up to `y`, counting the block it still owes. -/
def Owed.Covers (U : Units) (h y : Block) (owed : Owed) (g : Ghash) : Prop :=
  if owed.pending then ∃ y₀, g.Settles U h y₀ ∧ U.mul (y₀ ^^^ block owed.p0 owed.p1) h = y
  else g.Settles U h y

theorem runs_payOwed {g : Ghash} {owed : Owed} (hg : owed.Covers U h y g) :
    Runs (payOwed U owed) g fun _ g' => g'.Settles U h y := by
  unfold payOwed
  unfold Owed.Covers at hg
  split_ifs at hg ⊢ with hpending
  · obtain ⟨y₀, hsettles, rfl⟩ := hg
    exact hsettles.waitDone.bind fun _ g' hg' => hg'.start _ _
  · exact Runs.pure hg

/-- **One round** of the single pass. -/
theorem runs_gcmRound {owed : Owed} {dec : Bool} (haes : d.aes.Counting ctr)
    (hgcm : owed.Covers U h y d.gcm) (hdec : dec = true → owed.pending = false) (inp out : ℕ) :
    Runs (gcmRound U inp out dec owed) d fun owed' d' =>
      let text := d.mem.read inp 16
      let crypt := xorBytes text (toBytes (U.encrypt ctr))
      d'.aes.Counting (inc32 ctr) ∧ d'.mem = d.mem.write out crypt ∧
      owed'.Covers U h (U.mul (y ^^^ ofBytes (if dec then text else crypt)) h) d'.gcm ∧
      (dec = true → owed'.pending = false) := by
  refine runs_ld64_bind (runs_ld64_bind (runs_onAes_bind (haes.start _ _) fun _ a ha => ?_))
  rw [block_ld64] at ha
  have hcrypt := toBytes_crypt (d.mem.length_read inp 16) (U.encrypt ctr)
  cases dec with
  | true =>
    -- this block's ciphertext is at hand: hash it alongside
    have hcovers : Owed.Covers U h (U.mul (y ^^^ ofBytes (d.mem.read inp 16)) h)
        ⟨word (d.mem.read inp 8), word (d.mem.read (inp + 8) 8), true⟩ d.gcm := by
      rw [Owed.Covers, hdec rfl] at hgcm
      exact ⟨y, hgcm, by rw [block_ld64]⟩
    refine runs_onGcm_bind (runs_payOwed hcovers) fun _ g hg => ?_
    refine runs_onAes_bind ha.takeOut ?_
    rintro _ a' ⟨rfl, hcount⟩
    refine runs_store_bind (runs_store_bind (Runs.pure ⟨hcount, ?_, hg, fun _ => rfl⟩))
    rw [st64_st64, hcrypt]
  | false =>
    -- the ciphertext comes out of this round: hash the one before, owe this one
    refine runs_onGcm_bind (runs_payOwed hgcm) fun _ g hg => ?_
    refine runs_onAes_bind ha.takeOut ?_
    rintro _ a' ⟨rfl, hcount⟩
    refine runs_store_bind (runs_store_bind (Runs.pure ⟨hcount, ?_, ⟨y, hg, ?_⟩, nofun⟩))
    · rw [st64_st64, hcrypt]
    · simp only [block_words, ← hcrypt, ofBytes_toBytes, Bool.false_eq_true, if_false]

theorem take_padded (bs : List Byte) : (padded bs).take bs.length = bs := List.take_left

theorem runs_gcmTail {dec : Bool} {rest : ℕ} (haes : d.aes.Counting ctr)
    (hgcm : d.gcm.Settles U h y) (hpos : rest > 0) (hrest : rest ≤ 16) (inp out : ℕ) :
    Runs (gcmTail U inp out rest dec) d fun _ d' =>
      let text := d.mem.read inp rest
      let crypt := xorBytes text (toBytes (U.encrypt ctr))
      d'.aes.Counting (inc32 ctr) ∧ d'.mem = d.mem.write out crypt ∧
      d'.gcm.Settles U h (U.mul (y ^^^ ofBytes (if dec then text else crypt)) h) := by
  have hlen : (d.mem.read inp rest).length = rest := by simp
  have hcrypt := take_toBytes_xor (hlen.trans_le hrest) (U.encrypt ctr)
  have htext := take_padded (d.mem.read inp rest)
  rw [hlen] at hcrypt htext
  rw [gcmTail, if_pos hpos]
  refine (runs_ctrTail (Aes.counting_iff.mp haes) inp out hrest).bind ?_
  rintro _ d₁ ⟨rfl, haes₁, hgcm₁, hmem₁⟩
  refine runs_onGcm_bind (hgcm₁ ▸ hgcm.waitDone) fun _ g hg => ?_
  refine runs_onGcm (hg.gcmGhashBlock _ _) fun _ g' hg' =>
    ⟨Aes.counting_iff.mpr haes₁, hmem₁, ?_⟩
  have hhash : (if dec then padded (d.mem.read inp rest) else
        toBytes (U.encrypt ctr ^^^ ofBytes (d.mem.read inp rest))).take rest
      = if dec then d.mem.read inp rest
        else xorBytes (d.mem.read inp rest) (toBytes (U.encrypt ctr)) := by
    cases dec with
    | true => exact htext
    | false => exact hcrypt
  have hle : (if dec then d.mem.read inp rest
      else xorBytes (d.mem.read inp rest) (toBytes (U.encrypt ctr))).length ≤ 16 := by
    cases dec <;> simp [xorBytes, hrest]
  simp only [hhash] at hg'
  rw [block_padded hle] at hg'
  exact hg'.settles

/-- The text the single pass hashes: the ciphertext, which is its input when decrypting. -/
def hashedText (U : Units) (icb : Block) (dec : Bool) (text : List Byte) : List Byte :=
  if dec then text else gctr U.encrypt icb text

theorem length_hashedText (dec : Bool) (text : List Byte) :
    (hashedText U icb dec text).length = text.length := by
  cases dec <;> simp [hashedText]

theorem chunk_hashedText (dec : Bool) (text : List Byte) (i : ℕ) :
    chunk i (hashedText U icb dec text) = if dec then chunk i text
      else xorBytes (chunk i text) (toBytes (U.encrypt (inc32^[i] icb))) := by
  cases dec with
  | true => rfl
  | false => exact chunk_gctr _ _ _ _

theorem runs_gcmRounds (hsep : Separate inp out len) (haes : d.aes.Counting icb)
    (hgcm : d.gcm.Holds h y) (dec : Bool) :
    Runs (loop (fun i owed => gcmRound U (inp + 16 * i) (out + 16 * i) dec owed) (len / 16)
      ⟨0, 0, false⟩) d fun owed d' =>
        d'.aes.Counting (inc32^[len / 16] icb) ∧
        d'.mem = ctrMem U icb d.mem inp out len (len / 16) ∧
        owed.Covers U h
          (hashAt U h y (hashedText U icb dec (d.mem.read inp len)) (len / 16)) d'.gcm := by
  refine (Runs.loop (fun i (owed : Owed) (d' : Dev) => d'.aes.Counting (inc32^[i] icb) ∧
    d'.mem = ctrMem U icb d.mem inp out len i ∧
    owed.Covers U h (hashAt U h y (hashedText U icb dec (d.mem.read inp len)) i) d'.gcm ∧
    (dec = true → owed.pending = false)) (b := ⟨0, 0, false⟩)
    ⟨haes, by simp, hgcm.settles, fun _ => rfl⟩ ?_).mono
    fun _ _ hd => ⟨hd.1, hd.2.1, hd.2.2.1⟩
  rintro i hi owed d' ⟨haes', hmem', hcovers, hdec⟩
  refine (runs_gcmRound haes' hcovers hdec _ _).mono ?_
  rintro owed' d'' ⟨haes'', hmem'', hcovers', hdec'⟩
  have hmin : min 16 (len - 16 * i) = 16 := by omega
  have hpiece := read_ctrMem U icb d.mem hsep (show 16 * i ≤ len by omega)
  rw [hmin] at hpiece
  refine ⟨by rwa [Function.iterate_succ_apply'], ?_, ?_, hdec'⟩
  · rw [hmem'', hmem', ← ctrMem_succ hsep (by omega), hmin]
  · simp only [hmem', hpiece, ← chunk_hashedText] at hcovers'
    rwa [hashAt_succ]

/-- The rest of the single pass, from the state its rounds leave. -/
theorem runs_gcmRest (hsep : Separate inp out len) {dec : Bool}
    (haes : d.aes.Counting (inc32^[len / 16] icb))
    (hmem : d.mem = ctrMem U icb m inp out len (len / 16))
    (hgcm : d.gcm.Settles U h
      (hashAt U h y (hashedText U icb dec (m.read inp len)) (len / 16))) :
    Runs (gcmTail U (inp + 16 * (len / 16)) (out + 16 * (len / 16)) (len % 16) dec) d fun _ d' =>
      (∃ c, d'.aes.Counting c) ∧ d'.mem = m.write out (gctr U.encrypt icb (m.read inp len)) ∧
      d'.gcm.Settles U h
        (ghashFrom U.mul h y (blocks (hashedText U icb dec (m.read inp len)))) := by
  rw [blocks, length_hashedText, Mem.length_read, nBlocks]
  by_cases hrest : len % 16 > 0
  · refine (runs_gcmTail haes hgcm hrest (by omega) _ _).mono ?_
    rintro _ d' ⟨haes', hmem', hgcm'⟩
    have hmin : min 16 (len - 16 * (len / 16)) = len % 16 := by omega
    have hpiece := read_ctrMem U icb m hsep (show 16 * (len / 16) ≤ len by omega)
    rw [hmin] at hpiece
    refine ⟨⟨_, haes'⟩, ?_, ?_⟩
    · rw [← ctrMem_of_le (i := len / 16 + 1) (by omega), ← ctrMem_succ hsep (by omega), hmem', hmem,
        hmin]
    · simp only [hmem, hpiece, ← chunk_hashedText] at hgcm'
      rwa [← hashAt_succ, hashAt, show len / 16 + 1 = (len + 15) / 16 by omega] at hgcm'
  · rw [gcmTail, if_neg hrest]
    refine Runs.pure ⟨⟨_, haes⟩, ?_, ?_⟩
    · rw [← ctrMem_of_le (i := len / 16) (by omega), hmem]
    · rwa [hashAt, show len / 16 = (len + 15) / 16 by omega] at hgcm

/-- **The single pass** is counter mode and the hash of the ciphertext. -/
theorem runs_gcmCtrGhash (hsep : Separate inp out len) (haes : d.aes.Counting icb)
    (hgcm : d.gcm.Holds h y) (dec : Bool) :
    Runs (gcmCtrGhash U inp out len dec) d fun _ d' => d'.aes.Idle ∧
      d'.mem = d.mem.write out (gctr U.encrypt icb (d.mem.read inp len)) ∧
      d'.gcm.Holds h
        (ghashFrom U.mul h y (blocks (hashedText U icb dec (d.mem.read inp len)))) := by
  refine (runs_gcmRounds hsep haes hgcm dec).bind ?_
  rintro owed d₁ ⟨haes₁, hmem₁, hcovers⟩
  refine runs_onGcm_bind (runs_payOwed hcovers) fun _ g hg => ?_
  refine (runs_gcmRest (d := { d₁ with gcm := g }) hsep haes₁ hmem₁ hg).bind ?_
  rintro _ d₂ ⟨⟨c, haes₂⟩, hmem₂, hgcm₂⟩
  refine runs_onGcm_bind hgcm₂.waitDone fun _ g' hg' => ?_
  exact runs_onAes haes₂.leaveCtr fun _ a ha => ⟨ha, hmem₂, hg'⟩

/-! ## Setting up -/

theorem runs_hashKey {a : Aes} (h : a.Idle) :
    Runs (aesHwEncrypt U 0 0) a fun r a' =>
      r = (lowWord (U.encrypt 0), highWord (U.encrypt 0)) ∧ a'.Idle := h.ecb 0 0

theorem block_preCounter {iv : List Byte} (h : iv.length = 12) :
    block (word ((iv ++ [0, 0, 0, 1]).take 8)) (word ((iv ++ [0, 0, 0, 1]).drop 8))
      = preCounter iv := block_word_take (by simp [h])

/-- **The setup of the single pass** leaves the mask, the hash of the AAD, and the counter at
`J0 + 1`. -/
theorem runs_gcmCtrSetup (haes : d.aes.Idle) (hgcm : d.gcm.busy = false) (iv aad aadLen : ℕ) :
    Runs (gcmCtrSetup U iv aad aadLen) d fun r d' =>
      let j0 := preCounter (d.mem.read iv 12)
      r = (lowWord (U.encrypt j0), highWord (U.encrypt j0)) ∧ d'.mem = d.mem ∧
      d'.aes.Counting (inc32 j0) ∧
      d'.gcm.Holds (U.encrypt 0) (ghash U.mul (U.encrypt 0) (blocks (d.mem.read aad aadLen))) := by
  refine runs_onAes_bind (Aes.runs_wait (Q := fun _ a => a = d.aes) haes.job rfl) ?_
  rintro _ _ rfl
  refine runs_onAes_bind (Aes.runs_access (Q := fun _ a => a.Idle) haes.job ⟨haes.job, rfl⟩)
    fun _ a ha => ?_
  refine runs_onAes_bind (runs_hashKey ha) ?_
  rintro _ a₁ ⟨rfl, ha₁⟩
  refine runs_onGcm_bind (Ghash.runs_writeH hgcm _ _) fun _ g₀ hg₀ => ?_
  refine runs_onGcm_bind hg₀.reset fun _ g hg => ?_
  rw [block_words] at hg
  refine (runs_ghashRegion (d := { d with aes := a₁, gcm := g }) hg aad aadLen).bind ?_
  rintro _ d₁ ⟨hmem₁, haes₁, hgcm₁⟩
  refine runs_load_bind ?_
  rw [hmem₁]
  refine runs_onAes_bind (Aes.Idle.enterCtr (haes₁ ▸ ha₁) _ _) fun _ a₂ ha₂ => ?_
  rw [block_preCounter (by simp)] at ha₂
  refine runs_onAes_bind (ha₂.start 0 0) fun _ a₃ ha₃ => ?_
  rw [show block 0 0 = 0#128 from rfl, BitVec.xor_zero] at ha₃
  exact runs_onAes ha₃.takeOut fun r a₄ ha₄ => ⟨ha₄.1, hmem₁, ha₄.2, hgcm₁⟩

/-- **The prelude of the two passes** does the same with raw blocks. -/
theorem runs_gcmPrelude (haes : d.aes.Idle) (hgcm : d.gcm.busy = false) (iv aad aadLen : ℕ) :
    Runs (gcmPrelude U iv aad aadLen) d fun r d' =>
      let j0 := preCounter (d.mem.read iv 12)
      r = (lowWord (U.encrypt j0), highWord (U.encrypt j0)) ∧ d'.mem = d.mem ∧ d'.aes.Idle ∧
      d'.gcm.Holds (U.encrypt 0) (ghash U.mul (U.encrypt 0) (blocks (d.mem.read aad aadLen))) := by
  refine runs_onAes_bind (runs_hashKey haes) ?_
  rintro _ a₁ ⟨rfl, ha₁⟩
  refine runs_onGcm_bind (Ghash.runs_writeH hgcm _ _) fun _ g₀ hg₀ => ?_
  refine runs_load_bind (runs_onAes_bind (Aes.Idle.ecb ha₁ _ _) ?_)
  rintro _ a₂ ⟨rfl, ha₂⟩
  refine runs_onGcm_bind hg₀.reset fun _ g hg => ?_
  rw [block_words] at hg
  refine (runs_ghashRegion (d := { d with aes := a₂, gcm := g }) hg aad aadLen).bind ?_
  rintro _ d₁ ⟨hmem₁, haes₁, hgcm₁⟩
  refine Runs.pure ⟨?_, hmem₁, haes₁ ▸ ha₂, hgcm₁⟩
  rw [block_preCounter (by simp)]

/-! ## The software counter -/

/-- What a round leaves in the hash: the next value if it hashes, the unit untouched if not. -/
def HashAfter (hash : Bool) (g₀ : Ghash) (h y : Block) (g : Ghash) : Prop :=
  if hash then g.Holds h y else g = g₀

theorem runs_softRound {hash : Bool} {n : ℕ} {g₀ : Ghash} (haes : d.aes.Idle)
    (hgcm : HashAfter hash g₀ h y d.gcm) (hn : n ≤ 16) (inp out : ℕ) :
    Runs (softRound U inp out n hash (toBytes ctr)) d fun ctr' d' =>
      let crypt := xorBytes (d.mem.read inp n) (toBytes (U.encrypt (inc32 ctr)))
      ctr' = toBytes (inc32 ctr) ∧ d'.aes.Idle ∧ d'.mem = d.mem.write out crypt ∧
      HashAfter hash g₀ h (U.mul (y ^^^ ofBytes crypt) h) d'.gcm := by
  have hlen : (d.mem.read inp n).length = n := by simp
  have hcrypt := take_toBytes_xor (hlen.trans_le hn) (U.encrypt (inc32 ctr))
  rw [hlen] at hcrypt
  rw [softRound, ctrInc_toBytes]
  refine runs_onAes_bind (Aes.Idle.ecb haes _ _) ?_
  rintro _ a ⟨rfl, ha⟩
  rw [block_word_take (by simp), ofBytes_toBytes]
  refine runs_load_bind ?_
  simp only [← toBytes_block, block_xor, block_words, block_padded (hlen.trans_le hn)]
  rw [BitVec.xor_comm, hcrypt]
  refine runs_store_bind ?_
  cases hash with
  | true =>
    refine runs_onGcm_bind (runs_ghashBlock hgcm (by simp [xorBytes, hn])) fun _ g hg => ?_
    exact Runs.pure ⟨rfl, ha, rfl, hg⟩
  | false =>
    refine runs_onGcm_bind (Runs.pure (Q := fun _ g => g = d.gcm) rfl) ?_
    rintro _ _ rfl
    exact Runs.pure ⟨rfl, ha, rfl, hgcm⟩

/-- **The software counter** is counter mode too, and hashes its output on the way when asked. -/
theorem runs_ctrSoft (hsep : Separate inp out len) (hash : Bool) {g₀ : Ghash} (haes : d.aes.Idle)
    (hgcm : HashAfter hash g₀ h y d.gcm) (iv : ℕ) :
    Runs (ctrSoft U iv inp out len hash) d fun _ d' =>
      let crypt := cryptOf U.encrypt (d.mem.read iv 12) (d.mem.read inp len)
      d'.aes.Idle ∧ d'.mem = d.mem.write out crypt ∧
      HashAfter hash g₀ h (ghashFrom U.mul h y (blocks crypt)) d'.gcm := by
  set j0 := preCounter (d.mem.read iv 12) with hj0
  set crypt := cryptOf U.encrypt (d.mem.read iv 12) (d.mem.read inp len) with hcrypt
  have hstart : d.mem.read iv 12 ++ [0, 0, 0, 1] = toBytes j0 := by
    rw [hj0, preCounter, toBytes_ofBytes (by simp)]
  refine runs_load_bind ?_
  rw [hstart]
  refine (Runs.loop (fun i ctr (d' : Dev) => ctr = toBytes (inc32^[i] j0) ∧ d'.aes.Idle ∧
    d'.mem = ctrMem U (inc32 j0) d.mem inp out len i ∧
    HashAfter hash g₀ h (hashAt U h y crypt i) d'.gcm) ⟨rfl, haes, by simp, hgcm⟩ ?_).bind ?_
  · rintro i hi _ d' ⟨rfl, haes', hmem', hgcm'⟩
    have hi' : 16 * i ≤ len := by rw [nBlocks] at hi; omega
    refine (runs_softRound haes' hgcm' (by rw [pieceLen_eq]; omega) _ _).mono ?_
    rintro _ d'' ⟨rfl, haes'', hmem'', hgcm''⟩
    rw [← Function.iterate_succ_apply' inc32, Function.iterate_succ_apply, pieceLen_eq] at hmem'' hgcm''
    refine ⟨by rw [Function.iterate_succ_apply'], haes'', ?_, ?_⟩
    · rw [hmem'', hmem', ctrMem_succ hsep hi']
    · rw [hmem', read_ctrMem _ _ _ hsep hi', ← chunk_gctr] at hgcm''
      rwa [hashAt_succ]
  · rintro _ d' ⟨-, haes', hmem', hgcm'⟩
    refine Runs.pure ⟨haes', ?_, ?_⟩
    · rw [hmem', ctrMem_of_le (by rw [nBlocks]; omega)]
      rfl
    · rwa [blocks, hcrypt, length_cryptOf, Mem.length_read]

end KlaussRuntime.Crypto
