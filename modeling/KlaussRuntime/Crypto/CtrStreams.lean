import KlaussRuntime.Crypto.Ctr
import KlaussRuntime.Crypto.Psa
import KlaussRuntime.Crypto.Wolfssl

/-!
# Crypto/CtrStreams — AES-CTR in pieces is a stream

A caller may cut a text into calls as it likes.  wolfSSL's callback and the PSA driver keep, in layouts
of their own, what `Machinery/CounterMode` calls a position: the next counter block, the rest of a
keystream block, and how much of it is left.  A call first uses what is left and then goes on with whole
blocks (`streamMem_streamMem`), so it takes the position `p` to `p + len` and puts its piece of the text under
the keystream from `p` on.  Hence the calls together are one-shot CTR of the whole text (`ctr_streams`).
-/

namespace KlaussRuntime.Crypto

open Machinery Machinery.Gcm Machinery.CounterMode

variable {α : Type} {C : Cipher} {cfg : Config} {s : KeyedDev} {d : Dev} {inp out len n p left : ℕ}
  {m : Mem} {E : Block → Block} {nonce : Block} {ks : ℕ → Block}

/-! ## Pieces in memory -/

/-- The memory with a piece of the input put out under the keystream from byte `p` on. -/
def streamMem (ks : ℕ → Block) (p : ℕ) (m : Mem) (inp out len : ℕ) : Mem :=
  m.write out (cryptFrom ks p (m.read inp len))

theorem streamMem_zero (ks : ℕ → Block) (p : ℕ) (m : Mem) (inp out : ℕ) :
    streamMem ks p m inp out 0 = m := by
  simp [streamMem, Mem.read, cryptFrom]

/-- **A piece in two parts**: the second part of the input has not been written over. -/
theorem streamMem_streamMem (hsep : Separate inp out len) (hn : n ≤ len) :
    streamMem ks (p + n) (streamMem ks p m inp out n) (inp + n) (out + n) (len - n)
      = streamMem ks p m inp out len := by
  have hread : (streamMem ks p m inp out n).read (inp + n) (len - n) = m.read (inp + n) (len - n) := by
    refine m.read_write_of_disjoint ?_
    rw [length_cryptFrom, Mem.length_read]
    unfold Separate at hsep
    omega
  have happend : cryptFrom ks p (m.read inp len)
      = cryptFrom ks p (m.read inp n) ++ cryptFrom ks (p + n) (m.read (inp + n) (len - n)) := by
    have h := cryptFrom_append ks p (m.read inp n) (m.read (inp + n) (len - n))
    rwa [← Mem.read_add, Mem.length_read, Nat.add_sub_cancel' hn] at h
  rw [streamMem, hread, streamMem, streamMem, happend, Mem.write_append, length_cryptFrom,
    Mem.length_read]

theorem Separate.drop (hsep : Separate inp out len) (hn : n ≤ len) :
    Separate (inp + n) (out + n) (len - n) := by
  unfold Separate at hsep ⊢
  omega

theorem runs_onDev {q : Prog Dev α} {P : α → Dev → Prop} {Q : α → KeyedDev → Prop}
    (hq : Runs q s.dev P) (h : ∀ r d, P r d → Q r { s with dev := d }) : Runs (onDev q) s Q :=
  Runs.zoom hq h

/-- **The leftover loop** uses as much of the keystream as there is, or as the text needs. -/
theorem runs_useLeft {buf : List Byte} (hbuf : buf.length = 16) (hleft : left ≤ 16)
    (hsep : Separate inp out len) :
    Runs (useLeft buf left len inp out) d fun r d' =>
      r = (left - min left len, len - min left len, inp + min left len, out + min left len) ∧
      d' = { d with
        mem := d.mem.write out (xorBytes (d.mem.read inp (min left len)) (buf.drop (16 - left))) } := by
  induction left generalizing len inp out d with
  | zero =>
    rw [Nat.zero_min]
    cases len <;> exact Runs.pure ⟨rfl, by simp [xorBytes, Mem.read]⟩
  | succ left ih =>
    cases len with
    | zero => exact Runs.pure ⟨rfl, by simp [xorBytes, Mem.read]⟩
    | succ len =>
      rw [useLeft]
      refine runs_load_bind (runs_store_bind ?_)
      have hsep' : Separate (inp + 1) (out + 1) len := hsep.drop (n := 1) (by omega)
      refine (ih (by omega) hsep').mono ?_
      rintro _ _ ⟨rfl, rfl⟩
      have hread : (d.mem.write out (xorBytes (d.mem.read inp 1) [buf.getD (16 - (left + 1)) 0])).read
          (inp + 1) (min left len) = d.mem.read (inp + 1) (min left len) := by
        refine d.mem.read_write_of_disjoint ?_
        simp only [xorBytes, List.length_zipWith, Mem.length_read, List.length_singleton]
        unfold Separate at hsep
        omega
      have hbyte : buf.drop (16 - (left + 1)) = buf.getD (16 - (left + 1)) 0 :: buf.drop (16 - left) := by
        rw [List.drop_eq_getElem_cons (by omega), List.getD_eq_getElem _ _ (by omega),
          show 16 - (left + 1) + 1 = 16 - left by omega]
      have hmin : min (left + 1) (len + 1) = 1 + min left len := by omega
      rw [hmin, hbyte, Mem.read_add]
      simp only [hread]
      refine ⟨by simp only [Prod.mk.injEq]; omega, ?_⟩
      exact congrArg (fun m => { d with mem := m }) (d.mem.write_append out [_] _).symm

theorem runs_useLeft_cryptFrom {c : List Byte} {buf : Buffer 16}
    (h : Position E nonce p c buf.bytes left) (hsep : Separate inp out len) :
    Runs (useLeft buf.bytes left len inp out) d fun r d' =>
      r = (left - min left len, len - min left len, inp + min left len, out + min left len) ∧
      d' = { d with mem := streamMem (stream E nonce) p d.mem inp out (min left len) } := by
  rw [streamMem, h.cryptFrom_use (by rw [Mem.length_read]; omega)]
  exact runs_useLeft buf.length_bytes (by rw [h.left_eq]; omega) hsep

/-- **A call** uses what is left of the keystream, and goes on with the rest of the text if there is
any. -/
theorem runs_useLeft_bind {c : List Byte} {buf : Buffer 16}
    (h : Position E nonce p c buf.bytes left) (hs : s.dev.aes.Idle) (hsep : Separate inp out len)
    {k : ℕ × ℕ × ℕ × ℕ → Prog KeyedDev α} {P : ℕ → α → Prop}
    (hend : ∀ left' i o s', Position E nonce (p + len) c buf.bytes left' →
      Runs (k (left', 0, i, o)) s' fun r s'' => P (p + len) r ∧ s'' = s')
    (hrest : ∀ p' l i o s', Position E nonce p' c buf.bytes 0 → l ≠ 0 → Separate i o l →
      s'.dev.aes.Idle → Runs (k (0, l, i, o)) s' fun r s'' => P (p' + l) r ∧
        s''.dev.mem = streamMem (stream E nonce) p' s'.dev.mem i o l) :
    Runs (onDev (useLeft buf.bytes left len inp out) >>= k) s fun r s' => P (p + len) r ∧
      s'.dev.mem = streamMem (stream E nonce) p s.dev.mem inp out len := by
  refine (runs_onDev (Q := fun r s' => r = (left - min left len, len - min left len,
      inp + min left len, out + min left len) ∧ s'.dev.aes = s.dev.aes ∧
        s'.dev.mem = streamMem (stream E nonce) p s.dev.mem inp out (min left len))
    (runs_useLeft_cryptFrom h hsep) fun r d' hd => ⟨hd.1, by rw [hd.2], by rw [hd.2]⟩).bind ?_
  rintro _ s' ⟨rfl, haes, hmem⟩
  rcases le_or_gt len left with hle | hgt
  · rw [Nat.min_eq_right hle] at hmem ⊢
    rw [Nat.sub_self]
    refine (hend _ _ _ s' (h.use hle)).mono ?_
    rintro r _ ⟨hr, rfl⟩
    exact ⟨hr, hmem⟩
  · rw [Nat.min_eq_left hgt.le] at hmem ⊢
    rw [Nat.sub_self]
    have hused := h.use le_rfl
    rw [Nat.sub_self] at hused
    refine (hrest _ _ _ _ s' hused (by omega) (hsep.drop hgt.le) (haes ▸ hs)).mono ?_
    rintro r s'' ⟨hr, hmem'⟩
    rw [add_assoc, Nat.add_sub_cancel' hgt.le] at hr
    rw [hmem', hmem, streamMem_streamMem hsep hgt.le]
    exact ⟨hr, rfl⟩

/-! ## The PSA driver -/

theorem block_buffer (b : Buffer 16) :
    block (word (b.bytes.take 8)) (word (b.bytes.drop 8)) = ofBytes b.bytes :=
  block_word_take b.length_bytes

/-- A cipher operation under a key, at byte `p` of its stream. -/
structure CipherCtx.At (E : Block → Block) (nonce : Block) (key : Buffer 16) (p : ℕ) (ctx : CipherCtx) :
    Prop where
  key : ctx.key = key
  position : Position E nonce p ctx.ctr.bytes ctx.ks.bytes ctx.left

variable {ctx : CipherCtx} {key : Buffer 16}

/-- **The part on the unit** goes on with whole blocks. -/
theorem runs_ctrCryptUnit (hs : s.dev.aes.Idle) (hsep : Separate inp out len) (hleft : ctx.left = 0)
    (h : ctx.At (C.encrypt (ofBytes key.bytes)) nonce key p) :
    Runs (ctrCryptUnit C ctx inp out len) s fun ctx' s' =>
      ctx'.At (C.encrypt (ofBytes key.bytes)) nonce key (p + len) ∧
      s'.dev.mem = streamMem (stream (C.encrypt (ofBytes key.bytes)) nonce) p s.dev.mem inp out len := by
  obtain ⟨rfl, hpos⟩ := h
  rw [hleft] at hpos
  refine (runs_aesHwSetKey hs _ _).bind ?_
  rintro _ s₁ ⟨hkey, haes, hmem⟩
  rw [block_buffer] at hkey
  refine (runs_withKey_aesCtrHw haes hsep ctx.ctr.length_bytes).bind ?_
  rintro ⟨ctr', ks'⟩ s₂ ⟨-, -, hmem₂, hctr, hks⟩
  rw [hkey] at hmem₂ hks
  dsimp only at hctr hks
  refine Runs.pure ⟨⟨rfl, ?_⟩, by rw [hmem₂, hmem, streamMem, hpos.cryptFrom_run]⟩
  have hleft' : (if len % 16 ≠ 0 then 16 - len % 16 else 0) = (16 - len % 16) % 16 := by
    split_ifs <;> omega
  simp only [hleft']
  rw [Buffer.bytes_put_zero _ (by rw [hctr, length_toBytes]), hctr]
  refine hpos.run len _ fun hne => ?_
  rw [hks, if_pos (Nat.pos_of_ne_zero hne), Option.getD_some,
    Buffer.bytes_put_zero _ (length_toBytes _)]

/-- **A CTR update** takes the operation from byte `p` to byte `p + len`. -/
theorem runs_psaCipherUpdate (hs : s.dev.aes.Idle) (hsep : Separate inp out len) {size : ℕ}
    (hsize : len ≤ size) (h : ctx.At (C.encrypt (ofBytes key.bytes)) nonce key p) :
    Runs (psaCipherUpdate C ctx inp len out size) s fun r s' => r.1 = .ok len ∧
      r.2.At (C.encrypt (ofBytes key.bytes)) nonce key (p + len) ∧
      s'.dev.mem = streamMem (stream (C.encrypt (ofBytes key.bytes)) nonce) p s.dev.mem inp out len := by
  rw [psaCipherUpdate, if_neg (not_lt.mpr hsize)]
  refine Runs.bind (P := fun ctx' s' => ctx'.At (C.encrypt (ofBytes key.bytes)) nonce key (p + len) ∧
    s'.dev.mem = streamMem (stream (C.encrypt (ofBytes key.bytes)) nonce) p s.dev.mem inp out len) ?_ fun ctx' s' hr => Runs.pure ⟨rfl, hr⟩
  refine runs_useLeft_bind (P := fun p' (ctx' : CipherCtx) =>
    ctx'.At (C.encrypt (ofBytes key.bytes)) nonce key p') h.position hs hsep ?_ ?_
  · exact fun left' i o s' hat => Runs.pure ⟨⟨h.key, hat⟩, rfl⟩
  · intro p' l i o s' hat hl hsep' hs'
    dsimp only
    rw [if_neg hl]
    exact runs_ctrCryptUnit hs' hsep' rfl ⟨h.key, hat⟩

/-! ## wolfSSL's callback -/

/-- The callback's state under a key, at byte `p` of the stream. -/
structure WolfAes.At (E : Block → Block) (nonce : Block) (key : Fin 4 → BitVec 32) (p : ℕ)
    (aes : WolfAes) : Prop where
  key : aes.key = key
  keylen : aes.keylen = 16
  position : Position E nonce p aes.reg.bytes aes.tmp.bytes aes.left

theorem length_keyBytes (key : Fin 4 → BitVec 32) : (keyBytes key).length = 16 := by simp [keyBytes]

theorem ctrIncBe_toBytes (b : Block) : ctrIncBe (toBytes b) = toBytes (counter b 1) := by
  have h := carryFrom_append [] (toBytes b) []
  rw [List.nil_append, List.append_nil, List.nil_append, List.append_nil, length_toBytes,
    List.length_nil] at h
  rw [ctrIncBe, h, counter, toBytes_ofBytes (length_beBytes _ _)]

theorem ctrIncBe_iterate (b : Block) (i : ℕ) : ctrIncBe^[i] (toBytes b) = toBytes (counter b i) := by
  induction i with
  | zero => rw [Function.iterate_zero_apply, counter_zero]
  | succ i ih => rw [Function.iterate_succ_apply', ih, ctrIncBe_toBytes, counter_counter]

theorem bytes_put_ctrIncBe (reg : Buffer 16) (i : ℕ) :
    (reg.put 0 (ctrIncBe^[i] reg.bytes)).bytes = toBytes (counter (ofBytes reg.bytes) i) := by
  have h := ctrIncBe_iterate (ofBytes reg.bytes) i
  rw [toBytes_ofBytes reg.length_bytes] at h
  rw [h, Buffer.bytes_put_zero _ (length_toBytes _)]

variable {aes : WolfAes} {wkey : Fin 4 → BitVec 32}

/-- **The full blocks.** -/
theorem runs_hwCtrFull (hs : s.dev.aes.Idle) (hsep : Separate inp out n) (hn : n % 16 = 0)
    (hleft : aes.left = 0) (h : aes.At (C.encrypt s.key) nonce wkey p) :
    Runs (hwCtrFull C cfg aes out inp n) s fun aes' s' =>
      aes'.At (C.encrypt s.key) nonce wkey (p + n) ∧ aes'.left = 0 ∧ s'.key = s.key ∧ s'.dev.aes.Idle ∧
      s'.dev.mem = streamMem (stream (C.encrypt s.key) nonce) p s.dev.mem inp out n := by
  unfold hwCtrFull
  split_ifs with hpos
  · have hstart := h.position
    rw [hleft] at hstart
    have hend := hstart.run n aes.tmp.bytes fun hne => absurd hn hne
    rw [hn, nBlocks, show (n + 15) / 16 = n / 16 by omega, ← bytes_put_ctrIncBe] at hend
    refine (runs_withKey_aesCtr hs hsep _ _).bind ?_
    rintro _ s₁ ⟨hkey, haes, hmem⟩
    rw [block_buffer, ← hstart.cryptFrom_run, ← streamMem] at hmem
    refine Runs.pure ⟨⟨h.key, h.keylen, ?_⟩, hleft, hkey, haes, hmem⟩
    rw [hleft]
    exact hend
  · obtain rfl : n = 0 := by omega
    exact Runs.pure ⟨h, hleft, rfl, hs, (streamMem_zero ..).symm⟩

theorem runs_withKey_ecb (hs : s.dev.aes.Idle) (lo hi : BitVec 64) :
    Runs (withKey C fun U => onAes (aesHwEncrypt U lo hi)) s fun r s' =>
      wordBytes r.1 ++ wordBytes r.2 = toBytes (C.encrypt s.key (block lo hi)) ∧
      s'.dev.mem = s.dev.mem := by
  refine runs_withKey (runs_onAes (Q := fun r d => wordBytes r.1 ++ wordBytes r.2
    = toBytes (C.encrypt s.key (block lo hi)) ∧ d.mem = s.dev.mem) (hs.ecb lo hi) ?_) fun _ _ hr => hr
  rintro _ a ⟨rfl, -⟩
  exact ⟨wordBytes_append _, rfl⟩

/-- **The bytes behind them**, and the keystream block that is kept. -/
theorem runs_hwCtrTail (hs : s.dev.aes.Idle) (hsep : Separate inp out n) (hn : n < 16)
    (hleft : aes.left = 0) (h : aes.At (C.encrypt s.key) nonce wkey p) :
    Runs (hwCtrTail C aes out inp n) s fun aes' s' =>
      aes'.At (C.encrypt s.key) nonce wkey (p + n) ∧
      s'.dev.mem = streamMem (stream (C.encrypt s.key) nonce) p s.dev.mem inp out n := by
  unfold hwCtrTail
  split_ifs with hpos
  · have hstart := h.position
    rw [hleft] at hstart
    refine (runs_withKey_ecb hs _ _).bind ?_
    rintro ⟨k0, k1⟩ s₁ ⟨hks, hmem⟩
    dsimp only at hks ⊢
    rw [hks, block_buffer]
    have htmp := aes.tmp.bytes_put_zero (length_toBytes (C.encrypt s.key (ofBytes aes.reg.bytes)))
    have hend := hstart.run n (toBytes (C.encrypt s.key (ofBytes aes.reg.bytes))) fun _ => by
      rw [show n / 16 = 0 by omega, stream, counter_zero]
    rw [nBlocks, show (n + 15) / 16 = 1 by omega, ← bytes_put_ctrIncBe, ← htmp,
      show (16 - n % 16) % 16 = 16 - n by omega] at hend
    refine (runs_onDev (Q := fun _ s' => s'.dev.mem = s₁.dev.mem.write out
      (xorBytes (s₁.dev.mem.read inp n) (toBytes (C.encrypt s.key (ofBytes aes.reg.bytes)))))
      (runs_xorEach hsep (by rw [htmp, length_toBytes]; omega)) ?_).bind ?_
    · rintro _ _ rfl
      rw [htmp]
    · intro _ s₂ hmem₂
      refine Runs.pure ⟨⟨h.key, h.keylen, hend⟩, ?_⟩
      rw [hmem₂, hmem, streamMem, hstart.cryptFrom_run, ctr, ← cryptFrom_zero, cryptFrom_of_le (by simp; omega),
        stream, counter_zero]
      rfl
  · obtain rfl : n = 0 := by omega
    exact Runs.pure ⟨h, (streamMem_zero ..).symm⟩

/-- **The callback** takes the state from byte `p` to byte `p + len`. -/
theorem runs_hwCipherCtr (hs : s.dev.aes.Idle) (hsep : Separate inp out len)
    (h : aes.At (C.encrypt (ofBytes (keyBytes wkey))) nonce wkey p) :
    Runs (hwCipherCtr C cfg aes out inp len) s fun r s' =>
      (∃ aes', r = some aes' ∧ aes'.At (C.encrypt (ofBytes (keyBytes wkey))) nonce wkey (p + len)) ∧
      s'.dev.mem = streamMem (stream (C.encrypt (ofBytes (keyBytes wkey))) nonce) p s.dev.mem inp out
        len := by
  rw [hwCipherCtr, extractKey128, if_neg (not_not.mpr h.keylen), h.key]
  refine Runs.bind (P := fun aes' s' =>
    aes'.At (C.encrypt (ofBytes (keyBytes wkey))) nonce wkey (p + len) ∧
    s'.dev.mem = streamMem (stream (C.encrypt (ofBytes (keyBytes wkey))) nonce) p s.dev.mem inp out
      len) ?_ fun aes' s' hr => Runs.pure ⟨⟨aes', rfl, hr.1⟩, hr.2⟩
  refine runs_useLeft_bind (P := fun p' (aes' : WolfAes) =>
    aes'.At (C.encrypt (ofBytes (keyBytes wkey))) nonce wkey p') h.position hs hsep ?_ ?_
  · exact fun left' i o s' hat => Runs.pure ⟨⟨h.key, h.keylen, hat⟩, rfl⟩
  · intro p' l i o s' hat hl hsep' hs'
    dsimp only
    rw [if_neg hl]
    refine (runs_aesHwSetKey hs' _ _).bind ?_
    rintro _ s₁ ⟨hkey, haes, hmem⟩
    rw [block_word_take (length_keyBytes wkey)] at hkey
    rw [← hkey] at hat ⊢
    have hfull : Separate i o (l - l % 16) := by
      unfold Separate at hsep' ⊢
      omega
    have hat₁ : WolfAes.At (C.encrypt s₁.key) nonce wkey p' { aes with left := 0 } :=
      ⟨h.key, h.keylen, hat⟩
    refine (runs_hwCtrFull haes hfull (by omega) rfl hat₁).bind ?_
    rintro aes₂ s₂ ⟨hat₂, hleft₂, hkey₂, haes₂, hmem₂⟩
    rw [← hkey₂] at hat₂
    refine (runs_hwCtrTail haes₂ (hsep'.drop (Nat.sub_le _ _)) (by omega) hleft₂ hat₂).mono ?_
    rintro aes₃ s₃ ⟨hat₃, hmem₃⟩
    rw [hkey₂, add_assoc, Nat.add_sub_cancel' (Nat.sub_le l (l % 16))] at hat₃
    refine ⟨hat₃, ?_⟩
    rw [hmem₃, hmem₂, hkey₂, streamMem_streamMem hsep' (Nat.sub_le _ _), hmem]

/-! ## Streams -/

/-- A call: the device as the call finds it, with the AES unit at rest, and the buffers.  Between two
calls the device may have been used for anything else. -/
structure CtrCall where
  s : KeyedDev
  inp : ℕ
  out : ℕ
  len : ℕ
  room : ℕ
  idle : s.dev.aes.Idle
  separate : Separate inp out len
  fits : len ≤ room

/-- The piece of the text a call is given. -/
def CtrCall.data (c : CtrCall) : List Byte := c.s.dev.mem.read c.inp c.len

/-- The text of all calls. -/
def wholeText (cs : List CtrCall) : List Byte := cs.flatMap CtrCall.data

/-- Calls one after the other: the state they leave, and what they put out. -/
def runStream {σ : Type} (call : σ → CtrCall → Prog KeyedDev (Option σ)) :
    σ → List CtrCall → Option (σ × List Byte)
  | ctx, [] => some (ctx, [])
  | ctx, c :: cs => do
    let (r, s') ← (call ctx c).run c.s
    let (ctx', rest) ← runStream call (← r) cs
    return (ctx', s'.dev.mem.read c.out c.len ++ rest)

/-- **Calls that each go on with the stream are the stream.** -/
theorem runStream_cryptFrom {σ : Type} (call : σ → CtrCall → Prog KeyedDev (Option σ))
    {At : ℕ → σ → Prop}
    (hcall : ∀ p ctx (c : CtrCall), At p ctx → Runs (call ctx c) c.s fun r s' =>
      (∃ ctx', r = some ctx' ∧ At (p + c.len) ctx') ∧
      s'.dev.mem = streamMem ks p c.s.dev.mem c.inp c.out c.len)
    {ctx : σ} (hat : At p ctx) (cs : List CtrCall) :
    ∃ ctx', runStream call ctx cs = some (ctx', cryptFrom ks p (wholeText cs)) ∧
      At (p + (wholeText cs).length) ctx' := by
  induction cs generalizing p ctx with
  | nil => exact ⟨ctx, rfl, hat⟩
  | cons c cs ih =>
    obtain ⟨_, s', hrun, ⟨ctx₁, rfl, hat₁⟩, hmem⟩ := hcall p ctx c hat
    obtain ⟨ctx₂, hrest, hat₂⟩ := ih hat₁
    have hlen : c.data.length = c.len := c.s.dev.mem.length_read _ _
    have hout : s'.dev.mem.read c.out c.len = cryptFrom ks p c.data := by
      have h := c.s.dev.mem.read_write_self c.out (cryptFrom ks p c.data)
      rwa [length_cryptFrom, hlen, CtrCall.data, ← streamMem, ← hmem] at h
    have htext : wholeText (c :: cs) = c.data ++ wholeText cs := List.flatMap_cons
    refine ⟨ctx₂, ?_, ?_⟩
    · simp only [runStream, hrun, Option.bind_eq_bind, Option.bind_some, hrest]
      rw [htext, cryptFrom_append, hlen, hout]
      rfl
    · rwa [htext, List.length_append, hlen, ← add_assoc]

def wolfCall (C : Cipher) (cfg : Config) (aes : WolfAes) (c : CtrCall) :
    Prog KeyedDev (Option WolfAes) := hwCipherCtr C cfg aes c.out c.inp c.len

def psaCall (C : Cipher) (ctx : CipherCtx) (c : CtrCall) : Prog KeyedDev (Option CipherCtx) := do
  let (r, ctx) ← psaCipherUpdate C ctx c.inp c.len c.out c.room
  return r.toOption.map fun _ => ctx

/-- **AES-CTR in calls is a stream.**  However a text is cut, and whatever happens on the device between
the calls, wolfSSL's callback (with and without the unit's counter mode) and the PSA driver put out
one-shot CTR of the whole text; and since this is so for every list of calls, after each of them the
counter, the keystream block and the leftover count are those of the position reached. -/
theorem ctr_streams (C : Cipher) (cs : List CtrCall) :
    (∀ (cfg : Config) (aes : WolfAes), aes.keylen = 16 → aes.left = 0 →
      let E := C.encrypt (ofBytes (keyBytes aes.key))
      ∃ aes', runStream (wolfCall C cfg) aes cs
          = some (aes', ctr E (ofBytes aes.reg.bytes) (wholeText cs)) ∧
        Position E (ofBytes aes.reg.bytes) (wholeText cs).length aes'.reg.bytes aes'.tmp.bytes aes'.left) ∧
    ∀ (ctx : CipherCtx) (iv : List Byte), iv.length = 16 →
      let E := C.encrypt (ofBytes ctx.key.bytes)
      ∃ ctx', runStream (psaCall C) (psaCipherSetIv ctx iv).2 cs
          = some (ctx', ctr E (ofBytes iv) (wholeText cs)) ∧
        Position E (ofBytes iv) (wholeText cs).length ctx'.ctr.bytes ctx'.ks.bytes ctx'.left := by
  refine ⟨fun cfg aes hkeylen hleft => ?_, fun ctx iv hiv => ?_⟩
  · have hstart : aes.At (C.encrypt (ofBytes (keyBytes aes.key))) (ofBytes aes.reg.bytes) aes.key 0 := by
      refine ⟨rfl, hkeylen, ?_⟩
      rw [hleft]
      exact Position.start aes.reg.length_bytes _
    obtain ⟨aes', hrun, hat⟩ := runStream_cryptFrom (wolfCall C cfg)
      (fun p aes c hat => runs_hwCipherCtr c.idle c.separate hat) hstart cs
    rw [cryptFrom_zero] at hrun
    rw [zero_add] at hat
    exact ⟨aes', hrun, hat.position⟩
  · have hstart : (psaCipherSetIv ctx iv).2.At (C.encrypt (ofBytes ctx.key.bytes)) (ofBytes iv)
        ctx.key 0 := by
      rw [psaCipherSetIv, if_neg (not_not.mpr hiv)]
      refine ⟨rfl, ?_⟩
      dsimp only
      rw [ctx.ctr.bytes_put_zero hiv]
      exact Position.start hiv _
    obtain ⟨ctx', hrun, hat⟩ := runStream_cryptFrom (psaCall C)
      (fun p ctx c hat => (runs_psaCipherUpdate c.idle c.separate c.fits hat).bind
        fun r s' hr => Runs.pure ⟨⟨r.2, by rw [hr.1]; rfl, hr.2.1⟩, hr.2.2⟩) hstart cs
    rw [cryptFrom_zero] at hrun
    rw [zero_add] at hat
    exact ⟨ctx', hrun, hat.position⟩

/-- Twenty-five bytes through the callback in two calls, the first of five, in place and between
buffers. -/
theorem ctr_streams_two :
    let aes : WolfAes := ⟨fun _ => 7, 16, Buffer.zero 16, Buffer.zero 16, 0⟩
    let s := KeyedDev.reset (fun a => BitVec.ofNat 8 a) 0
    let cs : List CtrCall := [⟨s, 32, 32, 5, 5, ⟨rfl, rfl⟩, by decide, le_rfl⟩,
      ⟨s, 37, 100, 20, 20, ⟨rfl, rfl⟩, by decide, le_rfl⟩]
    aes.keylen = 16 ∧ aes.left = 0 ∧
    ∃ aes', runStream (wolfCall xorCipher ⟨false, false, false⟩) aes cs = some (aes',
      ctr (xorCipher.encrypt (ofBytes (keyBytes aes.key))) (ofBytes aes.reg.bytes) (wholeText cs)) ∧
      aes'.left = 7 := by
  intro aes s cs
  obtain ⟨aes', hrun, hpos⟩ := (ctr_streams xorCipher cs).1 ⟨false, false, false⟩ aes rfl rfl
  have hlen : (wholeText cs).length = 25 := by simp [wholeText, cs, CtrCall.data]
  rw [hlen] at hpos
  exact ⟨rfl, rfl, aes', hrun, hpos.left_eq⟩

end KlaussRuntime.Crypto
