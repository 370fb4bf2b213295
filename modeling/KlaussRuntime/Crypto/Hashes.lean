import KlaussRuntime.Crypto.Sha

/-!
# Crypto/Hashes — the drivers compute SHA-256 and HMAC

A driver that has taken in a message `m` is known by two things: the state after the full blocks of `m`,
in the unit or in the context, and the bytes behind them in the context's buffer (`Sha256Ctx.Reached`,
`Rctx.Reached`).  An update takes the context for `m` to the context for `m ++ data`, whatever the two
lengths; so how a message is cut does not matter, and all ways to hash it agree with FIPS 180-4
(`sha256_chunking`).
-/

namespace KlaussRuntime.Crypto

open Machinery Machinery.Hashing

variable {U : ShaCore} {u : Sha} {h h₀ : Words 4} {mid : Words 4 × Words 4} {m d data rest : List Byte}

/-! ## The unit -/

namespace Sha

/-- No job runs. -/
def Resting (u : Sha) : Prop := u.job = none

/-- The unit rests, with H and the midstates of the loaded key. -/
structure Holds (h : Words 4) (mid : Words 4 × Words 4) (u : Sha) : Prop where
  resting : u.Resting
  h : u.h = h
  inner : u.inner = mid.1
  outer : u.outer = mid.2

theorem Resting.holds (hu : u.Resting) : u.Holds u.h (u.inner, u.outer) := ⟨hu, rfl, rfl, rfl⟩

theorem runs_access {α : Type} {f : Sha → α × Sha} {Q : α → Sha → Prop} (hu : u.Resting)
    (hQ : Q (f u).1 (f u).2) : Runs (access f) u Q :=
  Runs.gated (Option.isSome_eq_false_iff.mpr (Option.isNone_iff_eq_none.mpr hu)) hQ

theorem runs_access_bind {α β : Type} {f : Sha → α × Sha} {k : α → Prog Sha β} {Q : β → Sha → Prop}
    (hu : u.Resting) (hk : Runs (k (f u).1) (f u).2 Q) : Runs (access f >>= k) u Q :=
  Runs.gated_bind (Option.isSome_eq_false_iff.mpr (Option.isNone_iff_eq_none.mpr hu)) hk

theorem Resting.finish (hu : u.Resting) : u.finish U = u := by
  rw [Sha.finish, show u.job = none from hu]

theorem Resting.waitIdle (hu : u.Resting) {Q : Unit → Sha → Prop} (hQ : Q () u) :
    Runs (waitIdle U) u Q := ⟨(), u, by rw [StateT.run, Sha.waitIdle, hu.finish], hQ⟩

theorem Resting.init (hu : u.Resting) :
    Runs init u fun _ u' => u'.Holds (words 4 initialHash) (u.inner, u.outer) :=
  runs_access hu ⟨hu, rfl, rfl, rfl⟩

end Sha

theorem runs_compressBlock (hu : u.Holds h mid) (data : List Byte) :
    Runs (compressBlock U data) u fun _ u' => u'.Holds (U.step h data) mid := by
  refine Sha.runs_access_bind hu.resting (Sha.runs_access_bind hu.resting ⟨(), _, rfl, rfl, ?_,
    hu.inner, hu.outer⟩)
  rw [← hu.h]
  rfl

theorem runs_compressBlock_take {i : ℕ} (hu : u.Holds (absorb U.step 64 h (data.take (64 * i))) mid)
    (hi : 64 * (i + 1) ≤ data.length) :
    Runs (compressBlock U (block64 data i)) u fun _ u' =>
      u'.Holds (absorb U.step 64 h (data.take (64 * (i + 1)))) mid := by
  rw [absorb_take_succ (by norm_num) hi]
  exact runs_compressBlock hu _

theorem Sha.Holds.take_zero (hu : u.Holds h mid) (data : List Byte) :
    u.Holds (absorb U.step 64 h (data.take (64 * 0))) mid := by
  rwa [mul_zero, List.take_zero, absorb_of_lt (by norm_num)]

/-- **Blocks of a text**, one after the other… -/
theorem runs_compressBlocks (hu : u.Holds h mid) {n : ℕ} (hn : 64 * n ≤ data.length) :
    Runs (compressBlocks U data n) u fun _ u' =>
      u'.Holds (absorb U.step 64 h (data.take (64 * n))) mid := by
  refine Runs.loop (fun i _ (u' : Sha) => u'.Holds (absorb U.step 64 h (data.take (64 * i))) mid)
    (hu.take_zero data) fun i hi _ u' hu' => ?_
  exact runs_compressBlock_take hu' (by omega)

/-- …and all the full ones. -/
theorem runs_compressBlocks_all (hu : u.Holds h mid) (data : List Byte) :
    Runs (compressBlocks U data (data.length / 64)) u fun _ u' =>
      u'.Holds (absorb U.step 64 h data) mid := by
  rw [← absorb_take (by norm_num) data]
  exact runs_compressBlocks hu (Nat.mul_div_le _ _)

theorem runs_shaReadDigest (hu : u.Holds h mid) :
    Runs shaReadDigest u fun out u' => out = wordsBytes h ∧ u'.Holds h mid := by
  refine Sha.runs_access_bind hu.resting (Runs.pure ⟨?_, hu⟩)
  rw [hu.h]

/-! ## Padding -/

theorem padBlocks_eq_or (rest : List Byte) : padBlocks rest = 1 ∨ padBlocks rest = 2 := by
  rw [padBlocks]
  split_ifs
  · exact .inl rfl
  · exact .inr rfl

theorem padArray_eq (hrest : rest.length < 64) :
    padArray rest = rest ++ 0x80 :: List.replicate (127 - rest.length) 0 := by
  rw [padArray, put_zero, List.drop_replicate, List.set_append_right _ _ le_rfl, Nat.sub_self,
    show 128 - rest.length = 127 - rest.length + 1 by omega, List.replicate_succ, List.set_cons_zero]

theorem length_padArray (hrest : rest.length < 64) : (padArray rest).length = 128 := by
  rw [padArray_eq hrest, List.length_append, List.length_cons, List.length_replicate]
  omega

theorem take_padArray (hrest : rest.length < 64) :
    (padArray rest).take (padBlocks rest * 64 - 8)
      = rest ++ 0x80 :: List.replicate (zeros 64 8 rest.length) 0 := by
  have hlast : padBlocks rest * 64 - 8 = rest.length + (zeros 64 8 rest.length + 1) := by
    rw [padBlocks, zeros]
    split_ifs <;> omega
  have hzeros : zeros 64 8 rest.length ≤ 127 - rest.length := by
    rw [zeros]
    omega
  rw [padArray_eq hrest, hlast, List.take_length_add_append, List.take_succ_cons, List.take_replicate,
    Nat.min_eq_left hzeros]

/-- The array once the length stands at the end of its last block. -/
def padded64 (rest : List Byte) (bits : ℕ) : List Byte :=
  put (padBlocks rest * 64 - 8) (beBytes 8 bits) (padArray rest)

/-- **The padded rest of a message.** -/
theorem take_padded64 (hrest : rest.length < 64) {bits len : ℕ}
    (hbits : beBytes 8 bits = beBytes 8 (8 * len)) :
    (padded64 rest bits).take (64 * padBlocks rest) = rest ++ padding 64 8 rest.length len := by
  have hlen := length_padArray hrest
  have hblocks := padBlocks_eq_or rest
  have hend : 64 * padBlocks rest = padBlocks rest * 64 - 8 + (beBytes 8 bits).length := by
    rw [length_beBytes]
    omega
  rw [padded64, hend, take_put (by omega), take_padArray hrest, hbits, padding, List.append_assoc,
    List.cons_append]

theorem length_padded64 (hrest : rest.length < 64) (bits : ℕ) :
    64 * padBlocks rest ≤ (padded64 rest bits).length := by
  have hlen := length_padArray hrest
  have hblocks := padBlocks_eq_or rest
  rw [padded64, length_put (by rw [length_beBytes]; omega)]
  omega

theorem padFinal_eq (hrest : rest.length < 64) (bits : BitVec 64) :
    padFinal rest bits = padded64 rest bits.toNat := by
  have hlen := length_padArray hrest
  have hblocks := padBlocks_eq_or rest
  rw [padFinal, padded64, ← foldl_set_be bits (by omega)]
  refine List.foldl_ext _ _ _ fun pad i _ => ?_
  rw [show padBlocks rest * 64 - 8 + 7 - i = padBlocks rest * 64 - 1 - i by omega]

theorem take_padFinal (hrest : rest.length < 64) {bits : BitVec 64} {len : ℕ}
    (hbits : beBytes 8 bits.toNat = beBytes 8 (8 * len)) :
    (padFinal rest bits).take (64 * padBlocks rest) = rest ++ padding 64 8 rest.length len := by
  rw [padFinal_eq hrest, take_padded64 hrest hbits]

theorem length_padFinal (hrest : rest.length < 64) (bits : BitVec 64) :
    64 * padBlocks rest ≤ (padFinal rest bits).length := by
  rw [padFinal_eq hrest]
  exact length_padded64 hrest _

theorem runs_compressPad (hu : u.Holds h mid) {pad : List Byte} {blocks : ℕ}
    (hblocks : blocks = 1 ∨ blocks = 2) (hlen : 64 * blocks ≤ pad.length) :
    Runs (compressPad U pad blocks) u fun _ u' =>
      u'.Holds (absorb U.step 64 h (pad.take (64 * blocks))) mid := by
  have hstart : u.Holds (absorb U.step 64 h (pad.take (64 * 0))) mid := hu.take_zero pad
  rcases hblocks with rfl | rfl
  · refine Runs.bind (P := fun _ u' => u' = u) (Runs.pure rfl) ?_
    rintro _ _ rfl
    exact runs_compressBlock_take hstart hlen
  · exact (runs_compressBlock_take hstart (by omega)).bind
      fun _ u' hu' => runs_compressBlock_take hu' hlen

/-- **`sha_finalize`** compresses the padded rest. -/
theorem runs_shaFinalize (hu : u.Holds h mid) (hrest : rest.length < 64) {bits : BitVec 64} {len : ℕ}
    (hbits : beBytes 8 bits.toNat = beBytes 8 (8 * len)) :
    Runs (shaFinalize U rest bits) u fun out u' =>
      out = wordsBytes (absorb U.step 64 h (rest ++ padding 64 8 rest.length len)) ∧ u'.Resting := by
  rw [← take_padded64 hrest hbits, shaFinalize, map_shifts_be]
  refine (runs_compressPad hu (padBlocks_eq_or rest) (length_padded64 hrest _)).bind fun _ u' hu' => ?_
  exact (runs_shaReadDigest hu').mono fun out _ hout => ⟨hout.1, hout.2.resting⟩

/-! ## One message at once -/

/-- **`sha256_hw`** is SHA-256. -/
theorem runs_sha256Hw (hu : u.Resting) (msg : List Byte) :
    Runs (sha256Hw U msg) u fun out u' => out = U.sha256 msg ∧ u'.Resting := by
  refine hu.init.bind fun _ u₁ hu₁ => (runs_compressBlocks_all hu₁ msg).bind fun _ u₂ hu₂ => ?_
  rw [ShaCore.sha256, digest_eq (by norm_num), finish, zero_add]
  exact runs_shaFinalize hu₂ (length_remainder_lt (by norm_num) msg) (beBytes_mul_eight msg.length)

/-! ## A message in pieces, the state in the unit -/

/-- The context of a hash that has taken in `m`. -/
structure Sha256Ctx.Reached (m : List Byte) (ctx : Sha256Ctx) : Prop where
  total : ctx.totalBytes = BitVec.ofNat 64 m.length
  buf : ctx.buf.Holds ctx.bufLen (remainder 64 m)

theorem runs_sha256HwInit (hu : u.Resting) (ctx : Sha256Ctx) :
    Runs (sha256HwInit ctx) u fun ctx' u' => ctx'.Reached [] ∧
      u'.Holds (absorb U.step 64 (words 4 initialHash) []) (u.inner, u.outer) := by
  refine hu.init.bind fun _ u₁ hu₁ => Runs.pure ⟨⟨rfl, ctx.buf.holds_nil⟩, ?_⟩
  rwa [absorb_of_lt (by norm_num)]

/-- **Filling up the buffer** moves bytes from the data to the bytes kept, or to the state, and leaves
none in one of the two. -/
theorem runs_fillBuf (ctx : Sha256Ctx) {r : List Byte} (hbuf : ctx.buf.Holds ctx.bufLen r)
    (hr : r.length < 64) (hu : u.Holds h mid) (d : List Byte) :
    Runs (fillBuf U ctx d) u fun p u' => p.1.totalBytes = ctx.totalBytes ∧ ∃ r' h',
      u'.Holds h' mid ∧ p.1.buf.Holds p.1.bufLen r' ∧ r'.length < 64 ∧ (r' = [] ∨ p.2 = []) ∧
      absorb U.step 64 h' (r' ++ p.2) = absorb U.step 64 h (r ++ d) ∧
      remainder 64 (r' ++ p.2) = remainder 64 (r ++ d) := by
  have hlen := hbuf.length
  by_cases hpos : ctx.bufLen > 0
  · rw [fillBuf, if_pos hpos]
    by_cases hlt : d.length < 64 - ctx.bufLen
    · -- too few bytes for a block
      have hfull : ctx.bufLen + d.length ≠ 64 := by omega
      simp only [if_pos hlt, List.take_length, List.drop_length, if_neg hfull]
      refine Runs.pure ⟨rfl, r ++ d, h, hu, hbuf.put d (by omega), ?_, .inr rfl, ?_, ?_⟩
      · rw [List.length_append]
        omega
      · rw [List.append_nil]
      · rw [List.append_nil]
    · have hfull : ctx.bufLen + (64 - ctx.bufLen) = 64 := by omega
      have htake : (d.take (64 - ctx.bufLen)).length = 64 - ctx.bufLen := by
        rw [List.length_take]
        omega
      have hput := hbuf.put (d.take (64 - ctx.bufLen)) (by omega)
      simp only [if_neg hlt, if_pos hfull]
      rw [hput.bytes_eq (by omega)]
      refine (runs_compressBlock hu _).bind fun _ u' hu' => ?_
      refine Runs.pure ⟨rfl, [], _, hu', Buffer.holds_nil _, by norm_num, .inl rfl, ?_, ?_⟩
      · rw [absorb_fill (by norm_num) hr.le (by omega), List.nil_append, hlen]
      · rw [remainder_fill (by norm_num) hr.le (by omega), List.nil_append, hlen]
  · rw [fillBuf, if_neg hpos]
    have hnil : r = [] := List.length_eq_zero_iff.mp (by omega)
    exact Runs.pure ⟨rfl, r, h, hu, hbuf, hr, .inl hnil, rfl, rfl⟩

/-- **`sha256_hw_update`** takes in the data: the context its bytes, the unit the blocks. -/
theorem runs_sha256HwUpdate {ctx : Sha256Ctx} (hctx : ctx.Reached m) (hu : u.Holds h mid) (d : List Byte) :
    Runs (sha256HwUpdate U ctx d) u fun ctx' u' => ctx'.Reached (m ++ d) ∧
      u'.Holds (absorb U.step 64 h (remainder 64 m ++ d)) mid := by
  have htotal : ctx.totalBytes + BitVec.ofNat 64 d.length = BitVec.ofNat 64 (m ++ d).length := by
    rw [hctx.total, List.length_append, BitVec.ofNat_add]
  refine (runs_fillBuf { ctx with totalBytes := ctx.totalBytes + BitVec.ofNat 64 d.length } hctx.buf
    (length_remainder_lt (by norm_num) m) hu d).bind ?_
  rintro ⟨ctx', d'⟩ u' ⟨htotal', r', h', hu', hbuf', hr', hor, habsorb, hremainder⟩
  refine (runs_compressBlocks_all hu' d').bind fun _ u'' hu'' => Runs.pure ⟨⟨?_, ?_⟩, ?_⟩
  · split_ifs <;> exact htotal'.trans htotal
  · rw [remainder_append_remainder (by norm_num), ← hremainder]
    have hrest := length_remainder_lt (n := 64) (by norm_num) d'
    split_ifs with hpos
    · -- only data that was not kept leaves bytes behind
      have hdata : d' ≠ [] := fun hnil => absurd hpos (by simp [hnil])
      obtain rfl : r' = [] := hor.resolve_right hdata
      exact Buffer.holds_put_zero _ hrest.le
    · have hnil : remainder 64 d' = [] := List.length_eq_zero_iff.mp (Nat.le_zero.mp (not_lt.mp hpos))
      rcases hor with rfl | rfl
      · rwa [List.nil_append, hnil]
      · rwa [List.append_nil, remainder_of_lt hr']
  · rcases hor with rfl | rfl
    · rwa [← habsorb]
    · rw [← habsorb, List.append_nil, absorb_of_lt hr']
      rwa [absorb_of_lt (by norm_num)] at hu''

/-- …and if the unit has been left alone since the start, it has the state after both. -/
theorem runs_sha256HwUpdate_of_absorb {ctx : Sha256Ctx} (hctx : ctx.Reached m)
    (hu : u.Holds (absorb U.step 64 h m) mid) (d : List Byte) :
    Runs (sha256HwUpdate U ctx d) u fun ctx' u' => ctx'.Reached (m ++ d) ∧
      u'.Holds (absorb U.step 64 h (m ++ d)) mid := by
  rw [absorb_append_remainder (by norm_num)]
  exact runs_sha256HwUpdate hctx hu d

/-- **`sha256_hw_final`** ends the hash from the state in the unit. -/
theorem runs_sha256HwFinal {ctx : Sha256Ctx} (hctx : ctx.Reached m) (hu : u.Holds h mid) :
    Runs (sha256HwFinal U ctx) u fun r u' => u'.Resting ∧ r.1 = wordsBytes (absorb U.step 64 h
      (remainder 64 m ++ padding 64 8 (remainder 64 m).length m.length)) := by
  rw [sha256HwFinal, hctx.buf.bytes, hctx.total]
  exact (runs_shaFinalize hu (length_remainder_lt (by norm_num) m)
    (beBytes_mul_eight m.length)).bind fun out u' hout => Runs.pure ⟨hout.2, hout.1⟩

theorem runs_sha256HwFinal_of_absorb {ctx : Sha256Ctx} (hctx : ctx.Reached m)
    (hu : u.Holds (absorb U.step 64 (words 4 initialHash) m) mid) :
    Runs (sha256HwFinal U ctx) u fun r u' => r.1 = U.sha256 m ∧ u'.Resting := by
  rw [ShaCore.sha256, digest_eq (by norm_num), finish, zero_add]
  exact (runs_sha256HwFinal hctx hu).mono fun r u' hr => ⟨hr.2, hr.1⟩

/-! ## A message in pieces, the state in the context -/

theorem sha256Iv_eq : sha256Iv = initialHash := by decide

/-- Before round `b` of `sha_r_blocks`: the state is in HIN at first, and then in H. -/
def RoundHolds (U : ShaCore) (h : Words 4) (data : List Byte) (b : ℕ) (u : Sha) : Prop :=
  u.Resting ∧ (if b = 0 then u.hin else u.h) = absorb U.step 64 h (data.take (64 * b))

theorem runs_rBlock {b : ℕ} (hu : RoundHolds U h data b u) (hb : 64 * (b + 1) ≤ data.length) :
    Runs (rBlock U data b) u fun _ u' => RoundHolds U h data (b + 1) u' := by
  obtain ⟨hrest, hstate⟩ := hu
  -- both ways to start leave the same job
  have hjob : Runs (if b = 0 then Sha.restoreStart U else Sha.start U)
      { u with blk := words 8 (block64 data b) } fun _ u' =>
        u'.job = some (.block (absorb U.step 64 h (data.take (64 * (b + 1))))) := by
    rw [absorb_take_succ (by norm_num) hb, ← hstate]
    split_ifs <;> exact Sha.runs_access hrest rfl
  refine Sha.runs_access_bind hrest (hjob.bind fun _ u' hu' => ?_)
  have hfinish : u'.finish U = { u' with
      h := absorb U.step 64 h (data.take (64 * (b + 1))), done := true, job := none } := by
    rw [Sha.finish, hu']
  refine Runs.bind (P := fun _ u'' => u'' = u'.finish U) ⟨(), _, rfl, rfl⟩ ?_
  rintro _ _ rfl
  rw [hfinish]
  exact ⟨(), _, rfl, rfl, if_neg (Nat.succ_ne_zero b)⟩

/-- **`sha_r_blocks`** compresses the blocks onto a state, whatever the unit held. -/
theorem runs_shaRBlocks (hu : u.Resting) (h : Words 4) (data : List Byte) {n : ℕ}
    (hn : 64 * n ≤ data.length) :
    Runs (shaRBlocks U h data n) u fun r u' =>
      r = absorb U.step 64 h (data.take (64 * n)) ∧ u'.Resting := by
  by_cases hzero : n = 0
  · rw [shaRBlocks, if_pos hzero, hzero, mul_zero, List.take_zero, absorb_of_lt (by norm_num)]
    exact Runs.pure ⟨rfl, hu⟩
  · rw [shaRBlocks, if_neg hzero]
    refine (hu.waitIdle (Q := fun _ u' => u' = u) rfl).bind ?_
    rintro _ u rfl
    refine Sha.runs_access_bind hu ?_
    have hstart : RoundHolds U h data 0 { u with hin := h } := by
      refine ⟨hu, ?_⟩
      rw [if_pos rfl, mul_zero, List.take_zero, absorb_of_lt (by norm_num)]
    refine (Runs.loop (fun b _ u' => RoundHolds U h data b u') hstart
      fun b hb _ u' hu' => runs_rBlock hu' (by omega)).bind ?_
    rintro _ u' ⟨hrest, hstate⟩
    rw [if_neg hzero] at hstate
    exact Sha.runs_access hrest ⟨hstate, hrest⟩

theorem runs_shaRBlocks_one (hu : u.Resting) (h : Words 4) (hdata : data.length = 64) :
    Runs (shaRBlocks U h data 1) u fun r u' => r = U.step h data ∧ u'.Resting := by
  have hall : absorb U.step 64 h (data.take (64 * 1)) = U.step h data := by
    rw [mul_one, List.take_of_length_le hdata.le, absorb_block (by norm_num) hdata]
  rw [← hall]
  exact runs_shaRBlocks hu h data hdata.ge

/-- The context of a hash that started from the state `h₀`, with `k` bytes behind it, and has taken in
`m` since. -/
structure Rctx.Reached (U : ShaCore) (h₀ : Words 4) (k : ℕ) (m : List Byte) (c : Rctx) : Prop where
  h : c.h = absorb U.step 64 h₀ m
  total : c.totalBytes = BitVec.ofNat 64 (k + m.length)
  buf : c.buf.Holds c.bufLen (remainder 64 m)

variable {c : Rctx} {k : ℕ}

theorem reached_sha256HwRinitFrom (c : Rctx) (h₀ : Words 4) (k : ℕ) :
    (sha256HwRinitFrom c h₀ (BitVec.ofNat 64 k)).Reached U h₀ k [] :=
  ⟨(absorb_of_lt (by norm_num)).symm, rfl, c.buf.holds_nil⟩

theorem reached_sha256HwRinit (c : Rctx) :
    (sha256HwRinit c).Reached U (words 4 initialHash) 0 [] := by
  rw [← sha256Iv_eq]
  exact reached_sha256HwRinitFrom c _ 0

theorem runs_rupdateBlocks (hu : u.Resting) (hempty : c.bufLen = 0) (data : List Byte) :
    Runs (rupdateBlocks U c data) u fun c' u' => c'.h = absorb U.step 64 c.h data ∧
      c'.totalBytes = c.totalBytes ∧ c'.buf.Holds c'.bufLen (remainder 64 data) ∧ u'.Resting := by
  refine (runs_shaRBlocks hu c.h data (Nat.mul_div_le data.length 64)).bind ?_
  rintro _ u' ⟨rfl, hu'⟩
  have hrest := length_remainder_lt (n := 64) (by norm_num) data
  rw [absorb_take (by norm_num), mul_comm]
  refine Runs.pure ?_
  split_ifs with hpos
  · exact ⟨rfl, rfl, Buffer.holds_put_zero _ hrest.le, hu'⟩
  · have hnil : remainder 64 data = [] := List.length_eq_zero_iff.mp (Nat.le_zero.mp (not_lt.mp hpos))
    refine ⟨rfl, rfl, ?_, hu'⟩
    rw [hnil, hempty]
    exact c.buf.holds_nil

/-- **`sha256_hw_rupdate`** takes in the data, whatever the unit held. -/
theorem runs_sha256HwRupdate (hu : u.Resting) (hc : c.Reached U h₀ k m) (d : List Byte) :
    Runs (sha256HwRupdate U c d) u fun c' u' => c'.Reached U h₀ k (m ++ d) ∧ u'.Resting := by
  have htotal : c.totalBytes + BitVec.ofNat 64 d.length = BitVec.ofNat 64 (k + (m ++ d).length) := by
    rw [hc.total, List.length_append, ← add_assoc, BitVec.ofNat_add (k + m.length)]
  have hkept := length_remainder_lt (n := 64) (by norm_num) m
  have hlen := hc.buf.length
  have hh : absorb U.step 64 h₀ (m ++ d) = absorb U.step 64 c.h (remainder 64 m ++ d) := by
    rw [absorb_append_remainder (by norm_num), hc.h]
  have hr : remainder 64 (m ++ d) = remainder 64 (remainder 64 m ++ d) :=
    remainder_append_remainder (by norm_num) m d
  by_cases hpos : c.bufLen > 0
  · simp only [sha256HwRupdate, if_pos hpos]
    by_cases hlt : 64 - c.bufLen > d.length
    · -- too few bytes for a block
      simp only [if_pos hlt, List.take_length]
      rw [if_pos (by omega)]
      have hshort : (remainder 64 m ++ d).length < 64 := by
        rw [List.length_append]
        omega
      refine Runs.pure ⟨⟨?_, htotal, ?_⟩, hu⟩
      · rw [hh, absorb_of_lt hshort]
      · rw [hr, remainder_of_lt hshort]
        exact hc.buf.put d (by omega)
    · have htake : (d.take (64 - c.bufLen)).length = 64 - c.bufLen := by
        rw [List.length_take]
        omega
      have hput := hc.buf.put (d.take (64 - c.bufLen)) (by omega)
      simp only [if_neg hlt]
      rw [if_neg (by omega), hput.bytes_eq (by omega)]
      have hblock : (remainder 64 m ++ d.take (64 - c.bufLen)).length = 64 := by
        rw [List.length_append]
        omega
      refine (runs_shaRBlocks_one hu c.h hblock).bind ?_
      rintro _ u' ⟨rfl, hu'⟩
      refine (runs_rupdateBlocks hu' rfl _).mono ?_
      rintro c' u'' ⟨hh', htotal', hbuf', hu''⟩
      rw [absorb_fill (by norm_num) hkept.le (by omega), ← hlen] at hh
      rw [remainder_fill (by norm_num) hkept.le (by omega), ← hlen] at hr
      exact ⟨⟨hh'.trans hh.symm, htotal'.trans htotal, hr ▸ hbuf'⟩, hu''⟩
  · simp only [sha256HwRupdate, if_neg hpos]
    have hempty : c.bufLen = 0 := by omega
    have hnil : remainder 64 m = [] := List.length_eq_zero_iff.mp (by omega)
    refine (runs_rupdateBlocks (c := { c with
      totalBytes := c.totalBytes + BitVec.ofNat 64 d.length }) hu hempty d).mono ?_
    rintro c' u' ⟨hh', htotal', hbuf', hu'⟩
    rw [hnil, List.nil_append] at hh hr
    exact ⟨⟨hh'.trans hh.symm, htotal'.trans htotal, hr ▸ hbuf'⟩, hu'⟩

/-- **`sha256_hw_rfinal`** ends the hash, whatever the unit held, and leaves the end state in the context
with an empty buffer. -/
theorem runs_sha256HwRfinal (hu : u.Resting) (hc : c.Reached U h₀ k m) :
    Runs (sha256HwRfinal U c) u fun r u' => u'.Resting ∧
      r.1 = wordsBytes (finish U.step 64 8 h₀ k m) ∧
      r.2.Reached U (finish U.step 64 8 h₀ k m) (k + m.length) [] := by
  have hrest := length_remainder_lt (n := 64) (by norm_num) m
  rw [finish, sha256HwRfinal, hc.buf.bytes, hc.total, hc.h, ← take_padFinal hrest (beBytes_mul_eight _)]
  refine (runs_shaRBlocks hu _ _ (length_padFinal hrest _)).bind ?_
  rintro _ u' ⟨rfl, hu'⟩
  exact Runs.pure ⟨hu', rfl, (absorb_of_lt (by norm_num)).symm, rfl, c.buf.holds_nil⟩

/-- …so that a hash which started from the state after whole blocks ends with the digest of those and
what came since… -/
theorem runs_sha256HwRfinal_append {p : List Byte} (hp : 64 ∣ p.length) (hu : u.Resting)
    (hc : c.Reached U (absorb U.step 64 (words 4 initialHash) p) p.length m) :
    Runs (sha256HwRfinal U c) u fun r u' => r.1 = U.sha256 (p ++ m) ∧ u'.Resting := by
  rw [ShaCore.sha256, digest_append (by norm_num) hp]
  exact (runs_sha256HwRfinal hu hc).mono fun r u' hr => ⟨hr.2.1, hr.1⟩

/-- …and one which started afresh with the digest of what came. -/
theorem runs_sha256HwRfinal_sha256 (hu : u.Resting) (hc : c.Reached U (words 4 initialHash) 0 m) :
    Runs (sha256HwRfinal U c) u fun r u' => r.1 = U.sha256 m ∧ u'.Resting := by
  rw [ShaCore.sha256, digest_eq (by norm_num)]
  exact (runs_sha256HwRfinal hu hc).mono fun r u' hr => ⟨hr.2.1, hr.1⟩

/-! ## Chunks -/

theorem runs_rupdates (hu : u.Resting) (hc : c.Reached U h₀ k []) (chunks : List (List Byte)) :
    Runs (chunks.foldlM (sha256HwRupdate U) c) u fun c' u' =>
      c'.Reached U h₀ k chunks.flatten ∧ u'.Resting := by
  refine Runs.foldlM (fun done (c' : Rctx) (u' : Sha) => c'.Reached U h₀ k done.flatten ∧
    u'.Resting) ⟨hc, hu⟩ ?_ chunks
  rintro done x c' u' ⟨hc', hu'⟩
  rw [List.flatten_append, List.flatten_singleton]
  exact runs_sha256HwRupdate hu' hc' x

theorem runs_updates {ctx : Sha256Ctx} (hctx : ctx.Reached []) (hu : u.Holds (absorb U.step 64 h []) mid)
    (chunks : List (List Byte)) :
    Runs (chunks.foldlM (sha256HwUpdate U) ctx) u fun ctx' u' => ctx'.Reached chunks.flatten ∧
      u'.Holds (absorb U.step 64 h chunks.flatten) mid := by
  refine Runs.foldlM (fun done (ctx' : Sha256Ctx) (u' : Sha) => ctx'.Reached done.flatten ∧
    u'.Holds (absorb U.step 64 h done.flatten) mid) ⟨hctx, hu⟩ ?_ chunks
  rintro done x ctx' u' ⟨hctx', hu'⟩
  rw [List.flatten_append, List.flatten_singleton]
  exact runs_sha256HwUpdate_of_absorb hctx' hu' x

/-- **SHA-256 does not depend on chunking.**  The one-shot function, the streaming functions and the ones
that save the state all give the FIPS 180-4 hash of the whole message; and a hash started from the state
after whole blocks gives the hash of those blocks and the message. -/
theorem sha256_chunking (U : ShaCore) {u : Sha} (hu : u.Resting) (chunks : List (List Byte)) :
    Runs (sha256Hw U chunks.flatten) u (fun out _ => out = U.sha256 chunks.flatten) ∧
    (∀ ctx, Runs (do
        let ctx ← sha256HwInit ctx
        let ctx ← chunks.foldlM (sha256HwUpdate U) ctx
        sha256HwFinal U ctx) u fun r _ => r.1 = U.sha256 chunks.flatten) ∧
    (∀ c, Runs (do
        let c ← chunks.foldlM (sha256HwRupdate U) (sha256HwRinit c)
        sha256HwRfinal U c) u fun r _ => r.1 = U.sha256 chunks.flatten) ∧
    ∀ c (p : List Byte), 64 ∣ p.length → Runs (do
        let c ← chunks.foldlM (sha256HwRupdate U) (sha256HwRinitFrom c
          (absorb U.step 64 (words 4 initialHash) p) (BitVec.ofNat 64 p.length))
        sha256HwRfinal U c) u fun r _ => r.1 = U.sha256 (p ++ chunks.flatten) := by
  refine ⟨?_, fun ctx => ?_, fun c => ?_, fun c p hp => ?_⟩
  · exact (runs_sha256Hw hu _).mono fun _ _ hout => hout.1
  · refine (runs_sha256HwInit (U := U) hu ctx).bind fun ctx₁ u₁ h₁ => ?_
    refine (runs_updates h₁.1 h₁.2 chunks).bind fun ctx₂ u₂ h₂ => ?_
    exact (runs_sha256HwFinal_of_absorb h₂.1 h₂.2).mono fun _ _ hout => hout.1
  · refine (runs_rupdates hu (reached_sha256HwRinit c) chunks).bind fun c₁ u₁ h₁ => ?_
    exact (runs_sha256HwRfinal_sha256 h₁.2 h₁.1).mono fun _ _ hout => hout.1
  · refine (runs_rupdates hu (reached_sha256HwRinitFrom c _ _) chunks).bind fun c₁ u₁ h₁ => ?_
    exact (runs_sha256HwRfinal_append hp h₁.2 h₁.1).mono fun _ _ hout => hout.1

/-- A core that adds the first half of the block to H… -/
def addCore : ShaCore := ⟨fun h b i => h i + b (i.castLE (by norm_num)), id⟩

/-- …and a unit at rest. -/
def restingSha : Sha :=
  ⟨fun _ => 0, fun _ => 0, fun _ => 0, false, none, fun _ => 0, fun _ => 0, fun _ => 0⟩

/-- Three bytes in three pieces, one of them empty. -/
theorem sha256_chunking_abc :
    restingSha.Resting ∧ Runs (do
      let c ← [[0x61], [], [0x62, 0x63]].foldlM (sha256HwRupdate addCore)
        (sha256HwRinit ⟨fun _ => 0, 0, Buffer.zero 64, 0⟩)
      sha256HwRfinal addCore c) restingSha fun r _ => r.1 = addCore.sha256 [0x61, 0x62, 0x63] :=
  ⟨rfl, (sha256_chunking addCore (u := restingSha) rfl [[0x61], [], [0x62, 0x63]]).2.2.1 _⟩

end KlaussRuntime.Crypto
