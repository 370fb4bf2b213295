import KlaussRuntime.Crypto.Hashes

/-!
# Crypto/Hmac — three ways to compute HMAC

RFC 2104 hashes the key's ipad block and the message, and then the opad block and the inner digest.  The
software version streams the pad blocks through the hash; the version with saved states starts from the
states they lead to; the hardware wrapper has those states in the unit.  A hash that starts from such a
state has the block behind it without having been fed it, and the length field counts it, which is why
the three agree (`hmac_agreement`).
-/

namespace KlaussRuntime.Crypto

open Machinery Machinery.Hashing

variable {U : ShaCore} {u : Sha} {key msg : List Byte}

/-! ## The key as a block -/

/-- The key as a block, under the unit's SHA-256. -/
def ShaCore.keyBlock (U : ShaCore) (key : List Byte) : List Byte := Hashing.keyBlock U.sha256 64 key

theorem ShaCore.length_sha256 (m : List Byte) : (U.sha256 m).length = 32 := length_wordsBytes _

theorem ShaCore.length_keyBlock (key : List Byte) : (U.keyBlock key).length = 64 :=
  Hashing.length_keyBlock (fun m => by rw [length_sha256]; norm_num) key

theorem ShaCore.length_ipad (key : List Byte) : (ipad (U.keyBlock key)).length = 64 := by
  rw [ipad, List.length_map, length_keyBlock]

theorem ShaCore.length_opad (key : List Byte) : (opad (U.keyBlock key)).length = 64 := by
  rw [opad, List.length_map, length_keyBlock]

theorem put_zeros {n : ℕ} (bs : List Byte) :
    put 0 bs (List.replicate n 0) = bs ++ List.replicate (n - bs.length) 0 := by
  rw [put_zero, List.drop_replicate]

/-- The array a driver makes of a key: the hash of a long one, zeros behind. -/
theorem put_key_of_le (h : key.length ≤ 64) :
    put 0 key (List.replicate 64 0) = U.keyBlock key := by
  rw [put_zeros, ShaCore.keyBlock, keyBlock, if_neg (not_lt.mpr h)]

theorem put_key_of_gt (h : key.length > 64) :
    put 0 (U.sha256 key) (List.replicate 64 0) = U.keyBlock key := by
  rw [put_zeros, ShaCore.keyBlock, keyBlock, if_pos h]

theorem runs_swKeyBlock (hu : u.Resting) (key : List Byte) :
    Runs (swKeyBlock U key) u fun k u' => k = U.keyBlock key ∧ u'.Resting := by
  rw [swKeyBlock]
  split_ifs with hlong
  · refine (runs_sha256Hw hu key).bind ?_
    rintro _ u' ⟨rfl, hu'⟩
    exact Runs.pure ⟨put_key_of_gt hlong, hu'⟩
  · exact Runs.pure ⟨put_key_of_le (not_lt.mp hlong), hu⟩

theorem runs_rkeyBlock (hu : u.Resting) (c : Rctx) (key : List Byte) :
    Runs (rkeyBlock U c key) u fun k u' => k = U.keyBlock key ∧ u'.Resting := by
  rw [rkeyBlock]
  split_ifs with hlong
  · refine (runs_sha256HwRupdate hu (reached_sha256HwRinit c) key).bind fun c₁ u₁ h₁ => ?_
    refine (runs_sha256HwRfinal_sha256 h₁.2 h₁.1).bind ?_
    rintro ⟨_, _⟩ u₂ ⟨rfl, hu₂⟩
    exact Runs.pure ⟨put_key_of_gt hlong, hu₂⟩
  · exact Runs.pure ⟨put_key_of_le (not_lt.mp hlong), hu⟩

/-- **`hmac_sha256_sw`** is HMAC. -/
theorem runs_hmacSha256Sw (hu : u.Resting) (ctx : Sha256Ctx) (key msg : List Byte) :
    Runs (hmacSha256Sw U ctx key msg) u fun out u' => out = U.hmac key msg ∧ u'.Resting := by
  refine (runs_swKeyBlock hu key).bind ?_
  rintro _ u₀ ⟨rfl, hu₀⟩
  -- the inner hash
  refine (runs_sha256HwInit (U := U) hu₀ ctx).bind fun c₁ u₁ h₁ => ?_
  refine (runs_sha256HwUpdate_of_absorb h₁.1 h₁.2 (ipad (U.keyBlock key))).bind fun c₂ u₂ h₂ => ?_
  refine (runs_sha256HwUpdate_of_absorb h₂.1 h₂.2 msg).bind fun c₃ u₃ h₃ => ?_
  refine (runs_sha256HwFinal_of_absorb h₃.1 h₃.2).bind ?_
  rintro ⟨_, ctx'⟩ u₄ ⟨rfl, hu₄⟩
  -- the outer hash
  refine (runs_sha256HwInit (U := U) hu₄ ctx').bind fun c₅ u₅ h₅ => ?_
  refine (runs_sha256HwUpdate_of_absorb h₅.1 h₅.2 (opad (U.keyBlock key))).bind fun c₆ u₆ h₆ => ?_
  refine (runs_sha256HwUpdate_of_absorb h₆.1 h₆.2 _).bind fun c₇ u₇ h₇ => ?_
  refine (runs_sha256HwFinal_of_absorb h₇.1 h₇.2).bind ?_
  rintro ⟨_, _⟩ u₈ ⟨rfl, hu₈⟩
  exact Runs.pure ⟨rfl, hu₈⟩

/-- The states after the pad blocks of a key. -/
structure HmacKey.IsFor (U : ShaCore) (key : List Byte) (k : HmacKey) : Prop where
  ih : k.ih = absorb U.step 64 (words 4 initialHash) (ipad (U.keyBlock key))
  oh : k.oh = absorb U.step 64 (words 4 initialHash) (opad (U.keyBlock key))

/-- **`hmac_sha256_hw_rkey`** leaves the states after the pad blocks. -/
theorem runs_hmacSha256HwRkey (hu : u.Resting) (c : Rctx) (key : List Byte) :
    Runs (hmacSha256HwRkey U c key) u fun k u' => k.IsFor U key ∧ u'.Resting := by
  refine (runs_rkeyBlock hu c key).bind ?_
  rintro _ u₀ ⟨rfl, hu₀⟩
  refine (runs_shaRBlocks_one hu₀ _ (U.length_ipad key)).bind ?_
  rintro _ u₁ ⟨rfl, hu₁⟩
  refine (runs_shaRBlocks_one hu₁ _ (U.length_opad key)).bind ?_
  rintro _ u₂ ⟨rfl, hu₂⟩
  refine Runs.pure ⟨⟨?_, ?_⟩, hu₂⟩
  · rw [absorb_block (by norm_num) (U.length_ipad key), ← sha256Iv_eq]
    rfl
  · rw [absorb_block (by norm_num) (U.length_opad key), ← sha256Iv_eq]
    rfl

/-- **`hmac_sha256_hw_rmac`** is HMAC under the key the states are for, whatever the unit held. -/
theorem runs_hmacSha256HwRmac (hu : u.Resting) (c : Rctx) {k : HmacKey} (hk : k.IsFor U key)
    (msg : List Byte) :
    Runs (hmacSha256HwRmac U c k msg) u fun out u' => out = U.hmac key msg ∧ u'.Resting := by
  have hstart : ∀ (c : Rctx) {h₀ : Words 4} {p : List Byte}, p.length = 64 →
      h₀ = absorb U.step 64 (words 4 initialHash) p → (sha256HwRinitFrom c h₀ 64).Reached U
        (absorb U.step 64 (words 4 initialHash) p) p.length [] := by
    rintro c _ p hp rfl
    rw [hp]
    exact reached_sha256HwRinitFrom c _ 64
  have hipad := U.length_ipad key
  have hopad := U.length_opad key
  refine (runs_sha256HwRupdate hu (hstart c hipad hk.ih) msg).bind fun c₁ u₁ h₁ => ?_
  refine (runs_sha256HwRfinal_append (dvd_of_eq hipad.symm) h₁.2 h₁.1).bind ?_
  rintro ⟨_, c₂⟩ u₂ ⟨rfl, hu₂⟩
  refine (runs_sha256HwRupdate hu₂ (hstart c₂ hopad hk.oh) _).bind fun c₃ u₃ h₃ => ?_
  refine (runs_sha256HwRfinal_append (dvd_of_eq hopad.symm) h₃.2 h₃.1).bind ?_
  rintro ⟨_, _⟩ u₄ ⟨rfl, hu₄⟩
  exact Runs.pure ⟨rfl, hu₄⟩

theorem outerBlock_eq {inner : List Byte} (hinner : inner.length = 32) :
    outerBlock inner = inner ++ padding 64 8 32 96 := by
  have harray : (put 0 inner (List.replicate 64 0)).set 32 0x80
      = inner ++ 0x80 :: List.replicate 31 0 := by
    rw [put_zeros, List.set_append_right _ _ hinner.le, hinner]
    rfl
  have hlen : (inner ++ 0x80 :: List.replicate 31 (0 : Byte)).length = 64 := by simp [hinner]
  have htake : (inner ++ 0x80 :: List.replicate 31 0).take 56
      = inner ++ 0x80 :: List.replicate 23 (0 : Byte) := by
    rw [List.take_append, List.take_of_length_le (by omega), hinner]
    rfl
  simp only [outerBlock, harray, mul_comm _ 8]
  refine (foldl_set_be 768 (p := 56) (by omega)).trans ?_
  rw [put, htake, List.drop_eq_nil_of_le (by rw [hlen, length_beBytes]), List.append_nil,
    List.append_assoc]
  rfl

theorem keyOf_eq (hkey : key.length ≤ 32) {u : Sha}
    (hu : u.key = words 4 (put 0 key (List.replicate 32 0))) : u.keyOf = U.keyBlock key := by
  have hlen : (key ++ List.replicate (32 - key.length) (0 : Byte)).length = 8 * 4 := by
    rw [List.length_append, List.length_replicate]
    omega
  rw [Sha.keyOf, hu, put_zeros, wordsBytes_words hlen, ShaCore.keyBlock, keyBlock,
    if_neg (by omega), List.append_assoc, List.replicate_append_replicate]
  congr 2
  omega

theorem Sha.Resting.hmacWait (hu : u.Resting) {P : Sha → Prop} (hP : P u) :
    Runs (hmacWait U) u fun _ u' => P u' :=
  ⟨(), u, by rw [StateT.run, Sha.hmacWait, show u.job = none from hu], hP⟩

theorem runs_hmacWait_keyLoad (hkey : key.length ≤ 32) (hjob : u.job = some .keyLoad)
    (hu : u.key = words 4 (put 0 key (List.replicate 32 0))) :
    Runs (Sha.hmacWait U) u fun _ u' => u'.Resting ∧
      u'.inner = U.step (words 4 initialHash) (ipad (U.keyBlock key)) ∧
      u'.outer = U.step (words 4 initialHash) (opad (U.keyBlock key)) := by
  refine ⟨(), u.finish U, by rw [StateT.run, Sha.hmacWait, hjob], ?_⟩
  rw [Sha.finish, hjob, ← keyOf_eq hkey hu]
  exact ⟨rfl, rfl, rfl⟩

/-- **The inner hash** is the hash of the ipad block and the message. -/
theorem runs_hmacInner {p : List Byte} (hp : p.length = 64) (hu : u.Resting)
    (hinner : u.inner = U.step (words 4 initialHash) p) (msg : List Byte) :
    Runs (hmacInner U msg) u fun out u' => out = U.sha256 (p ++ msg) ∧ u'.Resting ∧
      u'.outer = u.outer := by
  have hrest := length_remainder_lt (n := 64) (by norm_num) msg
  have hbits : 512 + BitVec.ofNat 64 msg.length * 8 = BitVec.ofNat 64 (p.length + msg.length) * 8 := by
    rw [hp, BitVec.ofNat_add, BitVec.add_mul]
    rfl
  rw [ShaCore.sha256, digest_append (by norm_num) (dvd_of_eq hp.symm), absorb_block (by norm_num) hp,
    finish, ← hinner, ← take_padFinal hrest (beBytes_mul_eight _), ← hbits]
  have hload : Sha.Holds u.inner (u.inner, u.outer) { u with h := u.inner } := ⟨hu, rfl, rfl, rfl⟩
  refine Sha.runs_access_bind hu ((hload.resting.hmacWait hload).bind fun _ u₁ hu₁ => ?_)
  refine (runs_compressBlocks_all hu₁ msg).bind fun _ u₂ hu₂ => ?_
  refine (runs_compressBlocks hu₂ (length_padFinal hrest _)).bind fun _ u₃ hu₃ => ?_
  exact (runs_shaReadDigest hu₃).mono fun out u₄ h₄ => ⟨h₄.1, h₄.2.resting, h₄.2.outer⟩

/-- **The outer hash** is the hash of the opad block and the inner digest. -/
theorem runs_hmacOuter {p inner : List Byte} (hp : p.length = 64) (hinner : inner.length = 32)
    (hu : u.Resting) (houter : u.outer = U.step (words 4 initialHash) p) :
    Runs (hmacOuter U inner) u fun out u' => out = U.sha256 (p ++ inner) ∧ u'.Resting := by
  have hblock : (inner ++ padding 64 8 32 96).length = 64 := by
    rw [List.length_append, hinner]
    rfl
  rw [ShaCore.sha256, digest_append (by norm_num) (dvd_of_eq hp.symm), absorb_block (by norm_num) hp,
    finish, ← houter, absorb_of_lt (show inner.length < 64 by omega),
    remainder_of_lt (show inner.length < 64 by omega), hp, hinner, absorb_block (by norm_num) hblock,
    ← outerBlock_eq hinner]
  have hload : Sha.Holds u.outer (u.inner, u.outer) { u with h := u.outer } := ⟨hu, rfl, rfl, rfl⟩
  refine Sha.runs_access_bind hu ((hload.resting.hmacWait hload).bind fun _ u₁ hu₁ => ?_)
  refine (runs_compressBlock hu₁ _).bind fun _ u₂ hu₂ => ?_
  exact (runs_shaReadDigest hu₂).mono fun out u₃ h₃ => ⟨h₃.1, h₃.2.resting⟩

/-- **`hmac_sha256_hw`** is HMAC under a key of at most 32 bytes. -/
theorem runs_hmacSha256Hw (hu : u.Resting) (hkey : key.length ≤ 32) (msg : List Byte) :
    Runs (hmacSha256Hw U key msg) u fun out u' => out = U.hmac key msg ∧ u'.Resting := by
  rw [hmacSha256Hw, if_neg (not_lt.mpr hkey), List.take_length]
  refine Sha.runs_access_bind hu (Sha.runs_access_bind hu ?_)
  refine (runs_hmacWait_keyLoad hkey rfl rfl).bind ?_
  rintro _ u₁ ⟨hu₁, hinner, houter⟩
  refine (runs_hmacInner (U.length_ipad key) hu₁ hinner msg).bind ?_
  rintro _ u₂ ⟨rfl, hu₂, houter₂⟩
  exact runs_hmacOuter (U.length_opad key) (U.length_sha256 _) hu₂ (houter₂.trans houter)

/-- **All HMAC implementations agree with RFC 2104.**  A key set up once serves any number of messages,
whatever else has used the unit in between. -/
theorem hmac_agreement (U : ShaCore) {u : Sha} (hu : u.Resting) (key : List Byte) :
    (∀ ctx msg, Runs (hmacSha256Sw U ctx key msg) u fun out _ => out = U.hmac key msg) ∧
    (∀ c, Runs (hmacSha256HwRkey U c key) u fun k u' => u'.Resting ∧
      ∀ u₁ : Sha, u₁.Resting → ∀ c₁ msg, Runs (hmacSha256HwRmac U c₁ k msg) u₁ fun out u₂ =>
        out = U.hmac key msg ∧ u₂.Resting) ∧
    (key.length ≤ 32 → ∀ msg, Runs (hmacSha256Hw U key msg) u fun out _ => out = U.hmac key msg) := by
  refine ⟨fun ctx msg => ?_, fun c => ?_, fun hkey msg => ?_⟩
  · exact (runs_hmacSha256Sw hu ctx key msg).mono fun _ _ hout => hout.1
  · exact (runs_hmacSha256HwRkey hu c key).mono fun k u' hk =>
      ⟨hk.2, fun u₁ hu₁ c₁ msg => runs_hmacSha256HwRmac hu₁ c₁ hk.1 msg⟩
  · exact (runs_hmacSha256Hw hu hkey msg).mono fun _ _ hout => hout.1

/-- A key of four bytes, for all three. -/
theorem hmac_agreement_four :
    restingSha.Resting ∧ [1, 2, 3, 4].length ≤ 32 ∧
    Runs (hmacSha256Hw addCore [1, 2, 3, 4] [5]) restingSha
      (fun out _ => out = addCore.hmac [1, 2, 3, 4] [5]) ∧
    Runs (hmacSha256Sw addCore ⟨0, Buffer.zero 64, 0, false⟩ [1, 2, 3, 4] [5]) restingSha
      (fun out _ => out = addCore.hmac [1, 2, 3, 4] [5]) := by
  have hall := hmac_agreement addCore (u := restingSha) rfl [1, 2, 3, 4]
  exact ⟨rfl, by decide, hall.2.2 (by decide) [5], hall.1 _ _⟩

end KlaussRuntime.Crypto
