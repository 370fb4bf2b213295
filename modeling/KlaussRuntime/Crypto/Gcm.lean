import KlaussRuntime.Crypto.Passes

/-!
# Crypto/Gcm — the GCM drivers compute GCM

Every path of `aesGcmEncrypt` stores the ciphertext and the tag of `Gcm.authEncrypt`
(`runs_aesGcmEncrypt`), and every path of `aesGcmDecrypt` accepts exactly the tag encryption would
compute, whichever path encryption took, and stores the plaintext or zeros (`runs_aesGcmDecrypt`).
-/

namespace KlaussRuntime.Crypto

open Machinery Machinery.Gcm

variable {U : Units} {d : Dev} {inp out len : ℕ} {h y : Block}

/-! ## Encryption -/

/-- Both units at rest, MODE = 0: how every driver finds and leaves them. -/
structure Dev.Ready (d : Dev) : Prop where
  aes : d.aes.Idle
  gcm : d.gcm.busy = false

variable {cfg : Config} {iv aad aadLen pt ct : ℕ}

theorem runs_ctrUnit (hsep : Separate inp out len) (haes : d.aes.Idle) (iv : ℕ) :
    Runs (ctrUnit U iv inp out len) d fun _ d' => d'.aes.Idle ∧ d'.gcm = d.gcm ∧
      d'.mem = d.mem.write out (cryptOf U.encrypt (d.mem.read iv 12) (d.mem.read inp len)) := by
  refine runs_load_bind ((runs_aesCtrHw hsep haes (by simp)).bind ?_)
  rintro _ d' ⟨haes', hgcm', hmem'⟩
  refine Runs.pure ⟨haes', hgcm', ?_⟩
  rw [hmem', cryptOf, inc32_preCounter (by simp)]

theorem runs_encryptText (hsep : Separate pt ct len) (haes : d.aes.Idle) (hgcm : d.gcm.Holds h y)
    (iv : ℕ) :
    Runs (encryptText U cfg iv pt ct len) d fun _ d' =>
      let crypt := cryptOf U.encrypt (d.mem.read iv 12) (d.mem.read pt len)
      d'.aes.Idle ∧ d'.mem = d.mem.write ct crypt ∧
      d'.gcm.Holds h (ghashFrom U.mul h y (blocks crypt)) := by
  unfold encryptText
  split_ifs
  · refine (runs_ctrUnit hsep haes iv).bind ?_
    rintro _ d₁ ⟨haes₁, hgcm₁, hmem₁⟩
    refine (runs_ghashRegion (hgcm₁ ▸ hgcm) ct len).mono ?_
    rintro _ d₂ ⟨hmem₂, haes₂, hgcm₂⟩
    refine ⟨haes₂ ▸ haes₁, hmem₂.trans hmem₁, ?_⟩
    have hread := d.mem.read_write_self ct
      (cryptOf U.encrypt (d.mem.read iv 12) (d.mem.read pt len))
    rw [length_cryptOf, Mem.length_read] at hread
    rwa [hmem₁, hread] at hgcm₂
  · have hstart : HashAfter true d.gcm h y d.gcm := hgcm
    exact runs_ctrSoft hsep true haes hstart iv

theorem hashedText_false (iv text : List Byte) :
    hashedText U (inc32 (preCounter iv)) false text = cryptOf U.encrypt iv text := rfl

theorem hashedText_true (icb : Block) (text : List Byte) : hashedText U icb true text = text := rfl

theorem toBytes_tag (iv aad c : List Byte) :
    toBytes (U.mul (ghashFrom U.mul (U.encrypt 0) (ghash U.mul (U.encrypt 0) (blocks aad)) (blocks c)
        ^^^ lengthBlock aad.length c.length) (U.encrypt 0) ^^^ U.encrypt (preCounter iv))
      = tagOf U.encrypt U.mul iv aad c := by
  rw [tagOf, gctr_block, ghash, ghash, ghashFrom_append, ghashFrom_append, BitVec.xor_comm]
  rfl

theorem runs_tag {g : Ghash} {iv aad c : List Byte} (haad : aad.length = aadLen)
    (hc : c.length = len)
    (hg : g.Holds (U.encrypt 0)
      (ghashFrom U.mul (U.encrypt 0) (ghash U.mul (U.encrypt 0) (blocks aad)) (blocks c))) :
    Runs (gcmCtrTag U aadLen len (lowWord (U.encrypt (preCounter iv)))
      (highWord (U.encrypt (preCounter iv)))) g fun r g' =>
        r = tagOf U.encrypt U.mul iv aad c ∧ g'.busy = false := by
  refine (runs_gcmCtrTag hg aadLen len).mono ?_
  rintro _ g' ⟨rfl, hidle⟩
  rw [← haad, ← hc]
  exact ⟨toBytes_tag iv aad c, hidle⟩

/-- **Encryption on every path**: the ciphertext and the tag of the standard, stored one after the
other. -/
theorem runs_aesGcmEncrypt (U : Units) (cfg : Config) (hd : d.Ready) (hsep : Separate pt ct len)
    (iv aad aadLen tagOut : ℕ) :
    Runs (aesGcmEncrypt U cfg iv aad aadLen pt ct len tagOut) d fun _ d' =>
      let sealed := authEncrypt U.encrypt U.mul (d.mem.read iv 12) (d.mem.read aad aadLen)
        (d.mem.read pt len)
      d'.mem = (d.mem.write ct sealed.1).write tagOut sealed.2 ∧ d'.Ready := by
  unfold aesGcmEncrypt
  split_ifs
  · refine (runs_gcmCtrSetup hd.aes hd.gcm iv aad aadLen).bind ?_
    rintro _ d₁ ⟨rfl, hmem₁, haes₁, hgcm₁⟩
    refine (runs_gcmCtrGhash hsep haes₁ hgcm₁ false).bind ?_
    rintro _ d₂ ⟨haes₂, hmem₂, hgcm₂⟩
    rw [hmem₁, hashedText_false] at hgcm₂
    rw [hmem₁, ← cryptOf] at hmem₂
    refine runs_onGcm_bind (runs_tag (by simp) (by simp) hgcm₂) ?_
    rintro tag g ⟨heq, hg⟩
    refine runs_store ⟨?_, haes₂, hg⟩
    simp only [hmem₂, heq, authEncrypt]
  · refine (runs_gcmPrelude hd.aes hd.gcm iv aad aadLen).bind ?_
    rintro _ d₁ ⟨rfl, hmem₁, haes₁, hgcm₁⟩
    refine (runs_encryptText hsep haes₁ hgcm₁ iv).bind ?_
    rintro _ d₂ ⟨haes₂, hmem₂, hgcm₂⟩
    rw [hmem₁] at hmem₂ hgcm₂
    refine runs_onGcm_bind (runs_tag (by simp) (by simp) hgcm₂) ?_
    rintro tag g ⟨heq, hg⟩
    refine runs_store ⟨?_, haes₂, hg⟩
    simp only [hmem₂, heq, authEncrypt]

/-- Two strings stored apart are read back as they were stored. -/
theorem read_write_write (m : Mem) {p q n k : ℕ} {xs ys : List Byte} (hx : xs.length = n)
    (hy : ys.length = k) (h : p + n ≤ q ∨ q + k ≤ p) :
    ((m.write p xs).write q ys).read p n = xs ∧ ((m.write p xs).write q ys).read q k = ys := by
  subst hx hy
  exact ⟨by rw [Mem.read_write_of_disjoint _ h, Mem.read_write_self], Mem.read_write_self _ _ _⟩

@[simp] theorem length_tagOf (iv aad c : List Byte) :
    (tagOf U.encrypt U.mul iv aad c).length = 16 := by
  rw [tagOf, length_gctr, length_toBytes]

/-- **All paths of AES-GCM encryption agree with the standard**: whatever the bitstream offers, the
driver ends without a fault, the output buffer holds the ciphertext and `tag_out` the tag that GCM
assigns to the IV, the AAD and the plaintext, and nothing else in memory has changed. -/
theorem aesGcmEncrypt_eq_gcm (U : Units) {d : Dev} (hd : d.Ready) (cfg : Config)
    (iv aad aadLen : ℕ) {pt ct len tagOut : ℕ} (hsep : Separate pt ct len)
    (htag : ct + len ≤ tagOut ∨ tagOut + 16 ≤ ct) :
    ∃ d', (aesGcmEncrypt U cfg iv aad aadLen pt ct len tagOut).run d = some ((), d') ∧
      (d'.mem.read ct len, d'.mem.read tagOut 16) = authEncrypt U.encrypt U.mul (d.mem.read iv 12)
        (d.mem.read aad aadLen) (d.mem.read pt len) ∧
      ∀ a, (a < ct ∨ ct + len ≤ a) → (a < tagOut ∨ tagOut + 16 ≤ a) → d'.mem a = d.mem a := by
  obtain ⟨_, d', hrun, hmem, -⟩ := runs_aesGcmEncrypt U cfg hd hsep iv aad aadLen tagOut
  simp only [authEncrypt] at hmem ⊢
  refine ⟨d', hrun, ?_, fun a hct htag' => ?_⟩
  · obtain ⟨hread, hread'⟩ := read_write_write d.mem ((length_cryptOf _ _ _).trans
      (d.mem.length_read pt len)) (length_tagOf _ _ _) htag
    rw [hmem, hread, hread']
  · rw [hmem, Mem.write_apply_of_not_mem _ (by simpa using htag'),
      Mem.write_apply_of_not_mem _ (by simpa using hct)]

/-- Units to try the drivers on. -/
def sampleUnits : Units := ⟨fun b => b ^^^ 0x0123456789abcdef#128, fun a h => (a ^^^ h).rotateLeft 1⟩

/-- The units after reset. -/
def Dev.reset (m : Mem) : Dev :=
  ⟨m, ⟨0, 0, 0, 0, 0, 0, false, false, false, none⟩, ⟨0, 0, 0, 0, 0, false⟩⟩

theorem Dev.ready_reset (m : Mem) : (Dev.reset m).Ready := ⟨⟨rfl, rfl⟩, rfl⟩

/-- Twenty bytes encrypted in place with a tag behind them, on a bitstream without counter mode. -/
theorem aesGcmEncrypt_eq_gcm_inPlace :
    let d := Dev.reset fun a => BitVec.ofNat 8 a
    ∃ d', (aesGcmEncrypt sampleUnits ⟨false, false, true⟩ 0 12 5 32 32 20 52).run d = some ((), d') ∧
      (d'.mem.read 32 20, d'.mem.read 52 16) = authEncrypt sampleUnits.encrypt sampleUnits.mul
        (d.mem.read 0 12) (d.mem.read 12 5) (d.mem.read 32 20) ∧
      ∀ a, (a < 32 ∨ 32 + 20 ≤ a) → (a < 52 ∨ 52 + 16 ≤ a) → d'.mem a = d.mem a :=
  aesGcmEncrypt_eq_gcm sampleUnits (Dev.ready_reset _) ⟨false, false, true⟩ 0 12 5 (by decide)
    (by decide)

/-! ## Decryption -/

theorem foldl_or_eq_zero (bs : List Byte) (b : Byte) :
    bs.foldl (· ||| ·) b = 0#8 ↔ b = 0#8 ∧ ∀ x ∈ bs, x = 0#8 := by
  induction bs generalizing b with
  | nil => simp
  | cons x bs ih => rw [List.foldl_cons, ih, BitVec.or_eq_zero_iff, List.forall_mem_cons, and_assoc]

/-- **The constant-time comparison** finds no difference exactly between equal tags. -/
theorem tagDiff_eq_zero_iff {a b : List Byte} (h : a.length = b.length) : tagDiff a b = 0 ↔ a = b := by
  rw [tagDiff]
  refine (foldl_or_eq_zero _ _).trans ?_
  refine ⟨fun ⟨_, hzero⟩ => ?_, ?_⟩
  · refine List.ext_getElem h fun i h₁ h₂ => ?_
    have := hzero (a[i] ^^^ b[i]) (List.mem_iff_getElem.mpr ⟨i, by simp [xorBytes, h₁, h₂], by
      simp [xorBytes]⟩)
    exact BitVec.xor_eq_zero_iff.mp this
  · rintro rfl
    refine ⟨rfl, fun x hx => ?_⟩
    obtain ⟨i, hi, rfl⟩ := List.mem_iff_getElem.mp hx
    simp [xorBytes]

theorem runs_decryptText (hsep : Separate ct pt len) (haes : d.aes.Idle) (iv : ℕ) :
    Runs (decryptText U cfg iv ct pt len) d fun _ d' => d'.aes.Idle ∧ d'.gcm = d.gcm ∧
      d'.mem = d.mem.write pt (cryptOf U.encrypt (d.mem.read iv 12) (d.mem.read ct len)) := by
  unfold decryptText
  split_ifs
  · exact runs_ctrUnit hsep haes iv
  · have hstart : HashAfter false d.gcm 0 0 d.gcm := rfl
    refine (runs_ctrSoft hsep false haes hstart iv).mono ?_
    rintro _ d' ⟨haes', hmem', hgcm'⟩
    exact ⟨haes', hgcm', hmem'⟩

variable {Q : ℤ → Dev → Prop}

theorem runs_verdict {a b : List Byte} (h : a.length = b.length) {k : Prog Dev ℤ}
    (hok : b = a → Runs k d Q)
    (hbad : b ≠ a → Q (-1) { d with mem := d.mem.write pt (List.replicate len 0) }) :
    Runs (if tagDiff a b ≠ 0 then refuse pt len else k) d Q := by
  split_ifs with hdiff
  · exact runs_store_bind (Runs.pure (hbad fun heq => hdiff ((tagDiff_eq_zero_iff h).mpr heq.symm)))
  · exact hok ((tagDiff_eq_zero_iff h).mp (not_not.mp hdiff)).symm

/-- Accepted, with the plaintext in `pt`; or refused, with `pt` all zero. -/
def Opened (U : Units) (d : Dev) (iv aad aadLen ct pt len tagIn : ℕ) (r : ℤ) (m : Mem) : Prop :=
  let tag := tagOf U.encrypt U.mul (d.mem.read iv 12) (d.mem.read aad aadLen) (d.mem.read ct len)
  let text := cryptOf U.encrypt (d.mem.read iv 12) (d.mem.read ct len)
  (d.mem.read tagIn 16 = tag ∧ r = 0 ∧ m.read pt len = text) ∨
    (d.mem.read tagIn 16 ≠ tag ∧ r = -1 ∧ m.read pt len = List.replicate len 0)

theorem read_write_of_length (m : Mem) (p : ℕ) {n : ℕ} {xs : List Byte} (h : xs.length = n) :
    (m.write p xs).read p n = xs := h ▸ m.read_write_self p xs

/-- **Decryption on every path.** -/
theorem runs_aesGcmDecrypt (U : Units) (cfg : Config) (hd : d.Ready) (hsep : Separate ct pt len)
    {tagIn : ℕ} (htag : pt + len ≤ tagIn ∨ tagIn + 16 ≤ pt) (iv aad aadLen : ℕ) :
    Runs (aesGcmDecrypt U cfg iv aad aadLen ct pt len tagIn) d fun r d' =>
      Opened U d iv aad aadLen ct pt len tagIn r d'.mem ∧ d'.Ready := by
  have hzero (m : Mem) : (m.write pt (List.replicate len 0)).read pt len = List.replicate len 0 :=
    read_write_of_length m pt (by simp)
  have htext (m : Mem) : (m.write pt (cryptOf U.encrypt (d.mem.read iv 12)
      (d.mem.read ct len))).read pt len = cryptOf U.encrypt (d.mem.read iv 12) (d.mem.read ct len) :=
    read_write_of_length m pt (by simp)
  unfold aesGcmDecrypt
  split_ifs
  · refine (runs_gcmCtrSetup hd.aes hd.gcm iv aad aadLen).bind ?_
    rintro _ d₁ ⟨rfl, hmem₁, haes₁, hgcm₁⟩
    refine (runs_gcmCtrGhash hsep haes₁ hgcm₁ true).bind ?_
    rintro _ d₂ ⟨haes₂, hmem₂, hgcm₂⟩
    rw [hmem₁, hashedText_true] at hgcm₂
    rw [hmem₁, ← cryptOf] at hmem₂
    refine runs_onGcm_bind (runs_tag (by simp) (by simp) hgcm₂) ?_
    rintro tag g ⟨heq, hg⟩
    rw [heq]
    refine runs_load_bind ?_
    have hexpected : d₂.mem.read tagIn 16 = d.mem.read tagIn 16 := by
      rw [hmem₂, Mem.read_write_of_disjoint _ (by simpa using htag.symm)]
    rw [hexpected]
    refine runs_verdict (by simp) (fun hok => Runs.pure ⟨.inl ⟨hok, rfl, ?_⟩, haes₂, hg⟩)
      fun hbad => ⟨.inr ⟨hbad, rfl, hzero _⟩, haes₂, hg⟩
    rw [hmem₂, htext]
  · refine (runs_gcmPrelude hd.aes hd.gcm iv aad aadLen).bind ?_
    rintro _ d₁ ⟨rfl, hmem₁, haes₁, hgcm₁⟩
    refine (runs_ghashRegion hgcm₁ ct len).bind ?_
    rintro _ d₂ ⟨hmem₂, haes₂, hgcm₂⟩
    rw [hmem₁] at hmem₂ hgcm₂
    refine runs_onGcm_bind (runs_tag (by simp) (by simp) hgcm₂) ?_
    rintro tag g ⟨heq, hg⟩
    rw [heq]
    refine runs_load_bind ?_
    rw [hmem₂]
    refine runs_verdict (by simp) (fun hok => ?_)
      fun hbad => ⟨.inr ⟨hbad, rfl, hzero _⟩, haes₂ ▸ haes₁, hg⟩
    refine (runs_decryptText hsep (haes₂ ▸ haes₁) iv).bind ?_
    rintro _ d₃ ⟨haes₃, hgcm₃, hmem₃⟩
    refine Runs.pure ⟨.inl ⟨hok, rfl, ?_⟩, haes₃, hgcm₃ ▸ hg⟩
    rw [hmem₃]
    exact htext _

/-- **Decryption undoes encryption, and a refusal releases nothing.**  Let `e` be a device that is to
encrypt, under the same IV and AAD, the text the ciphertext decrypts to.  Whatever path either
direction takes, and also in place, encryption gives the ciphertext back; decryption returns 0 exactly
when `tag_in` is the tag encryption computes, and then `pt` holds that text; else it returns -1 and
`pt` is all zero. -/
theorem aesGcmDecrypt_inverts_encrypt (U : Units) {d e : Dev} (hd : d.Ready) (he : e.Ready)
    (cfg cfg' : Config) {iv aad aadLen ct pt len tagIn iv' aad' pt' ct' tagOut : ℕ}
    (hsep : Separate ct pt len) (htag : pt + len ≤ tagIn ∨ tagIn + 16 ≤ pt)
    (hsep' : Separate pt' ct' len) (htag' : ct' + len ≤ tagOut ∨ tagOut + 16 ≤ ct')
    (hiv : e.mem.read iv' 12 = d.mem.read iv 12)
    (haad : e.mem.read aad' aadLen = d.mem.read aad aadLen)
    (htext : e.mem.read pt' len = cryptOf U.encrypt (d.mem.read iv 12) (d.mem.read ct len)) :
    ∃ r d' e', (aesGcmDecrypt U cfg iv aad aadLen ct pt len tagIn).run d = some (r, d') ∧
      (aesGcmEncrypt U cfg' iv' aad' aadLen pt' ct' len tagOut).run e = some ((), e') ∧
      e'.mem.read ct' len = d.mem.read ct len ∧
      (r = 0 ↔ d.mem.read tagIn 16 = e'.mem.read tagOut 16) ∧ (r = 0 ∨ r = -1) ∧
      (r = 0 → d'.mem.read pt len = e.mem.read pt' len) ∧
      (r = -1 → d'.mem.read pt len = List.replicate len 0) := by
  obtain ⟨r, d', hrun, hopened, -⟩ := runs_aesGcmDecrypt U cfg hd hsep htag iv aad aadLen
  obtain ⟨_, e', hrun', hmem, -⟩ := runs_aesGcmEncrypt U cfg' he hsep' iv' aad' aadLen tagOut
  simp only [authEncrypt, hiv, haad, htext, cryptOf_cryptOf] at hmem
  obtain ⟨hct', htagOut⟩ := read_write_write e.mem (d.mem.length_read ct len) (length_tagOf _ _ _) htag'
  refine ⟨r, d', e', hrun, hrun', by rw [hmem, hct'], ?_⟩
  rw [hmem, htagOut, htext]
  rcases hopened with ⟨hok, rfl, hpt⟩ | ⟨hbad, rfl, hpt⟩
  · exact ⟨iff_of_true rfl hok, .inl rfl, fun _ => hpt, nofun⟩
  · exact ⟨iff_of_false nofun hbad, .inr rfl, nofun, fun _ => hpt⟩

/-- A message encrypted in one pass and opened in place by the software counter. -/
theorem aesGcmDecrypt_inverts_encrypt_inPlace :
    let d := Dev.reset fun a => BitVec.ofNat 8 a
    let text := cryptOf sampleUnits.encrypt (d.mem.read 0 12) (d.mem.read 32 20)
    let e := Dev.reset (d.mem.write 100 text)
    ∃ r d' e', (aesGcmDecrypt sampleUnits ⟨false, false, true⟩ 0 12 5 32 32 20 52).run d
        = some (r, d') ∧
      (aesGcmEncrypt sampleUnits ⟨true, true, true⟩ 0 12 5 100 200 20 300).run e = some ((), e') ∧
      e'.mem.read 200 20 = d.mem.read 32 20 ∧
      (r = 0 ↔ d.mem.read 52 16 = e'.mem.read 300 16) ∧ (r = 0 ∨ r = -1) ∧
      (r = 0 → d'.mem.read 32 20 = e.mem.read 100 20) ∧
      (r = -1 → d'.mem.read 32 20 = List.replicate 20 0) := by
  intro d text e
  have hlen : text.length = 20 := by simp [text]
  refine aesGcmDecrypt_inverts_encrypt sampleUnits (Dev.ready_reset _) (Dev.ready_reset _) _ _
    (by decide) (by decide) (by decide) (by decide) ?_ ?_ ?_
  · exact d.mem.read_write_of_disjoint (by rw [hlen]; decide)
  · exact d.mem.read_write_of_disjoint (by rw [hlen]; decide)
  · exact read_write_of_length _ _ hlen

end KlaussRuntime.Crypto
