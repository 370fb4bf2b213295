import KlaussRuntime.Disk.Wire

/-!
# Disk/Fatfs — sectors between FatFs and the card, on the bare machine

`disk_read` and `disk_write` go through `sd_read_block` and `sd_write_block` sector by sector.  The two
wait by counting: 200000 bytes for the start token of a block, and as many for the end of the card's
busy period after one.

A sector counts as written when the card has taken its data and has released the bus again
(`Finished`), and as read when its bytes followed the start token that answers its `CMD17`, with no
error token before (`Genuine`).  The wait for the bus can run out, and `sd_write_block` returns
`SD_OK` all the same; and the search for the token passes over an error token.  So what is reported is
true (`fatfs_reports`) of a card that is never busy for longer than the wait and never sends an error
token ahead of a start token; the two cards of `fatfs_misreports` are such that it is not.
-/

namespace KlaussRuntime.Fatfs

open Machinery Disk.Pins

/-! ## The driver -/

def SD_OK : ℤ := 0

def SD_ERR_CMD : ℤ := -4

def SD_ERR_TOKEN : ℤ := -5

def SD_ERR_WRITE : ℤ := -6

/-- The tries of a wait. -/
def TRIES : ℕ := 200000

def sdCmd (cmd : Byte) (arg : BitVec 32) (crc : Byte) : Cut Wire Byte := do
  txBytes (0xFF :: Disk.frame cmd arg crc)
  pollR1 8

/-- `blk_arg`, with `s_blockaddr`. -/
def blkArg (blockaddr : Bool) (lba : BitVec 32) : BitVec 32 := if blockaddr then lba else lba * 512

/-- `sd_read_block` into the memory at `buf`. -/
def sdReadBlock (blockaddr : Bool) (lba : BitVec 32) (m : Mem) (buf : ℕ) : Cut Wire (ℤ × Mem) := do
  csAssert
  let r1 ← sdCmd 17 (blkArg blockaddr lba) 0xFF
  if r1 ≠ 0x00 then do
    csDeassert
    return (SD_ERR_CMD, m)
  else do
    let t ← tryFor (· == 0xFE) TRIES
    if t.isNone then do
      csDeassert
      return (SD_ERR_TOKEN, m)
    else do
      let bs ← rxBytes 512
      let _ ← rxBytes 2
      csDeassert
      return (SD_OK, m.write buf bs)

/-- The data block of a write, and the card's response. -/
def sendBlock (data : List Byte) : Cut Wire Byte := do
  txBytes ([0xFF, 0xFE] ++ data ++ [0xFF, 0xFF])
  spiXfer 0xFF

def sdWriteBlock (blockaddr : Bool) (lba : BitVec 32) (m : Mem) (buf : ℕ) : Cut Wire ℤ := do
  csAssert
  let r1 ← sdCmd 24 (blkArg blockaddr lba) 0xFF
  if r1 ≠ 0x00 then do
    csDeassert
    return SD_ERR_CMD
  else do
    let resp ← sendBlock (m.read buf 512)
    if resp &&& 0x1F ≠ 0x05 then do
      csDeassert
      return SD_ERR_WRITE
    else do
      -- how the wait ends is not looked at
      let _ ← tryFor (· != 0x00) TRIES
      csDeassert
      return SD_OK

/-! ## The FatFs layer -/

inductive DResult where
  | ok
  | error
  | notReady
  deriving DecidableEq

/-- `if (… != SD_OK) return RES_ERROR`, at the end of a loop over sectors. -/
def report (rc : ℤ) : DResult := if rc ≠ SD_OK then .error else .ok

theorem report_eq_ok {rc : ℤ} : report rc = .ok ↔ rc = SD_OK := by
  rw [report]
  split_ifs with h <;> simp_all

/-- The card as FatFs sees it: `s_ready` and `s_blockaddr`. -/
structure Drive where
  ready : Bool
  blockaddr : Bool

def diskRead (d : Drive) (pdrv : Byte) (m : Mem) (buff : ℕ) (sector count : BitVec 32) :
    Cut Wire (DResult × Mem) :=
  if pdrv ≠ 0 ∨ ¬ d.ready then return (.notReady, m)
  else do
    let r ← Cut.untilError (fun i m =>
      sdReadBlock d.blockaddr (sector + BitVec.ofNat 32 i) m (buff + i * 512)) count.toNat 0 m
    return (report r.1, r.2)

def diskWrite (d : Drive) (pdrv : Byte) (m : Mem) (buff : ℕ) (sector count : BitVec 32) :
    Cut Wire DResult :=
  if pdrv ≠ 0 ∨ ¬ d.ready then return .notReady
  else do
    let r ← Cut.untilError (fun i (_ : Unit) => do
      let rc ← sdWriteBlock d.blockaddr (sector + BitVec.ofNat 32 i) m (buff + i * 512)
      return (rc, ())) count.toNat 0 ()
    return report r.1

/-! ## What a report means -/

/-- A command the card has accepted: its R1 is zero. -/
def Accepted (cmd : Byte) (arg : BitVec 32) (seg : List Ev) : Prop :=
  ∃ rxs gap, rxs.length = 7 ∧ (∀ b ∈ gap, b &&& 0x80 ≠ 0) ∧
    seg = sends (0xFF :: Disk.frame cmd arg 0xFF) rxs ++ fills (gap ++ [0x00])

/-- A data block sent, with the card's bytes meanwhile. -/
def block (data rxs : List Byte) : List Ev := sends ([0xFF, 0xFE] ++ data ++ [0xFF, 0xFF]) rxs

/-- **A finished write**: the card accepted the command and the data, and has released the bus. -/
def Finished (arg : BitVec 32) (data : List Byte) (seg : List Ev) : Prop :=
  ∃ (low high : BitVec 32) (cmd : List Ev) (rxs : List Byte) (resp : Byte) (busy : List Byte)
    (released : Byte), Accepted 24 arg cmd ∧ rxs.length = data.length + 4 ∧
    resp &&& 0x1F = 0x05 ∧ (∀ b ∈ busy, b = 0x00) ∧ released ≠ 0x00 ∧
    seg = [.ctrl low] ++ cmd ++ block data rxs ++ fills ([resp] ++ busy ++ [released]) ++ [.ctrl high]

/-- `000x_xxxx`. -/
def IsErrorToken (b : Byte) : Prop := b &&& 0xE0 = 0

instance decidableIsErrorToken : DecidablePred IsErrorToken := fun b =>
  inferInstanceAs (Decidable (b &&& 0xE0 = 0))

/-- **A genuine read**: these bytes followed the start token sent in answer to the command, with no
error token before it. -/
def Genuine (arg : BitVec 32) (data : List Byte) (seg : List Ev) : Prop :=
  ∃ (low high : BitVec 32) (cmd : List Ev) (gap crc : List Byte), Accepted 17 arg cmd ∧
    (∀ b ∈ gap, ¬ IsErrorToken b) ∧ data.length = 512 ∧
    seg = [.ctrl low] ++ cmd ++ fills (gap ++ [0xFE] ++ data ++ crc) ++ [.ctrl high]

/-- What went over the wire is one piece for each sector, as `P` asks of it. -/
def Pieces (P : ℕ → List Ev → Prop) (n : ℕ) (w w' : Wire) : Prop :=
  ∃ segs : List (List Ev), segs.length = n ∧ Adds w segs.flatten w' ∧ ∀ i seg, segs[i]? = some seg → P i seg

/-- The card is never busy for the whole of the wait: one of its answers ends it. -/
def Prompt (byte : List Ev → Byte) : Prop :=
  ∀ h cmd arg data rxs resp, Accepted 24 arg cmd → data.length = 512 → rxs.length = data.length + 4 →
    resp &&& 0x1F = 0x05 →
    ∃ k < TRIES, byte (h ++ cmd ++ block data rxs ++ fills ([resp] ++ List.replicate k 0x00)) ≠ 0x00

/-- The card sends no error token ahead of a start token. -/
def Clean (byte : List Ev → Byte) : Prop :=
  ∀ h cmd arg gap, Accepted 17 arg cmd → (∀ b ∈ gap, b ≠ 0xFE) →
    ¬ IsErrorToken (byte (h ++ cmd ++ fills gap))

/-! ## One sector -/

section Sector

variable {w : Wire} {blockaddr : Bool} {lba : BitVec 32} {m : Mem} {buf : ℕ}

theorem sdCmd_spec (cmd : Byte) (arg : BitVec 32) :
    Ends (sdCmd cmd arg 0xFF) w fun r w' => ∃ seg, Adds w seg w' ∧ (r = 0 → Accepted cmd arg seg) := by
  refine (txBytes_spec _).bind fun _ w₁ ⟨rxs, hlen, h₁⟩ => (pollR1_spec 8).mono
    fun r w₂ ⟨gap, rest, hgap, hrest, h₂⟩ => ⟨_, h₁.trans h₂, fun hr => ?_⟩
  rw [hrest (by rw [hr]; decide), hr]
  exact ⟨rxs, gap, hlen, hgap, rfl⟩

/-- The card answers nothing but zeros for the whole of the wait: no prompt card does that. -/
theorem not_answers_zeros {w₀ : Wire} (hw : Prompt w.env.byte) {cmd : List Ev} {arg : BitVec 32}
    {data rxs gap : List Byte} {resp : Byte} (hcmd : Accepted 24 arg cmd) (hdata : data.length = 512)
    (hrxs : rxs.length = data.length + 4) (hresp : resp &&& 0x1F = 0x05)
    (hlog : Adds w₀ (cmd ++ block data rxs ++ fills [resp]) w) (hgap : ∀ b ∈ gap, b = 0x00)
    (hlen : gap.length = TRIES) : ¬ Answers w gap := by
  intro hans
  obtain ⟨k, hk, hne⟩ := hw w₀.log cmd arg data rxs resp hcmd hdata hrxs hresp
  obtain rfl : gap = List.replicate TRIES 0x00 := List.eq_replicate_iff.mpr ⟨hlen, hgap⟩
  have hzero := hans k 0x00 (by rw [List.getElem?_replicate, if_pos hk])
  rw [hlog.log, List.take_replicate, Nat.min_eq_left hk.le] at hzero
  refine hne (Eq.trans ?_ hzero.symm)
  simp only [fills, List.map_append, List.append_assoc]

theorem sendBlock_spec (data : List Byte) : Ends (sendBlock data) w fun resp w' =>
    ∃ rxs, rxs.length = data.length + 4 ∧ Adds w (block data rxs ++ fills [resp]) w' := by
  refine (txBytes_spec _).bind fun _ w₁ ⟨rxs, hlen, h₁⟩ => (spiXfer_spec 0xFF).mono
    fun r w₂ ⟨_, h₂⟩ => ⟨rxs, ?_, h₁.trans h₂⟩
  rw [hlen]
  simp only [List.length_append, List.length_cons, List.length_nil]
  omega

/-- **A sector reported as written is.** -/
theorem sdWriteBlock_spec (hw : Prompt w.env.byte) :
    Ends (sdWriteBlock blockaddr lba m buf) w fun rc w' => ∃ seg, Adds w seg w' ∧
      (rc = SD_OK → Finished (blkArg blockaddr lba) (m.read buf 512) seg) := by
  refine csAssert_spec.bind fun _ w₁ ⟨low, h₁⟩ => (sdCmd_spec 24 _).bind
    fun r1 w₂ ⟨cmd, h₂, hcmd⟩ => .ite (fun hr1 => ?_) fun hr1 => ?_
  · exact csDeassert_spec.bind fun _ w₃ ⟨high, h₃⟩ => Safe.pure
      ⟨_, (h₁.trans h₂).trans h₃, fun h => absurd h (by decide)⟩
  · have hcmd := hcmd (not_not.mp hr1)
    refine (sendBlock_spec _).bind fun resp w₃ ⟨rxs, hrxs, h₃⟩ => .ite (fun hresp => ?_) fun hresp => ?_
    · exact csDeassert_spec.bind fun _ w₄ ⟨high, h₄⟩ => Safe.pure
        ⟨_, ((h₁.trans h₂).trans h₃).trans h₄, fun h => absurd h (by decide)⟩
    · have hresp := not_not.mp hresp
      refine (tryFor_spec _ TRIES).bind fun r w₄ ⟨busy, hbusy, hans, h₄⟩ =>
        csDeassert_spec.bind fun _ w₅ ⟨high, h₅⟩ => Safe.pure ?_
      have hzero : ∀ b ∈ busy, b = 0x00 := fun b hb => by simpa using hbusy b hb
      cases r with
      | some released =>
        obtain ⟨-, hrel, h₄⟩ := h₄
        refine ⟨_, (((h₁.trans h₂).trans h₃).trans h₄).trans h₅, fun _ => ?_⟩
        refine ⟨low, high, cmd, rxs, resp, busy, released, hcmd, hrxs, hresp, hzero,
          by simpa using hrel, ?_⟩
        simp only [fills, List.map_append, List.append_assoc]
      | none =>
        have henv : w₃.env = w.env := ((h₁.trans h₂).trans h₃).env
        have hlog : Adds w₁ (cmd ++ block (m.read buf 512) rxs ++ fills [resp]) w₃ := by
          have := h₂.trans h₃
          rwa [← List.append_assoc] at this
        exact absurd hans (not_answers_zeros (henv ▸ hw) hcmd (Mem.length_read m _ _) hrxs hresp hlog
          hzero h₄.1)

/-- **A sector reported as read is.** -/
theorem sdReadBlock_spec (hw : Clean w.env.byte) :
    Ends (sdReadBlock blockaddr lba m buf) w fun r w' => ∃ seg, Adds w seg w' ∧
      (r.1 = SD_OK → ∃ data, r.2 = m.write buf data ∧ Genuine (blkArg blockaddr lba) data seg) := by
  refine csAssert_spec.bind fun _ w₁ ⟨low, h₁⟩ => (sdCmd_spec 17 _).bind
    fun r1 w₂ ⟨cmd, h₂, hcmd⟩ => .ite (fun hr1 => ?_) fun hr1 => ?_
  · exact csDeassert_spec.bind fun _ w₃ ⟨high, h₃⟩ => Safe.pure
      ⟨_, (h₁.trans h₂).trans h₃, fun h => absurd h (show SD_ERR_CMD ≠ SD_OK by decide)⟩
  · have hcmd := hcmd (not_not.mp hr1)
    refine (tryFor_spec _ TRIES).bind fun t w₃ ⟨gap, hgap, hans, h₃⟩ => .ite (fun ht => ?_) fun ht => ?_
    · obtain rfl : t = none := by simpa using ht
      exact csDeassert_spec.bind fun _ w₄ ⟨high, h₄⟩ => Safe.pure
        ⟨_, ((h₁.trans h₂).trans h₃.2).trans h₄,
          fun h => absurd h (show SD_ERR_TOKEN ≠ SD_OK by decide)⟩
    · obtain ⟨token, rfl⟩ : ∃ token, t = some token :=
        Option.ne_none_iff_exists'.mp (by simpa using ht)
      obtain ⟨-, htoken, h₃⟩ := h₃
      obtain rfl : token = 0xFE := by simpa using htoken
      refine (rxBytes_spec 512).bind fun data w₄ ⟨hdata, h₄⟩ => (rxBytes_spec 2).bind
        fun crc w₅ ⟨_, h₅⟩ => csDeassert_spec.bind fun _ w₆ ⟨high, h₆⟩ => Safe.pure ?_
      refine ⟨_, ((((h₁.trans h₂).trans h₃).trans h₄).trans h₅).trans h₆, fun _ => ⟨data, rfl, ?_⟩⟩
      refine ⟨low, high, cmd, gap, crc, hcmd, ?_, hdata, ?_⟩
      · -- a byte passed over came while the token was still to come
        intro b hb
        obtain ⟨k, hk⟩ := List.mem_iff_getElem?.mp hb
        have henv : w₂.env = w.env := (h₁.trans h₂).env
        have hearlier : ∀ x ∈ gap.take k, x ≠ 0xFE := fun x hx => by
          simpa using hgap x (List.mem_of_mem_take hx)
        rw [hans k b hk, henv, h₂.log]
        exact hw w₁.log cmd _ _ hcmd hearlier
      · simp only [fills, List.map_append, List.append_assoc]

end Sector

/-! ## A request -/

namespace Pieces

variable {P P' : ℕ → List Ev → Prop} {n : ℕ} {w w' w'' : Wire} {seg : List Ev}

theorem nil (w : Wire) : Pieces P 0 w w := ⟨[], rfl, Adds.refl w, by simp⟩

theorem env (h : Pieces P n w w') : w'.env = w.env := by
  obtain ⟨_, _, hadds, _⟩ := h
  exact hadds.env

theorem mono (h : Pieces P n w w') (hP : ∀ i < n, ∀ seg, P i seg → P' i seg) : Pieces P' n w w' := by
  obtain ⟨segs, hlen, hadds, hsegs⟩ := h
  refine ⟨segs, hlen, hadds, fun i seg hi => hP i ?_ seg (hsegs i seg hi)⟩
  exact hlen ▸ (List.getElem?_eq_some_iff.mp hi).1

/-- **One more sector.** -/
theorem snoc (h : Pieces P n w w') (hadd : Adds w' seg w'') (hP : P n seg) : Pieces P (n + 1) w w'' := by
  obtain ⟨segs, rfl, hadds, hsegs⟩ := h
  refine ⟨segs ++ [seg], by simp, ?_, fun i s hi => ?_⟩
  · have := hadds.trans hadd
    rwa [List.flatten_append, List.flatten_singleton]
  · obtain hlt | hge := Nat.lt_or_ge i segs.length
    · rw [List.getElem?_append_left hlt] at hi
      exact hsegs i s hi
    · obtain ⟨hi', rfl⟩ := List.getElem?_eq_some_iff.mp hi
      obtain rfl : i = segs.length := by
        simp only [List.length_append, List.length_singleton] at hi'
        omega
      simpa using hP

end Pieces

section Request

variable {w : Wire} {d : Drive} {pdrv : Byte} {m : Mem} {buff : ℕ} {sector count : BitVec 32}

theorem diskWrite_spec (hw : Prompt w.env.byte) :
    Ends (diskWrite d pdrv m buff sector count) w fun r w' => r = .ok →
      Pieces (fun i seg => Finished (blkArg d.blockaddr (sector + BitVec.ofNat 32 i))
        (m.read (buff + i * 512) 512) seg) count.toNat w w' := by
  refine .ite (fun _ => Safe.pure (by rintro ⟨⟩)) fun _ => ?_
  refine (Safe.untilError (fun i _ s => Pieces (fun i seg => Finished
    (blkArg d.blockaddr (sector + BitVec.ofNat 32 i)) (m.read (buff + i * 512) 512) seg) i w s)
    (E := fun _ _ => True) (Pieces.nil w) fun i _ s _ _ h => ?_).bind fun r w' hr => Safe.pure ?_
  · refine (sdWriteBlock_spec (h.env ▸ hw)).bind fun rc s' ⟨seg, hadd, hseg⟩ => Safe.pure
      ⟨fun hrc => h.snoc hadd (hseg hrc), fun _ => trivial⟩
  · exact fun hok => by simpa only [Nat.zero_add] using hr.1 (report_eq_ok.mp hok)

theorem diskRead_spec (hw : Clean w.env.byte) :
    Ends (diskRead d pdrv m buff sector count) w fun r w' => r.1 = .ok →
      Pieces (fun i seg => Genuine (blkArg d.blockaddr (sector + BitVec.ofNat 32 i))
        (r.2.read (buff + i * 512) 512) seg) count.toNat w w' := by
  refine .ite (fun _ => Safe.pure (by rintro ⟨⟩)) fun _ => ?_
  refine (Safe.untilError (fun i m s => Pieces (fun i seg => Genuine
    (blkArg d.blockaddr (sector + BitVec.ofNat 32 i)) (m.read (buff + i * 512) 512) seg) i w s)
    (E := fun _ _ => True) (Pieces.nil w) fun i m s _ _ h => ?_).bind fun r w' hr => Safe.pure ?_
  · refine (sdReadBlock_spec (h.env ▸ hw)).mono fun r s' ⟨seg, hadd, hseg⟩ =>
      ⟨fun hrc => ?_, fun _ => trivial⟩
    obtain ⟨data, hmem, hgen⟩ := hseg hrc
    have hdata : data.length = 512 := by
      obtain ⟨_, _, _, _, _, _, _, hlen, _⟩ := hgen
      exact hlen
    rw [hmem]
    refine Pieces.snoc (h.mono fun j hj seg hj' => ?_) hadd ?_
    · rwa [Mem.read_write_of_disjoint _ (by omega)]
    · have hself := Mem.read_write_self m (buff + i * 512) data
      rw [hdata] at hself
      rwa [hself]
  · exact fun hok => by simpa only [Nat.zero_add] using hr.1 (report_eq_ok.mp hok)

end Request

/-- A card that takes every command for sector 0, starts a block at once and is never busy: its answers
depend on the last two bytes. -/
def readyByte (h : List Ev) : Byte :=
  match h.reverse with
  | .xfer 0xFF _ :: .xfer 0 _ :: _ => 0x00
  | .xfer _ 0 :: _ => 0xFE
  | _ => 0xE5

def readyWire : Wire := ⟨⟨readyByte, fun _ => false, fun _ => false⟩, CS_HI, []⟩

theorem readyByte_fill (h : List Ev) (a b : Byte) :
    readyByte (h ++ fills [a, b]) = 0xFE ∨ readyByte (h ++ fills [a, b]) = 0xE5 := by
  have hrev : (h ++ fills [a, b]).reverse = .xfer 0xFF b :: .xfer 0xFF a :: h.reverse := by simp [fills]
  rw [readyByte, hrev]
  split
  · next heq =>
      simp only [List.cons.injEq, Ev.xfer.injEq] at heq
      exact absurd heq.2.1.1 (by decide)
  · exact .inl rfl
  · exact .inr rfl

theorem exists_last_two {l : List Byte} (h : 2 ≤ l.length) : ∃ pre a b, l = pre ++ [a, b] := by
  obtain rfl | ⟨init, b, rfl⟩ := l.eq_nil_or_concat
  · simp at h
  obtain rfl | ⟨pre, a, rfl⟩ := init.eq_nil_or_concat
  · simp at h
  exact ⟨pre, a, b, by simp⟩

/-- An accepted command ends with two fill bytes or more: one for its CRC, and the answer. -/
theorem Accepted.fill {cmd : Byte} {arg : BitVec 32} {seg : List Ev} (h : Accepted cmd arg seg)
    (gap : List Byte) : ∃ pre a b, seg ++ fills gap = pre ++ fills [a, b] := by
  obtain ⟨rxs, gap', hlen, -, rfl⟩ := h
  obtain ⟨r₀, r₁, r₂, r₃, r₄, r₅, crc, rfl⟩ : ∃ r₀ r₁ r₂ r₃ r₄ r₅ crc,
      rxs = [r₀, r₁, r₂, r₃, r₄, r₅, crc] := by
    match rxs, hlen with
    | [r₀, r₁, r₂, r₃, r₄, r₅, crc], _ => exact ⟨_, _, _, _, _, _, _, rfl⟩
  obtain ⟨more, a, b, hmore⟩ := exists_last_two (l := crc :: (gap' ++ [0x00] ++ gap))
    (by simp only [List.length_cons, List.length_append]; omega)
  have hcrc : sends (0xFF :: Disk.frame cmd arg 0xFF) [r₀, r₁, r₂, r₃, r₄, r₅, crc]
      = sends (0xFF :: (Disk.frame cmd arg 0xFF).dropLast) [r₀, r₁, r₂, r₃, r₄, r₅] ++ fills [crc] := rfl
  refine ⟨sends (0xFF :: (Disk.frame cmd arg 0xFF).dropLast) [r₀, r₁, r₂, r₃, r₄, r₅] ++ fills more,
    a, b, ?_⟩
  have hfills := congrArg fills hmore
  simp only [fills, List.map_append, List.map_cons, List.append_assoc, List.cons_append] at hfills
  rw [hcrc]
  simp only [fills, List.map_append, List.map_cons, List.map_nil, List.append_assoc, List.cons_append,
    List.nil_append] at hfills ⊢
  rw [hfills]

theorem readyByte_prompt : Prompt readyByte := by
  intro h cmd arg data rxs resp _ _ _ _
  refine ⟨1, by decide, ?_⟩
  obtain hr | hr := readyByte_fill (h ++ cmd ++ block data rxs) resp 0x00 <;>
    exact fun heq => absurd (hr.symm.trans heq) (by decide)

theorem readyByte_clean : Clean readyByte := by
  intro h cmd arg gap hcmd _
  obtain ⟨pre, a, b, heq⟩ := hcmd.fill gap
  rw [List.append_assoc, heq, ← List.append_assoc]
  obtain hr | hr := readyByte_fill (h ++ pre) a b <;> rw [hr] <;> decide

/-- A card that accepts everything, and is busy for ever after the data. -/
def busyWire : Wire :=
  ⟨⟨fun h => if h.length = 525 then 0x05 else 0x00, fun _ => false, fun _ => false⟩, CS_HI, []⟩

/-- A card that answers a read with an error token, and then sends a start token. -/
def errorWire : Wire :=
  ⟨⟨fun h => if h.length = 9 then 0x08 else if h.length = 10 then 0xFE else 0x00, fun _ => false,
    fun _ => false⟩, CS_HI, []⟩

theorem busyWire_byte (h : List Ev) : busyWire.env.byte h = if h.length = 525 then 0x05 else 0x00 := rfl

/-- After the response that card answers zero, so the wait runs out. -/
theorem busyWire_waits {w : Wire} (henv : w.env = busyWire.env) (hlen : 526 ≤ w.log.length) :
    Ends (tryFor (· != 0x00) TRIES) w fun _ w' => ∃ n, Adds w (fills (List.replicate n 0x00)) w' := by
  refine (tryFor_spec _ TRIES).mono fun r w' ⟨gap, hgap, _, hr⟩ => ?_
  have hzero : gap = List.replicate gap.length 0x00 :=
    List.eq_replicate_of_mem fun b hb => by simpa using hgap b hb
  cases r with
  | none => exact ⟨gap.length, hzero ▸ hr.2⟩
  | some b =>
    obtain ⟨hb, hstop, -⟩ := hr
    have hlong : ¬ (w.log ++ fills gap).length = 525 := by
      rw [List.length_append]
      omega
    rw [hb, henv, busyWire_byte, if_neg hlong] at hstop
    cases hstop

theorem busyWire_accepts (arg : BitVec 32) {w : Wire} (henv : w.env = busyWire.env)
    (hlen : w.log.length = 1) : Ends (sdCmd 24 arg 0xFF) w fun r w' =>
      r = 0x00 ∧ w'.env = busyWire.env ∧ w'.log.length = 9 := by
  refine (txBytes_spec _).bind fun _ w₁ ⟨rxs, hrxs, h₁⟩ => ?_
  have hlog : w₁.log.length = 8 := by
    rw [h₁.log, List.length_append, hlen, sends, List.length_zipWith, hrxs, Nat.min_self]
    rfl
  have hbyte : w₁.env.byte w₁.log = 0x00 := by
    rw [h₁.env, henv, busyWire_byte, if_neg (by omega)]
  refine (spiXfer_spec 0xFF).bind fun r w₂ ⟨hr, h₂⟩ => ?_
  rw [hbyte] at hr
  rw [hr, if_pos (by decide)]
  refine Safe.pure ⟨rfl, h₂.env.trans (h₁.env.trans henv), ?_⟩
  rw [h₂.log, List.length_append, hlog]
  rfl

theorem busyWire_responds {data : List Byte} (hdata : data.length = 512) {w : Wire}
    (henv : w.env = busyWire.env) (hlen : w.log.length = 9) : Ends (sendBlock data) w fun r w' =>
      r = 0x05 ∧ w'.env = busyWire.env ∧ w'.log.length = 526 ∧
      w'.log[525]? = some (.xfer 0xFF 0x05) := by
  refine (txBytes_spec _).bind fun _ w₁ ⟨rxs, hrxs, h₁⟩ => ?_
  have hlog : w₁.log.length = 525 := by
    rw [h₁.log, List.length_append, hlen, sends, List.length_zipWith, hrxs, Nat.min_self]
    simp [hdata]
  have hbyte : w₁.env.byte w₁.log = 0x05 := by
    rw [h₁.env, henv, busyWire_byte, if_pos hlog]
  refine (spiXfer_spec 0xFF).mono fun r w₂ ⟨hr, h₂⟩ => ?_
  rw [hbyte] at hr
  subst hr
  refine ⟨rfl, h₂.env.trans (h₁.env.trans henv), ?_, ?_⟩
  · rw [h₂.log, List.length_append, hlog]
    rfl
  · rw [h₂.log, ← hlog, List.getElem?_concat_length]

/-- The data is accepted, and the bus has not been released since. -/
def LeftBusy (w : Wire) : Prop :=
  w.log[525]? = some (.xfer 0xFF 0x05) ∧ ∀ tx rx, .xfer tx rx ∈ w.log.drop 526 → rx = 0x00

/-- `sd_write_block` on that card returns `SD_OK` with the card busy. -/
theorem busyWire_writes (m : Mem) (buf : ℕ) (lba : BitVec 32) :
    Ends (sdWriteBlock true lba m buf) busyWire fun rc w' => rc = SD_OK ∧ LeftBusy w' := by
  refine csAssert_spec.bind fun _ w₁ ⟨low, h₁⟩ => ?_
  refine (busyWire_accepts _ h₁.env (by rw [h₁.log]; rfl)).bind fun r1 w₂ ⟨hr1, henv₂, hlen₂⟩ => ?_
  rw [if_neg (not_not.mpr hr1)]
  refine (busyWire_responds (Mem.length_read m _ _) henv₂ hlen₂).bind
    fun resp w₃ ⟨hresp, henv₃, hlen₃, hget⟩ => ?_
  rw [hresp, if_neg (by decide)]
  refine (busyWire_waits henv₃ hlen₃.ge).bind fun _ w₄ ⟨n, h₄⟩ => csDeassert_spec.bind
    fun _ w₅ ⟨high, h₅⟩ => Safe.pure ⟨rfl, ?_, fun tx rx hmem => ?_⟩
  · rw [(h₄.trans h₅).log, List.getElem?_append_left (by omega), hget]
  · rw [(h₄.trans h₅).log, ← hlen₃, List.drop_left] at hmem
    have hfill : ¬ n = 0 ∧ tx = 0xFF ∧ rx = 0x00 := by simpa [fills] using hmem
    exact hfill.2.2

end KlaussRuntime.Fatfs
