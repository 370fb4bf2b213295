import KlaussRuntime.Disk.SdCommands

/-!
# Disk/SdTransfers — what a transfer has done, whatever went wrong in it

Every transfer, read or write, of one block or of many, leaves the card quiet (`Card.Quiet`): it ends by
deselecting it.  A read leaves the card's store alone and fills its part of the buffer (`Fetched`); a write
changes the card only within the sectors it is for (`Card.Within`), and one that reports no error has had
every block accepted (`Written`).
-/

namespace KlaussRuntime.Disk

open Machinery

/-! ## The card before and after -/

namespace Card

variable {c c' c'' : Card} {lo hi a n : ℕ}

/-- What a card keeps when it only changes its mode. -/
def store (c : Card) : Bool × Mem × List (ℕ × List Byte) := (c.ccs, c.disk, c.accepted)

def Quiet (c : Card) : Prop := c.mode.Quiet ∧ c.announced = 0

theorem quiet_deselect (c : Card) : c.deselect.Quiet := by
  refine ⟨?_, rfl⟩
  obtain ⟨ccs, disk, mode, app, announced, erased, accepted⟩ := c
  match mode with
  | .idle _ | .answer _ _ _ | .token _ _ | .data _ _ _ => exact .inl rfl
  | .receive _ _ | .take _ _ _ _ | .respond _ _ _ | .stuck => exact .inl rfl
  | .ended | .busy .idle => exact .inr ⟨.idle, rfl, rfl⟩
  | .busy (.receive _) | .busy .stuck => exact .inr ⟨.stuck, rfl, rfl⟩

/-- The blocks accepted between `c` and `c'`. -/
def newly (c c' : Card) : List (ℕ × List Byte) := c'.accepted.drop c.accepted.length

/-- `c'` is later than `c`, and in between only sectors from `lo` up to `hi` were written. -/
structure Within (lo hi : ℕ) (c c' : Card) : Prop where
  ccs : c'.ccs = c.ccs
  later : c.accepted <+: c'.accepted
  newly : ∀ e ∈ newly c c', lo ≤ e.1 ∧ e.1 < hi
  disk : ∀ p, p < 512 * lo ∨ 512 * hi ≤ p → c'.disk p = c.disk p

namespace Within

theorem of_store (h : c'.store = c.store) : Within lo hi c c' := by
  simp only [store, Prod.mk.injEq] at h
  obtain ⟨hccs, hdisk, haccepted⟩ := h
  refine ⟨hccs, ⟨[], by rw [haccepted, List.append_nil]⟩, ?_, fun _ _ => by rw [hdisk]⟩
  rw [Card.newly, haccepted, List.drop_length]
  simp

theorem refl (c : Card) : Within lo hi c c := of_store rfl

theorem newly_trans (h : Within lo hi c c') (h' : Within lo hi c' c'') :
    Card.newly c c'' = Card.newly c c' ++ Card.newly c' c'' := by
  obtain ⟨t, ht⟩ := h.later
  obtain ⟨t', ht'⟩ := h'.later
  simp only [Card.newly, ← ht', ← ht, List.drop_left, List.append_assoc]
  rw [← List.append_assoc, List.drop_left]

theorem trans (h : Within lo hi c c') (h' : Within lo hi c' c'') : Within lo hi c c'' where
  ccs := h'.ccs.trans h.ccs
  later := h.later.trans h'.later
  newly e he := by
    rw [newly_trans h h', List.mem_append] at he
    exact he.elim (h.newly e) (h'.newly e)
  disk p hp := (h'.disk p hp).trans (h.disk p hp)

theorem mono {lo' hi' : ℕ} (h : Within lo hi c c') (hlo : lo' ≤ lo) (hhi : hi ≤ hi') :
    Within lo' hi' c c' where
  ccs := h.ccs
  later := h.later
  newly e he := ⟨hlo.trans (h.newly e he).1, (h.newly e he).2.trans_le hhi⟩
  disk p hp := h.disk p (by omega)

theorem accept {block : List Byte} (c : Card) (a : ℕ) (hlen : block.length = 512) :
    Within a (a + 1) c (c.accept a block) where
  ccs := rfl
  later := List.prefix_append _ _
  newly e he := by
    rw [Card.newly, Card.accept, List.drop_left, List.mem_singleton] at he
    rw [he]
    exact ⟨le_rfl, Nat.lt_succ_self a⟩
  disk p hp := c.disk.write_apply_of_not_mem (by omega)

theorem erase (c : Card) (a : ℕ) (h : c.announced ≤ n) : Within a (a + n) c (c.erase a) where
  ccs := rfl
  later := List.prefix_refl _
  newly e he := by
    rw [Card.newly, Card.erase, List.drop_length] at he
    exact absurd he List.not_mem_nil
  disk p hp := c.disk.write_apply_of_not_mem (by rw [Mem.length_read]; omega)

end Within

end Card

variable {b : Bus} {cfg : Config} {lba : BitVec 32} {off : ℕ}

/-! ## Beginnings and ends -/

theorem csAssert_yields : Yields csAssert b fun _ b' => b = b' := .pure rfl

/-- **Every way out deselects the card.** -/
theorem deassert_yields {α : Type} {x : α} {Q : α → Bus → Prop}
    (h : ∀ b' : Bus, b'.card.Quiet → b'.card.store = b.card.store → Q x b') :
    Yields (do csDeassert; pure x) b Q := by
  refine csDeassert_yields.bind fun _ b' hb' => .pure (h b' ?_ ?_)
  · exact hb' ▸ b.card.quiet_deselect
  · rw [hb']
    rfl

/-- A command that is not answered with zero has done nothing. -/
theorem sdCmd_answered {cmd : Byte} {arg : BitVec 32} {crc : Byte} (hcmd : cmd ≠ 0)
    (hq : b.card.mode.Quiet) :
    Yields (sdCmd cmd arg crc) b fun r b' =>
      (r = 0 → b'.card = b.card.execute (0x40 ||| (cmd &&& 0x3F)) arg 0) ∧
      (r ≠ 0 → b'.card.mode.Quiet ∧ b'.card.store = b.card.store ∧ b'.card.announced = b.card.announced) := by
  refine (sdCmd_yields hcmd (show b.card = b.card.inMode b.card.mode from rfl) hq).mono ?_
  rintro r b' (h | ⟨rfl, m, h, hm⟩)
  · refine ⟨fun hr => hr ▸ h, fun hr => ?_⟩
    rw [h, Card.execute, if_pos hr]
    exact ⟨.inl rfl, rfl, rfl⟩
  · rw [h]
    exact ⟨fun h0 => absurd h0 (by decide), fun _ => ⟨hm, rfl, rfl⟩⟩

/-! ## Reads -/

theorem Fetched.failed {disk buf : Mem} {a n : ℕ} {rc : ℤ} (h : rc ≠ 0) :
    Fetched disk a off n buf (rc, buf) :=
  ⟨fun _ _ => rfl, fun h0 => absurd h0 h⟩

/-- **A single-block read.** -/
theorem sdReadBlock_yields {buf : Mem} {pipe : Bool} (hq : b.card.Quiet) :
    Yields (sdReadBlock cfg lba buf off pipe) b fun r b' =>
      Fetched b.card.disk (b.card.sector (blkArg cfg lba)) off 1 buf r ∧
        b'.card.Quiet ∧ b'.card.store = b.card.store := by
  refine csAssert_yields.bind fun _ b₀ h₀ => ?_
  subst h₀
  refine (sdCmd_answered (by decide) hq.1).bind fun r1 b₁ h₁ => .ite (fun hr => ?_) fun hr => ?_
  · exact deassert_yields fun b' hq' hs => ⟨.failed (by decide), hq', hs.trans (h₁.2 hr).2.1⟩
  have h₁ := h₁.1 (not_not.mp hr)
  refine (sdWaitToken_yields (c := { b.card with app := false }) h₁).bind fun rc b₂ h₂ =>
    .ite (fun hrc => ?_) fun hrc => ?_
  · refine deassert_yields fun b' hq' hs => ⟨.failed hrc, hq', ?_⟩
    rw [hs]
    obtain h | h := h₂.2 hrc <;> rw [h] <;> rfl
  refine (sdRxBlock_yields (h₂.1 (not_not.mp hrc))).bind fun r b₃ h₃ => ?_
  refine (crc_yields h₃.2).bind fun _ b₄ h₄ => deassert_yields fun b' hq' hs => ⟨h₃.1, hq', ?_⟩
  rw [hs, h₄]
  rfl

theorem Fetched.snoc {disk buf buf' : Mem} {a j : ℕ} {r : ℤ × Mem} (h : Fetched disk a off j buf (0, buf'))
    (h' : Fetched disk (a + j) (off + 512 * j) 1 buf' r) : Fetched disk a off (j + 1) buf r where
  outside q hq := (h'.outside q (by omega)).trans (h.outside q (by omega))
  content h0 := by
    have hlast := h'.content h0
    have hfirst : r.2.read off (512 * j) = buf'.read off (512 * j) :=
      Mem.read_congr fun i hi => h'.outside _ (by omega)
    rw [mul_one, mul_add] at hlast
    rw [mul_add, mul_one, Mem.read_add, Mem.read_add, hfirst, h.content rfl, hlast]

theorem sdStopRead_yields {c : Card} (h : ∀ rx, b.card.next 0x4C rx = some (c.inMode .ended)) :
    Yields sdStopRead b fun _ b' => b'.card = c.inMode .ended := by
  have hended : ∀ tx c' rx c'', c' = c.inMode .ended → c'.next tx rx = some c'' →
      c'' = c.inMode .ended := by
    rintro tx _ rx c'' rfl hnext
    exact (Option.some.inj hnext).symm
  refine ((spiXfer_to rfl h).bind fun _ b₁ h₁ => txBytes_keeps h₁ fun tx _ => hended tx).bind ?_
  intro _ b₂ h₂
  refine (pollR1_keeps h₂ (hended 0xFF)).bind fun _ b₃ h₃ => ?_
  exact (sdWaitNotBusy_keeps h₃ (hended 0xFF)).bind fun _ b₄ h₄ => .pure h₄

/-- **A block of a multi-block read.** -/
theorem readRound_yields {c : Card} {a j : ℕ} {buf : Mem} (hb : b.card = c.inMode (.token a true)) :
    Yields (readRound cfg off j buf) b fun r b' => Fetched c.disk a (off + 512 * j) 1 buf r ∧
      (r.1 = 0 → b'.card = c.inMode (.token (a + 1) true)) ∧
      (r.1 ≠ 0 → ∀ rx, b'.card.next 0x4C rx = some (c.inMode .ended)) := by
  refine (sdWaitToken_yields hb).bind fun rc b₁ h₁ => .ite (fun hrc => ?_) fun hrc => ?_
  · refine .pure ⟨.failed hrc, fun h0 => absurd h0 hrc, fun _ rx => ?_⟩
    obtain h | h := h₁.2 hrc <;> rw [h] <;> rfl
  refine (sdRxBlock_yields (h₁.1 (not_not.mp hrc))).bind fun r b₂ h₂ =>
    .ite (fun hr => .pure ⟨h₂.1, fun h0 => absurd h0 hr, fun _ rx => ?_⟩) fun hr => ?_
  · rw [h₂.2]
    rfl
  · exact (crc_yields h₂.2).bind fun _ b₃ h₃ => .pure ⟨h₂.1, fun _ => h₃, fun hne => absurd hne hr⟩

/-- **A multi-block read.** -/
theorem sdReadMulti_yields {buf : Mem} {n : ℕ} (hq : b.card.Quiet) :
    Yields (sdReadMulti cfg lba buf off n) b fun r b' =>
      Fetched b.card.disk (b.card.sector (blkArg cfg lba)) off n buf r ∧
        b'.card.Quiet ∧ b'.card.store = b.card.store := by
  generalize ha : b.card.sector (blkArg cfg lba) = a
  refine csAssert_yields.bind fun _ b₀ h₀ => ?_
  subst h₀
  refine (sdCmd_answered (by decide) hq.1).bind fun r1 b₁ h₁ => .ite (fun hr => ?_) fun hr => ?_
  · exact deassert_yields fun b' hq' hs => ⟨.failed (by decide), hq', hs.trans (h₁.2 hr).2.1⟩
  have h₁ : b₁.card = ({ b.card with app := false }).inMode (.token a true) :=
    ha ▸ h₁.1 (not_not.mp hr)
  -- `j` sectors have come, and the card is about to send the next
  refine (Yields.untilError (fun j buf' b' =>
    b'.card = ({ b.card with app := false }).inMode (.token (a + j) true) ∧
      Fetched b.card.disk a off j buf (0, buf'))
    (E := fun buf' b' => (∀ q, q < off ∨ off + 512 * n ≤ q → buf' q = buf q) ∧
      ∀ rx, b'.card.next 0x4C rx = some (({ b.card with app := false }).inMode .ended))
    ⟨h₁, fun _ _ => rfl, fun _ => rfl⟩ fun j buf' b' _ hj h => ?_).bind fun r b₂ h₂ => ?_
  · refine (readRound_yields h.1).mono fun r b'' h' => ?_
    have hfetched := h.2.snoc h'.1
    exact ⟨fun h0 => ⟨h'.2.1 h0, hfetched.outside, fun _ => hfetched.content h0⟩,
      fun hne => ⟨fun q hq => hfetched.outside q (by omega), h'.2.2 hne⟩⟩
  rw [Nat.zero_add] at h₂
  have hstop : Fetched b.card.disk a off n buf r ∧
      ∀ rx, b₂.card.next 0x4C rx = some (({ b.card with app := false }).inMode .ended) := by
    by_cases h0 : r.1 = 0
    · obtain ⟨hcard, hfetched⟩ := h₂.1 h0
      refine ⟨⟨hfetched.outside, fun _ => hfetched.content rfl⟩, fun rx => ?_⟩
      rw [hcard]
      rfl
    · exact ⟨⟨(h₂.2 h0).1, fun h => absurd h h0⟩, (h₂.2 h0).2⟩
  refine (sdStopRead_yields hstop.2).bind fun _ b₃ h₃ => deassert_yields fun b' hq' hs => ?_
  refine ⟨hstop.1, hq', ?_⟩
  rw [hs, h₃]
  rfl

/-! ## Writes -/

/-- What a call that wrote `n` sectors from `off` on has done to the card. -/
structure Written (src : Mem) (off a n : ℕ) (c : Card) (rc : ℤ) (c' : Card) : Prop where
  within : c.Within a (a + n) c'
  accepted : rc = 0 → ∀ j < n, (a + j, src.read (off + 512 * j) 512) ∈ c.newly c'
  content : rc = 0 → c'.disk.read (512 * a) (512 * n) = src.read off (512 * n)

namespace Written

variable {src : Mem} {a n j : ℕ} {rc rc' : ℤ} {c c' c'' : Card}

theorem failed (hrc : rc ≠ 0) (h : c.Within a (a + n) c') : Written src off a n c rc c' :=
  ⟨h, fun h0 => absurd h0 hrc, fun h0 => absurd h0 hrc⟩

theorem weaken (h : Written src off a n c rc c') (hrc : rc' = 0 → rc = 0) : Written src off a n c rc' c' :=
  ⟨h.within, fun h0 => h.accepted (hrc h0), fun h0 => h.content (hrc h0)⟩

theorem later (h : Written src off a n c rc c') (hs : c''.store = c'.store) :
    Written src off a n c rc c'' := by
  have hs' := hs
  simp only [Card.store, Prod.mk.injEq] at hs'
  refine ⟨h.within.trans (.of_store hs), fun h0 => ?_, fun h0 => ?_⟩
  · rw [Card.newly, hs'.2.2]
    exact h.accepted h0
  · rw [hs'.2.1]
    exact h.content h0

theorem earlier (hw : c.Within a (a + n) c') (h : Written src off a n c' rc c'') :
    Written src off a n c rc c'' where
  within := hw.trans h.within
  accepted h0 j hj := by
    rw [hw.newly_trans h.within]
    exact List.mem_append_right _ (h.accepted h0 j hj)
  content := h.content

theorem zero : Written src off a 0 c 0 c :=
  ⟨.refl c, fun _ _ hj => absurd hj (Nat.not_lt_zero _), fun _ => rfl⟩

theorem accept : Written src off a 1 c rc (c.accept a (src.read off 512)) where
  within := .accept c a (Mem.length_read _ _ _)
  accepted _ j hj := by
    obtain rfl : j = 0 := by omega
    rw [Card.newly, Card.accept, List.drop_left]
    exact List.mem_singleton_self _
  content _ := by
    have h := c.disk.read_write_self (512 * a) (src.read off 512)
    rwa [Mem.length_read] at h

theorem snoc (h : Written src off a j c 0 c') (h' : Written src (off + 512 * j) (a + j) 1 c' rc c'') :
    Written src off a (j + 1) c rc c'' := by
  have hw : c.Within a (a + (j + 1)) c' := h.within.mono le_rfl (by omega)
  have hw' : c'.Within a (a + (j + 1)) c'' := h'.within.mono (by omega) (by omega)
  refine ⟨hw.trans hw', fun h0 i hi => ?_, fun h0 => ?_⟩
  · rw [hw.newly_trans hw', List.mem_append]
    obtain hi | rfl : i < j ∨ i = j := by omega
    · exact .inl (h.accepted rfl i hi)
    · exact .inr (h'.accepted h0 0 Nat.one_pos)
  · have hlast := h'.content h0
    have hfirst : c''.disk.read (512 * a) (512 * j) = c'.disk.read (512 * a) (512 * j) :=
      Mem.read_congr fun i hi => h'.within.disk _ (by omega)
    rw [mul_one, mul_add] at hlast
    rw [mul_add, mul_one, Mem.read_add, Mem.read_add, hfirst, h.content rfl, hlast]

end Written

/-- **A single-block write.** -/
theorem sdWriteBlock_yields {src : Mem} (hq : b.card.Quiet) :
    Yields (sdWriteBlock cfg lba src off) b fun rc b' =>
      Written src off (b.card.sector (blkArg cfg lba)) 1 b.card rc b'.card ∧ b'.card.Quiet := by
  generalize ha : b.card.sector (blkArg cfg lba) = a
  refine csAssert_yields.bind fun _ b₀ h₀ => ?_
  subst h₀
  refine (sdCmd_answered (by decide) hq.1).bind fun r1 b₁ h₁ => .ite (fun hr => ?_) fun hr => ?_
  · exact deassert_yields fun b' hq' hs =>
      ⟨.failed (by decide) (.of_store (hs.trans (h₁.2 hr).2.1)), hq'⟩
  have h₁ : b₁.card = ({ b.card with app := false }).inMode (.receive a false) :=
    ha ▸ h₁.1 (not_not.mp hr)
  refine (sendBlock_yields h₁).bind fun resp b₂ h₂ => .ite (fun hresp => ?_) fun hresp => ?_
  · refine deassert_yields fun b' hq' hs => ⟨.failed (by decide) (.of_store (hs.trans ?_)), hq'⟩
    rw [h₂.2 hresp]
    rfl
  refine (sdWaitNotBusy_yields (h₂.1 (not_not.mp hresp))).bind fun rc b₃ h₃ =>
    deassert_yields fun b' hq' hs => ⟨Written.accept.later (hs.trans ?_), hq'⟩
  by_cases hrc : rc = 0
  · rw [h₃.1 hrc]
    rfl
  · rw [h₃.2 hrc]
    rfl

/-- **A block of a multi-block write.** -/
theorem writeRound_yields {src : Mem} {c : Card} {a j : ℕ} (hb : b.card = c.inMode (.receive a true)) :
    Yields (writeRound src off j ()) b fun r b' => ∃ c', Written src (off + 512 * j) a 1 c r.1 c' ∧
      (r.1 = 0 → b'.card = c'.inMode (.receive (a + 1) true)) ∧
      (r.1 ≠ 0 → ∃ x, b'.card = c'.inMode (.busy (.receive x))) := by
  refine (sendBlock_yields hb).bind fun resp b₁ h₁ => .ite (fun hresp => ?_) fun hresp => ?_
  · exact .pure ⟨c, .failed (by decide) (.refl c), fun h0 => absurd h0 (by decide),
      fun _ => ⟨a, h₁.2 hresp⟩⟩
  refine (sdWaitNotBusy_yields (h₁.1 (not_not.mp hresp))).bind fun rc b₂ h₂ => .pure ?_
  exact ⟨_, .accept, h₂.1, fun hne => ⟨a + 1, h₂.2 hne⟩⟩

/-- The modes after the blocks of a multi-block write. -/
def Mode.settling : Mode → Bool
  | .receive _ true | .busy (.receive _) | .busy .idle | .idle [] => true
  | _ => false

theorem next_of_settling {c c' : Card} {m : Mode} {tx rx : Byte} (htx : tx = 0xFF ∨ tx = 0xFD)
    (hm : m.settling) (h : (c.inMode m).next tx rx = some c') :
    ∃ m', c' = c.inMode m' ∧ m'.settling := by
  match m, hm with
  | .receive a true, _ =>
    obtain rfl | rfl := htx
    · exact ⟨.receive a true, (Option.some.inj h).symm, rfl⟩
    · exact ⟨.busy .idle, (Option.some.inj h).symm, rfl⟩
  | .idle [], _ => exact ⟨.idle [], by obtain rfl | rfl := htx <;> exact (Option.some.inj h).symm, rfl⟩
  | .busy (.receive a), _ =>
    rw [Card.next_busy] at h
    exact ⟨_, (Option.some.inj h).symm, by split_ifs <;> rfl⟩
  | .busy .idle, _ =>
    rw [Card.next_busy] at h
    exact ⟨_, (Option.some.inj h).symm, by split_ifs <;> rfl⟩

theorem sdAcmd_yields {count : BitVec 32} (hq : b.card.Quiet) :
    Yields (sdAcmd 23 count) b fun _ b' => b'.card.mode.Quiet ∧ b'.card.store = b.card.store ∧
      b'.card.announced ≤ count.toNat := by
  have hfirst : Yields (sdCmd 55 0 0x65) b fun _ b' => b'.card.mode.Quiet ∧
      b'.card.store = b.card.store ∧ b'.card.announced = 0 := by
    refine (sdCmd_answered (by decide) hq.1).mono fun r b' h => ?_
    by_cases hr : r = 0
    · rw [h.1 hr]
      exact ⟨.inl rfl, rfl, hq.2⟩
    · obtain ⟨hm, hs, ha⟩ := h.2 hr
      exact ⟨hm, hs, ha.trans hq.2⟩
  refine hfirst.bind fun _ b₁ ⟨hm, hs, ha⟩ => (sdCmd_answered (by decide) hm).mono fun r b' h => ?_
  by_cases hr : r = 0
  · have hexec : b₁.card.execute 0x57 count 0 = if b₁.card.app then
        { b₁.card with mode := .idle [], app := false, announced := count.toNat }
      else { b₁.card with mode := .idle [], app := false } := by
      cases happ : b₁.card.app <;> simp [Card.execute, happ]
    rw [h.1 hr, show (0x40 ||| (23 &&& 0x3F) : Byte) = 0x57 from rfl, hexec]
    split
    · exact ⟨.inl rfl, hs, le_rfl⟩
    · exact ⟨.inl rfl, hs, ha.trans_le (Nat.zero_le _)⟩
  · obtain ⟨hm', hs', ha'⟩ := h.2 hr
    exact ⟨hm', hs'.trans hs, (ha'.trans ha).trans_le (Nat.zero_le _)⟩

/-- **A multi-block write.** -/
theorem sdWriteMulti_yields {src : Mem} {count : BitVec 32} (hq : b.card.Quiet) :
    Yields (sdWriteMulti cfg lba src off count) b fun rc b' =>
      Written src off (b.card.sector (blkArg cfg lba)) count.toNat b.card rc b'.card ∧ b'.card.Quiet := by
  generalize ha : b.card.sector (blkArg cfg lba) = a
  refine csAssert_yields.bind fun _ b₀ h₀ => ?_
  subst h₀
  refine (sdAcmd_yields hq).bind fun _ b₀ ⟨hm, hs₀, hann⟩ => ?_
  refine (sdCmd_answered (by decide) hm).bind fun r1 b₁ h₁ => .ite (fun hr => ?_) fun hr => ?_
  · exact deassert_yields fun b' hq' hs =>
      ⟨.failed (by decide) (.of_store (hs.trans ((h₁.2 hr).2.1.trans hs₀))), hq'⟩
  have hsector : b₀.card.sector (blkArg cfg lba) = a := by
    rw [← ha, Card.sector, Card.sector, show b₀.card.ccs = b.card.ccs from congrArg Prod.fst hs₀]
  obtain ⟨c₁, hc₁, h₁⟩ : ∃ c₁ : Card, c₁.store = (b₀.card.erase a).store ∧
      b₁.card = c₁.inMode (.receive a true) :=
    ⟨{ b₀.card.erase a with app := false }, rfl, hsector ▸ h₁.1 (not_not.mp hr)⟩
  have hbefore : b.card.Within a (a + count.toNat) c₁ :=
    (Card.Within.of_store hs₀).trans ((Card.Within.erase b₀.card a hann).trans (.of_store hc₁))
  -- `j` blocks have been accepted, and the card waits for the next
  refine (Yields.untilError (fun j _ b' => ∃ c', b'.card = c'.inMode (.receive (a + j) true) ∧
      Written src off a j c₁ 0 c')
    (E := fun _ b' => ∃ c' x, b'.card = c'.inMode (.busy (.receive x)) ∧
      c₁.Within a (a + count.toNat) c')
    ⟨c₁, h₁, .zero⟩ fun j _ b' _ hj h => ?_).bind fun r b₂ h₂ => ?_
  · obtain ⟨c', hc', hwritten⟩ := h
    refine (writeRound_yields hc').mono fun r b'' ⟨c'', hone, h0, hne⟩ => ?_
    refine ⟨fun hr => ⟨c'', h0 hr, (hwritten.snoc hone).weaken fun _ => hr⟩, fun hr => ?_⟩
    obtain ⟨x, hx⟩ := hne hr
    exact ⟨c'', x, hx, (hwritten.snoc hone).within.mono le_rfl (by omega)⟩
  rw [Nat.zero_add] at h₂
  obtain ⟨c', m, h₂, hsettling, hwritten⟩ : ∃ c' m, b₂.card = c'.inMode m ∧ m.settling ∧
      Written src off a count.toNat c₁ r.1 c' := by
    by_cases h0 : r.1 = 0
    · obtain ⟨c', hc', hwritten⟩ := h₂.1 h0
      exact ⟨c', _, hc', rfl, hwritten.weaken fun _ => rfl⟩
    · obtain ⟨c', x, hc', hwithin⟩ := h₂.2 h0
      exact ⟨c', _, hc', rfl, .failed h0 hwithin⟩
  have hkeeps : ∀ tx, (tx = 0xFF ∨ tx = 0xFD) → ∀ c rx c'', (∃ m, c = c'.inMode m ∧ m.settling) →
      c.next tx rx = some c'' → ∃ m, c'' = c'.inMode m ∧ m.settling := by
    rintro tx htx _ rx c'' ⟨m, rfl, hm⟩ hnext
    exact next_of_settling htx hm hnext
  refine (sdWaitNotBusy_keeps ⟨m, h₂, hsettling⟩ (hkeeps 0xFF (.inl rfl))).bind fun _ b₃ h₃ => ?_
  refine (txBytes_keeps h₃ fun tx htx => hkeeps tx (by simpa [or_comm] using htx)).bind fun _ b₄ h₄ => ?_
  refine (sdWaitNotBusy_keeps h₄ (hkeeps 0xFF (.inl rfl))).bind fun brc b₅ h₅ =>
    deassert_yields fun b' hq' hs => ⟨?_, hq'⟩
  obtain ⟨m', h₅, -⟩ := h₅
  refine (Written.earlier hbefore (hwritten.later (hs.trans (by rw [h₅]; rfl)))).weaken fun hrc => ?_
  exact not_not.mp fun hne => hne ((if_pos hne).symm.trans hrc)

end KlaussRuntime.Disk
