import KlaussRuntime.Disk.SdPins

/-!
# Disk/SdClosed — every transaction of the SD driver is closed

The driver of `Disk/SdPins` against the rules of `Disk/Protocol`.  One lemma for each function says from
which state of the protocol to which it leads; a wait is cut short only in `Idle`, which is a state the
rules allow, and so everything that happens on the way is allowed as well.
-/

namespace KlaussRuntime.Disk.Pins

open Machinery

/-! ## The states of a transaction -/

section States

variable (c₀ : BitVec 32)

/-- The log so far keeps to the rules. -/
def Accepts (w : Wire) : Prop := ∃ m, (Mon.start c₀).run w.log = some m

/-- …and this is what it amounts to, with the chip select where `CTRL` has it. -/
structure Is (m : Mon) (w : Wire) : Prop where
  run : (Mon.start c₀).run w.log = some m
  level : m.selected = true ↔ w.ctrl &&& CS_HI = 0

/-- Selected, between commands and blocks. -/
def Idle (o : Opened) (w : Wire) : Prop := ∃ last, Is c₀ ⟨.between, o, last, true, 0, true⟩ w

/-- The card has just sent its ready sign. -/
def Ready (w : Wire) : Prop := Is c₀ ⟨.between, .nothing, 0xFF, true, 0, true⟩ w

/-- Not selected, with the mutex held and so many power-up clocks sent. -/
def Away (clocks : ℕ) (w : Wire) : Prop := ∃ last, Is c₀ ⟨.between, .nothing, last, false, clocks, true⟩ w

/-- Between calls. -/
def Free (selected : Bool) (w : Wire) : Prop := ∃ last, Is c₀ ⟨.between, .nothing, last, selected, 0, false⟩ w

end States

variable {c₀ : BitVec 32} {fuel : ℕ} {w : Wire} {m : Mon} {o : Opened}

theorem Is.accepts (h : Is c₀ m w) : Accepts c₀ w := ⟨m, h.run⟩

theorem Idle.accepts (h : Idle c₀ o w) : Accepts c₀ w := by
  obtain ⟨_, h⟩ := h
  exact h.accepts

/-! ## Single steps -/

theorem Is.xfer (h : Is c₀ m w) (tx : Byte) (next : Byte → Mon)
    (hstep : ∀ rx, m.step (.xfer tx rx) = some (next rx)) (hsel : ∀ rx, (next rx).selected = m.selected) :
    Safe (Accepts c₀) (spiXfer tx) w fun r w' => Is c₀ (next r) w' := by
  refine .of_run rfl ⟨?_, ?_⟩
  · dsimp only
    rw [Mon.run_concat, h.run]
    exact hstep _
  · rw [hsel]
    exact h.level

theorem Is.setCtrl (h : Is c₀ m w) {v : BitVec 32} {m' : Mon} (hstep : m.step (.ctrl v) = some m')
    (hsel : m'.selected = true ↔ v &&& CS_HI = 0) :
    Safe (Accepts c₀) (Pins.setCtrl v) w fun _ w' => Is c₀ m' w' := by
  refine .of_run rfl ⟨?_, hsel⟩
  dsimp only
  rw [Mon.run_concat, h.run]
  exact hstep

theorem Is.select (h : Is c₀ m w) (hl : m.locked = true) {v : BitVec 32} (hv : v &&& CS_HI = 0) :
    Safe (Accepts c₀) (Pins.setCtrl v) w fun _ w' => Is c₀ { m with selected := true } w' :=
  h.setCtrl (by rw [Mon.step, if_neg (not_not.mpr hl), if_pos hv]) ⟨fun _ => hv, fun _ => rfl⟩

theorem Is.deselect (h : Is c₀ m w) (hl : m.locked = true) (hq : m.quiet = true) {v : BitVec 32}
    (hv : v &&& CS_HI ≠ 0) :
    Safe (Accepts c₀) (Pins.setCtrl v) w fun _ w' => Is c₀ { m with selected := false } w' :=
  h.setCtrl (by rw [Mon.step, if_neg (not_not.mpr hl), if_neg hv, if_pos hq])
    ⟨fun hf => absurd hf Bool.false_ne_true, fun h0 => absurd h0 hv⟩

/-! ## Chip select -/

theorem and_csHi (v : BitVec 32) : v &&& CS_HI = 0 ↔ v.getLsbD 16 = false := by
  have htwo : CS_HI = BitVec.twoPow 32 16 := by decide
  rw [htwo, BitVec.and_twoPow]
  cases v.getLsbD 16 <;> simp [BitVec.twoPow]

theorem csAssert_idle {last : Byte} {s : Bool} {k : ℕ}
    (h : Is c₀ ⟨.between, .nothing, last, s, k, true⟩ w) :
    Safe (Accepts c₀) csAssert w fun _ w' => Is c₀ ⟨.between, .nothing, last, true, k, true⟩ w' := by
  have hlow : (0xFFFF : BitVec 32).getLsbD 16 = false := by decide
  have hpwr : PWR_ON.getLsbD 16 = false := by decide
  refine Safe.get_bind (h.select rfl ((and_csHi _).mpr ?_))
  rw [BitVec.getLsbD_or, BitVec.getLsbD_and, hlow, hpwr, Bool.and_false, Bool.or_false]

theorem csDeassert_away (h : Idle c₀ .nothing w) :
    Safe (Accepts c₀) csDeassert w fun _ w' => Away c₀ 0 w' := by
  obtain ⟨last, h⟩ := h
  have hcs : CS_HI.getLsbD 16 = true := by decide
  refine Safe.get_bind ((h.deselect rfl rfl fun hzero => ?_).mono fun _ w' h => ⟨last, h⟩)
  rw [and_csHi, BitVec.getLsbD_or, BitVec.getLsbD_or, hcs, Bool.or_true, Bool.true_or] at hzero
  cases hzero

theorem setClk_away (div : BitVec 32) (h : Away c₀ 0 w) :
    Safe (Accepts c₀) (setClk div) w fun _ w' => Away c₀ 0 w' := by
  obtain ⟨last, h⟩ := h
  have hhigh : w.ctrl.getLsbD 16 = true := by
    rw [← Bool.not_eq_false, ← and_csHi]
    exact fun hzero => absurd (h.level.mpr hzero) Bool.false_ne_true
  have hmask : (~~~0xFFFF : BitVec 32).getLsbD 16 = true := by decide
  refine Safe.get_bind ((h.deselect rfl rfl fun hzero => ?_).mono fun _ w' h => ⟨last, h⟩)
  rw [and_csHi, BitVec.getLsbD_or, BitVec.getLsbD_and, hhigh, hmask, Bool.and_self, Bool.true_or] at hzero
  cases hzero

/-! ## Bytes between commands -/

theorem idle_xfer {last : Byte} {k : ℕ} (h : Is c₀ ⟨.between, o, last, true, k, true⟩ w) :
    Safe (Accepts c₀) (spiXfer 0xFF) w fun r w' => Is c₀ ⟨.between, o, r, true, k, true⟩ w' :=
  h.xfer 0xFF (fun r => ⟨.between, o, r, true, k, true⟩) (fun _ => rfl) fun _ => rfl

theorem idle_byte (h : Idle c₀ o w) :
    Safe (Accepts c₀) (spiXfer 0xFF) w fun _ w' => Idle c₀ o w' := by
  obtain ⟨last, h⟩ := h
  exact (idle_xfer h).mono fun r _ h => ⟨r, h⟩

theorem idle_fill (n : ℕ) : ∀ {w : Wire}, Idle c₀ o w →
    Safe (Accepts c₀) (txBytes (List.replicate n 0xFF)) w fun _ w' => Idle c₀ o w' := by
  induction n with
  | zero => exact fun h => .pure h
  | succ n ih => exact fun h => (idle_byte h).bind fun _ _ h => ih h

theorem idle_rxBytes (n : ℕ) : ∀ {w : Wire}, Idle c₀ o w →
    Safe (Accepts c₀) (rxBytes n) w fun _ w' => Idle c₀ o w' := by
  induction n with
  | zero => exact fun h => .pure h
  | succ n ih => exact fun h => (idle_byte h).bind fun _ _ h => (ih h).bind fun _ _ h => .pure h

theorem idle_tryFor (stop : Byte → Bool) (n : ℕ) : ∀ {w : Wire}, Idle c₀ o w →
    Safe (Accepts c₀) (tryFor stop n) w fun _ w' => Idle c₀ o w' := by
  induction n with
  | zero => exact fun h => .pure h
  | succ n ih => exact fun h => (idle_byte h).bind fun _ _ h => .ite (fun _ => .pure h) fun _ => ih h

/-- **A wait with a deadline** stays where it is, and when it succeeds the byte waited for was the last. -/
theorem idle_pollFor (stop : Byte → Bool) (n : ℕ) : ∀ {w : Wire}, Idle c₀ o w →
    Safe (Accepts c₀) (pollFor stop n) w fun r w' => ∃ last, Is c₀ ⟨.between, o, last, true, 0, true⟩ w' ∧
      (r.isSome → stop last) := by
  induction n with
  | zero => exact fun h => .stop h.accepts
  | succ n ih =>
    rintro w ⟨last, h⟩
    refine (idle_xfer h).bind fun r w₁ h₁ => .ite (fun hstop => ?_) fun _ => ?_
    · exact .pure ⟨r, h₁, fun _ => hstop⟩
    · refine Safe.get_bind (.ite (fun _ => ?_) fun _ => ih ⟨r, h₁⟩)
      exact .pure ⟨r, h₁, fun h => by cases h⟩

theorem sdWaitReady_spec (h : Idle c₀ .nothing w) :
    Safe (Accepts c₀) (sdWaitReady fuel) w fun rc w' => Idle c₀ .nothing w' ∧ (rc = 0 → Ready c₀ w') := by
  refine (idle_pollFor _ fuel h).bind fun r w' ⟨last, h, hlast⟩ => .pure ⟨⟨last, h⟩, fun hrc => ?_⟩
  have hsome : r.isSome = true := by
    by_contra hnone
    rw [if_neg hnone] at hrc
    cases hrc
  obtain rfl : last = 0xFF := by simpa using hlast hsome
  exact h

theorem sdWaitNotBusy_spec (h : Idle c₀ o w) :
    Safe (Accepts c₀) (sdWaitNotBusy fuel) w fun _ w' => Idle c₀ o w' :=
  (idle_pollFor _ fuel h).bind fun _ _ ⟨last, h, _⟩ => .pure ⟨last, h⟩

theorem sdWaitToken_spec (h : Idle c₀ o w) :
    Safe (Accepts c₀) (sdWaitToken fuel) w fun _ w' => Idle c₀ o w' :=
  (idle_pollFor _ fuel h).bind fun _ _ ⟨last, h, _⟩ => .pure ⟨last, h⟩

theorem sdRxBlock_spec (pipe : Bool) (h : Idle c₀ o w) :
    Safe (Accepts c₀) (sdRxBlock pipe) w fun _ w' => Idle c₀ o w' :=
  (idle_rxBytes 512 h).bind fun _ _ h => Safe.get_bind (.pure h)

/-! ## Commands -/

theorem first_byte (cmd : Byte) : (0x40 ||| (cmd &&& 0x3F)) ≠ 0xFF ∧
    (0x40 ||| (cmd &&& 0x3F)) &&& 0xC0 = 0x40 ∧
    (0x40 ||| (cmd &&& 0x3F)) &&& 0x3F = cmd &&& 0x3F := by
  revert cmd
  decide

/-- **So many bytes, whatever they are**: the rest of a command, or a data block with its CRC. -/
theorem counted_bytes (pos : ℕ → Pos) (after : Pos)
    (hstep : ∀ n tx rx last, Mon.step ⟨pos (n + 2), o, last, true, 0, true⟩ (.xfer tx rx)
      = some ⟨pos (n + 1), o, rx, true, 0, true⟩)
    (hlast : ∀ tx rx last, Mon.step ⟨pos 1, o, last, true, 0, true⟩ (.xfer tx rx)
      = some ⟨after, o, rx, true, 0, true⟩) (bs : List Byte) : ∀ {w : Wire} {last : Byte},
    Is c₀ ⟨pos bs.length, o, last, true, 0, true⟩ w → bs ≠ [] →
    Safe (Accepts c₀) (txBytes bs) w fun _ w' => ∃ last, Is c₀ ⟨after, o, last, true, 0, true⟩ w' := by
  induction bs with
  | nil => exact fun _ hne => absurd rfl hne
  | cons tx bs ih =>
    intro w last h _
    cases bs with
    | nil =>
      exact (h.xfer tx (fun r => ⟨after, o, r, true, 0, true⟩) (fun rx => hlast tx rx last)
        fun _ => rfl).bind fun r _ h => .pure ⟨r, h⟩
    | cons tx' bs =>
      exact (h.xfer tx (fun r => ⟨pos (bs.length + 1), o, r, true, 0, true⟩)
        (fun rx => hstep bs.length tx rx last) fun _ => rfl).bind fun r _ h => ih h (by simp)

theorem answer_xfer {cmd last : Byte} {n : ℕ} (h : Is c₀ ⟨.answer cmd n, .nothing, last, true, 0, true⟩ w) :
    Safe (Accepts c₀) (spiXfer 0xFF) w fun r w' => Is c₀ (if r &&& 0x80 = 0
      then ⟨.between, if r = 0 then opens cmd else .nothing, r, true, 0, true⟩
      else ⟨if n ≤ 1 then .between else .answer cmd (n - 1), .nothing, r, true, 0, true⟩) w' := by
  refine h.xfer 0xFF (fun r => if r &&& 0x80 = 0
    then ⟨.between, if r = 0 then opens cmd else .nothing, r, true, 0, true⟩
    else ⟨if n ≤ 1 then .between else .answer cmd (n - 1), .nothing, r, true, 0, true⟩) ?_ ?_
  · intro r
    rw [Mon.step, if_neg (not_not.mpr rfl), if_pos rfl, Mon.exchange]
    dsimp only
    rw [if_neg (not_not.mpr rfl)]
    split_ifs <;> rfl
  · intro r
    split_ifs <;> rfl

/-- Up to R1, and with a zero R1 what the command opens is open. -/
theorem answer_pollR1 (cmd : Byte) (n : ℕ) : ∀ {w : Wire} {last : Byte},
    Is c₀ ⟨.answer cmd (n + 1), .nothing, last, true, 0, true⟩ w →
    Safe (Accepts c₀) (pollR1 (n + 1)) w fun r w' =>
      Idle c₀ (if r = 0 then opens cmd else .nothing) w' := by
  induction n with
  | zero =>
    refine fun h => (answer_xfer h).bind fun r w' h => .ite (fun hr => ?_) fun hr => ?_
    · rw [if_pos hr] at h
      exact .pure ⟨r, h⟩
    · rw [if_neg hr] at h
      exact .pure ⟨r, h⟩
  | succ n ih =>
    refine fun h => (answer_xfer h).bind fun r w' h => .ite (fun hr => ?_) fun hr => ?_
    · rw [if_pos hr] at h
      exact .pure ⟨r, h⟩
    · rw [if_neg hr] at h
      exact ih h

theorem command_spec {cmd last : Byte} {k : ℕ} (arg : BitVec 32) (crc : Byte)
    (hcmd : cmd &&& 0x3F = cmd) (hready : cmd = 0 ∨ cmd = 12 ∨ last = 0xFF) (hk : cmd = 0 ∨ k = 0)
    (h : Is c₀ ⟨.between, closes cmd, last, true, k, true⟩ w) :
    Safe (Accepts c₀) (txBytes (frame cmd arg crc)) w fun _ w' =>
      ∃ last, Is c₀ ⟨.answer cmd 8, .nothing, last, true, 0, true⟩ w' := by
  obtain ⟨hne, hmask, hval⟩ := first_byte cmd
  replace hval := hval.trans hcmd
  refine (h.xfer _ (fun r => ⟨.command cmd 5, .nothing, r, true, 0, true⟩) (fun r => ?_)
    fun _ => rfl).bind fun r w' h => counted_bytes (.command cmd) (.answer cmd 8) (fun _ _ _ _ => rfl)
      (fun _ _ _ => rfl) _ h (by simp)
  rw [Mon.step, if_neg (not_not.mpr rfl), if_pos rfl, Mon.exchange, Mon.idleByte, if_neg hne, if_pos hmask,
    hval, Mon.begin, if_pos ⟨hready, hk, rfl⟩]
  rfl

/-- A command of six bits that waits for the card first: not the reset, and not the end of a read. -/
def Ordinary (cmd : Byte) : Prop := cmd &&& 0x3F = cmd ∧ cmd ≠ 0 ∧ cmd ≠ 12

instance decidableOrdinary (cmd : Byte) : Decidable (Ordinary cmd) :=
  inferInstanceAs (Decidable (_ ∧ _ ∧ _))

/-- **A command after the wait for the card.** -/
theorem sdCmd_spec {cmd : Byte} (arg : BitVec 32) (crc : Byte) (hord : Ordinary cmd)
    (h : Idle c₀ .nothing w) :
    Safe (Accepts c₀) (sdCmd fuel cmd arg crc) w fun r w' =>
      Idle c₀ (if r = 0 then opens cmd else .nothing) w' := by
  obtain ⟨hcmd, h0, h12⟩ := hord
  have hclose : closes cmd = .nothing := if_neg h12
  have hbefore : Safe (Accepts c₀) (beforeCmd fuel cmd) w fun rc w' =>
      Idle c₀ .nothing w' ∧ (rc = 0 → Ready c₀ w') :=
    .ite (fun h => absurd h h0) fun _ => sdWaitReady_spec h
  refine hbefore.bind fun rc w' ⟨hidle, hready⟩ => .ite (fun _ => .pure hidle) fun hrc => ?_
  have hready : Is c₀ ⟨.between, closes cmd, 0xFF, true, 0, true⟩ w' := hclose ▸ hready (not_not.mp hrc)
  exact (command_spec arg crc hcmd (.inr (.inr rfl)) (.inr rfl) hready).bind fun _ _ ⟨_, h⟩ =>
    answer_pollR1 cmd 7 h

theorem sdCmd_plain {cmd : Byte} (arg : BitVec 32) (crc : Byte) (hord : Ordinary cmd)
    (hopen : opens cmd = .nothing) (h : Idle c₀ .nothing w) :
    Safe (Accepts c₀) (sdCmd fuel cmd arg crc) w fun _ w' => Idle c₀ .nothing w' := by
  refine (sdCmd_spec arg crc hord h).mono fun r w' h => ?_
  rwa [hopen, ite_self] at h

theorem sdCmd_zero {last : Byte} {k : ℕ} (arg : BitVec 32) (crc : Byte)
    (h : Is c₀ ⟨.between, .nothing, last, true, k, true⟩ w) :
    Safe (Accepts c₀) (sdCmd fuel 0 arg crc) w fun _ w' => Idle c₀ .nothing w' := by
  have hbefore : Safe (Accepts c₀) (beforeCmd fuel 0) w fun rc w' =>
      rc = 0 ∧ ∃ last, Is c₀ ⟨.between, .nothing, last, true, k, true⟩ w' :=
    .ite (fun _ => (idle_xfer h).bind fun r _ h => .pure ⟨rfl, r, h⟩) fun h => absurd rfl h
  refine hbefore.bind fun rc w' ⟨hrc, last, h⟩ => .ite (fun hne => absurd hrc hne) fun _ => ?_
  exact (command_spec arg crc (by decide) (.inl rfl) (.inl rfl) h).bind fun _ _ ⟨_, h⟩ =>
    (answer_pollR1 0 7 h).mono fun r w' h => by rwa [show opens 0 = .nothing by decide, ite_self] at h

theorem sdAcmd_spec {acmd : Byte} (arg : BitVec 32) (hord : Ordinary acmd) (hopen : opens acmd = .nothing)
    (h : Idle c₀ .nothing w) :
    Safe (Accepts c₀) (sdAcmd fuel acmd arg) w fun _ w' => Idle c₀ .nothing w' :=
  (sdCmd_plain 0 0x65 (by decide) (by decide) h).bind fun _ _ h => sdCmd_plain arg 0x77 hord hopen h

/-! ## Blocks and the end of a read -/

theorem sendBlock_spec {token : Byte} {o' : Opened} (src : Mem) (off : ℕ)
    (htoken : ∀ last rx, Mon.step ⟨.between, o, last, true, 0, true⟩ (.xfer token rx)
      = some ⟨.data 514, o', rx, true, 0, true⟩) (h : Idle c₀ o w) :
    Safe (Accepts c₀) (sendBlock token src off) w fun _ w' => Idle c₀ o' w' := by
  obtain ⟨last, h⟩ := h
  have hhead : Safe (Accepts c₀) (txBytes [0xFF, token]) w fun _ w' =>
      ∃ last, Is c₀ ⟨.data 514, o', last, true, 0, true⟩ w' :=
    (idle_xfer h).bind fun last _ h => (h.xfer token (fun r => ⟨.data 514, o', r, true, 0, true⟩)
      (htoken last) fun _ => rfl).bind fun r _ h => .pure ⟨r, h⟩
  refine hhead.bind fun _ w₁ ⟨last, h⟩ => ?_
  have hlen : (src.read off 512 ++ [0xFF, 0xFF]).length = 514 := by simp
  refine (counted_bytes .data .between (fun _ _ _ _ => rfl) (fun _ _ _ => rfl) _ (hlen ▸ h)
    (by simp)).bind fun _ w₂ h => idle_byte h

/-- Waiting for an answer that opens nothing, also for longer than it may take. -/
theorem quiet_pollR1 {cmd : Byte} (hopen : opens cmd = .nothing) (k : ℕ) : ∀ {w : Wire},
    (Idle c₀ .nothing w ∨ ∃ n last, 0 < n ∧ n ≤ k ∧
      Is c₀ ⟨.answer cmd n, .nothing, last, true, 0, true⟩ w) →
    Safe (Accepts c₀) (pollR1 k) w fun _ w' => Idle c₀ .nothing w' := by
  induction k with
  | zero =>
    rintro w (h | ⟨n, last, hpos, hle, _⟩)
    · exact .pure h
    · omega
  | succ k ih =>
    rintro w (h | ⟨n, last, hpos, hle, h⟩)
    · exact (idle_byte h).bind fun r _ h => .ite (fun _ => .pure h) fun _ => ih (.inl h)
    · refine (answer_xfer h).bind fun r w₁ h => .ite (fun hr => ?_) fun hr => ih ?_
      · rw [if_pos hr, hopen, ite_self] at h
        exact .pure ⟨r, h⟩
      · rw [if_neg hr] at h
        split_ifs at h with hn
        · exact .inl ⟨r, h⟩
        · exact .inr ⟨n - 1, r, by omega, by omega, h⟩

/-- **`CMD12` closes the read.** -/
theorem sdStopRead_spec (h : Idle c₀ .read w) :
    Safe (Accepts c₀) (sdStopRead fuel) w fun _ w' => Idle c₀ .nothing w' := by
  obtain ⟨last, h⟩ := h
  have hopen : Is c₀ ⟨.between, closes 12, last, true, 0, true⟩ w := h
  refine (command_spec 0 0x61 (by decide) (.inr (.inl rfl)) (.inr rfl) hopen).bind
    fun _ w₁ ⟨last, h⟩ => (answer_xfer h).bind fun r w₂ h => ?_
  have hwait : Idle c₀ .nothing w₂ ∨ ∃ n last, 0 < n ∧ n ≤ 8 ∧
      Is c₀ ⟨.answer 12 n, .nothing, last, true, 0, true⟩ w₂ := by
    by_cases hr : r &&& 0x80 = 0
    · rw [if_pos hr, show opens 12 = .nothing by decide, ite_self] at h
      exact .inl ⟨r, h⟩
    · rw [if_neg hr] at h
      exact .inr ⟨7, r, by omega, by omega, h⟩
  exact (quiet_pollR1 (by decide) 8 hwait).bind fun _ _ h => (sdWaitNotBusy_spec h).bind
    fun _ _ h => .pure h

/-! ## Transactions -/

theorem enter (h : Away c₀ 0 w) :
    Safe (Accepts c₀) csAssert w fun _ w' => Idle c₀ .nothing w' := by
  obtain ⟨last, h⟩ := h
  exact (csAssert_idle h).mono fun _ _ h => ⟨last, h⟩

theorem leave {rc : ℤ} (h : Idle c₀ .nothing w) :
    Safe (Accepts c₀) (do csDeassert; return rc) w fun _ w' => Away c₀ 0 w' :=
  (csDeassert_away h).bind fun _ _ h => .pure h

/-- **The command of a transaction**: refused, the chip select goes up; accepted, what it opens is open. -/
theorem sdCmd_or_leave {cmd : Byte} {arg : BitVec 32} {crc : Byte} {rc : Byte → ℤ} {p : Byte → Cut Wire ℤ}
    (hord : Ordinary cmd) (h : Idle c₀ .nothing w)
    (hp : ∀ {r w}, Idle c₀ (opens cmd) w → Safe (Accepts c₀) (p r) w fun _ w' => Away c₀ 0 w') :
    Safe (Accepts c₀) (do
      let r ← sdCmd fuel cmd arg crc
      if r ≠ 0 then do csDeassert; return rc r
      else p r) w fun _ w' => Away c₀ 0 w' := by
  refine (sdCmd_spec arg crc hord h).bind fun r _ h => .ite (fun hr => ?_) fun hr => ?_
  · rw [if_neg hr] at h
    exact leave h
  · rw [if_pos (not_not.mp hr)] at h
    exact hp h

variable {cfg : Config}

theorem sdReadBlock_spec (lba : BitVec 32) (pipe : Bool) (h : Away c₀ 0 w) :
    Safe (Accepts c₀) (sdReadBlock fuel cfg lba pipe) w fun _ w' => Away c₀ 0 w' := by
  refine (enter h).bind fun _ _ h => sdCmd_or_leave (by decide) h fun {_ _} h => ?_
  refine (sdWaitToken_spec h).bind fun _ _ h => .ite (fun _ => leave h) fun _ => ?_
  exact (sdRxBlock_spec pipe h).bind fun _ _ h => (idle_fill 2 h).bind fun _ _ h => leave h

theorem sdWriteBlock_spec (lba : BitVec 32) (src : Mem) (off : ℕ) (h : Away c₀ 0 w) :
    Safe (Accepts c₀) (sdWriteBlock fuel cfg lba src off) w fun _ w' => Away c₀ 0 w' := by
  refine (enter h).bind fun _ _ h => sdCmd_or_leave (by decide) h fun {_ _} h => ?_
  refine (sendBlock_spec src off (fun _ _ => rfl) h).bind fun _ _ h => .ite (fun _ => leave h)
    fun _ => ?_
  exact (sdWaitNotBusy_spec h).bind fun _ _ h => leave h

theorem readRound_spec (b : ℕ) (u : Unit) (h : Idle c₀ .read w) :
    Safe (Accepts c₀) (readRound fuel cfg b u) w fun _ w' => Idle c₀ .read w' := by
  refine (sdWaitToken_spec h).bind fun rc _ h => .ite (fun _ => .pure h) fun _ => ?_
  refine (sdRxBlock_spec _ h).bind fun _ _ h => .ite (fun _ => .pure h) fun _ => ?_
  exact (idle_fill 2 h).bind fun _ _ h => .pure h

/-- **A multi-block read** sends its `CMD12` once, however its rounds end. -/
theorem sdReadMulti_spec (lba : BitVec 32) (n : ℕ) (h : Away c₀ 0 w) :
    Safe (Accepts c₀) (sdReadMulti fuel cfg lba n) w fun _ w' => Away c₀ 0 w' := by
  refine (enter h).bind fun _ _ h => sdCmd_or_leave (by decide) h fun {_ _} h => ?_
  have hopen : opens 18 = .read := by decide
  exact (Safe.untilError_keeps (hopen ▸ h) (readRound_spec _ _)).bind fun _ _ h =>
    (sdStopRead_spec h).bind fun _ _ h => leave h

theorem writeRound_spec (src : Mem) (off b : ℕ) (u : Unit) (h : Idle c₀ .writeMulti w) :
    Safe (Accepts c₀) (writeRound fuel src off b u) w fun _ w' => Idle c₀ .writeMulti w' := by
  refine (sendBlock_spec src _ (fun _ _ => rfl) h).bind fun _ _ h => .ite (fun _ => .pure h) fun _ => ?_
  exact (sdWaitNotBusy_spec h).bind fun _ _ h => .pure h

theorem stopToken_spec (h : Idle c₀ .writeMulti w) :
    Safe (Accepts c₀) (txBytes [0xFD, 0xFF]) w fun _ w' => Idle c₀ .nothing w' := by
  obtain ⟨_, h⟩ := h
  exact (h.xfer 0xFD (fun r => ⟨.between, .nothing, r, true, 0, true⟩) (fun _ => rfl)
    fun _ => rfl).bind fun r _ h => (idle_byte ⟨r, h⟩).bind fun _ _ h => .pure h

/-- **A multi-block write** sends its stop token once, however its rounds end. -/
theorem sdWriteMulti_spec (lba : BitVec 32) (src : Mem) (off : ℕ) (n : BitVec 32) (h : Away c₀ 0 w) :
    Safe (Accepts c₀) (sdWriteMulti fuel cfg lba src off n) w fun _ w' => Away c₀ 0 w' := by
  refine (enter h).bind fun _ _ h => (sdAcmd_spec n (by decide) (by decide) h).bind fun _ _ h =>
    sdCmd_or_leave (by decide) h fun {_ _} h => ?_
  have hopen : opens 25 = .writeMulti := by decide
  exact (Safe.untilError_keeps (hopen ▸ h) (writeRound_spec src off _ _)).bind fun _ _ h =>
    (sdWaitNotBusy_spec h).bind fun _ _ h => (stopToken_spec h).bind fun _ _ h =>
    (sdWaitNotBusy_spec h).bind fun _ _ h => leave h

theorem sdReadCsd_spec (h : Away c₀ 0 w) :
    Safe (Accepts c₀) (sdReadCsd fuel) w fun _ w' => Away c₀ 0 w' := by
  refine (enter h).bind fun _ _ h => sdCmd_or_leave (by decide) h fun {_ _} h => ?_
  refine (idle_tryFor _ 200000 h).bind fun _ _ h => .ite (fun _ => leave h) fun _ => ?_
  exact (idle_rxBytes 16 h).bind fun _ _ h => (idle_fill 2 h).bind fun _ _ h => leave h

/-! ## Initialisation -/

theorem away_clocks (n : ℕ) : ∀ {w : Wire} {k : ℕ}, Away c₀ k w → k + n ≤ 10 →
    Safe (Accepts c₀) (txBytes (List.replicate n 0xFF)) w fun _ w' => Away c₀ (k + n) w' := by
  induction n with
  | zero => exact fun h _ => .pure h
  | succ n ih =>
    rintro w k ⟨last, h⟩ hle
    have hclock : ∀ rx, Mon.step ⟨.between, .nothing, last, false, k, true⟩ (.xfer 0xFF rx)
        = some ⟨.between, .nothing, rx, false, k + 1, true⟩ := fun rx => by
      rw [Mon.step, if_neg (not_not.mpr rfl), if_neg Bool.false_ne_true, Mon.clock,
        if_pos ⟨rfl, (by omega : k < 10)⟩]
      rfl
    refine (h.xfer 0xFF (fun r => ⟨.between, .nothing, r, false, k + 1, true⟩) hclock
      fun _ => rfl).bind fun r _ h => (ih ⟨r, h⟩ (by omega)).mono fun _ _ h => ?_
    rwa [Nat.add_right_comm] at h

theorem acmd41_spec (n : ℕ) : ∀ {w : Wire}, Idle c₀ .nothing w →
    Safe (Accepts c₀) (acmd41 fuel n) w fun _ w' => Idle c₀ .nothing w' := by
  induction n with
  | zero => exact fun h => .pure h
  | succ n ih =>
    exact fun h => (sdAcmd_spec _ (by decide) (by decide) h).bind
      fun _ _ h => .ite (fun _ => .pure h) fun _ => ih h

theorem afterReady_spec (h : Idle c₀ .nothing w) :
    Safe (Accepts c₀) (afterReady fuel) w fun _ w' => Away c₀ 0 w' := by
  refine (sdCmd_plain _ 0xFD (by decide) (by decide) h).bind fun _ _ h =>
    .ite (fun _ => leave h) fun _ => (idle_byte h).bind fun ocr _ h => (idle_fill 3 h).bind fun _ w₁ h => ?_
  have hlen : Safe (Accepts c₀) (setBlocklen fuel ocr) w₁ fun _ w' => Idle c₀ .nothing w' :=
    .ite (fun _ => .pure h) fun _ => sdCmd_plain _ 0xFF (by decide) (by decide) h
  exact hlen.bind fun _ _ h => (csDeassert_away h).bind fun _ _ h => .ite (fun _ => .pure h) fun _ =>
    (setClk_away _ h).bind fun _ _ h => .pure h

/-- **Initialisation** starts from either level of the chip select. -/
theorem sdHwInit_spec {last : Byte} {s : Bool} (h : Is c₀ ⟨.between, .nothing, last, s, 0, true⟩ w) :
    Safe (Accepts c₀) (sdHwInit fuel) w fun _ w' => Away c₀ 0 w' := by
  refine (h.deselect rfl rfl (by decide)).bind fun _ _ h => (away_clocks 10 (k := 0) ⟨last, h⟩ (by omega)).bind
    fun _ _ ⟨last, h⟩ => (csAssert_idle h).bind fun _ _ h => (sdCmd_zero 0 0x95 h).bind fun _ _ h =>
    .ite (fun _ => leave h) fun _ => ?_
  refine (sdCmd_plain _ 0x87 (by decide) (by decide) h).bind fun _ _ h =>
    .ite (fun _ => leave h) fun _ => (idle_fill 4 h).bind fun _ _ h => (acmd41_spec 2000 h).bind
    fun _ _ h => .ite (fun _ => leave h) fun _ => afterReady_spec h

/-! ## Calls -/

/-- **A use of the card under the mutex.** -/
theorem locked_spec {p : Cut Wire ℤ} {s : Bool} (h : Free c₀ s w)
    (hp : ∀ {w last}, Is c₀ ⟨.between, .nothing, last, s, 0, true⟩ w →
      Safe (Accepts c₀) p w fun _ w' => Away c₀ 0 w') :
    Safe (Accepts c₀) (locked p) w fun _ w' => Free c₀ false w' := by
  obtain ⟨last, h⟩ := h
  have hlock : Safe (Accepts c₀) (Cut.modify fun w : Wire => { w with log := w.log ++ [.lock] }) w
      fun _ w' => Is c₀ ⟨.between, .nothing, last, s, 0, true⟩ w' :=
    .of_run rfl ⟨by dsimp only; rw [Mon.run_concat, h.run]; rfl, h.level⟩
  refine hlock.bind fun _ _ h => (hp h).bind fun _ w₁ ⟨last, h⟩ => ?_
  have hunlock : Safe (Accepts c₀) (Cut.modify fun w : Wire => { w with log := w.log ++ [.unlock] }) w₁
      fun _ w' => Free c₀ false w' :=
    .of_run rfl ⟨last, by dsimp only; rw [Mon.run_concat, h.run]; rfl, h.level⟩
  exact hunlock.bind fun _ _ h => .pure h

theorem retry_spec {body : ℕ → Cut Wire ℤ} {stop : ℤ → Bool}
    (hbody : ∀ {k w}, Away c₀ 0 w → Safe (Accepts c₀) (body k) w fun _ w' => Away c₀ 0 w') (n : ℕ) :
    ∀ {k : ℕ} {w : Wire}, Away c₀ 0 w → Safe (Accepts c₀) (retry body stop n k) w fun _ w' => Away c₀ 0 w' := by
  induction n with
  | zero => exact fun h => hbody h
  | succ n ih => exact fun h => (hbody h).bind fun _ _ h => .ite (fun _ => .pure h) fun _ => ih h

/-- The multi-block tries, and the per-block tries after them. -/
theorem tries_spec {count : BitVec 32} {multi : Cut Wire ℤ} {tries : ℕ → Cut Wire ℤ}
    (hmulti : ∀ {w}, Away c₀ 0 w → Safe (Accepts c₀) multi w fun _ w' => Away c₀ 0 w')
    (htries : ∀ {i w}, Away c₀ 0 w → Safe (Accepts c₀) (tries i) w fun _ w' => Away c₀ 0 w')
    (h : Away c₀ 0 w) :
    Safe (Accepts c₀) (do
      let rc ← multiTries cfg count multi
      perBlock count tries rc) w fun _ w' => Away c₀ 0 w' := by
  have hfirst : Safe (Accepts c₀) (multiTries cfg count multi) w fun _ w' => Away c₀ 0 w' :=
    .ite (fun _ => retry_spec (fun h => hmulti h) _ h) fun _ => .pure h
  refine hfirst.bind fun rc w₁ h => .ite (fun _ => .pure h) fun _ => ?_
  exact (Safe.untilError_keeps h fun {_ _ _} h => (htries h).bind fun _ _ h => .pure h).bind
    fun _ _ h => .pure h

theorem init_spec {s : Bool} (h : Free c₀ s w) :
    Safe (Accepts c₀) (Call.init.run fuel) w fun _ w' => Free c₀ false w' :=
  locked_spec h fun h => sdHwInit_spec h

theorem call_spec (c : Call) (hc : c.uses = true) (h : Free c₀ false w) :
    Safe (Accepts c₀) (c.run fuel) w fun _ w' => Free c₀ false w' := by
  cases c with
  | init => exact init_spec h
  | read cfg sector count =>
    refine .ite (fun hn => absurd hc hn) fun _ => locked_spec h fun {_ last} h => tries_spec
      (fun h => sdReadMulti_spec _ _ h) (fun h => retry_spec (fun h => sdReadBlock_spec _ _ h) _ h)
      ⟨last, h⟩
  | write cfg src sector count =>
    refine .ite (fun hn => absurd hc hn) fun _ => locked_spec h fun {_ last} h => tries_spec
      (fun h => sdWriteMulti_spec _ _ _ _ h)
      (fun h => retry_spec (fun h => sdWriteBlock_spec _ _ _ h) _ h) ⟨last, h⟩
  | sectorCount cfg =>
    refine .ite (fun hn => absurd hc hn) fun _ => (locked_spec h fun {_ last} h =>
      sdReadCsd_spec ⟨last, h⟩).bind fun _ _ h => .pure h

theorem call_unused (c : Call) (hc : c.uses = false) {Q : Wire → Prop} (h : Q w) :
    Safe (Accepts c₀) (c.run fuel) w fun _ w' => Q w' := by
  cases c with
  | init => cases hc
  | read cfg | write cfg | sectorCount cfg =>
    exact .ite (fun _ => .pure h) fun hn => absurd hc (by simpa [Call.uses] using hn)

/-- Calls once the card has been initialised. -/
theorem runCalls_spec (calls : List Call) : ∀ {w : Wire}, Free c₀ false w →
    Safe (Accepts c₀) (runCalls fuel calls) w fun _ w' => Free c₀ false w' := by
  induction calls with
  | nil => exact fun h => .pure h
  | cons c calls ih =>
    intro w h
    cases hc : c.uses with
    | true => exact (call_spec c hc h).bind fun _ _ h => ih h
    | false => exact (call_unused c hc h).bind fun _ _ h => ih h

/-- …and from boot on: the first that uses the card finds the chip select as reset left it. -/
theorem runCalls_boot (calls : List Call) {s : Bool} : ∀ {w : Wire}, Boot calls → Free c₀ s w →
    Safe (Accepts c₀) (runCalls fuel calls) w fun _ w' =>
      Free c₀ (if calls.any Call.uses then false else s) w' := by
  induction calls with
  | nil => exact fun _ h => .pure h
  | cons c calls ih =>
    intro w hboot h
    cases hc : c.uses with
    | true =>
      have hinit : c = .init := hboot c (List.find?_cons_of_pos hc)
      have hany : (c :: calls).any Call.uses = true := by rw [List.any_cons, hc, Bool.true_or]
      rw [hany, if_pos rfl, hinit]
      exact (init_spec h).bind fun _ _ h => runCalls_spec calls h
    | false =>
      have hrest : Boot calls := fun c' hc' =>
        hboot c' ((List.find?_cons_of_neg (by rw [hc]; exact Bool.false_ne_true)).trans hc')
      have hany : (c :: calls).any Call.uses = calls.any Call.uses := by
        rw [List.any_cons, hc, Bool.false_or]
      rw [hany]
      exact (call_unused c hc h).bind fun _ _ h => ih hrest h

/-- What holds of the bus at every point: its log keeps to the rules, and, if the chip select was high
after reset, it is whenever the mutex is free. -/
def Closed (c₀ : BitVec 32) (w : Wire) : Prop :=
  ∃ m, (Mon.start c₀).run w.log = some m ∧
    (c₀ &&& CS_HI ≠ 0 → m.locked = false → m.selected = false)

theorem Accepts.closed (h : Accepts c₀ w) : Closed c₀ w := by
  obtain ⟨m, hrun⟩ := h
  refine ⟨m, hrun, fun hhigh => Mon.run_high hrun fun _ => ?_⟩
  simpa [Mon.start] using hhigh

/-- **Every transaction is closed.**  For every card, every passing of a deadline and every late read,
any calls from boot on, and at every point of them: the rules of the bus are kept, and with the mutex free
the chip select is high.  When the calls have returned the mutex is free, nothing is under way, and the
chip select is high once a call has used the card. -/
theorem transactions_closed (env : Env) (c₀ : BitVec 32) (fuel : ℕ) (calls : List Call)
    (hboot : Boot calls) :
    Safe (Closed c₀) (runCalls fuel calls) ⟨env, c₀, []⟩ fun _ w' => Closed c₀ w' ∧
      (∃ m, (Mon.start c₀).run w'.log = some m ∧ m.locked = false ∧ m.quiet = true) ∧
      (c₀ &&& CS_HI ≠ 0 ∨ calls.any Call.uses = true → w'.ctrl &&& CS_HI ≠ 0) := by
  have hstart : Free c₀ (decide (c₀ &&& CS_HI = 0)) ⟨env, c₀, []⟩ := ⟨0, rfl, decide_eq_true_iff⟩
  refine ((runCalls_boot calls hboot hstart).mono fun _ w' ⟨last, h⟩ => ?_).weaken
    fun _ h => h.closed
  refine ⟨h.accepts.closed, ⟨_, h.run, rfl, rfl⟩, fun hused hzero => ?_⟩
  have hlow : (if calls.any Call.uses then false else decide (c₀ &&& CS_HI = 0)) = true := h.level.mpr hzero
  split_ifs at hlow with hany
  exact (hused.resolve_right hany) (of_decide_eq_true hlow)

/-- An initialisation, a read and a write on a bus where nothing answers. -/
theorem transactions_closed_silent :
    Safe (Closed 0) (runCalls 3 [.init, .read ⟨true, true, true, true⟩ 0 2,
        .write ⟨true, true, true, true⟩ (fun _ => 0) 0 2]) ⟨⟨fun _ => 0xFF, fun _ => true, fun _ => false⟩, 0, []⟩
      fun _ w' => Closed 0 w' ∧
        (∃ m, (Mon.start 0).run w'.log = some m ∧ m.locked = false ∧ m.quiet = true) ∧
        ((0 : BitVec 32) &&& CS_HI ≠ 0 ∨ [Call.init, .read ⟨true, true, true, true⟩ 0 2,
          .write ⟨true, true, true, true⟩ (fun _ => 0) 0 2].any Call.uses = true → w'.ctrl &&& CS_HI ≠ 0) :=
  transactions_closed _ 0 3 _ fun c hc => by
    rw [List.find?_cons_of_pos rfl, Option.some.injEq] at hc
    exact hc.symm

end KlaussRuntime.Disk.Pins
