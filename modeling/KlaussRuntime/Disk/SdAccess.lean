import KlaussRuntime.Disk.SdTransfers
import KlaussRuntime.Machinery.Machine

/-!
# Disk/SdAccess — disk reads and writes reported as done are done

A disk call tries a multi-block transfer three times and then goes block by block, three tries each.
`accessRead_yields` and `accessWrite_yields` follow it through every failure: what the failed transfers have
left behind, in the buffer and on the card, stays within the sectors asked for, and the transfer that reports
success has done all of its part.  `calls_sound` says this of any call in any sequence of calls.

Block numbers become addresses in 32 bits.  `Fits` is where that loses nothing: on a card with byte
addresses, `lba * 512` wraps from sector `2^23` on, and a call for a sector there is carried out, and
reported as done, on another one (`not_forall_sound`).
-/

namespace KlaussRuntime.Disk

open Machinery

variable {b : Bus} {c : Card} {cfg : Config} {sector count : BitVec 32}

/-! ## Addresses -/

/-- Every sector of the call has an address of its own, and a place in the buffer. -/
def Fits (blockaddr : Bool) (sector count : BitVec 32) : Prop :=
  if blockaddr then sector.toNat + count.toNat ≤ 2 ^ 32 ∧ count.toNat ≤ 2 ^ 23
  else sector.toNat + count.toNat ≤ 2 ^ 23

instance (blockaddr : Bool) (sector count : BitVec 32) : Decidable (Fits blockaddr sector count) := by
  unfold Fits
  infer_instance

/-- **The sector a command addresses is the sector meant.** -/
theorem sector_blkArg (hcfg : cfg.blockaddr = c.ccs) (hfits : Fits c.ccs sector count) {i : ℕ}
    (hi : i < count.toNat) :
    c.sector (blkArg cfg (sector + BitVec.ofNat 32 i)) = sector.toNat + i := by
  rw [Card.sector, blkArg, hcfg]
  cases hccs : c.ccs with
  | true =>
    rw [hccs, Fits, if_pos rfl] at hfits
    simp only [if_pos, BitVec.toNat_add, BitVec.toNat_ofNat]
    omega
  | false =>
    rw [hccs, Fits, if_neg Bool.false_ne_true] at hfits
    simp only [if_neg Bool.false_ne_true, BitVec.toNat_mul, BitVec.toNat_add, BitVec.toNat_ofNat,
      show (512 : BitVec 32).toNat = 512 from rfl]
    omega

theorem sector_blkArg_zero (hcfg : cfg.blockaddr = c.ccs) (hfits : Fits c.ccs sector count)
    (hcount : 0 < count.toNat) : c.sector (blkArg cfg sector) = sector.toNat := by
  have h := sector_blkArg hcfg hfits hcount
  rwa [show BitVec.ofNat 32 0 = 0#32 from rfl, BitVec.add_zero] at h

theorem offset_of_fits (hfits : Fits c.ccs sector count) {i : ℕ} (hi : i < count.toNat) :
    i * 512 % 2 ^ 32 = 512 * i := by
  have hcount : count.toNat ≤ 2 ^ 23 := by
    rw [Fits] at hfits
    split at hfits <;> omega
  omega

theorem sector_congr {c' : Card} (h : c'.ccs = c.ccs) (arg : BitVec 32) : c'.sector arg = c.sector arg := by
  rw [Card.sector, Card.sector, h]

/-! ## Reads -/

/-- Tries of a read that all are for the same part of the buffer. -/
theorem readRetry_yields {body : ℕ → ℤ × Mem → Prog Bus (ℤ × Mem)} {stop : ℤ × Mem → Bool}
    {a off n m k : ℕ} {rc : ℤ} {buf : Mem} (hq : b.card.Quiet)
    (hbody : ∀ k r (b' : Bus), b'.card.Quiet → b'.card.store = b.card.store →
      Yields (body k r) b' fun r' b'' => Fetched b.card.disk a off n r.2 r' ∧
        b''.card.Quiet ∧ b''.card.store = b.card.store) :
    Yields (retry body stop m k (rc, buf)) b fun r b' =>
      Fetched b.card.disk a off n buf r ∧ b'.card.Quiet ∧ b'.card.store = b.card.store := by
  refine Yields.retry (fun r b' => (∀ q, q < off ∨ off + 512 * n ≤ q → r.2 q = buf q) ∧
    b'.card.Quiet ∧ b'.card.store = b.card.store) ⟨fun _ _ => rfl, hq, rfl⟩ ?_ m k
  rintro k r b' ⟨houtside, hq', hs'⟩
  refine (hbody k r b' hq' hs').mono fun r' b'' h => ?_
  have hfetched : Fetched b.card.disk a off n buf r' :=
    ⟨fun q hq => (h.1.outside q hq).trans (houtside q hq), h.1.content⟩
  exact ⟨⟨hfetched, h.2⟩, fun _ => ⟨hfetched.outside, h.2⟩⟩

theorem disk_of_store {c c' : Card} (h : c'.store = c.store) : c'.disk = c.disk :=
  congrArg (·.2.1) h

theorem ccs_of_store {c c' : Card} (h : c'.store = c.store) : c'.ccs = c.ccs :=
  congrArg Prod.fst h

theorem readTries_yields {i : ℕ} {buf : Mem} (hq : b.card.Quiet) :
    Yields (readTries cfg sector i buf) b fun r b' =>
      Fetched b.card.disk (b.card.sector (blkArg cfg (sector + BitVec.ofNat 32 i))) (i * 512 % 2 ^ 32) 1
        buf r ∧ b'.card.Quiet ∧ b'.card.store = b.card.store := by
  refine readRetry_yields hq fun k r b' hq' hs => (sdReadBlock_yields hq').mono fun r' b'' h => ?_
  rw [disk_of_store hs, sector_congr (ccs_of_store hs), hs] at h
  exact h

theorem readMultiTries_yields {buf : Mem} (hq : b.card.Quiet) (hcfg : cfg.blockaddr = b.card.ccs) :
    Yields (readMultiTries cfg sector count buf) b fun r b' =>
      (Fits b.card.ccs sector count → Fetched b.card.disk sector.toNat 0 count.toNat buf r) ∧
        b'.card.Quiet ∧ b'.card.store = b.card.store := by
  refine .ite (fun hcount => ?_) fun _ => .pure ⟨fun _ => .failed (by decide), hq, rfl⟩
  have htries : Yields (retry (fun _ r => sdReadMulti cfg sector r.2 0 count.toNat) (fun r => r.1 == 0)
      (SD_RETRIES - 1) 0 (0, buf)) b fun r b' =>
      Fetched b.card.disk (b.card.sector (blkArg cfg sector)) 0 count.toNat buf r ∧
        b'.card.Quiet ∧ b'.card.store = b.card.store := by
    refine readRetry_yields hq fun k r b' hq' hs => (sdReadMulti_yields hq').mono fun r' b'' h => ?_
    rw [disk_of_store hs, sector_congr (ccs_of_store hs), hs] at h
    exact h
  refine htries.mono fun r b' h => ⟨fun hfits => ?_, h.2⟩
  rw [← sector_blkArg_zero hcfg hfits (by omega)]
  exact h.1

/-- **A disk read**, whatever fails in it. -/
theorem accessRead_yields {buf : Mem} (hq : b.card.Quiet) (hcfg : cfg.blockaddr = b.card.ccs) :
    Yields (accessRead cfg buf sector count) b fun r b' =>
      (Fits b.card.ccs sector count → Fetched b.card.disk sector.toNat 0 count.toNat buf r) ∧
        b'.card.Quiet ∧ b'.card.store = b.card.store := by
  refine .ite (fun _ => .pure ⟨fun _ => .failed (by decide), hq, rfl⟩) fun _ => ?_
  refine (readMultiTries_yields hq hcfg).bind fun r b₁ h₁ => .ite (fun _ => .pure h₁) fun hr => ?_
  -- `j` sectors have been read one by one
  refine (Yields.untilError (fun j buf' b' =>
    (Fits b.card.ccs sector count → Fetched b.card.disk sector.toNat 0 j r.2 (0, buf')) ∧
      b'.card.Quiet ∧ b'.card.store = b.card.store)
    (E := fun buf' b' => (Fits b.card.ccs sector count → ∀ q, 512 * count.toNat ≤ q → buf' q = r.2 q) ∧
      b'.card.Quiet ∧ b'.card.store = b.card.store)
    ⟨fun _ => ⟨fun _ _ => rfl, fun _ => rfl⟩, h₁.2⟩ fun j buf' b' _ hj h => ?_).bind fun r' b₂ h₂ => ?_
  · refine (readTries_yields h.2.1).mono fun r' b'' h' => ?_
    rw [disk_of_store h.2.2, sector_congr (ccs_of_store h.2.2), h.2.2] at h'
    have hfetched : Fits b.card.ccs sector count →
        Fetched b.card.disk sector.toNat 0 (j + 1) r.2 r' := by
      intro hfits
      have hone := h'.1
      rw [sector_blkArg hcfg hfits (by omega), offset_of_fits hfits (by omega)] at hone
      refine (h.1 hfits).snoc ?_
      rw [Nat.zero_add]
      exact hone
    refine ⟨fun h0 => ⟨fun hfits => ?_, h'.2⟩, fun _ => ⟨fun hfits q hq => ?_, h'.2⟩⟩
    · exact ⟨(hfetched hfits).outside, fun _ => (hfetched hfits).content h0⟩
    · exact (hfetched hfits).outside q (by omega)
  · rw [Nat.zero_add] at h₂
    by_cases h0 : r'.1 = 0
    · obtain ⟨hfetched, hrest⟩ := h₂.1 h0
      refine .pure ⟨fun hfits => ⟨fun q hq => ?_, fun _ => (hfetched hfits).content rfl⟩, hrest⟩
      exact ((hfetched hfits).outside q hq).trans ((h₁.1 hfits).outside q hq)
    · obtain ⟨houtside, hrest⟩ := h₂.2 h0
      refine .pure ⟨fun hfits => ⟨fun q hq => ?_, fun hrc => ?_⟩, hrest⟩
      · exact (houtside hfits q (by omega)).trans ((h₁.1 hfits).outside q hq)
      · rw [if_pos h0] at hrc
        exact absurd (show - EIO = 0 from hrc) (by decide)

/-! ## Writes -/

theorem writeRetry_yields {body : ℕ → ℤ → Prog Bus ℤ} {stop : ℤ → Bool} {src : Mem} {a off n m k : ℕ}
    {rc : ℤ} (hq : b.card.Quiet)
    (hbody : ∀ k rc (b' : Bus), b'.card.Quiet → b'.card.ccs = b.card.ccs →
      Yields (body k rc) b' fun rc' b'' => Written src off a n b'.card rc' b''.card ∧ b''.card.Quiet) :
    Yields (retry body stop m k rc) b fun rc b' =>
      Written src off a n b.card rc b'.card ∧ b'.card.Quiet := by
  refine Yields.retry (fun _ b' => b.card.Within a (a + n) b'.card ∧ b'.card.Quiet) ⟨.refl _, hq⟩ ?_ m k
  rintro k rc b' ⟨hwithin, hq'⟩
  refine (hbody k rc b' hq' hwithin.ccs).mono fun rc' b'' h => ?_
  have hwritten := Written.earlier hwithin h.1
  exact ⟨⟨hwritten, h.2⟩, fun _ => ⟨hwritten.within, h.2⟩⟩

theorem writeTries_yields {src : Mem} {i : ℕ} (hq : b.card.Quiet) :
    Yields (writeTries cfg src sector i ()) b fun r b' =>
      Written src (i * 512 % 2 ^ 32) (b.card.sector (blkArg cfg (sector + BitVec.ofNat 32 i))) 1 b.card
        r.1 b'.card ∧ b'.card.Quiet := by
  refine Yields.bind ?_ fun rc b' h => .pure h
  refine writeRetry_yields hq fun k rc b' hq' hccs => (sdWriteBlock_yields hq').mono fun rc' b'' h => ?_
  rw [sector_congr hccs] at h
  exact h

theorem writeMultiTries_yields {src : Mem} (hq : b.card.Quiet) (hcfg : cfg.blockaddr = b.card.ccs) :
    Yields (writeMultiTries cfg src sector count) b fun rc b' =>
      (Fits b.card.ccs sector count → Written src 0 sector.toNat count.toNat b.card rc b'.card) ∧
        b'.card.Quiet ∧ b'.card.ccs = b.card.ccs := by
  refine .ite (fun hcount => ?_) fun _ => .pure ⟨fun _ => .failed (by decide) (.refl _), hq, rfl⟩
  have htries : Yields (retry (fun _ _ => sdWriteMulti cfg sector src 0 count) (fun rc => rc == 0)
      (SD_RETRIES - 1) 0 0) b fun rc b' =>
      Written src 0 (b.card.sector (blkArg cfg sector)) count.toNat b.card rc b'.card ∧ b'.card.Quiet := by
    refine writeRetry_yields hq fun k rc b' hq' hccs => (sdWriteMulti_yields hq').mono fun rc' b'' h => ?_
    rw [sector_congr hccs] at h
    exact h
  refine htries.mono fun rc b' h => ⟨fun hfits => ?_, h.2, h.1.within.ccs⟩
  rw [← sector_blkArg_zero hcfg hfits (by omega)]
  exact h.1

/-- **A disk write**, whatever fails in it. -/
theorem accessWrite_yields {src : Mem} (hq : b.card.Quiet) (hcfg : cfg.blockaddr = b.card.ccs) :
    Yields (accessWrite cfg src sector count) b fun rc b' =>
      (Fits b.card.ccs sector count → Written src 0 sector.toNat count.toNat b.card rc b'.card) ∧
        b'.card.Quiet ∧ b'.card.ccs = b.card.ccs := by
  refine .ite (fun _ => .pure ⟨fun _ => .failed (by decide) (.refl _), hq, rfl⟩) fun _ => ?_
  refine (writeMultiTries_yields hq hcfg).bind fun rc b₁ h₁ => .ite (fun hrc => .pure (hrc ▸ h₁)) fun _ => ?_
  -- `j` sectors have been written one by one
  refine (Yields.untilError (fun j _ b' =>
    (Fits b.card.ccs sector count → Written src 0 sector.toNat j b₁.card 0 b'.card) ∧
      b'.card.Quiet ∧ b'.card.ccs = b.card.ccs)
    (E := fun _ b' => (Fits b.card.ccs sector count →
      b₁.card.Within sector.toNat (sector.toNat + count.toNat) b'.card) ∧
      b'.card.Quiet ∧ b'.card.ccs = b.card.ccs)
    ⟨fun _ => .zero, h₁.2⟩ fun j _ b' _ hj h => ?_).bind fun r b₂ h₂ => ?_
  · refine (writeTries_yields h.2.1).mono fun r b'' h' => ?_
    rw [sector_congr h.2.2] at h'
    have hrest : b''.card.Quiet ∧ b''.card.ccs = b.card.ccs := ⟨h'.2, h'.1.within.ccs.trans h.2.2⟩
    have hwritten : Fits b.card.ccs sector count →
        Written src 0 sector.toNat (j + 1) b₁.card r.1 b''.card := by
      intro hfits
      have hone := h'.1
      rw [sector_blkArg hcfg hfits (by omega), offset_of_fits hfits (by omega)] at hone
      refine (h.1 hfits).snoc ?_
      rw [Nat.zero_add]
      exact hone
    refine ⟨fun h0 => ⟨fun hfits => (hwritten hfits).weaken fun _ => h0, hrest⟩,
      fun _ => ⟨fun hfits => (hwritten hfits).within.mono le_rfl (by omega), hrest⟩⟩
  · rw [Nat.zero_add] at h₂
    by_cases h0 : r.1 = 0
    · obtain ⟨hwritten, hrest⟩ := h₂.1 h0
      exact .pure ⟨fun hfits => .earlier (h₁.1 hfits).within ((hwritten hfits).weaken fun _ => rfl), hrest⟩
    · obtain ⟨hwithin, hrest⟩ := h₂.2 h0
      refine .pure ⟨fun hfits => .failed ?_ ((h₁.1 hfits).within.trans (hwithin hfits)), hrest⟩
      rw [if_pos h0]
      decide

/-! ## Any call in any sequence of calls -/

inductive Call where
  | read (buf : Mem) (sector count : BitVec 32)
  | write (src : Mem) (sector count : BitVec 32)

/-- A call, the options set at that time, and what happens on the bus. -/
structure Request where
  cfg : Config
  call : Call
  events : List Event

/-- The card after a call; the mutex of the driver keeps calls apart. -/
def serve (c : Card) (q : Request) : Option Card :=
  match q.call with
  | .read buf sector count =>
    ((accessRead q.cfg buf sector count).run ⟨c, q.events⟩).map fun r => r.2.card
  | .write src sector count =>
    ((accessWrite q.cfg src sector count).run ⟨c, q.events⟩).map fun r => r.2.card

/-- The driver knows how the card is addressed, since its initialization. -/
def Addressed (c : Card) (q : Request) : Prop := q.cfg.blockaddr = c.ccs

theorem quiet_of_reaches {c₀ : Card} (h : Reaches serve Addressed c₀.deselect c) :
    c.Quiet ∧ c.ccs = c₀.ccs := by
  refine @Reaches.invariant _ _ _ _ _ _ (fun c => c.Quiet ∧ c.ccs = c₀.ccs) h ?_
    ⟨c₀.quiet_deselect, rfl⟩
  rintro c c' ⟨cfg, call, events⟩ ⟨hq, hccs⟩ hcfg hserve
  cases call with
  | read buf sector count =>
    obtain ⟨⟨r, b'⟩, hrun, rfl⟩ := Option.map_eq_some_iff.mp hserve
    obtain ⟨-, hq', hs⟩ := accessRead_yields (b := ⟨c, events⟩) hq hcfg r b' hrun
    exact ⟨hq', (ccs_of_store hs).trans hccs⟩
  | write src sector count =>
    obtain ⟨⟨rc, b'⟩, hrun, rfl⟩ := Option.map_eq_some_iff.mp hserve
    obtain ⟨-, hq', hccs'⟩ := accessWrite_yields (b := ⟨c, events⟩) hq hcfg rc b' hrun
    exact ⟨hq', hccs'.trans hccs⟩

/-- What a read's caller may rely on. -/
structure ReadSound (c : Card) (sector count : BitVec 32) (r : ℤ × Mem) (c' : Card) : Prop where
  done : r.1 = 0 → ∀ i < count.toNat,
    r.2.read (512 * i) 512 = c.disk.read (512 * (sector.toNat + i)) 512
  disk : c'.disk = c.disk
  accepted : c'.accepted = c.accepted

/-- What a write's caller may rely on. -/
structure WriteSound (c : Card) (src : Mem) (sector count : BitVec 32) (rc : ℤ) (c' : Card) : Prop where
  accepted : rc = 0 → ∀ i < count.toNat, (sector.toNat + i, src.read (512 * i) 512) ∈ c.newly c'
  done : rc = 0 → ∀ i < count.toNat,
    c'.disk.read (512 * (sector.toNat + i)) 512 = src.read (512 * i) 512
  only : ∀ e ∈ c.newly c', sector.toNat ≤ e.1 ∧ e.1 < sector.toNat + count.toNat
  disk : ∀ p, p < 512 * sector.toNat ∨ 512 * (sector.toNat + count.toNat) ≤ p → c'.disk p = c.disk p

/-- Two stretches of sectors that are the same are so sector by sector. -/
theorem read_sector {m m' : Mem} {p q i n : ℕ} (h : m.read (512 * p) (512 * n) = m'.read (512 * q) (512 * n))
    (hi : i < n) : m.read (512 * (p + i)) 512 = m'.read (512 * (q + i)) 512 := by
  have hpart := congrArg (fun bs => (bs.drop (512 * i)).take 512) h
  simp only [Mem.take_drop_read] at hpart
  rwa [show min 512 (512 * n - 512 * i) = 512 by omega, ← mul_add, ← mul_add] at hpart

/-- A card whose bytes are their addresses. -/
def counting (ccs : Bool) : Card where
  ccs := ccs
  disk p := BitVec.ofNat 8 p
  mode := .idle []
  app := false
  announced := 0
  erased _ := 0xFF
  accepted := []

def bytes (n : ℕ) (rx : Byte) : List Event := List.replicate n (Event.byte rx)

/-- The card's side of a command that it answers with `r1`. -/
def answered (r1 : Byte) : List Event := bytes 7 0xFF ++ bytes 1 r1

/-- …of a sector that it sends in time. -/
def sent (a : ℕ) : List Event :=
  bytes 1 0xFE ++ (((counting true).disk.read (512 * a) 512).map Event.byte ++
    ([Event.late none] ++ bytes 2 0xFF))

/-- …and of a block that it accepts. -/
def taken : List Event :=
  bytes 516 0xFF ++ (bytes 1 0x05 ++ (bytes 1 0x00 ++ ([Event.expired false] ++ bytes 1 0xFF)))

/-- The call writes none of the sectors from `a` to `z`, and no sector by another's address. -/
def Spares (a z : ℕ) (c : Card) (q : Request) : Prop :=
  Addressed c q ∧ ∀ src sector count, q.call = .write src sector count →
    Fits c.ccs sector count ∧ (sector.toNat + count.toNat ≤ a ∨ z ≤ sector.toNat)

/-- `c'` has those sectors as `c` has them, and waits for a command. -/
structure Keeps (a z : ℕ) (c c' : Card) : Prop where
  quiet : c'.Quiet
  ccs : c'.ccs = c.ccs
  disk : ∀ p, 512 * a ≤ p → p < 512 * z → c'.disk p = c.disk p

/-- **One call keeps them**, also one that fails half way. -/
theorem Keeps.serve {a z : ℕ} {c₁ c' : Card} {q : Request} (h : Keeps a z c c₁) (hspares : Spares a z c₁ q)
    (hserve : serve c₁ q = some c') : Keeps a z c c' := by
  obtain ⟨cfg, call, events⟩ := q
  obtain ⟨hcfg, hwrites⟩ := hspares
  cases call with
  | read buf sector count =>
    obtain ⟨⟨r, b'⟩, hrun, rfl⟩ := Option.map_eq_some_iff.mp hserve
    obtain ⟨-, hq, hs⟩ := accessRead_yields (b := ⟨c₁, events⟩) h.quiet hcfg r b' hrun
    refine ⟨hq, (ccs_of_store hs).trans h.ccs, fun p hlo hhi => ?_⟩
    rw [disk_of_store hs]
    exact h.disk p hlo hhi
  | write src sector count =>
    obtain ⟨⟨rc, b'⟩, hrun, rfl⟩ := Option.map_eq_some_iff.mp hserve
    obtain ⟨hwritten, hq, hccs⟩ := accessWrite_yields (b := ⟨c₁, events⟩) h.quiet hcfg rc b' hrun
    obtain ⟨hfits, hapart⟩ := hwrites src sector count rfl
    refine ⟨hq, hccs.trans h.ccs, fun p hlo hhi => ?_⟩
    exact ((hwritten hfits).within.disk p (by omega)).trans (h.disk p hlo hhi)

/-- **What was written is read.**  After a write that was reported as done, and any calls that spare its
sectors, a read that is reported as done returns in each of them what was written. -/
theorem read_returns_written {c₀ c' : Card} (hc : Reaches serve Addressed c₀.deselect c) {src buf m : Mem}
    {events events' : List Event} {b' : Bus} (hcfg : cfg.blockaddr = c.ccs) (hfits : Fits c.ccs sector count)
    (hwrite : (accessWrite cfg src sector count).run ⟨c, events⟩ = some (0, b))
    (hlater : Reaches serve (Spares sector.toNat (sector.toNat + count.toNat)) b.card c')
    {cfg' : Config} {sector' count' : BitVec 32} (hcfg' : cfg'.blockaddr = c.ccs)
    (hfits' : Fits c.ccs sector' count')
    (hread : (accessRead cfg' buf sector' count').run ⟨c', events'⟩ = some ((0, m), b')) {i j : ℕ}
    (hi : i < count.toNat) (hj : j < count'.toNat) (hsame : sector'.toNat + j = sector.toNat + i) :
    m.read (512 * j) 512 = src.read (512 * i) 512 := by
  obtain ⟨hwritten, hq, hccs⟩ := accessWrite_yields (b := ⟨c, events⟩) (quiet_of_reaches hc).1 hcfg 0 b hwrite
  have hkept : Keeps sector.toNat (sector.toNat + count.toNat) b.card c' :=
    hlater.invariant Keeps.serve ⟨hq, rfl, fun _ _ _ => rfl⟩
  have hccs' : c'.ccs = c.ccs := hkept.ccs.trans hccs
  obtain ⟨hfetched, -⟩ := accessRead_yields (b := ⟨c', events'⟩) hkept.quiet (hcfg'.trans hccs'.symm) _ b' hread
  have hgot := read_sector (p := 0) ((hfetched (hccs'.symm ▸ hfits')).content rfl) hj
  have hput := read_sector (q := 0) ((hwritten hfits).content rfl) hi
  rw [Nat.zero_add] at hgot hput
  rw [hgot, hsame, ← hput]
  exact Mem.read_congr fun k hk => hkept.disk _ (by omega) (by omega)

/-- Block 7 is written and read. -/
theorem read_returns_written_seven : ∃ b m b',
    (accessWrite ⟨true, true, true, true⟩ (fun _ => 3) 7 1).run ⟨(counting true).deselect, answered 0 ++ taken⟩
      = some (0, b) ∧
    (accessRead ⟨true, true, true, true⟩ (fun _ => 0) 7 1).run ⟨b.card, answered 0 ++ (bytes 1 0xFE ++
      (bytes 512 3 ++ ([Event.late none] ++ bytes 2 0xFF)))⟩ = some ((0, m), b') ∧
    m.read (512 * 0) 512 = Mem.read (fun _ => 3) (512 * 0) 512 := by
  have hruns : ((accessWrite ⟨true, true, true, true⟩ (fun _ => 3) 7 1).run
      ⟨(counting true).deselect, answered 0 ++ taken⟩).bind (fun r =>
        ((accessRead ⟨true, true, true, true⟩ (fun _ => 0) 7 1).run ⟨r.2.card, answered 0 ++ (bytes 1 0xFE ++
          (bytes 512 3 ++ ([Event.late none] ++ bytes 2 0xFF)))⟩).map fun r' => (r.1, r'.1.1))
      = some (0, 0) := by decide +kernel
  obtain ⟨⟨rc, b⟩, hwrite, hruns⟩ := Option.bind_eq_some_iff.mp hruns
  obtain ⟨⟨⟨rc', m⟩, b'⟩, hread, hends⟩ := Option.map_eq_some_iff.mp hruns
  obtain ⟨rfl, rfl⟩ : rc = 0 ∧ rc' = 0 := by simpa using hends
  refine ⟨b, m, b', hwrite, hread, ?_⟩
  exact read_returns_written (show Reaches serve Addressed (counting true).deselect _ from .refl) rfl (by decide)
    hwrite .refl rfl (by decide) hread Nat.one_pos Nat.one_pos rfl

end KlaussRuntime.Disk
