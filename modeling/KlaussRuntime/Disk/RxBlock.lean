import KlaussRuntime.Machinery.Machine
import KlaussRuntime.Machinery.Memory

/-!
# Disk/RxBlock — reading a data block through the SPI controller

The controller shifts a byte in and copies it into its `DATA` latch when it completes.  `sd_rx_block` in
pipelined mode starts byte `i + 1` *before* it reads byte `i` out of the latch, so a byte that completes
too early replaces one that has not been read.  It looks at `STATUS` after each read: a bus that is still
busy then was busy at the read.

A `Sys` is the controller and where the CPU stands in `sd_rx_block`.  Every register access is a step,
and the byte under way completes between any two of them.  The invariant `Sys.Sound` says which byte is
under way, and that the bytes in the buffer are the card's unless the loop has seen an idle bus.
-/

namespace KlaussRuntime.Disk

open Machinery

/-! ## The controller -/

structure Spi where
  /-- `REG_SD_DATA`, as read -/
  latch : Byte
  /-- the byte being shifted in -/
  shifting : Option Byte
  /-- how many bytes of the card's have been started -/
  started : ℕ

namespace Spi

/-- `SD_STATUS_BUSY`. -/
def busy (spi : Spi) : Bool := spi.shifting.isSome

/-- A write to `DATA` starts the card's next byte. -/
def start (card : ℕ → Byte) (spi : Spi) : Spi :=
  if spi.busy then spi else { spi with shifting := some (card spi.started), started := spi.started + 1 }

/-- The byte under way is through. -/
def complete (spi : Spi) : Option Spi :=
  spi.shifting.map fun b => { spi with latch := b, shifting := none }

end Spi

/-! ## `sd_rx_block` -/

/-- Where the CPU is in `sd_rx_block`: `i` is the loop's, and `buf` has the bytes stored so far. -/
inductive Pc where
  /-- the plain loop: `spi_xfer` writes `DATA`, -/
  | xfer (i : ℕ) (buf : List Byte)
  /-- waits for the bus -/
  | xferWait (i : ℕ) (buf : List Byte)
  /-- and reads `DATA` -/
  | xferRead (i : ℕ) (buf : List Byte)
  /-- the pipelined loop: the first byte is started -/
  | first
  | wait (i : ℕ) (late : Bool) (buf : List Byte)
  /-- byte `i + 1` is started -/
  | start (i : ℕ) (late : Bool) (buf : List Byte)
  /-- byte `i` is read -/
  | read (i : ℕ) (late : Bool) (buf : List Byte)
  /-- is byte `i + 1` still shifting? -/
  | status (i : ℕ) (late : Bool) (buf : List Byte) (b : Byte)
  | lastWait (late : Bool) (buf : List Byte)
  | lastRead (late : Bool) (buf : List Byte)
  | done (rc : ℤ) (buf : List Byte)

/-- What the call has returned, and left in the buffer. -/
def Pc.returned : Pc → Option (ℤ × List Byte)
  | .done rc buf => some (rc, buf)
  | _ => none

structure Sys where
  spi : Spi
  pc : Pc

inductive Act where
  /-- the CPU makes its next register access -/
  | cpu
  /-- the byte under way completes -/
  | complete

def cpuStep (card : ℕ → Byte) (spi : Spi) : Pc → Option Sys
  | .xfer i buf => some ⟨spi.start card, .xferWait i buf⟩
  | .xferWait i buf => some ⟨spi, if spi.busy then .xferWait i buf else .xferRead i buf⟩
  | .xferRead i buf =>
    some ⟨spi, if i + 1 < 512 then .xfer (i + 1) (buf ++ [spi.latch]) else .done 0 (buf ++ [spi.latch])⟩
  | .first => some ⟨spi.start card, .wait 0 false []⟩
  | .wait i late buf => some ⟨spi, if spi.busy then .wait i late buf else .start i late buf⟩
  | .start i late buf => some ⟨spi.start card, .read i late buf⟩
  | .read i late buf => some ⟨spi, .status i late buf spi.latch⟩
  | .status i late buf b => some ⟨spi,
      if i + 1 < 511 then .wait (i + 1) (late || !spi.busy) (buf ++ [b])
      else .lastWait (late || !spi.busy) (buf ++ [b])⟩
  | .lastWait late buf => some ⟨spi, if spi.busy then .lastWait late buf else .lastRead late buf⟩
  | .lastRead late buf => some ⟨spi, .done (if late then -5 else 0) (buf ++ [spi.latch])⟩
  | .done _ _ => none

def step (card : ℕ → Byte) (s : Sys) : Act → Option Sys
  | .cpu => cpuStep card s.spi s.pc
  | .complete => s.spi.complete.map fun spi => { s with spi }

/-- `sd_rx_block(buf, pipe)` is called with the bus idle, after `k` bytes of the card's. -/
def Sys.call (pipe : Bool) (latch : Byte) (k : ℕ) : Sys :=
  ⟨⟨latch, none, k⟩, if pipe then .first else .xfer 0 []⟩

/-! ## Which byte is where -/

section

variable {card : ℕ → Byte} {spi spi' : Spi} {j k i : ℕ} {buf : List Byte} {late : Bool} {b : Byte}

/-- Nothing is under way, and byte `j` is the next. -/
structure Spi.Idle (spi : Spi) (j : ℕ) : Prop where
  shifting : spi.shifting = none
  started : spi.started = j

/-- Byte `j` was started last, and is under way or in the latch. -/
structure Spi.Last (card : ℕ → Byte) (spi : Spi) (j : ℕ) : Prop where
  started : spi.started = j + 1
  lands : spi.shifting = some (card j) ∨ spi.shifting = none ∧ spi.latch = card j

/-- …and is in the latch. -/
structure Spi.Landed (card : ℕ → Byte) (spi : Spi) (j : ℕ) : Prop where
  shifting : spi.shifting = none
  started : spi.started = j + 1
  latch : spi.latch = card j

theorem Spi.Landed.idle (h : spi.Landed card j) : spi.Idle (j + 1) := ⟨h.shifting, h.started⟩

theorem Spi.Idle.start_eq (h : spi.Idle j) :
    spi.start card = { spi with shifting := some (card j), started := j + 1 } := by
  have hidle : spi.busy = false := by rw [Spi.busy, h.shifting]; rfl
  rw [Spi.start, hidle, if_neg Bool.false_ne_true, h.started]

theorem Spi.Idle.start (h : spi.Idle j) : (spi.start card).Last card j := by
  rw [h.start_eq]
  exact ⟨rfl, .inl rfl⟩

theorem Spi.Last.landed (h : spi.Last card j) (hidle : ¬ spi.busy = true) : spi.Landed card j := by
  have hnone : spi.shifting = none := by simpa [Spi.busy] using hidle
  rcases h.lands with hshift | ⟨-, hlatch⟩
  · rw [hnone] at hshift
    cases hshift
  · exact ⟨hnone, h.started, hlatch⟩

theorem Spi.Last.complete (h : spi.Last card j) (hspi : spi.complete = some spi') : spi'.Last card j := by
  obtain ⟨b, hb, rfl⟩ := Option.map_eq_some_iff.mp hspi
  rcases h.lands with hshift | ⟨hnone, -⟩
  · exact ⟨h.started, .inr ⟨rfl, Option.some.inj (hb.symm.trans hshift)⟩⟩
  · rw [hnone] at hb
    cases hb

/-- The first `i` bytes of the block are stored, and are the card's from byte `k` on unless the loop was
late. -/
structure Stored (card : ℕ → Byte) (k i : ℕ) (late : Bool) (buf : List Byte) : Prop where
  length : buf.length = i
  exact : late = false → buf = Mem.read card k i

theorem Stored.nil : Stored card k 0 late [] := ⟨rfl, fun _ => rfl⟩

theorem Stored.snoc {late' : Bool} (h : Stored card k i late buf)
    (hb : late' = false → late = false ∧ b = card (k + i)) : Stored card k (i + 1) late' (buf ++ [b]) where
  length := by rw [List.length_append, h.length, List.length_singleton]
  exact hlate := by
    obtain ⟨hin, rfl⟩ := hb hlate
    rw [Mem.read_add, ← h.exact hin]
    rfl

/-! ## The invariant -/

/-- **What is where at each place of the code**, for a call after `k` bytes of the card's: the loop at `i`
waits for byte `k + i`. -/
def Sound (card : ℕ → Byte) (k : ℕ) (spi : Spi) : Pc → Prop
  | .xfer i buf => i < 512 ∧ spi.Idle (k + i) ∧ Stored card k i false buf
  | .xferWait i buf => i < 512 ∧ spi.Last card (k + i) ∧ Stored card k i false buf
  | .xferRead i buf => i < 512 ∧ spi.Landed card (k + i) ∧ Stored card k i false buf
  | .first => spi.Idle k
  | .wait i late buf => i < 511 ∧ spi.Last card (k + i) ∧ Stored card k i late buf
  | .start i late buf => i < 511 ∧ spi.Landed card (k + i) ∧ Stored card k i late buf
  | .read i late buf =>
    i < 511 ∧ spi.Last card (k + i + 1) ∧ (spi.busy = true → spi.latch = card (k + i)) ∧
      Stored card k i late buf
  | .status i late buf b =>
    i < 511 ∧ spi.Last card (k + i + 1) ∧ (spi.busy = true → b = card (k + i)) ∧
      Stored card k i late buf
  | .lastWait late buf => spi.Last card (k + 511) ∧ Stored card k 511 late buf
  | .lastRead late buf => spi.Landed card (k + 511) ∧ Stored card k 511 late buf
  | .done rc buf => spi.Idle (k + 512) ∧ ∃ late, rc = (if late then -5 else 0) ∧ Stored card k 512 late buf

theorem Sound.call (card : ℕ → Byte) (pipe : Bool) (latch : Byte) (k : ℕ) :
    Sound card k (Sys.call pipe latch k).spi (Sys.call pipe latch k).pc := by
  cases pipe with
  | true => exact ⟨rfl, rfl⟩
  | false => exact ⟨by decide, ⟨rfl, rfl⟩, .nil⟩

/-- A byte that completes replaces the latch; it is the byte that was started last. -/
theorem Sound.complete {pc : Pc} (h : Sound card k spi pc) (hspi : spi.complete = some spi') :
    Sound card k spi' pc := by
  have hidle (hnone : spi.shifting = none) : False := by
    rw [Spi.complete, hnone] at hspi
    cases hspi
  have hgone : spi'.busy = false := by
    obtain ⟨b, -, rfl⟩ := Option.map_eq_some_iff.mp hspi
    rfl
  cases pc with
  | xfer i buf => exact (hidle h.2.1.shifting).elim
  | xferWait i buf => exact ⟨h.1, h.2.1.complete hspi, h.2.2⟩
  | xferRead i buf => exact (hidle h.2.1.shifting).elim
  | first => exact (hidle h.shifting).elim
  | wait i late buf => exact ⟨h.1, h.2.1.complete hspi, h.2.2⟩
  | start i late buf => exact (hidle h.2.1.shifting).elim
  | read i late buf =>
    obtain ⟨hi, hlast, -, hbuf⟩ := h
    exact ⟨hi, hlast.complete hspi, fun hbusy => absurd (hgone.symm.trans hbusy) Bool.false_ne_true, hbuf⟩
  | status i late buf b =>
    obtain ⟨hi, hlast, -, hbuf⟩ := h
    exact ⟨hi, hlast.complete hspi, fun hbusy => absurd (hgone.symm.trans hbusy) Bool.false_ne_true, hbuf⟩
  | lastWait late buf => exact ⟨h.1.complete hspi, h.2⟩
  | lastRead late buf => exact (hidle h.1.shifting).elim
  | done rc buf => exact (hidle h.1.shifting).elim

/-- **The read of `STATUS` settles byte `i`**: a bus still busy was busy when the byte was read. -/
theorem Stored.status (h : Stored card k i late buf) (hb : spi.busy = true → b = card (k + i)) :
    Stored card k (i + 1) (late || !spi.busy) (buf ++ [b]) := by
  refine h.snoc fun hlate => ?_
  obtain ⟨hin, hbusy⟩ := Bool.or_eq_false_iff.mp hlate
  exact ⟨hin, hb (by simpa using hbusy)⟩

theorem Sound.cpu {pc : Pc} {s : Sys} (h : Sound card k spi pc) (hstep : cpuStep card spi pc = some s) :
    Sound card k s.spi s.pc := by
  cases pc with
  | xfer i buf =>
    cases hstep
    exact ⟨h.1, h.2.1.start, h.2.2⟩
  | xferWait i buf =>
    cases hstep
    by_cases hbusy : spi.busy = true
    · simpa only [if_pos hbusy] using h
    · simpa only [if_neg hbusy] using ⟨h.1, h.2.1.landed hbusy, h.2.2⟩
  | xferRead i buf =>
    cases hstep
    obtain ⟨hi, hlanded, hbuf⟩ := h
    have hbuf' : Stored card k (i + 1) false _ := hbuf.snoc fun _ => ⟨rfl, hlanded.latch⟩
    by_cases hmore : i + 1 < 512
    · simpa only [if_pos hmore] using ⟨hmore, hlanded.idle, hbuf'⟩
    · obtain rfl : i = 511 := by omega
      exact ⟨hlanded.idle, false, rfl, hbuf'⟩
  | first =>
    cases hstep
    exact ⟨by decide, h.start, .nil⟩
  | wait i late buf =>
    cases hstep
    by_cases hbusy : spi.busy = true
    · simpa only [if_pos hbusy] using h
    · simpa only [if_neg hbusy] using ⟨h.1, h.2.1.landed hbusy, h.2.2⟩
  | start i late buf =>
    cases hstep
    obtain ⟨hi, hlanded, hbuf⟩ := h
    refine ⟨hi, hlanded.idle.start, fun _ => ?_, hbuf⟩
    rw [hlanded.idle.start_eq]
    exact hlanded.latch
  | read i late buf =>
    cases hstep
    exact h
  | status i late buf b =>
    cases hstep
    obtain ⟨hi, hlast, hb, hbuf⟩ := h
    by_cases hmore : i + 1 < 511
    · simpa only [if_pos hmore] using ⟨hmore, hlast, hbuf.status hb⟩
    · obtain rfl : i = 510 := by omega
      exact ⟨hlast, hbuf.status hb⟩
  | lastWait late buf =>
    cases hstep
    by_cases hbusy : spi.busy = true
    · simpa only [if_pos hbusy] using h
    · simpa only [if_neg hbusy] using ⟨h.1.landed hbusy, h.2⟩
  | lastRead late buf =>
    cases hstep
    obtain ⟨hlanded, hbuf⟩ := h
    exact ⟨hlanded.idle, late, rfl, hbuf.snoc fun hlate => ⟨hlate, hlanded.latch⟩⟩
  | done rc buf => cases hstep

end

/-! ## Main results -/

variable {card : ℕ → Byte} {pipe : Bool} {latch : Byte} {k : ℕ} {s : Sys} {buf : List Byte}

theorem sound_of_reaches (h : Reaches (step card) anyStep (Sys.call pipe latch k) s) :
    Sound card k s.spi s.pc := by
  refine @Reaches.invariant _ _ _ _ _ _ (fun s => Sound card k s.spi s.pc) h (fun {s s' a} hs _ hstep => ?_)
    (Sound.call card pipe latch k)
  cases a with
  | cpu => exact hs.cpu hstep
  | complete =>
    obtain ⟨spi', hspi, rfl⟩ := Option.map_eq_some_iff.mp hstep
    exact hs.complete hspi

/-- **What `sd_rx_block` returns**, in either mode and for every timing: the bus is idle after 512 bytes,
and the result is -5 where the buffer may hold something else. -/
theorem returns_of_reaches (h : Reaches (step card) anyStep (Sys.call pipe latch k) s) {rc : ℤ}
    (hret : s.pc.returned = some (rc, buf)) :
    s.spi.Idle (k + 512) ∧ buf.length = 512 ∧ (rc = 0 ∧ buf = Mem.read card k 512 ∨ rc = -5) := by
  have hsound := sound_of_reaches h
  cases hpc : s.pc with
  | done rc' buf' =>
    rw [hpc] at hsound hret
    cases hret
    obtain ⟨hidle, late, hrc, hbuf⟩ := hsound
    refine ⟨hidle, hbuf.length, ?_⟩
    cases late with
    | false => exact .inl ⟨hrc, hbuf.exact rfl⟩
    | true => exact .inr hrc
  | _ =>
    rw [hpc] at hret
    cases hret

/-- **Every overrun is detected**: a pipelined read that returns 0 has stored the card's 512 bytes. -/
theorem pipelined_read_exact (h : Reaches (step card) anyStep (Sys.call true latch k) s)
    (hret : s.pc.returned = some (0, buf)) : buf = Mem.read card k 512 := by
  obtain ⟨-, -, ⟨-, hbuf⟩ | hrc⟩ := returns_of_reaches h hret
  · exact hbuf
  · exact absurd hrc (by decide)

/-- Byte `i + 1` completes after byte `i` is read, in every round. -/
def timely : List Act :=
  Act.cpu :: (List.replicate 511 [Act.complete, .cpu, .cpu, .cpu, .cpu]).flatten ++
    [Act.complete, .cpu, .cpu]

/-- A read that keeps up returns 0. -/
theorem pipelined_read_exact_timely :
    ∃ (s : Sys) (buf : List Byte), s.pc.returned = some (0, buf) ∧
      buf = Mem.read (BitVec.ofNat 8) 3 512 := by
  have hend : ((runAll (step (BitVec.ofNat 8)) anyStep (Sys.call true 0xFF 3) timely).bind
      (·.pc.returned)).map Prod.fst = some 0 := by decide +kernel
  obtain ⟨⟨rc, buf⟩, hbind, rfl⟩ := Option.map_eq_some_iff.mp hend
  obtain ⟨s, hrun, hret⟩ := Option.bind_eq_some_iff.mp hbind
  exact ⟨s, buf, hret, pipelined_read_exact (.of_runAll timely hrun) hret⟩

end KlaussRuntime.Disk
