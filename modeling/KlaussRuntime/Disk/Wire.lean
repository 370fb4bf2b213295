import KlaussRuntime.Disk.SdDriver
import KlaussRuntime.Machinery.Cut

/-!
# Disk/Wire — what goes over the SPI bus to an SD card

Both SD drivers work the controller's two registers: a write to `DATA` exchanges one byte with the
card, and `CTRL` holds the clock divider, the chip select and the card's power.  A `Wire` keeps the
log of all that has been done.  What the card answers, and whether a deadline has passed or a pipelined
read was late, may depend on the whole log and on nothing else: an `Env` is any such behaviour.
-/

namespace KlaussRuntime.Disk.Pins

open Machinery

inductive Ev where
  /-- a byte sent and the byte received with it -/
  | xfer (tx rx : Byte)
  /-- a write to `REG_SD_CTRL` -/
  | ctrl (v : BitVec 32)
  /-- `sd_mutex`, which only the Zephyr driver has, is taken -/
  | lock
  | unlock
  deriving DecidableEq

structure Env where
  /-- the card's next byte -/
  byte : List Ev → Byte
  /-- `k_uptime_get() >= end` -/
  expired : List Ev → Bool
  /-- a pipelined block read finds the bus idle -/
  late : List Ev → Bool

structure Wire where
  env : Env
  /-- `REG_SD_CTRL` -/
  ctrl : BitVec 32
  log : List Ev

def CS_HI : BitVec 32 := 1 <<< 16

def PWR_ON : BitVec 32 := 1 <<< 17

/-! ## The controller -/

def spiXfer (tx : Byte) : Cut Wire Byte := do
  let w ← Cut.get
  let rx := w.env.byte w.log
  Cut.modify fun w => { w with log := w.log ++ [.xfer tx rx] }
  return rx

def setCtrl (v : BitVec 32) : Cut Wire Unit :=
  Cut.modify fun w => { w with ctrl := v, log := w.log ++ [.ctrl v] }

def csAssert : Cut Wire Unit := do
  let w ← Cut.get
  setCtrl (w.ctrl &&& 0xFFFF ||| PWR_ON)

def csDeassert : Cut Wire Unit := do
  let w ← Cut.get
  setCtrl (w.ctrl &&& 0xFFFF ||| CS_HI ||| PWR_ON)

/-- Bytes whose answers are not looked at. -/
def txBytes : List Byte → Cut Wire Unit
  | [] => return ()
  | tx :: bs => do
    let _ ← spiXfer tx
    txBytes bs

def rxBytes : ℕ → Cut Wire (List Byte)
  | 0 => return []
  | n + 1 => do
    let b ← spiXfer 0xFF
    let bs ← rxBytes n
    return b :: bs

/-- The loop for R1. -/
def pollR1 : ℕ → Cut Wire Byte
  | 0 => return 0xFF
  | n + 1 => do
    let r ← spiXfer 0xFF
    if r &&& 0x80 = 0 then return r else pollR1 n

/-- Clock the bus until a byte meets `stop`, so many times at most. -/
def tryFor (stop : Byte → Bool) : ℕ → Cut Wire (Option Byte)
  | 0 => return none
  | n + 1 => do
    let r ← spiXfer 0xFF
    if stop r then return some r else tryFor stop n

/-! ## What they leave in the log -/

/-- Bytes sent, and the answers. -/
def sends (txs rxs : List Byte) : List Ev := List.zipWith .xfer txs rxs

/-- Answers to `0xFF`. -/
def fills (rxs : List Byte) : List Ev := rxs.map (.xfer 0xFF)

/-- The log has grown by `seg`. -/
structure Adds (w : Wire) (seg : List Ev) (w' : Wire) : Prop where
  env : w'.env = w.env
  log : w'.log = w.log ++ seg

namespace Adds

variable {w w' w'' : Wire} {seg seg' : List Ev}

theorem refl (w : Wire) : Adds w [] w := ⟨rfl, (List.append_nil _).symm⟩

theorem trans (h : Adds w seg w') (h' : Adds w' seg' w'') : Adds w (seg ++ seg') w'' :=
  ⟨h'.env.trans h.env, by rw [h'.log, h.log, List.append_assoc]⟩

end Adds

/-- These are the card's answers, one after the other. -/
def Answers (w : Wire) (rxs : List Byte) : Prop :=
  ∀ k b, rxs[k]? = some b → b = w.env.byte (w.log ++ fills (rxs.take k))

theorem Answers.nil (w : Wire) : Answers w [] := fun k b h => by simp at h

theorem Answers.cons {w w' : Wire} {r : Byte} {rxs : List Byte} (hr : r = w.env.byte w.log)
    (hw : Adds w [.xfer 0xFF r] w') (h : Answers w' rxs) : Answers w (r :: rxs) := by
  intro k b hk
  cases k with
  | zero =>
    rw [List.getElem?_cons_zero, Option.some.injEq] at hk
    rw [← hk, hr, List.take_zero, fills, List.map_nil, List.append_nil]
  | succ k =>
    rw [h k b hk, hw.env, hw.log, List.append_assoc]
    rfl

section Specs

variable {I : Wire → Prop} {w : Wire}

theorem spiXfer_spec (tx : Byte) :
    Safe I (spiXfer tx) w fun r w' => r = w.env.byte w.log ∧ Adds w [.xfer tx r] w' :=
  .of_run rfl ⟨rfl, rfl, rfl⟩

theorem csAssert_spec : Safe I csAssert w fun _ w' => ∃ v, Adds w [.ctrl v] w' :=
  .of_run rfl ⟨_, rfl, rfl⟩

theorem csDeassert_spec : Safe I csDeassert w fun _ w' => ∃ v, Adds w [.ctrl v] w' :=
  .of_run rfl ⟨_, rfl, rfl⟩

theorem txBytes_spec (bs : List Byte) : ∀ {w : Wire}, Safe I (txBytes bs) w fun _ w' =>
    ∃ rxs, rxs.length = bs.length ∧ Adds w (sends bs rxs) w' := by
  induction bs with
  | nil => exact fun {w} => Safe.pure ⟨[], rfl, Adds.refl w⟩
  | cons tx bs ih =>
    intro w
    refine (spiXfer_spec tx).bind fun r w₁ ⟨_, h₁⟩ => ih.mono fun _ w₂ ⟨rxs, hlen, h₂⟩ => ?_
    exact ⟨r :: rxs, by rw [List.length_cons, hlen, List.length_cons], h₁.trans h₂⟩

theorem rxBytes_spec (n : ℕ) : ∀ {w : Wire}, Safe I (rxBytes n) w fun bs w' =>
    bs.length = n ∧ Adds w (fills bs) w' := by
  induction n with
  | zero => exact fun {w} => Safe.pure ⟨rfl, Adds.refl w⟩
  | succ n ih =>
    intro w
    refine (spiXfer_spec 0xFF).bind fun r w₁ ⟨_, h₁⟩ => ih.bind fun bs w₂ ⟨hlen, h₂⟩ => ?_
    exact Safe.pure ⟨by rw [List.length_cons, hlen], h₁.trans h₂⟩

/-- **A bounded wait**: the byte waited for after others, or as many others as there were tries. -/
theorem tryFor_spec (stop : Byte → Bool) (n : ℕ) : ∀ {w : Wire}, Safe I (tryFor stop n) w fun r w' =>
    ∃ gap, (∀ x ∈ gap, stop x = false) ∧ Answers w gap ∧
      match r with
      | some b => b = w.env.byte (w.log ++ fills gap) ∧ stop b = true ∧ Adds w (fills (gap ++ [b])) w'
      | none => gap.length = n ∧ Adds w (fills gap) w' := by
  induction n with
  | zero => exact fun {w} => Safe.pure ⟨[], by simp, Answers.nil w, rfl, Adds.refl w⟩
  | succ n ih =>
    intro w
    refine (spiXfer_spec 0xFF).bind fun r w₁ ⟨hr, h₁⟩ => .ite (fun hstop => ?_) fun hgo => ?_
    · exact Safe.pure ⟨[], by simp, Answers.nil w, by rw [hr]; simp [fills], hstop, h₁⟩
    · have hstop : stop r = false := by simpa using hgo
      refine ih.mono fun res w₂ ⟨gap, hgap, hans, hres⟩ =>
        ⟨r :: gap, List.forall_mem_cons.mpr ⟨hstop, hgap⟩, hans.cons hr h₁, ?_⟩
      cases res with
      | some b =>
        obtain ⟨hb, hstop, h₂⟩ := hres
        refine ⟨?_, hstop, h₁.trans h₂⟩
        rw [hb, h₁.env, h₁.log, List.append_assoc]
        rfl
      | none => exact ⟨by rw [List.length_cons, hres.1], h₁.trans hres.2⟩

/-- The answer to a command is the first byte with its top bit clear. -/
theorem pollR1_spec (n : ℕ) : ∀ {w : Wire}, Safe I (pollR1 n) w fun r w' => ∃ gap rest,
    (∀ x ∈ gap, x &&& 0x80 ≠ 0) ∧ (r &&& 0x80 = 0 → rest = [r]) ∧ Adds w (fills (gap ++ rest)) w' := by
  induction n with
  | zero => exact fun {w} => Safe.pure ⟨[], [], by simp, fun h => absurd h (by decide), Adds.refl w⟩
  | succ n ih =>
    intro w
    refine (spiXfer_spec 0xFF).bind fun r w₁ ⟨_, h₁⟩ => .ite (fun hclear => ?_) fun hset => ?_
    · exact Safe.pure ⟨[], [r], by simp, fun _ => rfl, h₁⟩
    · refine ih.mono fun res w₂ ⟨gap, rest, hgap, hrest, h₂⟩ => ?_
      exact ⟨r :: gap, rest, List.forall_mem_cons.mpr ⟨hset, hgap⟩, hrest, h₁.trans h₂⟩

end Specs

end KlaussRuntime.Disk.Pins
