import KlaussRuntime.Disk.Wire

/-!
# Disk/Protocol — the rules of a transaction with an SD card

`Mon` reads the log of the bus from outside, knowing nothing of the driver: which bytes are a command,
its answer or a data block, what the chip select and the mutex are, and what a command has opened.  Its
`step` refuses an event that breaks a rule:

* with the mutex free nothing is done, and the mutex is not freed with the chip select low;
* the chip select is not raised in the middle of something: an accepted `CMD18` is closed by a `CMD12`, an
  accepted `CMD25` by a stop token, an accepted `CMD24` by its block; nothing closes what is not open, and
  no other command comes in between;
* with the chip select high only the power-up clocks are sent: `0xFF`, ten at most, and the next command
  is then `CMD0`;
* a command other than `CMD0` and `CMD12` begins right after a transfer that returned `0xFF`.
-/

namespace KlaussRuntime.Disk.Pins

open Machinery

/-- What a command has opened. -/
inductive Opened where
  | nothing
  | read
  | write
  | writeMulti
  deriving DecidableEq

inductive Pos where
  | between
  /-- so many bytes of this command are still to come -/
  | command (cmd : Byte) (left : ℕ)
  /-- its R1 comes within so many bytes -/
  | answer (cmd : Byte) (left : ℕ)
  /-- so many bytes of a data block and its CRC are still to come -/
  | data (left : ℕ)
  deriving DecidableEq

structure Mon where
  pos : Pos
  opened : Opened
  /-- what the last transfer returned -/
  last : Byte
  /-- the chip select is low -/
  selected : Bool
  /-- the power-up clocks sent since the last command -/
  clocks : ℕ
  /-- the mutex is taken -/
  locked : Bool
  deriving DecidableEq

/-- What a command opens when it is accepted. -/
def opens (cmd : Byte) : Opened :=
  if cmd = 18 then .read else if cmd = 24 then .write else if cmd = 25 then .writeMulti else .nothing

/-- What a command closes, and without which it must not come. -/
def closes (cmd : Byte) : Opened := if cmd = 12 then .read else .nothing

namespace Mon

/-- The first byte of a command. -/
def begin (m : Mon) (cmd : Byte) : Option Mon :=
  if (cmd = 0 ∨ cmd = 12 ∨ m.last = 0xFF) ∧ (cmd = 0 ∨ m.clocks = 0) ∧ m.opened = closes cmd then
    some { m with pos := .command cmd 5, opened := .nothing, clocks := 0 }
  else none

/-- A transfer between commands and blocks. -/
def idleByte (m : Mon) (tx : Byte) : Option Mon :=
  if tx = 0xFF then some m
  else if tx &&& 0xC0 = 0x40 then m.begin (tx &&& 0x3F)
  else if tx = 0xFE ∧ m.opened = .write then some { m with pos := .data 514, opened := .nothing }
  else if tx = 0xFC ∧ m.opened = .writeMulti then some { m with pos := .data 514 }
  else if tx = 0xFD ∧ m.opened = .writeMulti then some { m with opened := .nothing }
  else none

/-- A transfer with the card selected. -/
def exchange (m : Mon) (tx rx : Byte) : Option Mon :=
  match m.pos with
  | .between => m.idleByte tx
  | .command cmd left => some { m with pos := if left ≤ 1 then .answer cmd 8 else .command cmd (left - 1) }
  | .answer cmd left =>
    if tx ≠ 0xFF then none
    else if rx &&& 0x80 = 0 then
      some { m with pos := .between, opened := if rx = 0 then opens cmd else .nothing }
    else some { m with pos := if left ≤ 1 then .between else .answer cmd (left - 1) }
  | .data left => some { m with pos := if left ≤ 1 then .between else .data (left - 1) }

/-- A power-up clock. -/
def clock (m : Mon) (tx : Byte) : Option Mon :=
  if tx = 0xFF ∧ m.clocks < 10 then some { m with clocks := m.clocks + 1 } else none

/-- Nothing is under way. -/
def quiet (m : Mon) : Bool := m.pos = .between ∧ m.opened = .nothing ∧ m.clocks = 0

def step (m : Mon) : Ev → Option Mon
  | .lock => if m.locked then none else some { m with locked := true }
  | .unlock => if m.locked ∧ ¬ m.selected ∧ m.quiet then some { m with locked := false } else none
  | .ctrl v =>
    if ¬ m.locked then none
    else if v &&& CS_HI = 0 then some { m with selected := true }
    else if m.quiet then some { m with selected := false }
    else none
  | .xfer tx rx =>
    if ¬ m.locked then none
    else (if m.selected then m.exchange tx rx else m.clock tx).map fun m => { m with last := rx }

def run (m : Mon) (log : List Ev) : Option Mon := log.foldlM step m

/-- Before the first call, with the chip select as it is after reset. -/
def start (ctrl : BitVec 32) : Mon := ⟨.between, .nothing, 0, ctrl &&& CS_HI = 0, 0, false⟩

theorem run_concat (m : Mon) (log : List Ev) (ev : Ev) :
    m.run (log ++ [ev]) = (m.run log).bind fun m => m.step ev := by
  rw [run, List.foldlM_append]
  congr 1
  funext m
  rw [List.foldlM_cons]
  cases m.step ev <;> rfl

section Locked

variable {m m' : Mon} {tx rx : Byte}

theorem begin_locked {cmd : Byte} (h : m.begin cmd = some m') : m'.locked = m.locked := by
  rw [begin] at h
  split_ifs at h
  cases h
  rfl

theorem exchange_locked (h : m.exchange tx rx = some m') : m'.locked = m.locked := by
  rw [exchange] at h
  split at h
  · rw [idleByte] at h
    split_ifs at h
    · cases h; rfl
    · exact begin_locked h
    all_goals cases h; rfl
  · cases h; rfl
  · split_ifs at h <;> cases h <;> rfl
  · cases h; rfl

theorem clock_locked (h : m.clock tx = some m') : m'.locked = m.locked := by
  rw [clock] at h
  split_ifs at h
  cases h
  rfl

end Locked

theorem step_high {m m' : Mon} {ev : Ev} (h : m.step ev = some m') (hfree : m'.locked = false) :
    m'.selected = false := by
  cases ev with
  | lock =>
    rw [step] at h
    split_ifs at h
    cases h
    cases hfree
  | unlock =>
    rw [step] at h
    split_ifs at h with hc
    cases h
    simpa using hc.2.1
  | ctrl v =>
    rw [step] at h
    split_ifs at h with hl <;> cases h <;> exact absurd hl (Bool.eq_false_iff.mp hfree)
  | xfer tx rx =>
    rw [step] at h
    split_ifs at h with hl hs
    · obtain ⟨m₁, hm₁, rfl⟩ := Option.map_eq_some_iff.mp h
      exact absurd hl (Bool.eq_false_iff.mp ((exchange_locked hm₁).symm.trans hfree))
    · obtain ⟨m₁, hm₁, rfl⟩ := Option.map_eq_some_iff.mp h
      exact absurd hl (Bool.eq_false_iff.mp ((clock_locked hm₁).symm.trans hfree))

/-- **With the mutex free the chip select is high**, at every point of a log that keeps to the rules, if
it is at the start. -/
theorem run_high {m m' : Mon} {log : List Ev} (h : m.run log = some m')
    (hm : m.locked = false → m.selected = false) : m'.locked = false → m'.selected = false := by
  obtain rfl | ⟨log, ev, rfl⟩ := log.eq_nil_or_concat
  · cases h
    exact hm
  · rw [List.concat_eq_append, run_concat] at h
    obtain ⟨m₁, _, hstep⟩ := Option.bind_eq_some_iff.mp h
    exact step_high hstep

end Mon

end KlaussRuntime.Disk.Pins
