import KlaussRuntime.Machinery.Bytes
import KlaussRuntime.Machinery.Machine
import KlaussRuntime.Machinery.Queue

/-!
# Doom/Keys — the key ring between the VNC thread and Doom

`on_key` stores a key event into `key_queue[key_wr]` and then moves `key_wr` on; `DG_GetKey` takes the event
at `key_rd` unless the two indices are equal.  Every access to the ring and to its indices is a step here, of
either thread, so a run is any interleaving of the two.

Nothing holds `on_key` back: the index goes round and says nothing about how many events wait.  While fewer
than 16 do, the ring is a queue (`Keys.Holds`), and the events come out as they went in.  The sixteenth makes
the indices equal, and the ring looks empty.
-/

namespace KlaussRuntime.Doom

open Machinery

/-! ## Key events -/

/-- The key codes of `doomkeys.h` that the mapping uses. -/
structure Codes where
  enter : Byte
  escape : Byte
  leftarrow : Byte
  rightarrow : Byte
  uparrow : Byte
  downarrow : Byte
  fire : Byte
  use : Byte
  rshift : Byte
  backspace : Byte

def keysymToDoom (codes : Codes) (k : BitVec 32) : Byte :=
  if k = 0xff0d then codes.enter
  else if k = 0xff1b then codes.escape
  else if k = 0xff51 then codes.leftarrow
  else if k = 0xff53 then codes.rightarrow
  else if k = 0xff52 then codes.uparrow
  else if k = 0xff54 then codes.downarrow
  else if k = 0xffe3 ∨ k = 0xffe4 then codes.fire
  else if k = 0x0020 then codes.use
  else if k = 0xffe1 ∨ k = 0xffe2 then codes.rshift
  else if k = 0xff08 then codes.backspace
  else if 0x41 ≤ k ∧ k ≤ 0x5a then (k + 32).setWidth 8
  else if k < 0x80 then k.setWidth 8
  else 0

structure Event where
  pressed : Bool
  key : Byte
deriving DecidableEq

/-- The entry of the ring: `(pressed << 8) | k`. -/
def Event.entry (e : Event) : BitVec 16 := (BitVec.ofBool e.pressed).setWidth 16 <<< 8 ||| e.key.setWidth 16

/-- What `DG_GetKey` makes of an entry: `*pressed` and `*key`. -/
def unpack (kd : BitVec 16) : ℕ × Byte := ((kd >>> 8).toNat, (kd &&& 0xFF).setWidth 8)

/-- The flag and the key of an event. -/
def Event.values (e : Event) : ℕ × Byte := (e.pressed.toNat, e.key)

theorem unpack_entry (e : Event) : unpack e.entry = e.values := by
  obtain ⟨pressed, key⟩ := e
  revert pressed key
  decide +kernel

/-! ## The two threads -/

def KEYQUEUE_SIZE : ℕ := 16

/-- Where the VNC thread is in `on_key`. -/
inductive VncPc where
  | idle
  /-- about to read `key_wr` -/
  | reading (e : Event)
  /-- about to store into `key_queue[wr]` -/
  | storing (e : Event) (wr : ℕ)
  /-- about to write `key_wr` -/
  | advancing (e : Event) (wr : ℕ)
deriving DecidableEq

/-- Where the Doom thread is in `DG_GetKey`. -/
inductive DoomPc where
  | idle
  /-- reads `key_rd` and `key_wr`, in either order; `due` events had been pushed when the call began -/
  | comparing (rd wr : Option ℕ) (due : ℕ)
  /-- returns 0 -/
  | empty (due : ℕ)
  /-- about to read `key_rd` for the entry's index -/
  | indexing
  /-- about to read `key_queue[rd]` -/
  | loading (rd : ℕ)
  /-- about to read `key_rd` once more -/
  | rereading (kd : BitVec 16)
  /-- about to write `key_rd` -/
  | advancing (kd : BitVec 16) (rd : ℕ)
deriving DecidableEq

structure Keys where
  queue : ℕ → BitVec 16
  wr : ℕ
  rd : ℕ
  vnc : VncPc
  doom : DoomPc
  /-- ghost: the events pushed, in order -/
  pushed : List Event
  /-- ghost: what `DG_GetKey` has returned, in order -/
  returned : List (ℕ × Byte)

inductive Act where
  /-- `on_key` is called -/
  | onKey (pressed : Bool) (keysym : BitVec 32)
  /-- the VNC thread's next access -/
  | vnc
  /-- `DG_GetKey` is called -/
  | getKey
  | readRd
  | readWr
  /-- the Doom thread's next access, or its return -/
  | doom

/-- `key_rd == key_wr`, once both are read. -/
def DoomPc.compare (rd wr : Option ℕ) (due : ℕ) : DoomPc :=
  match rd, wr with
  | some r, some w => if r = w then .empty due else .indexing
  | _, _ => .comparing rd wr due

namespace Keys

def init : Keys := ⟨fun _ => 0, 0, 0, .idle, .idle, [], []⟩

/-- `on_key`, an access at a time. -/
def vncStep (s : Keys) : Option Keys :=
  match s.vnc with
  | .idle => none
  | .reading e => some { s with vnc := .storing e s.wr }
  | .storing e wr => some { s with queue := Function.update s.queue wr e.entry, vnc := .advancing e wr }
  | .advancing e wr =>
    some { s with wr := (wr + 1) % KEYQUEUE_SIZE, vnc := .idle, pushed := s.pushed ++ [e] }

/-- `DG_GetKey` after the comparison, an access at a time. -/
def doomStep (s : Keys) : Option Keys :=
  match s.doom with
  | .empty _ => some { s with doom := .idle }
  | .indexing => some { s with doom := .loading s.rd }
  | .loading rd => some { s with doom := .rereading (s.queue rd) }
  | .rereading kd => some { s with doom := .advancing kd s.rd }
  | .advancing kd rd =>
    some { s with rd := (rd + 1) % KEYQUEUE_SIZE, doom := .idle, returned := s.returned ++ [unpack kd] }
  | _ => none

def step (codes : Codes) (s : Keys) : Act → Option Keys
  | .onKey pressed keysym =>
    if s.vnc ≠ .idle then none
    else if keysymToDoom codes keysym = 0 then some s
    else some { s with vnc := .reading ⟨pressed, keysymToDoom codes keysym⟩ }
  | .vnc => s.vncStep
  | .getKey =>
    if s.doom = .idle then some { s with doom := .comparing none none s.pushed.length } else none
  | .readRd =>
    match s.doom with
    | .comparing none wr due => some { s with doom := .compare (some s.rd) wr due }
    | _ => none
  | .readWr =>
    match s.doom with
    | .comparing rd none due => some { s with doom := .compare rd (some s.wr) due }
    | _ => none
  | .doom => s.doomStep

/-- A key event comes while fewer than 15 others wait. -/
def hasRoom (codes : Codes) (s : Keys) : Act → Prop
  | .onKey _ keysym =>
    keysymToDoom codes keysym ≠ 0 → s.pushed.length + 1 < s.returned.length + KEYQUEUE_SIZE
  | _ => True

instance (codes : Codes) (s : Keys) : DecidablePred (hasRoom codes s)
  | .onKey _ _ => inferInstanceAs (Decidable (_ → _))
  | .vnc | .getKey | .readRd | .readWr | .doom => .isTrue trivial

/-! ## The ring as a queue -/

/-- What the VNC thread knows, `k` events waiting. -/
def VncOk (s : Keys) (k : ℕ) : VncPc → Prop
  | .idle => True
  | .reading _ => k + 1 < KEYQUEUE_SIZE
  | .storing _ wr => k + 1 < KEYQUEUE_SIZE ∧ wr = s.wr
  | .advancing e wr => k + 1 < KEYQUEUE_SIZE ∧ wr = s.wr ∧ s.queue wr = e.entry

/-- What the Doom thread knows, with the events waiting. -/
def DoomOk (s : Keys) (waiting : List Event) : DoomPc → Prop
  | .idle => True
  | .comparing rd wr due => (∀ r, rd = some r → r = s.rd) ∧ due ≤ s.pushed.length ∧
      ∀ w, wr = some w → ∃ k ≤ waiting.length, w = (s.rd + k) % KEYQUEUE_SIZE ∧
        due ≤ s.returned.length + k
  | .empty due => due ≤ s.returned.length
  | .indexing => waiting ≠ []
  | .loading rd => waiting ≠ [] ∧ rd = s.rd
  | .rereading kd => waiting.head?.map Event.entry = some kd
  | .advancing kd rd => waiting.head?.map Event.entry = some kd ∧ rd = s.rd

/-- **The ring holds the events that wait**, fewer than it has cells. -/
structure Holds (s : Keys) (waiting : List Event) : Prop where
  pushed : s.pushed.map Event.values = s.returned ++ waiting.map Event.values
  queued : Queued KEYQUEUE_SIZE s.queue s.rd (waiting.map Event.entry)
  wr : s.wr = (s.rd + waiting.length) % KEYQUEUE_SIZE
  room : waiting.length < KEYQUEUE_SIZE
  vnc : s.VncOk waiting.length s.vnc
  doom : s.DoomOk waiting s.doom

variable {codes : Codes} {s s' : Keys} {waiting more : List Event}

theorem DoomOk.mono (h : s.DoomOk waiting s.doom) (hrd : s'.rd = s.rd) (hdoom : s'.doom = s.doom)
    (hreturned : s'.returned = s.returned) (hpushed : s.pushed.length ≤ s'.pushed.length) :
    s'.DoomOk (waiting ++ more) s'.doom := by
  have hne : waiting ≠ [] → waiting ++ more ≠ [] := by simp +contextual
  have hhead : ∀ kd, waiting.head?.map Event.entry = some kd →
      (waiting ++ more).head?.map Event.entry = some kd := by
    intro kd hkd
    cases waiting with
    | nil => cases hkd
    | cons e waiting => exact hkd
  rw [hdoom]
  cases hpc : s.doom with
  | idle => trivial
  | comparing rd wr due =>
    rw [hpc] at h
    refine ⟨fun r hr => (h.1 r hr).trans hrd.symm, h.2.1.trans hpushed, fun w hw => ?_⟩
    obtain ⟨k, hk, hwk, hdue⟩ := h.2.2 w hw
    rw [hrd, hreturned]
    exact ⟨k, by rw [List.length_append]; omega, hwk, hdue⟩
  | empty due =>
    rw [hpc] at h
    change due ≤ s'.returned.length
    rw [hreturned]
    exact h
  | indexing =>
    rw [hpc] at h
    exact hne h
  | loading rd =>
    rw [hpc] at h
    exact ⟨hne h.1, h.2.trans hrd.symm⟩
  | rereading kd =>
    rw [hpc] at h
    exact hhead kd h
  | advancing kd rd =>
    rw [hpc] at h
    exact ⟨hhead kd h.1, h.2.trans hrd.symm⟩

theorem VncOk.mono {k k' : ℕ} (h : s.VncOk k s.vnc) (hk : k' ≤ k) (hvnc : s'.vnc = s.vnc)
    (hwr : s'.wr = s.wr) (hqueue : s'.queue = s.queue) : s'.VncOk k' s'.vnc := by
  rw [hvnc]
  cases hpc : s.vnc with
  | idle => trivial
  | reading e =>
    rw [hpc] at h
    exact Nat.lt_of_le_of_lt (Nat.succ_le_succ hk) h
  | storing e wr =>
    rw [hpc] at h
    exact ⟨Nat.lt_of_le_of_lt (Nat.succ_le_succ hk) h.1, h.2.trans hwr.symm⟩
  | advancing e wr =>
    rw [hpc] at h
    exact ⟨Nat.lt_of_le_of_lt (Nat.succ_le_succ hk) h.1, h.2.1.trans hwr.symm, hqueue ▸ h.2.2⟩

theorem Holds.length_pushed (h : s.Holds waiting) :
    s.pushed.length = s.returned.length + waiting.length := by
  simpa using congrArg List.length h.pushed

theorem Holds.onKey (h : s.Holds waiting) {e : Event}
    (hroom : s.pushed.length + 1 < s.returned.length + KEYQUEUE_SIZE) :
    ({ s with vnc := .reading e } : Keys).Holds waiting := by
  rw [h.length_pushed] at hroom
  exact ⟨h.pushed, h.queued, h.wr, h.room, (by omega : waiting.length + 1 < KEYQUEUE_SIZE), h.doom⟩

/-- **The VNC thread's accesses.** -/
theorem Holds.vncStep (h : s.Holds waiting) (hstep : s.vncStep = some s') :
    ∃ more, s'.Holds (waiting ++ more) := by
  have hwr := h.wr
  have hlen : (waiting.map Event.entry).length = waiting.length := List.length_map _
  unfold Keys.vncStep at hstep
  cases hpc : s.vnc with
  | idle =>
    rw [hpc] at hstep
    cases hstep
  | reading e =>
    have hvnc := h.vnc
    rw [hpc] at hvnc hstep
    cases hstep
    refine ⟨[], ?_⟩
    rw [List.append_nil]
    exact ⟨h.pushed, h.queued, hwr, h.room, ⟨hvnc, rfl⟩, h.doom⟩
  | storing e wr =>
    have hvnc := h.vnc
    rw [hpc] at hvnc hstep
    obtain ⟨hroom, rfl⟩ := hvnc
    cases hstep
    refine ⟨[], ?_⟩
    rw [List.append_nil]
    refine ⟨h.pushed, ?_, hwr, h.room, ⟨hroom, rfl, Function.update_self s.wr e.entry s.queue⟩, h.doom⟩
    have hstore := h.queued.store (hlen.trans_lt h.room) e.entry
    rw [hlen, ← hwr] at hstore
    exact hstore
  | advancing e wr =>
    have hvnc := h.vnc
    rw [hpc] at hvnc hstep
    obtain ⟨hroom, rfl, hcell⟩ := hvnc
    cases hstep
    refine ⟨[e], ?_, ?_, ?_, ?_, trivial, DoomOk.mono h.doom rfl rfl rfl (by simp)⟩
    · rw [List.map_append, List.map_append, h.pushed, List.append_assoc]
    · rw [List.map_append]
      refine h.queued.snoc (hlen.trans_lt h.room) ?_
      rw [hlen, ← hwr]
      exact hcell
    · change (s.wr + 1) % KEYQUEUE_SIZE = _
      rw [hwr, Nat.mod_add_mod, Nat.add_assoc, List.length_append, List.length_singleton]
    · rw [List.length_append, List.length_singleton]
      exact hroom

theorem DoomOk.compare {rd wr : Option ℕ} {due : ℕ} (h : s.DoomOk waiting (.comparing rd wr due))
    (hrd : s.rd < KEYQUEUE_SIZE) (hroom : waiting.length < KEYQUEUE_SIZE) :
    s.DoomOk waiting (.compare rd wr due) := by
  match rd, wr with
  | none, _ => exact h
  | some _, none => exact h
  | some r, some w =>
    obtain ⟨hr, -, hw⟩ := h
    obtain rfl := hr r rfl
    obtain ⟨k, hk, rfl, hdue⟩ := hw w rfl
    change s.DoomOk waiting (if s.rd = (s.rd + k) % KEYQUEUE_SIZE then .empty due else .indexing)
    by_cases heq : s.rd = (s.rd + k) % KEYQUEUE_SIZE
    · have hk0 : k = 0 := by
        rw [KEYQUEUE_SIZE] at heq hrd hroom
        omega
      rw [if_pos heq]
      exact (hk0 ▸ hdue : due ≤ s.returned.length + 0)
    · rw [if_neg heq]
      rintro rfl
      obtain rfl : k = 0 := Nat.le_zero.mp hk
      exact heq (Nat.mod_eq_of_lt hrd).symm

theorem Holds.doomPc (h : s.Holds waiting) {pc : DoomPc} (hpc : s.DoomOk waiting pc) :
    ({ s with doom := pc } : Keys).Holds waiting :=
  ⟨h.pushed, h.queued, h.wr, h.room, h.vnc.mono le_rfl rfl rfl rfl, by cases pc <;> exact hpc⟩

theorem Holds.getKey (h : s.Holds waiting) :
    ({ s with doom := .comparing none none s.pushed.length } : Keys).Holds waiting :=
  h.doomPc ⟨by simp, le_rfl, by simp⟩

theorem Holds.readRd (h : s.Holds waiting) {wr : Option ℕ} {due : ℕ}
    (hdoom : s.doom = .comparing none wr due) :
    ({ s with doom := .compare (some s.rd) wr due } : Keys).Holds waiting := by
  have hok := h.doom
  rw [hdoom] at hok
  refine h.doomPc (DoomOk.compare ⟨?_, hok.2⟩ h.queued.head_lt h.room)
  rintro r ⟨⟩
  rfl

theorem Holds.readWr (h : s.Holds waiting) {rd : Option ℕ} {due : ℕ}
    (hdoom : s.doom = .comparing rd none due) :
    ({ s with doom := .compare rd (some s.wr) due } : Keys).Holds waiting := by
  have hok := h.doom
  rw [hdoom] at hok
  refine h.doomPc (DoomOk.compare ⟨hok.1, hok.2.1, ?_⟩ h.queued.head_lt h.room)
  rintro w ⟨⟩
  exact ⟨waiting.length, le_rfl, h.wr, h.length_pushed ▸ hok.2.1⟩

/-- **The Doom thread's accesses** after the comparison. -/
theorem Holds.doomStep (h : s.Holds waiting) (hstep : s.doomStep = some s') :
    ∃ waiting', s'.Holds waiting' := by
  unfold Keys.doomStep at hstep
  have hok := h.doom
  cases hpc : s.doom with
  | idle | comparing rd wr due =>
    rw [hpc] at hstep
    cases hstep
  | empty due =>
    rw [hpc] at hstep
    cases hstep
    exact ⟨waiting, h.doomPc trivial⟩
  | indexing =>
    rw [hpc] at hstep hok
    cases hstep
    exact ⟨waiting, h.doomPc ⟨hok, rfl⟩⟩
  | loading rd =>
    rw [hpc] at hstep hok
    obtain ⟨hne, rfl⟩ := hok
    cases hstep
    refine ⟨waiting, h.doomPc ?_⟩
    cases waiting with
    | nil => exact absurd rfl hne
    | cons e waiting => exact congrArg some h.queued.head_eq.symm
  | rereading kd =>
    rw [hpc] at hstep hok
    cases hstep
    exact ⟨waiting, h.doomPc ⟨hok, rfl⟩⟩
  | advancing kd rd =>
    rw [hpc] at hstep hok
    obtain ⟨hhead, rfl⟩ := hok
    cases hstep
    cases waiting with
    | nil => cases hhead
    | cons e waiting =>
      obtain rfl : e.entry = kd := Option.some.inj hhead
      have hroom := h.room
      rw [List.length_cons] at hroom
      refine ⟨waiting, ?_, h.queued.tail, ?_, Nat.lt_of_succ_lt hroom, ?_, trivial⟩
      · rw [h.pushed, unpack_entry, List.append_assoc]
        rfl
      · change s.wr = ((s.rd + 1) % KEYQUEUE_SIZE + waiting.length) % KEYQUEUE_SIZE
        rw [h.wr, Nat.mod_add_mod, List.length_cons, Nat.add_assoc, Nat.add_comm 1]
      · exact h.vnc.mono (by simp) rfl rfl rfl

/-- **Every step with room keeps the ring a queue.** -/
theorem Holds.step {a : Act} (h : s.Holds waiting) (hok : hasRoom codes s a)
    (hstep : s.step codes a = some s') : ∃ waiting', s'.Holds waiting' := by
  cases a with
  | onKey pressed keysym =>
    rw [Keys.step, Option.ite_none_left_eq_some] at hstep
    by_cases hmapped : keysymToDoom codes keysym = 0
    · rw [if_pos hmapped] at hstep
      exact ⟨waiting, Option.some.inj hstep.2 ▸ h⟩
    · rw [if_neg hmapped] at hstep
      exact ⟨waiting, Option.some.inj hstep.2 ▸ h.onKey (hok hmapped)⟩
  | vnc =>
    obtain ⟨more, hmore⟩ := h.vncStep hstep
    exact ⟨_, hmore⟩
  | getKey =>
    rw [Keys.step, Option.ite_none_right_eq_some] at hstep
    exact ⟨waiting, Option.some.inj hstep.2 ▸ h.getKey⟩
  | readRd =>
    simp only [Keys.step] at hstep
    split at hstep
    · exact ⟨waiting, Option.some.inj hstep ▸ h.readRd ‹_›⟩
    · cases hstep
  | readWr =>
    simp only [Keys.step] at hstep
    split at hstep
    · exact ⟨waiting, Option.some.inj hstep ▸ h.readWr ‹_›⟩
    · cases hstep
  | doom => exact h.doomStep hstep

theorem init_holds : init.Holds [] := ⟨rfl, .nil (by decide), rfl, by decide, trivial, trivial⟩

/-- **Key events come out as they went in**, whatever the interleaving, while no event comes with 15 others
waiting: what `DG_GetKey` has returned is a prefix of what was pushed, each event with its flag and its key,
and it reports an empty queue only if no event pushed before the call is still due. -/
theorem keys_in_order (codes : Codes) {s : Keys} (h : Reaches (step codes) (hasRoom codes) init s) :
    s.returned <+: s.pushed.map Event.values ∧
      ∀ due, s.doom = .empty due → ¬ s.returned.length < due := by
  obtain ⟨waiting, hs⟩ := @Reaches.invariant _ _ _ _ _ _ (fun s => ∃ waiting, s.Holds waiting) h
    (fun ⟨_, hi⟩ hok hstep => hi.step hok hstep) ⟨[], init_holds⟩
  refine ⟨hs.pushed ▸ List.prefix_append _ _, fun due hdue => ?_⟩
  have hok := hs.doom
  rw [hdue] at hok
  exact Nat.not_lt.mpr hok

/-- The codes of a Doom build. -/
def doomCodes : Codes := ⟨13, 27, 0xac, 0xae, 0xad, 0xaf, 0xa3, 0xa2, 0xb6, 0x7f⟩

/-- Ctrl is pressed while `DG_GetKey` compares the indices, and comes out of the next call. -/
theorem keys_in_order_fire : ∃ s, Reaches (step doomCodes) (hasRoom doomCodes) init s ∧
    s.returned = [(1, 0xa3)] ∧ s.returned <+: s.pushed.map Event.values := by
  have hend : (runAll (step doomCodes) (hasRoom doomCodes) init
      [.getKey, .readWr, .onKey true 0xffe3, .vnc, .readRd, .vnc, .doom, .vnc, .getKey, .readRd, .onKey false 0xffe3,
        .vnc, .readWr, .doom, .vnc, .doom, .doom, .doom]).map returned = some [(1, 0xa3)] := by
    decide +kernel
  obtain ⟨s, hrun, hreturned⟩ := Option.map_eq_some_iff.mp hend
  have hreach := Reaches.of_runAll _ hrun
  exact ⟨s, hreach, hreturned, (keys_in_order doomCodes hreach).1⟩

/-- **Sixteen key events in a row are gone**: the indices are equal again, and `DG_GetKey` reports an empty
queue. -/
theorem keys_lost : ∃ s, Reaches (step doomCodes) anyStep init s ∧
    ∃ due, s.doom = .empty due ∧ s.returned.length < due := by
  have hend : (runAll (step doomCodes) anyStep init
      ((List.replicate 16 [.onKey true 0xff52, .vnc, .vnc, .vnc]).flatten ++ [.getKey, .readRd, .readWr])).map
        (fun s => (s.doom, s.returned)) = some (.empty 16, []) := by
    decide +kernel
  obtain ⟨s, hrun, heq⟩ := Option.map_eq_some_iff.mp hend
  obtain ⟨hdoom, hreturned⟩ := Prod.mk.inj heq
  exact ⟨s, Reaches.of_runAll _ hrun, 16, hdoom, by rw [hreturned]; decide⟩

end Keys

end KlaussRuntime.Doom
