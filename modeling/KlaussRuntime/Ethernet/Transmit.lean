import KlaussRuntime.Machinery.Machine
import KlaussRuntime.Machinery.Memory
import Mathlib.Order.CompletePartialOrder

/-!
# Ethernet/Transmit — sending frames through one slot of the MAC

`eth_klausscpu_send` copies a packet into transmit slot 0 and pads it to 60 bytes, *then* waits for
`TX_READY`, and queues the command.  The MAC's reader works through its command FIFO on its own time: it
reads the frame at the head out of the slot memory and pops the command after that.  `TX_READY` says only
that the FIFO has room.

A `Sys` is the MAC, `tx_lock`, and where every thread stands in `eth_klausscpu_send`; every store into the
slot memory, every register access and every byte the reader takes is a step.  Where a thread takes the
lock only when the FIFO has drained, the stores left always lead to the frame (`Pc.Ready`) and what the
reader has is a part of it (`Mac.Sending`).
-/

namespace KlaussRuntime.Ethernet

open Machinery Function

/-! ## Stores into the slot memory -/

/-- A store of the CPU. -/
inductive Store where
  | byte (addr : ℕ) (b : Byte)
  | word (addr : ℕ) (w : BitVec 32)

namespace Store

def addr : Store → ℕ
  | byte addr _ | word addr _ => addr

def bytes : Store → List Byte
  | byte _ b => [b]
  | word _ w => [0, 8, 16, 24].map fun i : ℕ => (w >>> i).setWidth 8

def apply (m : Mem) (st : Store) : Mem := m.write st.addr st.bytes

end Store

/-- `dst[i] = src[i]`, one after the other. -/
def byteStores (dst : ℕ) : List Byte → List Store
  | [] => []
  | b :: src => .byte dst b :: byteStores (dst + 1) src

/-- Whole words, and the rest byte by byte. -/
def wordStores (dst : ℕ) : List Byte → List Store
  | b₀ :: b₁ :: b₂ :: b₃ :: src =>
    .word dst (b₀.setWidth 32 ||| b₁.setWidth 32 <<< 8 ||| b₂.setWidth 32 <<< 16 |||
      b₃.setWidth 32 <<< 24) :: wordStores (dst + 4) src
  | src => byteStores dst src

/-- Bytes up to an aligned address first. -/
def alignedStores (dst : ℕ) : List Byte → List Store
  | [] => []
  | b :: src =>
    if dst % 4 = 0 then wordStores dst (b :: src) else .byte dst b :: alignedStores (dst + 1) src

/-- `sram_write`, with `CONFIG_ETH_KLAUSSCPU_WIDE_SRAM` or without. -/
def sramWrite (wide : Bool) (dst : ℕ) (src : List Byte) : List Store :=
  if wide then alignedStores dst src else byteStores dst src

/-! ## Packets -/

/-- The fragments of a `net_pkt`. -/
abbrev Pkt := List (List Byte)

def ETH_MAX_FRAME : ℕ := 1514

def ETH_SLOT_SIZE : ℕ := 2048

def EMSGSIZE : ℤ := 122

/-- `net_pkt_get_len`. -/
def Pkt.len (pkt : Pkt) : ℕ := (pkt.map List.length).sum

/-- `uint16_t total_len`. -/
def Pkt.totalLen (pkt : Pkt) : ℕ := pkt.len % 2 ^ 16

def Pkt.txLen (pkt : Pkt) : ℕ := if pkt.totalLen < 60 then 60 else pkt.totalLen

/-- The loop over the fragments. -/
def copyFrags (wide : Bool) : ℕ → Pkt → List Store
  | _, [] => []
  | offset, frag :: pkt => sramWrite wide offset frag ++ copyFrags wide (offset + frag.length) pkt

/-- `while (offset < 60u) slot[offset++] = 0u`. -/
def padStores (offset : ℕ) : List Store := byteStores offset (List.replicate (60 - offset) 0)

/-- All stores of a send, into slot 0. -/
def copyStores (wide : Bool) (pkt : Pkt) : List Store := copyFrags wide 0 pkt ++ padStores pkt.len

/-- **What is to go out**: the packet, zero-padded to 60 bytes. -/
def Pkt.frame (pkt : Pkt) : List Byte := pkt.flatten ++ List.replicate (60 - pkt.flatten.length) 0

/-! ## The MAC -/

/-- A transmit command. -/
structure Command where
  slot : ℕ
  length : ℕ
deriving DecidableEq

structure Mac where
  /-- the transmit slots -/
  sram : Mem
  txSlot : ℕ
  txLength : ℕ
  /-- the command FIFO, the frame being read at its head -/
  fifo : List Command
  /-- what the reader has of that frame -/
  reading : List Byte
  /-- the frames that have gone out -/
  sent : List (List Byte)

namespace Mac

def store (m : Mac) (st : Store) : Mac := { m with sram := st.apply m.sram }

/-- `TX_READY`: the FIFO has room. -/
def ready (depth : ℕ) (m : Mac) : Bool := m.fifo.length < depth

/-- `TX_START = 1`; a command the FIFO has no room for is lost. -/
def start (depth : ℕ) (m : Mac) : Mac :=
  if m.ready depth then { m with fifo := m.fifo ++ [⟨m.txSlot, m.txLength⟩] } else m

/-- The reader takes the next byte of its frame. -/
def read (m : Mac) : Option Mac :=
  match m.fifo with
  | [] => none
  | c :: _ =>
    if m.reading.length < c.length then
      some { m with reading := m.reading ++ [m.sram (c.slot * ETH_SLOT_SIZE + m.reading.length)] }
    else none

/-- The frame is out, and its command is popped. -/
def pop (m : Mac) : Option Mac :=
  match m.fifo with
  | [] => none
  | c :: fifo =>
    if m.reading.length < c.length then none
    else some { m with fifo := fifo, reading := [], sent := m.sent ++ [m.reading] }

end Mac

/-! ## The threads -/

/-- Where a thread is in `eth_klausscpu_send`. -/
inductive Pc where
  /-- outside, with what the last call returned -/
  | out (rc : Option ℤ)
  | lock (pkt : Pkt)
  /-- these stores are left -/
  | copy (left : List Store) (pkt : Pkt)
  /-- `while (!ETH_TX_READY)` -/
  | wait (pkt : Pkt)
  | slot (pkt : Pkt)
  | length (pkt : Pkt)
  | start (pkt : Pkt)
  | unlock

/-- The threads are `ι`. -/
structure Sys (ι : Type) where
  mac : Mac
  /-- the holder of `tx_lock` -/
  lock : Option ι
  pc : ι → Pc
  /-- the packets queued with `TX_START` -/
  started : List Pkt

inductive Act (ι : Type) where
  /-- the thread calls `eth_klausscpu_send` -/
  | send (t : ι) (pkt : Pkt)
  | run (t : ι)
  | read
  | pop

/-- How the driver is built, and how deep the MAC's command FIFO is. -/
structure Board where
  wide : Bool
  depth : ℕ
  depth_pos : 0 < depth

section Step

variable {ι : Type} [DecidableEq ι] (b : Board)

def Sys.goto (s : Sys ι) (t : ι) (pc : Pc) : Sys ι := { s with pc := update s.pc t pc }

def threadStep (s : Sys ι) (t : ι) : Option (Sys ι) :=
  match s.pc t with
  | .out _ => none
  | .lock pkt =>
    if s.lock = none then
      some ({ s with lock := some t }.goto t (.copy (copyStores b.wide pkt) pkt))
    else none
  | .copy (st :: left) pkt => some ({ s with mac := s.mac.store st }.goto t (.copy left pkt))
  | .copy [] pkt => some (s.goto t (.wait pkt))
  | .wait pkt => some (s.goto t (if s.mac.ready b.depth then .slot pkt else .wait pkt))
  | .slot pkt => some ({ s with mac := { s.mac with txSlot := 0 } }.goto t (.length pkt))
  | .length pkt =>
    some ({ s with mac := { s.mac with txLength := pkt.txLen } }.goto t (.start pkt))
  | .start pkt =>
    some ({ s with mac := s.mac.start b.depth, started := s.started ++ [pkt] }.goto t .unlock)
  | .unlock => some ({ s with lock := none }.goto t (.out (some 0)))

def step (s : Sys ι) : Act ι → Option (Sys ι)
  | .send t pkt =>
    match s.pc t with
    | .out _ =>
      some (s.goto t (if ETH_MAX_FRAME < pkt.totalLen then .out (some (-EMSGSIZE)) else .lock pkt))
    | _ => none
  | .run t => threadStep b s t
  | .read => s.mac.read.map fun mac => { s with mac }
  | .pop => s.mac.pop.map fun mac => { s with mac }

/-- Nothing is queued yet; the slot memory holds anything. -/
def Sys.init (sram : Mem) : Sys ι :=
  ⟨⟨sram, 0, 0, [], [], []⟩, none, fun _ => .out none, []⟩

end Step

/-! ## Frames that go out as they are -/

/-- The slot memory of the command's frame. -/
def Command.span (c : Command) : Set ℕ := Set.Ico (c.slot * ETH_SLOT_SIZE) (c.slot * ETH_SLOT_SIZE + c.length)

/-- The memory a store changes. -/
def Store.span (st : Store) : Set ℕ := Set.Ico st.addr (st.addr + st.bytes.length)

/-- The store a thread makes next. -/
def Pc.store : Pc → Option Store
  | .copy (st :: _) _ => some st
  | _ => none

variable {ι : Type} {b : Board} {s s' : Sys ι} {a : Act ι} {t : ι}

/-- **Queued frames are left alone**: no store goes into the memory of a frame that is queued or being
read, and what has gone out are the packets, in the order they were queued. -/
structure Unmodified (s : Sys ι) : Prop where
  untouched : ∀ t st, (s.pc t).store = some st → ∀ c ∈ s.mac.fifo, Disjoint st.span c.span
  transmitted : s.mac.sent <+: s.started.map Pkt.frame

def Pc.locking : Pc → Bool
  | .lock _ => true
  | _ => false

/-- A send begins only when the last frame has left the slot, and no packet has 64 KiB. -/
def Drained (s : Sys ι) : Act ι → Prop
  | .send _ pkt => pkt.len < 2 ^ 16
  | .run t => (s.pc t).locking = true → s.mac.fifo = []
  | _ => True

instance (s : Sys ι) : DecidablePred (Drained s)
  | .send _ _ => inferInstanceAs (Decidable (_ < _))
  | .run _ => inferInstanceAs (Decidable (_ → _))
  | .read | .pop => .isTrue trivial

/-! ## What the stores of a send leave -/

theorem foldl_byteStores (m : Mem) (dst : ℕ) (src : List Byte) :
    (byteStores dst src).foldl Store.apply m = m.write dst src := by
  induction src generalizing m dst with
  | nil => rw [byteStores, List.foldl_nil, Mem.write_nil]
  | cons b src ih =>
    rw [byteStores, List.foldl_cons, ih, ← List.singleton_append (x := b), Mem.write_append]
    rfl

theorem foldl_wordStores (m : Mem) (dst : ℕ) (src : List Byte) :
    (wordStores dst src).foldl Store.apply m = m.write dst src := by
  fun_induction wordStores dst src generalizing m with
  | case1 dst b₀ b₁ b₂ b₃ src ih =>
    rw [List.foldl_cons, ih, show b₀ :: b₁ :: b₂ :: b₃ :: src = [b₀, b₁, b₂, b₃] ++ src from rfl,
      Mem.write_append, Store.apply, Store.bytes, map_packed_le]
    rfl
  | case2 dst src => exact foldl_byteStores m dst src

theorem foldl_alignedStores (m : Mem) (dst : ℕ) (src : List Byte) :
    (alignedStores dst src).foldl Store.apply m = m.write dst src := by
  fun_induction alignedStores dst src generalizing m with
  | case1 dst => rw [List.foldl_nil, Mem.write_nil]
  | case2 dst b src _ => exact foldl_wordStores m dst (b :: src)
  | case3 dst b src _ ih =>
    rw [List.foldl_cons, ih, ← List.singleton_append (x := b), Mem.write_append]
    rfl

/-- **`sram_write` copies**, whichever way it is built. -/
theorem foldl_sramWrite (wide : Bool) (m : Mem) (dst : ℕ) (src : List Byte) :
    (sramWrite wide dst src).foldl Store.apply m = m.write dst src := by
  cases wide with
  | false => exact foldl_byteStores m dst src
  | true => exact foldl_alignedStores m dst src

theorem foldl_copyFrags (wide : Bool) (m : Mem) (offset : ℕ) (pkt : Pkt) :
    (copyFrags wide offset pkt).foldl Store.apply m = m.write offset pkt.flatten := by
  induction pkt generalizing m offset with
  | nil => rw [copyFrags, List.foldl_nil, List.flatten_nil, Mem.write_nil]
  | cons frag pkt ih =>
    rw [copyFrags, List.foldl_append, foldl_sramWrite, ih, List.flatten_cons, Mem.write_append]

theorem length_flatten_pkt (pkt : Pkt) : pkt.flatten.length = pkt.len := List.length_flatten

/-- **The stores of a send leave the frame in slot 0.** -/
theorem foldl_copyStores (wide : Bool) (m : Mem) (pkt : Pkt) :
    (copyStores wide pkt).foldl Store.apply m = m.write 0 pkt.frame := by
  rw [copyStores, List.foldl_append, foldl_copyFrags, padStores, foldl_byteStores, Pkt.frame,
    Mem.write_append, zero_add, length_flatten_pkt]

theorem length_frame {pkt : Pkt} (h : pkt.len < 2 ^ 16) : pkt.frame.length = pkt.txLen := by
  rw [Pkt.frame, List.length_append, List.length_replicate, length_flatten_pkt, Pkt.txLen, Pkt.totalLen,
    Nat.mod_eq_of_lt h]
  split_ifs <;> omega

/-! ## The invariant -/

/-- The thread holds `tx_lock`. -/
def Pc.holds : Pc → Bool
  | .out _ | .lock _ => false
  | _ => true

/-- **What a thread in the middle of a send has got ready**: nothing is queued, and the frame lies in slot
0 once the stores left are made. -/
def Pc.Ready (m : Mac) : Pc → Prop
  | .out _ | .unlock => True
  | .lock pkt => pkt.len < 2 ^ 16
  | .copy left pkt => pkt.len < 2 ^ 16 ∧ m.fifo = [] ∧
      (left.foldl Store.apply m.sram).read 0 pkt.frame.length = pkt.frame
  | .wait pkt | .slot pkt => pkt.len < 2 ^ 16 ∧ m.fifo = [] ∧
      m.sram.read 0 pkt.frame.length = pkt.frame
  | .length pkt => pkt.len < 2 ^ 16 ∧ m.fifo = [] ∧
      m.sram.read 0 pkt.frame.length = pkt.frame ∧ m.txSlot = 0
  | .start pkt => m.fifo = [] ∧ m.sram.read 0 pkt.frame.length = pkt.frame ∧ m.txSlot = 0 ∧
      m.txLength = pkt.frame.length

/-- **What the reader is at**: nothing, with all packets out, or the last packet queued, whose frame lies in
slot 0. -/
inductive Mac.Sending (m : Mac) : List Pkt → Prop where
  | idle {pkts : List Pkt} (hfifo : m.fifo = []) (hreading : m.reading = [])
      (hsent : m.sent = pkts.map Pkt.frame) : Sending m pkts
  | busy {pkts : List Pkt} {pkt : Pkt} (hfifo : m.fifo = [⟨0, pkt.frame.length⟩])
      (hframe : m.sram.read 0 pkt.frame.length = pkt.frame) (hle : m.reading.length ≤ pkt.frame.length)
      (hreading : m.reading = m.sram.read 0 m.reading.length)
      (hsent : m.sent = pkts.map Pkt.frame) : Sending m (pkts ++ [pkt])

structure Inv (s : Sys ι) : Prop where
  locked : ∀ t, s.lock = some t ↔ (s.pc t).holds = true
  ready : ∀ t, (s.pc t).Ready s.mac
  sending : s.mac.Sending s.started

theorem Inv.init (sram : Mem) : Inv (Sys.init sram : Sys ι) where
  locked t := by simp [Sys.init, Pc.holds]
  ready _ := trivial
  sending := .idle rfl rfl rfl

namespace Pc.Ready

variable {m m' : Mac} {pc : Pc}

theorem of_not_holds (h : pc.Ready m) (hpc : pc.holds = false) : pc.Ready m' := by
  cases pc with
  | out rc => exact trivial
  | lock pkt => exact h
  | _ => cases hpc

/-- While something is queued, no thread is in the middle of a send. -/
theorem of_queued (h : pc.Ready m) (hm : m.fifo ≠ []) : pc.Ready m' := by
  cases pc with
  | out rc => exact trivial
  | unlock => exact trivial
  | lock pkt => exact h
  | copy left pkt => exact absurd h.2.1 hm
  | wait pkt => exact absurd h.2.1 hm
  | slot pkt => exact absurd h.2.1 hm
  | length pkt => exact absurd h.2.1 hm
  | start pkt => exact absurd h.1 hm

end Pc.Ready

namespace Mac.Sending

variable {m m' : Mac} {pkts : List Pkt} {pkt : Pkt}

theorem of_drained (h : m.Sending pkts) (hm : m.fifo = []) (hfifo : m'.fifo = [])
    (hreading : m'.reading = m.reading) (hsent : m'.sent = m.sent) : m'.Sending pkts := by
  cases h with
  | idle _ hr hs => exact .idle hfifo (hreading.trans hr) (hsent.trans hs)
  | busy hbusy => rw [hbusy] at hm; cases hm

/-- **`TX_START`** hands the frame in slot 0 to the reader. -/
theorem start (h : m.Sending pkts) (hready : (Pc.start pkt).Ready m) :
    (m.start b.depth).Sending (pkts ++ [pkt]) := by
  obtain ⟨hfifo, hframe, hslot, hlength⟩ := hready
  cases h with
  | busy hbusy => rw [hbusy] at hfifo; cases hfifo
  | idle _ hr hs =>
    have hroom : m.ready b.depth = true := by simpa [Mac.ready, hfifo] using b.depth_pos
    rw [Mac.start, if_pos hroom]
    refine .busy ?_ hframe ?_ ?_ hs
    · rw [hfifo, hslot, hlength, List.nil_append]
    · simp [hr]
    · rw [hr]; rfl

theorem read (h : m.Sending pkts) (hread : m.read = some m') : m'.Sending pkts ∧ m.fifo ≠ [] := by
  cases h with
  | idle hfifo => simp [Mac.read, hfifo] at hread
  | busy hfifo hframe hle hreading hs =>
    simp only [Mac.read, hfifo, Option.ite_none_right_eq_some, Option.some.injEq] at hread
    obtain ⟨hlt, rfl⟩ := hread
    refine ⟨.busy rfl hframe ?_ ?_ hs, by rw [hfifo]; exact List.cons_ne_nil _ _⟩
    · simpa using hlt
    · simp only [List.length_append, List.length_singleton, Mem.read_add, Nat.zero_mul]
      rw [← hreading]
      rfl

/-- **A frame that is popped is the packet's.** -/
theorem pop (h : m.Sending pkts) (hpop : m.pop = some m') : m'.Sending pkts ∧ m.fifo ≠ [] := by
  cases h with
  | idle hfifo => simp [Mac.pop, hfifo] at hpop
  | @busy pkts pkt hfifo hframe hle hreading hs =>
    simp only [Mac.pop, hfifo, Option.ite_none_left_eq_some, Option.some.injEq, not_lt] at hpop
    obtain ⟨hge, rfl⟩ := hpop
    refine ⟨.idle rfl rfl ?_, by rw [hfifo]; exact List.cons_ne_nil _ _⟩
    have hall : m.reading = pkt.frame := by
      rw [hreading, hle.antisymm hge, hframe]
    rw [hs, hall, List.map_append, List.map_singleton]

theorem sent_prefix (h : m.Sending pkts) : m.sent <+: pkts.map Pkt.frame := by
  cases h with
  | idle _ _ hsent => rw [hsent]
  | busy _ _ _ _ hsent =>
    rw [hsent, List.map_append]
    exact List.prefix_append _ _

end Mac.Sending

namespace Inv

theorem others (h : Inv s) (ht : (s.pc t).holds = true) (u : ι) (hu : u ≠ t) :
    (s.pc u).holds = false := by
  by_contra hne
  have htwo := (h.locked u).mpr (by simpa using hne)
  rw [(h.locked t).mpr ht] at htwo
  exact hu (Option.some.inj htwo).symm

theorem nobody (h : Inv s) (hfree : s.lock = none) (u : ι) : (s.pc u).holds = false := by
  by_contra hne
  have hheld := (h.locked u).mpr (by simpa using hne)
  rw [hfree] at hheld
  cases hheld

theorem unmodified (h : Inv s) : Unmodified s where
  untouched t st hst c hc := by
    have hready := h.ready t
    cases hpc : s.pc t with
    | copy left pkt =>
      rw [hpc] at hready
      rw [hready.2.1] at hc
      exact absurd hc List.not_mem_nil
    | _ => simp [hpc, Pc.store] at hst
  transmitted := h.sending.sent_prefix

variable [DecidableEq ι]

/-- The thread that holds the lock, or takes or gives it, may change the MAC. -/
theorem alone (h : Inv s) (hothers : ∀ u, u ≠ t → (s.pc u).holds = false) {pc : Pc} {m : Mac}
    {lock : Option ι} {pkts : List Pkt} (hlock : lock = if pc.holds then some t else none)
    (hready : pc.Ready m) (hsending : m.Sending pkts) :
    Inv ⟨m, lock, update s.pc t pc, pkts⟩ where
  locked := by
    refine (forall_update_iff s.pc fun u pc => lock = some u ↔ pc.holds = true).mpr ⟨?_, ?_⟩
    · cases hpc : pc.holds <;> simp [hlock, hpc]
    · intro u hu
      cases hpc : pc.holds <;> simp [hlock, hpc, hothers u hu, hu.symm]
  ready := (forall_update_iff s.pc fun _ pc => pc.Ready m).mpr
    ⟨hready, fun u hu => (h.ready u).of_not_holds (hothers u hu)⟩
  sending := hsending

theorem aside (h : Inv s) (hpc : (s.pc t).holds = false) {pc : Pc} (hpc' : pc.holds = false)
    (hready : pc.Ready s.mac) : Inv (s.goto t pc) where
  locked := (forall_update_iff s.pc fun u pc => s.lock = some u ↔ pc.holds = true).mpr
    ⟨by rw [hpc', ← hpc]; exact h.locked t, fun u _ => h.locked u⟩
  ready := (forall_update_iff s.pc fun _ pc => pc.Ready s.mac).mpr
    ⟨hready, fun u _ => h.ready u⟩
  sending := h.sending

theorem holder (h : Inv s) (ht : (s.pc t).holds = true) {pc : Pc} (hpc : pc.holds = true) {m : Mac}
    {pkts : List Pkt} (hready : pc.Ready m) (hsending : m.Sending pkts) :
    Inv ⟨m, s.lock, update s.pc t pc, pkts⟩ :=
  h.alone (h.others ht) (by rw [hpc, (h.locked t).mpr ht, if_pos rfl]) hready hsending

theorem thread (h : Inv s) (hok : Drained s (.run t)) (hstep : threadStep b s t = some s') : Inv s' := by
  have hready := h.ready t
  have hothers := h.others (t := t)
  have hgo := @holder _ s t _ h
  unfold threadStep at hstep
  generalize hpc : s.pc t = pc at hstep hready hothers hgo
  cases pc with
  | out rc => cases hstep
  | lock pkt =>
    obtain ⟨hfree, hstep⟩ := Option.ite_none_right_eq_some.mp hstep
    cases hstep
    have hfifo : s.mac.fifo = [] := hok (by rw [hpc]; rfl)
    refine h.alone (fun u _ => h.nobody hfree u) rfl ⟨hready, hfifo, ?_⟩ h.sending
    rw [foldl_copyStores, Mem.read_write_self]
  | copy left pkt =>
    cases left with
    | nil =>
      cases hstep
      exact hgo rfl rfl hready h.sending
    | cons st left =>
      cases hstep
      exact hgo rfl rfl hready (h.sending.of_drained hready.2.1 hready.2.1 rfl rfl)
  | wait pkt =>
    cases hstep
    by_cases hroom : s.mac.ready b.depth = true
    · rw [if_pos hroom]
      exact hgo rfl rfl hready h.sending
    · rw [if_neg hroom]
      exact hgo rfl rfl hready h.sending
  | slot pkt =>
    cases hstep
    obtain ⟨hlen, hfifo, hframe⟩ := hready
    exact hgo rfl rfl ⟨hlen, hfifo, hframe, rfl⟩ (h.sending.of_drained hfifo hfifo rfl rfl)
  | length pkt =>
    cases hstep
    obtain ⟨hlen, hfifo, hframe, hslot⟩ := hready
    exact hgo rfl rfl ⟨hfifo, hframe, hslot, (length_frame hlen).symm⟩
      (h.sending.of_drained hfifo hfifo rfl rfl)
  | start pkt =>
    cases hstep
    exact hgo rfl rfl trivial (h.sending.start hready)
  | unlock =>
    cases hstep
    exact h.alone (hothers rfl) rfl trivial h.sending

/-- **Every step keeps the invariant.** -/
theorem step (h : Inv s) (hok : Drained s a) (hstep : Ethernet.step b s a = some s') : Inv s' := by
  cases a with
  | send t pkt =>
    have haside := @aside _ s t _ h
    simp only [Ethernet.step] at hstep
    generalize s.pc t = pc at hstep haside
    cases pc with
    | out rc =>
      cases hstep
      split
      · exact haside rfl rfl trivial
      · exact haside rfl rfl hok
    | _ => cases hstep
  | run t => exact h.thread hok hstep
  | read =>
    obtain ⟨m', hread, rfl⟩ := Option.map_eq_some_iff.mp hstep
    obtain ⟨hsending, hqueued⟩ := h.sending.read hread
    exact ⟨h.locked, fun t => (h.ready t).of_queued hqueued, hsending⟩
  | pop =>
    obtain ⟨m', hpop, rfl⟩ := Option.map_eq_some_iff.mp hstep
    obtain ⟨hsending, hqueued⟩ := h.sending.pop hpop
    exact ⟨h.locked, fun t => (h.ready t).of_queued hqueued, hsending⟩

end Inv

/-! ## Main results -/

/-- **Queued frames go out unmodified** where every send begins after the last frame has left slot 0,
however the threads and the reader take turns. -/
theorem frames_unmodified [DecidableEq ι] (b : Board) (sram : Mem)
    (h : Reaches (step b) Drained (Sys.init sram) s) : Unmodified s :=
  (h.invariant Inv.step (Inv.init sram)).unmodified

/-- Word stores, and a FIFO of two commands. -/
def Board.wideTwo : Board := ⟨true, 2, by decide⟩

/-- One send and its transmission. -/
def oneSend : List (Act Unit) :=
  Act.send () [List.replicate 48 7, [9, 9]] :: List.replicate 31 (Act.run ()) ++
    List.replicate 60 Act.read ++ [Act.pop]

/-- A packet of two fragments goes out padded. -/
theorem frames_unmodified_padded :
    ∃ s : Sys Unit, s.mac.sent = [Pkt.frame [List.replicate 48 7, [9, 9]]] ∧ Unmodified s := by
  have hend : (runAll (step .wideTwo) Drained (Sys.init fun _ => 0xAA) oneSend).map (·.mac.sent)
      = some [Pkt.frame [List.replicate 48 7, [9, 9]]] := by decide +kernel
  obtain ⟨s, hrun, hsent⟩ := Option.map_eq_some_iff.mp hend
  exact ⟨s, hsent, frames_unmodified .wideTwo _ (.of_runAll oneSend hrun)⟩

/-- The second send makes its first store before the reader has begun with the first frame. -/
def backToBack : List (Act Unit) :=
  Act.send () [List.replicate 60 7] :: List.replicate 22 (Act.run ()) ++
    Act.send () [List.replicate 60 9] :: List.replicate 2 (Act.run ()) ++
    List.replicate 60 Act.read ++ [Act.pop]

/-- **The copy comes before the wait**: a second send overwrites a frame that is still queued, and the
second packet's first word goes out in the first one's frame. -/
theorem not_forall_unmodified :
    ¬ ∀ (b : Board) (sram : Mem) (s : Sys Unit),
      Reaches (step b) anyStep (Sys.init sram) s → Unmodified s := by
  intro hall
  have hend : (runAll (step .wideTwo) anyStep (Sys.init fun _ => 0) backToBack).map
      (fun s => (s.mac.sent, s.started))
      = some ([List.replicate 4 9 ++ List.replicate 56 7], [[List.replicate 60 7]]) := by decide +kernel
  obtain ⟨s, hrun, hs⟩ := Option.map_eq_some_iff.mp hend
  obtain ⟨hsent, hstarted⟩ := Prod.mk.inj hs
  have hout := (hall _ _ s (.of_runAll backToBack hrun)).transmitted
  rw [hsent, hstarted] at hout
  exact absurd hout (by decide)

end KlaussRuntime.Ethernet
