import KlaussRuntime.Machinery.Buffers
import KlaussRuntime.Machinery.Machine
import KlaussRuntime.Machinery.Queue

/-!
# Lwip/RxQueue — received frames on their way to lwIP

With `ETH_RX_QUEUE`, `rx_drain` moves the frames of the MAC's receive slots into the ring `rx_q`, and
`ethernetif_input` takes them out of it one by one and passes each to `netif->input`.  Processing a frame can
transmit, and `low_level_output` drains the slots as well: the ring is filled while the entry that has just
left it is still being processed.

A frame can reach the MAC between any two steps.  The ring is a queue of the frames that were taken and not
yet passed on (`Driver.Holds`), at every point at which `rx_drain` can be entered.
-/

namespace KlaussRuntime.Lwip

open Machinery

def RX_Q_LEN : ℕ := 6

def ETH_SLOT_SIZE : ℕ := 2048

/-- A receive slot with a frame: what `RX_LENGTH` says, and the slot's bytes. -/
structure RxSlot where
  length : ℕ
  sram : Buffer ETH_SLOT_SIZE

/-- The bytes of a `struct pbuf` chain. -/
abbrev Pbuf := List Byte

/-- `low_level_input`: the frame, if one is pending and can be taken, and the slots still pending.  `alloc` is
whether `pbuf_alloc` finds a buffer. -/
def lowLevelInput (alloc : Bool) : List RxSlot → Option Pbuf × List RxSlot
  | [] => (none, [])
  | slot :: rest =>
    if slot.length < 14 ∨ ETH_SLOT_SIZE < slot.length then (none, rest)
    else if alloc then (some (slot.sram.bytes.take slot.length), rest)
    else (none, rest)

/-! ## The driver -/

/-- Where `low_level_output` can be called. -/
inductive Place where
  /-- outside `ethernetif_input`, for instance by a timer -/
  | outside
  /-- in `netif->input` -/
  | processing (p : Option Pbuf)

inductive Pc where
  | at (place : Place)
  /-- in `rx_drain`, called by `low_level_output` at a place, or else by `ethernetif_input` -/
  | draining (caller : Option Place)
  /-- `ethernetif_input` is about to look at `rx_q_count` -/
  | testing

structure Driver where
  /-- the MAC's slots with a frame, oldest first -/
  pending : List RxSlot
  rxQ : ℕ → Option Pbuf
  head : ℕ
  count : ℕ
  pc : Pc
  /-- ghost: the frames `low_level_input` took, in order -/
  taken : List Pbuf
  /-- ghost: what was passed to `netif->input`, in order -/
  passed : List (Option Pbuf)

inductive Act where
  /-- a frame arrives -/
  | arrive (slot : RxSlot)
  /-- `ethernetif_input` is called -/
  | input
  /-- `low_level_output` is called with a chain of this length -/
  | output (totLen : ℕ)
  /-- one round of `rx_drain` -/
  | drain (alloc : Bool)
  /-- the test for an empty queue, and the call of `netif->input` if it is not -/
  | test
  /-- `netif->input` returns, with an error (and the frame is freed) or not -/
  | processed (err : Bool)

namespace Driver

def init : Driver := ⟨[], fun _ => none, 0, 0, .at .outside, [], []⟩

/-- Where `rx_drain` returns to. -/
def back : Option Place → Pc
  | none => .testing
  | some place => .at place

/-- One round of `rx_drain`'s loop. -/
def drainStep (s : Driver) (caller : Option Place) (alloc : Bool) : Driver :=
  if s.count < RX_Q_LEN then
    match lowLevelInput alloc s.pending with
    | (none, rest) => { s with pending := rest, pc := back caller }
    | (some p, rest) =>
      { s with
        pending := rest
        rxQ := Function.update s.rxQ ((s.head + s.count) % RX_Q_LEN) (some p)
        count := s.count + 1
        taken := s.taken ++ [p] }
  else { s with pc := back caller }

/-- `ethernetif_input` after its `rx_drain`. -/
def testStep (s : Driver) : Driver :=
  if s.count = 0 then { s with pc := .at .outside }
  else
    { s with
      head := (s.head + 1) % RX_Q_LEN
      count := s.count - 1
      pc := .at (.processing (s.rxQ s.head))
      passed := s.passed ++ [s.rxQ s.head] }

def step (s : Driver) : Act → Option Driver
  -- the MAC has two receive slots; a frame that finds both taken is lost
  | .arrive slot => some (if s.pending.length < 2 then { s with pending := s.pending ++ [slot] } else s)
  | .input =>
    match s.pc with
    | .at .outside => some { s with pc := .draining none }
    | _ => none
  | .output totLen =>
    match s.pc with
    -- `ERR_BUF`
    | .at place => some (if ETH_SLOT_SIZE < totLen then s else { s with pc := .draining (some place) })
    | _ => none
  | .drain alloc =>
    match s.pc with
    | .draining caller => some (s.drainStep caller alloc)
    | _ => none
  | .test =>
    match s.pc with
    | .testing => some s.testStep
    | _ => none
  | .processed _ =>
    match s.pc with
    | .at (.processing _) => some { s with pc := .draining none }
    | _ => none

/-! ## What a step does -/

/-- The ring and the two lists are left alone. -/
structure Still (s s' : Driver) : Prop where
  rxQ : s'.rxQ = s.rxQ
  head : s'.head = s.head
  count : s'.count = s.count
  taken : s'.taken = s.taken
  passed : s'.passed = s.passed

/-- **Two steps touch the ring**: a round of `rx_drain`, and the test that takes an entry out. -/
theorem step_cases {s s' : Driver} {a : Act} (hstep : s.step a = some s') :
    s.Still s' ∨ (∃ caller alloc, s' = s.drainStep caller alloc) ∨ s' = s.testStep := by
  unfold Driver.step at hstep
  cases a with
  | arrive slot =>
    cases hstep
    left
    split <;> exact ⟨rfl, rfl, rfl, rfl, rfl⟩
  | output totLen =>
    dsimp only at hstep
    split at hstep
    · cases hstep
      left
      split <;> exact ⟨rfl, rfl, rfl, rfl, rfl⟩
    · cases hstep
  | drain alloc =>
    dsimp only at hstep
    split at hstep
    · exact .inr (.inl ⟨_, alloc, (Option.some.inj hstep).symm⟩)
    · cases hstep
  | test =>
    dsimp only at hstep
    split at hstep
    · exact .inr (.inr (Option.some.inj hstep).symm)
    · cases hstep
  | input | processed err =>
    dsimp only at hstep
    split at hstep
    · cases hstep
      exact .inl ⟨rfl, rfl, rfl, rfl, rfl⟩
    · cases hstep

/-! ## The ring as a queue -/

/-- **The ring holds what was taken and not yet passed on.** -/
structure Holds (s : Driver) (waiting : List Pbuf) : Prop where
  taken : s.taken.map some = s.passed ++ waiting.map some
  queued : Queued RX_Q_LEN s.rxQ s.head (waiting.map some)
  count : s.count = waiting.length

variable {s s' : Driver} {waiting : List Pbuf} {a : Act}

theorem Holds.length_map (h : s.Holds waiting) : (waiting.map some).length = s.count := by
  rw [List.length_map, h.count]

theorem Holds.count_le (h : s.Holds waiting) : s.count ≤ RX_Q_LEN := h.length_map ▸ h.queued.length_le

theorem Holds.of_still (h : s.Holds waiting) (hs : s.Still s') : s'.Holds waiting := by
  refine ⟨?_, ?_, hs.count.trans h.count⟩
  · rw [hs.taken, hs.passed, h.taken]
  · rw [hs.rxQ, hs.head]
    exact h.queued

/-- **A round of `rx_drain`.** -/
theorem Holds.drainStep (h : s.Holds waiting) (caller : Option Place) (alloc : Bool) :
    ∃ waiting', (s.drainStep caller alloc).Holds waiting' := by
  unfold Driver.drainStep
  split
  case isFalse => exact ⟨waiting, h.of_still ⟨rfl, rfl, rfl, rfl, rfl⟩⟩
  case isTrue hroom =>
    split
    · exact ⟨waiting, h.of_still ⟨rfl, rfl, rfl, rfl, rfl⟩⟩
    · rename_i p rest _
      refine ⟨waiting ++ [p], ?_, ?_, ?_⟩
      · rw [List.map_append, h.taken, List.map_append, List.append_assoc]
      · rw [List.map_append, ← h.length_map]
        have hroom' := h.length_map.trans_lt hroom
        exact (h.queued.store hroom' (some p)).snoc hroom' (Function.update_self _ _ _)
      · rw [List.length_append, ← h.count]
        rfl

/-- **An entry leaves for `netif->input`.** -/
theorem Holds.testStep (h : s.Holds waiting) : ∃ waiting', s.testStep.Holds waiting' := by
  have hcount := h.count
  unfold Driver.testStep
  split
  case isTrue => exact ⟨waiting, h.of_still ⟨rfl, rfl, rfl, rfl, rfl⟩⟩
  case isFalse hne =>
    cases waiting with
    | nil => exact absurd hcount hne
    | cons p waiting =>
      have hhead : s.rxQ s.head = some p := h.queued.head_eq
      refine ⟨waiting, ?_, h.queued.tail, ?_⟩
      · rw [h.taken, hhead, List.append_assoc]
        rfl
      · rw [hcount]
        rfl

/-- **Every step keeps the ring a queue.** -/
theorem Holds.step (h : s.Holds waiting) (hstep : s.step a = some s') :
    ∃ waiting', s'.Holds waiting' := by
  obtain hs | ⟨caller, alloc, rfl⟩ | rfl := step_cases hstep
  · exact ⟨waiting, h.of_still hs⟩
  · exact h.drainStep caller alloc
  · exact h.testStep

theorem init_holds : init.Holds [] := ⟨rfl, .nil (by decide), rfl⟩

theorem exists_holds (h : Reaches step anyStep init s) : ∃ waiting, s.Holds waiting :=
  @Reaches.invariant _ _ _ _ _ _ (fun s => ∃ waiting, s.Holds waiting) h
    (fun ⟨_, hi⟩ _ hstep => hi.step hstep) ⟨[], init_holds⟩

theorem rxQ_drainStep (s : Driver) (caller : Option Place) (alloc : Bool) :
    (s.drainStep caller alloc).rxQ = s.rxQ ∨ s.count < RX_Q_LEN ∧
      ∃ p, (s.drainStep caller alloc).rxQ =
        Function.update s.rxQ ((s.head + s.count) % RX_Q_LEN) p := by
  unfold Driver.drainStep
  split
  case isFalse => exact .inl rfl
  case isTrue hroom =>
    split
    · exact .inl rfl
    · exact .inr ⟨hroom, _, rfl⟩

theorem rxQ_testStep (s : Driver) : s.testStep.rxQ = s.rxQ := by
  unfold Driver.testStep
  split <;> rfl

/-- **No entry is overwritten.** -/
theorem rxQ_kept (hstep : s.step a = some s') {i : ℕ} (hi : i < s.count) :
    s'.rxQ ((s.head + i) % RX_Q_LEN) = s.rxQ ((s.head + i) % RX_Q_LEN) := by
  obtain hs | ⟨caller, alloc, rfl⟩ | rfl := step_cases hstep
  · rw [hs.rxQ]
  · rcases rxQ_drainStep s caller alloc with heq | ⟨hroom, p, heq⟩
    · rw [heq]
    · rw [heq, Function.update_of_ne (add_mod_ne hi (by omega))]
  · rw [rxQ_testStep]

/-- **Received frames reach lwIP once and in order**, whenever frames arrive and whatever processing them
transmits.  What was passed to `netif->input` is what `low_level_input` took but for the entries that wait, in
the order taken, and all of it when `ethernetif_input` returns; at most `RX_Q_LEN` entries wait, in their cells,
and no step changes the cell of one. -/
theorem frames_in_order {s : Driver} (h : Reaches step anyStep init s) :
    (∃ waiting : List Pbuf, s.taken.map some = s.passed ++ waiting.map some ∧
      waiting.length = s.count ∧
      ∀ i (hi : i < waiting.length), s.rxQ ((s.head + i) % RX_Q_LEN) = some waiting[i]) ∧
    s.count ≤ RX_Q_LEN ∧
    (∀ a s', s.step a = some s' →
      ∀ i < s.count, s'.rxQ ((s.head + i) % RX_Q_LEN) = s.rxQ ((s.head + i) % RX_Q_LEN)) ∧
    ∀ s', s.step .test = some s' → s'.pc = .at .outside → s'.passed = s'.taken.map some := by
  obtain ⟨waiting, hs⟩ := exists_holds h
  refine ⟨⟨waiting, hs.taken, hs.count.symm, fun i hi => ?_⟩, hs.count_le,
    fun a s' hstep i hi => rxQ_kept hstep hi, fun s' hstep hout => ?_⟩
  · rw [hs.queued.cell i (by rwa [List.length_map]), List.getElem_map]
  · simp only [Driver.step] at hstep
    split at hstep
    case h_1 =>
      cases hstep
      unfold Driver.testStep at hout ⊢
      split
      case isTrue hzero =>
        obtain rfl : waiting = [] := List.eq_nil_of_length_eq_zero (hs.count.symm.trans hzero)
        rw [hs.taken, List.map_nil, List.append_nil]
      case isFalse hne =>
        rw [if_neg hne] at hout
        cases hout
    case h_2 => cases hstep

/-- A frame of `len` bytes, all equal. -/
def plainFrame (b : Byte) (len : ℕ) : RxSlot := ⟨len, ⟨List.replicate ETH_SLOT_SIZE b, List.length_replicate⟩⟩

/-- A second frame is taken out of its slot by the answer to the first, and passed on after it. -/
theorem frames_in_order_twoFrames : ∃ s, Reaches step anyStep init s ∧
    s.passed = [some (List.replicate 14 1), some (List.replicate 15 2)] ∧ s.count ≤ RX_Q_LEN := by
  have hend : (runAll step anyStep init
      [.arrive (plainFrame 1 14), .input, .drain true, .drain true, .test, .arrive (plainFrame 2 15), .output 60,
        .drain true, .drain true, .processed false, .drain true, .test]).map passed
      = some [some (List.replicate 14 1), some (List.replicate 15 2)] := by
    decide +kernel
  obtain ⟨s, hrun, hpassed⟩ := Option.map_eq_some_iff.mp hend
  have hreach := Reaches.of_runAll _ hrun
  exact ⟨s, hreach, hpassed, (frames_in_order hreach).2.1⟩

end Driver

end KlaussRuntime.Lwip
