import KlaussRuntime.Machinery.Cut
import KlaussRuntime.Machinery.Memory

/-!
# Entropy/Trng — bytes of the random number generator

`trng_fill` reads `STATUS`, pops a word from `DATA` when the reading shows one and the health tests pass, and
copies up to 8 of its bytes.  A failed health test is answered with one reseed.

The device answers each access as it likes, from all accesses before it.  The accesses are logged; the reads of
`STATUS` in `trng_reseed` are told apart (`poll`).  `trng_fill` can wait without end, so `Safe` is about its
return and about every round before it: a call that has not returned is `Going`, one that has is `Filled`.
-/

namespace KlaussRuntime.Entropy

open Machinery

def TRNG_CTRL_ENABLE : BitVec 32 := 1
def TRNG_CTRL_RESEED : BitVec 32 := 2
def TRNG_STATUS_READY : BitVec 32 := 1
def TRNG_STATUS_HEALTH_OK : BitVec 32 := 2

def TRNG_READY_POLLS : ℕ := 100000

def EIO : ℤ := 5
def ETIMEDOUT : ℤ := 116

/-- An access to the generator. -/
inductive Ev where
  /-- `STATUS` read by `trng_fill` -/
  | status (st : BitVec 32)
  /-- `STATUS` read by `trng_reseed` -/
  | poll (st : BitVec 32)
  /-- `DATA` read -/
  | data (w : BitVec 64)
  /-- `CTRL` written -/
  | ctrl (v : BitVec 32)

/-- What the device answers, from the accesses before. -/
structure Env where
  status : List Ev → BitVec 32
  data : List Ev → BitVec 64

structure World where
  env : Env
  log : List Ev
  mem : Mem

/-! ## The driver -/

def trngStatus : Cut World (BitVec 32) := fun w =>
  (some (w.env.status w.log), { w with log := w.log ++ [.status (w.env.status w.log)] })

def pollStatus : Cut World (BitVec 32) := fun w =>
  (some (w.env.status w.log), { w with log := w.log ++ [.poll (w.env.status w.log)] })

def trngData : Cut World (BitVec 64) := fun w =>
  (some (w.env.data w.log), { w with log := w.log ++ [.data (w.env.data w.log)] })

def trngCtrl (v : BitVec 32) : Cut World Unit :=
  Cut.modify fun w => { w with log := w.log ++ [.ctrl v] }

def isReady (st : BitVec 32) : Bool := st &&& TRNG_STATUS_READY ≠ 0

def healthOk (st : BitVec 32) : Bool := st &&& TRNG_STATUS_HEALTH_OK ≠ 0

/-- The loop of `trng_reseed`. -/
def pollReady : ℕ → Cut World ℤ
  | 0 => return - ETIMEDOUT
  | n + 1 => do
    let st ← pollStatus
    if isReady st then return if healthOk st then 0 else - EIO else pollReady n

def trngReseed : Cut World ℤ := do
  trngCtrl (TRNG_CTRL_ENABLE ||| TRNG_CTRL_RESEED)
  pollReady TRNG_READY_POLLS

def memcpy (dst : ℕ) (bs : List Byte) : Cut World Unit :=
  Cut.modify fun w => { w with mem := w.mem.write dst bs }

/-- The loop of `trng_fill`, for `fuel` rounds; `got` never exceeds `len`, and so does not wrap around. -/
def fillFrom (buf len : ℕ) (wait : Bool) : ℕ → ℕ → Bool → Cut World ℤ
  | 0, _, _ => Cut.stop
  | fuel + 1, got, reseeded =>
    if got < len then do
      let st ← trngStatus
      if healthOk st = false then
        if reseeded then return - EIO
        else do
          let rc ← trngReseed
          if rc ≠ 0 then return - EIO else fillFrom buf len wait fuel got true
      else if isReady st = false then
        if wait = false then return got else fillFrom buf len wait fuel got reseeded
      else do
        let w ← trngData
        memcpy (buf + got) ((wordBytes w).take (min 8 (len - got)))
        fillFrom buf len wait fuel (got + min 8 (len - got)) reseeded
    else return got

def trngFill (fuel buf len : ℕ) (wait : Bool) : Cut World ℤ := fillFrom buf len wait fuel 0 false

/-! ## Logs -/

/-- The words popped, in order. -/
def words (log : List Ev) : List (BitVec 64) :=
  log.filterMap fun | .data w => some w | _ => none

/-- The readings of `trng_fill` without `HEALTH_OK`. -/
def failures (log : List Ev) : ℕ :=
  log.countP fun | .status st => !healthOk st | _ => false

/-- The readings of `trng_fill` with `HEALTH_OK` and an empty FIFO. -/
def empties (log : List Ev) : ℕ :=
  log.countP fun | .status st => healthOk st && !isReady st | _ => false

def reseeds (log : List Ev) : ℕ :=
  log.countP fun | .ctrl _ => true | _ => false

/-- A reading of `trng_reseed` showed a word and `HEALTH_OK`. -/
def Healed (log : List Ev) : Prop := ∃ st, .poll st ∈ log ∧ isReady st = true ∧ healthOk st = true

/-- What may follow what: a word is popped right after a reading that showed one and `HEALTH_OK`, and the
generator is reseeded right after a reading without `HEALTH_OK`. -/
def After (last : Option Ev) : Ev → Prop
  | .data _ => ∃ st, last = some (.status st) ∧ isReady st = true ∧ healthOk st = true
  | .ctrl v => v = TRNG_CTRL_ENABLE ||| TRNG_CTRL_RESEED ∧
      ∃ st, last = some (.status st) ∧ healthOk st = false
  | .status _ | .poll _ => True

/-- **Every access is in order.** -/
def Obeys (log : List Ev) : Prop := ∀ before e after, log = before ++ e :: after → After before.getLast? e

variable {log : List Ev} {e : Ev}

theorem obeys_nil : Obeys [] := fun before e after h => by
  have := congrArg List.length h
  simp at this

theorem Obeys.snoc (h : Obeys log) (he : After log.getLast? e) : Obeys (log ++ [e]) := by
  intro before e' after heq
  cases after using List.reverseRecOn with
  | nil =>
    obtain ⟨rfl, hlast⟩ := List.append_inj' heq rfl
    obtain rfl := List.singleton_inj.mp hlast
    exact he
  | append_singleton after e'' =>
    rw [← List.cons_append, ← List.append_assoc] at heq
    exact h before e' after (List.append_inj' heq rfl).1

theorem Obeys.status (h : Obeys log) (st : BitVec 32) : Obeys (log ++ [.status st]) := h.snoc trivial

theorem healed_snoc : Healed (log ++ [e]) ↔ Healed log ∨ Healed [e] := by
  simp only [Healed, List.mem_append, or_and_right, exists_or]

theorem healed_poll {st : BitVec 32} : Healed [.poll st] ↔ isReady st = true ∧ healthOk st = true := by
  simp [Healed]

/-- A reseed was made, and no reading after it showed a word and `HEALTH_OK`. -/
def ReseedFailed (log : List Ev) : Prop := 0 < reseeds log ∧ ¬ Healed log

/-! ## Reseeding -/

variable {I : World → Prop} {w : World}

theorem trngStatus_spec : Safe I trngStatus w fun st w' => w' = { w with log := w.log ++ [.status st] } :=
  .of_run rfl rfl

theorem trngData_spec : Safe I trngData w fun d w' => w' = { w with log := w.log ++ [.data d] } :=
  .of_run rfl rfl

/-- The readings of `trng_reseed` change nothing but whether it has succeeded. -/
structure Polled (w w' : World) : Prop where
  obeys : Obeys w.log → Obeys w'.log
  words : words w'.log = words w.log
  failures : failures w'.log = failures w.log
  empties : empties w'.log = empties w.log
  reseeds : reseeds w'.log = reseeds w.log
  mem : w'.mem = w.mem

theorem Polled.refl : Polled w w := ⟨id, rfl, rfl, rfl, rfl, rfl⟩

theorem Polled.snoc {st : BitVec 32} {w' : World} (h : Polled { w with log := w.log ++ [.poll st] } w') :
    Polled w w' where
  obeys hobeys := h.obeys (hobeys.snoc trivial)
  words := h.words.trans (by simp [Entropy.words])
  failures := h.failures.trans (by simp [Entropy.failures])
  empties := h.empties.trans (by simp [Entropy.empties])
  reseeds := h.reseeds.trans (by simp [Entropy.reseeds])
  mem := h.mem

theorem pollReady_spec (n : ℕ) : ∀ {w : World}, ¬ Healed w.log →
    Safe I (pollReady n) w fun rc w' => Polled w w' ∧ (rc = 0 ↔ Healed w'.log) := by
  induction n with
  | zero => exact fun h => .pure ⟨.refl, fun h0 => absurd h0 (by decide), fun hh => absurd hh h⟩
  | succ n ih =>
    intro w h
    have hpoll : Safe I pollStatus w fun st w' => w' = { w with log := w.log ++ [.poll st] } :=
      .of_run rfl rfl
    refine hpoll.bind fun st w' hw => .ite (fun hready => ?_) fun hready => ?_
    · subst hw
      refine .pure ⟨.snoc .refl, ?_⟩
      rw [healed_snoc, healed_poll, or_iff_right h]
      cases healthOk st with
      | true => exact ⟨fun _ => ⟨hready, rfl⟩, fun _ => rfl⟩
      | false => exact ⟨fun h0 => absurd h0 (by decide), fun hh => absurd hh.2 Bool.false_ne_true⟩
    · subst hw
      refine (ih ?_).mono fun rc w' ⟨hp, hrc⟩ => ⟨hp.snoc, hrc⟩
      rw [healed_snoc, healed_poll, not_or]
      exact ⟨h, fun hh => hready hh.1⟩

/-- **One reseed**, after a reading without `HEALTH_OK`. -/
structure Reseeded (w w' : World) : Prop where
  obeys : Obeys w'.log
  words : words w'.log = words w.log
  failures : failures w'.log = failures w.log
  empties : empties w'.log = empties w.log
  reseeds : reseeds w'.log = reseeds w.log + 1
  mem : w'.mem = w.mem

theorem trngReseed_spec {st : BitVec 32} (hobeys : Obeys w.log) (hlast : w.log.getLast? = some (.status st))
    (hst : healthOk st = false) (hnot : ¬ Healed w.log) :
    Safe I trngReseed w fun rc w' => Reseeded w w' ∧ (rc = 0 ↔ Healed w'.log) := by
  have hctrl : Safe I (trngCtrl (TRNG_CTRL_ENABLE ||| TRNG_CTRL_RESEED)) w fun _ w' =>
      w' = { w with log := w.log ++ [.ctrl (TRNG_CTRL_ENABLE ||| TRNG_CTRL_RESEED)] } := .of_run rfl rfl
  refine hctrl.bind fun _ w₁ hw => ?_
  subst hw
  refine (pollReady_spec _ ?_).mono fun rc w' ⟨hp, hrc⟩ => ⟨?_, hrc⟩
  · rw [healed_snoc, not_or]
    exact ⟨hnot, fun ⟨st, hmem, _⟩ => by simp at hmem⟩
  · refine ⟨hp.obeys (hobeys.snoc ⟨rfl, st, hlast, hst⟩), hp.words.trans ?_, hp.failures.trans ?_,
      hp.empties.trans ?_, hp.reseeds.trans ?_, hp.mem⟩
    · simp [Entropy.words]
    · simp [Entropy.failures]
    · simp [Entropy.empties]
    · simp [Entropy.reseeds]

/-! ## Filling -/

section Fill

variable (m₀ : Mem) (buf len : ℕ) (wait : Bool)

/-- The bytes of the words popped, as far as there is room for them. -/
def stored (log : List Ev) : List Byte := ((words log).flatMap wordBytes).take len

/-- **A call under way**, after so many rounds.  The memory is as it was but for the bytes stored; every round
so far read an empty FIFO, popped a word or reseeded. -/
structure Going (rounds got : ℕ) (reseeded : Bool) (w : World) : Prop where
  obeys : Obeys w.log
  mem : w.mem = m₀.write buf (stored len w.log)
  got : got = (stored len w.log).length
  used : 8 * (words w.log).length < len + 8
  failures : failures w.log = if reseeded then 1 else 0
  reseeds : reseeds w.log = if reseeded then 1 else 0
  healed : Healed w.log ↔ reseeded = true
  rounds : rounds = empties w.log + (words w.log).length + Entropy.failures w.log
  waits : 0 < empties w.log → wait = true

/-- **A call that returned** `r`. -/
structure Filled (r : ℤ) (w : World) : Prop where
  obeys : Obeys w.log
  mem : w.mem = m₀.write buf (stored len w.log)
  used : 8 * (words w.log).length < len + 8
  reseeds : reseeds w.log ≤ 1
  count : 0 ≤ r → r = (stored len w.log).length
  full : 0 ≤ r → wait = true → r = len
  failed : r = - EIO ↔ 1 < failures w.log ∨ ReseedFailed w.log
  negative : r < 0 → r = - EIO

end Fill

variable {m₀ : Mem} {buf len : ℕ} {wait : Bool} {rounds got fuel : ℕ} {reseeded : Bool}

theorem length_stored (log : List Ev) : (stored len log).length = min len (8 * (words log).length) := by
  rw [stored, List.length_take, List.length_flatMap]
  simp [Nat.mul_comm]

theorem stored_nil : stored len [] = [] := List.take_nil

theorem Going.not_reseedFailed (h : Going m₀ buf len wait rounds got reseeded w) :
    ¬ ReseedFailed w.log := by
  rintro ⟨hpos, hnot⟩
  rw [h.healed, Bool.not_eq_true] at hnot
  rw [h.reseeds, hnot] at hpos
  exact absurd hpos (by decide)

theorem Going.failures_le (h : Going m₀ buf len wait rounds got reseeded w) :
    Entropy.failures w.log ≤ 1 := by
  rw [h.failures]
  split <;> decide

theorem Going.reseeds_le (h : Going m₀ buf len wait rounds got reseeded w) :
    Entropy.reseeds w.log ≤ 1 := by
  rw [h.reseeds]
  split <;> decide

theorem Going.got_le (h : Going m₀ buf len wait rounds got reseeded w) : got ≤ len := by
  rw [h.got, length_stored]
  exact min_le_left _ _

theorem healed_status {st : BitVec 32} : ¬ Healed [.status st] := fun ⟨st, hmem, _⟩ => by simp at hmem

theorem stored_status {st : BitVec 32} : stored len (log ++ [.status st]) = stored len log := by
  simp [stored, words]

theorem Going.filled (h : Going m₀ buf len wait rounds got reseeded w) (hfull : wait = true → got = len) :
    Filled m₀ buf len wait got w where
  obeys := h.obeys
  mem := h.mem
  used := h.used
  reseeds := h.reseeds_le
  count _ := congrArg _ h.got
  full _ hwait := congrArg _ (hfull hwait)
  failed := by
    have hle := h.failures_le
    refine ⟨fun heq => ?_, fun hor => ?_⟩
    · rw [ EIO] at heq
      omega
    · rcases hor with hlt | hfailed
      · omega
      · exact absurd hfailed h.not_reseedFailed
  negative hneg := absurd hneg (by omega)

/-- A reading with `HEALTH_OK` while the FIFO is empty, by a call that does not wait. -/
theorem Filled.status {st : BitVec 32} {r : ℤ} (h : Filled m₀ buf len wait r w) (hst : healthOk st = true) :
    Filled m₀ buf len wait r { w with log := w.log ++ [.status st] } where
  obeys := h.obeys.status st
  mem := by
    rw [stored_status]
    exact h.mem
  used := by simpa [words] using h.used
  reseeds := by simpa [Entropy.reseeds] using h.reseeds
  count hr := by
    rw [stored_status]
    exact h.count hr
  full := h.full
  failed := by
    simpa [failures, hst, ReseedFailed, Entropy.reseeds, healed_snoc, healed_status] using h.failed
  negative := h.negative

theorem Going.empty {st : BitVec 32} (h : Going m₀ buf len wait rounds got reseeded w)
    (hst : healthOk st = true) (hempty : isReady st = false) (hwait : wait = true) :
    Going m₀ buf len wait (rounds + 1) got reseeded { w with log := w.log ++ [.status st] } where
  obeys := h.obeys.status st
  mem := by
    rw [stored_status]
    exact h.mem
  got := by
    rw [stored_status]
    exact h.got
  used := by simpa [words] using h.used
  failures := by simpa [Entropy.failures, hst] using h.failures
  reseeds := by simpa [Entropy.reseeds] using h.reseeds
  healed := by simpa [healed_snoc, healed_status] using h.healed
  rounds := by
    have hempties : empties (w.log ++ [.status st]) = empties w.log + 1 := by simp [empties, hst, hempty]
    have hwords : words (w.log ++ [.status st]) = words w.log := by simp [words]
    have hfailures : Entropy.failures (w.log ++ [.status st]) = Entropy.failures w.log := by
      simp [Entropy.failures, hst]
    rw [hempties, hwords, hfailures, h.rounds]
    omega
  waits _ := hwait

/-- **A word is popped** and as many of its bytes stored as there is room for. -/
theorem Going.pop {st : BitVec 32} {d : BitVec 64} (h : Going m₀ buf len wait rounds got reseeded w)
    (hgot : got < len) (hst : healthOk st = true) (hready : isReady st = true) :
    Going m₀ buf len wait (rounds + 1) (got + min 8 (len - got)) reseeded
      { w with
        log := w.log ++ [.status st] ++ [.data d]
        mem := w.mem.write (buf + got) ((wordBytes d).take (min 8 (len - got))) } := by
  have hwords : words (w.log ++ [.status st] ++ [.data d]) = words w.log ++ [d] := by simp [words]
  have hempties : empties (w.log ++ [.status st] ++ [.data d]) = empties w.log := by
    simp [empties, hready]
  have hfailures : Entropy.failures (w.log ++ [.status st] ++ [.data d]) = Entropy.failures w.log := by
    simp [Entropy.failures, hst]
  have hlen := h.got
  rw [length_stored] at hlen
  -- there is room: all bytes of the words before are stored
  have hbytes : ((words w.log).flatMap wordBytes).length = got := by
    rw [List.length_flatMap]
    simp only [length_wordBytes, List.map_const', List.sum_replicate, smul_eq_mul]
    omega
  have hnew : stored len (w.log ++ [.status st] ++ [.data d])
      = stored len w.log ++ (wordBytes d).take (min 8 (len - got)) := by
    have htake : (wordBytes d).take (min 8 (len - got)) = (wordBytes d).take (len - got) := by
      rw [min_comm, ← length_wordBytes d, ← List.take_eq_take_min]
    rw [htake, stored, stored, hwords, List.flatMap_append, List.take_append, hbytes,
      List.flatMap_singleton]
  refine ⟨?_, ?_, ?_, ?_, ?_, ?_, ?_, ?_, ?_⟩
  · exact (h.obeys.status st).snoc ⟨st, List.getLast?_concat, hready, hst⟩
  · dsimp only
    rw [hnew, Mem.write_append, ← h.mem, ← h.got]
  · rw [hnew, List.length_append, ← h.got, List.length_take, length_wordBytes]
    omega
  · rw [hwords, List.length_append, List.length_singleton]
    omega
  · rw [hfailures]
    exact h.failures
  · simpa [Entropy.reseeds] using h.reseeds
  · simpa [healed_snoc, Healed] using h.healed
  · rw [hempties, hwords, hfailures, List.length_append, List.length_singleton, h.rounds]
    omega
  · rw [hempties]
    exact h.waits

/-- **The health test fails again** after the reseed. -/
theorem Going.fails {st : BitVec 32} (h : Going m₀ buf len wait rounds got true w)
    (hst : healthOk st = false) :
    Filled m₀ buf len wait (- EIO) { w with log := w.log ++ [.status st] } where
  obeys := h.obeys.status st
  mem := by
    rw [stored_status]
    exact h.mem
  used := by simpa [words] using h.used
  reseeds := by simpa [Entropy.reseeds] using h.reseeds_le
  count hr := absurd hr (by decide)
  full hr := absurd hr (by decide)
  failed := by
    have hfailures : Entropy.failures (w.log ++ [.status st]) = 2 := by
      simpa [Entropy.failures, hst] using h.failures
    exact ⟨fun _ => .inl (by rw [hfailures]; decide), fun _ => rfl⟩
  negative _ := rfl

/-- **The reseed**, after the first failed reading. -/
theorem Going.reseed {st : BitVec 32} {w' : World} (h : Going m₀ buf len wait rounds got false w)
    (hst : healthOk st = false) (hr : Reseeded { w with log := w.log ++ [.status st] } w') :
    (Healed w'.log → Going m₀ buf len wait (rounds + 1) got true w') ∧
    (¬ Healed w'.log → Filled m₀ buf len wait (- EIO) w') := by
  have hwords : words w'.log = words w.log := hr.words.trans (by simp [words])
  have hempties : empties w'.log = empties w.log := hr.empties.trans (by simp [empties, hst])
  have hfailures : Entropy.failures w'.log = 1 := by
    rw [hr.failures]
    simpa [Entropy.failures, hst] using h.failures
  have hreseeds : Entropy.reseeds w'.log = 1 := by
    rw [hr.reseeds]
    simpa [Entropy.reseeds] using h.reseeds
  have hstored : stored len w'.log = stored len w.log := by rw [stored, stored, hwords]
  have hmem : w'.mem = m₀.write buf (stored len w'.log) := by
    rw [hstored, hr.mem]
    exact h.mem
  have hzero : Entropy.failures w.log = 0 := h.failures
  have hused : 8 * (words w'.log).length < len + 8 := by
    rw [hwords]
    exact h.used
  refine ⟨fun hhealed => ?_, fun hnot => ?_⟩
  · exact {
      obeys := hr.obeys, mem := hmem, used := hused, failures := hfailures, reseeds := hreseeds
      got := by rw [hstored, h.got]
      healed := ⟨fun _ => rfl, fun _ => hhealed⟩
      rounds := by rw [hempties, hwords, hfailures, h.rounds, hzero]
      waits := by
        rw [hempties]
        exact h.waits }
  · exact {
      obeys := hr.obeys, mem := hmem, used := hused, reseeds := hreseeds.le
      count := fun hr => absurd hr (by decide)
      full := fun hr => absurd hr (by decide)
      failed := ⟨fun _ => .inr ⟨by rw [hreseeds]; decide, hnot⟩, fun _ => rfl⟩
      negative := fun _ => rfl }

/-- **The loop**, from any of its rounds on. -/
theorem fillFrom_spec (fuel : ℕ) : ∀ {rounds got : ℕ} {reseeded : Bool} {w : World},
    Going m₀ buf len wait rounds got reseeded w →
    Safe (fun w' => ∃ got reseeded, Going m₀ buf len wait (rounds + fuel) got reseeded w')
      (fillFrom buf len wait fuel got reseeded) w fun r w' => Filled m₀ buf len wait r w' := by
  induction fuel with
  | zero => exact fun {_ got reseeded _} h => .stop ⟨got, reseeded, h⟩
  | succ fuel ih =>
    intro rounds got reseeded w h
    have hrounds : rounds + (fuel + 1) = rounds + 1 + fuel := by omega
    rw [hrounds]
    refine .ite (fun hgot => ?_) fun hgot => .pure (h.filled fun _ => ?_)
    · refine trngStatus_spec.bind fun st w₁ hw => ?_
      subst hw
      refine .ite (fun hst => .ite (fun hre => ?_) fun hre => ?_)
        fun hst => .ite (fun hempty => ?_) fun hready => ?_
      · subst hre
        exact .pure (h.fails hst)
      · obtain rfl : reseeded = false := Bool.not_eq_true _ ▸ hre
        have hnot : ¬ Healed (w.log ++ [.status st]) := by
          rw [healed_snoc, not_or, h.healed]
          exact ⟨Bool.false_ne_true, healed_status⟩
        refine (trngReseed_spec (h.obeys.status st) List.getLast?_concat hst hnot).bind
          fun rc w' ⟨hr, hrc⟩ => .ite (fun hne => .pure ?_) fun h0 => ?_
        · exact (h.reseed hst hr).2 fun hh => hne (hrc.mpr hh)
        · exact ih ((h.reseed hst hr).1 (hrc.mp (not_not.mp h0)))
      · have hok := Bool.not_eq_false _ ▸ hst
        refine .ite (fun hwait => .pure ?_) fun hwait => ih (h.empty hok hempty (Bool.not_eq_false _ ▸ hwait))
        exact (h.filled fun ht => absurd (ht.symm.trans hwait) (by decide)).status hok
      · refine trngData_spec.bind fun d w₂ hw => ?_
        subst hw
        refine Safe.bind (.of_run rfl (h.pop hgot (Bool.not_eq_false _ ▸ hst) (Bool.not_eq_false _ ▸ hready)))
          fun _ _ h => ih h
    · have hle := h.got_le
      omega

theorem going_start (env : Env) (m₀ : Mem) (buf len : ℕ) (wait : Bool) :
    Going m₀ buf len wait 0 0 false ⟨env, [], m₀⟩ where
  obeys := obeys_nil
  mem := by
    rw [stored_nil]
    exact (m₀.write_nil buf).symm
  got := by rw [stored_nil, List.length_nil]
  used := Nat.succ_pos _
  failures := rfl
  reseeds := rfl
  healed := ⟨fun ⟨_, hmem, _⟩ => absurd hmem List.not_mem_nil, fun h => absurd h Bool.false_ne_true⟩
  rounds := rfl
  waits h := absurd h (Nat.lt_irrefl 0)

/-- **Entropy comes only from a healthy source**, for every device, every length and after any number of
rounds: each word is popped right after a reading that showed it and `HEALTH_OK`; the bytes stored are those
of the words popped, each word used once, in order and none beyond `len`; there is at most one reseed, right
after a failed reading.  A call that returns a count has stored so many bytes, all `len` if it waits, and it
returns `-EIO` exactly when the health test fails a second time or the reseed does. -/
theorem trngFill_healthy (env : Env) (m₀ : Mem) (fuel buf len : ℕ) (wait : Bool) :
    Safe (fun w => ∃ got reseeded, Going m₀ buf len wait fuel got reseeded w)
      (trngFill fuel buf len wait) ⟨env, [], m₀⟩ fun r w => Filled m₀ buf len wait r w := by
  have h := fillFrom_spec fuel (going_start env m₀ buf len wait)
  rwa [Nat.zero_add] at h

/-! ## The entry points -/

def ENODATA : ℤ := 61

def trngGetEntropy (fuel buf len : ℕ) : Cut World ℤ := do
  let ret ← trngFill fuel buf len true
  return if ret < 0 then ret else 0

def trngGetEntropyIsr (fuel buf len : ℕ) (busywait : Bool) : Cut World ℤ := do
  let ret ← trngFill fuel buf len busywait
  return if ret = 0 ∧ 0 < len then - ENODATA else ret

theorem trngFill_spec (env : Env) (m₀ : Mem) (fuel buf len : ℕ) (wait : Bool) :
    Safe (fun w => ∃ got reseeded, Going m₀ buf len wait fuel got reseeded w)
      (trngFill fuel buf len wait) ⟨env, [], m₀⟩ fun r w => Filled m₀ buf len wait r w := by
  have h := fillFrom_spec fuel (going_start env m₀ buf len wait)
  rwa [Nat.zero_add] at h

/-- The rounds of a call under way: one for each word, one for a failed reading, the others met an empty FIFO. -/
theorem Going.rounds_le (h : Going m₀ buf len wait fuel got reseeded w) :
    fuel ≤ empties w.log + (len + 7) / 8 + 1 := by
  have hrounds := h.rounds
  have hused := h.used
  have hfailures := h.failures
  split at hfailures <;> omega

/-- **`entropy_get_entropy`** returns 0 with all of the buffer filled, or `-EIO` after a second failed reading
or a failed reseed; it goes on only as long as the FIFO is empty. -/
theorem trngGetEntropy_full (env : Env) (m₀ : Mem) (fuel buf len : ℕ) :
    Safe (fun w => fuel ≤ empties w.log + (len + 7) / 8 + 1) (trngGetEntropy fuel buf len) ⟨env, [], m₀⟩
      fun r w => Obeys w.log ∧ w.mem = m₀.write buf (stored len w.log) ∧
        (r = 0 ∧ (stored len w.log).length = len ∨
          r = - EIO ∧ (1 < failures w.log ∨ ReseedFailed w.log)) := by
  refine ((trngFill_spec env m₀ fuel buf len true).weaken fun w ⟨_, _, h⟩ => h.rounds_le).bind
    fun ret w h => .pure ⟨h.obeys, h.mem, ?_⟩
  split
  case isTrue hneg =>
    have hret := h.negative hneg
    exact .inr ⟨hret, h.failed.mp hret⟩
  case isFalse hpos =>
    have hcount := h.count (not_lt.mp hpos)
    have hfull := h.full (not_lt.mp hpos) rfl
    exact .inl ⟨rfl, by omega⟩

/-- **`entropy_get_entropy_isr` without busy-waiting returns**, whatever the device does: with the number of
bytes it stored, `-ENODATA` if there were none, or `-EIO`. -/
theorem trngGetEntropyIsr_returns (env : Env) (m₀ : Mem) {fuel len : ℕ} (buf : ℕ)
    (hfuel : (len + 7) / 8 + 1 < fuel) :
    Ends (trngGetEntropyIsr fuel buf len false) ⟨env, [], m₀⟩ fun r w =>
      Obeys w.log ∧ w.mem = m₀.write buf (stored len w.log) ∧
        (r = (stored len w.log).length ∧ (0 < len → 0 < r) ∨ r = - ENODATA ∧ stored len w.log = [] ∨
          r = - EIO ∧ (1 < failures w.log ∨ ReseedFailed w.log)) := by
  have hends : Ends (trngFill fuel buf len false) ⟨env, [], m₀⟩ fun r w => Filled m₀ buf len false r w := by
    refine (trngFill_spec env m₀ fuel buf len false).weaken fun w ⟨_, _, h⟩ => ?_
    have hempties : ¬ 0 < empties w.log := fun hpos => Bool.false_ne_true (h.waits hpos)
    have hrounds := h.rounds_le
    omega
  refine hends.bind fun ret w h => .pure ⟨h.obeys, h.mem, ?_⟩
  split
  case isTrue hnone =>
    have hcount := h.count hnone.1.ge
    rw [hnone.1] at hcount
    exact .inr (.inl ⟨rfl, List.eq_nil_of_length_eq_zero (by omega)⟩)
  case isFalse hsome =>
    rcases lt_or_ge ret 0 with hneg | hpos
    · have hret := h.negative hneg
      exact .inr (.inr ⟨hret, h.failed.mp hret⟩)
    · exact .inl ⟨h.count hpos, fun hlen => lt_of_le_of_ne hpos fun heq => hsome ⟨heq.symm, hlen⟩⟩

/-- Eight bytes of a device that is always ready. -/
theorem trngGetEntropyIsr_returns_eight : Ends (trngGetEntropyIsr 3 0 8 false)
    ⟨⟨fun _ => 3, fun _ => 7⟩, [], fun _ => 0⟩ fun r w => Obeys w.log ∧ r ≠ 0 := by
  refine (trngGetEntropyIsr_returns ⟨fun _ => 3, fun _ => 7⟩ (fun _ => 0) 0 (by decide)).mono fun r w h => ⟨h.1, ?_⟩
  rcases h.2.2 with ⟨-, hpos⟩ | ⟨rfl, -⟩ | ⟨rfl, -⟩
  · exact (hpos (by decide)).ne'
  · decide
  · decide

end KlaussRuntime.Entropy
