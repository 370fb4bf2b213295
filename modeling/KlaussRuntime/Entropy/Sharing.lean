import KlaussRuntime.Entropy.Trng
import KlaussRuntime.Machinery.Machine
import Mathlib.Data.Fintype.Basic
import Mathlib.Data.List.Nodup
import Mathlib.Logic.Function.Basic

/-!
# Entropy/Sharing — the generator's FIFO and those who read it

Threads seed wolfSSL with `klausscpu_trng_seed` and take entropy from the driver, each in accesses to `STATUS`,
`DATA` and `CTRL`.  An access is a step.  The driver holds a spinlock, and on one processor nobody else runs
meanwhile; `trng_read` takes no lock.  The FIFO can be refilled and the health tests can change between any two
steps.

Words are numbered as they enter the FIFO, so that each is told from every other.  A read of `DATA` that finds
the FIFO empty brings none.  Both users test `READY` first, and between the test and the read the word can be
taken by somebody else (`not_forall_fresh`), or dropped by a reseed.  If nobody takes or drops words while
another is between the two, every read brings a word of its own (`words_once`).
-/

namespace KlaussRuntime.Entropy.Sharing

open Machinery

/-- The access a thread makes next. -/
inductive Pc where
  | idle
  /-- `trng_health_ok` reads `STATUS` -/
  | health (sz : ℕ)
  /-- `trng_read` reads `STATUS` -/
  | test (done sz : ℕ)
  /-- `trng_read` reads `DATA` -/
  | pop (done sz : ℕ)
  /-- `trng_fill` reads `STATUS` -/
  | fillTest (got len : ℕ) (wait reseeded : Bool)
  /-- `trng_fill` reads `DATA` -/
  | fillPop (got len : ℕ) (wait reseeded : Bool)
  /-- `trng_reseed` writes `CTRL` -/
  | reseed (got len : ℕ) (wait : Bool)
  /-- `trng_reseed` reads `STATUS`, so many times yet -/
  | poll (n got len : ℕ) (wait : Bool)

/-- A read of `DATA`: whose, where the bytes go and how many are used, and the word. -/
structure Read (T : Type*) where
  thread : T
  offset : ℕ
  bytes : ℕ
  word : Option ℕ

structure Sys (T : Type*) where
  /-- the FIFO, oldest first -/
  fifo : List ℕ
  /-- the number of the next word to enter it -/
  fresh : ℕ
  healthy : Bool
  /-- who holds `trng_lock` -/
  holder : Option T
  pc : T → Pc
  /-- ghost: the reads of `DATA` -/
  reads : List (Read T)

inductive Act (T : Type*) where
  | refill
  | setHealth (ok : Bool)
  /-- `klausscpu_trng_seed(…, sz)` is called -/
  | seed (t : T) (sz : ℕ)
  /-- `trng_get_entropy`, or `trng_get_entropy_isr` with or without waiting -/
  | entropy (t : T) (len : ℕ) (wait : Bool)
  /-- the thread's next access -/
  | go (t : T)

variable {T : Type*} [DecidableEq T]

namespace Sys

def init : Sys T := ⟨[], 0, true, none, fun _ => .idle, []⟩

/-- Nobody else holds the lock. -/
def Runs (s : Sys T) (t : T) : Prop := s.holder = none ∨ s.holder = some t

instance decidableRuns (s : Sys T) (t : T) : Decidable (s.Runs t) := inferInstanceAs (Decidable (_ ∨ _))

def goto (s : Sys T) (t : T) (p : Pc) : Sys T := { s with pc := Function.update s.pc t p }

/-- The lock is given back and the call returns. -/
def unlock (s : Sys T) (t : T) : Sys T := { s.goto t .idle with holder := none }

/-- `DATA` is read. -/
def pop (s : Sys T) (t : T) (offset bytes : ℕ) : Sys T :=
  { s with fifo := s.fifo.tail, reads := s.reads ++ [⟨t, offset, bytes, s.fifo.head?⟩] }

/-- The loop test of `trng_read`. -/
def readFrom (s : Sys T) (t : T) (done sz : ℕ) : Sys T :=
  s.goto t (if done < sz then .test done sz else .idle)

/-- The loop test of `trng_fill`. -/
def fillFrom (s : Sys T) (t : T) (got len : ℕ) (wait reseeded : Bool) : Sys T :=
  if got < len then s.goto t (.fillTest got len wait reseeded) else s.unlock t

/-- The next access of a thread. -/
def access (s : Sys T) (t : T) : Option (Sys T) :=
  match s.pc t with
  | .idle => none
  | .health sz => some (if s.healthy = true ∨ s.fifo ≠ [] then s.readFrom t 0 sz else s.goto t .idle)
  | .test done sz => some (s.goto t (if s.fifo ≠ [] then .pop done sz else .test done sz))
  | .pop done sz =>
    some ((s.pop t done (min 8 (sz - done))).readFrom t (done + min 8 (sz - done)) sz)
  | .fillTest got len wait reseeded =>
    some (
      if s.healthy = false then
        if reseeded then s.unlock t else s.goto t (.reseed got len wait)
      else if s.fifo = [] then
        if wait then s else s.unlock t
      else s.goto t (.fillPop got len wait reseeded))
  | .fillPop got len wait reseeded =>
    some ((s.pop t got (min 8 (len - got))).fillFrom t (got + min 8 (len - got)) len wait reseeded)
  | .reseed got len wait => some ({ s with fifo := [] }.goto t (.poll TRNG_READY_POLLS got len wait))
  | .poll 0 .. => some (s.unlock t)
  | .poll (n + 1) got len wait =>
    some (
      if s.fifo = [] then s.goto t (.poll n got len wait)
      else if s.healthy then s.goto t (.fillTest got len wait true)
      else s.unlock t)

/-- A thread that is in no call. -/
def idle (s : Sys T) (t : T) : Bool :=
  match s.pc t with
  | .idle => true
  | _ => false

def step (s : Sys T) : Act T → Option (Sys T)
  | .refill => some { s with fifo := s.fifo ++ [s.fresh], fresh := s.fresh + 1 }
  | .setHealth ok => some { s with healthy := ok }
  | .seed t sz => if s.Runs t ∧ s.idle t = true then some (s.goto t (.health sz)) else none
  | .entropy t len wait =>
    if s.holder = none ∧ s.idle t = true then some ({ s with holder := some t }.fillFrom t 0 len wait false)
    else none
  | .go t => if s.Runs t then s.access t else none

end Sys

/-! ## What a step does to the FIFO -/

/-- Between a reading that showed `READY` and the read of `DATA`. -/
def Pc.Ready : Pc → Prop
  | .pop .. | .fillPop .. => True
  | _ => False

/-- The next access takes a word, or drops them all. -/
def Pc.Takes : Pc → Prop
  | .pop .. | .fillPop .. | .reseed .. => True
  | _ => False

/-- Words are taken and dropped while no other thread is between its test and its read. -/
def alone (s : Sys T) : Act T → Prop
  | .go t => (s.pc t).Takes → ∀ u, u ≠ t → ¬ (s.pc u).Ready
  | _ => True

namespace Sys

/-- The words that were read. -/
def words (s : Sys T) : List ℕ := s.reads.filterMap Read.word

variable {s s' : Sys T} {a : Act T} {t u : T} {p : Pc}

/-- The words stay as they are; a thread that has come to its read of `DATA` saw one. -/
structure Still (s s' : Sys T) : Prop where
  fifo : s'.fifo = s.fifo
  fresh : s'.fresh = s.fresh
  reads : s'.reads = s.reads
  ready : ∀ u, (s'.pc u).Ready → (s.pc u).Ready ∨ s.fifo ≠ []

/-- `t` takes or drops words, and is then not at its read of `DATA`. -/
structure Leaves (t : T) (s s' : Sys T) : Prop where
  takes : (s.pc t).Takes
  fresh : s'.fresh = s.fresh
  ready : ∀ u, (s'.pc u).Ready → u ≠ t ∧ (s.pc u).Ready

theorem ready_goto (h : ((s.goto t p).pc u).Ready) : u = t ∧ p.Ready ∨ u ≠ t ∧ (s.pc u).Ready := by
  rcases eq_or_ne u t with rfl | hne
  · exact .inl ⟨rfl, by simpa [goto] using h⟩
  · exact .inr ⟨hne, by simpa [goto, hne] using h⟩

theorem ready_goto_of_not (hp : ¬ p.Ready) (h : ((s.goto t p).pc u).Ready) : u ≠ t ∧ (s.pc u).Ready :=
  (ready_goto h).resolve_left fun hu => hp hu.2

theorem ready_readFrom {done sz : ℕ} (h : ((s.readFrom t done sz).pc u).Ready) :
    u ≠ t ∧ (s.pc u).Ready := by
  refine ready_goto_of_not ?_ h
  split <;> exact id

theorem ready_unlock (h : ((s.unlock t).pc u).Ready) : u ≠ t ∧ (s.pc u).Ready :=
  ready_goto_of_not (p := .idle) id h

theorem ready_fillFrom {got len : ℕ} {wait reseeded : Bool}
    (h : ((s.fillFrom t got len wait reseeded).pc u).Ready) : u ≠ t ∧ (s.pc u).Ready := by
  unfold fillFrom at h
  split at h
  · exact ready_goto_of_not (p := .fillTest got len wait reseeded) id h
  · exact ready_unlock h

theorem still_goto (hp : p.Ready → s.fifo ≠ []) : s.Still (s.goto t p) :=
  ⟨rfl, rfl, rfl, fun _ h => (ready_goto h).elim (fun hu => .inr (hp hu.2)) fun hu => .inl hu.2⟩

theorem still_unlock : s.Still (s.unlock t) := ⟨rfl, rfl, rfl, fun _ h => .inl (ready_unlock h).2⟩

theorem still_readFrom {done sz : ℕ} : s.Still (s.readFrom t done sz) :=
  ⟨rfl, rfl, rfl, fun _ h => .inl (ready_readFrom h).2⟩

theorem fillFrom_words (s : Sys T) (t : T) (got len : ℕ) (wait reseeded : Bool) :
    (s.fillFrom t got len wait reseeded).fifo = s.fifo ∧
    (s.fillFrom t got len wait reseeded).fresh = s.fresh ∧
    (s.fillFrom t got len wait reseeded).reads = s.reads := by
  unfold fillFrom
  split <;> exact ⟨rfl, rfl, rfl⟩

/-- `t` reads `DATA`. -/
structure Pops (t : T) (s s' : Sys T) : Prop extends Leaves t s s' where
  wasReady : (s.pc t).Ready
  fifo : s'.fifo = s.fifo.tail
  reads : ∃ offset bytes, bytes ≤ 8 ∧ s'.reads = s.reads ++ [⟨t, offset, bytes, s.fifo.head?⟩]

/-- `t` reseeds. -/
structure Drops (t : T) (s s' : Sys T) : Prop extends Leaves t s s' where
  fifo : s'.fifo = []
  reads : s'.reads = s.reads

/-- **What an access does**: nothing to the words, or it takes one, or it drops them all. -/
theorem access_cases (h : s.access t = some s') : s.Still s' ∨ Pops t s s' ∨ Drops t s s' := by
  unfold access at h
  split at h
  case h_1 => cases h
  case h_2 sz _ =>
    cases h
    left
    split
    · exact still_readFrom
    · exact still_goto fun hp => hp.elim
  case h_3 done sz _ =>
    cases h
    left
    split
    case isTrue hne => exact still_goto fun _ => hne
    case isFalse => exact still_goto fun hp => hp.elim
  case h_4 done sz hpc =>
    cases h
    exact .inr (.inl ⟨⟨by rw [hpc]; trivial, rfl, fun u hu => ready_readFrom hu⟩, by rw [hpc]; trivial,
      rfl, done, _, Nat.min_le_left .., rfl⟩)
  case h_5 got len wait reseeded _ =>
    cases h
    left
    split_ifs with hbad hre hempty hwait
    · exact still_unlock
    · exact still_goto fun hp => hp.elim
    · exact ⟨rfl, rfl, rfl, fun _ hu => .inl hu⟩
    · exact still_unlock
    · exact still_goto fun _ => hempty
  case h_6 got len wait reseeded hpc =>
    cases h
    obtain ⟨hfifo, hfresh, hreads⟩ := fillFrom_words (s.pop t got (min 8 (len - got))) t
      (got + min 8 (len - got)) len wait reseeded
    have hready : ∀ u, (((s.pop t got (min 8 (len - got))).fillFrom t (got + min 8 (len - got)) len wait
        reseeded).pc u).Ready → u ≠ t ∧ (s.pc u).Ready := fun u hu => ready_fillFrom (s := s.pop t got _) hu
    exact .inr (.inl ⟨⟨by rw [hpc]; trivial, hfresh, hready⟩, by rw [hpc]; trivial, hfifo, got, _,
      Nat.min_le_left .., hreads⟩)
  case h_7 got len wait hpc =>
    cases h
    have hready : ∀ u, (({ s with fifo := [] }.goto t (.poll TRNG_READY_POLLS got len wait)).pc u).Ready →
        u ≠ t ∧ (s.pc u).Ready := fun u hu => ready_goto_of_not (p := .poll ..) id hu
    exact .inr (.inr ⟨⟨by rw [hpc]; trivial, rfl, hready⟩, rfl, rfl⟩)
  case h_8 =>
    cases h
    exact .inl still_unlock
  case h_9 n got len wait _ =>
    cases h
    left
    split_ifs
    · exact still_goto fun hp => hp.elim
    · exact still_goto fun hp => hp.elim
    · exact still_unlock

/-- A word enters the FIFO. -/
structure Refills (s s' : Sys T) : Prop where
  fifo : s'.fifo = s.fifo ++ [s.fresh]
  fresh : s'.fresh = s.fresh + 1
  reads : s'.reads = s.reads
  pc : s'.pc = s.pc

/-- **What a step does** to the words, and to who is at its read of `DATA`. -/
theorem step_cases (h : s.step a = some s') :
    s.Still s' ∨ s.Refills s' ∨ ∃ t, a = .go t ∧ (Pops t s s' ∨ Drops t s s') := by
  cases a with
  | refill =>
    cases h
    exact .inr (.inl ⟨rfl, rfl, rfl, rfl⟩)
  | setHealth ok =>
    cases h
    exact .inl ⟨rfl, rfl, rfl, fun _ hu => .inl hu⟩
  | seed t sz =>
    rw [step, Option.ite_none_right_eq_some] at h
    obtain rfl := Option.some.inj h.2
    exact .inl (still_goto fun hp => hp.elim)
  | entropy t len wait =>
    rw [step, Option.ite_none_right_eq_some] at h
    obtain rfl := Option.some.inj h.2
    obtain ⟨hfifo, hfresh, hreads⟩ := fillFrom_words { s with holder := some t } t 0 len wait false
    exact .inl ⟨hfifo, hfresh, hreads, fun u hu => .inl (ready_fillFrom hu).2⟩
  | go t =>
    rw [step, Option.ite_none_right_eq_some] at h
    exact (access_cases h.2).imp_right fun hleaves => .inr ⟨t, rfl, hleaves⟩

/-! ## Words are different -/

/-- The words read and those in the FIFO are all different, and older than the next. -/
structure Distinct (s : Sys T) : Prop where
  nodup : (s.words ++ s.fifo).Nodup
  lt : ∀ i ∈ s.words ++ s.fifo, i < s.fresh

omit [DecidableEq T] in
theorem words_pop {offset bytes : ℕ} (hreads : s'.reads = s.reads ++ [⟨t, offset, bytes, s.fifo.head?⟩]) :
    s'.words ++ s.fifo.tail = s.words ++ s.fifo := by
  rw [words, hreads, List.filterMap_append]
  cases hfifo : s.fifo <;> simp [words]

omit [DecidableEq T] in
theorem Distinct.sublist (h : s.Distinct) (hsub : (s'.words ++ s'.fifo).Sublist (s.words ++ s.fifo))
    (hfresh : s'.fresh = s.fresh) : s'.Distinct :=
  ⟨h.nodup.sublist hsub, fun i hi => hfresh ▸ h.lt i (hsub.subset hi)⟩

theorem Distinct.step (h : s.Distinct) (hstep : s.step a = some s') : s'.Distinct := by
  obtain hs | hr | ⟨t, -, hpops | hdrops⟩ := step_cases hstep
  · exact h.sublist (by rw [words, hs.reads, hs.fifo, words]) hs.fresh
  · have hwords : s'.words = s.words := by rw [words, words, hr.reads]
    have hnew : s.fresh ∉ s.words ++ s.fifo := fun hmem => Nat.lt_irrefl _ (h.lt _ hmem)
    refine ⟨?_, fun i hi => ?_⟩
    · rw [hwords, hr.fifo, ← List.append_assoc]
      exact List.concat_eq_append ▸ h.nodup.concat hnew
    · rw [hwords, hr.fifo, ← List.append_assoc, List.mem_append, List.mem_singleton] at hi
      rw [hr.fresh]
      rcases hi with hold | rfl
      · exact Nat.lt_succ_of_lt (h.lt i hold)
      · exact Nat.lt_succ_self _
  · obtain ⟨offset, bytes, -, hreads⟩ := hpops.reads
    refine h.sublist ?_ hpops.fresh
    rw [hpops.fifo, words_pop hreads]
  · refine h.sublist ?_ hdrops.fresh
    rw [hdrops.fifo, List.append_nil, words, hdrops.reads]
    exact List.sublist_append_left ..

/-! ## Undisturbed reads -/

/-- A thread that is at its read of `DATA` finds a word; every read so far did. -/
structure Fresh (s : Sys T) : Prop where
  ready : ∀ t, (s.pc t).Ready → s.fifo ≠ []
  reads : ∀ r ∈ s.reads, r.bytes ≤ 8 ∧ r.word ≠ none

theorem Fresh.step (h : s.Fresh) (halone : alone s a) (hstep : s.step a = some s') : s'.Fresh := by
  obtain hs | hr | ⟨t, rfl, hleaves⟩ := step_cases hstep
  · refine ⟨fun u hu => ?_, fun r hr => h.reads r (hs.reads ▸ hr)⟩
    rw [hs.fifo]
    exact (hs.ready u hu).elim (h.ready u) id
  · refine ⟨fun u _ => ?_, fun r hmem => h.reads r (hr.reads ▸ hmem)⟩
    rw [hr.fifo]
    exact List.append_ne_nil_of_right_ne_nil _ (List.cons_ne_nil _ _)
  · have hnone : ∀ u, ¬ (s'.pc u).Ready := fun u hu => by
      have hl : s.Leaves t s' := by
        rcases hleaves with hpops | hdrops
        · exact hpops.toLeaves
        · exact hdrops.toLeaves
      exact halone hl.takes u (hl.ready u hu).1 (hl.ready u hu).2
    refine ⟨fun u hu => absurd hu (hnone u), fun r hr => ?_⟩
    rcases hleaves with hpops | hdrops
    · obtain ⟨offset, bytes, hbytes, hreads⟩ := hpops.reads
      rw [hreads, List.mem_append, List.mem_singleton] at hr
      rcases hr with hold | rfl
      · exact h.reads r hold
      · exact ⟨hbytes, by simpa using h.ready t hpops.wasReady⟩
    · exact h.reads r (hdrops.reads ▸ hr)

omit [DecidableEq T] in
theorem init_distinct : (init : Sys T).Distinct := ⟨List.nodup_nil, fun _ hi => by cases hi⟩

omit [DecidableEq T] in
theorem init_fresh : (init : Sys T).Fresh := ⟨fun _ h => h.elim, fun _ hr => by cases hr⟩

omit [DecidableEq T] in
theorem Fresh.map_word (h : s.Fresh) : s.reads.map Read.word = s.words.map some := by
  have hall : ∀ reads : List (Read T), (∀ r ∈ reads, r.word ≠ none) →
      reads.map Read.word = (reads.filterMap Read.word).map some := fun reads hreads => by
    induction reads with
    | nil => rfl
    | cons r reads ih =>
      obtain ⟨i, hi⟩ := Option.ne_none_iff_exists'.mp (hreads r (List.mem_cons_self ..))
      rw [List.map_cons, List.filterMap_cons_some hi, List.map_cons, hi,
        ih fun r hr => hreads r (List.mem_cons_of_mem _ hr)]
  exact hall s.reads fun r hr => (h.reads r hr).2

/-- **Random words are handed out once**, to any number of threads in either function and whenever the FIFO is
refilled, if words are taken and dropped only while nobody else is between testing `READY` and reading `DATA`:
every read of `DATA` finds a word, gives at most 8 bytes of it, and no two reads bring the same. -/
theorem words_once {s : Sys T} (hrun : Reaches step alone init s) :
    (∀ r ∈ s.reads, r.bytes ≤ 8 ∧ r.word ≠ none) ∧ (s.reads.map Read.word).Nodup := by
  have hfresh : s.Fresh := hrun.invariant (fun hs halone hstep => hs.step halone hstep) init_fresh
  have hdistinct : s.Distinct := hrun.invariant (fun hs _ hstep => hs.step hstep) init_distinct
  refine ⟨hfresh.reads, ?_⟩
  rw [hfresh.map_word]
  exact (List.Nodup.of_append_left hdistinct.nodup).map (Option.some_injective ℕ)

/-- Two threads, the one taking 12 bytes of seed, the other entropy in between. -/
def undisturbed : List (Act Bool) :=
  [.refill, .refill, .refill, .seed true 12, .go true, .go true, .go true, .entropy false 4 true, .go false,
    .go false, .go true, .go true]

instance decidableReady : ∀ p : Pc, Decidable p.Ready
  | .pop .. | .fillPop .. => .isTrue trivial
  | .idle | .health _ | .test .. | .fillTest .. | .reseed .. | .poll .. => .isFalse id

instance decidableTakes : ∀ p : Pc, Decidable p.Takes
  | .pop .. | .fillPop .. | .reseed .. => .isTrue trivial
  | .idle | .health _ | .test .. | .fillTest .. | .poll .. => .isFalse id

instance decidableAlone [Fintype T] (s : Sys T) : ∀ a, Decidable (alone s a)
  | .go t => inferInstanceAs (Decidable ((s.pc t).Takes → ∀ u, u ≠ t → ¬ (s.pc u).Ready))
  | .refill | .setHealth _ | .seed .. | .entropy .. => .isTrue trivial

theorem words_once_three : ∃ s, runAll step alone init undisturbed = some s ∧
    s.reads.map Read.word = [some 0, some 1, some 2] ∧
    (∀ r ∈ s.reads, r.bytes ≤ 8 ∧ r.word ≠ none) ∧ (s.reads.map Read.word).Nodup := by
  have hend : (runAll step alone init undisturbed).map (fun s => s.reads.map Read.word)
      = some [some 0, some 1, some 2] := by decide +kernel
  obtain ⟨s, hs, hwords⟩ := Option.map_eq_some_iff.mp hend
  exact ⟨s, hs, hwords, words_once (Reaches.of_runAll _ hs)⟩

/-- **An empty read**: two threads that seed both see the last word. -/
theorem not_forall_fresh : ¬ ∀ s : Sys Bool, Reaches step anyStep init s →
    (∀ r ∈ s.reads, r.bytes ≤ 8 ∧ r.word ≠ none) ∧ (s.reads.map Read.word).Nodup := fun hall => by
  have hend : (runAll step anyStep init [.refill, .seed true 8, .go true, .go true, .seed false 8,
      .go false, .go false, .go true, .go false]).map (fun s => (s.reads.map Read.word).getLast?)
        = some (some none) := by decide +kernel
  obtain ⟨s, hs, hlast⟩ := Option.map_eq_some_iff.mp hend
  obtain ⟨r, hr, hword⟩ := List.mem_map.mp (List.mem_of_getLast? hlast)
  exact ((hall s (Reaches.of_runAll _ hs)).1 r hr).2 hword

end Sys

end KlaussRuntime.Entropy.Sharing
