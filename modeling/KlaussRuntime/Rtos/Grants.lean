import KlaussRuntime.Machinery.Machine
import KlaussRuntime.Rtos.Kernel

/-!
# Rtos/Grants — a wait returns only for what was signalled

A `Sys` is the kernel with, for each task, where it stands and, as ghosts, how often each call has
returned.  Every step is one section between two points where the timer may fire: a tick, a call of
the current task up to its return or its switch, or the return out of `rtos_yield`.

Count for an object what it stores, the waits that have returned and the waits that were handed a unit
and have not returned yet.  As long as a task that has to block finds another one ready
(`SomeoneReady`), this never exceeds what was there initially and what was signalled (`Sys.Ok`).
Without it `rtos_yield` comes straight back to the blocked task, whose wait returns empty-handed.
-/

namespace KlaussRuntime.Rtos

open Machinery Function

/-! ## What waiting and signalling do -/

theorem toInt_pred {x : BitVec 32} (h : 0 < x.toInt) :
    (x - 1).toInt.toNat + 1 = x.toInt.toNat := by
  rw [BitVec.toInt_eq_toNat_cond] at h ⊢
  rw [BitVec.toInt_eq_toNat_cond]
  have hx := x.isLt
  have hsub : (x - 1).toNat = (2 ^ 32 - 1 + x.toNat) % 2 ^ 32 := by rw [BitVec.toNat_sub]; rfl
  rw [hsub]
  split_ifs at h ⊢ <;> omega

/-- `count++` raises what a semaphore grants by one at most: past `INT_MAX` it wraps. -/
theorem toInt_succ_le (x : BitVec 32) : (x + 1).toInt.toNat ≤ x.toInt.toNat + 1 := by
  rw [BitVec.toInt_eq_toNat_cond, BitVec.toInt_eq_toNat_cond]
  have hx := x.isLt
  have hadd : (x + 1).toNat = (x.toNat + 1) % 2 ^ 32 := by rw [BitVec.toNat_add]; rfl
  rw [hadd]
  split_ifs <;> omega

variable {k k' : Kernel} {i : ℕ} {o : SyncObj}

theorem stored_setSem (k : Kernel) (s : ℕ) (v : BitVec 32) :
    (k.setSem s v).stored (.sem s) = v.toInt.toNat := by
  simp only [Kernel.stored, Kernel.setSem, update_self]

theorem stored_setFlag (k : Kernel) (f : ℕ) (v : BitVec 32) :
    (k.setFlag f v).stored (.flag f) = if v = 0 then 0 else 1 := by
  simp only [Kernel.stored, Kernel.setFlag, update_self]

theorem stored_setSem_of_ne {s : ℕ} (v : BitVec 32) (h : o ≠ .sem s) :
    (k.setSem s v).stored o = k.stored o := by
  cases o with
  | sem s' =>
    have hne : s' ≠ s := fun e => h (congrArg _ e)
    simp only [Kernel.stored, Kernel.setSem, update_of_ne hne]
  | flag f => rfl

theorem stored_setFlag_of_ne {f : ℕ} (v : BitVec 32) (h : o ≠ .flag f) :
    (k.setFlag f v).stored o = k.stored o := by
  cases o with
  | sem s => rfl
  | flag f' =>
    have hne : f' ≠ f := fun e => h (congrArg _ e)
    simp only [Kernel.stored, Kernel.setFlag, update_of_ne hne]

/-- The tasks are as they were; only what the object `o` stores may differ. -/
structure Touches (o : SyncObj) (k k' : Kernel) : Prop where
  nTasks : k'.nTasks = k.nTasks
  tasks : k'.tasks = k.tasks
  cur : k'.cur = k.cur
  stored : ∀ o' ≠ o, k'.stored o' = k.stored o'

theorem touches_setSem (k : Kernel) (s : ℕ) (v : BitVec 32) : Touches (.sem s) k (k.setSem s v) :=
  ⟨rfl, rfl, rfl, fun _ => stored_setSem_of_ne v⟩

theorem touches_setFlag (k : Kernel) (f : ℕ) (v : BitVec 32) :
    Touches (.flag f) k (k.setFlag f v) :=
  ⟨rfl, rfl, rfl, fun _ => stored_setFlag_of_ne v⟩

theorem Touches.blockedOn (h : Touches o k k') (j : ℕ) (o' : SyncObj) :
    k'.BlockedOn j o' ↔ k.BlockedOn j o' := by
  simp only [Kernel.BlockedOn, h.tasks]

/-- **A wait** takes a unit and returns, or blocks and yields. -/
theorem perform_wait (k : Kernel) (i : ℕ) (o : SyncObj) :
    (∃ k', perform k i (.wait o) = .returns k' ∧ Touches o k k' ∧ k'.stored o + 1 = k.stored o) ∨
      k.stored o = 0 ∧
        perform k i (.wait o) = .yields (pickNextTask (k.block i o o.waitType)) := by
  cases o with
  | sem s =>
    by_cases hpos : (k.semCount s).toInt > 0
    · refine Or.inl ⟨_, if_pos hpos, touches_setSem k s _, ?_⟩
      rw [stored_setSem]
      exact toInt_pred hpos
    · exact Or.inr ⟨Int.toNat_of_nonpos (not_lt.mp hpos), if_neg hpos⟩
  | flag f =>
    by_cases hset : k.flagBits f ≠ 0
    · refine Or.inl ⟨_, if_pos hset, touches_setFlag k f _, ?_⟩
      rw [stored_setFlag, if_pos rfl, Kernel.stored, if_neg hset]
    · exact Or.inr ⟨if_pos (not_not.mp hset), if_neg hset⟩

/-- The woken task: ready, and waiting for nothing. -/
def TCB.woken (t : TCB) : TCB := { t with state := .ready, waitType := .none, waitObj := none }

theorem wakeOne_some (h : wakeOne k o o.waitType = some k') :
    ∃ j < k.nTasks, k.BlockedOn j o ∧ k' = k.setTask j (k.tasks j).woken := by
  simp only [wakeOne, Option.map_eq_some_iff] at h
  obtain ⟨j, hfind, rfl⟩ := h
  refine ⟨j, List.mem_range.mp (List.mem_of_find?_eq_some hfind), ?_, rfl⟩
  simpa [Kernel.BlockedOn] using List.find?_some hfind

/-- **A signal** hands a unit to a blocked task, or stores one at most; it returns either way. -/
theorem perform_signal (k : Kernel) (i : ℕ) (o : SyncObj) :
    ∃ k', perform k i (.signal o) = .returns k' ∧
      ((∃ j < k.nTasks, k.BlockedOn j o ∧ k' = k.setTask j (k.tasks j).woken) ∨
        Touches o k k' ∧ k'.stored o ≤ k.stored o + 1) := by
  cases o with
  | sem s =>
    simp only [perform, rtosSemSignal]
    split
    · rename_i k' hwake
      exact ⟨k', rfl, Or.inl (wakeOne_some hwake)⟩
    · refine ⟨_, rfl, Or.inr ⟨touches_setSem k s _, ?_⟩⟩
      rw [stored_setSem]
      exact toInt_succ_le _
  | flag f =>
    simp only [perform, rtosFlagSet]
    split
    · rename_i k' hwake
      exact ⟨k', rfl, Or.inl (wakeOne_some hwake)⟩
    · refine ⟨_, rfl, Or.inr ⟨touches_setFlag k f _, ?_⟩⟩
      rw [stored_setFlag, if_neg (by decide)]
      exact Nat.le_add_left _ _

/-! ## Runs -/

/-- Where a task stands. -/
inductive Where where
  /-- in its own code -/
  | user
  /-- in the `rtos_yield` of a call -/
  | inYield (c : Call)
deriving DecidableEq

structure Sys where
  kernel : Kernel
  /-- ghost: where each task stands -/
  pos : ℕ → Where
  /-- ghost: how often each call has returned -/
  done : Call → ℕ

inductive Act where
  /-- the timer fires -/
  | tick
  /-- the current task calls -/
  | call (c : Call)
  /-- the current task comes back from `rtos_yield` -/
  | resume
deriving DecidableEq

namespace Sys

variable (σ : Sys)

/-- One more return of a call. -/
def count (c : Call) : Call → ℕ := update σ.done c (σ.done c + 1)

/-- Carry a call of task `i` as far as its outcome says. -/
def proceed (i : ℕ) (c : Call) : Outcome → Sys
  | .returns k => { σ with kernel := k, done := σ.count c }
  | .yields k => { σ with kernel := k, pos := update σ.pos i (.inYield c) }

/-- `rtos_yield` returns to task `i`: the call it was made for returns too, except that
`rtos_task_exit` yields for ever. -/
def comeBack (i : ℕ) : Call → Sys
  | .exit => { σ with kernel := pickNextTask σ.kernel }
  | c => { σ with pos := update σ.pos i .user, done := σ.count c }

end Sys

def step (σ : Sys) (a : Act) : Option Sys :=
  match σ.kernel.cur with
  | none => none
  | some i =>
    match a, σ.pos i with
    | .tick, _ => some { σ with kernel := timerHandler σ.kernel }
    | .call c, .user => some (σ.proceed i c (perform σ.kernel i c))
    | .resume, .inYield c => some (σ.comeBack i c)
    | _, _ => none

/-- **What a step can be**: there is a current task, and the timer fires or it moves. -/
theorem step_cases {σ σ' : Sys} {a : Act} (h : step σ a = some σ') :
    ∃ i, σ.kernel.cur = some i ∧
      (a = .tick ∧ σ' = { σ with kernel := timerHandler σ.kernel } ∨
        (∃ c, a = .call c ∧ σ.pos i = .user ∧ σ' = σ.proceed i c (perform σ.kernel i c)) ∨
        ∃ c, a = .resume ∧ σ.pos i = .inYield c ∧ σ' = σ.comeBack i c) := by
  unfold step at h
  cases hcur : σ.kernel.cur with
  | none => simp [hcur] at h
  | some i =>
    simp only [hcur] at h
    refine ⟨i, rfl, ?_⟩
    split at h
    · exact .inl ⟨rfl, (Option.some.inj h).symm⟩
    · next c hpos => exact .inr (.inl ⟨c, rfl, hpos, (Option.some.inj h).symm⟩)
    · next c hpos => exact .inr (.inr ⟨c, rfl, hpos, (Option.some.inj h).symm⟩)
    · cases h

/-- The kernel after `rtos_init`, with the semaphores' initial counts and the flags clear. -/
def Kernel.init (counts : ℕ → BitVec 32) : Kernel where
  nTasks := 0
  nTasks_le := Nat.zero_le _
  tasks _ := ⟨.ready, 0, 0, 0, .none, none⟩
  cur := none
  tickCount := 0
  semCount := counts
  flagBits _ := 0

/-- `n` calls of `task_create`, then `rtos_start`. -/
def Sys.start (n : ℕ) (counts : ℕ → BitVec 32) : Sys where
  kernel := pickNextTask ((fun k => (taskCreate k).2)^[n] (Kernel.init counts))
  pos _ := .user
  done _ := 0

/-- **A task that has to block finds another task ready.** -/
def SomeoneReady (σ : Sys) : Act → Prop
  | .call (.wait o) => σ.kernel.stored o = 0 →
      ∃ j < σ.kernel.nTasks, σ.kernel.cur ≠ some j ∧ (σ.kernel.tasks j).state = .ready
  | _ => True

/-! ## The invariant -/

/-- The task's wait was handed a unit and has not returned yet. -/
def Sys.Granted (σ : Sys) (o : SyncObj) (j : ℕ) : Prop :=
  σ.pos j = .inYield (.wait o) ∧ ¬ σ.kernel.BlockedOn j o

instance (σ : Sys) (o : SyncObj) : DecidablePred (σ.Granted o) := fun _ =>
  inferInstanceAs (Decidable (_ ∧ _))

def Sys.granted (σ : Sys) (o : SyncObj) : ℕ := ((Finset.range rtosMaxTasks).filter (σ.Granted o)).card

structure Sys.Ok (init : SyncObj → ℕ) (σ : Sys) : Prop where
  /-- the current task is blocked on nothing -/
  curFree : CurFree σ.kernel
  /-- a task blocked on an object is in a wait for it -/
  waiting : ∀ j o, σ.kernel.BlockedOn j o → σ.pos j = .inYield (.wait o)
  /-- a task not created yet is nowhere -/
  fresh : ∀ j, σ.kernel.nTasks ≤ j → σ.pos j = .user
  /-- units are conserved -/
  grants : ∀ o, σ.kernel.stored o + σ.done (.wait o) + σ.granted o
    ≤ init o + σ.done (.signal o)

variable {σ σ' : Sys} {init : SyncObj → ℕ}

theorem Sys.granted_mono (h : ∀ j, σ'.Granted o j → σ.Granted o j) : σ'.granted o ≤ σ.granted o :=
  Finset.card_le_card (Finset.monotone_filter_right _ fun j _ hj => h j hj)

/-- One task more is granted at most, when only that task's situation changes. -/
theorem Sys.granted_le_succ {i : ℕ} (h : ∀ j ≠ i, σ'.Granted o j → σ.Granted o j) :
    σ'.granted o ≤ σ.granted o + 1 := by
  refine le_trans (Finset.card_le_card fun j hj => ?_) (Finset.card_insert_le i _)
  obtain ⟨hlt, hgr⟩ := Finset.mem_filter.mp hj
  by_cases hji : j = i
  · exact Finset.mem_insert.mpr (Or.inl hji)
  · exact Finset.mem_insert_of_mem (Finset.mem_filter.mpr ⟨hlt, h j hji hgr⟩)

theorem Sys.granted_succ_le {i : ℕ} (hi : i < rtosMaxTasks) (hold : σ.Granted o i)
    (hnew : ¬ σ'.Granted o i) (h : ∀ j ≠ i, σ'.Granted o j → σ.Granted o j) :
    σ'.granted o + 1 ≤ σ.granted o := by
  refine Finset.card_lt_card ⟨fun j hj => ?_, fun hsub => ?_⟩
  · obtain ⟨hlt, hgr⟩ := Finset.mem_filter.mp hj
    have hji : j ≠ i := by rintro rfl; exact hnew hgr
    exact Finset.mem_filter.mpr ⟨hlt, h j hji hgr⟩
  · have hmem := hsub (Finset.mem_filter.mpr ⟨Finset.mem_range.mpr hi, hold⟩)
    exact hnew (Finset.mem_filter.mp hmem).2

theorem Sys.count_self (σ : Sys) (c : Call) : σ.count c c = σ.done c + 1 := update_self _ _ _

theorem Sys.count_of_ne (σ : Sys) {c c' : Call} (h : c' ≠ c) : σ.count c c' = σ.done c' :=
  update_of_ne h _ _

theorem Sys.count_wait_signal (σ : Sys) (o o' : SyncObj) :
    σ.count (.wait o) (.signal o') = σ.done (.signal o') := σ.count_of_ne nofun

theorem Sys.count_signal_wait (σ : Sys) (o o' : SyncObj) :
    σ.count (.signal o) (.wait o') = σ.done (.wait o') := σ.count_of_ne nofun

namespace Sys.Ok

theorem of_keeps (h : σ.Ok init) {k : Kernel} (hk : Keeps σ.kernel k) (hfree : CurFree k) :
    Sys.Ok init { σ with kernel := k } where
  curFree := hfree
  waiting j o hb := h.waiting j o ((hk.blockedOn j o).mp hb)
  fresh j hj := h.fresh j (hk.nTasks ▸ hj)
  grants o := by
    have hmono : Sys.granted { σ with kernel := k } o ≤ σ.granted o :=
      Sys.granted_mono fun j hj => ⟨hj.1, (hk.blockedOn j o).not.mp hj.2⟩
    have := h.grants o
    simp only [hk.stored]
    omega

variable {i : ℕ}

/-- Moving the current task, in its own code, into the yield of a call that is no wait. -/
theorem enter (h : σ.Ok init) (hcur : σ.kernel.cur = some i) (c : Call) (hc : ∀ o, c ≠ .wait o) :
    Sys.Ok init { σ with pos := update σ.pos i (.inYield c) } where
  curFree := h.curFree
  waiting j o hb := by
    have hj : j ≠ i := by
      rintro rfl
      exact (h.curFree j hcur).2 o hb
    simp only [update_of_ne hj]
    exact h.waiting j o hb
  fresh j hj := by
    have hlt := (h.curFree i hcur).1
    simp only [update_of_ne (show j ≠ i by simp only at hj; omega)]
    exact h.fresh j hj
  grants o := by
    have hmono : Sys.granted { σ with pos := update σ.pos i (.inYield c) } o ≤ σ.granted o := by
      refine Sys.granted_mono fun j hj => ⟨?_, hj.2⟩
      have hji : j ≠ i := by
        rintro rfl
        have := hj.1
        simp only [update_self, Where.inYield.injEq] at this
        exact hc o this
      simpa only [update_of_ne hji] using hj.1
    have := h.grants o
    simp only
    omega

/-- A call that touches one object: what the object stores, the waits for it and the signals to it
change so that units are conserved. -/
theorem of_touches (h : σ.Ok init) {k : Kernel} (hk : Touches o σ.kernel k) {done : Call → ℕ}
    (hother : ∀ o' ≠ o, done (.wait o') = σ.done (.wait o') ∧ done (.signal o') = σ.done (.signal o'))
    (hunits : k.stored o + done (.wait o) + σ.done (.signal o)
      ≤ σ.kernel.stored o + σ.done (.wait o) + done (.signal o)) :
    Sys.Ok init { σ with kernel := k, done } where
  curFree c hc := by
    obtain ⟨hlt, hfree⟩ := h.curFree c (hk.cur ▸ hc)
    exact ⟨hk.nTasks ▸ hlt, fun o' => (hk.blockedOn c o').not.mpr (hfree o')⟩
  waiting j o' hb := h.waiting j o' ((hk.blockedOn j o').mp hb)
  fresh j hj := h.fresh j (hk.nTasks ▸ hj)
  grants o' := by
    have hmono : Sys.granted { σ with kernel := k, done } o' ≤ σ.granted o' :=
      Sys.granted_mono fun j hj => ⟨hj.1, (hk.blockedOn j o').not.mp hj.2⟩
    have hunit := h.grants o'
    simp only
    by_cases ho : o' = o
    · subst ho
      omega
    · obtain ⟨hwait, hsignal⟩ := hother o' ho
      rw [hk.stored o' ho, hwait, hsignal]
      omega

theorem take (h : σ.Ok init) {k : Kernel} (hk : Touches o σ.kernel k)
    (htake : k.stored o + 1 = σ.kernel.stored o) :
    Sys.Ok init { σ with kernel := k, done := σ.count (.wait o) } := by
  refine h.of_touches hk (fun o' ho => ⟨σ.count_of_ne (by simpa using ho), σ.count_wait_signal o o'⟩) ?_
  rw [σ.count_self, σ.count_wait_signal]
  omega

theorem store (h : σ.Ok init) {k : Kernel} (hk : Touches o σ.kernel k)
    (hstore : k.stored o ≤ σ.kernel.stored o + 1) :
    Sys.Ok init { σ with kernel := k, done := σ.count (.signal o) } := by
  refine h.of_touches hk (fun o' ho => ⟨σ.count_signal_wait o o', σ.count_of_ne (by simpa using ho)⟩) ?_
  rw [σ.count_self, σ.count_signal_wait]
  omega

theorem wake (h : σ.Ok init) {j : ℕ} (hb : σ.kernel.BlockedOn j o) :
    Sys.Ok init { σ with
      kernel := σ.kernel.setTask j (σ.kernel.tasks j).woken, done := σ.count (.signal o) } := by
  set k := σ.kernel.setTask j (σ.kernel.tasks j).woken with hk
  have hpos : σ.pos j = .inYield (.wait o) := h.waiting j o hb
  have hold : ∀ l ≠ j, ∀ o', k.BlockedOn l o' ↔ σ.kernel.BlockedOn l o' := fun l hl o' =>
    Kernel.blockedOn_setTask_of_ne hl _ o'
  have hself : ∀ o', ¬ k.BlockedOn j o' :=
    Kernel.not_blockedOn (by rw [hk, Kernel.setTask_tasks_self]; nofun)
  constructor
  · intro c hc
    obtain ⟨hlt, hfree⟩ := h.curFree c hc
    have hne : c ≠ j := by rintro rfl; exact hfree o hb
    exact ⟨hlt, fun o' => (hold c hne o').not.mpr (hfree o')⟩
  · intro l o' hl
    have hne : l ≠ j := by rintro rfl; exact hself o' hl
    exact h.waiting l o' ((hold l hne o').mp hl)
  · exact h.fresh
  · intro o'
    have hunit := h.grants o'
    have hstored : k.stored o' = σ.kernel.stored o' := by cases o' <;> rfl
    simp only [hstored, σ.count_signal_wait]
    have hrest : ∀ l ≠ j, Sys.Granted { σ with kernel := k, done := σ.count (.signal o) } o' l →
        σ.Granted o' l := fun l hl hg => ⟨hg.1, (hold l hl o').not.mp hg.2⟩
    by_cases ho : o' = o
    · subst ho
      have hle := Sys.granted_le_succ hrest
      rw [σ.count_self]
      omega
    · -- the woken task waits for another object
      have hle := Sys.granted_mono (o := o') fun l hg =>
        hrest l (by rintro rfl; exact ho (by simpa [hpos] using hg.1.symm)) hg
      rw [σ.count_of_ne (by simpa using ho)]
      omega

theorem block (h : σ.Ok init) {j : ℕ} (hcur : σ.kernel.cur = some i) (hj : j < σ.kernel.nTasks)
    (hne : σ.kernel.cur ≠ some j) (hready : (σ.kernel.tasks j).state = .ready) :
    Sys.Ok init { σ with
      kernel := pickNextTask (σ.kernel.block i o o.waitType)
      pos := update σ.pos i (.inYield (.wait o)) } := by
  have hji : j ≠ i := by rintro rfl; exact hne hcur
  set k := σ.kernel.block i o o.waitType with hk
  have hold : ∀ l ≠ i, ∀ o', k.BlockedOn l o' ↔ σ.kernel.BlockedOn l o' := fun l hl o' =>
    Kernel.blockedOn_setTask_of_ne hl _ o'
  have hself : ∀ o', k.BlockedOn i o' ↔ o' = o := by
    intro o'
    rw [Kernel.BlockedOn, hk, Kernel.block, Kernel.setTask_tasks_self]
    simp only [true_and, Option.some.injEq]
    exact ⟨fun hb => hb.2.symm, by rintro rfl; exact ⟨rfl, rfl⟩⟩
  have hkeeps := pickNextTask_keeps k
  constructor
  · refine pickNextTask_curFree_of_ready (j := j) hj ?_
    rw [hk, Kernel.block, Kernel.setTask_tasks_of_ne hji, hready]
  · intro l o' hb
    rw [hkeeps.blockedOn] at hb
    by_cases hl : l = i
    · subst hl
      rw [(hself o').mp hb]
      exact update_self _ _ _
    · simp only [update_of_ne hl]
      exact h.waiting l o' ((hold l hl o').mp hb)
  · intro l hl
    have hlt := (h.curFree i hcur).1
    have hnt : (pickNextTask k).nTasks = σ.kernel.nTasks := hkeeps.nTasks
    simp only [hnt] at hl
    simp only [update_of_ne (show l ≠ i by omega)]
    exact h.fresh l hl
  · intro o'
    have hunit := h.grants o'
    have hstored : (pickNextTask k).stored o' = σ.kernel.stored o' := by
      rw [hkeeps.stored]
      cases o' <;> rfl
    have hmono : Sys.granted { σ with
        kernel := pickNextTask k, pos := update σ.pos i (.inYield (.wait o)) } o'
          ≤ σ.granted o' := by
      refine Sys.granted_mono ?_
      rintro l ⟨hpos, hfree⟩
      simp only [hkeeps.blockedOn] at hpos hfree
      have hl : l ≠ i := by
        rintro rfl
        simp only [update_self, Where.inYield.injEq, Call.wait.injEq] at hpos
        exact hfree ((hself o').mpr hpos.symm)
      rw [update_of_ne hl] at hpos
      exact ⟨hpos, (hold l hl o').not.mp hfree⟩
    simp only [hstored]
    omega

/-- Creating a task: the new one is ready and in its own code. -/
theorem create (h : σ.Ok init) : Sys.Ok init { σ with kernel := (taskCreate σ.kernel).2 } := by
  unfold taskCreate
  split
  · exact h
  · set k := σ.kernel.setTask σ.kernel.nTasks
      { σ.kernel.tasks σ.kernel.nTasks with
        state := .ready, id := σ.kernel.nTasks, switches := 0 } with hk
    have hold : ∀ l ≠ σ.kernel.nTasks, ∀ o', k.BlockedOn l o' ↔ σ.kernel.BlockedOn l o' :=
      fun l hl o' => Kernel.blockedOn_setTask_of_ne hl _ o'
    have hself : ∀ o', ¬ k.BlockedOn σ.kernel.nTasks o' :=
      Kernel.not_blockedOn (by rw [hk, Kernel.setTask_tasks_self]; simp)
    constructor
    · intro c hc
      obtain ⟨hlt, hfree⟩ := h.curFree c hc
      exact ⟨Nat.lt_succ_of_lt hlt, fun o' => (hold c hlt.ne o').not.mpr (hfree o')⟩
    · intro l o' hb
      have hl : l ≠ σ.kernel.nTasks := by rintro rfl; exact hself o' hb
      exact h.waiting l o' ((hold l hl o').mp hb)
    · exact fun l hl => h.fresh l (Nat.le_of_succ_le hl)
    · intro o'
      refine le_trans (Nat.add_le_add_left ?_ _) (h.grants o')
      refine Sys.granted_mono ?_
      rintro l ⟨hpos, hfree⟩
      refine ⟨hpos, ?_⟩
      have hl : l ≠ σ.kernel.nTasks := by
        rintro rfl
        rw [h.fresh _ le_rfl] at hpos
        cases hpos
      exact (hold l hl o').not.mp hfree

theorem count_other (h : σ.Ok init) {c : Call} (hw : ∀ o, c ≠ .wait o) (hs : ∀ o, c ≠ .signal o) :
    Sys.Ok init { σ with done := σ.count c } where
  curFree := h.curFree
  waiting := h.waiting
  fresh := h.fresh
  grants o := by
    simp only [σ.count_of_ne (hw o).symm, σ.count_of_ne (hs o).symm]
    exact h.grants o

/-- **The current task comes back** from its yield: if it waited, it was handed a unit. -/
theorem comeBack (h : σ.Ok init) (hcur : σ.kernel.cur = some i) {c : Call}
    (hpos : σ.pos i = .inYield c) :
    Sys.Ok init { σ with pos := update σ.pos i .user, done := σ.count c } where
  curFree := h.curFree
  waiting j o hb := by
    have hj : j ≠ i := by
      rintro rfl
      exact (h.curFree j hcur).2 o hb
    simp only [update_of_ne hj]
    exact h.waiting j o hb
  fresh j hj := by
    have hlt := (h.curFree i hcur).1
    simp only [update_of_ne (show j ≠ i by simp only at hj; omega)]
    exact h.fresh j hj
  grants o := by
    have hunit := h.grants o
    set σ' : Sys := { σ with pos := update σ.pos i .user, done := σ.count c } with hσ'
    have hnew : ¬ σ'.Granted o i := by
      rintro ⟨hp, _⟩
      rw [hσ'] at hp
      simp at hp
    have hrest : ∀ j ≠ i, σ'.Granted o j → σ.Granted o j := by
      rintro j hj ⟨hp, hf⟩
      rw [hσ'] at hp
      exact ⟨by simpa only [update_of_ne hj] using hp, hf⟩
    have hsignal : σ.done (.signal o) ≤ σ.count c (.signal o) := by
      by_cases hc : Call.signal o = c
      · rw [← hc, σ.count_self]
        omega
      · exact (σ.count_of_ne hc).ge
    change σ.kernel.stored o + σ.count c (.wait o) + σ'.granted o ≤ init o + σ.count c (.signal o)
    by_cases hc : c = .wait o
    · subst hc
      have hi : i < rtosMaxTasks := (h.curFree i hcur).1.trans_le σ.kernel.nTasks_le
      have hle := Sys.granted_succ_le hi ⟨hpos, (h.curFree i hcur).2 o⟩ hnew hrest
      rw [σ.count_self]
      omega
    · have hle : σ'.granted o ≤ σ.granted o :=
        Sys.granted_mono fun j hj => hrest j (by rintro rfl; exact hnew hj) hj
      rw [σ.count_of_ne (Ne.symm hc)]
      omega

/-- **A call of the current task**, which finds another one ready if it has to block. -/
theorem call (h : σ.Ok init) (hcur : σ.kernel.cur = some i) {c : Call}
    (hready : SomeoneReady σ (.call c)) :
    Sys.Ok init (σ.proceed i c (perform σ.kernel i c)) := by
  have hfree := (h.curFree i hcur).2
  cases c with
  | yield =>
    exact (h.enter hcur .yield fun _ => nofun).of_keeps (pickNextTask_keeps _) h.curFree.pickNextTask
  | sleepTicks ticks =>
    have hset := keeps_setTask (t := { σ.kernel.tasks i with
      state := .blocked, waitType := .tick, wakeTick := σ.kernel.tickCount + ticks }) hfree fun _ => rfl
    exact (h.enter hcur (.sleepTicks ticks) fun _ => nofun).of_keeps (hset.trans (pickNextTask_keeps _))
      (h.curFree.of_keeps hset rfl).pickNextTask
  | exit =>
    have hset := keeps_setTask (t := { σ.kernel.tasks i with state := .dead }) hfree nofun
    exact (h.enter hcur .exit fun _ => nofun).of_keeps (hset.trans (pickNextTask_keeps _))
      (h.curFree.of_keeps hset rfl).pickNextTask
  | create => exact h.create.count_other (fun _ => nofun) fun _ => nofun
  | wait o =>
    rcases perform_wait σ.kernel i o with ⟨k, hreturns, htouches, htake⟩ | ⟨hzero, hyields⟩
    · rw [hreturns]
      exact h.take htouches htake
    · obtain ⟨j, hj, hne, hstate⟩ := hready hzero
      rw [hyields]
      exact h.block hcur hj hne hstate
  | signal o =>
    obtain ⟨k, hreturns, ⟨j, -, hb, rfl⟩ | ⟨htouches, hstore⟩⟩ := perform_signal σ.kernel i o
    · rw [hreturns]
      exact h.wake hb
    · rw [hreturns]
      exact h.store htouches hstore

/-- **One step** conserves units. -/
theorem step {a : Act} (h : σ.Ok init) (hready : SomeoneReady σ a) (hstep : step σ a = some σ') :
    σ'.Ok init := by
  obtain ⟨i, hcur, ⟨rfl, rfl⟩ | ⟨c, rfl, -, rfl⟩ | ⟨c, rfl, hpos, rfl⟩⟩ := step_cases hstep
  · exact h.of_keeps (timerHandler_keeps _) h.curFree.timerHandler
  · exact h.call hcur hready
  · cases c with
    | exit => exact h.of_keeps (pickNextTask_keeps _) h.curFree.pickNextTask
    | _ => exact h.comeBack hcur hpos

/-- Before `rtos_start` nothing has happened but the creation of tasks. -/
theorem created (n : ℕ) (counts : ℕ → BitVec 32) :
    Sys.Ok (Kernel.init counts).stored
      ⟨(fun k => (taskCreate k).2)^[n] (Kernel.init counts), fun _ => .user, fun _ => 0⟩ := by
  induction n with
  | zero =>
    refine ⟨nofun, nofun, fun _ _ => rfl, fun o => ?_⟩
    rw [Sys.granted, Finset.filter_false_of_mem fun j _ hj => nomatch hj.1]
    exact le_rfl
  | succ n ih =>
    rw [Function.iterate_succ_apply']
    exact ih.create

theorem start (n : ℕ) (counts : ℕ → BitVec 32) :
    Sys.Ok (Kernel.init counts).stored (Sys.start n counts) :=
  (created n counts).of_keeps (pickNextTask_keeps _) (created n counts).curFree.pickNextTask

end Sys.Ok

/-- **Waits return only for what was signalled**, in every run whose blocking tasks find another task
ready: for a semaphore initialised with a count that is not negative the returned waits are at most
that count and the signals, for a flag at most the sets. -/
theorem returned_waits_le (n : ℕ) (counts : ℕ → BitVec 32) {σ : Sys}
    (hrun : Reaches step SomeoneReady (Sys.start n counts) σ) :
    (∀ s, 0 ≤ (counts s).toInt →
      (σ.done (.wait (.sem s)) : ℤ) ≤ (counts s).toInt + σ.done (.signal (.sem s))) ∧
    ∀ f, σ.done (.wait (.flag f)) ≤ σ.done (.signal (.flag f)) := by
  have hok : σ.Ok (Kernel.init counts).stored :=
    hrun.invariant (fun h hready hstep => h.step hready hstep) (Sys.Ok.start n counts)
  refine ⟨fun s hs => ?_, fun f => ?_⟩
  · have hunits := hok.grants (.sem s)
    simp only [Kernel.init, Kernel.stored] at hunits
    omega
  · have hunits := hok.grants (.flag f)
    simp only [Kernel.init, Kernel.stored, if_true] at hunits
    omega

/-- Two tasks and a semaphore without a unit: the second task signals, the first takes the unit. -/
theorem returned_waits_le_handoff :
    ∃ σ : Sys, σ.done (.wait (.sem 0)) = 1 ∧
      ((∀ s, 0 ≤ (0 : BitVec 32).toInt →
        (σ.done (.wait (.sem s)) : ℤ) ≤ (0 : BitVec 32).toInt + σ.done (.signal (.sem s))) ∧
      ∀ f, σ.done (.wait (.flag f)) ≤ σ.done (.signal (.flag f))) := by
  -- task 0 blocks, task 1 signals and yields, task 0 returns
  have hstart : Reaches step SomeoneReady (Sys.start 2 fun _ => 0) _ := .refl
  have hblocked := hstart.snoc
    (a := Act.call (.wait (.sem 0))) (fun _ => ⟨1, by decide, by decide, by decide⟩) rfl
  have hsignalled := hblocked.snoc (a := Act.call (.signal (.sem 0))) trivial rfl
  have hyielded := hsignalled.snoc (a := Act.call .yield) trivial rfl
  have hreturned := hyielded.snoc (a := Act.resume) trivial rfl
  exact ⟨_, by decide, returned_waits_le 2 (fun _ => 0) hreturned⟩

/-- **A wait returns for nothing**: the first of two tasks sleeps, the second waits on a semaphore
without a unit; no task is ready, so the scheduler keeps the second one and its wait returns. -/
theorem not_forall_returned_waits_le :
    ¬ ∀ (n : ℕ) (counts : ℕ → BitVec 32) (σ : Sys), Reaches step anyStep (Sys.start n counts) σ →
      (∀ s, 0 ≤ (counts s).toInt →
        (σ.done (.wait (.sem s)) : ℤ) ≤ (counts s).toInt + σ.done (.signal (.sem s))) ∧
      ∀ f, σ.done (.wait (.flag f)) ≤ σ.done (.signal (.flag f)) := by
  intro hall
  have hstart : Reaches step anyStep (Sys.start 2 fun _ => 0) _ := .refl
  have hasleep := hstart.snoc (a := Act.call (.sleepTicks 10)) trivial rfl
  have hblocked := hasleep.snoc (a := Act.call (.wait (.sem 0))) trivial rfl
  have hreturned := hblocked.snoc (a := Act.resume) trivial rfl
  have hle := (hall 2 (fun _ => 0) _ hreturned).1 0 (by decide)
  revert hle
  decide

end KlaussRuntime.Rtos
