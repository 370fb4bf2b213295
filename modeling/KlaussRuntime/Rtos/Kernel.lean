import Mathlib.Tactic
import Mathlib.Logic.Function.Iterate

/-!
# Rtos/Kernel — the scheduler and the synchronisation objects of `rtos.c`

Tasks sit in a table; `pickNextTask` is the round-robin scheduler, `tickCountUpdate` wakes sleepers
and `wakeOne` hands a semaphore or a flag to the first task blocked on it.  A function that runs with
the timer masked is one step, up to its `rtos_mutex_unlock` or to the switch inside `rtos_yield`; which of
the two ends it is its `Outcome`.

Neither the scheduler nor the tick touches who is blocked on what (`Keeps`), and the scheduler leaves
the processor with a task that is blocked on nothing whenever some task is ready
(`pickNextTask_curFree_of_ready`).  When none is, it keeps the current task even if that task has just
blocked.
-/

namespace KlaussRuntime.Rtos

def rtosMaxTasks : ℕ := 8

inductive TaskState where
  | ready
  | running
  | blocked
  | dead
deriving DecidableEq

inductive WaitType where
  | none
  | tick
  | sem
  | flag
deriving DecidableEq

/-- The address of a semaphore or of a flag. -/
inductive SyncObj where
  | sem (s : ℕ)
  | flag (f : ℕ)
deriving DecidableEq

def SyncObj.waitType : SyncObj → WaitType
  | .sem _ => .sem
  | .flag _ => .flag

structure TCB where
  state : TaskState
  id : ℕ
  switches : BitVec 32
  wakeTick : BitVec 32
  waitType : WaitType
  waitObj : Option SyncObj

/-- The scheduler's variables and the synchronisation objects' memory. -/
structure Kernel where
  nTasks : ℕ
  nTasks_le : nTasks ≤ rtosMaxTasks
  tasks : ℕ → TCB
  /-- `g_current_tcb`, by its index -/
  cur : Option ℕ
  tickCount : BitVec 32
  semCount : ℕ → BitVec 32
  flagBits : ℕ → BitVec 32

namespace Kernel

variable (k : Kernel)

def setTask (i : ℕ) (t : TCB) : Kernel := { k with tasks := Function.update k.tasks i t }

/-- `s->count = v`. -/
def setSem (s : ℕ) (v : BitVec 32) : Kernel := { k with semCount := Function.update k.semCount s v }

/-- `f->bits = v`. -/
def setFlag (f : ℕ) (v : BitVec 32) : Kernel :=
  { k with flagBits := Function.update k.flagBits f v }

/-- The task is blocked on the object. -/
def BlockedOn (i : ℕ) (o : SyncObj) : Prop :=
  (k.tasks i).state = .blocked ∧ (k.tasks i).waitType = o.waitType ∧ (k.tasks i).waitObj = some o

instance (i : ℕ) (o : SyncObj) : Decidable (k.BlockedOn i o) :=
  inferInstanceAs (Decidable (_ ∧ _ ∧ _))

/-- How many waits the object would grant at once: a semaphore its count, a flag its pending bit. -/
def stored : SyncObj → ℕ
  | .sem s => (k.semCount s).toInt.toNat
  | .flag f => if k.flagBits f = 0 then 0 else 1

end Kernel

/-! ## The scheduler -/

/-- `task_create`; -1 when the table is full. -/
def taskCreate (k : Kernel) : ℤ × Kernel :=
  if h : k.nTasks ≥ rtosMaxTasks then (-1, k)
  else
    let t := { k.tasks k.nTasks with state := .ready, id := k.nTasks, switches := 0 }
    (k.nTasks, { k.setTask k.nTasks t with nTasks := k.nTasks + 1, nTasks_le := by omega })

def tickCountUpdate (k : Kernel) : Kernel :=
  let now := k.tickCount + 1
  { k with
    tickCount := now
    tasks := fun i =>
      let t := k.tasks i
      if i < k.nTasks ∧ t.state = .blocked ∧ t.waitType = .tick ∧ (now - t.wakeTick).toInt ≥ 0 then
        { t with state := .ready, waitType := .none }
      else t }

/-- The running task goes back to ready. -/
def Kernel.preempt (k : Kernel) : Kernel :=
  match k.cur with
  | some c =>
    if (k.tasks c).state = .running then k.setTask c { k.tasks c with state := .ready } else k
  | none => k

/-- The first ready task in round-robin order, `(cur + i) % n_tasks` for `i = 1, …, n_tasks`, where `cur` is
the current task's `id`. -/
def Kernel.nextReady (k : Kernel) : Option ℕ :=
  let first := match k.cur with
    | some c => (k.tasks c).id + 1
    | none => 0
  ((List.range k.nTasks).map fun i => (first + i) % k.nTasks).find? fun j =>
    (k.tasks j).state = .ready

def Kernel.switchTo (k : Kernel) (next : ℕ) : Kernel :=
  let t := k.tasks next
  { k.setTask next { t with state := .running, switches := t.switches + 1 } with cur := some next }

def pickNextTask (k : Kernel) : Kernel :=
  match k.preempt.nextReady with
  | some next => k.preempt.switchTo next
  -- no task ready: stay with the current one, whatever its state
  | none => k.preempt

/-- `timer_handler`. -/
def timerHandler (k : Kernel) : Kernel := pickNextTask (tickCountUpdate k)

/-! ## The calls of a task -/

/-- How far a call gets in its step: it returns, or it stands in `rtos_yield`. -/
inductive Outcome where
  | returns (k : Kernel)
  | yields (k : Kernel)

/-- Wake the first task blocked on `obj`; `none` if there is none. -/
def wakeOne (k : Kernel) (obj : SyncObj) (type : WaitType) : Option Kernel :=
  ((List.range k.nTasks).find? fun i => (k.tasks i).state = .blocked ∧
      (k.tasks i).waitType = type ∧ (k.tasks i).waitObj = some obj).map fun i =>
    k.setTask i { k.tasks i with state := .ready, waitType := .none, waitObj := none }

/-- The blocking half of `rtos_sem_wait` and `rtos_flag_wait`. -/
def Kernel.block (k : Kernel) (i : ℕ) (obj : SyncObj) (type : WaitType) : Kernel :=
  k.setTask i { k.tasks i with state := .blocked, waitType := type, waitObj := some obj }

def rtosYield (k : Kernel) : Outcome := .yields (pickNextTask k)

def rtosSleepTicks (k : Kernel) (i : ℕ) (ticks : BitVec 32) : Outcome :=
  rtosYield (k.setTask i
    { k.tasks i with state := .blocked, waitType := .tick, wakeTick := k.tickCount + ticks })

def rtosTaskExit (k : Kernel) (i : ℕ) : Outcome :=
  rtosYield (k.setTask i { k.tasks i with state := .dead })

def rtosSemWait (k : Kernel) (i s : ℕ) : Outcome :=
  if (k.semCount s).toInt > 0 then
    .returns (k.setSem s (k.semCount s - 1))
  else rtosYield (k.block i (.sem s) .sem)

def rtosSemSignal (k : Kernel) (s : ℕ) : Outcome :=
  match wakeOne k (.sem s) .sem with
  | some k => .returns k
  | none => .returns (k.setSem s (k.semCount s + 1))

def rtosFlagWait (k : Kernel) (i f : ℕ) : Outcome :=
  if k.flagBits f ≠ 0 then .returns (k.setFlag f 0)
  else rtosYield (k.block i (.flag f) .flag)

def rtosFlagSet (k : Kernel) (f : ℕ) : Outcome :=
  match wakeOne k (.flag f) .flag with
  | some k => .returns k
  | none => .returns (k.setFlag f 1)

/-- What a task may call. -/
inductive Call where
  | yield
  | sleepTicks (ticks : BitVec 32)
  | wait (o : SyncObj)
  | signal (o : SyncObj)
  | create
  | exit
deriving DecidableEq

/-- A call by task `i`, the current one. -/
def perform (k : Kernel) (i : ℕ) : Call → Outcome
  | .yield => rtosYield k
  | .sleepTicks ticks => rtosSleepTicks k i ticks
  | .wait (.sem s) => rtosSemWait k i s
  | .wait (.flag f) => rtosFlagWait k i f
  | .signal (.sem s) => rtosSemSignal k s
  | .signal (.flag f) => rtosFlagSet k f
  | .create => .returns (taskCreate k).2
  | .exit => rtosTaskExit k i

/-! ## What the scheduler leaves alone -/

/-- The same tasks are blocked on the same objects, and the objects hold the same. -/
structure Keeps (k k' : Kernel) : Prop where
  nTasks : k'.nTasks = k.nTasks
  stored : ∀ o, k'.stored o = k.stored o
  blockedOn : ∀ i o, k'.BlockedOn i o ↔ k.BlockedOn i o

/-- The current task, if there is one, is in the table and blocked on no object. -/
def CurFree (k : Kernel) : Prop := ∀ c, k.cur = some c → c < k.nTasks ∧ ∀ o, ¬ k.BlockedOn c o

variable {k k' k'' : Kernel}

namespace Keeps

theorem refl (k : Kernel) : Keeps k k := ⟨rfl, fun _ => rfl, fun _ _ => Iff.rfl⟩

theorem trans (h : Keeps k k') (h' : Keeps k' k'') : Keeps k k'' :=
  ⟨h'.nTasks.trans h.nTasks, fun o => (h'.stored o).trans (h.stored o),
    fun i o => (h'.blockedOn i o).trans (h.blockedOn i o)⟩

end Keeps

theorem CurFree.of_keeps (h : CurFree k) (hk : Keeps k k') (hcur : k'.cur = k.cur) : CurFree k' := by
  intro c hc
  obtain ⟨hlt, hfree⟩ := h c (hcur ▸ hc)
  exact ⟨hk.nTasks ▸ hlt, fun o => (hk.blockedOn c o).not.mpr (hfree o)⟩

theorem Kernel.setTask_tasks_self (i : ℕ) (t : TCB) : (k.setTask i t).tasks i = t :=
  Function.update_self _ _ _

theorem Kernel.setTask_tasks_of_ne {i j : ℕ} (h : j ≠ i) (t : TCB) :
    (k.setTask i t).tasks j = k.tasks j :=
  Function.update_of_ne h _ _

theorem Kernel.blockedOn_setTask_of_ne {i j : ℕ} (h : j ≠ i) (t : TCB) (o : SyncObj) :
    (k.setTask i t).BlockedOn j o ↔ k.BlockedOn j o := by
  simp only [Kernel.BlockedOn, Kernel.setTask_tasks_of_ne h]

/-- A task neither of whose states is blocked on an object can be set freely. -/
theorem keeps_setTask {i : ℕ} {t : TCB} (hold : ∀ o, ¬ k.BlockedOn i o)
    (hnew : t.state = .blocked → t.waitType = .tick) : Keeps k (k.setTask i t) := by
  refine ⟨rfl, fun o => by cases o <;> rfl, fun j o => ?_⟩
  by_cases hj : j = i
  · subst hj
    refine iff_of_false (fun hb => ?_) (hold o)
    simp only [Kernel.BlockedOn, Kernel.setTask_tasks_self] at hb
    have htick := hnew hb.1
    rw [hb.2.1] at htick
    cases o <;> simp [SyncObj.waitType] at htick
  · exact Kernel.blockedOn_setTask_of_ne hj t o

theorem Kernel.not_blockedOn {i : ℕ} (h : (k.tasks i).state ≠ .blocked) (o : SyncObj) :
    ¬ k.BlockedOn i o := fun hb => h hb.1

theorem preempt_keeps (k : Kernel) : Keeps k k.preempt := by
  unfold Kernel.preempt
  split
  · split
    · rename_i hrun
      exact keeps_setTask (Kernel.not_blockedOn (by rw [hrun]; nofun)) nofun
    · exact Keeps.refl k
  · exact Keeps.refl k

theorem preempt_cur (k : Kernel) : k.preempt.cur = k.cur := by
  unfold Kernel.preempt
  split
  · split <;> rfl
  · rfl

theorem nextReady_lt {j : ℕ} (h : k.nextReady = some j) : j < k.nTasks := by
  obtain ⟨i, hi, rfl⟩ := List.mem_map.mp (List.mem_of_find?_eq_some h)
  have := List.mem_range.mp hi
  exact Nat.mod_lt _ (by omega)

theorem nextReady_state {j : ℕ} (h : k.nextReady = some j) : (k.tasks j).state = .ready := by
  simpa using List.find?_some h

/-- **The search reaches every task**: if one is ready, one is found. -/
theorem nextReady_isSome {j : ℕ} (hj : j < k.nTasks) (hready : (k.tasks j).state = .ready) :
    k.nextReady.isSome := by
  simp only [Kernel.nextReady, List.find?_isSome, List.mem_map, List.mem_range]
  generalize (match k.cur with | some c => (k.tasks c).id + 1 | none => 0) = first
  -- the round that looks at task `j`
  refine ⟨j, ⟨(j + (k.nTasks - first % k.nTasks)) % k.nTasks, Nat.mod_lt _ (by omega), ?_⟩,
    by simpa using hready⟩
  have hlt := Nat.mod_lt first (show 0 < k.nTasks by omega)
  rw [Nat.add_mod, Nat.mod_mod, ← Nat.add_mod, ← Nat.mod_add_mod,
    show first % k.nTasks + (j + (k.nTasks - first % k.nTasks)) = j + k.nTasks by omega,
    Nat.add_mod_right, Nat.mod_eq_of_lt hj]

theorem switchTo_keeps {j : ℕ} (h : (k.tasks j).state = .ready) : Keeps k (k.switchTo j) :=
  have hset : Keeps k (k.setTask j
      { k.tasks j with state := .running, switches := (k.tasks j).switches + 1 }) :=
    keeps_setTask (Kernel.not_blockedOn (by rw [h]; nofun)) nofun
  ⟨hset.nTasks, fun o => (by cases o <;> rfl), hset.blockedOn⟩

theorem switchTo_curFree {j : ℕ} (hj : j < k.nTasks) : CurFree (k.switchTo j) := by
  intro c hc
  obtain rfl : j = c := Option.some.inj hc
  have hrun : ((k.switchTo j).tasks j).state = .running :=
    congrArg TCB.state (Kernel.setTask_tasks_self j _)
  exact ⟨hj, Kernel.not_blockedOn (by rw [hrun]; nofun)⟩

/-- **The scheduler keeps who is blocked on what.** -/
theorem pickNextTask_keeps (k : Kernel) : Keeps k (pickNextTask k) := by
  unfold pickNextTask
  split
  · rename_i next hnext
    exact (preempt_keeps k).trans (switchTo_keeps (nextReady_state hnext))
  · exact preempt_keeps k

/-- **…and with a ready task about leaves the processor to a task blocked on nothing.** -/
theorem pickNextTask_curFree_of_ready {j : ℕ} (hj : j < k.nTasks)
    (hready : (k.tasks j).state = .ready) : CurFree (pickNextTask k) := by
  have hready' : (k.preempt.tasks j).state = .ready := by
    unfold Kernel.preempt
    split
    · rename_i c _
      split
      · rename_i hrun
        have hne : j ≠ c := by rintro rfl; rw [hready] at hrun; cases hrun
        rw [Kernel.setTask_tasks_of_ne hne, hready]
      · exact hready
    · exact hready
  have hsome := nextReady_isSome (k := k.preempt) ((preempt_keeps k).nTasks ▸ hj) hready'
  obtain ⟨next, hnext⟩ := Option.isSome_iff_exists.mp hsome
  simp only [pickNextTask, hnext]
  exact switchTo_curFree (nextReady_lt hnext)

/-- When the current task is blocked on nothing to begin with, no ready task is needed. -/
theorem CurFree.pickNextTask (h : CurFree k) : CurFree (pickNextTask k) := by
  unfold Rtos.pickNextTask
  split
  · rename_i next hnext
    exact switchTo_curFree (nextReady_lt hnext)
  · exact h.of_keeps (preempt_keeps k) (preempt_cur k)

theorem tickCountUpdate_keeps (k : Kernel) : Keeps k (tickCountUpdate k) := by
  refine ⟨rfl, fun o => by cases o <;> rfl, fun i o => ?_⟩
  simp only [Kernel.BlockedOn, tickCountUpdate]
  split
  · rename_i hwake
    refine iff_of_false nofun fun hb => ?_
    rw [hwake.2.2.1] at hb
    cases o <;> simp [SyncObj.waitType] at hb
  · exact Iff.rfl

theorem timerHandler_keeps (k : Kernel) : Keeps k (timerHandler k) :=
  (tickCountUpdate_keeps k).trans (pickNextTask_keeps _)

theorem CurFree.timerHandler (h : CurFree k) : CurFree (timerHandler k) :=
  (h.of_keeps (tickCountUpdate_keeps k) rfl).pickNextTask

end KlaussRuntime.Rtos
