import KlaussRuntime.Machinery.Ring
import KlaussRuntime.Rtos.Grants

/-!
# Rtos/RoundRobin — no ready task is passed over

`pick_next_task` looks for a ready task from the place after the current task's `id` on, round the table.
Seen from a task that is ready, the current task comes nearer with every pick and does not go past it, so
no other task is picked twice before it; a task appended meanwhile does not change that.

All of this rests on `id` being the place in the table.  `task_create` reads `n_tasks` when it takes the
place and again when it sets the `id` and when it counts, and the timer is not masked: a `Sched` takes
its steps one by one (`createStep`).  When two creations overlap, a task gets the `id` of another place and
the search begins too far on: tasks in between starve (`not_forall_roundRobin`).
-/

namespace KlaussRuntime.Rtos

open Machinery Function

/-! ## Creating a task, step by step -/

/-- Where a task is in `task_create`. -/
inductive CreatePc
  /-- `t = &tasks[n_tasks]` -/
  | slot (t : ℕ)
  /-- the frame is built and the state is READY -/
  | filled (t : ℕ)
  /-- `t->id = n_tasks` -/
  | named (t : ℕ)
  /-- `n_tasks++` has read `v` -/
  | counted (v : ℕ)

/-- One step of `task_create`, nothing left when it returns.  What a count past the table does is left
open in C: there is no such step. -/
def createStep (k : Kernel) : CreatePc → Option (Kernel × Option CreatePc)
  | .slot t => some (k.setTask t { k.tasks t with state := .ready }, some (.filled t))
  | .filled t => some (k.setTask t { k.tasks t with id := k.nTasks }, some (.named t))
  | .named t => some (k.setTask t { k.tasks t with switches := 0 }, some (.counted k.nTasks))
  | .counted v =>
    if h : v + 1 ≤ rtosMaxTasks then some ({ k with nTasks := v + 1, nTasks_le := h }, none) else none

/-- The task is in the table and READY. -/
def Kernel.Ready (k : Kernel) (j : ℕ) : Prop := j < k.nTasks ∧ (k.tasks j).state = .ready

instance (k : Kernel) (j : ℕ) : Decidable (k.Ready j) := inferInstanceAs (Decidable (_ ∧ _))

/-- The task `pick_next_task` has selected between `k` and `k'`: its `switches` were counted. -/
def selected (k k' : Kernel) : Option ℕ :=
  k'.cur.filter fun c => (k'.tasks c).switches ≠ (k.tasks c).switches

/-- How often each task was selected since a task became READY: whatever makes a task ready in a step
comes before the selection. -/
def observe (k k' : Kernel) (since : ℕ → ℕ → ℕ) (j i : ℕ) : ℕ :=
  (if k.Ready j then since j i else 0) + if selected k k' = some i then 1 else 0

structure Sched where
  sys : Sys
  creating : ℕ → Option CreatePc
  /-- ghost: `since j i` is how often task `i` was selected since task `j` became READY -/
  since : ℕ → ℕ → ℕ

inductive SchedAct
  | base (a : Act)
  /-- the current task calls `task_create` -/
  | createBegin
  /-- the current task goes on in it -/
  | create

namespace Sched

def kernel (s : Sched) : Kernel := s.sys.kernel

/-- A tick, or a step of the current task if it is not in `task_create`. -/
def base (s : Sched) (i : ℕ) (a : Act) : Option Sched :=
  if a = .call .create ∨ a ≠ .tick ∧ (s.creating i).isSome then none
  else (Rtos.step s.sys a).map fun sys =>
    { s with sys, since := observe s.kernel sys.kernel s.since }

def createBegin (s : Sched) (i : ℕ) : Option Sched :=
  if s.sys.pos i ≠ .user ∨ (s.creating i).isSome then none
  -- the table is full: -1
  else if s.kernel.nTasks ≥ rtosMaxTasks then some s
  else some { s with creating := update s.creating i (some (.slot s.kernel.nTasks)) }

def create (s : Sched) (i : ℕ) : Option Sched :=
  (s.creating i).bind fun p => (createStep s.kernel p).map fun (k, p) =>
    { s with
      sys := { s.sys with kernel := k }
      creating := update s.creating i p
      since := observe s.kernel k s.since }

def step (s : Sched) (a : SchedAct) : Option Sched :=
  s.kernel.cur.bind fun i =>
    match a with
    | .base a => s.base i a
    | .createBegin => s.createBegin i
    | .create => s.create i

/-- `n` tasks are created, then `rtos_start` picks the first. -/
def start (n : ℕ) (counts : ℕ → BitVec 32) : Sched where
  sys := Sys.start n counts
  creating := fun _ => none
  since := observe ((fun k => (taskCreate k).2)^[n] (Kernel.init counts)) (Sys.start n counts).kernel
    fun _ _ => 0

/-- **No ready task is passed over**, and only the current task is RUNNING. -/
structure RoundRobin (s : Sched) : Prop where
  once : ∀ j i, s.kernel.Ready j → i ≠ j → s.since j i ≤ 1
  running : ∀ j, (s.kernel.tasks j).state = .running → s.kernel.cur = some j

/-- No task begins to create one while another is at it. -/
def careful (s : Sched) : SchedAct → Prop
  | .createBegin => ∀ j, s.creating j = none
  | _ => True

end Sched

/-! ## What a step does to the scheduler's state -/

/-- Nothing was selected: states may have changed, but none to RUNNING. -/
structure Quiet (k k' : Kernel) : Prop where
  cur : k'.cur = k.cur
  nTasks : k'.nTasks = k.nTasks
  id : ∀ j, (k'.tasks j).id = (k.tasks j).id
  switches : ∀ j, (k'.tasks j).switches = (k.tasks j).switches
  running : ∀ j, (k'.tasks j).state = .running → (k.tasks j).state = .running

/-- Nothing was selected, or the first ready task was. -/
def Moves (k k' : Kernel) : Prop :=
  Quiet k k' ∨ ∃ k₁ next, Quiet k k₁.preempt ∧ Quiet k k₁ ∧ k₁.preempt.nextReady = some next ∧
    k' = k₁.preempt.switchTo next

variable {k k₁ k' : Kernel} {i j : ℕ}

theorem Quiet.refl (k : Kernel) : Quiet k k := ⟨rfl, rfl, fun _ => rfl, fun _ => rfl, fun _ h => h⟩

theorem Quiet.trans (h : Quiet k k₁) (h' : Quiet k₁ k') : Quiet k k' where
  cur := h'.cur.trans h.cur
  nTasks := h'.nTasks.trans h.nTasks
  id j := (h'.id j).trans (h.id j)
  switches j := (h'.switches j).trans (h.switches j)
  running j hj := h.running j (h'.running j hj)

theorem quiet_setTask {t : TCB} (hid : t.id = (k.tasks i).id)
    (hsw : t.switches = (k.tasks i).switches) (hrun : t.state ≠ .running) : Quiet k (k.setTask i t) := by
  have hcases : ∀ j, (k.setTask i t).tasks j = k.tasks j ∨ j = i ∧ (k.setTask i t).tasks j = t :=
    fun j => by
      rcases eq_or_ne j i with rfl | hne
      · exact .inr ⟨rfl, Kernel.setTask_tasks_self _ t⟩
      · exact .inl (Kernel.setTask_tasks_of_ne hne t)
  refine ⟨rfl, rfl, fun j => ?_, fun j => ?_, fun j hj => ?_⟩
  · rcases hcases j with h | ⟨rfl, h⟩
    · rw [h]
    · rw [h, hid]
  · rcases hcases j with h | ⟨rfl, h⟩
    · rw [h]
    · rw [h, hsw]
  · rcases hcases j with h | ⟨rfl, h⟩
    · rwa [h] at hj
    · rw [h] at hj
      exact absurd hj hrun

theorem quiet_preempt (k : Kernel) : Quiet k k.preempt := by
  unfold Kernel.preempt
  split
  · split
    · exact quiet_setTask rfl rfl (fun h => by cases h)
    · exact Quiet.refl k
  · exact Quiet.refl k

theorem quiet_tickCountUpdate (k : Kernel) : Quiet k (tickCountUpdate k) := by
  refine ⟨rfl, rfl, fun j => ?_, fun j => ?_, fun j hj => ?_⟩
  · simp only [tickCountUpdate]
    split <;> rfl
  · simp only [tickCountUpdate]
    split <;> rfl
  · simp only [tickCountUpdate] at hj
    split at hj
    · cases hj
    · exact hj

theorem Quiet.pickNextTask (h : Quiet k k₁) : Moves k (pickNextTask k₁) := by
  have hpre := h.trans (quiet_preempt k₁)
  unfold Rtos.pickNextTask
  split
  · next next hnext => exact .inr ⟨k₁, next, hpre, h, hnext, rfl⟩
  · exact .inl hpre

theorem quiet_setSem (k : Kernel) (s : ℕ) (v : BitVec 32) : Quiet k (k.setSem s v) :=
  ⟨rfl, rfl, fun _ => rfl, fun _ => rfl, fun _ h => h⟩

theorem quiet_setFlag (k : Kernel) (f : ℕ) (v : BitVec 32) : Quiet k (k.setFlag f v) :=
  ⟨rfl, rfl, fun _ => rfl, fun _ => rfl, fun _ h => h⟩

theorem quiet_wakeOne {o : SyncObj} (h : wakeOne k o o.waitType = some k') : Quiet k k' := by
  obtain ⟨j, -, -, rfl⟩ := wakeOne_some h
  exact quiet_setTask rfl rfl (fun h => by cases h)

theorem quiet_block (k : Kernel) (i : ℕ) (o : SyncObj) (type : WaitType) :
    Quiet k (k.block i o type) := quiet_setTask rfl rfl (fun h => by cases h)

/-- **A call other than `task_create`.** -/
theorem moves_perform {c : Call} (hc : c ≠ .create) :
    match perform k i c with
    | .returns k' | .yields k' => Moves k k' := by
  cases c with
  | yield => exact (Quiet.refl k).pickNextTask
  | sleepTicks ticks =>
    have hset := quiet_setTask (k := k) (i := i) (t := { k.tasks i with
      state := .blocked, waitType := .tick, wakeTick := k.tickCount + ticks }) rfl rfl
      fun h => by cases h
    exact hset.pickNextTask
  | exit =>
    have hset := quiet_setTask (k := k) (i := i) (t := { k.tasks i with state := .dead }) rfl rfl
      fun h => by cases h
    exact hset.pickNextTask
  | create => exact absurd rfl hc
  | wait o =>
    cases o with
    | sem s =>
      rw [perform, rtosSemWait]
      split_ifs
      · exact .inl (quiet_setSem k s _)
      · exact (quiet_block k i _ _).pickNextTask
    | flag f =>
      rw [perform, rtosFlagWait]
      split_ifs
      · exact .inl (quiet_setFlag k f _)
      · exact (quiet_block k i _ _).pickNextTask
  | signal o =>
    cases o with
    | sem s =>
      rw [perform, rtosSemSignal]
      cases hwake : wakeOne k (.sem s) .sem with
      | some k' => exact .inl (quiet_wakeOne (o := .sem s) hwake)
      | none => exact .inl (quiet_setSem k s _)
    | flag f =>
      rw [perform, rtosFlagSet]
      cases hwake : wakeOne k (.flag f) .flag with
      | some k' => exact .inl (quiet_wakeOne (o := .flag f) hwake)
      | none => exact .inl (quiet_setFlag k f _)

/-- **A step of the system** other than `task_create`. -/
theorem moves_step {σ σ' : Sys} {a : Act} (ha : a ≠ .call .create) (h : step σ a = some σ') :
    Moves σ.kernel σ'.kernel := by
  obtain ⟨i, -, ⟨rfl, rfl⟩ | ⟨c, rfl, -, rfl⟩ | ⟨c, rfl, -, rfl⟩⟩ := step_cases h
  · exact (quiet_tickCountUpdate _).pickNextTask
  · have hmoves := moves_perform (k := σ.kernel) (i := i) (c := c) (fun hc => ha (by rw [hc]))
    cases hperform : perform σ.kernel i c with
    | returns k => rwa [hperform] at hmoves
    | yields k => rwa [hperform] at hmoves
  · cases c with
    | exit => exact (Quiet.refl _).pickNextTask
    | _ => exact .inl (Quiet.refl _)

/-! ## The invariant -/

theorem selected_of_quiet (h : Quiet k k') : selected k k' = none := by
  rw [selected, Option.filter_eq_none_iff]
  intro c _
  simp [h.switches c]

theorem selected_switchTo {next : ℕ} (h : Quiet k k₁) : selected k (k₁.switchTo next) = some next := by
  rw [selected, Option.filter_eq_some_iff]
  refine ⟨rfl, ?_⟩
  rw [Kernel.switchTo, decide_eq_true_iff]
  simp only [Kernel.setTask_tasks_self]
  rw [← h.switches next]
  intro heq
  simp at heq

theorem switchTo_tasks_of_ne {next : ℕ} (h : j ≠ next) : (k.switchTo next).tasks j = k.tasks j :=
  Kernel.setTask_tasks_of_ne h _

theorem switchTo_id (k : Kernel) (next j : ℕ) : ((k.switchTo next).tasks j).id = (k.tasks j).id := by
  rcases eq_or_ne j next with rfl | hne
  · change (update k.tasks j _ j).id = _
    rw [update_self]
  · rw [switchTo_tasks_of_ne hne]

/-- What the scheduler's variables satisfy: the tasks picked since a task became ready lie between it
and the current task. -/
structure Fair (k : Kernel) (since : ℕ → ℕ → ℕ) : Prop where
  running : ∀ j, (k.tasks j).state = .running → k.cur = some j
  cur_lt : ∀ c, k.cur = some c → c < k.nTasks
  id : ∀ j < k.nTasks, (k.tasks j).id = j
  once : ∀ j i, k.Ready j → i ≠ j → since j i ≤ 1
  between : ∀ j i, k.Ready j → i ≠ j → 0 < since j i →
    ∃ c, k.cur = some c ∧ c ≠ j ∧ Between j i c

variable {since : ℕ → ℕ → ℕ}

theorem Fair.quiet (h : Fair k since) (hq : Quiet k k') :
    Fair k' fun j i => if k.Ready j then since j i else 0 where
  running j hj := by
    rw [hq.cur]
    exact h.running j (hq.running j hj)
  cur_lt c hc := by
    rw [hq.nTasks]
    exact h.cur_lt c (hq.cur ▸ hc)
  id j hj := by
    rw [hq.id]
    exact h.id j (hq.nTasks ▸ hj)
  once j i _ hne := by
    split_ifs with hready
    · exact h.once j i hready hne
    · exact Nat.zero_le 1
  between j i _ hne hpos := by
    split_ifs at hpos with hready
    · rw [hq.cur]
      exact h.between j i hready hne hpos
    · exact absurd hpos (Nat.lt_irrefl 0)

theorem Fair.preempt_idle (h : Fair k since) (j : ℕ) : (k.preempt.tasks j).state ≠ .running := by
  intro hj
  have hrun := (quiet_preempt k).running j hj
  have hcur := h.running j hrun
  rw [Kernel.preempt, hcur] at hj
  dsimp only at hj
  rw [if_pos hrun, Kernel.setTask_tasks_self] at hj
  cases hj

/-- **The next ready task is selected.** -/
theorem Fair.switchTo (h : Fair k since) (hidle : ∀ j, (k.tasks j).state ≠ .running) {next : ℕ}
    (hnext : k.nextReady = some next) :
    Fair (k.switchTo next) fun j i => since j i + if next = i then 1 else 0 := by
  have hlt := nextReady_lt hnext
  -- a task that is still ready was so before, and the search went towards it
  have hready : ∀ j, (k.switchTo next).Ready j → j ≠ next ∧ k.Ready j := fun j hj => by
    have hne : j ≠ next := by
      rintro rfl
      have hrun : ((k.switchTo j).tasks j).state = .running :=
        congrArg TCB.state (Kernel.setTask_tasks_self j _)
      rw [hj.2] at hrun
      cases hrun
    exact ⟨hne, hj.1, by rw [← switchTo_tasks_of_ne hne]; exact hj.2⟩
  have htowards : ∀ j c, k.Ready j → j ≠ next → k.cur = some c → c ≠ j →
      ¬ Between j next c ∧ ∀ i, Between j i c → Between j i next := fun j c hj hne hc hcj => by
    have hfind : (ring k.nTasks (c + 1)).find? (fun j => (k.tasks j).state = .ready) = some next := by
      rw [Kernel.nextReady, hc] at hnext
      simp only [h.id c (h.cur_lt c hc)] at hnext
      exact hnext
    exact find?_ring hfind (h.cur_lt c hc) hj.1 (decide_eq_true hj.2) hcj.symm hne.symm
  have hfirst : ∀ j, k.Ready j → j ≠ next → since j next = 0 := fun j hj hne => by
    by_contra hpos
    obtain ⟨c, hc, hcj, hbetween⟩ := h.between j next hj hne.symm (Nat.pos_of_ne_zero hpos)
    exact (htowards j c hj hne hc hcj).1 hbetween
  refine ⟨fun j hj => ?_, fun c hc => ?_, fun j hj => ?_, fun j i hj hij => ?_, fun j i hj hij hpos => ?_⟩
  · rcases eq_or_ne j next with rfl | hne
    · rfl
    · rw [switchTo_tasks_of_ne hne] at hj
      exact absurd hj (hidle j)
  · obtain rfl : next = c := Option.some.inj hc
    exact hlt
  · rw [switchTo_id]
    exact h.id j hj
  · obtain ⟨hne, hj⟩ := hready j hj
    split_ifs with heq
    · rw [← heq, hfirst j hj hne]
    · exact h.once j i hj hij
  · obtain ⟨hne, hj⟩ := hready j hj
    refine ⟨next, rfl, hne.symm, ?_⟩
    split_ifs at hpos with heq
    · rw [← heq]
      exact Between.self j next
    · obtain ⟨c, hc, hcj, hbetween⟩ := h.between j i hj hij hpos
      exact (htowards j c hj hne hc hcj).2 i hbetween

/-- **Any step of the scheduler.** -/
theorem Fair.moves (h : Fair k since) (hm : Moves k k') : Fair k' (observe k k' since) := by
  rcases hm with hq | ⟨k₁, next, hpre, hq, hnext, rfl⟩
  · have hsince : observe k k' since = fun j i => if k.Ready j then since j i else 0 := by
      funext j i
      rw [observe, selected_of_quiet hq]
      simp
    rw [hsince]
    exact h.quiet hq
  · have hsince : observe k (k₁.preempt.switchTo next) since
        = fun j i => (if k.Ready j then since j i else 0) + if next = i then 1 else 0 := by
      funext j i
      rw [observe, selected_switchTo hpre]
      simp
    rw [hsince]
    exact (h.quiet hpre).switchTo (h.quiet hq).preempt_idle hnext

theorem Moves.nTasks (h : Moves k k') : k'.nTasks = k.nTasks := by
  rcases h with hq | ⟨k₁, next, hpre, -, -, rfl⟩
  · exact hq.nTasks
  · exact hpre.nTasks

theorem Moves.id (h : Moves k k') (j : ℕ) : (k'.tasks j).id = (k.tasks j).id := by
  rcases h with hq | ⟨k₁, next, hpre, -, -, rfl⟩
  · exact hq.id j
  · rw [switchTo_id]
    exact hpre.id j

/-! ## Creations that do not overlap -/

/-- The place a creation works on is the one after the table's last, and it is given that number. -/
def CreatePc.Ok (k : Kernel) : CreatePc → Prop
  | .slot t | .filled t => t = k.nTasks
  | .named t | .counted t => t = k.nTasks ∧ (k.tasks t).id = t

structure Sched.Good (s : Sched) : Prop where
  fair : Fair s.kernel s.since
  creating : ∀ i p, s.creating i = some p → p.Ok s.kernel
  alone : ∀ i j, s.creating i ≠ none → s.creating j ≠ none → i = j

theorem CreatePc.Ok.moves {p : CreatePc} (h : p.Ok k) (hm : Moves k k') : p.Ok k' := by
  cases p with
  | slot t | filled t => exact h.trans hm.nTasks.symm
  | named t | counted t => exact ⟨h.1.trans hm.nTasks.symm, (hm.id t).trans h.2⟩

/-- A new state of the table that selects nothing, keeps the current task and the ready tasks of old, and
has every task it holds at its place. -/
theorem Fair.extend (h : Fair k since) (hcur : k'.cur = k.cur) (hn : k.nTasks ≤ k'.nTasks)
    (hrun : ∀ j, (k'.tasks j).state = .running → (k.tasks j).state = .running)
    (hid : ∀ j < k'.nTasks, (k'.tasks j).id = j)
    (hsw : ∀ c, k.cur = some c → (k'.tasks c).switches = (k.tasks c).switches) :
    Fair k' (observe k k' since) := by
  have hsince : observe k k' since = fun j i => if k.Ready j then since j i else 0 := by
    funext j i
    have hnone : selected k k' = none := by
      rw [selected, hcur, Option.filter_eq_none_iff]
      intro c hc
      simp [hsw c hc]
    rw [observe, hnone]
    simp
  rw [hsince]
  refine ⟨fun j hj => ?_, fun c hc => ?_, hid, fun j i _ hne => ?_, fun j i _ hne hpos => ?_⟩
  · rw [hcur]
    exact h.running j (hrun j hj)
  · exact (h.cur_lt c (hcur ▸ hc)).trans_le hn
  · split_ifs with hready
    · exact h.once j i hready hne
    · exact Nat.zero_le 1
  · split_ifs at hpos with hready
    · rw [hcur]
      exact h.between j i hready hne hpos
    · exact absurd hpos (Nat.lt_irrefl 0)

theorem Fair.setTask (h : Fair k since) {t : TCB}
    (ht : t.state = .running → (k.tasks k.nTasks).state = .running) :
    Fair (k.setTask k.nTasks t) (observe k (k.setTask k.nTasks t) since) := by
  refine h.extend rfl le_rfl (fun j hj => ?_) (fun j hj => ?_) fun c hc => ?_
  · rcases eq_or_ne j k.nTasks with rfl | hne
    · rw [Kernel.setTask_tasks_self] at hj
      exact ht hj
    · rwa [Kernel.setTask_tasks_of_ne hne] at hj
  · replace hj : j < k.nTasks := hj
    rw [Kernel.setTask_tasks_of_ne hj.ne]
    exact h.id j hj
  · rw [Kernel.setTask_tasks_of_ne (h.cur_lt c hc).ne]

/-- **A step of a creation** that no other overlaps. -/
theorem Fair.createStep (h : Fair k since) {p : CreatePc} {next : Option CreatePc} (hp : p.Ok k)
    (hstep : createStep k p = some (k', next)) :
    Fair k' (observe k k' since) ∧ ∀ q, next = some q → q.Ok k' := by
  cases p with
  | slot t =>
    obtain rfl := hp
    cases hstep
    refine ⟨h.setTask fun hstate => (by cases hstate), fun q hq => ?_⟩
    cases hq
    rfl
  | filled t =>
    obtain rfl := hp
    cases hstep
    refine ⟨h.setTask fun hstate => hstate, fun q hq => ?_⟩
    cases hq
    exact ⟨rfl, congrArg TCB.id (Kernel.setTask_tasks_self k.nTasks _)⟩
  | named t =>
    obtain ⟨rfl, hid⟩ := hp
    cases hstep
    refine ⟨h.setTask fun hstate => hstate, fun q hq => ?_⟩
    cases hq
    exact ⟨rfl, (congrArg TCB.id (Kernel.setTask_tasks_self k.nTasks _)).trans hid⟩
  | counted v =>
    obtain ⟨rfl, hid⟩ := hp
    rw [Rtos.createStep] at hstep
    split_ifs at hstep with hle
    cases hstep
    refine ⟨h.extend rfl (Nat.le_succ _) (fun _ hj => hj) (fun j hj => ?_) fun _ _ => rfl,
      fun q hq => by cases hq⟩
    rcases Nat.lt_succ_iff_lt_or_eq.mp hj with hlt | rfl
    · exact h.id j hlt
    · exact hid

theorem Fair.taskCreate (h : Fair k since) :
    Fair (taskCreate k).2 (observe k (taskCreate k).2 since) := by
  rw [Rtos.taskCreate]
  split_ifs
  · exact h.moves (.inl (Quiet.refl k))
  have hother : ∀ {t : TCB} {j : ℕ}, j ≠ k.nTasks → update k.tasks k.nTasks t j = k.tasks j :=
    fun hne => update_of_ne hne _ _
  refine h.extend rfl (Nat.le_succ _) (fun j hj => ?_) (fun j hj => ?_) fun c hc => ?_
  · replace hj : (update k.tasks k.nTasks _ j).state = .running := hj
    rcases eq_or_ne j k.nTasks with rfl | hne
    · rw [update_self] at hj
      cases hj
    · rwa [hother hne] at hj
  · change (update k.tasks k.nTasks _ j).id = j
    rcases Nat.lt_succ_iff_lt_or_eq.mp hj with hlt | rfl
    · rw [hother hlt.ne]
      exact h.id j hlt
    · rw [update_self]
  · exact congrArg TCB.switches (hother (h.cur_lt c hc).ne)

theorem Fair.of_le (h : Fair k since) {since' : ℕ → ℕ → ℕ} (hle : ∀ j i, since' j i ≤ since j i) :
    Fair k since' where
  running := h.running
  cur_lt := h.cur_lt
  id := h.id
  once j i hj hne := (hle j i).trans (h.once j i hj hne)
  between j i hj hne hpos := h.between j i hj hne (hpos.trans_le (hle j i))

namespace Sched.Good

variable {s s' : Sched}

theorem base (h : s.Good) {a : Act} (hstep : s.base i a = some s') : s'.Good := by
  rw [Sched.base] at hstep
  split_ifs at hstep with hno
  rw [not_or] at hno
  obtain ⟨sys, hsys, rfl⟩ := Option.map_eq_some_iff.mp hstep
  have hmoves := moves_step hno.1 hsys
  exact ⟨h.fair.moves hmoves, fun i p hp => (h.creating i p hp).moves hmoves, h.alone⟩

theorem createBegin (h : s.Good) (hcare : ∀ j, s.creating j = none)
    (hstep : s.createBegin i = some s') : s'.Good := by
  rw [Sched.createBegin] at hstep
  split_ifs at hstep
  · cases hstep
    exact h
  cases hstep
  have hself : ∀ {j : ℕ} {v}, update s.creating i v j ≠ none → j = i := fun {j v} hj => by
    by_contra hne
    rw [update_of_ne hne] at hj
    exact hj (hcare j)
  refine ⟨h.fair, fun j p hp => ?_, fun j l hj hl => (hself hj).trans (hself hl).symm⟩
  obtain rfl : j = i := hself (ne_of_eq_of_ne hp (Option.some_ne_none p))
  obtain rfl : CreatePc.slot s.kernel.nTasks = p := by simpa using hp
  rfl

theorem create (h : s.Good) (hstep : s.create i = some s') : s'.Good := by
  obtain ⟨p, hp, hrest⟩ := Option.bind_eq_some_iff.mp hstep
  obtain ⟨⟨k, next⟩, hcreate, rfl⟩ := Option.map_eq_some_iff.mp hrest
  obtain ⟨hfair, hnext⟩ := h.fair.createStep (h.creating i p hp) hcreate
  -- nobody else is at it
  have hothers : ∀ j ≠ i, s.creating j = none := fun j hne => by
    by_contra hj
    exact hne (h.alone j i hj (by rw [hp]; simp))
  have hself : ∀ {j : ℕ}, update s.creating i next j ≠ none → j = i := fun {j} hj => by
    by_contra hne
    rw [update_of_ne hne] at hj
    exact hj (hothers j hne)
  refine ⟨hfair, fun j q hq => ?_, fun j l hj hl => (hself hj).trans (hself hl).symm⟩
  obtain rfl : j = i := hself (ne_of_eq_of_ne hq (Option.some_ne_none q))
  exact hnext q (by simpa using hq)

theorem step (h : s.Good) {a : SchedAct} (hcare : s.careful a) (hstep : s.step a = some s') :
    s'.Good := by
  obtain ⟨i, -, hrest⟩ := Option.bind_eq_some_iff.mp hstep
  cases a with
  | base a => exact h.base hrest
  | createBegin => exact h.createBegin hcare hrest
  | create => exact h.create hrest

theorem created (n : ℕ) (counts : ℕ → BitVec 32) :
    Fair ((fun k => (taskCreate k).2)^[n] (Kernel.init counts)) fun _ _ => 0 := by
  induction n with
  | zero =>
    exact ⟨fun j hj => (by cases hj), fun c hc => (by cases hc),
      fun j hj => absurd hj (Nat.not_lt_zero j), fun _ _ _ _ => Nat.zero_le 1,
      fun _ _ _ _ hpos => absurd hpos (Nat.lt_irrefl 0)⟩
  | succ n ih =>
    rw [Function.iterate_succ_apply']
    exact ih.taskCreate.of_le fun _ _ => Nat.zero_le _

theorem start (n : ℕ) (counts : ℕ → BitVec 32) : (Sched.start n counts).Good where
  fair := (created n counts).moves (Quiet.refl _).pickNextTask
  creating i p hp := by cases hp
  alone i j hi := absurd rfl hi

end Sched.Good

/-- **Round-robin never passes over a ready task**, whatever the ticks and calls, as long as no task
begins to create one while another is at it. -/
theorem Sched.roundRobin_of_careful {s : Sched} {n : ℕ} {counts : ℕ → BitVec 32}
    (h : Reaches Sched.step Sched.careful (Sched.start n counts) s) : s.RoundRobin := by
  have hgood := h.invariant (fun hs hcare hstep => Sched.Good.step hs hcare hstep)
    (Sched.Good.start n counts)
  exact ⟨hgood.fair.once, hgood.fair.running⟩

/-! ## Two creations at once -/

/-- The first of two tasks creates a third and is preempted. -/
theorem roundRobin_create : ∃ s, Reaches Sched.step Sched.careful (Sched.start 2 fun _ => 0) s ∧
    s.kernel.Ready 2 ∧ s.since 2 1 = 1 ∧ s.RoundRobin := by
  have hstart : Reaches Sched.step Sched.careful (Sched.start 2 fun _ => 0) _ := .refl
  have hslot := hstart.snoc (a := SchedAct.createBegin) (fun _ => rfl) rfl
  have hfilled := hslot.snoc (a := SchedAct.create) trivial rfl
  have hnamed := hfilled.snoc (a := SchedAct.create) trivial rfl
  have hcounted := hnamed.snoc (a := SchedAct.create) trivial rfl
  have hcreated := hcounted.snoc (a := SchedAct.create) trivial rfl
  have hpreempted := hcreated.snoc (a := SchedAct.base .tick) trivial rfl
  exact ⟨_, hpreempted, by decide, by decide, Sched.roundRobin_of_careful hpreempted⟩

/-- The second of two tasks creates one while the first is at it, and then another; the first goes on when
its turn comes. -/
def overlapping : List SchedAct :=
  [.createBegin, .base .tick, .createBegin, .create, .create, .create, .create,
    .createBegin, .create, .create, .create, .create, .base .tick, .base .tick, .base .tick,
    .create, .create, .create, .create]

/-- **A task starves**: the third task has the `id` 4, so that the search after it begins with the first
task and not with the fourth. -/
theorem not_forall_roundRobin :
    ¬ ∀ (n : ℕ) (counts : ℕ → BitVec 32) (s : Sched),
      Reaches Sched.step anyStep (Sched.start n counts) s → s.RoundRobin := fun h => by
  have hend : (runAll Sched.step anyStep (Sched.start 2 fun _ => 0)
      (overlapping ++ List.replicate 3 (.base .tick))).map
        (fun s => (decide (s.kernel.Ready 3), s.since 3 0)) = some (true, 2) := by decide +kernel
  obtain ⟨s, hrun, hs⟩ := Option.map_eq_some_iff.mp hend
  obtain ⟨hready, hsince⟩ := Prod.mk.inj hs
  have hle := (h 2 _ s (Reaches.of_runAll _ hrun)).once 3 0 (of_decide_eq_true hready) (by decide)
  rw [hsince] at hle
  exact absurd hle (by decide)

end KlaussRuntime.Rtos
