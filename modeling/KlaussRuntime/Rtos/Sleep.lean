import KlaussRuntime.Rtos.RoundRobin

/-!
# Rtos/Sleep — how long a task sleeps

`rtos_sleep_ticks` adds the ticks to the count and leaves the processor; every tick compares the count with the
sum as a signed difference.  As long as the sum is not more than 2^31 + 1 away, the difference is negative until
the last of the ticks, wherever the count wraps (`not_due`), and nothing else makes the task READY or gives it
the processor: not the scheduler, which passes over a blocked task, not a signal, which looks for a task that
waits for its object, and not a creation, which writes outside the table.

A longer sleep ends with the first tick.
-/

namespace KlaussRuntime.Rtos

open Machinery

/-- A system whose tick counter starts anywhere. -/
def Sched.startAt (now : BitVec 32) (n : ℕ) (counts : ℕ → BitVec 32) : Sched :=
  let s := Sched.start n counts
  { s with sys := { s.sys with kernel := { s.sys.kernel with tickCount := now } } }

/-- A scheduler with the ticks counted. -/
structure Timed where
  sched : Sched
  /-- ghost: how often the tick counter was incremented -/
  ticks : ℕ

def SchedAct.ticks : SchedAct → ℕ
  | .base .tick => 1
  | _ => 0

def Timed.step (t : Timed) (a : SchedAct) : Option Timed :=
  (t.sched.step a).map fun s => ⟨s, t.ticks + a.ticks⟩

def Timed.careful (t : Timed) (a : SchedAct) : Prop := t.sched.careful a

/-- Some other task is READY or RUNNING. -/
def Sched.OthersReady (i : ℕ) (s : Sched) : Prop :=
  ∃ j, j ≠ i ∧ j < s.kernel.nTasks ∧
    ((s.kernel.tasks j).state = .ready ∨ (s.kernel.tasks j).state = .running)

/-- **The task sleeps**: it is not READY, and its call has not returned. -/
structure Sched.Asleep (i : ℕ) (ticks : BitVec 32) (s : Sched) : Prop where
  state : (s.kernel.tasks i).state = .blocked
  pos : s.sys.pos i = .inYield (.sleepTicks ticks)
  cur : s.kernel.cur ≠ some i

/-! ## The wake test -/

/-- **Before the last tick the difference is negative.** -/
theorem not_due (now : BitVec 32) {ticks : BitVec 32} {m : ℕ} (hlong : ticks.toNat ≤ 2 ^ 31 + 1) (hm : m + 1 < ticks.toNat) :
    ¬ (now + BitVec.ofNat 32 m + 1 - (now + ticks)).toInt ≥ 0 := by
  have hdiff : now + BitVec.ofNat 32 m + 1 - (now + ticks) = BitVec.ofNat 32 (m + 1) - ticks := by
    rw [BitVec.ofNat_add]
    bv_omega
  have hnat : (BitVec.ofNat 32 (m + 1) - ticks).toNat = 2 ^ 32 - (ticks.toNat - (m + 1)) := by
    have hlt := ticks.isLt
    rw [BitVec.toNat_sub, BitVec.toNat_ofNat]
    omega
  rw [hdiff, BitVec.toInt_eq_toNat_cond, hnat]
  split_ifs <;> omega

/-! ## Nothing else wakes the task -/

variable {k k' : Kernel} {i j c : ℕ} {t : TCB} {now : BitVec 32}

/-- Task `i` is not current, sleeps, and its block is `t`. -/
structure Dozes (i : ℕ) (t : TCB) (now : BitVec 32) (k : Kernel) : Prop where
  lt : i < k.nTasks
  cur : k.cur ≠ some i
  task : k.tasks i = t
  state : t.state = .blocked
  waitType : t.waitType = .tick
  tickCount : k.tickCount = now

namespace Dozes

theorem setTask (h : Dozes i t now k) (hne : i ≠ j) (u : TCB) : Dozes i t now (k.setTask j u) :=
  { h with task := (Kernel.setTask_tasks_of_ne hne u).trans h.task }

theorem preempt (h : Dozes i t now k) : Dozes i t now k.preempt := by
  unfold Kernel.preempt
  split
  · next c hc =>
    split_ifs
    · exact h.setTask (fun heq => h.cur (heq ▸ hc)) _
    · exact h
  · exact h

theorem switchTo (h : Dozes i t now k) (hready : (k.tasks j).state = .ready) : Dozes i t now (k.switchTo j) := by
  have hne : i ≠ j := fun heq => by
    rw [← heq, h.task, h.state] at hready
    cases hready
  exact { h.setTask hne _ with cur := fun heq => hne (Option.some.inj heq).symm }

theorem pickNextTask (h : Dozes i t now k) : Dozes i t now (pickNextTask k) := by
  unfold Rtos.pickNextTask
  split
  · next next hnext => exact h.preempt.switchTo (nextReady_state hnext)
  · exact h.preempt

theorem wakeOne {o : SyncObj} (h : Dozes i t now k) (hwake : wakeOne k o o.waitType = some k') :
    Dozes i t now k' := by
  obtain ⟨j, -, hblocked, rfl⟩ := wakeOne_some hwake
  refine h.setTask (fun heq => ?_) _
  have htype := hblocked.2.1
  rw [← heq, h.task, h.waitType] at htype
  cases o <;> cases htype

theorem setSem (h : Dozes i t now k) (s : ℕ) (v : BitVec 32) : Dozes i t now (k.setSem s v) := { h with }

theorem setFlag (h : Dozes i t now k) (f : ℕ) (v : BitVec 32) : Dozes i t now (k.setFlag f v) := { h with }

/-- **A call of another task.** -/
theorem perform (call : Call) (h : Dozes i t now k) (hcur : k.cur = some c) :
    match perform k c call with
    | .returns k' | .yields k' => Dozes i t now k' := by
  have hne : i ≠ c := fun heq => h.cur (heq ▸ hcur)
  cases call with
  | yield => exact h.pickNextTask
  | sleepTicks ticks => exact (h.setTask hne _).pickNextTask
  | exit => exact (h.setTask hne _).pickNextTask
  | create =>
    rw [Rtos.perform, taskCreate]
    split_ifs
    · exact h
    · exact { h.setTask h.lt.ne _ with lt := Nat.lt_succ_of_lt h.lt }
  | wait o =>
    cases o with
    | sem s =>
      rw [Rtos.perform, rtosSemWait]
      split_ifs
      · exact h.setSem s _
      · exact (h.setTask hne _).pickNextTask
    | flag f =>
      rw [Rtos.perform, rtosFlagWait]
      split_ifs
      · exact h.setFlag f _
      · exact (h.setTask hne _).pickNextTask
  | signal o =>
    cases o with
    | sem s =>
      rw [Rtos.perform, rtosSemSignal]
      cases hwake : Rtos.wakeOne k (.sem s) .sem with
      | some k' => exact h.wakeOne (o := .sem s) hwake
      | none => exact h.setSem s _
    | flag f =>
      rw [Rtos.perform, rtosFlagSet]
      cases hwake : Rtos.wakeOne k (.flag f) .flag with
      | some k' => exact h.wakeOne (o := .flag f) hwake
      | none => exact h.setFlag f _

/-- **A creation** works outside the table. -/
theorem createStep {p : CreatePc} {next : Option CreatePc} (h : Dozes i t now k) (hp : p.Ok k)
    (hstep : createStep k p = some (k', next)) : Dozes i t now k' := by
  cases p with
  | slot t | filled t =>
    obtain rfl := hp
    obtain ⟨rfl, -⟩ := Prod.mk.inj (Option.some.inj hstep)
    exact h.setTask h.lt.ne _
  | named t =>
    obtain ⟨rfl, -⟩ := hp
    obtain ⟨rfl, -⟩ := Prod.mk.inj (Option.some.inj hstep)
    exact h.setTask h.lt.ne _
  | counted v =>
    obtain ⟨rfl, -⟩ := hp
    rw [Rtos.createStep] at hstep
    split_ifs at hstep
    obtain ⟨rfl, -⟩ := Prod.mk.inj (Option.some.inj hstep)
    exact { h with lt := Nat.lt_succ_of_lt h.lt }

/-- **A tick** before it is time. -/
theorem tickCountUpdate (h : Dozes i t now k) (hdue : ¬ (now + 1 - t.wakeTick).toInt ≥ 0) :
    Dozes i t (now + 1) (tickCountUpdate k) := by
  refine { h with task := ?_, tickCount := congrArg (· + 1) h.tickCount }
  rw [Rtos.tickCountUpdate]
  dsimp only
  rw [if_neg fun hwake => hdue ?_, h.task]
  have hdiff := hwake.2.2.2
  rwa [h.task, h.tickCount] at hdiff

/-- **The call** leaves the processor to another task. -/
theorem block (hcur : k.cur = some i) (hi : i < k.nTasks) (hne : j ≠ i) (hj : j < k.nTasks)
    (hready : (k.tasks j).state = .ready) (hstate : t.state = .blocked) (htype : t.waitType = .tick)
    (hnow : k.tickCount = now) : Dozes i t now (Rtos.pickNextTask (k.setTask i t)) := by
  have hself : (k.setTask i t).tasks i = t := Kernel.setTask_tasks_self i t
  have hpre : (k.setTask i t).preempt = k.setTask i t := by
    unfold Kernel.preempt
    rw [show (k.setTask i t).cur = some i from hcur]
    dsimp only
    rw [if_neg]
    rw [hself, hstate]
    exact TaskState.noConfusion
  have hsome := nextReady_isSome (k := k.setTask i t) hj
    ((congrArg TCB.state (Kernel.setTask_tasks_of_ne hne t)).trans hready)
  obtain ⟨next, hnext⟩ := Option.isSome_iff_exists.mp hsome
  have hother : i ≠ next := fun heq => by
    have hnextReady := nextReady_state hnext
    rw [← heq, hself, hstate] at hnextReady
    cases hnextReady
  rw [Rtos.pickNextTask, hpre, hnext]
  exact ⟨hi, fun heq => hother (Option.some.inj heq).symm,
    (Kernel.setTask_tasks_of_ne hother _).trans hself, hstate, htype, hnow⟩

end Dozes

/-! ## The run -/

variable {n : ℕ} {counts : ℕ → BitVec 32} {ticks : BitVec 32} {s s₀ s₁ : Sched} {a : SchedAct} {m : ℕ}

theorem Sched.Good.startAt (now : BitVec 32) (n : ℕ) (counts : ℕ → BitVec 32) : (Sched.startAt now n counts).Good :=
  have h := Sched.Good.start n counts
  ⟨⟨h.fair.running, h.fair.cur_lt, h.fair.id, h.fair.once, h.fair.between⟩, h.creating, h.alone⟩

/-- The task was put to sleep when the counter was `now`, `m` ticks ago. -/
structure Sched.Dozes (i : ℕ) (ticks now : BitVec 32) (m : ℕ) (s : Sched) : Prop where
  kernel : ∃ t : TCB, t.wakeTick = now + ticks ∧ Rtos.Dozes i t (now + BitVec.ofNat 32 m) s.kernel
  pos : s.sys.pos i = .inYield (.sleepTicks ticks)

/-- A step of the system that is not a tick leaves the task alone. -/
theorem Dozes.sys {σ σ' : Sys} {a : Act} (h : Dozes i t now σ.kernel) (ha : a ≠ .tick)
    (hstep : step σ a = some σ') : Dozes i t now σ'.kernel ∧ σ'.pos i = σ.pos i := by
  obtain ⟨c, hcur, ⟨rfl, -⟩ | ⟨call, rfl, -, rfl⟩ | ⟨call, rfl, -, rfl⟩⟩ := step_cases hstep
  · exact absurd rfl ha
  · have hne : i ≠ c := fun heq => h.cur (heq ▸ hcur)
    have hperform := h.perform call hcur
    cases hout : Rtos.perform σ.kernel c call with
    | returns k =>
      rw [hout] at hperform
      exact ⟨hperform, rfl⟩
    | yields k =>
      rw [hout] at hperform
      exact ⟨hperform, Function.update_of_ne hne _ _⟩
  · have hne : i ≠ c := fun heq => h.cur (heq ▸ hcur)
    cases call with
    | exit => exact ⟨h.pickNextTask, rfl⟩
    | _ => exact ⟨h, Function.update_of_ne hne _ _⟩

theorem Sched.Dozes.step (h : s₀.Dozes i ticks now m) (hgood : s₀.Good) (hlong : ticks.toNat ≤ 2 ^ 31 + 1)
    (hm : m + a.ticks < ticks.toNat) (hstep : s₀.step a = some s₁) :
    s₁.Dozes i ticks now (m + a.ticks) := by
  obtain ⟨⟨t, hwake, hdozes⟩, hpos⟩ := h
  obtain ⟨c, hcur, hrest⟩ := Option.bind_eq_some_iff.mp hstep
  cases a with
  | base a =>
    change s₀.base c a = some s₁ at hrest
    rw [Sched.base] at hrest
    split_ifs at hrest
    obtain ⟨sys, hsys, rfl⟩ := Option.map_eq_some_iff.mp hrest
    by_cases ha : a = .tick
    · subst ha
      obtain ⟨-, -, ⟨-, rfl⟩ | ⟨c, hcall, -⟩ | ⟨c, hresume, -⟩⟩ := step_cases hsys
      · have hdue := not_due now hlong hm
        have hnow : now + BitVec.ofNat 32 (m + 1) = now + BitVec.ofNat 32 m + 1 := by
          rw [BitVec.ofNat_add, BitVec.add_assoc]
          rfl
        refine ⟨⟨t, hwake, ?_⟩, hpos⟩
        change Rtos.Dozes i t (now + BitVec.ofNat 32 (m + 1)) (timerHandler s₀.kernel)
        rw [hnow]
        exact (hdozes.tickCountUpdate (hwake ▸ hdue)).pickNextTask
      · cases hcall
      · cases hresume
    · obtain ⟨hk, hp⟩ := hdozes.sys ha hsys
      have hnone : (SchedAct.base a).ticks = 0 := by
        cases a with
        | tick => exact absurd rfl ha
        | call _ | resume => rfl
      rw [hnone]
      exact ⟨⟨t, hwake, hk⟩, hp.trans hpos⟩
  | createBegin =>
    change s₀.createBegin c = some s₁ at hrest
    rw [Sched.createBegin] at hrest
    split_ifs at hrest
    · cases hrest
      exact ⟨⟨t, hwake, hdozes⟩, hpos⟩
    · cases hrest
      exact ⟨⟨t, hwake, hdozes⟩, hpos⟩
  | create =>
    change s₀.create c = some s₁ at hrest
    obtain ⟨p, hp, hrest⟩ := Option.bind_eq_some_iff.mp hrest
    obtain ⟨⟨k, next⟩, hcreate, rfl⟩ := Option.map_eq_some_iff.mp hrest
    exact ⟨⟨t, hwake, hdozes.createStep (hgood.creating c p hp) hcreate⟩, hpos⟩

/-- **The call** leaves the processor to another task. -/
theorem Sched.Good.sleep (h : s₀.Good) (hcur : s₀.kernel.cur = some i) (hothers : s₀.OthersReady i)
    (hcall : s₀.step (.base (.call (.sleepTicks ticks))) = some s₁) :
    s₁.Dozes i ticks s₀.kernel.tickCount 0 := by
  obtain ⟨j, hne, hj, hready⟩ := hothers
  replace hready : (s₀.kernel.tasks j).state = .ready := hready.resolve_right fun hrun =>
    hne (Option.some.inj ((h.fair.running j hrun).symm.trans hcur))
  obtain ⟨c, hc, hrest⟩ := Option.bind_eq_some_iff.mp hcall
  obtain rfl : i = c := Option.some.inj (hcur.symm.trans hc)
  change s₀.base i _ = some s₁ at hrest
  rw [Sched.base] at hrest
  split_ifs at hrest
  obtain ⟨sys, hsys, rfl⟩ := Option.map_eq_some_iff.mp hrest
  obtain ⟨c, hc, ⟨htick, -⟩ | ⟨call, hact, -, rfl⟩ | ⟨call, hresume, -⟩⟩ := step_cases hsys
  · cases htick
  · obtain rfl := Act.call.inj hact
    obtain rfl : i = c := Option.some.inj (hcur.symm.trans hc)
    exact ⟨⟨_, rfl, Dozes.block (t := { s₀.kernel.tasks i with
      state := .blocked, waitType := .tick, wakeTick := s₀.kernel.tickCount + ticks }) hcur
      (h.fair.cur_lt i hcur) hne hj hready rfl rfl (BitVec.add_zero _).symm⟩, Function.update_self _ _ _⟩
  · cases hresume

/-- **Sleeping lasts at least as long as asked**, up to 2^31 + 1 ticks, wherever the tick counter stands and
whatever happens meanwhile, as long as no task begins to create one while another is at it. -/
theorem asleep_until {t : Timed} (hreach : Reaches Sched.step Sched.careful (Sched.startAt now n counts) s₀)
    (hcur : s₀.kernel.cur = some i) (hothers : s₀.OthersReady i)
    (hcall : s₀.step (.base (.call (.sleepTicks ticks))) = some s₁)
    (hrun : Reaches Timed.step Timed.careful ⟨s₁, 0⟩ t) (hlong : ticks.toNat ≤ 2 ^ 31 + 1)
    (hticks : t.ticks < ticks.toNat) : t.sched.Asleep i ticks := by
  have hgood := hreach.invariant (fun hs hcare hstep => Sched.Good.step hs hcare hstep)
    (Sched.Good.startAt now n counts)
  have hinv : t.sched.Good ∧ (t.ticks < ticks.toNat → t.sched.Dozes i ticks s₀.kernel.tickCount t.ticks) := by
    refine @Reaches.invariant _ _ _ _ _ _ (fun t : Timed => t.sched.Good ∧
      (t.ticks < ticks.toNat → t.sched.Dozes i ticks s₀.kernel.tickCount t.ticks)) hrun
      (fun {t t' a} hinv hcare hstep => ?_) ⟨hgood.step (a := .base _) trivial hcall, fun _ => hgood.sleep hcur hothers hcall⟩
    obtain ⟨s, hs, rfl⟩ := Option.map_eq_some_iff.mp hstep
    exact ⟨hinv.1.step hcare hs, fun hlt =>
      (hinv.2 ((Nat.le_add_right _ _).trans_lt hlt)).step hinv.1 hlong hlt hs⟩
  obtain ⟨⟨u, -, hdozes⟩, hpos⟩ := hinv.2 hticks
  exact ⟨by rw [hdozes.task]; exact hdozes.state, hpos, hdozes.cur⟩

/-- The first of two tasks goes to sleep. -/
def toBed (now ticks : BitVec 32) : Sched :=
  ((Sched.startAt now 2 fun _ => 0).step (.base (.call (.sleepTicks ticks)))).get rfl

theorem toBed_eq (now ticks : BitVec 32) :
    (Sched.startAt now 2 fun _ => 0).step (.base (.call (.sleepTicks ticks))) = some (toBed now ticks) :=
  (Option.some_get _).symm

/-- …for three ticks, right before the counter wraps. -/
theorem asleep_until_wrap :
    ∃ t, Reaches Timed.step Timed.careful ⟨toBed 0xffffffff 3, 0⟩ t ∧ t.ticks = 2 ∧
      t.sched.kernel.tickCount = 1 ∧ t.sched.Asleep 0 3 := by
  have hstart : Reaches Timed.step Timed.careful ⟨toBed 0xffffffff 3, 0⟩ _ := .refl
  have hfirst := hstart.snoc (a := SchedAct.base .tick) trivial rfl
  have hsecond := hfirst.snoc (a := SchedAct.base .tick) trivial rfl
  have hboot : Reaches Sched.step Sched.careful (Sched.startAt 0xffffffff 2 fun _ => 0) _ := .refl
  exact ⟨_, hsecond, rfl, by decide, asleep_until hboot rfl
    ⟨1, by decide, by decide, by decide⟩ (toBed_eq 0xffffffff 3) hsecond (by decide) (by decide)⟩

/-- **A sleep of 2^32 - 1 ticks ends with the first.** -/
theorem not_forall_asleep_until :
    ¬ ∀ (now : BitVec 32) (n : ℕ) (counts : ℕ → BitVec 32) (s₀ s₁ : Sched) (i : ℕ) (ticks : BitVec 32) (t : Timed),
      Reaches Sched.step Sched.careful (Sched.startAt now n counts) s₀ → s₀.kernel.cur = some i →
      s₀.OthersReady i → s₀.step (.base (.call (.sleepTicks ticks))) = some s₁ →
      Reaches Timed.step (fun t a => t.careful a ∧ t.sched.OthersReady i) ⟨s₁, 0⟩ t →
      t.ticks < ticks.toNat → t.sched.Asleep i ticks := fun h => by
  have hstart : Reaches Timed.step (fun t a => t.careful a ∧ t.sched.OthersReady 0)
    ⟨toBed 0 0xffffffff, 0⟩ _ := .refl
  have hfirst := hstart.snoc (a := SchedAct.base .tick) ⟨trivial, 1, by decide, by decide, by decide⟩ rfl
  have hasleep := h 0 2 (fun _ => 0) _ _ 0 0xffffffff _ .refl rfl ⟨1, by decide, by decide, by decide⟩
    (toBed_eq 0 0xffffffff) hfirst (by decide)
  have hstate := hasleep.state
  revert hstate
  decide

end KlaussRuntime.Rtos
