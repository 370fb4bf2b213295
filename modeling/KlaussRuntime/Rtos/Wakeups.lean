import KlaussRuntime.Rtos.Grants

/-!
# Rtos/Wakeups — no wakeup is stored while someone waits

A signal stores a unit only if `wake_one` finds nobody waiting, and a wait blocks only if nothing is
stored; nothing else raises what an object stores or blocks a task on it.  So an object never has both
(`Kernel.Settled`), whatever `wait_obj` of earlier waits is left in the task blocks, and a task that the
scheduler keeps although it has just blocked may go on calling.

`count++` is the one thing that can go wrong: at `INT_MAX` it makes the count negative.
-/

namespace KlaussRuntime.Rtos

open Machinery

variable {k k' : Kernel} {i : ℕ} {o : SyncObj} {σ σ' : Sys}

/-- **Nothing is stored while someone waits**, and no count is negative. -/
structure Kernel.Settled (k : Kernel) : Prop where
  /-- the current task and the tasks that wait are in the table -/
  cur : ∀ c, k.cur = some c → c < k.nTasks
  inTable : ∀ j o, k.BlockedOn j o → j < k.nTasks
  nonneg : ∀ s, 0 ≤ (k.semCount s).toInt
  empty : ∀ j o, k.BlockedOn j o → k.stored o = 0

/-- A signal that stores a unit finds room for it. -/
def NoOverflow (σ : Sys) : Act → Prop
  | .call (.signal (.sem s)) =>
    (∀ j < σ.kernel.nTasks, ¬ σ.kernel.BlockedOn j (.sem s)) →
      (σ.kernel.semCount s).toInt < 2 ^ 31 - 1
  | _ => True

theorem toInt_succ {x : BitVec 32} (h : 0 ≤ x.toInt) (hlt : x.toInt < 2 ^ 31 - 1) :
    0 ≤ (x + 1).toInt := by
  rw [BitVec.toInt_eq_toNat_cond] at h hlt ⊢
  have hadd : (x + 1).toNat = (x.toNat + 1) % 2 ^ 32 := by rw [BitVec.toNat_add]; rfl
  rw [hadd]
  split_ifs at h hlt ⊢ <;> omega

theorem toInt_sub_one {x : BitVec 32} (h : 0 < x.toInt) : 0 ≤ (x - 1).toInt := by
  rw [BitVec.toInt_eq_toNat_cond] at h ⊢
  have hx := x.isLt
  have hsub : (x - 1).toNat = (2 ^ 32 - 1 + x.toNat) % 2 ^ 32 := by rw [BitVec.toNat_sub]; rfl
  rw [hsub]
  split_ifs at h ⊢ <;> omega

theorem pickNextTask_semCount (k : Kernel) : (pickNextTask k).semCount = k.semCount := by
  have hpre : k.preempt.semCount = k.semCount := by
    unfold Kernel.preempt
    split
    · split <;> rfl
    · rfl
  unfold pickNextTask
  split
  · exact hpre
  · exact hpre

theorem wakeOne_none (h : wakeOne k o o.waitType = none) : ∀ j < k.nTasks, ¬ k.BlockedOn j o := by
  intro j hj hb
  rw [wakeOne, Option.map_eq_none_iff, List.find?_eq_none] at h
  exact h j (List.mem_range.mpr hj) (by simpa [Kernel.BlockedOn] using hb)

namespace Kernel.Settled

theorem mono (h : k.Settled) (hcur : ∀ c, k'.cur = some c → c < k'.nTasks)
    (hn : k.nTasks ≤ k'.nTasks) (hsem : k'.semCount = k.semCount)
    (hblocked : ∀ j o, k'.BlockedOn j o → k.BlockedOn j o ∧ k'.stored o = k.stored o) :
    k'.Settled where
  cur := hcur
  inTable j o hb := (h.inTable j o (hblocked j o hb).1).trans_le hn
  nonneg s := by
    rw [hsem]
    exact h.nonneg s
  empty j o hb := by
    rw [(hblocked j o hb).2]
    exact h.empty j o (hblocked j o hb).1

/-- **The scheduler.** -/
theorem pickNextTask (h : k.Settled) : (pickNextTask k).Settled := by
  have hkeeps := pickNextTask_keeps k
  refine h.mono (fun c hc => ?_) hkeeps.nTasks.ge (pickNextTask_semCount k)
    fun j o hb => ⟨(hkeeps.blockedOn j o).mp hb, hkeeps.stored o⟩
  rw [hkeeps.nTasks]
  unfold Rtos.pickNextTask at hc
  split at hc
  · next next hnext =>
    obtain rfl : next = c := Option.some.inj hc
    rw [← (preempt_keeps k).nTasks]
    exact nextReady_lt hnext
  · rw [preempt_cur] at hc
    exact h.cur c hc

/-- **The tick.** -/
theorem timerHandler (h : k.Settled) : (timerHandler k).Settled := by
  have hkeeps := tickCountUpdate_keeps k
  have hticked : (tickCountUpdate k).Settled := h.mono h.cur le_rfl rfl
    fun j o hb => ⟨(hkeeps.blockedOn j o).mp hb, hkeeps.stored o⟩
  exact hticked.pickNextTask

theorem setTask (h : k.Settled) {t : TCB} (ht : t.state = .blocked → t.waitType = .tick) (i : ℕ) :
    (k.setTask i t).Settled := by
  refine h.mono h.cur le_rfl rfl fun j o hb => ?_
  have hj : j ≠ i := by
    rintro rfl
    rw [Kernel.BlockedOn, Kernel.setTask_tasks_self] at hb
    have htick := ht hb.1
    rw [hb.2.1] at htick
    cases o <;> cases htick
  exact ⟨(Kernel.blockedOn_setTask_of_ne hj t o).mp hb, by cases o <;> rfl⟩

theorem block (h : k.Settled) (hcur : k.cur = some i) (hzero : k.stored o = 0) :
    (k.block i o o.waitType).Settled := by
  have hstored : ∀ o', (k.block i o o.waitType).stored o' = k.stored o' := fun o' => by
    cases o' <;> rfl
  refine ⟨h.cur, fun j o' hb => ?_, h.nonneg, fun j o' hb => ?_⟩
  · rcases eq_or_ne j i with rfl | hj
    · exact h.cur j hcur
    · exact h.inTable j o' ((Kernel.blockedOn_setTask_of_ne hj _ o').mp hb)
  · rw [hstored]
    rcases eq_or_ne j i with rfl | hj
    · rw [Kernel.BlockedOn, Kernel.block, Kernel.setTask_tasks_self] at hb
      obtain rfl : o = o' := Option.some.inj hb.2.2
      exact hzero
    · exact h.empty j o' ((Kernel.blockedOn_setTask_of_ne hj _ o').mp hb)

/-- What one object stores changes: it is less, or nobody waits for it. -/
theorem touches (h : k.Settled) (hk : Touches o k k') (hnonneg : ∀ s, 0 ≤ (k'.semCount s).toInt)
    (hfree : k.stored o = 0 → ∀ j, ¬ k.BlockedOn j o) : k'.Settled where
  cur c hc := by
    rw [hk.nTasks]
    exact h.cur c (hk.cur ▸ hc)
  inTable j o' hb := by
    rw [hk.nTasks]
    exact h.inTable j o' ((hk.blockedOn j o').mp hb)
  nonneg := hnonneg
  empty j o' hb := by
    replace hb := (hk.blockedOn j o').mp hb
    rcases eq_or_ne o' o with rfl | hne
    · exact absurd hb (hfree (h.empty j o' hb) j)
    · rw [hk.stored o' hne]
      exact h.empty j o' hb

theorem nonneg_setSem (h : k.Settled) {s : ℕ} {v : BitVec 32} (hv : 0 ≤ v.toInt) (s' : ℕ) :
    0 ≤ ((k.setSem s v).semCount s').toInt := by
  change 0 ≤ (Function.update k.semCount s v s').toInt
  rcases eq_or_ne s' s with rfl | hne
  · rwa [Function.update_self]
  · rw [Function.update_of_ne hne]
    exact h.nonneg s'

theorem not_blockedOn_of_stored (h : k.Settled) (hpos : 0 < k.stored o) (j : ℕ) :
    ¬ k.BlockedOn j o := fun hb => hpos.ne' (h.empty j o hb)

/-- **`rtos_sem_wait` and `rtos_flag_wait`.** -/
theorem wait (h : k.Settled) (hcur : k.cur = some i) (o : SyncObj) :
    match perform k i (.wait o) with
    | .returns k' | .yields k' => k'.Settled := by
  cases o with
  | sem s =>
    rw [perform, rtosSemWait]
    split_ifs with hpos
    · refine h.touches (touches_setSem k s _) (h.nonneg_setSem (toInt_sub_one hpos)) fun hzero => ?_
      exact absurd (Int.toNat_eq_zero.mp hzero) (not_le.mpr hpos)
    · exact (h.block (o := .sem s) hcur (Int.toNat_of_nonpos (not_lt.mp hpos))).pickNextTask
  | flag f =>
    rw [perform, rtosFlagWait]
    split_ifs with hset
    · refine h.touches (touches_setFlag k f 0) h.nonneg fun hzero => ?_
      rw [Kernel.stored, if_neg hset] at hzero
      cases hzero
    · exact (h.block (o := .flag f) hcur (if_pos (not_not.mp hset))).pickNextTask

/-- **`rtos_sem_signal` and `rtos_flag_set`.** -/
theorem signal (h : k.Settled) (i : ℕ) (o : SyncObj)
    (hroom : ∀ s, o = .sem s → (∀ j < k.nTasks, ¬ k.BlockedOn j o) →
      (k.semCount s).toInt < 2 ^ 31 - 1) :
    ∃ k', perform k i (.signal o) = .returns k' ∧ k'.Settled := by
  -- with nobody waiting in the table, nobody waits
  have hnobody : wakeOne k o o.waitType = none → ∀ j, ¬ k.BlockedOn j o := fun hwake j hb =>
    wakeOne_none hwake j (h.inTable j o hb) hb
  have hwoken : ∀ k', wakeOne k o o.waitType = some k' → k'.Settled := fun k' hwake => by
    obtain ⟨j, -, -, rfl⟩ := wakeOne_some hwake
    exact h.setTask (by rw [TCB.woken]; intro hstate; cases hstate) j
  cases o with
  | sem s =>
    rw [perform, rtosSemSignal]
    split
    · next k' hwake => exact ⟨k', rfl, hwoken k' hwake⟩
    · next hwake =>
      have hlt := hroom s rfl fun j _ => hnobody hwake j
      exact ⟨_, rfl, h.touches (touches_setSem k s _)
        (h.nonneg_setSem (toInt_succ (h.nonneg s) hlt)) fun _ => hnobody hwake⟩
  | flag f =>
    rw [perform, rtosFlagSet]
    split
    · next k' hwake => exact ⟨k', rfl, hwoken k' hwake⟩
    · next hwake =>
      exact ⟨_, rfl, h.touches (touches_setFlag k f 1) h.nonneg fun _ => hnobody hwake⟩

theorem taskCreate (h : k.Settled) : (taskCreate k).2.Settled := by
  unfold Rtos.taskCreate
  split
  · exact h
  · have hset := h.setTask (t := { k.tasks k.nTasks with state := .ready, id := k.nTasks, switches := 0 })
      (fun hstate => by cases hstate) k.nTasks
    exact hset.mono (fun c hc => Nat.lt_succ_of_lt (h.cur c hc)) (Nat.le_succ _) rfl
      fun j o hb => ⟨hb, by cases o <;> rfl⟩

/-- **A call of the current task.** -/
theorem call (h : σ.kernel.Settled) (hcur : σ.kernel.cur = some i) {c : Call}
    (hroom : NoOverflow σ (.call c)) : (σ.proceed i c (perform σ.kernel i c)).kernel.Settled := by
  cases c with
  | yield => exact h.pickNextTask
  | sleepTicks ticks => exact (h.setTask (fun _ => rfl) i).pickNextTask
  | exit => exact (h.setTask (fun hstate => by cases hstate) i).pickNextTask
  | create => exact h.taskCreate
  | wait o =>
    have hwait := h.wait hcur o
    cases hperform : perform σ.kernel i (.wait o) with
    | returns k => rwa [hperform] at hwait
    | yields k => rwa [hperform] at hwait
  | signal o =>
    obtain ⟨k, hreturns, hk⟩ := h.signal i o (by rintro s rfl; exact hroom)
    rw [hreturns]
    exact hk

theorem step {a : Act} (h : σ.kernel.Settled) (hroom : NoOverflow σ a)
    (hstep : step σ a = some σ') : σ'.kernel.Settled := by
  obtain ⟨i, hcur, ⟨rfl, rfl⟩ | ⟨c, rfl, -, rfl⟩ | ⟨c, rfl, -, rfl⟩⟩ := step_cases hstep
  · exact h.timerHandler
  · exact h.call hcur hroom
  · cases c with
    | exit => exact h.pickNextTask
    | _ => exact h

theorem start (n : ℕ) {counts : ℕ → BitVec 32} (hcounts : ∀ s, 0 ≤ (counts s).toInt) :
    (Sys.start n counts).kernel.Settled := by
  have hcreated : ((fun k => (Rtos.taskCreate k).2)^[n] (Kernel.init counts)).Settled := by
    induction n with
    | zero =>
      exact ⟨fun c hc => (by cases hc), fun j o hb => (by cases hb.1), hcounts,
        fun j o hb => (by cases hb.1)⟩
    | succ n ih =>
      rw [Function.iterate_succ_apply']
      exact ih.taskCreate
  exact hcreated.pickNextTask

end Kernel.Settled

/-- A semaphore with units and a flag that is set have no task waiting for them, no count is negative, and
no tick makes a task ready that waits for one of them. -/
structure NoStoredWakeup (σ : Sys) : Prop where
  sem : ∀ s, 0 < (σ.kernel.semCount s).toInt → ∀ j, ¬ σ.kernel.BlockedOn j (.sem s)
  flag : ∀ f, σ.kernel.flagBits f ≠ 0 → ∀ j, ¬ σ.kernel.BlockedOn j (.flag f)
  nonneg : ∀ s, 0 ≤ (σ.kernel.semCount s).toInt
  tick : ∀ σ', step σ .tick = some σ' → ∀ j o, σ.kernel.BlockedOn j o →
    (σ'.kernel.tasks j).state ≠ .ready

theorem tick_blockedOn (hstep : step σ .tick = some σ') {j : ℕ} (hb : σ.kernel.BlockedOn j o) :
    σ'.kernel.BlockedOn j o := by
  obtain ⟨i, -, ⟨-, rfl⟩ | ⟨c, hcall, -⟩ | ⟨c, hresume, -⟩⟩ := step_cases hstep
  · exact ((timerHandler_keeps σ.kernel).blockedOn j o).mpr hb
  · cases hcall
  · cases hresume

/-- **No wakeup is stored while someone waits**, for any number of tasks and any interleaving of ticks and
calls, as long as no count is raised past `INT_MAX`. -/
theorem no_stored_wakeup (n : ℕ) {counts : ℕ → BitVec 32} (hcounts : ∀ s, 0 ≤ (counts s).toInt)
    (hrun : Reaches step NoOverflow (Sys.start n counts) σ) : NoStoredWakeup σ := by
  have hset : σ.kernel.Settled := @Reaches.invariant _ _ _ _ _ _ (fun σ => σ.kernel.Settled) hrun
    (fun h hroom hstep => h.step hroom hstep) (Kernel.Settled.start n hcounts)
  refine ⟨fun s hpos => ?_, fun f hbits => ?_, hset.nonneg, fun σ' hstep j o hb hready => ?_⟩
  · exact hset.not_blockedOn_of_stored (o := .sem s) (Int.lt_toNat.mpr hpos)
  · refine hset.not_blockedOn_of_stored (o := .flag f) ?_
    rw [Kernel.stored, if_neg hbits]
    exact Nat.one_pos
  · rw [(tick_blockedOn hstep hb).1] at hready
    cases hready

/-- The first of two tasks stores a unit; the second takes it, waits again and blocks. -/
theorem no_stored_wakeup_two : ∃ σ, Reaches step NoOverflow (Sys.start 2 fun _ => 0) σ ∧
    σ.kernel.BlockedOn 1 (.sem 0) ∧ NoStoredWakeup σ := by
  have hstart : Reaches step NoOverflow (Sys.start 2 fun _ => 0) _ := .refl
  have hstored := hstart.snoc (a := Act.call (.signal (.sem 0))) (fun _ => by decide) rfl
  have hyielded := hstored.snoc (a := Act.call .yield) trivial rfl
  have htaken := hyielded.snoc (a := Act.call (.wait (.sem 0))) trivial rfl
  have hblocked := htaken.snoc (a := Act.call (.wait (.sem 0))) trivial rfl
  exact ⟨_, hblocked, by decide, no_stored_wakeup 2 (fun _ => by decide) hblocked⟩

/-- **A count past `INT_MAX`** is negative. -/
theorem not_forall_no_stored_wakeup :
    ¬ ∀ (n : ℕ) (counts : ℕ → BitVec 32) (σ : Sys), (∀ s, 0 ≤ (counts s).toInt) →
      Reaches step anyStep (Sys.start n counts) σ → NoStoredWakeup σ := by
  intro hall
  have hstart : Reaches step anyStep (Sys.start 1 fun _ => 0x7fffffff#32) _ := .refl
  have hraised := hstart.snoc (a := Act.call (.signal (.sem 0))) trivial rfl
  have hnonneg := (hall 1 (fun _ => 0x7fffffff#32) _ (fun _ => by decide) hraised).nonneg 0
  revert hnonneg
  decide

end KlaussRuntime.Rtos
