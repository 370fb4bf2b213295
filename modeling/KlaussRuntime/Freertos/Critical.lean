import KlaussRuntime.Machinery.Machine
import Mathlib.Logic.Function.Basic
import Mathlib.Tactic

/-!
# Freertos/Critical — critical sections and the yields inside them

`vPortEnterCritical` disables interrupts and counts in `uxPortCriticalNesting`, `vPortExitCritical` counts
back and enables them when the count is zero.  The count is one variable for all tasks and is in no
task's frame; `vPortYield` patches the frame it leaves so that the task always resumes with interrupts
enabled.

As long as tasks yield outside their critical sections, the count is that of the running task and the
others have none (`belongs_of_careful`).  A task that yields inside one resumes there with interrupts
enabled, and meanwhile the others see its count (`not_forall_belongs`).
-/

namespace KlaussRuntime.Freertos

open Machinery Function

/-- Where a task is. -/
inductive Pc
  | task
  /-- in `vPortEnterCritical`, interrupts are off -/
  | entering
  /-- in `vPortExitCritical`, the count has come to zero -/
  | leaving
  /-- in `vPortYield`, so many registers are pushed -/
  | yielding (pushed : Fin 3)
  /-- in `vPortYield`, interrupts are off -/
  | switching
  deriving DecidableEq

structure Port (T : Type*) where
  /-- the interrupt-enable bit -/
  enabled : Bool
  uxPortCriticalNesting : BitVec 32
  /-- the running task -/
  cur : T
  pc : T → Pc
  /-- the enable bit in the frame of a task that is not running -/
  frame : T → Bool
  /-- ghost: the critical sections a task has entered and not left -/
  depth : T → ℕ

inductive Act (T : Type*)
  | enterCritical
  | exitCritical
  | yield
  /-- the running task goes on in the port's code; `next` is the task the kernel chooses there -/
  | go (next : T)
  /-- the timer interrupt, after which `next` runs -/
  | tick (next : T)

variable {T : Type*} [DecidableEq T]

namespace Port

def goto (s : Port T) (p : Pc) : Port T := { s with pc := update s.pc s.cur p }

def setDepth (s : Port T) (n : ℕ) : Port T := { s with depth := update s.depth s.cur n }

/-- The running task's frame gets the enable bit `e`, and `next` is resumed with that of its own. -/
def switch (s : Port T) (e : Bool) (next : T) : Port T :=
  let frame := update s.frame s.cur e
  { s with frame, cur := next, enabled := frame next }

/-- `vPortExitCritical` up to the count. -/
def vPortExitCritical (s : Port T) : Port T :=
  if 0 < s.uxPortCriticalNesting then
    let s := { s with uxPortCriticalNesting := s.uxPortCriticalNesting - 1 }
    if s.uxPortCriticalNesting = 0 then s.goto .leaving else s
  else s

def step (s : Port T) : Act T → Option (Port T)
  | .enterCritical =>
    if s.pc s.cur = .task then some ({ s with enabled := false }.goto .entering) else none
  | .exitCritical =>
    -- the calls are properly nested
    if s.pc s.cur = .task ∧ 0 < s.depth s.cur then
      some (s.setDepth (s.depth s.cur - 1)).vPortExitCritical
    else none
  | .yield => if s.pc s.cur = .task then some (s.goto (.yielding 0)) else none
  | .go next =>
    match s.pc s.cur with
    | .task => none
    | .entering =>
      some (({ s with uxPortCriticalNesting := s.uxPortCriticalNesting + 1 }.setDepth
        (s.depth s.cur + 1)).goto .task)
    | .leaving => some ({ s with enabled := true }.goto .task)
    | .yielding 0 => some (s.goto (.yielding 1))
    | .yielding 1 => some (s.goto (.yielding 2))
    | .yielding 2 => some ({ s with enabled := false }.goto .switching)
    -- the patched frame: interrupts enabled, the timer unmasked
    | .switching => some ((s.goto .task).switch true next)
  | .tick next => if s.enabled then some (s.switch s.enabled next) else none

/-- The first task starts; every frame is one `pxPortInitialiseStack` has made. -/
def start (first : T) : Port T where
  enabled := true
  uxPortCriticalNesting := 0
  cur := first
  pc := fun _ => .task
  frame := fun _ => true
  depth := fun _ => 0

/-- The running task is in its own code, or in `vPortYield` as far as its DI. -/
def InTask (s : Port T) : Prop := s.pc s.cur ≠ .entering ∧ s.pc s.cur ≠ .leaving ∧
  s.pc s.cur ≠ .switching

/-- **Critical sections belong to the task that entered them.** -/
structure Belongs (s : Port T) : Prop where
  inside : s.InTask → 0 < s.depth s.cur → s.enabled = false
  outside : s.InTask → s.depth s.cur = 0 → s.enabled = true
  own : s.InTask → s.uxPortCriticalNesting.toNat = s.depth s.cur

/-- Tasks yield outside their critical sections, and do not nest more of them than the counter counts. -/
def careful (s : Port T) : Act T → Prop
  | .yield => s.depth s.cur = 0
  | .enterCritical => s.depth s.cur + 1 < 2 ^ 32
  | _ => True

instance (s : Port T) : ∀ a, Decidable (s.careful a)
  | .yield => inferInstanceAs (Decidable (s.depth s.cur = 0))
  | .enterCritical => inferInstanceAs (Decidable (s.depth s.cur + 1 < 2 ^ 32))
  | .exitCritical | .go _ | .tick _ => .isTrue trivial

/-! ## The invariant -/

/-- What holds where the running task is: its enable bit, the count and its depth. -/
def At (enabled : Bool) (nesting depth : ℕ) : Pc → Prop
  | .task => enabled = decide (depth = 0) ∧ nesting = depth
  | .entering => enabled = false ∧ nesting = depth ∧ depth + 1 < 2 ^ 32
  | .leaving => enabled = false ∧ nesting = 0 ∧ depth = 0
  | .yielding _ => enabled = true ∧ nesting = 0 ∧ depth = 0
  | .switching => enabled = false ∧ nesting = 0 ∧ depth = 0

/-- What holds at every moment; a task that is not running is outside its critical sections. -/
structure Good (s : Port T) : Prop where
  knows : At s.enabled s.uxPortCriticalNesting.toNat (s.depth s.cur) (s.pc s.cur)
  others : ∀ t ≠ s.cur, s.depth t = 0 ∧ (s.pc t = .task ∨ ∃ k, s.pc t = .yielding k)
  frames : ∀ t ≠ s.cur, s.frame t = true

variable {s s' : Port T}

omit [DecidableEq T] in
theorem Good.belongs (h : s.Good) : s.Belongs := by
  have hknows := h.knows
  cases hpc : s.pc s.cur with
  | task =>
    rw [hpc] at hknows
    refine ⟨fun _ hpos => ?_, fun _ hzero => ?_, fun _ => hknows.2⟩
    · rw [hknows.1, decide_eq_false hpos.ne']
    · rw [hknows.1, decide_eq_true hzero]
  | yielding k =>
    rw [hpc] at hknows
    obtain ⟨hon, hnest, hdepth⟩ := hknows
    exact ⟨fun _ hpos => absurd hdepth hpos.ne', fun _ _ => hon, fun _ => hnest.trans hdepth.symm⟩
  | entering =>
    exact ⟨fun hin => absurd hpc hin.1, fun hin => absurd hpc hin.1, fun hin => absurd hpc hin.1⟩
  | leaving =>
    exact ⟨fun hin => absurd hpc hin.2.1, fun hin => absurd hpc hin.2.1, fun hin => absurd hpc hin.2.1⟩
  | switching =>
    exact ⟨fun hin => absurd hpc hin.2.2, fun hin => absurd hpc hin.2.2, fun hin => absurd hpc hin.2.2⟩

omit [DecidableEq T] in
theorem Good.move (h : s.Good) (hcur : s'.cur = s.cur) (hframe : s'.frame = s.frame)
    (hdepth : ∀ t ≠ s.cur, s'.depth t = s.depth t) (hpc : ∀ t ≠ s.cur, s'.pc t = s.pc t)
    (hknows : At s'.enabled s'.uxPortCriticalNesting.toNat (s'.depth s.cur) (s'.pc s.cur)) :
    s'.Good := by
  refine ⟨hcur ▸ hknows, ?_, ?_⟩
  · intro t ht
    rw [hcur] at ht
    rw [hdepth t ht, hpc t ht]
    exact h.others t ht
  · intro t ht
    rw [hcur] at ht
    rw [hframe]
    exact h.frames t ht

theorem Good.goto (h : s.Good) {e : Bool} {p : Pc}
    (hknows : At e s.uxPortCriticalNesting.toNat (s.depth s.cur) p) :
    ({ s with enabled := e }.goto p).Good := by
  refine h.move rfl rfl (fun _ _ => rfl) (fun t ht => update_of_ne ht _ _) ?_
  change At e _ _ (update s.pc s.cur p s.cur)
  rw [update_self]
  exact hknows

theorem goto_self (s : Port T) : s.goto (s.pc s.cur) = s := by
  rw [goto, update_eq_self]

/-- The running task leaves a frame that resumes with interrupts enabled, outside its critical
sections. -/
theorem Good.switch (h : s.Good) (hnest : s.uxPortCriticalNesting.toNat = 0)
    (hdepth : s.depth s.cur = 0) {p : Pc} (hp : p = .task ∨ ∃ k, p = .yielding k) (next : T) :
    ((s.goto p).switch true next).Good := by
  have hframe : ∀ t, update s.frame s.cur true t = true :=
    (forall_update_iff s.frame fun _ e => e = true).mpr ⟨rfl, h.frames⟩
  have hdepths : ∀ t, s.depth t = 0 := fun t => by
    rcases eq_or_ne t s.cur with rfl | hne
    · exact hdepth
    · exact (h.others t hne).1
  have hpcs : ∀ t, update s.pc s.cur p t = .task ∨
      ∃ k, update s.pc s.cur p t = .yielding k :=
    (forall_update_iff s.pc fun _ q => q = .task ∨ ∃ k, q = .yielding k).mpr
      ⟨hp, fun t ht => (h.others t ht).2⟩
  refine ⟨?_, fun t _ => ⟨hdepths t, hpcs t⟩, fun t _ => hframe t⟩
  change At (update s.frame s.cur true next) s.uxPortCriticalNesting.toNat (s.depth next)
    (update s.pc s.cur p next)
  rw [hframe, hnest, hdepths]
  rcases hpcs next with htask | ⟨k, hyield⟩
  · rw [htask]
    exact ⟨rfl, rfl⟩
  · rw [hyield]
    exact ⟨rfl, rfl, rfl⟩

omit [DecidableEq T] in
/-- A task that can be interrupted is outside its critical sections. -/
theorem Good.idle (h : s.Good) (hon : s.enabled = true) : s.uxPortCriticalNesting.toNat = 0 ∧
    s.depth s.cur = 0 ∧ (s.pc s.cur = .task ∨ ∃ k, s.pc s.cur = .yielding k) := by
  have hknows := h.knows
  rw [hon] at hknows
  cases hpc : s.pc s.cur with
  | task =>
    rw [hpc] at hknows
    have hdepth : s.depth s.cur = 0 := of_decide_eq_true hknows.1.symm
    exact ⟨hknows.2.trans hdepth, hdepth, .inl rfl⟩
  | yielding k =>
    rw [hpc] at hknows
    exact ⟨hknows.2.1, hknows.2.2, .inr ⟨k, rfl⟩⟩
  | entering | leaving | switching =>
    rw [hpc] at hknows
    exact absurd hknows.1 (by decide)

theorem Good.enterCritical (h : s.Good) (hpc : s.pc s.cur = .task)
    (hcount : s.depth s.cur + 1 < 2 ^ 32) : ({ s with enabled := false }.goto .entering).Good := by
  have hknows := h.knows
  rw [hpc] at hknows
  exact h.goto ⟨rfl, hknows.2, hcount⟩

theorem Good.count (h : s.Good) (hpc : s.pc s.cur = .entering) :
    (({ s with uxPortCriticalNesting := s.uxPortCriticalNesting + 1 }.setDepth
      (s.depth s.cur + 1)).goto .task).Good := by
  have hknows := h.knows
  rw [hpc] at hknows
  obtain ⟨hoff, hnest, hcount⟩ := hknows
  refine h.move rfl rfl (fun t ht => update_of_ne ht _ _)
    (fun t ht => update_of_ne ht _ _) ?_
  change At s.enabled (s.uxPortCriticalNesting + 1).toNat
    (update s.depth s.cur (s.depth s.cur + 1) s.cur) (update s.pc s.cur .task s.cur)
  rw [update_self, update_self]
  refine ⟨by rw [hoff, decide_eq_false (Nat.succ_ne_zero _)], ?_⟩
  rw [BitVec.toNat_add_of_lt (by rw [hnest]; exact hcount), hnest]
  rfl

theorem Good.exitCritical (h : s.Good) (hpc : s.pc s.cur = .task) (hpos : 0 < s.depth s.cur) :
    ((s.setDepth (s.depth s.cur - 1)).vPortExitCritical).Good := by
  have hknows := h.knows
  rw [hpc] at hknows
  obtain ⟨hoff, hnest⟩ := hknows
  rw [decide_eq_false hpos.ne'] at hoff
  have hone : 1 ≤ s.uxPortCriticalNesting := by
    rw [BitVec.le_def, hnest]
    exact hpos
  have hsub : (s.uxPortCriticalNesting - 1).toNat = s.depth s.cur - 1 := by
    rw [BitVec.toNat_sub_of_le hone, hnest]
    rfl
  have hlt : 0 < (s.setDepth (s.depth s.cur - 1)).uxPortCriticalNesting := by
    change 0 < s.uxPortCriticalNesting
    rw [BitVec.lt_def, hnest]
    exact hpos
  rw [vPortExitCritical, if_pos hlt]
  have hupdate : ∀ t ≠ s.cur,
      update s.depth s.cur (s.depth s.cur - 1) t = s.depth t :=
    fun t ht => update_of_ne ht _ _
  have hself : update s.depth s.cur (s.depth s.cur - 1) s.cur = s.depth s.cur - 1 :=
    update_self ..
  dsimp only
  split_ifs with hzero
  · replace hzero : s.uxPortCriticalNesting - 1 = 0 := hzero
    have hd : s.depth s.cur - 1 = 0 := by
      rw [← hsub, hzero]
      rfl
    refine h.move rfl rfl hupdate (fun t ht => update_of_ne ht _ _) ?_
    change At s.enabled (s.uxPortCriticalNesting - 1).toNat
      (update s.depth s.cur (s.depth s.cur - 1) s.cur)
      (update s.pc s.cur .leaving s.cur)
    rw [hself, update_self, hsub, hd]
    exact ⟨hoff, rfl, rfl⟩
  · replace hzero : s.uxPortCriticalNesting - 1 ≠ 0 := hzero
    have hd : s.depth s.cur - 1 ≠ 0 := fun hd => hzero (BitVec.eq_of_toNat_eq (hsub.trans hd))
    refine h.move rfl rfl hupdate (fun _ _ => rfl) ?_
    change At s.enabled (s.uxPortCriticalNesting - 1).toNat
      (update s.depth s.cur (s.depth s.cur - 1) s.cur) (s.pc s.cur)
    rw [hself, hpc, hsub, hoff]
    exact ⟨(decide_eq_false hd).symm, rfl⟩

theorem Good.go (h : s.Good) {next : T} (hstep : s.step (.go next) = some s') : s'.Good := by
  have hknows := h.knows
  rw [step] at hstep
  cases hpc : s.pc s.cur with
  | task => simp [hpc] at hstep
  | entering =>
    simp only [hpc, Option.some.injEq] at hstep
    exact hstep ▸ h.count hpc
  | leaving =>
    rw [hpc] at hknows
    obtain ⟨-, hnest, hdepth⟩ := hknows
    simp only [hpc, Option.some.injEq] at hstep
    exact hstep ▸ h.goto ⟨(decide_eq_true hdepth).symm, hnest.trans hdepth.symm⟩
  | yielding k =>
    rw [hpc] at hknows
    fin_cases k
    · simp only [hpc, Option.some.injEq] at hstep
      exact hstep ▸ h.goto hknows
    · simp only [hpc, Option.some.injEq] at hstep
      exact hstep ▸ h.goto hknows
    · simp only [hpc, Option.some.injEq] at hstep
      exact hstep ▸ h.goto ⟨rfl, hknows.2⟩
  | switching =>
    rw [hpc] at hknows
    obtain ⟨-, hnest, hdepth⟩ := hknows
    simp only [hpc, Option.some.injEq] at hstep
    exact hstep ▸ h.switch hnest hdepth (.inl rfl) next

theorem Good.step (h : s.Good) {a : Act T} (hok : s.careful a) (hstep : s.step a = some s') :
    s'.Good := by
  have hknows := h.knows
  cases a with
  | go next => exact h.go hstep
  | enterCritical =>
    rw [Port.step] at hstep
    split_ifs at hstep with hpc
    exact Option.some.inj hstep ▸ h.enterCritical hpc hok
  | exitCritical =>
    rw [Port.step] at hstep
    split_ifs at hstep with hcall
    exact Option.some.inj hstep ▸ h.exitCritical hcall.1 hcall.2
  | yield =>
    rw [Port.step] at hstep
    split_ifs at hstep with hpc
    rw [hpc] at hknows
    have hdepth : s.depth s.cur = 0 := hok
    exact Option.some.inj hstep ▸
      h.goto ⟨hknows.1.trans (decide_eq_true hdepth), hknows.2.trans hdepth, hdepth⟩
  | tick next =>
    rw [Port.step] at hstep
    split_ifs at hstep with hon
    obtain ⟨hnest, hdepth, hpc⟩ := h.idle hon
    have hgood := h.switch hnest hdepth hpc next
    rw [goto_self] at hgood
    rw [hon] at hstep
    exact Option.some.inj hstep ▸ hgood

omit [DecidableEq T] in
theorem good_start (first : T) : (start first).Good where
  knows := ⟨rfl, rfl⟩
  others _ _ := ⟨rfl, .inl rfl⟩
  frames _ _ := rfl

/-- Where tasks yield outside their critical sections, **a section belongs to the task that entered
it**: inside one interrupts are off, outside they are on, and the count a task sees is its own. -/
theorem belongs_of_careful (first : T) (hreach : Reaches step careful (start first) s) : s.Belongs :=
  (hreach.invariant (fun h hok hstep => h.step hok hstep) (good_start first)).belongs

/-- A task enters a section, leaves it and is preempted; the other yields and enters one later. -/
def sectionThenTick : List (Act Bool) :=
  [.enterCritical, .go false, .exitCritical, .go false, .tick true, .yield, .go true, .go true, .go true,
    .go true, .enterCritical, .go true]

theorem belongs_sectionThenTick : ∃ s : Port Bool, Reaches step careful (start false) s ∧
    (s.pc s.cur = .task ∧ s.depth s.cur = 1) ∧ s.Belongs := by
  have hend : (runAll step careful (start false) sectionThenTick).map
      (fun s => (s.pc s.cur, s.depth s.cur)) = some (.task, 1) := by decide +kernel
  obtain ⟨s, hrun, hs⟩ := Option.map_eq_some_iff.mp hend
  have hreach := Reaches.of_runAll _ hrun
  exact ⟨s, hreach, Prod.mk.inj hs, belongs_of_careful false hreach⟩

/-- A task enters a section and yields inside it; the other yields back. -/
def yieldInside : List (Act Bool) :=
  [.enterCritical, .go false, .yield, .go false, .go false, .go false, .go true,
    .yield, .go true, .go true, .go true, .go false]

/-- **A task resumes inside its critical section with interrupts enabled.** -/
theorem not_forall_belongs :
    ¬ ∀ s : Port Bool, Reaches step anyStep (start false) s → s.Belongs := by
  intro hall
  have hend : (runAll step anyStep (start false) yieldInside).map
      (fun s => (s.cur, s.pc s.cur, s.depth s.cur, s.enabled)) = some (false, .task, 1, true) := by
    decide +kernel
  obtain ⟨s, hrun, hs⟩ := Option.map_eq_some_iff.mp hend
  obtain ⟨-, hpc, hdepth, hon⟩ := by simpa only [Prod.mk.injEq] using hs
  have hoff : s.enabled = false := (hall s (Reaches.of_runAll _ hrun)).inside
    ⟨by simp [hpc], by simp [hpc], by simp [hpc]⟩ (by simp [hdepth])
  simp [hon] at hoff

end Port

end KlaussRuntime.Freertos
