import KlaussRuntime.Cpu.TaskFrames
import Mathlib.Tactic.IntervalCases

/-!
# Cpu/TaskRuns — whole runs of a kernel that switches tasks

Every step keeps the invariant of `TaskFrames`: an instruction from a calm state, the timer wherever it is
enabled, a task's own code, a yield, a new task, the scheduler's choice.
-/

namespace KlaussRuntime.Cpu

open Machinery Function

variable {T B : Type*} [DecidableEq T]

namespace Port

variable {P : Port T B} {s s' : Sys T B} {t u : T} {m m' : Cells} {x c : Ctx} {cs : List Ctx}
  {high : BitVec 32}

/-! ## Where a task can be interrupted -/

theorem fetch_yield (hP : P.Verified) :
    P.fetch (P.addr .yield 0) = some (.plain (.push 0), .yield, 0) ∧
      P.fetch (P.addr .yield 1) = some (.plain (.push 1), .yield, 1) ∧
      P.fetch (P.addr .yield 2) = some (.plain (.di 0), .yield, 2) := by
  obtain ⟨rest, hcode⟩ := hP.yield_code
  exact ⟨Program.fetch_addr (by rw [hcode]; rfl), Program.fetch_addr (by rw [hcode]; rfl),
    Program.fetch_addr (by rw [hcode]; rfl)⟩

theorem fetch_first (hP : P.Verified) : P.fetch (P.addr .first ((P.code .first).length - 1)) =
    some (.iret, .first, (P.code .first).length - 1) := by
  obtain ⟨init, hcode⟩ := hP.first_code
  refine Program.fetch_addr ?_
  rw [hcode, List.length_append, List.length_singleton, Nat.add_sub_cancel, List.getElem?_concat_length]

/-- A context above another one is at a plain instruction, or at the `IRET` of the first start. -/
theorem Above.fetch (hP : P.Verified) (h : P.Above m x c) :
    (∃ p r i, P.fetch x.pc = some (.plain p, r, i)) ∨
      (∃ r i, P.fetch x.pc = some (.iret, r, i)) ∧ x.regs = c.regs ∧ x.sp = below c.sp 8 ∧
        ∃ high, Resumable 0 high ∧ Words m c.sp [high ++ c.pc] := by
  obtain ⟨hregs, ⟨j, hj, hpc, -⟩ | ⟨hpc, hsp, hword⟩⟩ := h
  · obtain ⟨h0, h1, h2⟩ := fetch_yield hP
    rw [hpc]
    interval_cases j
    · exact .inl ⟨_, _, _, h0⟩
    · exact .inl ⟨_, _, _, h1⟩
    · exact .inl ⟨_, _, _, h2⟩
  · rw [hpc]
    exact .inr ⟨⟨_, _, fetch_first hP⟩, hregs, hsp, hword⟩

theorem Chain.nil_of_own (hP : P.Verified) (h : P.Chain m x cs) (hown : P.decode x.pc = none) : cs = [] :=
  match cs, h with
  | [], _ => rfl
  | [_], h => by
    have hnone := Program.fetch_of_decode hown
    rcases h.1.fetch hP with ⟨p, r, i, hfetch⟩ | ⟨⟨r, i, hfetch⟩, -⟩
    · cases hnone.symm.trans hfetch
    · cases hnone.symm.trans hfetch

theorem Chain.not_call (hP : P.Verified) (h : P.Chain m x cs) {f : Fn} {r : Routine} {i : ℕ} :
    P.fetch x.pc ≠ some (.call f, r, i) :=
  match cs, h with
  | [], h => fun hfetch => by cases (Program.fetch_of_decode h).symm.trans hfetch
  | [_], h => fun hcall => by
    rcases h.1.fetch hP with ⟨p, r, i, hfetch⟩ | ⟨⟨r, i, hfetch⟩, -⟩
    · cases hcall.symm.trans hfetch
    · cases hcall.symm.trans hfetch

/-! ## What code that is not the kernel's keeps -/

/-- The tasks' stack pointers, their frames and the stacks of new tasks are as they were. -/
structure Guarded (P : Port T B) (s : Sys T B) (m : Cells) : Prop where
  handles : ∀ a u, P.owner a = .handle u → m a = s.core.mem a
  frames : ∀ u c a, s.live u = true → c ∈ s.saved u → Under c.sp 136 a → m a = s.core.mem a
  tops : ∀ u a, (s.fresh u).isSome → Under (P.top u) 16 a → m a = s.core.mem a

omit [DecidableEq T] in
theorem Kept.guarded_of_owner (hP : P.Placed) (h : P.Kept s)
    (hhandle : ∀ a u, P.owner a = .handle u → m a = s.core.mem a)
    (hstack : ∀ a u, P.owner a = .stack u → s.saved u ≠ [] → m a = s.core.mem a) : P.Guarded s m where
  handles := hhandle
  frames u c a hlive hc ha := hstack a u (h.onStack u c a hlive hc ha) (List.ne_nil_of_mem hc)
  tops u a hfresh ha := by
    obtain ⟨b, hb⟩ := Option.isSome_iff_exists.mp hfresh
    obtain ⟨c, hlast, -⟩ := (h.fresh u b hb).last
    obtain ⟨k, hpos, hk, rfl⟩ := ha
    refine hstack _ u (hP.top_stack u _ ⟨k, hpos, hk.trans (by decide), rfl⟩) fun hnil => ?_
    simp [hnil] at hlast

omit [DecidableEq T] in
theorem Kept.guarded (h : P.Kept s) {core : Core} (hg : P.Guarded s core.mem) (pc : Address)
    (cur : Option T) : P.Kept { s with core, pc, cur } where
  onStack := h.onStack
  fresh u b hb := by
    have hfresh := h.fresh u b hb
    exact ⟨hfresh.live, hfresh.last,
      hfresh.words.congr fun a ha => hg.tops u a (by rw [hb]; rfl) ha, hfresh.apart⟩

omit [DecidableEq T] in
theorem Parked.guarded (hP : P.Placed) {m' : Cells} (hg : P.Guarded s m') (hlive : s.live u = true)
    (h : P.Parked s.core.mem (s.saved u) u) : P.Parked m' (s.saved u) u :=
  h.congr hP (fun a ha => hg.handles a u ha) fun c hc a ha => hg.frames u c a hlive hc ha

omit [DecidableEq T] in
theorem Shared.own (hP : P.Placed) (h : P.Shared s t) (hnil : s.saved t = []) {core : Core}
    (hw : P.Writes (fun o => o = .stack t ∨ o = .other) s.core.mem core.mem) (pc : Address) :
    P.Shared { s with core, pc } t := by
  have hkeep : ∀ {a o}, P.owner a = o → o ≠ .stack t → o ≠ .other → core.mem a = s.core.mem a :=
    fun ha hstack hother => hw _ fun hmay => hmay.elim (fun h => hstack (ha.symm.trans h))
      fun h => hother (ha.symm.trans h)
  have hg : P.Guarded s core.mem := h.kept.guarded_of_owner hP (fun a u ha => hkeep ha (by simp) (by simp))
    fun a u ha hne => hkeep ha (fun heq => hne (by rw [Owner.stack.inj heq, hnil])) (by simp)
  exact ⟨h.cur, h.alive, hP.current_congr (fun a ha => hkeep ha (by simp) (by simp)) h.current,
    (hP.kernelSp_congr fun a ha => hkeep ha (by simp) (by simp)).trans h.kernel,
    fun u hu hlive => Parked.guarded (s := s) hP hg hlive (h.others u hu hlive), h.kept.guarded hg pc s.cur⟩

/-! ## Instructions from a calm state -/

omit [DecidableEq T] in
theorem Shared.calm_push (hP : P.Placed) (h : P.Shared s t) (hsaved : s.saved t = [c])
    (hown : P.decode c.pc = none) (hmask : s.core.mask.getLsbD 0 = true) {r : Reg} (hr : r.val < 2)
    (hregs : s.core.regs = c.regs) (hpush : Pushing c 0 r s.core) :
    P.Calm { s with core := s.core.exec (.push r), pc := P.addr .yield (r + 1) } := by
  obtain ⟨hpush', hsince⟩ := hpush.push
  have hmem : c ∈ s.saved t := by
    rw [hsaved]
    exact List.mem_cons_self ..
  refine ⟨t, h.save hP (fun a ha => hsince.mem a fun hunder => ha (h.mine_of_under hmem hunder)) _, ?_,
    hmask⟩
  change P.Chain _ _ (s.saved t)
  rw [hsaved]
  exact ⟨⟨hregs, .inl ⟨r + 1, by omega, rfl, hpush'.sp, hpush'.words⟩⟩, hown⟩

theorem Calm.exec (hP : P.Verified) (h : P.Calm s) (hexec : P.exec s = some s') : P.Settles s' := by
  obtain ⟨t, hshared, hchain, hmask⟩ := h
  cases hsaved : s.saved t with
  | nil =>
    rw [hsaved] at hchain
    replace hchain : P.decode s.pc = none := hchain
    rw [Port.exec, Program.fetch_of_decode hchain] at hexec
    cases hexec
  | cons c cs =>
    rw [hsaved] at hchain
    obtain rfl : cs = [] := by
      cases cs with
      | nil => rfl
      | cons => exact hchain.elim
    obtain ⟨⟨hregs, ⟨j, hj, hpc, hsp, hwords⟩ | ⟨hpc, hsp, high, hhigh, hwords⟩⟩, hown⟩ := hchain
    · obtain ⟨h0, h1, h2⟩ := fetch_yield hP
      replace hpc : s.pc = P.addr .yield j := hpc
      have hpush : Pushing c 0 j s.core := ⟨hsp, hwords, fun r _ => congrFun hregs r⟩
      interval_cases j
      · rw [exec_of_plain (hpc ▸ h0)] at hexec
        cases hexec
        exact .arrived (.inl (hshared.calm_push hP.toPlaced hsaved hown hmask (r := 0) (by decide) hregs hpush))
      · rw [exec_of_plain (hpc ▸ h1)] at hexec
        cases hexec
        exact .arrived (.inl (hshared.calm_push hP.toPlaced hsaved hown hmask (r := 1) (by decide) hregs hpush))
      · rw [exec_of_plain (hpc ▸ h2)] at hexec
        cases hexec
        have hdi : P.Shared { s with core := s.core.exec (.di 0), pc := P.addr .yield 3 } t := by
          refine hshared.save hP.toPlaced ?_ _
          exact fun _ _ => rfl
        refine hP.yield_settles ⟨hdi, hsaved, hown, ⟨hsp, hwords, fun r hr => ?_⟩,
          fun hopen => by cases hopen.1⟩ rfl
        exact (update_of_ne (fun h0 => by simp [h0] at hr) ..).trans (congrFun hregs r)
    · replace hpc : s.pc = P.addr .first ((P.code .first).length - 1) := hpc
      rw [exec_of_iret (hpc ▸ fetch_first hP) hshared.cur] at hexec
      cases hexec
      obtain ⟨hctx, hopen⟩ := iret_of_words hregs hsp hwords
      exact .arrived (.inl (hshared.calm_iret hsaved hown hctx (hopen 0 hhigh)))

/-! ## Entering the kernel -/

omit [DecidableEq T] in
/-- The frame of a context that has been interrupted lies under the return address of a new task. -/
theorem Fresh.apart_above (hP : P.Placed) {b : B} (h : P.Fresh s t b) (hchain : P.Chain m x (s.saved t))
    (a : Address) (ha : Under x.sp 136 a) : ¬ Under (P.top t) 16 a := by
  obtain ⟨c, hlast, hnew⟩ := h.last
  have hsp : ∃ k ≤ 24, x.sp = below c.sp k := by
    cases hsaved : s.saved t with
    | nil => simp [hsaved] at hlast
    | cons d ds =>
      rw [hsaved] at hchain hlast
      cases ds with
      | nil =>
        obtain rfl : d = c := by simpa using hlast
        exact hchain.1.sp
      | cons => exact hchain.elim
  obtain ⟨k, hk, hsp⟩ := hsp
  rintro ⟨i, hi, hi', rfl⟩
  obtain ⟨j, hj, hj', heq⟩ := ha
  rw [hsp, hnew.sp, hP.born_sp, below_below, below_below] at heq
  have := below_injective (by omega) (by omega) heq
  omega

/-- A context is added to those the running task is to return to. -/
theorem Shared.enter (h : P.Shared s t) (hroom : ∀ a, Under x.sp 136 a → P.owner a = .stack t)
    (hfresh : ∀ b, s.fresh t = some b → ∀ a, Under x.sp 136 a → ¬ Under (P.top t) 16 a) :
    P.Shared { s with saved := update s.saved t (x :: s.saved t) } t where
  cur := h.cur
  alive := h.alive
  current := h.current
  kernel := h.kernel
  others u hu hlive := by
    have hpark := h.others u hu hlive
    rwa [← update_of_ne hu (x :: s.saved t) s.saved] at hpark
  kept := by
    refine ⟨fun u c a hlive hc ha => ?_, fun u b hb => ?_⟩
    · replace hc : c ∈ update s.saved t (x :: s.saved t) u := hc
      rcases eq_or_ne u t with rfl | hu
      · rw [update_self, List.mem_cons] at hc
        rcases hc with rfl | hc
        · exact hroom a ha
        · exact h.kept.onStack u c a hlive hc ha
      · rw [update_of_ne hu] at hc
        exact h.kept.onStack u c a hlive hc ha
    · have hold := h.kept.fresh u b hb
      rcases eq_or_ne u t with rfl | hu
      · have hself : update s.saved u (x :: s.saved u) u = x :: s.saved u := update_self ..
        refine ⟨hold.live, ?_, hold.words, fun c hc => ?_⟩
        · obtain ⟨c, hlast, hnew⟩ := hold.last
          refine ⟨c, (congrArg List.getLast? hself).trans ?_, hnew⟩
          rw [List.getLast?_cons, hlast]
          rfl
        · replace hc : c ∈ update s.saved u (x :: s.saved u) u := hc
          rw [hself, List.mem_cons] at hc
          rcases hc with rfl | hc
          · exact hfresh b hb
          · exact hold.apart c hc
      · have hsame : update s.saved t (x :: s.saved t) u = s.saved u := update_of_ne hu ..
        refine ⟨hold.live, ?_, hold.words, fun c hc => hold.apart c (hsame ▸ hc)⟩
        obtain ⟨c, hlast, hnew⟩ := hold.last
        exact ⟨c, (congrArg List.getLast? hsame).trans hlast, hnew⟩

omit [DecidableEq T] in
theorem Shared.pushWord (hP : P.Placed) (h : P.Shared s t) (hx : x ∈ s.saved t)
    {core : Core} {w : BitVec 64} (hcore : core.mem = s.core.mem.store64 (below x.sp 8) w) (pc : Address) :
    P.Shared { s with core, pc } t := by
  refine h.save hP (fun a ha => ?_) pc
  rw [hcore]
  refine store64_below_apply (n := 0) w fun ⟨k, hpos, hk, heq⟩ => ha ?_
  exact h.mine_of_under hx ⟨k, hpos, by omega, heq⟩

/-- **The timer interrupts a calm task.** -/
theorem Calm.tick (hP : P.Verified) (h : P.Calm s) (hopen : s.core.Open 0) (hroom : P.Room s)
    (hcur : s.cur = some t) :
    P.Settles { s with
      core := s.core.interrupt 0 s.pc
      pc := P.addr .tick 0
      saved := update s.saved t (s.core.ctx s.pc :: s.saved t) } := by
  obtain ⟨t', hshared, hchain, hmask⟩ := h
  obtain rfl : t' = t := Option.some.inj (hshared.cur.symm.trans hcur)
  have henter := hshared.enter (x := s.core.ctx s.pc) (fun a ha => hroom t' a hcur ha)
    fun b hb a ha => (hshared.kept.fresh t' b hb).apart_above hP.toPlaced hchain a ha
  have hself : update s.saved t' (s.core.ctx s.pc :: s.saved t') t' =
    s.core.ctx s.pc :: s.saved t' := update_self ..
  have hmem : s.core.ctx s.pc ∈ update s.saved t' (s.core.ctx s.pc :: s.saved t') t' := by
    rw [hself]
    exact List.mem_cons_self ..
  refine hP.tick_settles ⟨henter.pushWord (x := s.core.ctx s.pc) hP.toPlaced hmem rfl _, hself,
    hchain.save fun a ha => store64_below_apply (n := 0) _ fun ⟨k, hpos, hk, heq⟩ =>
      ha ⟨k, hpos, by omega, heq⟩,
    ⟨rfl, ?_, fun _ _ => rfl⟩, s.core.not_open_interrupt 0 s.pc⟩ hopen.resumable rfl
  · have hnil : Words s.core.mem s.core.sp [] := fun i w hw => by simp at hw
    exact hnil.push (by simp) _

theorem Calm.yield (hP : P.Verified) (h : P.Calm s) (hown : P.decode s.pc = none) (hroom : P.Room s)
    (hcur : s.cur = some t) {ret : Address} (hret : P.decode ret = none) :
    P.Calm { s with
      core := s.core.pushWord (0#32 ++ ret)
      pc := P.addr .yield 0
      saved := update s.saved t (s.core.ctx ret :: s.saved t) } := by
  obtain ⟨t', hshared, hchain, hmask⟩ := h
  obtain rfl : t' = t := Option.some.inj (hshared.cur.symm.trans hcur)
  have hnil := hchain.nil_of_own hP hown
  have henter := hshared.enter (x := s.core.ctx ret) (fun a ha => hroom t' a hcur ha) fun b hb => by
    obtain ⟨c, hlast, -⟩ := (hshared.kept.fresh t' b hb).last
    simp [hnil] at hlast
  have hself : update s.saved t' (s.core.ctx ret :: s.saved t') t' =
    s.core.ctx ret :: s.saved t' := update_self ..
  have hmem : s.core.ctx ret ∈ update s.saved t' (s.core.ctx ret :: s.saved t') t' := by
    rw [hself]
    exact List.mem_cons_self ..
  refine ⟨t', henter.pushWord (x := s.core.ctx ret) hP.toPlaced hmem rfl _, ?_, hmask⟩
  · change P.Chain _ _ (update s.saved t' (s.core.ctx ret :: s.saved t') t')
    rw [hself, hnil]
    refine ⟨⟨rfl, .inl ⟨0, by omega, rfl, rfl, ?_⟩⟩, hret⟩
    have hwords : Words s.core.mem s.core.sp [] := fun i w hw => by simp at hw
    exact hwords.push (by simp) _

/-! ## New tasks -/

/-- The state with a new task. -/
def made (P : Port T B) (s : Sys T B) (t : T) (b : B) : Sys T B :=
  { s with
    core := { s.core with mem := P.create t b s.core.mem }
    live := update s.live t true
    saved := update s.saved t [P.born t b]
    fresh := update s.fresh t (some b) }

omit [DecidableEq T] in
theorem under_top (hP : P.Placed) {b : B} {a : Address} (ha : Under (P.born t b).sp 136 a) :
    Under (P.top t) 152 a ∧ ¬ Under (P.top t) 16 a := by
  obtain ⟨k, hpos, hk, rfl⟩ := ha
  rw [hP.born_sp, below_below]
  refine ⟨⟨16 + k, by omega, by omega, rfl⟩, ?_⟩
  rintro ⟨j, hj, hj', heq⟩
  have := below_injective (by omega) (by omega) heq
  omega

theorem parked_made (hP : P.Placed) (s : Sys T B) (t : T) (b : B) :
    P.Parked (P.made s t b).core.mem ((P.made s t b).saved t) t := by
  obtain ⟨high, hhigh, hwords⟩ := hP.create_words t b s.core.mem
  refine ⟨P.born t b, [], high, update_self .., ?_, hhigh, ?_, hP.born_pc t b⟩
  · intro i w hw
    have hword := hwords (2 + i) w (by rwa [List.getElem?_append_right (by simp), List.length_cons,
      List.length_singleton, Nat.add_sub_cancel_left])
    rw [hP.born_sp, below_below]
    rw [show 16 + 8 * (i + 1) = 8 * (2 + i + 1) by omega]
    exact hword
  · rw [hP.born_sp, below_below]
    exact hP.create_handle t b s.core.mem

theorem Parked.made (hP : P.Placed) (hkept : P.Kept s) (hu : u ≠ t) (hlive : s.live u = true)
    (h : P.Parked s.core.mem (s.saved u) u) (b : B) :
    P.Parked (P.made s t b).core.mem ((P.made s t b).saved u) u := by
  have hsame : (P.made s t b).saved u = s.saved u := update_of_ne hu ..
  rw [hsame]
  refine h.congr hP (fun a ha => hP.create_apply t b _ a ?_ ?_) fun c hc a ha =>
    hP.create_apply t b _ a ?_ ?_
  · rw [ha]
    exact fun heq => by cases heq
  · rw [ha]
    exact fun heq => hu (Owner.handle.inj heq)
  · rw [hkept.onStack u c a hlive hc ha]
    exact fun heq => hu (Owner.stack.inj heq)
  · rw [hkept.onStack u c a hlive hc ha]
    exact fun heq => by cases heq

theorem Kept.made (hP : P.Placed) (h : P.Kept s) (b : B) : P.Kept (P.made s t b) where
  onStack u c a hlive hc ha := by
    replace hc : c ∈ update s.saved t [P.born t b] u := hc
    replace hlive : update s.live t true u = true := hlive
    rcases eq_or_ne u t with rfl | hu
    · rw [update_self, List.mem_singleton] at hc
      subst hc
      exact hP.top_stack u a (under_top hP ha).1
    · rw [update_of_ne hu] at hc hlive
      exact h.onStack u c a hlive hc ha
  fresh u b' hb := by
    replace hb : update s.fresh t (some b) u = some b' := hb
    rcases eq_or_ne u t with rfl | hu
    · obtain rfl : b = b' := by simpa using hb
      have hself : (P.made s u b).saved u = [P.born u b] := update_self ..
      refine ⟨update_self .., ⟨P.born u b, by rw [hself]; rfl, rfl, rfl, fun _ _ _ => rfl⟩, ?_, ?_⟩
      · obtain ⟨high, -, hwords⟩ := hP.create_words u b s.core.mem
        exact hwords.take 2
      · intro c hc a ha
        rw [hself, List.mem_singleton] at hc
        subst hc
        exact (under_top hP ha).2
    · rw [update_of_ne hu] at hb
      have hold := h.fresh u b' hb
      have hsame : (P.made s t b).saved u = s.saved u := update_of_ne hu ..
      have hmem : ∀ a, Under (P.top u) 16 a → P.create t b s.core.mem a = s.core.mem a := by
        rintro a ⟨k, hpos, hk, rfl⟩
        have howner := hP.top_stack u _ ⟨k, hpos, hk.trans (by decide), rfl⟩
        refine hP.create_apply t b _ _ ?_ ?_
        · rw [howner]
          exact fun heq => hu (Owner.stack.inj heq)
        · rw [howner]
          exact fun heq => by cases heq
      refine ⟨(update_of_ne hu ..).trans hold.live, ?_, hold.words.congr hmem, ?_⟩
      · rw [hsame]
        exact hold.last
      · rw [hsame]
        exact hold.apart

theorem Calm.made (hP : P.Verified) (h : P.Calm s) (hown : P.decode s.pc = none)
    (hnew : s.live t = false) (b : B) : P.Calm (P.made s t b) := by
  obtain ⟨t', hshared, hchain, hmask⟩ := h
  have hne : t' ≠ t := fun heq => by
    rw [← heq, hshared.alive] at hnew
    cases hnew
  have hnil := hchain.nil_of_own hP hown
  have hsame : (P.made s t b).saved t' = s.saved t' := update_of_ne hne ..
  have hkeep : ∀ {a o}, P.owner a = o → o ≠ .stack t → o ≠ .handle t →
      P.create t b s.core.mem a = s.core.mem a := fun ha hstack hhandle =>
    hP.create_apply t b _ _ (ha ▸ hstack) (ha ▸ hhandle)
  refine ⟨t', ⟨hshared.cur, (update_of_ne hne ..).trans hshared.alive,
    hP.current_congr (fun a ha => hkeep ha (by simp) (by simp)) hshared.current,
    (hP.kernelSp_congr fun a ha => hkeep ha (by simp) (by simp)).trans hshared.kernel,
    fun u hu hlive => ?_, hshared.kept.made hP.toPlaced b⟩, ?_, hmask⟩
  · rcases eq_or_ne u t with rfl | hut
    · exact parked_made hP.toPlaced s u b
    · replace hlive : update s.live t true u = true := hlive
      rw [update_of_ne hut] at hlive
      exact (hshared.others u hu hlive).made hP.toPlaced hshared.kept hut hlive b
  · rw [hsame, hnil]
    exact hown

/-! ## Before the first task -/

/-- The program makes tasks and has not started them. -/
structure Main (P : Port T B) (s : Sys T B) : Prop where
  cur : s.cur = none
  own : P.decode s.pc = none
  parked : ∀ u, s.live u = true → P.Parked s.core.mem (s.saved u) u
  new : ∀ u, s.live u = true → ∃ b, s.fresh u = some b ∧ s.saved u = [P.born u b]
  kept : P.Kept s

omit [DecidableEq T] in
theorem main_init {core : Core} {pc : Address} (hpc : P.decode pc = none) : P.Main (init core pc) where
  cur := rfl
  own := hpc
  parked _ hlive := by cases hlive
  new _ hlive := by cases hlive
  kept := ⟨fun _ _ _ hlive => (by cases hlive), fun _ _ hb => (by cases hb)⟩

theorem Main.made (hP : P.Placed) (h : P.Main s) (b : B) : P.Main (P.made s t b) where
  cur := h.cur
  own := h.own
  parked u hlive := by
    rcases eq_or_ne u t with rfl | hu
    · exact parked_made hP s u b
    · replace hlive : update s.live t true u = true := hlive
      rw [update_of_ne hu] at hlive
      exact (h.parked u hlive).made hP h.kept hu hlive b
  new u hlive := by
    rcases eq_or_ne u t with rfl | hu
    · exact ⟨b, update_self .., update_self ..⟩
    · replace hlive : update s.live t true u = true := hlive
      rw [update_of_ne hu] at hlive
      obtain ⟨b', hfresh, hsaved⟩ := h.new u hlive
      exact ⟨b', (update_of_ne hu ..).trans hfresh, (update_of_ne hu ..).trans hsaved⟩
  kept := h.kept.made hP b

theorem New.clobber (c : Ctx) : New c c.clobber where
  sp := rfl
  pc := rfl
  regs r h13 h14 := by
    change update (update c.regs 13 _) 14 _ r = c.regs r
    rw [update_of_ne h14, update_of_ne h13]

theorem Kept.clobber (h : P.Kept s) {b : B} (hfresh : s.fresh t = some b)
    (hsaved : s.saved t = [P.born t b]) :
    P.Kept { s with saved := update s.saved t ((s.saved t).map Ctx.clobber) } := by
  have hself : update s.saved t ((s.saved t).map Ctx.clobber) t = [(P.born t b).clobber] := by
    rw [update_self, hsaved]
    rfl
  refine ⟨fun u c a hlive hc ha => ?_, fun u b' hb => ?_⟩
  · replace hc : c ∈ update s.saved t ((s.saved t).map Ctx.clobber) u := hc
    rcases eq_or_ne u t with rfl | hu
    · rw [hself, List.mem_singleton] at hc
      subst hc
      exact h.onStack u (P.born u b) a hlive (by rw [hsaved]; exact List.mem_cons_self ..) ha
    · rw [update_of_ne hu] at hc
      exact h.onStack u c a hlive hc ha
  · have hold := h.fresh u b' hb
    rcases eq_or_ne u t with rfl | hu
    · obtain rfl : b = b' := Option.some.inj (hfresh.symm.trans hb)
      refine ⟨hold.live, ⟨_, (congrArg List.getLast? hself).trans rfl, New.clobber _⟩, hold.words, ?_⟩
      intro c hc a ha
      replace hc : c ∈ update s.saved u ((s.saved u).map Ctx.clobber) u := hc
      rw [hself, List.mem_singleton] at hc
      subst hc
      exact hold.apart (P.born u b) (by rw [hsaved]; exact List.mem_cons_self ..) a ha
    · exact hold.of_saved rfl rfl (congrArg List.getLast? (update_of_ne hu ..)) fun c hc => by
        replace hc : c ∈ update s.saved t ((s.saved t).map Ctx.clobber) u := hc
        rwa [update_of_ne hu] at hc

theorem Main.start (hP : P.Verified) (h : P.Main s) (hlive : s.live t = true) {core : Core}
    (hmask : core.mask.getLsbD 0 = false)
    (hw : P.Writes (fun o => o = .current ∨ o = .kernelSp ∨ o = .kernelStack ∨ o = .other) s.core.mem
      core.mem) (hcurrent : P.current core.mem t) (hkernel : P.kernelSp core.mem = P.kernelTop) :
    P.Settles { s with
      core
      pc := P.addr .first 0
      cur := some t
      saved := update s.saved t ((s.saved t).map Ctx.clobber) } := by
  have hg : P.Guarded s core.mem := h.kept.guarded_of_owner hP.toPlaced
    (fun a u ha => hw a (by simp [ha])) fun a u ha _ => hw a (by simp [ha])
  obtain ⟨b, hfresh, hsaved⟩ := h.new t hlive
  obtain ⟨c, cs, high, hcons, hwords, hhigh, hhandle, hchain⟩ := (h.parked t hlive).guarded hP.toPlaced hg hlive
  obtain ⟨rfl, rfl⟩ : c = P.born t b ∧ cs = [] := by
    rw [hsaved] at hcons
    exact ⟨(List.cons.inj hcons).1.symm, (List.cons.inj hcons).2.symm⟩
  have hself : update s.saved t ((s.saved t).map Ctx.clobber) t = [(P.born t b).clobber] := by
    rw [update_self, hsaved]
    rfl
  have hkept : P.Kept { s with core, pc := P.addr .first 0, cur := some t } := h.kept.guarded hg _ _
  refine hP.first_settles (c := P.born t b) ⟨rfl, hlive, hcurrent, hkernel, fun u hu hu' => ?_, ?_⟩ hself hwords
    hhigh hhandle hchain hmask rfl
  · have hpark := Parked.guarded hP.toPlaced hg hu' (h.parked u hu')
    rwa [← update_of_ne hu ((s.saved t).map Ctx.clobber) s.saved] at hpark
  · exact hkept.clobber hfresh hsaved

/-! ## Runs -/

omit [DecidableEq T] in
theorem Quiet.decode_ne (h : P.Quiet s) : P.decode s.pc ≠ none := by
  obtain ⟨t, -, -, hfetch, -⟩ := h
  intro hnone
  rw [Program.fetch_of_decode hnone] at hfetch
  cases hfetch

omit [DecidableEq T] in
theorem AtCall.decode_ne (h : P.AtCall s) : P.decode s.pc ≠ none := by
  obtain ⟨t, f, r, i, -, -, -, -, hfetch⟩ := h
  intro hnone
  rw [Program.fetch_of_decode hnone] at hfetch
  cases hfetch

theorem Settles.calm_of_own (h : P.Settles s) (hown : P.decode s.pc = none) : P.Calm s := by
  rcases h.next with (hcalm | hcall) | ⟨hquiet, -⟩
  · exact hcalm
  · exact absurd hown hcall.decode_ne
  · exact absurd hown hquiet.decode_ne

theorem Settles.calm_of_open (h : P.Settles s) (hopen : s.core.Open 0) : P.Calm s := by
  rcases h.next with (hcalm | ⟨t, f, r, i, -, -, -, hclosed, -⟩) | ⟨⟨t, -, hclosed, -⟩, -⟩
  · exact hcalm
  · exact absurd hopen hclosed
  · exact absurd hopen hclosed

theorem Settles.shared (h : P.Settles s) : ∃ t, P.Shared s t := by
  rcases h.next with (⟨t, hshared, -⟩ | ⟨t, _, _, _, hshared, -⟩) | ⟨⟨t, hshared, -⟩, -⟩
  · exact ⟨t, hshared⟩
  · exact ⟨t, hshared⟩
  · exact ⟨t, hshared⟩

theorem Settles.exec (hP : P.Verified) (h : P.Settles s) (hexec : P.exec s = some s') : P.Settles s' := by
  rcases h.next with (hcalm | ⟨t, f, r, i, -, -, -, -, hfetch⟩) | ⟨-, s₁, hs₁, hheads⟩
  · exact hcalm.exec hP hexec
  · rw [Port.exec, hfetch] at hexec
    cases hexec
  · obtain rfl : s₁ = s' := Option.some.inj (hs₁.symm.trans hexec)
    exact hheads

theorem Settles.atCall (hP : P.Verified) (h : P.Settles s) {f : Fn} {r : Routine} {i : ℕ}
    (hfetch : P.fetch s.pc = some (.call f, r, i)) : P.AtCall s := by
  rcases h.next with (⟨t, -, hchain, -⟩ | hcall) | ⟨-, s₁, hs₁, -⟩
  · exact absurd hfetch (Chain.not_call hP hchain)
  · exact hcall
  · rw [Port.exec, hfetch] at hs₁
    cases hs₁

theorem Settles.kernel (hP : P.Verified) (h : P.Settles s) {f : Fn} {r : Routine} {i : ℕ}
    (hfetch : P.fetch s.pc = some (.call f, r, i)) {core : Core} {next : T} (hlive : s.live next = true)
    (hw : ∀ a, P.owner a ≠ .current → P.owner a ≠ .other → ¬ Under s.core.sp P.kernelSize a →
      core.mem a = s.core.mem a) (hcurrent : P.current core.mem next) (hsp : core.sp = s.core.sp)
    (henabled : core.enabled = s.core.enabled) (hmask : core.mask = s.core.mask) :
    P.Settles { s with core, pc := P.addr r (i + 1), cur := some next } := by
  obtain ⟨t, _, _, _, hshared, hparked, htop, hclosed, -⟩ := h.atCall hP hfetch
  -- the C function runs on the kernel's stack, so it is off the stacks of the tasks
  have hkeep : ∀ {a o}, P.owner a = o → o ≠ .current → o ≠ .other → o ≠ .kernelStack →
      core.mem a = s.core.mem a := fun ha hcur hother hstack =>
    hw _ (ha ▸ hcur) (ha ▸ hother) fun hunder =>
      hstack (ha.symm.trans (hP.kernel_stack _ (htop ▸ hunder)))
  have hg : P.Guarded s core.mem := hshared.kept.guarded_of_owner hP.toPlaced
    (fun a u ha => hkeep ha (by simp) (by simp) (by simp))
    fun a u ha _ => hkeep ha (by simp) (by simp) (by simp)
  have hall : ∀ u, s.live u = true → P.Parked core.mem (s.saved u) u := fun u hu => by
    rcases eq_or_ne u t with rfl | hne
    · exact hparked.guarded hP.toPlaced hg hu
    · exact (hshared.others u hne hu).guarded hP.toPlaced hg hu
  have hkernel : P.kernelSp core.mem = P.kernelTop :=
    (hP.kernelSp_congr fun a ha => hkeep ha (by simp) (by simp) (by simp)).trans hshared.kernel
  have hcode : (P.code r)[i]? = some (.call f) := Program.code_of_fetch hfetch
  exact hP.call_settles (t := next) ⟨rfl, hlive, hcurrent, hkernel, fun u _ hu => hall u hu,
    hshared.kept.guarded hg _ _⟩ (hall next hlive) (hsp.trans htop)
    (fun hopen => hclosed ⟨henabled ▸ hopen.1, hmask ▸ hopen.2⟩) hcode rfl

/-- The invariant. -/
def Inv (P : Port T B) (s : Sys T B) : Prop := P.Main s ∨ P.Settles s

theorem Inv.step (hP : P.Verified) (h : P.Inv s) {a : Act T B} (hok : P.Sound s a)
    (hstep : P.step s a = some s') : P.Inv s' := by
  cases a with
  | exec =>
    rcases h with hmain | hsettles
    · rw [Port.step, Port.exec, Program.fetch_of_decode hmain.own] at hstep
      cases hstep
    · exact .inr (hsettles.exec hP hstep)
  | tick =>
    rw [Port.step] at hstep
    split at hstep
    case h_2 => cases hstep
    case h_1 t hcur =>
    split_ifs at hstep with hopen
    cases hstep
    rcases h with hmain | hsettles
    · cases hmain.cur.symm.trans hcur
    · exact .inr ((hsettles.calm_of_open hopen).tick hP hopen hok hcur)
  | own core pc =>
    rw [Port.step] at hstep
    split_ifs at hstep with hown
    cases hstep
    obtain ⟨hpc, hmask, hw⟩ := hok
    rcases h with hmain | hsettles
    · have hsome := hown.1
      rw [hmain.cur] at hsome
      cases hsome
    · obtain ⟨t, hshared, hchain, hmask'⟩ := hsettles.calm_of_own hown.2
      have hnil := Chain.nil_of_own hP hchain hown.2
      refine .inr (.arrived (.inl ⟨t, hshared.own hP.toPlaced hnil (hw t hshared.cur) pc, ?_, hmask ▸ hmask'⟩))
      change P.Chain core.mem _ (s.saved t)
      rw [hnil]
      exact hpc
  | yield ret =>
    rw [Port.step] at hstep
    split at hstep
    case h_2 => cases hstep
    case h_1 t hcur hown =>
    cases hstep
    rcases h with hmain | hsettles
    · cases hmain.cur.symm.trans hcur
    · exact .inr (.arrived (.inl ((hsettles.calm_of_own hown).yield hP hown hok.2 hcur hok.1)))
  | create t b =>
    rw [Port.step] at hstep
    split_ifs at hstep with hnew
    cases hstep
    rcases h with hmain | hsettles
    · exact .inl (hmain.made hP.toPlaced b)
    · have hown : P.decode s.pc = none := by
        rcases hnew.2 with hcur | hown
        · obtain ⟨t', hshared⟩ := hsettles.shared
          cases hcur.symm.trans hshared.cur
        · exact hown
      exact .inr (.arrived (.inl ((hsettles.calm_of_own hown).made hP hown hnew.1 b)))
  | start t core =>
    rw [Port.step] at hstep
    split_ifs at hstep with hstart
    cases hstep
    rcases h with hmain | hsettles
    · exact .inr (hmain.start hP hstart.2 hok.1 hok.2.1 hok.2.2.1 hok.2.2.2)
    · obtain ⟨t', hshared⟩ := hsettles.shared
      cases hstart.1.symm.trans hshared.cur
  | kernel core next =>
    rw [Port.step] at hstep
    split at hstep
    case h_2 => cases hstep
    case h_1 f r i hfetch =>
    cases hstep
    obtain ⟨hlive, hw, hcurrent, hsp, henabled, hmask⟩ := hok
    rcases h with hmain | hsettles
    · cases (Program.fetch_of_decode hmain.own).symm.trans hfetch
    · exact .inr (hsettles.kernel hP hfetch hlive hw hcurrent hsp henabled hmask)

theorem inv_of_reaches (hP : P.Verified) {core : Core} {pc : Address} (hpc : P.decode pc = none)
    (hreach : Reaches P.step P.Sound (init core pc) s) : P.Inv s :=
  hreach.invariant (fun h hok hstep => h.step hP hok hstep) (.inl (main_init hpc))

/-! ## What follows for every run -/

theorem Calm.resumes (hP : P.Verified) (h : P.Calm s) : P.Resumes s := by
  intro r i hiret
  obtain ⟨t, hshared, hchain, -⟩ := h
  cases hsaved : s.saved t with
  | nil =>
    rw [hsaved] at hchain
    cases (Program.fetch_of_decode hchain).symm.trans hiret
  | cons c cs =>
    rw [hsaved] at hchain
    cases cs with
    | cons => exact hchain.elim
    | nil =>
      rcases hchain.1.fetch hP with ⟨p, r, i, hfetch⟩ | ⟨-, hregs, hsp, high, hhigh, hwords⟩
      · cases hiret.symm.trans hfetch
      · obtain ⟨hctx, hopen⟩ := iret_of_words hregs hsp hwords
        exact ⟨t, c, [], hshared.cur, hsaved, hctx, hopen 0 hhigh⟩

theorem Settles.resumes (hP : P.Verified) (h : P.Settles s) : P.Resumes s := by
  rcases h.next with (hcalm | ⟨t, f, r, i, -, -, -, -, hfetch⟩) | ⟨⟨t, -, -, -, hresumes⟩, -⟩
  · exact hcalm.resumes hP
  · exact fun _ _ hiret => by cases hiret.symm.trans hfetch
  · exact hresumes

omit [DecidableEq T] in
theorem Calm.pc (h : P.Calm s) : P.decode s.pc = none ∨ (∃ j ≤ 2, s.pc = P.addr .yield j) ∨
    s.pc = P.addr .first ((P.code .first).length - 1) := by
  obtain ⟨t, -, hchain, -⟩ := h
  cases hsaved : s.saved t with
  | nil =>
    rw [hsaved] at hchain
    exact .inl hchain
  | cons c cs =>
    rw [hsaved] at hchain
    cases cs with
    | cons => exact hchain.elim
    | nil =>
      obtain ⟨-, ⟨j, hj, hpc, -⟩ | ⟨hpc, -⟩⟩ := hchain.1
      · exact .inr (.inl ⟨j, hj, hpc⟩)
      · exact .inr (.inr hpc)

omit [DecidableEq T] in
theorem Kept.starts (h : P.Kept s) {b : B} (hsaved : s.saved t = [c]) (hfresh : s.fresh t = some b) :
    New (P.born t b) c ∧ Words s.core.mem (P.top t) [0, P.returnPoint] := by
  have hold := h.fresh t b hfresh
  obtain ⟨d, hlast, hnew⟩ := hold.last
  obtain rfl : c = d := by
    rw [hsaved] at hlast
    exact Option.some.inj hlast
  exact ⟨hnew, hold.words⟩

omit [DecidableEq T] in
theorem Parked.frame (hkept : P.Kept s) (hlive : s.live u = true)
    (h : P.Parked s.core.mem (s.saved u) u) : ∃ c cs high, s.saved u = c :: cs ∧
      Words s.core.mem c.sp (frame c high) ∧ P.handle s.core.mem u = below c.sp 136 ∧
      ∀ a, Under c.sp 136 a → P.owner a = .stack u := by
  obtain ⟨c, cs, high, hsaved, hwords, -, hhandle, -⟩ := h
  exact ⟨c, cs, high, hsaved, hwords, hhandle, fun a ha =>
    hkept.onStack u c a hlive (by rw [hsaved]; exact List.mem_cons_self ..) ha⟩

theorem Inv.transparent (hP : P.Verified) (h : P.Inv s) : P.Transparent s := by
  rcases h with hmain | hsettles
  · have hnone := Program.fetch_of_decode hmain.own
    exact
      { frames := fun u hlive _ => (hmain.parked u hlive).frame hmain.kept hlive
        resumes := fun _ _ hiret => by cases hnone.symm.trans hiret
        starts := fun _ _ _ _ _ hiret => by cases hnone.symm.trans hiret
        timer := fun hsome => by
          rw [hmain.cur] at hsome
          cases hsome
        alone := fun _ hcur => by cases hmain.cur.symm.trans hcur
        scheduler := fun _ _ _ hcall => by cases hnone.symm.trans hcall }
  · obtain ⟨t, hshared⟩ := hsettles.shared
    exact
      { frames := fun u hlive hu => by
          have hne : u ≠ t := fun heq => hu (heq ▸ hshared.cur)
          exact (hshared.others u hne hlive).frame hshared.kept hlive
        resumes := hsettles.resumes hP
        starts := fun _ _ _ _ _ _ _ hsaved hfresh => hshared.kept.starts hsaved hfresh
        timer := fun _ hown => by
          obtain ⟨_, -, -, hmask⟩ := hsettles.calm_of_own hown
          exact hmask
        alone := fun _ _ hopen => (hsettles.calm_of_open hopen).pc
        scheduler := fun _ _ _ hcall => by
          obtain ⟨_, _, _, _, -, -, htop, hclosed, -⟩ := hsettles.atCall hP hcall
          exact ⟨htop, hclosed⟩ }

/-- **In every run, switches are transparent.** -/
theorem transparent_of_reaches (hP : P.Verified) {core : Core} {pc : Address} (hpc : P.decode pc = none)
    (hreach : Reaches P.step P.Sound (init core pc) s) : P.Transparent s :=
  (inv_of_reaches hP hpc hreach).transparent hP

/-- One instruction after the other… -/
def execs (P : Port T B) : ℕ → Sys T B → Option (Sys T B)
  | 0, s => some s
  | n + 1, s => (P.exec s).bind (P.execs n)

theorem reaches_execs {n : ℕ} (h : P.execs n s = some s') : Reaches P.step P.Sound s s' := by
  induction n generalizing s with
  | zero =>
    cases h
    exact Reaches.refl
  | succ n ih =>
    obtain ⟨s₁, hexec, hrest⟩ := Option.bind_eq_some_iff.mp h
    exact (Reaches.refl.snoc (a := .exec) trivial hexec).trans (ih hrest)

omit [DecidableEq T] in
/-- …where the running task is near the end of its stack… -/
theorem room_of_top {n k : ℕ} (hstack : ∀ a, Under (P.top t) n a → P.owner a = .stack t)
    (hcur : s.cur = some t) (hsp : s.core.sp = below (P.top t) k) (hk : k + 136 ≤ n) : P.Room s := by
  rintro t' _ hcur' ⟨i, hpos, hi, rfl⟩
  obtain rfl : t = t' := Option.some.inj (hcur.symm.trans hcur')
  rw [hsp, below_below]
  exact hstack _ ⟨k + i, by omega, by omega, rfl⟩

/-- …the timer… -/
theorem reaches_tick (hcur : s.cur = some t) (hopen : s.core.Open 0) (hroom : P.Room s) :
    Reaches P.step P.Sound s { s with
      core := s.core.interrupt 0 s.pc
      pc := P.addr .tick 0
      saved := update s.saved t (s.core.ctx s.pc :: s.saved t) } := by
  refine Reaches.refl.snoc (a := .tick) hroom ?_
  simp only [step, hcur]
  exact if_pos hopen

/-- …a yield… -/
theorem reaches_yield (hcur : s.cur = some t) (hown : P.decode s.pc = none) (hroom : P.Room s)
    {ret : Address} (hret : P.decode ret = none) : Reaches P.step P.Sound s { s with
      core := s.core.pushWord (0#32 ++ ret)
      pc := P.addr .yield 0
      saved := update s.saved t (s.core.ctx ret :: s.saved t) } := by
  refine Reaches.refl.snoc (a := .yield ret) ⟨hret, hroom⟩ ?_
  simp only [step, hcur, hown]

/-- …and a call that writes no more than the variable of the running task. -/
theorem reaches_kernel {f : Fn} {r : Routine} {i : ℕ} (hfetch : P.fetch s.pc = some (.call f, r, i))
    {next : T} (hlive : s.live next = true) (hm : ∀ a, P.owner a ≠ .current → m a = s.core.mem a)
    (hcurrent : P.current m next) : Reaches P.step P.Sound s { s with
      core := { s.core with mem := m }, pc := P.addr r (i + 1), cur := some next } := by
  refine Reaches.refl.snoc (a := .kernel { s.core with mem := m } next)
    ⟨hlive, fun a ha _ _ => hm a ha, hcurrent, rfl, rfl, rfl⟩ ?_
  simp only [step, hfetch]

end Port

/-! ## A place for two tasks -/

namespace Pair

def addr : Routine → ℕ → Address
  | .tick, i => BitVec.ofNat 32 (0x100 + 4 * i)
  | .yield, i => BitVec.ofNat 32 (0x200 + 4 * i)
  | .first, i => BitVec.ofNat 32 (0x300 + 4 * i)

def decode (a : Address) : Option (Routine × ℕ) :=
  match a.toNat / 0x100 with
  | 1 => some (.tick, a.toNat % 0x100 / 4)
  | 2 => some (.yield, a.toNat % 0x100 / 4)
  | 3 => some (.first, a.toNat % 0x100 / 4)
  | _ => none

theorem decode_addr (r : Routine) (i : ℕ) (hi : i < 64) : decode (addr r i) = some (r, i) := by
  revert i
  cases r with
  | tick => decide
  | yield => decide
  | first => decide

/-- Variables of eight bytes each, and three stacks. -/
def owner (a : Address) : Owner Bool :=
  if a.toNat < 0x1000 then .other
  else if a.toNat < 0x1008 then .current
  else if a.toNat < 0x1010 then .kernelSp
  else if a.toNat < 0x1018 then .handle false
  else if a.toNat < 0x1020 then .handle true
  else if a.toNat < 0x10000 then .other
  else if a.toNat < 0x14000 then .stack false
  else if a.toNat < 0x18000 then .stack true
  else if a.toNat < 0x19000 then .kernelStack
  else .other

def tcb (t : Bool) : Address := if t then 0x1018 else 0x1010

def top (t : Bool) : Address := if t then 0x18000 else 0x14000

theorem owner_stack (t : Bool) (a : Address) (h : Under (top t) 0x4000 a) : owner a = .stack t := by
  cases t with
  | false =>
    obtain ⟨hle, hlt⟩ := h.toNat (by decide)
    replace hlt : a.toNat < 0x14000 := hlt
    replace hle : 0x10000 ≤ a.toNat := hle
    simp only [owner, hlt, if_true]
    repeat rw [if_neg (by omega)]
  | true =>
    obtain ⟨hle, hlt⟩ := h.toNat (by decide)
    replace hlt : a.toNat < 0x18000 := hlt
    replace hle : 0x14000 ≤ a.toNat := hle
    simp only [owner, hlt, if_true]
    repeat rw [if_neg (by omega)]

theorem owner_kernelSp : owner 0x1008 = .kernelSp := rfl

theorem owner_kernelStack (a : Address) (h : Under 0x19000 0x1000 a) : owner a = .kernelStack := by
  obtain ⟨hle, hlt⟩ := h.toNat (by decide)
  replace hlt : a.toNat < 0x19000 := hlt
  replace hle : 0x18000 ≤ a.toNat := hle
  simp only [owner, hlt, if_true]
  repeat rw [if_neg (by omega)]

/-- The core before anything has run: interrupts enabled, and every source masked. -/
def boot : Core := ⟨fun _ => 0, 0x20000, 0, true, 0, fun _ => 0⟩

end Pair

end KlaussRuntime.Cpu
