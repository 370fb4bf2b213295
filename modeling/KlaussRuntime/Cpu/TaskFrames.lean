import KlaussRuntime.Cpu.TaskSwitch

/-!
# Cpu/TaskFrames — why the switches are transparent

A task that does not run is `Parked`: its frame is complete, and the contexts under it are as they were when the
interrupt came — in the task's own code, or in the first instructions of a yield, or before the `IRET` that
starts the first task.  That is a **chain** of contexts, each with what it has pushed so far above the next.

The running task is `Calm`, with such a chain of its own, or the kernel's code is on the way (`Heads`) to a call of
the scheduler, where all tasks are parked, or to the next calm state; on the way nothing interrupts it.
-/

namespace KlaussRuntime.Cpu

open Machinery Function

variable {T B : Type*}

namespace Port

variable (P : Port T B)

/-- The context `x` has been interrupted where it was saving or restoring `c`. -/
def Above (m : Cells) (x c : Ctx) : Prop := x.regs = c.regs ∧
  ((∃ j ≤ 2, x.pc = P.addr .yield j ∧ x.sp = below c.sp (8 * (j + 1)) ∧
      Words m c.sp ((frame c 0).take (j + 1))) ∨
    (x.pc = P.addr .first ((P.code .first).length - 1) ∧ x.sp = below c.sp 8 ∧
      ∃ high, Resumable 0 high ∧ Words m c.sp [high ++ c.pc]))

/-- `x` and the contexts it is to return to, the outermost in the task's own code. -/
def Chain (m : Cells) (x : Ctx) : List Ctx → Prop
  | [] => P.decode x.pc = none
  | [c] => P.Above m x c ∧ P.decode c.pc = none
  | _ :: _ :: _ => False

/-- A task that can be resumed. -/
def Parked (m : Cells) (saved : List Ctx) (t : T) : Prop :=
  ∃ c cs high, saved = c :: cs ∧ Words m c.sp (frame c high) ∧ Resumable 0 high ∧
    P.handle m t = below c.sp 136 ∧ P.Chain m c cs

/-- A new task: its outermost context is the one it was made with. -/
structure Fresh (s : Sys T B) (u : T) (b : B) : Prop where
  live : s.live u = true
  last : ∃ c, (s.saved u).getLast? = some c ∧ New (P.born u b) c
  words : Words s.core.mem (P.top u) [0, P.returnPoint]
  apart : ∀ c ∈ s.saved u, ∀ a, Under c.sp 136 a → ¬ Under (P.top u) 16 a

/-- What holds of all tasks at any time. -/
structure Kept (s : Sys T B) : Prop where
  onStack : ∀ u c a, s.live u = true → c ∈ s.saved u → Under c.sp 136 a → P.owner a = .stack u
  fresh : ∀ u b, s.fresh u = some b → P.Fresh s u b

/-- What holds whenever `t` is the running task. -/
structure Shared (s : Sys T B) (t : T) : Prop where
  cur : s.cur = some t
  alive : s.live t = true
  current : P.current s.core.mem t
  kernel : P.kernelSp s.core.mem = P.kernelTop
  others : ∀ u ≠ t, s.live u = true → P.Parked s.core.mem (s.saved u) u
  kept : P.Kept s

/-- The running task is in its own code, or where it can be interrupted in the kernel's. -/
def Calm (s : Sys T B) : Prop :=
  ∃ t, P.Shared s t ∧ P.Chain s.core.mem (s.core.ctx s.pc) (s.saved t) ∧
    s.core.mask.getLsbD 0 = true

/-- The kernel's code calls the scheduler. -/
def AtCall (s : Sys T B) : Prop :=
  ∃ t f r i, P.Shared s t ∧ P.Parked s.core.mem (s.saved t) t ∧ s.core.sp = P.kernelTop ∧
    ¬ s.core.Open 0 ∧ P.fetch s.pc = some (.call f, r, i)

/-- The kernel's code between an entry and a call or return. -/
def Quiet (s : Sys T B) : Prop :=
  ∃ t, P.Shared s t ∧ ¬ s.core.Open 0 ∧ (P.fetch s.pc).isSome ∧ P.Resumes s

/-- On the way to a call or a return. -/
def Settles [DecidableEq T] (s : Sys T B) : Prop :=
  Heads P.exec P.Quiet (fun s => P.Calm s ∨ P.AtCall s) s

/-- The kernel's code is saving `c` for the running task, and has pushed `j` registers. -/
structure Saving (s : Sys T B) (t : T) (c : Ctx) (cs : List Ctx) (high : BitVec 32) (j : ℕ) : Prop where
  shared : P.Shared s t
  saved : s.saved t = c :: cs
  chain : P.Chain s.core.mem c cs
  pushing : Pushing c high j s.core
  closed : ¬ s.core.Open 0

/-- Where a port's variables and stacks lie, and what a new task is. -/
structure Placed (P : Port T B) : Prop where
  handle_congr : ∀ {m m' : Cells} {t : T}, (∀ a, P.owner a = .handle t → m' a = m a) →
    P.handle m' t = P.handle m t
  current_congr : ∀ {m m' : Cells} {t : T}, (∀ a, P.owner a = .current → m' a = m a) →
    P.current m t → P.current m' t
  kernelSp_congr : ∀ {m m' : Cells}, (∀ a, P.owner a = .kernelSp → m' a = m a) →
    P.kernelSp m' = P.kernelSp m
  kernel_stack : ∀ a, Under P.kernelTop P.kernelSize a → P.owner a = .kernelStack
  top_stack : ∀ t a, Under (P.top t) 152 a → P.owner a = .stack t
  born_sp : ∀ t b, (P.born t b).sp = below (P.top t) 16
  born_pc : ∀ t b, P.decode (P.born t b).pc = none
  create_words : ∀ t b m, ∃ high, Resumable 0 high ∧
    Words (P.create t b m) (P.top t) ([0, P.returnPoint] ++ frame (P.born t b) high)
  create_handle : ∀ t b m, P.handle (P.create t b m) t = below (P.top t) 152
  create_apply : ∀ t b m a, P.owner a ≠ .stack t → P.owner a ≠ .handle t → P.create t b m a = m a

/-- **What is to be shown of a port**: beside its layout, that its code settles from every entry. -/
structure Verified [DecidableEq T] (P : Port T B) : Prop extends P.Placed where
  yield_code : ∃ rest, P.code .yield = .plain (.push 0) :: .plain (.push 1) :: .plain (.di 0) :: rest
  first_code : ∃ init, P.code .first = init ++ [.iret]
  tick_settles : ∀ {s t c cs high}, P.Saving s t c cs high 0 → Resumable 0 high → s.pc = P.addr .tick 0 →
    P.Settles s
  yield_settles : ∀ {s t c cs}, P.Saving s t c cs 0 2 → s.pc = P.addr .yield 3 → P.Settles s
  call_settles : ∀ {s : Sys T B} {t f r i}, P.Shared s t → P.Parked s.core.mem (s.saved t) t →
    s.core.sp = P.kernelTop → ¬ s.core.Open 0 → (P.code r)[i]? = some (.call f) →
    s.pc = P.addr r (i + 1) → P.Settles s
  first_settles : ∀ {s : Sys T B} {t c high}, P.Shared s t → s.saved t = [c.clobber] →
    Words s.core.mem c.sp (frame c high) → Resumable 0 high → P.handle s.core.mem t = below c.sp 136 →
    P.decode c.pc = none → s.core.mask.getLsbD 0 = false → s.pc = P.addr .first 0 → P.Settles s

variable {P} {s : Sys T B} {t u : T} {m m' : Cells} {x c : Ctx} {cs : List Ctx} {high : BitVec 32}

/-! ## What keeps a chain -/

theorem Above.congr (h : P.Above m x c) (hm : ∀ a, Under c.sp 136 a → m' a = m a) : P.Above m' x c := by
  have hunder : ∀ {n : ℕ} {a : Address}, n ≤ 136 → Under c.sp n a → m' a = m a :=
    fun hn ⟨k, hpos, hk, ha⟩ => hm _ ⟨k, hpos, hk.trans hn, ha⟩
  obtain ⟨hregs, ⟨j, hj, hpc, hsp, hwords⟩ | ⟨hpc, hsp, high, hhigh, hwords⟩⟩ := h
  · refine ⟨hregs, .inl ⟨j, hj, hpc, hsp, hwords.congr fun a ha => hunder ?_ ha⟩⟩
    rw [List.length_take]
    omega
  · exact ⟨hregs, .inr ⟨hpc, hsp, high, hhigh, hwords.congr fun a ha => hunder (by simp) ha⟩⟩

theorem Chain.congr (h : P.Chain m x cs) (hm : ∀ c ∈ cs, ∀ a, Under c.sp 136 a → m' a = m a) :
    P.Chain m' x cs :=
  match cs, h with
  | [], h => h
  | [c], h => ⟨h.1.congr (hm c (List.mem_cons_self ..)), h.2⟩

theorem Above.sp (h : P.Above m x c) : ∃ k ≤ 24, x.sp = below c.sp k := by
  obtain ⟨-, ⟨j, hj, -, hsp, -⟩ | ⟨-, hsp, -⟩⟩ := h
  · exact ⟨8 * (j + 1), by omega, hsp⟩
  · exact ⟨8, by omega, hsp⟩

/-- **What is saved above leaves the contexts under it alone.** -/
theorem Above.save (h : P.Above m x c) (hm : ∀ a, ¬ Under x.sp 136 a → m' a = m a) : P.Above m' x c := by
  have hkeep : ∀ {n : ℕ} {a : Address}, n ≤ 24 → x.sp = below c.sp n → Under c.sp n a → m' a = m a := by
    rintro n a hn hsp ⟨k, hpos, hk, rfl⟩
    refine hm _ ?_
    rintro ⟨i, hi, hi', heq⟩
    rw [hsp, below_below] at heq
    have := below_injective (by omega) (by omega) heq
    omega
  obtain ⟨hregs, ⟨j, hj, hpc, hsp, hwords⟩ | ⟨hpc, hsp, high, hhigh, hwords⟩⟩ := h
  · refine ⟨hregs, .inl ⟨j, hj, hpc, hsp, hwords.congr fun a ha => hkeep (by omega) hsp ?_⟩⟩
    rwa [List.length_take, length_frame, Nat.min_eq_left (by omega)] at ha
  · exact ⟨hregs, .inr ⟨hpc, hsp, high, hhigh, hwords.congr fun a ha => hkeep (by omega) hsp ha⟩⟩

theorem Chain.save (h : P.Chain m x cs) (hm : ∀ a, ¬ Under x.sp 136 a → m' a = m a) : P.Chain m' x cs :=
  match cs, h with
  | [], h => h
  | [_], h => ⟨h.1.save hm, h.2⟩

/-- **A parked task stays parked** where nobody touches its frames or its stack pointer. -/
theorem Parked.congr (hP : P.Placed) {saved : List Ctx} (h : P.Parked m saved u)
    (hhandle : ∀ a, P.owner a = .handle u → m' a = m a)
    (hm : ∀ c ∈ saved, ∀ a, Under c.sp 136 a → m' a = m a) : P.Parked m' saved u := by
  obtain ⟨c, cs, high, rfl, hwords, hhigh, hptr, hchain⟩ := h
  refine ⟨c, cs, high, rfl, hwords.congr fun a ha => hm c (List.mem_cons_self ..) a ?_, hhigh, ?_,
    hchain.congr fun c' hc' => hm c' (List.mem_cons_of_mem _ hc')⟩
  · rwa [length_frame] at ha
  · rw [hP.handle_congr hhandle, hptr]

/-! ## What the running task's own saves and restores keep -/

/-- What the running task's saves may change. -/
def Mine (P : Port T B) (s : Sys T B) (t : T) (a : Address) : Prop :=
  P.owner a = .handle t ∨
    (P.owner a = .stack t ∧ ((s.fresh t).isSome → ¬ Under (P.top t) 16 a))

theorem Fresh.congr {b : B} (h : P.Fresh s u b) (core : Core) (pc : Address)
    (hm : ∀ a, Under (P.top u) 16 a → core.mem a = s.core.mem a) :
    P.Fresh { s with core, pc } u b :=
  ⟨h.live, h.last, h.words.congr hm, h.apart⟩

theorem Fresh.of_saved {s' : Sys T B} {b : B} (h : P.Fresh s u b) (hmem : s'.core.mem = s.core.mem)
    (hlive : s'.live u = s.live u) (hlast : (s'.saved u).getLast? = (s.saved u).getLast?)
    (hsub : ∀ c ∈ s'.saved u, c ∈ s.saved u) : P.Fresh s' u b where
  live := hlive.trans h.live
  last := by
    rw [hlast]
    exact h.last
  words := by
    rw [hmem]
    exact h.words
  apart c hc := h.apart c (hsub c hc)

/-- **A save leaves everything but the running task's own alone.** -/
theorem Shared.save (hP : P.Placed) (h : P.Shared s t) {core : Core}
    (hm : ∀ a, ¬ P.Mine s t a → core.mem a = s.core.mem a) (pc : Address) :
    P.Shared { s with core, pc } t where
  cur := h.cur
  alive := h.alive
  current := hP.current_congr (fun a ha => hm a fun hmine => by
    rcases hmine with hmine | hmine
    · cases ha.symm.trans hmine
    · cases ha.symm.trans hmine.1) h.current
  kernel := (hP.kernelSp_congr fun a ha => hm a fun hmine => by
    rcases hmine with hmine | hmine
    · cases ha.symm.trans hmine
    · cases ha.symm.trans hmine.1).trans h.kernel
  others u hu hlive := by
    refine (h.others u hu hlive).congr hP (fun a ha => hm a fun hmine => ?_)
      fun c hc a ha => hm a fun hmine => ?_
    · rcases hmine with hmine | hmine
      · exact hu (Owner.handle.inj (ha.symm.trans hmine))
      · cases ha.symm.trans hmine.1
    · have howner := h.kept.onStack u c a hlive hc ha
      rcases hmine with hmine | hmine
      · cases howner.symm.trans hmine
      · exact hu (Owner.stack.inj (howner.symm.trans hmine.1))
  kept := by
    refine ⟨h.kept.onStack, fun u b hb => ?_⟩
    refine (h.kept.fresh u b hb).congr core pc fun a ha => hm a fun hmine => ?_
    have howner : P.owner a = .stack u := by
      obtain ⟨k, hpos, hk, rfl⟩ := ha
      exact hP.top_stack u _ ⟨k, hpos, hk.trans (by decide), rfl⟩
    rcases hmine with hmine | hmine
    · cases howner.symm.trans hmine
    · obtain rfl : u = t := Owner.stack.inj (howner.symm.trans hmine.1)
      exact hmine.2 (by rw [hb]; rfl) ha

theorem Shared.mine_of_under (h : P.Shared s t) (hc : c ∈ s.saved t) {a : Address}
    (ha : Under c.sp 136 a) : P.Mine s t a := by
  refine .inr ⟨h.kept.onStack t c a h.alive hc ha, fun hfresh => ?_⟩
  obtain ⟨b, hb⟩ := Option.isSome_iff_exists.mp hfresh
  exact (h.kept.fresh t b hb).apart c hc a ha

/-! ## The kernel's code, segment by segment -/

variable [DecidableEq T]

theorem exec_of_plain {r : Routine} {i : ℕ} {ins : Plain} (h : P.fetch s.pc = some (.plain ins, r, i)) :
    P.exec s = some { s with core := s.core.exec ins, pc := P.addr r (i + 1) } := by
  rw [exec, h]

theorem exec_of_iret {r : Routine} {i : ℕ} (h : P.fetch s.pc = some (.iret, r, i))
    (hcur : s.cur = some t) : P.exec s = some (s.iret t) := by
  simp only [exec, h, hcur, Option.map_some]

omit [DecidableEq T] in
theorem Shared.quiet (h : P.Shared s t) (hclosed : ¬ s.core.Open 0) {ins : Instr Fn} {r : Routine} {i : ℕ}
    (hfetch : P.fetch s.pc = some (ins, r, i)) (hins : ins ≠ .iret) : P.Quiet s := by
  refine ⟨t, h, hclosed, by rw [hfetch]; rfl, fun r' i' hiret => ?_⟩
  rw [hfetch] at hiret
  exact absurd (congrArg (·.1) (Option.some.inj hiret)) hins

/-- **A straight piece of the kernel's code.** -/
theorem Settles.plain {r : Routine} {i : ℕ} {is : List Plain} {rest : List (Instr Fn)}
    (hpc : s.pc = P.addr r i) (hcode : (P.code r).drop i = block is ++ rest) {I J : Core → Prop}
    (hsafe : Safely Core.exec I J is s.core)
    (hquiet : ∀ core pc, I core → P.Shared { s with core, pc } t ∧ ¬ core.Open 0)
    (hend : ∀ core, J core → P.Settles { s with core, pc := P.addr r (i + is.length) }) :
    P.Settles s := by
  let put (core : Core) (pc : Address) : Sys T B := { s with core, pc }
  have hexec : ∀ core pc ins r i, P.fetch pc = some (.plain ins, r, i) →
      P.exec (put core pc) = some (put (core.exec ins) (P.addr r (i + 1))) :=
    fun core pc ins r i hfetch => exec_of_plain (s := put core pc) hfetch
  have hs : Heads P.exec P.Quiet (fun s => P.Calm s ∨ P.AtCall s) (put s.core (P.addr r i)) := by
    refine Program.heads put hexec hcode hsafe (fun core pc ins r i hfetch hcore => ?_) hend
    obtain ⟨hshared, hclosed⟩ := hquiet core pc hcore
    exact hshared.quiet hclosed hfetch (by simp)
  rwa [← hpc] at hs

omit [DecidableEq T] in
theorem not_open_of_since {core : Core} {region : Address → Prop} (hclosed : ¬ s.core.Open 0)
    (hsince : Since s.core region core) : ¬ core.Open 0 :=
  fun hopen => hclosed ⟨hsince.enabled ▸ hopen.1, hsince.mask ▸ hopen.2⟩

/-- **The registers are saved.** -/
theorem Saving.pushes (hP : P.Placed) {j : ℕ} (hj : j ≤ 16) (h : P.Saving s t c cs high j) {r : Routine}
    {i : ℕ} {rest : List (Instr Fn)} (hpc : s.pc = P.addr r i)
    (hcode : (P.code r).drop i = block (pushes j) ++ rest)
    (hend : ∀ s', P.Saving s' t c cs high 16 → s'.pc = P.addr r (i + (16 - j)) → P.Settles s') :
    P.Settles s := by
  have hc : c ∈ s.saved t := by
    rw [h.saved]
    exact List.mem_cons_self ..
  have hsave : ∀ core pc, Since s.core (Under c.sp 136) core →
      P.Shared { s with core, pc } t ∧ ¬ core.Open 0 := fun core pc hsince =>
    ⟨h.shared.save hP (fun a ha => hsince.mem a fun hunder => ha (h.shared.mine_of_under hc hunder)) pc,
      not_open_of_since h.closed hsince⟩
  refine Settles.plain hpc hcode (h.pushing.pushes hj (P := Since s.core (Under c.sp 136)) (fun _ hy => hy)
    (Q := fun y => Pushing c high 16 y ∧ Since s.core (Under c.sp 136) y) fun y hy hsince => ⟨hy, hsince⟩)
    hsave fun core ⟨hpush, hsince⟩ => ?_
  obtain ⟨hshared, hclosed⟩ := hsave core (P.addr r (i + (Cpu.pushes j).length)) hsince
  refine hend _ ⟨hshared, h.saved, h.chain.save hsince.mem, hpush, hclosed⟩ ?_
  have hlen : (Cpu.pushes j).length = 16 - j := by
    rw [Cpu.pushes, List.length_map, List.length_drop, List.length_finRange]
  rw [hlen]

omit [DecidableEq T] in
theorem Shared.quiet_since (hP : P.Placed) (h : P.Shared s t) (hclosed : ¬ s.core.Open 0) (core : Core)
    (pc : Address) (hsince : Since s.core (fun _ => False) core) :
    P.Shared { s with core, pc } t ∧ ¬ core.Open 0 :=
  ⟨h.save hP (fun a _ => hsince.mem a id) pc, not_open_of_since hclosed hsince⟩

theorem Settles.jmpe (h : P.Shared s t) (hclosed : ¬ s.core.Open 0) {r : Routine} {i target : ℕ}
    (hpc : s.pc = P.addr r i) (hcode : (P.code r)[i]? = some (.jmpe target))
    (hend : P.Settles { s with pc := P.addr r (if s.core.equal then target else i + 1) }) :
    P.Settles s := by
  have hfetch : P.fetch s.pc = some (.jmpe target, r, i) := hpc ▸ Program.fetch_addr hcode
  refine .move (h.quiet hclosed hfetch (by simp)) ?_ hend
  rw [exec, hfetch]

theorem Kept.iret (h : P.Kept s) (hsaved : s.saved t = c :: cs) : P.Kept (s.iret t) where
  onStack u c' a hlive hc' ha := by
    refine h.onStack u c' a hlive ?_ ha
    replace hc' : c' ∈ update s.saved t (s.saved t).tail u := hc'
    rcases eq_or_ne u t with rfl | hu
    · rw [update_self] at hc'
      exact List.mem_of_mem_tail hc'
    · rwa [update_of_ne hu] at hc'
  fresh u b hb := by
    replace hb : update s.fresh t (if (s.saved t).tail.isEmpty then none else s.fresh t) u =
      some b := hb
    rcases eq_or_ne u t with rfl | hu
    · rw [update_self, hsaved, List.tail_cons] at hb
      cases cs with
      | nil => simp at hb
      | cons d ds =>
        have hsub : (s.iret u).saved u = d :: ds := by
          change update s.saved u (s.saved u).tail u = _
          rw [update_self, hsaved, List.tail_cons]
        refine (h.fresh u b hb).of_saved rfl rfl ?_ fun c' hc' => ?_
        · rw [hsub, hsaved, List.getLast?_cons_cons]
        · rw [hsaved]
          exact List.mem_cons_of_mem _ (hsub ▸ hc')
    · rw [update_of_ne hu] at hb
      have hsame : (s.iret t).saved u = s.saved u := update_of_ne hu ..
      exact (h.fresh u b hb).of_saved rfl rfl (by rw [hsame]) fun c' hc' => hsame ▸ hc'

theorem Shared.iret (h : P.Shared s t) (hsaved : s.saved t = c :: cs) : P.Shared (s.iret t) t where
  cur := h.cur
  alive := h.alive
  current := h.current
  kernel := h.kernel
  others u hu hlive := by
    have hpark := h.others u hu hlive
    rwa [← update_of_ne hu (s.saved t).tail s.saved] at hpark
  kept := h.kept.iret hsaved

/-- **An `IRET`** to the innermost context. -/
theorem Shared.calm_iret (h : P.Shared s t) (hsaved : s.saved t = c :: cs)
    (hchain : P.Chain s.core.mem c cs) (hctx : s.core.iret.ctx (s.core.mem s.core.sp) = c)
    (hopen : s.core.iret.Open 0) : P.Calm (s.iret t) := by
  refine ⟨t, h.iret hsaved, ?_, hopen.2⟩
  have hcs : update s.saved t (s.saved t).tail t = cs := by
    rw [update_self, hsaved, List.tail_cons]
  change P.Chain s.core.mem (s.core.iret.ctx (s.core.mem s.core.sp))
    (update s.saved t (s.saved t).tail t)
  rw [hcs, hctx]
  exact hchain

/-- **The restore**: the registers are popped and the running task is back. -/
theorem Shared.restore (hP : P.Placed) (h : P.Shared s t) (hsaved : s.saved t = c :: cs)
    (hchain : P.Chain s.core.mem c cs) (hpopping : Popping c high 16 s.core) (hhigh : Resumable 0 high)
    (hclosed : ¬ s.core.Open 0) {r : Routine} {i : ℕ} (hpc : s.pc = P.addr r i)
    (hcode : (P.code r).drop i = block pops ++ [.iret]) : P.Settles s := by
  have hquiet := h.quiet_since hP hclosed
  refine Settles.plain hpc hcode (hpopping.pops (P := Since s.core fun _ => False) (fun _ hy => hy)
    (Q := fun y => Popping c high 0 y ∧ Since s.core (fun _ => False) y) fun y hy hsince => ⟨hy, hsince⟩)
    hquiet fun core ⟨hpop, hsince⟩ => ?_
  have hmem : core.mem = s.core.mem := funext fun a => hsince.mem a id
  obtain ⟨hshared, hclosed'⟩ := hquiet core (P.addr r (i + pops.length)) hsince
  have hget : (P.code r)[i + pops.length]? = some .iret := by
    rw [← List.getElem?_drop, hcode]
    simp [pops]
  have hregs : core.regs = c.regs := funext fun r => hpop.regs r (Nat.zero_le _)
  obtain ⟨hctx, hopen⟩ := iret_of_words hregs hpop.sp (hpop.words.take 1)
  refine .move ⟨t, hshared, hclosed', by rw [Program.fetch_addr hget]; rfl,
    fun _ _ _ => ⟨t, c, cs, hshared.cur, hsaved, hctx, hopen 0 hhigh⟩⟩
    (exec_of_iret (Program.fetch_addr hget) hshared.cur)
    (.arrived (.inl (hshared.calm_iret hsaved ?_ hctx (hopen 0 hhigh))))
  change P.Chain core.mem c cs
  rwa [hmem]

omit [DecidableEq T] in
theorem Saving.quiet (hP : P.Placed) (h : P.Saving s t c cs high 16) {core : Core} {pc : Address}
    (hsince : Since s.core (fun _ => False) core) (hsp : core.sp = s.core.sp) :
    P.Saving { s with core, pc } t c cs high 16 := by
  obtain ⟨hshared, hclosed⟩ := h.shared.quiet_since hP h.closed core pc hsince
  have hmem : core.mem = s.core.mem := funext fun a => hsince.mem a id
  refine ⟨hshared, h.saved, hmem ▸ h.chain, ⟨hsp.trans h.pushing.sp, hmem ▸ h.pushing.words, ?_⟩, hclosed⟩
  exact fun r hr => absurd r.isLt (by omega)

/-- The address of the frame goes to `R0`… -/
theorem Saving.getsp (hP : P.Placed) (h : P.Saving s t c cs high 16) {r : Routine} {i : ℕ}
    {rest : List (Instr Fn)} (hpc : s.pc = P.addr r i) (hcode : (P.code r).drop i = block [.getsp 0] ++ rest)
    (hend : ∀ s', P.Saving s' t c cs high 16 → s'.core.regs 0 = (below c.sp 136).setWidth 64 →
      s'.pc = P.addr r (i + 1) → P.Settles s') : P.Settles s := by
  have hsafe : Safely Core.exec (Since s.core fun _ => False)
      (fun y => y = s.core.set 0 (s.core.sp.setWidth 64)) [.getsp 0] s.core := ⟨Since.refl .., rfl⟩
  refine Settles.plain hpc hcode hsafe (h.shared.quiet_since hP h.closed) fun core hcore => ?_
  subst hcore
  refine hend _ (h.quiet hP ⟨rfl, rfl, fun _ _ => rfl⟩ rfl) ?_ rfl
  rw [← h.pushing.sp]
  exact s.core.set_same 0 _

/-- …and the return address of a call becomes the word of an interrupt with the timer unmasked. -/
theorem Saving.patch (hP : P.Placed) (h : P.Saving s t c cs 0 16) {r : Routine} {i : ℕ}
    {rest : List (Instr Fn)} (hpc : s.pc = P.addr r i)
    (hcode : (P.code r).drop i = block [.getsp 0, .setr 1 0x80, .stidx32 1 0 132] ++ rest)
    (hend : ∀ s', P.Saving s' t c cs 0x80 16 → s'.core.regs 0 = (below c.sp 136).setWidth 64 →
      s'.pc = P.addr r (i + 3) → P.Settles s') : P.Settles s := by
  have hc : c ∈ s.saved t := by
    rw [h.saved]
    exact List.mem_cons_self ..
  have hsp : s.core.sp = below c.sp 136 := h.pushing.sp
  have hcell : (s.core.sp.setWidth 64).setWidth 32 + 132 = below c.sp 4 := by
    rw [setWidth_address, hsp]
    exact below_add c.sp 4 132
  have hsafe : Safely Core.exec (Since s.core fun _ => False)
      (fun y => y.regs 0 = s.core.sp.setWidth 64 ∧ y.mem = s.core.mem.store32 (below c.sp 4) 0x80 ∧
        y.sp = s.core.sp ∧ y.enabled = s.core.enabled ∧ y.mask = s.core.mask)
      [.getsp 0, .setr 1 0x80, .stidx32 1 0 132] s.core :=
    ⟨Since.refl .., ⟨rfl, rfl, fun _ _ => rfl⟩, ⟨rfl, rfl, fun _ _ => rfl⟩, rfl,
      congrArg (fun a => s.core.mem.store32 a 0x80) hcell, rfl, rfl, rfl⟩
  refine Settles.plain hpc hcode hsafe (h.shared.quiet_since hP h.closed)
    fun core ⟨hr0, hmem, hcoresp, henabled, hmask⟩ => ?_
  have hout : ∀ a, ¬ Under c.sp 136 a → core.mem a = s.core.mem a := fun a ha => by
    rw [hmem]
    exact Cells.store32_apply _ fun heq => ha ⟨4, by decide, by decide, heq⟩
  have hshared : P.Shared { s with core, pc := P.addr r (i + 3) } t :=
    h.shared.save hP (fun a ha => hout a fun hunder => ha (h.shared.mine_of_under hc hunder)) _
  have hwords : Words core.mem c.sp (frame c 0x80) := by
    rw [hmem]
    exact words_patch h.pushing.words 0x80
  refine hend _ ⟨hshared, h.saved, h.chain.save hout, ⟨hcoresp.trans hsp, hwords, ?_⟩, ?_⟩ (hsp ▸ hr0) rfl
  · exact fun r hr => absurd r.isLt (by omega)
  · exact fun hopen => h.closed ⟨henabled ▸ hopen.1, hmask ▸ hopen.2⟩

/-- **The frame's address goes to the control block**, and the scheduler is called on the kernel's stack. -/
theorem Saving.call (hP : P.Placed) (h : P.Saving s t c cs high 16) (hhigh : Resumable 0 high)
    {r : Routine} {i : ℕ} {is : List Plain} {f : Fn} {rest : List (Instr Fn)} (hpc : s.pc = P.addr r i)
    (hcode : (P.code r).drop i = block is ++ .call f :: rest)
    (hsafe : Safely Core.exec (Since s.core (P.owner · = .handle t)) (fun y => y.sp = P.kernelTop ∧
      P.handle y.mem t = below c.sp 136 ∧ Since s.core (P.owner · = .handle t) y) is s.core) :
    P.Settles s := by
  have hquiet : ∀ y pc, Since s.core (P.owner · = .handle t) y →
      P.Shared { s with core := y, pc } t ∧ ¬ y.Open 0 := fun y pc hy =>
    ⟨h.shared.save hP (fun a ha => hy.mem a fun howner => ha (.inl howner)) pc,
      not_open_of_since h.closed hy⟩
  refine Settles.plain hpc hcode hsafe hquiet fun y ⟨htop, hhandle, hsince⟩ => ?_
  obtain ⟨hshared, hclosed⟩ := hquiet y (P.addr r (i + is.length)) hsince
  have hcall : (P.code r)[i + is.length]? = some (.call f) := by
    rw [← List.getElem?_drop, hcode]
    simp
  -- the control block is no part of the task's stack
  have hstack : ∀ d ∈ s.saved t, ∀ a, Under d.sp 136 a → y.mem a = s.core.mem a := fun d hd a ha =>
    hsince.mem a fun howner => by
      cases (h.shared.kept.onStack t d a h.shared.alive hd ha).symm.trans howner
  refine .arrived (.inr ⟨t, f, r, _, hshared, ⟨c, cs, high, h.saved, ?_, hhigh, hhandle, ?_⟩, htop,
    hclosed, Program.fetch_addr hcall⟩)
  · refine h.pushing.words.congr fun a ha => hstack c ?_ a (by simpa using ha)
    rw [h.saved]
    exact List.mem_cons_self ..
  · refine h.chain.congr fun d hd => hstack d ?_
    rw [h.saved]
    exact List.mem_cons_of_mem _ hd

/-- **The restore of the task the scheduler has chosen**, from the load of its stack pointer on. -/
theorem Shared.resume (hP : P.Placed) (h : P.Shared s t) (hparked : P.Parked s.core.mem (s.saved t) t)
    (hclosed : ¬ s.core.Open 0) {r : Routine} {i : ℕ} {is : List Plain} (hpc : s.pc = P.addr r i)
    (hcode : (P.code r).drop i = block is ++ (block pops ++ [.iret]))
    (hsafe : Safely Core.exec (Since s.core fun _ => False)
      (fun y => y.sp = P.handle s.core.mem t ∧ Since s.core (fun _ => False) y) is s.core) :
    P.Settles s := by
  obtain ⟨c, cs, high, hsaved, hwords, hhigh, hhandle, hchain⟩ := hparked
  have hquiet := h.quiet_since hP hclosed
  refine Settles.plain hpc hcode hsafe hquiet fun core ⟨hsp, hsince⟩ => ?_
  have hmem : core.mem = s.core.mem := funext fun a => hsince.mem a id
  obtain ⟨hshared, hclosed'⟩ := hquiet core (P.addr r (i + is.length)) hsince
  refine hshared.restore hP hsaved (hmem ▸ hchain) ⟨hsp.trans hhandle, hmem ▸ hwords, fun r hr => ?_⟩ hhigh
    hclosed' rfl ?_
  · exact absurd r.isLt (by omega)
  · rw [← List.drop_drop, hcode]
    simp

/-- **The start of the first task**: its registers are popped, and the timer is unmasked just before the
`IRET`. -/
theorem Shared.first (hP : P.Placed) (h : P.Shared s t) (hsaved : s.saved t = [c.clobber])
    (hwords : Words s.core.mem c.sp (frame c high)) (hhigh : Resumable 0 high)
    (hhandle : P.handle s.core.mem t = below c.sp 136) (hown : P.decode c.pc = none)
    (hmask : s.core.mask.getLsbD 0 = false) (hpc : s.pc = P.addr .first 0) {is : List Plain}
    (hcode : P.code .first = block is ++ (block pops ++ (block [.setr 13 (intMask.setWidth 64), .setr 14 1,
      .memset32 14 13] ++ [.iret])))
    (hsafe : Safely Core.exec (Since s.core fun _ => False)
      (fun y => y.sp = P.handle s.core.mem t ∧ Since s.core (fun _ => False) y) is s.core) :
    P.Settles s := by
  have hclosed : ¬ s.core.Open 0 := fun hopen => by cases hmask.symm.trans hopen.2
  have hquiet := h.quiet_since hP hclosed
  refine Settles.plain hpc hcode hsafe hquiet fun core ⟨hcoresp, hsince⟩ => ?_
  have hmem : core.mem = s.core.mem := funext fun a => hsince.mem a id
  obtain ⟨hshared, hclosed'⟩ := hquiet core (P.addr .first (0 + is.length)) hsince
  have hpopping : Popping c high 16 core :=
    ⟨hcoresp.trans hhandle, hmem ▸ hwords, fun r hr => absurd r.isLt (by omega)⟩
  have hpops : Safely Core.exec (Since core fun _ => False)
      (fun y => Popping c high 0 y ∧ Since core (fun _ => False) y) pops core :=
    hpopping.pops (fun _ hy => hy) fun y hy hsince => ⟨hy, hsince⟩
  have hcode' : (P.code .first).drop (0 + is.length) = block pops ++ (block [.setr 13 (intMask.setWidth 64),
      .setr 14 1, .memset32 14 13] ++ [.iret]) := by
    rw [hcode]
    simp
  refine Settles.plain rfl hcode' hpops (hshared.quiet_since hP hclosed') fun y ⟨hpop, hysince⟩ => ?_
  obtain ⟨hyshared, hyclosed⟩ := hshared.quiet_since hP hclosed' y
    (P.addr .first (0 + is.length + pops.length)) hysince
  have hunmask : Safely Core.exec (Since y fun _ => False)
      (fun z => z = { y with
        regs := update (update y.regs 13 (intMask.setWidth 64)) 14 1, mask := 1 })
      [.setr 13 (intMask.setWidth 64), .setr 14 1, .memset32 14 13] y :=
    ⟨Since.refl .., ⟨rfl, rfl, fun _ _ => rfl⟩, ⟨rfl, rfl, fun _ _ => rfl⟩, rfl⟩
  have hcode'' : (P.code .first).drop (0 + is.length + pops.length) = block [.setr 13 (intMask.setWidth 64),
      .setr 14 1, .memset32 14 13] ++ [.iret] := by
    rw [← List.drop_drop, hcode']
    simp [pops]
  refine Settles.plain rfl hcode'' hunmask (hyshared.quiet_since hP hyclosed) fun z hz => ?_
  have hzmem : z.mem = y.mem := by rw [hz]
  have hzmask : z.mask.getLsbD 0 = true := by
    rw [hz]
    exact (by decide : (1 : BitVec 4).getLsbD 0 = true)
  have hzsp : z.sp = below c.sp 8 := by
    rw [hz]
    exact hpop.sp
  have hzregs : z.regs = c.clobber.regs := by
    rw [hz, Ctx.clobber, funext fun r => hpop.regs r (Nat.zero_le _)]
  have hzpc : (P.code .first).length - 1 = 0 + is.length + pops.length + 3 := by
    rw [hcode]
    simp [pops]
  have hzshared : P.Shared { s with core := z, pc := P.addr .first (0 + is.length + pops.length + 3) } t :=
    hyshared.save hP (fun a _ => congrFun hzmem a) _
  refine .arrived (.inl ⟨t, hzshared, ?_, hzmask⟩)
  change P.Chain z.mem (z.ctx (P.addr .first (0 + is.length + pops.length + 3))) (s.saved t)
  rw [hsaved]
  exact ⟨⟨hzregs, .inr ⟨by rw [hzpc]; rfl, hzsp, high, hhigh, hzmem ▸ hpop.words.take 1⟩⟩, hown⟩

end Port

end KlaussRuntime.Cpu
