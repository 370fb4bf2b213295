import KlaussRuntime.Cpu.TaskRuns

/-!
# Rtos/Switch — the context switches of the bare-metal RTOS

`timer_handler`, `rtos_yield` and `rtos_first_task` of `context_switch.S`, instruction by instruction, and the
frame `task_create` builds.  A task's stack pointer is the 32-bit word at the start of its control block, and
`g_current_tcb` is read as a 32-bit pointer.
-/

namespace KlaussRuntime.Rtos.Switch

open Machinery Cpu Function

/-- How many instructions the routines have. -/
def codeLength : Routine → ℕ
  | .tick => 48
  | .yield => 50
  | .first => 24

/-- Where the linker has put things. -/
structure Layout (T : Type*) where
  addr : Routine → ℕ → Address
  decode : Address → Option (Routine × ℕ)
  owner : Address → Owner T
  /-- the address of the variable `g_current_tcb` -/
  gCurrentTcb : Address
  /-- the address of the variable `g_kernel_stack_top` -/
  gKernelStackTop : Address
  /-- `&tasks[t]` -/
  tcb : T → Address
  /-- `stacks[t] + RTOS_STACK_WORDS` -/
  top : T → Address
  /-- `kernel_stack + KERNEL_STACK_WORDS` -/
  kernelTop : Address
  taskReturnPoint : Address
  decode_addr : ∀ r i, i < codeLength r → decode (addr r i) = some (r, i)
  owner_current : owner gCurrentTcb = .current
  owner_tcb : ∀ t, owner (tcb t) = .handle t
  tcb_ne : ∀ t, tcb t ≠ 0
  owner_stack : ∀ t a, Under (top t) (8 * 2048) a → owner a = .stack t
  owner_kernelSp : owner gKernelStackTop = .kernelSp
  owner_kernelStack : ∀ a, Under kernelTop (8 * 128) a → owner a = .kernelStack

variable {T : Type*} (L : Layout T)

/-! ## The code -/

/-- `TCB->sp = r0`, unless there is no task, and the kernel's stack. -/
def saveSp (i : ℕ) : List (Instr Fn) :=
  block [.setr 1 (L.gCurrentTcb.setWidth 64), .ldidx32 1 1 0, .cmprv 1 0] ++ [Instr.jmpe (i + 5)] ++
    block [.stidx32 0 1 0, .setr 0 (L.gKernelStackTop.setWidth 64), .ldidx32 0 0 0, .setsp 0]

/-- The stack of `g_current_tcb`, its registers, and back. -/
def restore : List (Instr Fn) :=
  block [.setr 0 (L.gCurrentTcb.setWidth 64), .ldidx32 0 0 0, .ldidx32 1 0 0, .setsp 1] ++ block pops ++
    [Instr.iret]

def timerHandler : List (Instr Fn) :=
  block (pushes 0) ++ block [.getsp 0] ++ saveSp L 17 ++ [Instr.call .countTick, .call .chooseTask] ++
    restore L

def rtosYield : List (Instr Fn) :=
  block [.push 0, .push 1, .di 0] ++ block (pushes 2) ++
    block [.getsp 0, .setr 1 0x80, .stidx32 1 0 132] ++ saveSp L 20 ++ [Instr.call .chooseTask] ++ restore L

def rtosFirstTask : List (Instr Fn) :=
  block [.setr 14 (L.gCurrentTcb.setWidth 64), .ldidx32 14 14 0, .ldidx32 14 14 0, .setsp 14] ++
    block pops ++ block [.setr 13 (intMask.setWidth 64), .setr 14 1, .memset32 14 13] ++ [Instr.iret]

def code : Routine → List (Instr Fn)
  | .tick => timerHandler L
  | .yield => rtosYield L
  | .first => rtosFirstTask L

/-! ## New tasks -/

def canary : BitVec 64 := 0xDEADC0DEDEADC0DE

/-- The words of the fake frame, from the end of the stack. -/
def fakeFrame (entry : Address) : List (BitVec 64) :=
  [0, L.taskReturnPoint.setWidth 64, entry.setWidth 64 ||| 1#64 <<< 39] ++ List.replicate 16 0

/-- `task_create` in the memory of the stack and in `t->sp`. -/
def taskCreate (t : T) (entry : Address) (m : Cells) : Cells :=
  (storeWords (m.store64 (below (L.top t) (8 * 2048)) canary) (L.top t) (fakeFrame L entry)).store32
    (L.tcb t) (below (L.top t) (8 * (fakeFrame L entry).length))

/-- The context a task starts in. -/
def firstContext (t : T) (entry : Address) : Ctx := ⟨fun _ => 0, below (L.top t) 16, entry⟩

theorem length_code (r : Routine) : (code L r).length = codeLength r := by
  cases r <;> rfl

/-- An entry function: not in the code above. -/
abbrev Entry := { a : Address // L.decode a = none }

def port : Port T (Entry L) where
  code := code L
  addr := L.addr
  decode := L.decode
  decode_addr r i hi := L.decode_addr r i (by rwa [length_code] at hi)
  owner := L.owner
  handle m t := m (L.tcb t)
  current m t := m L.gCurrentTcb = L.tcb t
  top := L.top
  kernelSp m := m L.gKernelStackTop
  kernelTop := L.kernelTop
  kernelSize := 8 * 128
  create t entry := taskCreate L t entry
  born t entry := firstContext L t entry
  returnPoint := L.taskReturnPoint.setWidth 64

variable {L}

/-! ## The fake frame -/

/-- The fake frame resumes at the entry with interrupts enabled and the timer unmasked. -/
theorem fakeFrame_eq (t : T) (entry : Address) : fakeFrame L entry =
    [0, L.taskReturnPoint.setWidth 64] ++ frame (firstContext L t entry) 0x80 := by
  have hword : entry.setWidth 64 ||| 1#64 <<< 39 = 0x80#32 ++ entry := or_eq_append entry rfl
  rw [fakeFrame, hword]
  rfl

theorem length_fakeFrame (entry : Address) : (fakeFrame L entry).length = 19 := rfl

theorem placed : (port L).Placed where
  handle_congr h := h _ (L.owner_tcb _)
  current_congr h hcurrent := (h _ L.owner_current).trans hcurrent
  kernelSp_congr h := h _ L.owner_kernelSp
  kernel_stack := L.owner_kernelStack
  top_stack t a := by
    rintro ⟨k, hpos, hk, ha⟩
    exact L.owner_stack t a ⟨k, hpos, hk.trans (by decide), ha⟩
  born_sp _ _ := rfl
  born_pc _ entry := entry.2
  create_words t entry m := by
    refine ⟨0x80, ⟨rfl, rfl⟩, ?_⟩
    have hwords := words_storeWords (m.store64 (below (L.top t) (8 * 2048)) canary) (L.top t)
      (show 8 * (fakeFrame L entry.1).length < 2 ^ 32 by rw [length_fakeFrame]; decide)
    rw [fakeFrame_eq t] at hwords
    refine hwords.congr fun a ha => ?_
    refine (Cells.store32_apply _ fun heq => ?_).trans (by rw [fakeFrame_eq t])
    obtain ⟨k, hpos, hk, rfl⟩ := ha
    have howner := L.owner_stack t _ ⟨k, hpos, hk.trans (by simp [frame]), rfl⟩
    rw [heq, L.owner_tcb] at howner
    cases howner
  create_handle t entry m := Cells.store32_same _
  create_apply t entry m a hstack hhandle := by
    have hunder : ∀ {n : ℕ}, n ≤ 8 * 2048 → ¬ Under (L.top t) n a := by
      rintro n hn ⟨k, hpos, hk, ha⟩
      exact hstack (L.owner_stack t a ⟨k, hpos, hk.trans hn, ha⟩)
    have hne : a ≠ L.tcb t := by
      rintro rfl
      exact hhandle (L.owner_tcb t)
    change Cells.store32 _ (L.tcb t) _ a = m a
    rw [Cells.store32_apply _ hne, storeWords_apply (hunder (by rw [length_fakeFrame]; decide)),
      store64_below_apply (n := 2047) _ (hunder (by decide))]

/-! ## The code, segment by segment -/

variable [DecidableEq T] {s : Cpu.Sys T (Entry L)} {t : T} {c : Ctx} {cs : List Ctx} {high : BitVec 32}
  {r : Routine} {i : ℕ} {rest : List (Instr Fn)}

omit [DecidableEq T] in
/-- The control block of the running task, as the code loads it. -/
theorem load_current (h : (port L).Shared s t) (d : Reg) :
    Core.exec (.ldidx32 d d 0) (Core.exec (.setr d (L.gCurrentTcb.setWidth 64)) s.core) =
      s.core.set d ((L.tcb t).setWidth 64) := by
  have hcurrent : s.core.mem L.gCurrentTcb = L.tcb t := h.current
  simp only [Core.exec, Core.set, Core.at_zero, update_self, setWidth_address,
    update_idem, hcurrent]

/-- `TCB->sp = r0`, the kernel's stack, and the call of the scheduler. -/
theorem settles_store {f : Fn} (h : (port L).Saving s t c cs high 16) (hhigh : Resumable 0 high)
    (hr0 : s.core.regs 0 = (below c.sp 136).setWidth 64) (hr1 : s.core.regs 1 = (L.tcb t).setWidth 64)
    (hpc : s.pc = L.addr r i)
    (hcode : (code L r).drop i = block [.stidx32 0 1 0, .setr 0 (L.gKernelStackTop.setWidth 64),
      .ldidx32 0 0 0, .setsp 0] ++ .call f :: rest) : (port L).Settles s := by
  have hstore : Core.exec (.stidx32 0 1 0) s.core =
      { s.core with mem := s.core.mem.store32 (L.tcb t) (below c.sp 136) } := by
    simp only [Core.exec, Core.at_zero, hr0, hr1, setWidth_address]
  -- the store leaves the variable that points to the kernel's stack alone
  have hkernel : s.core.mem.store32 (L.tcb t) (below c.sp 136) L.gKernelStackTop = L.kernelTop := by
    refine (Cells.store32_apply _ fun heq => ?_).trans h.shared.kernel
    have howner := L.owner_kernelSp
    rw [heq, L.owner_tcb] at howner
    cases howner
  have hsince : ∀ y : Core, y.enabled = s.core.enabled → y.mask = s.core.mask →
      y.mem = s.core.mem.store32 (L.tcb t) (below c.sp 136) → Since s.core (L.owner · = .handle t) y :=
    fun y henabled hmask hmem => by
      refine ⟨henabled, hmask, fun a ha => ?_⟩
      rw [hmem]
      refine Cells.store32_apply _ ?_
      rintro rfl
      exact ha (L.owner_tcb t)
  refine h.call placed hhigh hpc hcode ⟨Since.refl .., ?_⟩
  rw [hstore]
  refine ⟨hsince _ ?_ ?_ ?_, hsince _ ?_ ?_ ?_, hsince _ ?_ ?_ ?_, ?_, Cells.store32_same _,
    hsince _ ?_ ?_ ?_⟩
  case refine_10 =>
    simp only [Core.exec, Core.set, Core.at_zero, update_self, setWidth_address, hkernel]
    rfl
  all_goals rfl

/-- **The frame's address goes to the control block**: there is a task, so the branch is not taken. -/
theorem settles_save {f : Fn} (h : (port L).Saving s t c cs high 16) (hhigh : Resumable 0 high)
    (hr0 : s.core.regs 0 = (below c.sp 136).setWidth 64) (hpc : s.pc = L.addr r i)
    (hcode : (code L r).drop i = saveSp L i ++ .call f :: rest) : (port L).Settles s := by
  have hload : Safely Core.exec (Since s.core fun _ => False)
      (fun y => y = Core.exec (.cmprv 1 0) (s.core.set 1 ((L.tcb t).setWidth 64)))
      [.setr 1 (L.gCurrentTcb.setWidth 64), .ldidx32 1 1 0, .cmprv 1 0] s.core :=
    ⟨Since.refl .., ⟨rfl, rfl, fun _ _ => rfl⟩, ⟨rfl, rfl, fun _ _ => rfl⟩,
      congrArg (Core.exec (.cmprv 1 0)) (load_current h.shared 1)⟩
  refine Port.Settles.plain hpc (hcode.trans rfl) hload (h.shared.quiet_since placed h.closed)
    fun core hcore => ?_
  have hsince : Since s.core (fun _ => False) core := hcore ▸ ⟨rfl, rfl, fun _ _ => rfl⟩
  have hsp : core.sp = s.core.sp := hcore ▸ rfl
  have hr1 : core.regs 1 = (L.tcb t).setWidth 64 := hcore ▸ s.core.set_same 1 _
  have hr0' : core.regs 0 = (below c.sp 136).setWidth 64 := by
    rw [hcore]
    exact (s.core.set_other (r := 1) ((L.tcb t).setWidth 64) (by decide)).trans hr0
  have hne : core.equal = false := by
    rw [hcore, Core.equal_cmprv, s.core.set_same]
    refine decide_eq_false fun hzero => L.tcb_ne t ?_
    rw [← setWidth_address (L.tcb t), hzero]
    rfl
  have hjmpe : (code L r)[i + 3]? = some (.jmpe (i + 5)) := by
    rw [← List.getElem?_drop, hcode]
    rfl
  have hcode' : (code L r).drop (i + 4) = block [.stidx32 0 1 0, .setr 0 (L.gKernelStackTop.setWidth 64),
      .ldidx32 0 0 0, .setsp 0] ++ .call f :: rest := by
    rw [← List.drop_drop, hcode]
    rfl
  have hsaving : (port L).Saving { s with core, pc := L.addr r (i + 3) } t c cs high 16 :=
    h.quiet placed hsince hsp
  refine Port.Settles.jmpe hsaving.shared hsaving.closed rfl hjmpe ?_
  simp only [hne, Bool.false_eq_true, if_false]
  exact settles_store (h.quiet placed hsince hsp) hhigh hr0' hr1 rfl hcode'

/-- **The restore of the task the scheduler has chosen.** -/
theorem settles_restore (h : (port L).Shared s t) (hparked : (port L).Parked s.core.mem (s.saved t) t)
    (hclosed : ¬ s.core.Open 0) (hpc : s.pc = L.addr r i) (hcode : (code L r).drop i = restore L) :
    (port L).Settles s := by
  have hload : restore L = block [.setr 0 (L.gCurrentTcb.setWidth 64), .ldidx32 0 0 0, .ldidx32 1 0 0,
    .setsp 1] ++ (block pops ++ [Instr.iret]) := rfl
  refine h.resume placed hparked hclosed hpc (hcode.trans hload) ⟨Since.refl ..,
    ⟨rfl, rfl, fun _ _ => rfl⟩, ⟨rfl, rfl, fun _ _ => rfl⟩, ⟨rfl, rfl, fun _ _ => rfl⟩, ?_,
    ⟨rfl, rfl, fun _ _ => rfl⟩⟩
  rw [load_current h 0]
  simp only [Core.exec, Core.set, Core.at_zero, update_self, setWidth_address]
  rfl

/-! ## The routines -/

theorem tick_settles (h : (port L).Saving s t c cs high 0) (hhigh : Resumable 0 high)
    (hpc : s.pc = L.addr .tick 0) : (port L).Settles s := by
  have hcode : (code L .tick).drop 0 = block (pushes 0) ++ (block [.getsp 0] ++ (saveSp L 17 ++
    ([.call .countTick, .call .chooseTask] ++ restore L))) := rfl
  have hcode' : (code L .tick).drop 16 = block [.getsp 0] ++ (saveSp L 17 ++
    ([.call .countTick, .call .chooseTask] ++ restore L)) := rfl
  refine h.pushes placed (by decide) hpc hcode fun s₁ h₁ hpc₁ => ?_
  refine h₁.getsp placed hpc₁ hcode' fun s₂ h₂ hr0 hpc₂ => ?_
  exact settles_save (f := .countTick) (i := 17) h₂ hhigh hr0 hpc₂ rfl

theorem yield_settles (h : (port L).Saving s t c cs 0 2) (hpc : s.pc = L.addr .yield 3) :
    (port L).Settles s := by
  have hcode : (code L .yield).drop 3 = block (pushes 2) ++ (block [.getsp 0, .setr 1 0x80, .stidx32 1 0 132] ++
    (saveSp L 20 ++ ([.call .chooseTask] ++ restore L))) := rfl
  have hcode' : (code L .yield).drop 17 = block [.getsp 0, .setr 1 0x80, .stidx32 1 0 132] ++
    (saveSp L 20 ++ ([.call .chooseTask] ++ restore L)) := rfl
  refine h.pushes placed (by decide) hpc hcode fun s₁ h₁ hpc₁ => ?_
  refine h₁.patch placed hpc₁ hcode' fun s₂ h₂ hr0 hpc₂ => ?_
  exact settles_save (f := .chooseTask) (i := 20) h₂ ⟨rfl, rfl⟩ hr0 hpc₂ rfl

omit [DecidableEq T] in
theorem restore_no_call {f : Fn} : (restore L)[i]? ≠ some (.call f) := by
  intro h
  rw [restore, List.append_assoc] at h
  obtain ⟨k, -, h⟩ := call_of_append h
  obtain ⟨k, -, h⟩ := call_of_append h
  cases k with
  | zero => cases h
  | succ k => cases h

omit [DecidableEq T] in
theorem call_index {f : Fn} (h : (code L r)[i]? = some (.call f)) :
    (r = .tick ∧ (i = 25 ∨ i = 26)) ∨ (r = .yield ∧ i = 28) := by
  cases r with
  | tick =>
    have hcode : code L .tick = block (pushes 0 ++ [.getsp 0, .setr 1 (L.gCurrentTcb.setWidth 64),
      .ldidx32 1 1 0, .cmprv 1 0]) ++ (Instr.jmpe 22 :: (block [.stidx32 0 1 0,
      .setr 0 (L.gKernelStackTop.setWidth 64), .ldidx32 0 0 0, .setsp 0] ++
      (Instr.call .countTick :: .call .chooseTask :: restore L))) := rfl
    rw [hcode] at h
    obtain ⟨k₁, rfl, h₁⟩ := call_of_append h
    obtain ⟨k₂, rfl, h₂⟩ := call_of_jmpe h₁
    obtain ⟨k₃, rfl, h₃⟩ := call_of_append h₂
    match k₃, h₃ with
    | 0, _ => exact .inl ⟨rfl, .inl rfl⟩
    | 1, _ => exact .inl ⟨rfl, .inr rfl⟩
    | k + 2, h => exact absurd h restore_no_call
  | yield =>
    have hcode : code L .yield = block ([.push 0, .push 1, .di 0] ++ pushes 2 ++ [.getsp 0, .setr 1 0x80,
      .stidx32 1 0 132, .setr 1 (L.gCurrentTcb.setWidth 64), .ldidx32 1 1 0, .cmprv 1 0]) ++
      (Instr.jmpe 25 :: (block [.stidx32 0 1 0, .setr 0 (L.gKernelStackTop.setWidth 64), .ldidx32 0 0 0,
      .setsp 0] ++ (Instr.call .chooseTask :: restore L))) := rfl
    rw [hcode] at h
    obtain ⟨k₁, rfl, h₁⟩ := call_of_append h
    obtain ⟨k₂, rfl, h₂⟩ := call_of_jmpe h₁
    obtain ⟨k₃, rfl, h₃⟩ := call_of_append h₂
    match k₃, h₃ with
    | 0, _ => exact .inr ⟨rfl, rfl⟩
    | k + 1, h => exact absurd h restore_no_call
  | first =>
    have hcode : code L .first = block ([.setr 14 (L.gCurrentTcb.setWidth 64), .ldidx32 14 14 0,
      .ldidx32 14 14 0, .setsp 14] ++ pops ++ [.setr 13 (intMask.setWidth 64), .setr 14 1,
      .memset32 14 13]) ++ [Instr.iret] := rfl
    rw [hcode] at h
    obtain ⟨k, rfl, h₁⟩ := call_of_append h
    match k, h₁ with
    | 0, h₁ => cases h₁
    | _ + 1, h₁ => cases h₁

theorem call_settles {f : Fn} (h : (port L).Shared s t)
    (hparked : (port L).Parked s.core.mem (s.saved t) t) (htop : s.core.sp = L.kernelTop)
    (hclosed : ¬ s.core.Open 0) (hcall : (code L r)[i]? = some (.call f)) (hpc : s.pc = L.addr r (i + 1)) : (port L).Settles s := by
  rcases call_index hcall with ⟨rfl, rfl | rfl⟩ | ⟨rfl, rfl⟩
  · -- `pick_next_task` comes right after `tick_count_update`
    exact .arrived (.inr ⟨t, .chooseTask, .tick, 26, h, hparked, htop, hclosed, hpc ▸ Program.fetch_addr rfl⟩)
  · exact settles_restore h hparked hclosed hpc rfl
  · exact settles_restore h hparked hclosed hpc rfl

theorem first_settles (h : (port L).Shared s t) (hsaved : s.saved t = [c.clobber])
    (hwords : Words s.core.mem c.sp (frame c high)) (hhigh : Resumable 0 high)
    (hhandle : s.core.mem (L.tcb t) = below c.sp 136) (hown : L.decode c.pc = none)
    (hmask : s.core.mask.getLsbD 0 = false) (hpc : s.pc = L.addr .first 0) : (port L).Settles s := by
  have hcode : code L .first = block [.setr 14 (L.gCurrentTcb.setWidth 64), .ldidx32 14 14 0,
    .ldidx32 14 14 0, .setsp 14] ++ (block pops ++ (block [.setr 13 (intMask.setWidth 64), .setr 14 1,
    .memset32 14 13] ++ [Instr.iret])) := rfl
  refine h.first placed hsaved hwords hhigh hhandle hown hmask hpc hcode ⟨Since.refl ..,
    ⟨rfl, rfl, fun _ _ => rfl⟩, ⟨rfl, rfl, fun _ _ => rfl⟩, ⟨rfl, rfl, fun _ _ => rfl⟩, ?_,
    ⟨rfl, rfl, fun _ _ => rfl⟩⟩
  rw [load_current h 14]
  simp only [Core.exec, Core.set, Core.at_zero, update_self, setWidth_address]
  rfl

theorem verified : (port L).Verified where
  toPlaced := placed
  yield_code := ⟨_, rfl⟩
  first_code := ⟨_, rfl⟩
  tick_settles := tick_settles
  yield_settles := yield_settles
  call_settles := call_settles
  first_settles := first_settles

def pair : Layout Bool where
  addr := Pair.addr
  decode := Pair.decode
  owner := Pair.owner
  gCurrentTcb := 0x1000
  gKernelStackTop := 0x1008
  tcb := Pair.tcb
  top := Pair.top
  kernelTop := 0x19000
  taskReturnPoint := 0x800
  decode_addr r i hi := Pair.decode_addr r i (hi.trans_le (by cases r <;> decide))
  owner_current := rfl
  owner_tcb t := by cases t <;> rfl
  tcb_ne t := by cases t <;> decide
  owner_stack := Pair.owner_stack
  owner_kernelSp := Pair.owner_kernelSp
  owner_kernelStack a := fun ⟨k, hpos, hk, ha⟩ =>
    Pair.owner_kernelStack a ⟨k, hpos, hk.trans (by decide), ha⟩

/-- Both tasks are made… -/
def pairMade : Cpu.Sys Bool (Entry pair) :=
  (port pair).made ((port pair).made (Port.init Pair.boot 0x900) false ⟨0x904, rfl⟩) true ⟨0x908, rfl⟩

/-- …the first of them is started… -/
def pairStart : Core :=
  { pairMade.core with mem := (pairMade.core.mem.store32 0x1000 0x1010).store32 0x1008 0x19000 }

def pairStarted : Cpu.Sys Bool (Entry pair) :=
  { pairMade with
    core := pairStart
    pc := pair.addr .first 0
    cur := some false
    saved := update pairMade.saved false ((pairMade.saved false).map Ctx.clobber) }

def pairReturning : Cpu.Sys Bool (Entry pair) := ((port pair).execs 23 pairStarted).get (by decide +kernel)

/-- …the timer interrupts it between the write of `INT_MASK` and the `IRET`… -/
def pairTicked : Cpu.Sys Bool (Entry pair) :=
  { pairReturning with
    core := pairReturning.core.interrupt 0 pairReturning.pc
    pc := pair.addr .tick 0
    saved := update pairReturning.saved false
      (pairReturning.core.ctx pairReturning.pc :: pairReturning.saved false) }

def pairCounting : Cpu.Sys Bool (Entry pair) := ((port pair).execs 25 pairTicked).get (by decide +kernel)

def pairCounted : Cpu.Sys Bool (Entry pair) :=
  { pairCounting with
    core := { pairCounting.core with mem := pairCounting.core.mem }
    pc := pair.addr .tick 26
    cur := some false }

/-- …and the scheduler chooses the other one. -/
def pairChosen : Cpu.Sys Bool (Entry pair) :=
  { pairCounted with
    core := { pairCounted.core with mem := pairCounted.core.mem.store32 0x1000 0x1018 }
    pc := pair.addr .tick 27
    cur := some true }

def pairSwitched : Cpu.Sys Bool (Entry pair) := ((port pair).execs 20 pairChosen).get (by decide +kernel)

theorem reaches_pairStarted :
    Reaches (port pair).step (port pair).Sound (Port.init Pair.boot 0x900) pairStarted := by
  have hmade : Reaches (port pair).step (port pair).Sound (Port.init Pair.boot 0x900) pairMade :=
    (Reaches.refl.snoc (a := .create false ⟨0x904, rfl⟩) trivial rfl).snoc
      (a := .create true ⟨0x908, rfl⟩) trivial rfl
  refine hmade.snoc (a := .start false pairStart) ⟨rfl, fun a ha => ?_,
    (by decide +kernel : pairStart.mem 0x1000 = Pair.tcb false),
    (by decide +kernel : pairStart.mem 0x1008 = 0x19000)⟩ rfl
  have hcurrent : a ≠ 0x1000 := by
    rintro rfl
    exact ha (.inl rfl)
  have hkernelSp : a ≠ 0x1008 := by
    rintro rfl
    exact ha (.inr (.inl rfl))
  exact (Cells.store32_apply _ hkernelSp).trans (Cells.store32_apply _ hcurrent)

theorem reaches_pairTicked : Reaches (port pair).step (port pair).Sound pairStarted pairTicked := by
  have hreturning : Reaches (port pair).step (port pair).Sound pairStarted pairReturning :=
    Port.reaches_execs (Option.some_get _).symm
  have hcur : pairReturning.cur = some false := by decide +kernel
  have hopen : pairReturning.core.Open 0 := by decide +kernel
  have hsp : pairReturning.core.sp = below (pair.top false) 24 := by decide +kernel
  have hroom := Port.room_of_top (P := port pair) (pair.owner_stack false) hcur hsp (by decide)
  exact hreturning.trans (Port.reaches_tick hcur hopen hroom)

theorem reaches_pairChosen : Reaches (port pair).step (port pair).Sound pairTicked pairChosen := by
  have hcounting : Reaches (port pair).step (port pair).Sound pairTicked pairCounting :=
    Port.reaches_execs (Option.some_get _).symm
  have hpc : pairCounting.pc = (port pair).addr .tick 25 := by decide +kernel
  have hfetch : (port pair).fetch pairCounting.pc = some (.call .countTick, .tick, 25) :=
    hpc ▸ Program.fetch_addr rfl
  have hcurrent : (port pair).current pairCounting.core.mem false :=
    (by decide +kernel : pairCounting.core.mem pair.gCurrentTcb = pair.tcb false)
  have hcounted : Reaches (port pair).step (port pair).Sound pairTicked pairCounted :=
    hcounting.trans (Port.reaches_kernel hfetch (by decide +kernel) (fun _ _ => rfl) hcurrent)
  have hfetch' : (port pair).fetch pairCounted.pc = some (.call .chooseTask, .tick, 26) :=
    Program.fetch_addr rfl
  have hother : ∀ a, (port pair).owner a ≠ .current →
      pairCounted.core.mem.store32 0x1000 0x1018 a = pairCounted.core.mem a := fun a ha => by
    refine Cells.store32_apply _ ?_
    rintro rfl
    exact ha rfl
  have hcurrent' : (port pair).current (pairCounted.core.mem.store32 0x1000 0x1018) true :=
    Cells.store32_same _
  exact hcounted.trans (Port.reaches_kernel hfetch' (by decide +kernel) hother hcurrent')

end KlaussRuntime.Rtos.Switch
