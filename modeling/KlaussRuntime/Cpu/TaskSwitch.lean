import KlaussRuntime.Cpu.Program
import KlaussRuntime.Machinery.Machine

/-!
# Cpu/TaskSwitch — kernels that switch tasks on the timer and on a yield

The bare-metal RTOS and the FreeRTOS port have the same three routines: a timer handler, a yield that is
called as a function, and the start of the first task.  The first two build a frame on the stack of the
running task, leave its address in the task's control block, run the scheduler on a stack of its own and
restore the task it has chosen.  The timer is the only source, and it is masked from the interrupt to the
`IRET`; a yield disables interrupts after it has pushed two registers.

A `Port` is such a kernel's code with its layout, and `Sys` the machine that runs it, one instruction at a
time, with a ghost record of the contexts each task is to return to.  `Port.Verified` is what has to be shown
of a port's own instructions; `transparent_of_reaches` is what follows for every run: frames of suspended tasks
stay complete, and each return resumes its task as it was.
-/

namespace KlaussRuntime.Cpu

open Machinery Function

inductive Routine
  | tick
  | yield
  | first
  deriving DecidableEq

/-- The C functions that the routines call. -/
inductive Fn
  /-- keeps the current task -/
  | countTick
  /-- may choose another one -/
  | chooseTask
  deriving DecidableEq

/-- What a cell of memory belongs to. -/
inductive Owner (T : Type*)
  | stack (t : T)
  /-- the variable that points to the control block of the running task -/
  | current
  /-- the stack pointer in a control block -/
  | handle (t : T)
  /-- the variable that points to the kernel's stack -/
  | kernelSp
  | kernelStack
  | other

/-- A kernel: its code, where things lie, and how a task of type `B` is made. -/
structure Port (T B : Type*) extends Program Routine Fn where
  owner : Address → Owner T
  handle : Cells → T → Address
  current : Cells → T → Prop
  /-- the end of a task's stack -/
  top : T → Address
  /-- what the kernel takes for the end of its stack -/
  kernelSp : Cells → Address
  /-- the end of the kernel's stack -/
  kernelTop : Address
  kernelSize : ℕ
  create : T → B → Cells → Cells
  born : T → B → Ctx
  /-- the return address of every task -/
  returnPoint : BitVec 64

structure Sys (T B : Type*) where
  core : Core
  pc : Address
  /-- the running task, none before the first -/
  cur : Option T
  live : T → Bool
  /-- ghost: the contexts a task is to return to, the innermost first -/
  saved : T → List Ctx
  /-- ghost: how a task was made that has not run yet -/
  fresh : T → Option B

inductive Act (T B : Type*)
  /-- one instruction of the kernel's code -/
  | exec
  /-- the timer interrupt -/
  | tick
  /-- anything the running task does in its own code -/
  | own (core : Core) (pc : Address)
  /-- the running task calls the yield -/
  | yield (ret : Address)
  | create (t : T) (b : B)
  /-- the first task is chosen -/
  | start (t : T) (core : Core)
  /-- a C function that the kernel's code calls -/
  | kernel (core : Core) (next : T)

/-- The context in which the first task starts: its start uses two registers. -/
def Ctx.clobber (c : Ctx) : Ctx :=
  { c with regs := update (update c.regs 13 (intMask.setWidth 64)) 14 1 }

variable {T B : Type*} [DecidableEq T]

/-- `IRET` to the innermost context of the running task. -/
def Sys.iret (s : Sys T B) (t : T) : Sys T B :=
  { s with
    core := s.core.iret
    pc := s.core.mem s.core.sp
    saved := update s.saved t (s.saved t).tail
    fresh := update s.fresh t (if (s.saved t).tail.isEmpty then none else s.fresh t) }

namespace Port

variable (P : Port T B)

def exec (s : Sys T B) : Option (Sys T B) :=
  match P.fetch s.pc with
  | some (.plain ins, r, i) => some { s with core := s.core.exec ins, pc := P.addr r (i + 1) }
  | some (.jmpe target, r, i) =>
    some { s with pc := P.addr r (if s.core.equal then target else i + 1) }
  | some (.jmpne target, r, i) =>
    some { s with pc := P.addr r (if s.core.equal then i + 1 else target) }
  | some (.iret, _, _) => s.cur.map s.iret
  | some (.call _, _, _) | none => none

def step (s : Sys T B) : Act T B → Option (Sys T B)
  | .exec => P.exec s
  | .tick =>
    match s.cur with
    | some t =>
      if s.core.Open 0 then
        some { s with
          core := s.core.interrupt 0 s.pc
          pc := P.addr .tick 0
          saved := update s.saved t (s.core.ctx s.pc :: s.saved t) }
      else none
    | none => none
  | .own core pc => if s.cur.isSome ∧ P.decode s.pc = none then some { s with core, pc } else none
  | .yield ret =>
    match s.cur, P.decode s.pc with
    | some t, none =>
      some { s with
        core := s.core.pushWord (0#32 ++ ret)
        pc := P.addr .yield 0
        saved := update s.saved t (s.core.ctx ret :: s.saved t) }
    | _, _ => none
  | .create t b =>
    if s.live t = false ∧ (s.cur = none ∨ P.decode s.pc = none) then
      some { s with
        core := { s.core with mem := P.create t b s.core.mem }
        live := update s.live t true
        saved := update s.saved t [P.born t b]
        fresh := update s.fresh t (some b) }
    else none
  | .start t core =>
    if s.cur = none ∧ s.live t = true then
      some { s with
        core
        pc := P.addr .first 0
        cur := some t
        saved := update s.saved t ((s.saved t).map Ctx.clobber) }
    else none
  | .kernel core next =>
    match P.fetch s.pc with
    | some (.call _, r, i) => some { s with core, pc := P.addr r (i + 1), cur := some next }
    | _ => none

/-- Before any task is made, with the timer masked. -/
def init (core : Core) (pc : Address) : Sys T B where
  core
  pc
  cur := none
  live := fun _ => false
  saved := fun _ => []
  fresh := fun _ => none

/-! ## What the code around the switches keeps to -/

/-- Only cells of some owners change. -/
def Writes (may : Owner T → Prop) (m m' : Cells) : Prop := ∀ a, ¬ may (P.owner a) → m' a = m a

/-- There is room for a frame on the stack of the running task. -/
def Room (s : Sys T B) : Prop :=
  ∀ t a, s.cur = some t → Under s.core.sp 136 a → P.owner a = .stack t

/-- A task keeps to its stack and to data of its own, stacks do not overflow, and a C function of the
scheduler keeps to its variables and to what lies under the stack pointer it is called with; it chooses a task
there is. -/
def Sound (s : Sys T B) : Act T B → Prop
  | .exec | .create _ _ => True
  | .tick => P.Room s
  | .own core pc => P.decode pc = none ∧ core.mask = s.core.mask ∧
    ∀ t, s.cur = some t → P.Writes (fun o => o = .stack t ∨ o = .other) s.core.mem core.mem
  | .yield ret => P.decode ret = none ∧ P.Room s
  | .start t core => core.mask.getLsbD 0 = false ∧
    P.Writes (fun o => o = .current ∨ o = .kernelSp ∨ o = .kernelStack ∨ o = .other) s.core.mem core.mem ∧
    P.current core.mem t ∧ P.kernelSp core.mem = P.kernelTop
  | .kernel core next => s.live next = true ∧
    (∀ a, P.owner a ≠ .current → P.owner a ≠ .other → ¬ Under s.core.sp P.kernelSize a →
      core.mem a = s.core.mem a) ∧
    P.current core.mem next ∧ core.sp = s.core.sp ∧ core.enabled = s.core.enabled ∧
    core.mask = s.core.mask

/-! ## What holds -/

/-- At an `IRET`, the core is about to resume the running task as it was, with the timer enabled. -/
def Resumes (s : Sys T B) : Prop :=
  ∀ r i, P.fetch s.pc = some (.iret, r, i) → ∃ t c cs, s.cur = some t ∧ s.saved t = c :: cs ∧
    s.core.iret.ctx (s.core.mem s.core.sp) = c ∧ s.core.iret.Open 0

/-- `c` is the context a task is made with, up to the registers the first start uses. -/
structure New (b c : Ctx) : Prop where
  sp : c.sp = b.sp
  pc : c.pc = b.pc
  regs : ∀ r : Reg, r ≠ 13 → r ≠ 14 → c.regs r = b.regs r

/-- **Switches are transparent.** -/
structure Transparent (s : Sys T B) : Prop where
  /-- the control block of a suspended task points to its complete frame, on its own stack -/
  frames : ∀ u, s.live u = true → s.cur ≠ some u → ∃ c cs high, s.saved u = c :: cs ∧
    Words s.core.mem c.sp (frame c high) ∧ P.handle s.core.mem u = below c.sp 136 ∧
    ∀ a, Under c.sp 136 a → P.owner a = .stack u
  resumes : P.Resumes s
  /-- a new task starts as it was made, with the return point as its return address -/
  starts : ∀ t b c r i, P.fetch s.pc = some (.iret, r, i) → s.cur = some t → s.saved t = [c] →
    s.fresh t = some b → New (P.born t b) c ∧ Words s.core.mem (P.top t) [0, P.returnPoint]
  /-- in a task's own code the timer is not masked -/
  timer : s.cur.isSome → P.decode s.pc = none → s.core.mask.getLsbD 0 = true
  /-- nothing interrupts the kernel's code from the save of a context to its return -/
  alone : ∀ t, s.cur = some t → s.core.Open 0 → P.decode s.pc = none ∨
    (∃ j ≤ 2, s.pc = P.addr .yield j) ∨ s.pc = P.addr .first ((P.code .first).length - 1)
  /-- the scheduler is called with the whole of the kernel's stack, and nothing interrupts it -/
  scheduler : ∀ f r i, P.fetch s.pc = some (.call f, r, i) →
    s.core.sp = P.kernelTop ∧ ¬ s.core.Open 0

end Port

end KlaussRuntime.Cpu
