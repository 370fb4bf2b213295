import KlaussRuntime.Cpu.TaskRuns

/-!
# Freertos/Switch — the context switches of the FreeRTOS port

`vPortTickISR`, `vPortYield` and `vPortStartFirstTask` of `port.S`, instruction by instruction, and the frame
`pxPortInitialiseStack` builds.  `pxCurrentTCB` and `pxTopOfStack`, the first field of a control block, are
64-bit pointers.

A new task's parameter is a 64-bit `void *` too, and the frame keeps the low half of it: the switches are
transparent, and a task starts with its parameter where that fits in 32 bits (`transparent_of_small`).
-/

namespace KlaussRuntime.Freertos.Switch

open Machinery Cpu Function

/-- How many instructions the routines have. -/
def codeLength : Routine → ℕ
  | .tick => 49
  | .yield => 49
  | .first => 24

/-- Where the linker and the allocator have put things. -/
structure Layout (T : Type*) where
  addr : Routine → ℕ → Address
  decode : Address → Option (Routine × ℕ)
  owner : Address → Owner T
  /-- the address of the variable `pxCurrentTCB` -/
  pxCurrentTCB : Address
  /-- the address of the variable `g_freertos_kernel_sp` -/
  gFreertosKernelSp : Address
  tcb : T → Address
  /-- the end of a task's stack: the word under it is the `pxTopOfStack` the kernel passes on -/
  top : T → Address
  /-- `xKernelStack + PORT_KERNEL_STACK_WORDS` -/
  kernelTop : Address
  configTaskReturnAddress : Address
  decode_addr : ∀ r i, i < codeLength r → decode (addr r i) = some (r, i)
  owner_current : owner pxCurrentTCB = .current ∧ owner (pxCurrentTCB + 4) = .current
  owner_tcb : ∀ t, owner (tcb t) = .handle t ∧ owner (tcb t + 4) = .handle t
  owner_stack : ∀ t a, Under (top t) 152 a → owner a = .stack t
  owner_kernelSp : owner gFreertosKernelSp = .kernelSp
  owner_kernelStack : ∀ a, Under kernelTop (8 * 256) a → owner a = .kernelStack

variable {T : Type*} (L : Layout T)

/-! ## The code -/

/-- `portSAVE_CONTEXT_CFI` from `GETSP` on, and the kernel's stack. -/
def saveSp : List Plain :=
  [.setr 1 (L.pxCurrentTCB.setWidth 64), .ldidx64 1 1 0, .stidx64 0 1 0, .copy 4 0,
    .setr 0 (L.gFreertosKernelSp.setWidth 64), .ldidx32 0 0 0, .setsp 0]

/-- The load of `portRESTORE_CONTEXT`. -/
def loadSp : List Plain :=
  [.setr 0 (L.pxCurrentTCB.setWidth 64), .ldidx64 0 0 0, .ldidx64 1 0 0, .setsp 1]

def vPortTickISR : List (Instr Fn) :=
  block (pushes 0) ++ block [.getsp 0] ++ block (saveSp L) ++ [Instr.call .countTick] ++ block [.cmprv 12 0] ++
    [Instr.jmpe 28, .call .chooseTask] ++ block (loadSp L) ++ block pops ++ [Instr.iret]

def vPortYield : List (Instr Fn) :=
  block [.push 0, .push 1, .di 0] ++ block (pushes 2) ++
    block [.getsp 0, .setr 1 0x80, .stidx32 1 0 132] ++ block (saveSp L) ++ [Instr.call .chooseTask] ++
    block (loadSp L) ++ block pops ++ [Instr.iret]

def vPortStartFirstTask : List (Instr Fn) :=
  block (loadSp L) ++ block pops ++ block [.setr 13 (intMask.setWidth 64), .setr 14 1, .memset32 14 13] ++
    [Instr.iret]

def code : Routine → List (Instr Fn)
  | .tick => vPortTickISR L
  | .yield => vPortYield L
  | .first => vPortStartFirstTask L

/-! ## New tasks -/

/-- What a task is made of: its function, not in the code above, and its parameter. -/
structure Start where
  pxCode : Address
  pvParameters : BitVec 64
  own : L.decode pxCode = none

/-- The words of the first frame, from the end of the stack: `void *` goes through `uint32_t`. -/
def firstFrame (b : Start L) : List (BitVec 64) :=
  [0, L.configTaskReturnAddress.setWidth 64, 1#64 <<< 39 ||| b.pxCode.setWidth 64,
    (b.pvParameters.setWidth 32).setWidth 64] ++ List.replicate 14 0 ++ [0]

/-- `pxPortInitialiseStack`, and the pointer it returns in the control block. -/
def pxPortInitialiseStack (t : T) (b : Start L) (m : Cells) : Cells :=
  (storeWords m (L.top t) (firstFrame L b)).store64 (L.tcb t)
    ((below (L.top t) (8 * (firstFrame L b).length)).setWidth 64)

/-- The context a task starts in. -/
def firstContext (t : T) (b : Start L) : Ctx where
  regs := update (fun _ => 0) 0 ((b.pvParameters.setWidth 32).setWidth 64)
  sp := below (L.top t) 16
  pc := b.pxCode

theorem length_code (r : Routine) : (code L r).length = codeLength r := by
  cases r <;> rfl

def port : Cpu.Port T (Start L) where
  code := code L
  addr := L.addr
  decode := L.decode
  decode_addr r i hi := L.decode_addr r i (by rwa [length_code] at hi)
  owner := L.owner
  handle m t := (m.load64 (L.tcb t)).setWidth 32
  current m t := m.load64 L.pxCurrentTCB = (L.tcb t).setWidth 64
  top := L.top
  kernelSp m := m L.gFreertosKernelSp
  kernelTop := L.kernelTop
  kernelSize := 8 * 256
  create := pxPortInitialiseStack L
  born := firstContext L
  returnPoint := L.configTaskReturnAddress.setWidth 64

variable {L}

/-! ## The first frame -/

theorem firstContext_parameter (t : T) (b : Start L) :
    (firstContext L t b).regs 0 = (b.pvParameters.setWidth 32).setWidth 64 := by
  simp only [firstContext, update_self]

/-- The first frame resumes at the task's function with interrupts enabled and the timer unmasked. -/
theorem firstFrame_eq (t : T) (b : Start L) : firstFrame L b =
    [0, L.configTaskReturnAddress.setWidth 64] ++ frame (firstContext L t b) 0x80 := by
  have hword : 1#64 <<< 39 ||| b.pxCode.setWidth 64 = 0x80#32 ++ b.pxCode := by
    rw [BitVec.or_comm]
    exact or_eq_append b.pxCode rfl
  rw [firstFrame, hword]
  rfl

theorem length_firstFrame (b : Start L) : (firstFrame L b).length = 19 := rfl

theorem placed : (port L).Placed where
  handle_congr h := congrArg (BitVec.setWidth 32)
    (Cells.load64_congr (h _ (L.owner_tcb _).1) (h _ (L.owner_tcb _).2))
  current_congr h hcurrent :=
    (Cells.load64_congr (h _ L.owner_current.1) (h _ L.owner_current.2)).trans hcurrent
  kernelSp_congr h := h _ L.owner_kernelSp
  kernel_stack := L.owner_kernelStack
  top_stack := L.owner_stack
  born_sp _ _ := rfl
  born_pc _ b := b.own
  create_words t b m := by
    refine ⟨0x80, ⟨rfl, rfl⟩, ?_⟩
    have hwords := words_storeWords m (L.top t)
      (show 8 * (firstFrame L b).length < 2 ^ 32 by rw [length_firstFrame]; decide)
    rw [firstFrame_eq t] at hwords
    refine hwords.congr fun a ha => ?_
    have howner := L.owner_stack t a (by simpa [frame] using ha)
    refine (Cells.store64_apply _ ?_ ?_).trans (by rw [firstFrame_eq t])
    · rintro rfl
      cases howner.symm.trans (L.owner_tcb t).1
    · rintro rfl
      cases howner.symm.trans (L.owner_tcb t).2
  create_handle t b m := by
    change ((Cells.store64 _ (L.tcb t) _).load64 (L.tcb t)).setWidth 32 = _
    rw [Cells.load64_store64, setWidth_address]
    rfl
  create_apply t b m a hstack hhandle := by
    change Cells.store64 _ (L.tcb t) _ a = m a
    rw [Cells.store64_apply _ ?_ ?_, storeWords_apply fun hunder => hstack (L.owner_stack t a hunder)]
    · rintro rfl
      exact hhandle (L.owner_tcb t).1
    · rintro rfl
      exact hhandle (L.owner_tcb t).2

/-! ## The code, segment by segment -/

variable [DecidableEq T] {s : Sys T (Start L)} {t : T} {c : Ctx} {cs : List Ctx} {high : BitVec 32}
  {r : Routine} {i : ℕ} {rest : List (Instr Fn)}

omit [DecidableEq T] in
/-- The control block of the running task, as the code loads it. -/
theorem load_current (h : (port L).Shared s t) (d : Reg) :
    Core.exec (.ldidx64 d d 0) (Core.exec (.setr d (L.pxCurrentTCB.setWidth 64)) s.core) =
      s.core.set d ((L.tcb t).setWidth 64) := by
  have hcurrent : s.core.mem.load64 L.pxCurrentTCB = (L.tcb t).setWidth 64 := h.current
  simp only [Core.exec, Core.set, Core.at_zero, update_self, setWidth_address,
    update_idem, hcurrent]

/-- `pxTopOfStack = r0`, the kernel's stack, and the call of the scheduler. -/
theorem settles_save {f : Fn} (h : (port L).Saving s t c cs high 16) (hhigh : Resumable 0 high)
    (hr0 : s.core.regs 0 = (below c.sp 136).setWidth 64) (hpc : s.pc = L.addr r i)
    (hcode : (code L r).drop i = block (saveSp L) ++ .call f :: rest) : (port L).Settles s := by
  have hstore : Core.exec (.stidx64 0 1 0) (s.core.set 1 ((L.tcb t).setWidth 64)) =
      { s.core.set 1 ((L.tcb t).setWidth 64) with
        mem := s.core.mem.store64 (L.tcb t) ((below c.sp 136).setWidth 64) } := by
    have hr0' : (s.core.set 1 ((L.tcb t).setWidth 64)).regs 0 = (below c.sp 136).setWidth 64 :=
      (s.core.set_other _ (by decide)).trans hr0
    simp only [Core.exec, Core.at_zero, Core.set_same, hr0', setWidth_address]
    rfl
  -- the store leaves the variable that points to the kernel's stack alone
  have hkernel : s.core.mem.store64 (L.tcb t) ((below c.sp 136).setWidth 64) L.gFreertosKernelSp =
      L.kernelTop := by
    refine (Cells.store64_apply _ (fun heq => ?_) fun heq => ?_).trans h.shared.kernel
    · cases (heq ▸ L.owner_kernelSp).symm.trans (L.owner_tcb t).1
    · cases (heq ▸ L.owner_kernelSp).symm.trans (L.owner_tcb t).2
  have hsince : ∀ y : Core, y.enabled = s.core.enabled → y.mask = s.core.mask →
      y.mem = s.core.mem.store64 (L.tcb t) ((below c.sp 136).setWidth 64) →
      Since s.core (L.owner · = .handle t) y := fun y henabled hmask hmem => by
    refine ⟨henabled, hmask, fun a ha => ?_⟩
    rw [hmem]
    refine Cells.store64_apply _ ?_ ?_
    · rintro rfl
      exact ha (L.owner_tcb t).1
    · rintro rfl
      exact ha (L.owner_tcb t).2
  refine h.call placed hhigh hpc hcode ⟨Since.refl .., ⟨rfl, rfl, fun _ _ => rfl⟩, ?_⟩
  rw [load_current h.shared 1]
  refine ⟨⟨rfl, rfl, fun _ _ => rfl⟩, ?_⟩
  rw [hstore]
  refine ⟨hsince _ ?_ ?_ ?_, hsince _ ?_ ?_ ?_, hsince _ ?_ ?_ ?_, hsince _ ?_ ?_ ?_, ?_, ?_,
    hsince _ ?_ ?_ ?_⟩
  case refine_13 =>
    simp only [Core.exec, Core.set, Core.at_zero, update_self, setWidth_address, hkernel]
    rfl
  case refine_14 =>
    change ((s.core.mem.store64 (L.tcb t) ((below c.sp 136).setWidth 64)).load64 (L.tcb t)).setWidth 32 = _
    rw [Cells.load64_store64, setWidth_address]
  all_goals rfl

omit [DecidableEq T] in
theorem load_sp (h : (port L).Shared s t) : Safely Core.exec (Since s.core fun _ => False)
    (fun y => y.sp = (port L).handle s.core.mem t ∧ Since s.core (fun _ => False) y) (loadSp L) s.core := by
  refine ⟨Since.refl .., ⟨rfl, rfl, fun _ _ => rfl⟩, ⟨rfl, rfl, fun _ _ => rfl⟩,
    ⟨rfl, rfl, fun _ _ => rfl⟩, ?_, ⟨rfl, rfl, fun _ _ => rfl⟩⟩
  rw [load_current h 0]
  simp only [Core.exec, Core.set, Core.at_zero, update_self, setWidth_address]
  rfl

/-- **The restore of the task the scheduler has chosen.** -/
theorem settles_restore (h : (port L).Shared s t) (hparked : (port L).Parked s.core.mem (s.saved t) t)
    (hclosed : ¬ s.core.Open 0) (hpc : s.pc = L.addr r i)
    (hcode : (code L r).drop i = block (loadSp L) ++ (block pops ++ [Instr.iret])) : (port L).Settles s :=
  h.resume placed hparked hclosed hpc hcode (load_sp h)

/-! ## The routines -/

theorem tick_settles (h : (port L).Saving s t c cs high 0) (hhigh : Resumable 0 high)
    (hpc : s.pc = L.addr .tick 0) : (port L).Settles s := by
  have hcode : (code L .tick).drop 0 = block (pushes 0) ++ (code L .tick).drop 16 := rfl
  have hcode' : (code L .tick).drop 16 = block [.getsp 0] ++ (code L .tick).drop 17 := rfl
  refine h.pushes placed (by decide) hpc hcode fun s₁ h₁ hpc₁ => ?_
  refine h₁.getsp placed hpc₁ hcode' fun s₂ h₂ hr0 hpc₂ => ?_
  exact settles_save (f := .countTick) (i := 17) h₂ hhigh hr0 hpc₂ rfl

theorem yield_settles (h : (port L).Saving s t c cs 0 2) (hpc : s.pc = L.addr .yield 3) :
    (port L).Settles s := by
  have hcode : (code L .yield).drop 3 = block (pushes 2) ++ (code L .yield).drop 17 := rfl
  have hcode' : (code L .yield).drop 17 =
    block [.getsp 0, .setr 1 0x80, .stidx32 1 0 132] ++ (code L .yield).drop 20 := rfl
  refine h.pushes placed (by decide) hpc hcode fun s₁ h₁ hpc₁ => ?_
  refine h₁.patch placed hpc₁ hcode' fun s₂ h₂ hr0 hpc₂ => ?_
  exact settles_save (f := .chooseTask) (i := 20) h₂ ⟨rfl, rfl⟩ hr0 hpc₂ rfl

omit [DecidableEq T] in
theorem restore_no_call {f : Fn} : (block (loadSp L) ++ (block pops ++ [Instr.iret]))[i]? ≠ some (.call f) := by
  intro h
  obtain ⟨k₁, -, h₁⟩ := call_of_append h
  obtain ⟨k₂, -, h₂⟩ := call_of_append h₁
  cases k₂ with
  | zero => cases h₂
  | succ k => cases h₂

omit [DecidableEq T] in
theorem call_index {f : Fn} (h : (code L r)[i]? = some (.call f)) :
    (r = .tick ∧ (i = 24 ∨ i = 27)) ∨ (r = .yield ∧ i = 27) := by
  cases r with
  | tick =>
    have hcode : code L .tick = block (pushes 0 ++ [.getsp 0] ++ saveSp L) ++ (Instr.call .countTick ::
      (block [.cmprv 12 0] ++ (Instr.jmpe 28 :: .call .chooseTask ::
      (block (loadSp L) ++ (block pops ++ [Instr.iret]))))) := rfl
    rw [hcode] at h
    obtain ⟨k₁, rfl, h₁⟩ := call_of_append h
    match k₁, h₁ with
    | 0, _ => exact .inl ⟨rfl, .inl rfl⟩
    | k₁ + 1, h₁ =>
      obtain ⟨k₂, rfl, h₂⟩ := call_of_append h₁
      obtain ⟨k₃, rfl, h₃⟩ := call_of_jmpe h₂
      match k₃, h₃ with
      | 0, _ => exact .inl ⟨rfl, .inr rfl⟩
      | _ + 1, h₃ => exact absurd h₃ restore_no_call
  | yield =>
    have hcode : code L .yield = block ([.push 0, .push 1, .di 0] ++ pushes 2 ++
      [.getsp 0, .setr 1 0x80, .stidx32 1 0 132] ++ saveSp L) ++ (Instr.call .chooseTask ::
      (block (loadSp L) ++ (block pops ++ [Instr.iret]))) := rfl
    rw [hcode] at h
    obtain ⟨k₁, rfl, h₁⟩ := call_of_append h
    match k₁, h₁ with
    | 0, _ => exact .inr ⟨rfl, rfl⟩
    | _ + 1, h₁ => exact absurd h₁ restore_no_call
  | first =>
    have hcode : code L .first = block (loadSp L ++ pops ++
      [.setr 13 (intMask.setWidth 64), .setr 14 1, .memset32 14 13]) ++ [Instr.iret] := rfl
    rw [hcode] at h
    obtain ⟨k₁, rfl, h₁⟩ := call_of_append h
    match k₁, h₁ with
    | 0, h₁ => cases h₁
    | _ + 1, h₁ => cases h₁

/-- What `xTaskIncrementTick` returns decides whether the scheduler is asked for a task. -/
theorem counted_settles (h : (port L).Shared s t) (hparked : (port L).Parked s.core.mem (s.saved t) t)
    (htop : s.core.sp = L.kernelTop) (hclosed : ¬ s.core.Open 0) (hpc : s.pc = L.addr .tick 25) :
    (port L).Settles s := by
  have hquiet := h.quiet_since placed hclosed
  have hcode : (code L .tick).drop 25 = block [.cmprv 12 0] ++ (code L .tick).drop 26 := rfl
  have hcompare : Safely Core.exec (Since s.core fun _ => False)
      (fun y => y = Core.exec (.cmprv 12 0) s.core) [.cmprv 12 0] s.core := ⟨Since.refl .., rfl⟩
  refine Cpu.Port.Settles.plain hpc hcode hcompare hquiet fun core hcore => ?_
  have hsince : Since s.core (fun _ => False) core := hcore ▸ ⟨rfl, rfl, fun _ _ => rfl⟩
  have hmem : core.mem = s.core.mem := funext fun a => hsince.mem a id
  have hsp : core.sp = L.kernelTop := hcore ▸ htop
  obtain ⟨hshared, hclosed'⟩ := hquiet core (L.addr .tick 26) hsince
  refine Cpu.Port.Settles.jmpe hshared hclosed' (r := .tick) (i := 26) rfl rfl ?_
  cases hequal : core.equal with
  | true =>
    obtain ⟨hshared, hclosed'⟩ := hquiet core (L.addr .tick 28) hsince
    exact settles_restore hshared (hmem ▸ hparked) hclosed' rfl rfl
  | false =>
    obtain ⟨hshared, hclosed'⟩ := hquiet core (L.addr .tick 27) hsince
    exact .arrived (.inr ⟨t, .chooseTask, .tick, 27, hshared, hmem ▸ hparked, hsp, hclosed',
      Program.fetch_addr rfl⟩)

theorem call_settles {f : Fn} (h : (port L).Shared s t)
    (hparked : (port L).Parked s.core.mem (s.saved t) t) (htop : s.core.sp = L.kernelTop)
    (hclosed : ¬ s.core.Open 0) (hcall : (code L r)[i]? = some (.call f)) (hpc : s.pc = L.addr r (i + 1)) :
    (port L).Settles s := by
  rcases call_index hcall with ⟨rfl, rfl | rfl⟩ | ⟨rfl, rfl⟩
  · exact counted_settles h hparked htop hclosed hpc
  · exact settles_restore h hparked hclosed hpc rfl
  · exact settles_restore h hparked hclosed hpc rfl

theorem first_settles (h : (port L).Shared s t) (hsaved : s.saved t = [c.clobber])
    (hwords : Words s.core.mem c.sp (frame c high)) (hhigh : Resumable 0 high)
    (hhandle : (port L).handle s.core.mem t = below c.sp 136) (hown : L.decode c.pc = none)
    (hmask : s.core.mask.getLsbD 0 = false) (hpc : s.pc = L.addr .first 0) : (port L).Settles s := by
  have hcode : code L .first = block (loadSp L) ++ (block pops ++
    (block [.setr 13 (intMask.setWidth 64), .setr 14 1, .memset32 14 13] ++ [Instr.iret])) := rfl
  exact h.first placed hsaved hwords hhigh hhandle hown hmask hpc hcode (load_sp h)

theorem verified : (port L).Verified where
  toPlaced := placed
  yield_code := ⟨_, rfl⟩
  first_code := ⟨_, rfl⟩
  tick_settles := tick_settles
  yield_settles := yield_settles
  call_settles := call_settles
  first_settles := first_settles

/-! ## Parameters -/

/-- Switches are transparent, and a new task finds its parameter in `R0`. -/
structure Transparent (s : Sys T (Start L)) : Prop extends (port L).Transparent s where
  parameter : ∀ t b c r i, (port L).fetch s.pc = some (.iret, r, i) → s.cur = some t → s.saved t = [c] →
    s.fresh t = some b → c.regs 0 = b.pvParameters

/-- **The context switches of the port are transparent**, and a task starts with its parameter where that fits
in 32 bits. -/
theorem transparent_of_small {core : Core} {pc : Address} (hpc : L.decode pc = none)
    (hreach : Reaches (port L).step (port L).Sound (Cpu.Port.init core pc) s)
    (hsmall : ∀ t b, s.fresh t = some b → b.pvParameters.toNat < 2 ^ 32) : Transparent s := by
  have hport : (port L).Transparent s := Cpu.Port.transparent_of_reaches verified hpc hreach
  refine ⟨hport, fun t b c r i hiret hcur hsaved hfresh => ?_⟩
  obtain ⟨hnew, -⟩ := hport.starts t b c r i hiret hcur hsaved hfresh
  have hlt := hsmall t b hfresh
  calc c.regs 0 = (firstContext L t b).regs 0 := hnew.regs 0 (by decide) (by decide)
    _ = (b.pvParameters.setWidth 32).setWidth 64 := firstContext_parameter t b
    _ = b.pvParameters := by
      refine BitVec.eq_of_toNat_eq ?_
      simp only [BitVec.toNat_setWidth]
      omega

/-! ## Two tasks -/

def pair : Layout Bool where
  addr := Pair.addr
  decode := Pair.decode
  owner := Pair.owner
  pxCurrentTCB := 0x1000
  gFreertosKernelSp := 0x1008
  tcb := Pair.tcb
  top := Pair.top
  kernelTop := 0x19000
  configTaskReturnAddress := 0x800
  decode_addr r i hi := Pair.decode_addr r i (hi.trans_le (by cases r <;> decide))
  owner_current := ⟨rfl, rfl⟩
  owner_tcb t := by cases t <;> exact ⟨rfl, rfl⟩
  owner_stack t a := fun ⟨k, hpos, hk, ha⟩ => Pair.owner_stack t a ⟨k, hpos, hk.trans (by decide), ha⟩
  owner_kernelSp := Pair.owner_kernelSp
  owner_kernelStack a := fun ⟨k, hpos, hk, ha⟩ =>
    Pair.owner_kernelStack a ⟨k, hpos, hk.trans (by decide), ha⟩

/-- Both tasks are made, with the same parameter… -/
def pairMade (w : BitVec 64) : Sys Bool (Start pair) :=
  (port pair).made ((port pair).made (Cpu.Port.init Pair.boot 0x900) false ⟨0x904, w, rfl⟩) true ⟨0x908, w, rfl⟩

/-- …and the first of them is started. -/
def pairStart (w : BitVec 64) : Core :=
  { (pairMade w).core with
    mem := ((pairMade w).core.mem.store64 0x1000 0x1010).store32 0x1008 0x19000 }

def pairStarted (w : BitVec 64) : Sys Bool (Start pair) :=
  { pairMade w with
    core := pairStart w
    pc := pair.addr .first 0
    cur := some false
    saved := update (pairMade w).saved false (((pairMade w).saved false).map Ctx.clobber) }

theorem reaches_pairStarted (w : BitVec 64) :
    Reaches (port pair).step (port pair).Sound (Cpu.Port.init Pair.boot 0x900) (pairStarted w) := by
  have hmade : Reaches (port pair).step (port pair).Sound (Cpu.Port.init Pair.boot 0x900) (pairMade w) :=
    (Reaches.refl.snoc (a := .create false ⟨0x904, w, rfl⟩) trivial rfl).snoc
      (a := .create true ⟨0x908, w, rfl⟩) trivial rfl
  have hcurrent : (pairStart w).mem.load64 0x1000 = (Pair.tcb false).setWidth 64 := by
    change Cells.load64 (Cells.store32 _ 0x1008 0x19000) 0x1000 = _
    rw [Cells.load64_congr (Cells.store32_apply _ (by decide)) (Cells.store32_apply _ (by decide)),
      Cells.load64_store64]
    rfl
  have hkernel : (pairStart w).mem 0x1008 = 0x19000 := by
    simp only [pairStart, Cells.store32_same]
  have hmask : (pairStart w).mask.getLsbD 0 = false := (by decide : (0 : BitVec 4).getLsbD 0 = false)
  refine hmade.snoc (a := .start false (pairStart w)) ⟨hmask, fun a ha => ?_, hcurrent, hkernel⟩ rfl
  have hne : ∀ {p}, Pair.owner p = .current ∨ Pair.owner p = .kernelSp → a ≠ p := by
    rintro p hp rfl
    exact ha (hp.imp_right .inl)
  exact (Cells.store32_apply _ (hne (.inr rfl))).trans
    (Cells.store64_apply _ (hne (.inl rfl)) (hne (.inl rfl)))

/-- The first task runs, and yields… -/
def pairRunning : Sys Bool (Start pair) :=
  ((port pair).execs 24 (pairStarted 0x2a)).get (by decide +kernel)

def pairYielded : Sys Bool (Start pair) :=
  { pairRunning with
    core := pairRunning.core.pushWord (0#32 ++ 0x90c#32)
    pc := pair.addr .yield 0
    saved := update pairRunning.saved false
      (pairRunning.core.ctx 0x90c :: pairRunning.saved false) }

def pairAsking : Sys Bool (Start pair) := ((port pair).execs 27 pairYielded).get (by decide +kernel)

/-- …and the kernel chooses the other one. -/
def pairChosen : Sys Bool (Start pair) :=
  { pairAsking with
    core := { pairAsking.core with mem := pairAsking.core.mem.store64 0x1000 0x1018 }
    pc := pair.addr .yield 28
    cur := some true }

def pairSwitched : Sys Bool (Start pair) := ((port pair).execs 20 pairChosen).get (by decide +kernel)

theorem reaches_pairYielded : Reaches (port pair).step (port pair).Sound (pairStarted 0x2a) pairYielded := by
  have hrunning : Reaches (port pair).step (port pair).Sound (pairStarted 0x2a) pairRunning :=
    Cpu.Port.reaches_execs (Option.some_get _).symm
  have hcur : pairRunning.cur = some false := by decide +kernel
  have hown : (port pair).decode pairRunning.pc = none := by decide +kernel
  have hsp : pairRunning.core.sp = below (pair.top false) 16 := by decide +kernel
  have hroom := Cpu.Port.room_of_top (P := port pair) (pair.owner_stack false) hcur hsp (by decide)
  exact hrunning.trans (Cpu.Port.reaches_yield hcur hown hroom rfl)

theorem reaches_pairChosen : Reaches (port pair).step (port pair).Sound pairYielded pairChosen := by
  have hasking : Reaches (port pair).step (port pair).Sound pairYielded pairAsking :=
    Cpu.Port.reaches_execs (Option.some_get _).symm
  have hpc : pairAsking.pc = (port pair).addr .yield 27 := by decide +kernel
  have hfetch : (port pair).fetch pairAsking.pc = some (.call .chooseTask, .yield, 27) :=
    hpc ▸ Program.fetch_addr rfl
  have hother : ∀ a, (port pair).owner a ≠ .current →
      pairAsking.core.mem.store64 0x1000 0x1018 a = pairAsking.core.mem a := fun a ha => by
    refine Cells.store64_apply _ ?_ ?_
    · rintro rfl
      exact ha rfl
    · rintro rfl
      exact ha rfl
  have hcurrent : (port pair).current (pairAsking.core.mem.store64 0x1000 0x1018) true :=
    Cells.load64_store64 _
  exact hasking.trans (Cpu.Port.reaches_kernel hfetch (by decide +kernel) hother hcurrent)

theorem transparent_of_small_pair : ∃ s : Sys Bool (Start pair),
    Reaches (port pair).step (port pair).Sound (Cpu.Port.init Pair.boot 0x900) s ∧
      s.pc = pair.addr .yield 48 ∧ s.cur = some true ∧ (s.saved false).length = 1 ∧
      s.core.regs 0 = 0x2a ∧ Transparent s := by
  have hreach : Reaches (port pair).step (port pair).Sound (Cpu.Port.init Pair.boot 0x900) pairSwitched :=
    (reaches_pairStarted 0x2a).trans (reaches_pairYielded.trans (reaches_pairChosen.trans
      (Cpu.Port.reaches_execs (Option.some_get _).symm)))
  have hfresh : ∀ t, (pairSwitched.fresh t).all (fun b => decide (b.pvParameters.toNat < 2 ^ 32)) = true := by
    decide +kernel
  have hsmall : ∀ t b, pairSwitched.fresh t = some b → b.pvParameters.toNat < 2 ^ 32 := fun t b hb => by
    have hall := hfresh t
    rw [hb] at hall
    exact of_decide_eq_true hall
  exact ⟨pairSwitched, hreach, by decide +kernel, by decide +kernel, by decide +kernel, by decide +kernel,
    transparent_of_small rfl hreach hsmall⟩

theorem execs_pairLarge : ((port pair).execs 23 (pairStarted 0x100000001)).isSome := by decide +kernel

/-- **The parameter of a task loses its high half**: a task made with `0x100000001` starts with 1. -/
theorem not_forall_transparent : ¬ ∀ s : Sys Bool (Start pair),
    Reaches (port pair).step (port pair).Sound (Cpu.Port.init Pair.boot 0x900) s → Transparent s := by
  intro h
  have hrun : Reaches (port pair).step (port pair).Sound (pairStarted 0x100000001)
      (((port pair).execs 23 (pairStarted 0x100000001)).get execs_pairLarge) :=
    Cpu.Port.reaches_execs (Option.some_get _).symm
  have htransparent := h _ ((reaches_pairStarted 0x100000001).trans hrun)
  generalize hs : ((port pair).execs 23 (pairStarted 0x100000001)).get execs_pairLarge = s at htransparent
  have hpc : s.pc = (port pair).addr .first 23 := by
    rw [← hs]
    decide +kernel
  have hcur : s.cur = some false := by
    rw [← hs]
    decide +kernel
  have hregs : (s.saved false).map (fun c => c.regs 0) = [1] := by
    rw [← hs]
    decide +kernel
  have hfresh : (s.fresh false).map Start.pvParameters = some 0x100000001 := by
    rw [← hs]
    decide +kernel
  obtain ⟨c, hsaved, hc⟩ := List.map_eq_singleton_iff.mp hregs
  obtain ⟨b, hb, hparam⟩ := Option.map_eq_some_iff.mp hfresh
  have hr0 := htransparent.parameter false b c .first 23 (hpc ▸ Program.fetch_addr rfl) hcur hsaved hb
  rw [hparam, hc] at hr0
  cases hr0

end KlaussRuntime.Freertos.Switch
