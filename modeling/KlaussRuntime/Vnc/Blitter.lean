import KlaussRuntime.Machinery.Machine
import Mathlib.Tactic

/-!
# Vnc/Blitter — one blitter engine and its two users

The display driver and the VNC sender both copy with the 2D DMA engine.  `send_rect` blits
synchronously: it holds `fb_lock` from the first register to the acknowledgement.  `vncd_write` only
starts a blit, under `vncd_async_lock` and `fb_lock`, and gives both up; the blit is retired later by
`vncd_blit_fence`, in the next write or in the delayed work, under `vncd_async_lock` alone.

A `Sys` is the engine, the two locks, the driver's `in_flight` flag, and where the rendering thread, the
work queue and the VNC thread stand.  Every register access is a step, and the engine finishes whenever
it likes.  Whose blit is outstanding can be read off the program counters (`Sys.expected`); where the
VNC thread takes `fb_lock` for a blit only while none is in flight, the engine agrees with them
(`Inv.step`).
-/

namespace KlaussRuntime.Vnc.Blitter

open Machinery

/-! ## The engine -/

inductive User where
  | display
  | vnc
deriving DecidableEq

/-- The operand registers, in the order both users write them. -/
inductive Reg where
  | dstAddr
  | dstStride
  | srcAddr
  | srcStride
  | width
  | height
deriving DecidableEq

def Reg.all : List Reg := [.dstAddr, .dstStride, .srcAddr, .srcStride, .width, .height]

/-- The operands of a blit. -/
abbrev Job := Reg → BitVec 32

structure Engine where
  regs : Job
  /-- BUSY, and whose blit it is -/
  running : Option User
  /-- DONE, and whose blit it was -/
  done : Option User

namespace Engine

def busy (e : Engine) : Bool := e.running.isSome

def program (e : Engine) (r : Reg) (v : BitVec 32) : Engine :=
  { e with regs := fun r' => if r' = r then v else e.regs r' }

/-- `BLIT_CTRL = START`. -/
def start (e : Engine) (u : User) : Engine := { e with running := some u }

/-- `BLIT_STATUS = DONE`, write one to clear. -/
def ack (e : Engine) : Engine := { e with done := none }

/-- The blit is through. -/
def finish (e : Engine) : Engine := { e with running := none, done := e.running }

/-- Whose blit is outstanding, running or not acknowledged yet. -/
def owner (e : Engine) : Option User := e.running.or e.done

end Engine

/-! ## The threads -/

inductive Thread where
  | renderer
  | worker
  | sender
deriving DecidableEq

/-- What the threads share. -/
structure Shared where
  engine : Engine
  /-- `vncd_async.in_flight` -/
  inFlight : Bool
  /-- the holder of `vncd_async_lock` -/
  asyncLock : Option Thread
  /-- the holder of `fb_mutex` -/
  fbLock : Option Thread

/-- Where a thread is in `vncd_blit_fence`. -/
inductive FencePc where
  | lock
  /-- `while (blit_busy())` -/
  | poll
  | ack
  /-- the cache walk, up to the unlock -/
  | inval
  /-- `fb_mark_dirty`, after the unlock -/
  | markDirty
deriving DecidableEq

/-- One step of `vncd_blit_fence(force_inval)`; no program counter when it returns. -/
def fenceStep (t : Thread) (forceInval : Bool) (m : Shared) : FencePc → Option (Option FencePc × Shared)
  | .lock =>
    if m.asyncLock = none then
      if !m.inFlight && !forceInval then some (none, m)
      else some (some (if m.inFlight then .poll else .inval), { m with asyncLock := some t })
    else none
  | .poll => some (some (if m.engine.busy then .poll else .ack), m)
  | .ack => some (some .inval, { m with engine := m.engine.ack })
  | .inval =>
    some (if m.inFlight then some .markDirty else none,
      { m with inFlight := false, asyncLock := none })
  | .markDirty => if m.fbLock = none then some (none, m) else none

/-- Where the rendering thread is in `vncd_write`. -/
inductive WritePc where
  | idle
  /-- in `vncd_blit_fence(true)` -/
  | fence (pc : FencePc) (job : Job)
  | lockAsync (job : Job)
  | lockFb (job : Job)
  /-- these registers are left to write, then START -/
  | program (left : List Reg) (job : Job)
  /-- the flag is set and both locks are given up -/
  | record
  | schedule

/-- Where the work queue is. -/
inductive WorkPc where
  | idle
  /-- in `vncd_blit_fence(false)` -/
  | fence (pc : FencePc)

/-- Where the VNC thread is in the blitter path of `send_rect`. -/
inductive SendPc where
  | idle
  | lockFb (job : Job)
  | program (left : List Reg) (job : Job)
  /-- `while (blit_busy())` -/
  | poll
  /-- `blit_finish`, then `fb_unlock` -/
  | finish

structure Sys where
  shared : Shared
  renderer : WritePc
  worker : WorkPc
  sender : SendPc
  /-- the delayed work is scheduled -/
  scheduled : Bool

/-- A step of the system. -/
inductive Act where
  /-- `vncd_write` is called, for this blit -/
  | write (job : Job)
  | render
  /-- the delayed work comes up -/
  | fire
  | work
  /-- `send_rect` comes to a batch it blits -/
  | send (job : Job)
  | sendStep
  /-- the engine is through with its blit -/
  | done

def renderStep (s : Sys) : Option Sys :=
  match s.renderer with
  | .idle => none
  | .fence pc job => (fenceStep .renderer true s.shared pc).map fun (pc', m) =>
      { s with shared := m, renderer := pc'.elim (.lockAsync job) (.fence · job) }
  | .lockAsync job =>
    if s.shared.asyncLock = none then
      some { s with shared := { s.shared with asyncLock := some .renderer }, renderer := .lockFb job }
    else none
  | .lockFb job =>
    if s.shared.fbLock = none then
      some { s with
        shared := { s.shared with fbLock := some .renderer }, renderer := .program Reg.all job }
    else none
  | .program (r :: left) job => some { s with
      shared := { s.shared with engine := s.shared.engine.program r (job r) }
      renderer := .program left job }
  | .program [] _ => some { s with
      shared := { s.shared with engine := s.shared.engine.start .display }, renderer := .record }
  | .record => some { s with
      shared := { s.shared with inFlight := true, asyncLock := none, fbLock := none }
      renderer := .schedule }
  | .schedule => some { s with renderer := .idle, scheduled := true }

def workStep (s : Sys) : Option Sys :=
  match s.worker with
  | .idle => none
  | .fence pc => (fenceStep .worker false s.shared pc).map fun (pc', m) =>
      { s with shared := m, worker := pc'.elim .idle .fence }

def sendStep (s : Sys) : Option Sys :=
  match s.sender with
  | .idle => none
  | .lockFb job =>
    if s.shared.fbLock = none then
      some { s with
        shared := { s.shared with fbLock := some .sender }, sender := .program Reg.all job }
    else none
  | .program (r :: left) job => some { s with
      shared := { s.shared with engine := s.shared.engine.program r (job r) }
      sender := .program left job }
  | .program [] _ => some { s with
      shared := { s.shared with engine := s.shared.engine.start .vnc }, sender := .poll }
  | .poll => some { s with sender := if s.shared.engine.busy then .poll else .finish }
  | .finish => some { s with
      shared := { s.shared with engine := s.shared.engine.ack, fbLock := none }, sender := .idle }

def step (s : Sys) : Act → Option Sys
  | .write job =>
    match s.renderer with
    | .idle => some { s with renderer := .fence .lock job }
    | _ => none
  | .render => renderStep s
  | .fire =>
    match s.worker with
    | .idle => if s.scheduled then some { s with worker := .fence .lock, scheduled := false } else none
    | _ => none
  | .work => workStep s
  | .send job =>
    match s.sender with
    | .idle => some { s with sender := .lockFb job }
    | _ => none
  | .sendStep => sendStep s
  | .done =>
    if s.shared.engine.busy then
      some { s with shared := { s.shared with engine := s.shared.engine.finish } }
    else none

/-- Nothing has been blitted yet. -/
def Sys.init : Sys :=
  ⟨⟨⟨fun _ => 0, none, none⟩, false, none, none⟩, .idle, .idle, .idle, false⟩

/-! ## Accesses -/

/-- What a step does with the engine. -/
inductive Access where
  | program
  | start
  | poll
  | ack
deriving DecidableEq

def FencePc.access : FencePc → Option Access
  | .poll => some .poll
  | .ack => some .ack
  | _ => none

def WritePc.access : WritePc → Option Access
  | .fence pc _ => pc.access
  | .program [] _ => some .start
  | .program (_ :: _) _ => some .program
  | _ => none

def WorkPc.access : WorkPc → Option Access
  | .fence pc => pc.access
  | _ => none

def SendPc.access : SendPc → Option Access
  | .program [] _ => some .start
  | .program (_ :: _) _ => some .program
  | .poll => some .poll
  | .finish => some .ack
  | _ => none

/-- The access a step makes, and for whom. -/
def Sys.access (s : Sys) : Act → Option (User × Access)
  | .render => s.renderer.access.map (.display, ·)
  | .work => s.worker.access.map (.display, ·)
  | .sendStep => s.sender.access.map (.vnc, ·)
  | _ => none

/-- **The engine is the user's**: registers are written while nothing runs, and a user waits for and
acknowledges only its own blit. -/
def Engine.Exclusive (e : Engine) (u : User) : Access → Prop
  | .program | .start => e.running = none
  | .poll => e.running = some u ∨ e.running = none ∧ e.done = some u
  | .ack => e.running = none ∧ e.done = some u

instance (e : Engine) (u : User) : DecidablePred (e.Exclusive u)
  | .program | .start => inferInstanceAs (Decidable (e.running = none))
  | .poll => inferInstanceAs (Decidable (_ ∨ _ ∧ _))
  | .ack => inferInstanceAs (Decidable (_ ∧ _))

/-- The VNC thread is about to take `fb_lock` for a blit. -/
def SendPc.locking : SendPc → Bool
  | .lockFb _ => true
  | _ => false

/-- The VNC thread takes `fb_lock` for a blit only while no display blit is in flight. -/
def SenderYields (s : Sys) : Act → Prop
  | .sendStep => s.sender.locking = true → s.shared.inFlight = false
  | _ => True

instance (s : Sys) : DecidablePred (SenderYields s)
  | .sendStep => inferInstanceAs (Decidable (_ → _))
  | .write _ | .render | .fire | .work | .send _ | .done => .isTrue trivial

/-! ## Who holds what

The invariant sees the threads only through these flags, so a step that changes none of them keeps it as
it stands. -/

def FencePc.holds : FencePc → Bool
  | .poll | .ack | .inval => true
  | .lock | .markDirty => false

/-- The fence waits for the blit in flight, or is about to acknowledge it. -/
def FencePc.fencing : FencePc → Bool
  | .poll | .ack => true
  | _ => false

def FencePc.acking : FencePc → Bool
  | .ack => true
  | _ => false

/-- The fence has acknowledged the blit in flight and not cleared the flag yet. -/
def FencePc.retiring : FencePc → Bool
  | .inval => true
  | _ => false

/-- A flag of the fence the rendering thread is in. -/
def WritePc.inFence (f : FencePc → Bool) : WritePc → Bool
  | .fence pc _ => f pc
  | _ => false

def WorkPc.inFence (f : FencePc → Bool) : WorkPc → Bool
  | .fence pc => f pc
  | .idle => false

def WritePc.holdsAsync : WritePc → Bool
  | .fence pc _ => pc.holds
  | .lockFb _ | .program _ _ | .record => true
  | _ => false

def WritePc.holdsFb : WritePc → Bool
  | .program _ _ | .record => true
  | _ => false

def SendPc.holdsFb : SendPc → Bool
  | .program _ _ | .poll | .finish => true
  | _ => false

/-- The rendering thread has retired the last blit and not started the next. -/
def WritePc.settled : WritePc → Bool
  | .fence .markDirty _ | .lockAsync _ | .lockFb _ | .program _ _ => true
  | _ => false

/-- START is written and the flag is not set yet. -/
def WritePc.recording : WritePc → Bool
  | .record => true
  | _ => false

/-- The VNC thread's blit is outstanding. -/
def SendPc.waits : SendPc → Bool
  | .poll | .finish => true
  | _ => false

def SendPc.finishing : SendPc → Bool
  | .finish => true
  | _ => false

def Sys.retired (s : Sys) : Bool :=
  s.renderer.inFence FencePc.retiring || s.worker.inFence FencePc.retiring

/-- Whose blit is outstanding, by where the threads stand. -/
def Sys.expected (s : Sys) : Option User :=
  if s.sender.waits then some .vnc
  else if s.renderer.recording || s.shared.inFlight && !s.retired then some .display
  else none

structure Inv (s : Sys) : Prop where
  asyncRenderer : s.shared.asyncLock = some .renderer ↔ s.renderer.holdsAsync = true
  asyncWorker : s.shared.asyncLock = some .worker ↔ s.worker.inFence FencePc.holds = true
  fbRenderer : s.shared.fbLock = some .renderer ↔ s.renderer.holdsFb = true
  fbSender : s.shared.fbLock = some .sender ↔ s.sender.holdsFb = true
  settled : s.renderer.settled = true → s.shared.inFlight = false
  yields : s.sender.holdsFb = true → s.shared.inFlight = false
  flagged : s.renderer.inFence FencePc.fencing = true ∨ s.worker.inFence FencePc.fencing = true →
    s.shared.inFlight = true
  through : s.renderer.inFence FencePc.acking = true ∨ s.worker.inFence FencePc.acking = true ∨
    s.sender.finishing = true → s.shared.engine.running = none
  single : s.shared.engine.running ≠ none → s.shared.engine.done = none
  owner : s.shared.engine.owner = s.expected

theorem Inv.init : Inv Sys.init := by
  constructor <;> simp [Sys.init, WritePc.holdsAsync, WorkPc.inFence, WritePc.holdsFb, SendPc.holdsFb,
    WritePc.settled, WritePc.inFence, Engine.owner, Sys.expected, SendPc.waits, WritePc.recording,
    SendPc.finishing]

variable {s s' : Sys} {a : Act}

/-! ## What the invariant says -/

namespace Engine

theorem owner_eq_none {e : Engine} : e.owner = none ↔ e.running = none ∧ e.done = none := by
  rw [owner, Option.or_eq_none_iff]

/-- A blit that is not running any more is the one to acknowledge. -/
theorem owner_of_not_busy {e : Engine} (h : e.running = none) : e.owner = e.done := by
  rw [owner, h, Option.none_or]

theorem owner_finish {e : Engine} (hsingle : e.running ≠ none → e.done = none) (hbusy : e.busy = true) :
    e.finish.owner = e.owner := by
  have hrunning : e.running ≠ none := by simpa [busy, Option.isSome_iff_ne_none] using hbusy
  simp [owner, finish, hsingle hrunning]

/-- The owner of the outstanding blit may wait for it, and acknowledge it once it is through. -/
theorem exclusive_poll {e : Engine} {u : User} (h : e.owner = some u) : e.Exclusive u .poll := by
  by_cases hrunning : e.running = none
  · exact .inr ⟨hrunning, owner_of_not_busy hrunning ▸ h⟩
  · obtain ⟨v, hv⟩ := Option.ne_none_iff_exists'.mp hrunning
    rw [owner, hv, Option.some_or] at h
    exact .inl (hv.trans h)

theorem exclusive_ack {e : Engine} {u : User} (h : e.owner = some u) (hidle : e.running = none) :
    e.Exclusive u .ack := ⟨hidle, owner_of_not_busy hidle ▸ h⟩

end Engine

namespace Inv

theorem sender_of_renderer (h : Inv s) (hr : s.renderer.holdsFb = true) : s.sender.holdsFb = false := by
  by_contra hs
  have hlock := h.fbSender.mpr (by simpa using hs)
  rw [h.fbRenderer.mpr hr] at hlock
  cases hlock

theorem renderer_of_sender (h : Inv s) (hs : s.sender.holdsFb = true) : s.renderer.holdsFb = false := by
  by_contra hr
  rw [h.sender_of_renderer (by simpa using hr)] at hs
  cases hs

theorem worker_of_renderer (h : Inv s) (hr : s.renderer.holdsAsync = true) :
    s.worker.inFence FencePc.holds = false := by
  by_contra hw
  have hlock := h.asyncWorker.mpr (by simpa using hw)
  rw [h.asyncRenderer.mpr hr] at hlock
  cases hlock

theorem renderer_of_worker (h : Inv s) (hw : s.worker.inFence FencePc.holds = true) :
    s.renderer.holdsAsync = false := by
  by_contra hr
  rw [h.worker_of_renderer (by simpa using hr)] at hw
  cases hw

end Inv

theorem SendPc.holdsFb_of_waits {pc : SendPc} (h : pc.waits = true) : pc.holdsFb = true := by
  cases pc <;> first | rfl | cases h

theorem SendPc.holdsFb_of_finishing {pc : SendPc} (h : pc.finishing = true) : pc.holdsFb = true := by
  cases pc <;> first | rfl | cases h

theorem SendPc.waits_false {pc : SendPc} (h : pc.holdsFb = false) : pc.waits = false :=
  Bool.eq_false_iff.mpr fun hw => by simp [SendPc.holdsFb_of_waits hw] at h

theorem WritePc.recording_false {pc : WritePc} (h : pc.holdsAsync = false) : pc.recording = false := by
  cases pc <;> first | rfl | cases h

theorem WritePc.holdsFb_of_recording {pc : WritePc} (h : pc.recording = true) : pc.holdsFb = true := by
  cases pc <;> first | rfl | cases h

theorem FencePc.fencing_of_acking {pc : FencePc} (h : pc.acking = true) : pc.fencing = true := by
  cases pc <;> first | rfl | cases h

/-- **Nothing is outstanding** where no display blit is in flight or being started, and the VNC thread is
not waiting for one. -/
theorem Inv.owner_none (h : Inv s) (hflag : s.shared.inFlight = false) (hr : s.renderer.recording = false)
    (hs : s.sender.waits = false) : s.shared.engine.running = none ∧ s.shared.engine.done = none := by
  rw [← Engine.owner_eq_none, h.owner, Sys.expected, hflag, hr, hs]
  rfl

/-- **The display's blit is outstanding** while a fence waits for it. -/
theorem Inv.owner_display (h : Inv s) (hflag : s.shared.inFlight = true)
    (hretired : s.retired = false) : s.shared.engine.owner = some .display := by
  have hs : s.sender.waits = false := by
    by_contra hs
    rw [h.yields (SendPc.holdsFb_of_waits (by simpa using hs))] at hflag
    cases hflag
  rw [h.owner, Sys.expected, hs, hflag, hretired]
  simp

theorem WritePc.inFence_mono {f g : FencePc → Bool} (hfg : ∀ pc, f pc = true → g pc = true)
    {pc : WritePc} (h : pc.inFence f = true) : pc.inFence g = true := by
  cases pc with
  | fence pc job => exact hfg pc h
  | _ => cases h

theorem WorkPc.inFence_mono {f g : FencePc → Bool} (hfg : ∀ pc, f pc = true → g pc = true)
    {pc : WorkPc} (h : pc.inFence f = true) : pc.inFence g = true := by
  cases pc with
  | fence pc => exact hfg pc h
  | idle => cases h

theorem WritePc.holdsAsync_of_inFence {pc : WritePc} (h : pc.inFence FencePc.holds = true) :
    pc.holdsAsync = true := by
  cases pc with
  | fence pc job => exact h
  | _ => cases h

theorem FencePc.holds_of_retiring (pc : FencePc) (h : pc.retiring = true) : pc.holds = true := by
  cases pc <;> first | rfl | cases h

theorem FencePc.holds_of_fencing (pc : FencePc) (h : pc.fencing = true) : pc.holds = true := by
  cases pc <;> first | rfl | cases h

namespace Inv

/-- The other thread's fence has no flag up that needs the lock. -/
theorem worker_inFence (h : Inv s) {f : FencePc → Bool} (hf : ∀ pc, f pc = true → pc.holds = true)
    (hr : s.renderer.holdsAsync = true) : s.worker.inFence f = false :=
  Bool.eq_false_iff.mpr fun hup => by
    simpa [WorkPc.inFence_mono hf hup] using h.worker_of_renderer hr

theorem renderer_inFence (h : Inv s) {f : FencePc → Bool} (hf : ∀ pc, f pc = true → pc.holds = true)
    (hw : s.worker.inFence FencePc.holds = true) : s.renderer.inFence f = false :=
  Bool.eq_false_iff.mpr fun hup => by
    simpa [WritePc.holdsAsync_of_inFence (WritePc.inFence_mono hf hup)] using h.renderer_of_worker hw

theorem not_acking (h : Inv s) (hflag : s.shared.inFlight = false) :
    ¬ (s.renderer.inFence FencePc.acking = true ∨ s.worker.inFence FencePc.acking = true) := by
  intro hor
  have hup := h.flagged (hor.imp (WritePc.inFence_mono fun _ => FencePc.fencing_of_acking)
    (WorkPc.inFence_mono fun _ => FencePc.fencing_of_acking))
  rw [hflag] at hup
  cases hup

theorem not_recording (h : Inv s) (hs : s.sender.holdsFb = true) : s.renderer.recording = false :=
  Bool.eq_false_iff.mpr fun hr => by
    simpa [WritePc.holdsFb_of_recording hr] using h.renderer_of_sender hs

theorem not_waits (h : Inv s) (hflag : s.shared.inFlight = true) : s.sender.holdsFb = false :=
  Bool.eq_false_iff.mpr fun hs => by simpa [hflag] using h.yields hs

end Inv

/-! ## One step -/

theorem Inv.done (h : Inv s) (hbusy : s.shared.engine.busy = true) :
    Inv { s with shared := { s.shared with engine := s.shared.engine.finish } } :=
  { h with
    through := fun _ => rfl
    single := fun hne => absurd rfl hne
    owner := (Engine.owner_finish h.single hbusy).trans h.owner }

/-- **The VNC thread keeps the invariant** when it takes `fb_lock` with nothing in flight. -/
theorem Inv.sendStep (h : Inv s) (hok : SenderYields s .sendStep) (hstep : Blitter.sendStep s = some s') :
    Inv s' := by
  obtain ⟨m, renderer, worker, sender, scheduled⟩ := s
  cases sender with
  | idle => cases hstep
  | lockFb job =>
    obtain ⟨hfree, ⟨⟩⟩ := Option.ite_none_right_eq_some.mp hstep
    have hr : renderer.holdsFb = false := by
      simpa [show m.fbLock = none from hfree] using h.fbRenderer
    exact { h with
      fbRenderer := by simp [hr]
      fbSender := by simp [SendPc.holdsFb]
      yields := fun _ => hok rfl }
  | program left job =>
    have hflag : m.inFlight = false := h.yields rfl
    cases left with
    | cons r left =>
      cases hstep
      exact { h with }
    | nil =>
      cases hstep
      have hnone := h.owner_none hflag (h.not_recording rfl) rfl
      exact { h with
        through := fun hor =>
          (h.not_acking hflag (hor.imp_right (Or.resolve_right · Bool.false_ne_true))).elim
        single := fun _ => hnone.2
        owner := rfl }
  | poll =>
    cases hstep
    by_cases hbusy : m.engine.busy = true
    · simp only [hbusy, if_true]
      exact h
    · simp only [hbusy, Bool.false_eq_true]
      exact { h with through := fun _ => by simpa [Engine.busy] using hbusy }
  | finish =>
    cases hstep
    have hdone : m.engine.running = none := h.through (.inr (.inr rfl))
    have hflag : m.inFlight = false := h.yields rfl
    have hr := h.not_recording rfl
    exact { h with
      fbRenderer := by simp [show renderer.holdsFb = false from h.renderer_of_sender rfl]
      fbSender := by simp [SendPc.holdsFb]
      yields := fun hup => by cases hup
      through := fun _ => hdone
      single := fun _ => rfl
      owner := by
        have hnone : m.engine.ack.owner = none := Engine.owner_eq_none.mpr ⟨hdone, rfl⟩
        simp [Sys.expected, hflag, show renderer.recording = false from hr, hnone, SendPc.waits] }

/-- **What a step of the fence does.** -/
inductive FenceMove (t : Thread) (forceInval : Bool) (m : Shared) :
    FencePc → Option FencePc → Shared → Prop
  | skip (hforce : forceInval = false) : FenceMove t forceInval m .lock none m
  | wait (hfree : m.asyncLock = none) (hflag : m.inFlight = true) :
      FenceMove t forceInval m .lock (some .poll) { m with asyncLock := some t }
  | walk (hfree : m.asyncLock = none) (hflag : m.inFlight = false) :
      FenceMove t forceInval m .lock (some .inval) { m with asyncLock := some t }
  | again : FenceMove t forceInval m .poll (some .poll) m
  | seen (hidle : m.engine.running = none) : FenceMove t forceInval m .poll (some .ack) m
  | ack : FenceMove t forceInval m .ack (some .inval) { m with engine := m.engine.ack }
  | retire : FenceMove t forceInval m .inval (some .markDirty)
      { m with inFlight := false, asyncLock := none }
  | walked : FenceMove t forceInval m .inval none { m with inFlight := false, asyncLock := none }
  | marked : FenceMove t forceInval m .markDirty none m

theorem fenceMove_of_fenceStep {t : Thread} {forceInval : Bool} {m m' : Shared} {pc : FencePc}
    {pc' : Option FencePc} (h : fenceStep t forceInval m pc = some (pc', m')) :
    FenceMove t forceInval m pc pc' m' := by
  cases pc with
  | lock =>
    simp only [fenceStep, Option.ite_none_right_eq_some] at h
    obtain ⟨hfree, h⟩ := h
    by_cases hskip : (!m.inFlight && !forceInval) = true
    · rw [if_pos hskip] at h
      cases h
      exact .skip (by simpa using (Bool.and_eq_true_iff.mp hskip).2)
    · rw [if_neg hskip] at h
      cases h
      by_cases hflag : m.inFlight = true
      · rw [if_pos hflag]
        exact .wait hfree hflag
      · rw [if_neg hflag]
        exact .walk hfree (by simpa using hflag)
  | poll =>
    cases h
    by_cases hbusy : m.engine.busy = true
    · rw [if_pos hbusy]
      exact .again
    · rw [if_neg hbusy]
      exact .seen (by simpa [Engine.busy] using hbusy)
  | ack =>
    cases h
    exact .ack
  | inval =>
    cases h
    cases m.inFlight
    · exact .walked
    · exact .retire
  | markDirty =>
    obtain ⟨-, ⟨⟩⟩ := Option.ite_none_right_eq_some.mp h
    exact .marked

/-- The rendering thread clears the flag and gives the lock up. -/
theorem Inv.renderRetired {m : Shared} {worker : WorkPc} {sender : SendPc} {scheduled : Bool}
    {renderer : WritePc} {job : Job} (h : Inv ⟨m, .fence .inval job, worker, sender, scheduled⟩)
    (hout : renderer = .fence .markDirty job ∨ renderer = .lockAsync job) :
    Inv ⟨{ m with inFlight := false, asyncLock := none }, renderer, worker, sender, scheduled⟩ := by
  have hw : worker.inFence FencePc.holds = false := h.worker_of_renderer rfl
  have hfencing : worker.inFence FencePc.fencing = false := h.worker_inFence FencePc.holds_of_fencing rfl
  have hkeep : Inv ⟨{ m with inFlight := false, asyncLock := none }, .lockAsync job, worker, sender,
      scheduled⟩ :=
    { h with
      asyncRenderer := by simp [WritePc.holdsAsync]
      asyncWorker := by simp [hw]
      settled := fun _ => rfl
      yields := fun _ => rfl
      flagged := fun hor => by simp [WritePc.inFence, hfencing] at hor
      owner := h.owner.trans
        (by simp [Sys.expected, Sys.retired, WritePc.inFence, FencePc.retiring, WritePc.recording]) }
  obtain rfl | rfl := hout
  · exact { hkeep with }
  · exact hkeep

theorem Inv.renderFence {m m' : Shared} {worker : WorkPc} {sender : SendPc} {scheduled : Bool}
    {pc : FencePc} {pc' : Option FencePc} {job : Job}
    (h : Inv ⟨m, .fence pc job, worker, sender, scheduled⟩) (hmove : FenceMove .renderer true m pc pc' m') :
    Inv ⟨m', pc'.elim (.lockAsync job) (.fence · job), worker, sender, scheduled⟩ := by
  cases hmove with
  | skip hforce => cases hforce
  | wait hfree hflag =>
    have hw : worker.inFence FencePc.holds = false := by simpa [hfree] using h.asyncWorker
    exact { h with
      asyncRenderer := by simp [WritePc.holdsAsync, FencePc.holds]
      asyncWorker := by simp [hw]
      settled := fun hup => by cases hup
      flagged := fun _ => hflag }
  | walk hfree hflag =>
    have hw : worker.inFence FencePc.holds = false := by simpa [hfree] using h.asyncWorker
    exact { h with
      asyncRenderer := by simp [WritePc.holdsAsync, FencePc.holds]
      asyncWorker := by simp [hw]
      settled := fun hup => by cases hup
      owner := h.owner.trans (by simp [Sys.expected, hflag, WritePc.recording]) }
  | again => exact h
  | seen hidle => exact { h with through := fun _ => hidle }
  | ack =>
    have hflag : m.inFlight = true := h.flagged (.inl rfl)
    have hidle : m.engine.running = none := h.through (.inl rfl)
    have hw : sender.waits = false := SendPc.waits_false (h.not_waits hflag)
    have hnone : m.engine.ack.owner = none := Engine.owner_eq_none.mpr ⟨hidle, rfl⟩
    exact { h with
      flagged := fun _ => hflag
      through := fun _ => hidle
      single := fun _ => rfl
      owner := by
        simp [Sys.expected, hnone, hw, Sys.retired, WritePc.inFence, FencePc.retiring, WritePc.recording] }
  | retire => exact h.renderRetired (.inl rfl)
  | walked => exact h.renderRetired (.inr rfl)
  | marked => exact { h with }

theorem Inv.workRetired {m : Shared} {renderer : WritePc} {sender : SendPc} {scheduled : Bool}
    {worker : WorkPc} (h : Inv ⟨m, renderer, .fence .inval, sender, scheduled⟩)
    (hout : worker = .fence .markDirty ∨ worker = .idle) :
    Inv ⟨{ m with inFlight := false, asyncLock := none }, renderer, worker, sender, scheduled⟩ := by
  have hr : renderer.holdsAsync = false := h.renderer_of_worker rfl
  have hfencing : renderer.inFence FencePc.fencing = false :=
    h.renderer_inFence FencePc.holds_of_fencing rfl
  have hkeep : Inv ⟨{ m with inFlight := false, asyncLock := none }, renderer, .idle, sender, scheduled⟩ :=
    { h with
      asyncRenderer := by simp [hr]
      asyncWorker := by simp [WorkPc.inFence]
      settled := fun _ => rfl
      yields := fun _ => rfl
      flagged := fun hor => by simp [WorkPc.inFence, hfencing] at hor
      owner := h.owner.trans (by simp [Sys.expected, Sys.retired, WorkPc.inFence, FencePc.retiring]) }
  obtain rfl | rfl := hout
  · exact { hkeep with }
  · exact hkeep

theorem Inv.workFence {m m' : Shared} {renderer : WritePc} {sender : SendPc} {scheduled : Bool}
    {pc : FencePc} {pc' : Option FencePc} (h : Inv ⟨m, renderer, .fence pc, sender, scheduled⟩)
    (hmove : FenceMove .worker false m pc pc' m') :
    Inv ⟨m', renderer, pc'.elim .idle .fence, sender, scheduled⟩ := by
  cases hmove with
  | skip hforce => exact { h with }
  | wait hfree hflag =>
    have hr : renderer.holdsAsync = false := by simpa [hfree] using h.asyncRenderer
    exact { h with
      asyncRenderer := by simp [hr]
      asyncWorker := by simp [WorkPc.inFence, FencePc.holds]
      flagged := fun _ => hflag }
  | walk hfree hflag =>
    have hr : renderer.holdsAsync = false := by simpa [hfree] using h.asyncRenderer
    exact { h with
      asyncRenderer := by simp [hr]
      asyncWorker := by simp [WorkPc.inFence, FencePc.holds]
      owner := h.owner.trans (by simp [Sys.expected, hflag]) }
  | again => exact h
  | seen hidle => exact { h with through := fun _ => hidle }
  | ack =>
    have hflag : m.inFlight = true := h.flagged (.inr rfl)
    have hidle : m.engine.running = none := h.through (.inr (.inl rfl))
    have hs := h.not_waits hflag
    have hr := h.renderer_of_worker rfl
    have hnone : m.engine.ack.owner = none := Engine.owner_eq_none.mpr ⟨hidle, rfl⟩
    exact { h with
      flagged := fun _ => hflag
      through := fun _ => hidle
      single := fun _ => rfl
      owner := by
        simp [Sys.expected, hnone, SendPc.waits_false hs, Sys.retired, WorkPc.inFence,
          FencePc.retiring, WritePc.recording_false hr] }
  | retire => exact h.workRetired (.inl rfl)
  | walked => exact h.workRetired (.inr rfl)
  | marked => exact { h with }

/-- **The rendering thread keeps the invariant.** -/
theorem Inv.renderStep (h : Inv s) (hstep : Blitter.renderStep s = some s') : Inv s' := by
  obtain ⟨m, renderer, worker, sender, scheduled⟩ := s
  cases renderer with
  | idle => cases hstep
  | fence pc job =>
    obtain ⟨⟨pc', m'⟩, hfence, rfl⟩ := Option.map_eq_some_iff.mp hstep
    exact h.renderFence (fenceMove_of_fenceStep hfence)
  | lockAsync job =>
    obtain ⟨hfree, ⟨⟩⟩ := Option.ite_none_right_eq_some.mp hstep
    have hw : worker.inFence FencePc.holds = false := by
      simpa [show m.asyncLock = none from hfree] using h.asyncWorker
    exact { h with
      asyncRenderer := by simp [WritePc.holdsAsync]
      asyncWorker := by simp [hw] }
  | lockFb job =>
    obtain ⟨hfree, ⟨⟩⟩ := Option.ite_none_right_eq_some.mp hstep
    have hs : sender.holdsFb = false := by
      simpa [show m.fbLock = none from hfree] using h.fbSender
    exact { h with
      fbRenderer := by simp [WritePc.holdsFb]
      fbSender := by simp [hs] }
  | program left job =>
    cases left with
    | cons r left =>
      cases hstep
      exact { h with }
    | nil =>
      cases hstep
      have hflag : m.inFlight = false := h.settled rfl
      have hs : sender.holdsFb = false := h.sender_of_renderer rfl
      have hnone := h.owner_none hflag rfl (SendPc.waits_false hs)
      have hfinishing : sender.finishing = false :=
        Bool.eq_false_iff.mpr fun hf => by simp [SendPc.holdsFb_of_finishing hf] at hs
      exact { h with
        settled := fun hup => by cases hup
        through := fun hor => (h.not_acking hflag (hor.imp_right
          (Or.resolve_right · (by simp [hfinishing])))).elim
        single := fun _ => hnone.2
        owner := by
          simp [Sys.expected, SendPc.waits_false hs, Engine.owner, Engine.start, WritePc.recording] }
  | record =>
    cases hstep
    have hw : worker.inFence FencePc.holds = false := h.worker_of_renderer rfl
    have hretiring : worker.inFence FencePc.retiring = false :=
      h.worker_inFence FencePc.holds_of_retiring rfl
    have hs : sender.holdsFb = false := h.sender_of_renderer rfl
    exact { h with
      asyncRenderer := by simp [WritePc.holdsAsync]
      asyncWorker := by simp [hw]
      fbRenderer := by simp [WritePc.holdsFb]
      fbSender := by simp [hs]
      settled := fun hup => by cases hup
      yields := fun hup => by simp [hs] at hup
      flagged := fun _ => rfl
      owner := h.owner.trans
        (by simp [Sys.expected, Sys.retired, hretiring, WritePc.inFence, WritePc.recording]) }
  | schedule =>
    cases hstep
    exact { h with }

/-- **One step keeps the invariant.** -/
theorem Inv.step (h : Inv s) (hok : SenderYields s a) (hstep : Blitter.step s a = some s') : Inv s' := by
  obtain ⟨m, renderer, worker, sender, scheduled⟩ := s
  cases a with
  | write job =>
    cases renderer with
    | idle =>
      cases hstep
      exact { h with }
    | _ => cases hstep
  | render => exact h.renderStep hstep
  | fire =>
    cases worker with
    | idle =>
      obtain ⟨-, ⟨⟩⟩ := Option.ite_none_right_eq_some.mp hstep
      exact { h with }
    | fence pc => cases hstep
  | work =>
    cases worker with
    | idle => cases hstep
    | fence pc =>
      obtain ⟨⟨pc', m'⟩, hfence, rfl⟩ := Option.map_eq_some_iff.mp hstep
      exact h.workFence (fenceMove_of_fenceStep hfence)
  | send job =>
    cases sender with
    | idle =>
      cases hstep
      exact { h with }
    | _ => cases hstep
  | sendStep => exact h.sendStep hok hstep
  | done =>
    obtain ⟨hbusy, ⟨⟩⟩ := Option.ite_none_right_eq_some.mp hstep
    exact h.done hbusy

/-! ## The engine has one user at a time -/

/-- A fence that waits or acknowledges does so for the display's own blit. -/
theorem Inv.exclusive_fence (h : Inv s) {x : Access} {pc : FencePc} (hacc : pc.access = some x)
    (hflag : pc.fencing = true → s.shared.inFlight = true)
    (hidle : pc.acking = true → s.shared.engine.running = none)
    (hretired : pc.fencing = true → s.retired = false) : s.shared.engine.Exclusive .display x := by
  have howner (hup : pc.fencing = true) := h.owner_display (hflag hup) (hretired hup)
  cases pc with
  | poll =>
    cases hacc
    exact Engine.exclusive_poll (howner rfl)
  | ack =>
    cases hacc
    exact Engine.exclusive_ack (howner rfl) (hidle rfl)
  | _ => cases hacc

theorem Inv.exclusive (h : Inv s) {u : User} {x : Access} (hacc : s.access a = some (u, x)) :
    s.shared.engine.Exclusive u x := by
  obtain ⟨m, renderer, worker, sender, scheduled⟩ := s
  cases a with
  | render =>
    obtain ⟨x', hx, heq⟩ := Option.map_eq_some_iff.mp hacc
    cases heq
    cases renderer with
    | fence pc job =>
      refine h.exclusive_fence hx (fun hup => h.flagged (.inl hup)) (fun hup => h.through (.inl hup))
        fun hup => ?_
      have hw := h.worker_inFence FencePc.holds_of_retiring (FencePc.holds_of_fencing pc hup)
      have hpc : pc.retiring = false := by cases pc <;> first | rfl | cases hup
      simp [Sys.retired, WritePc.inFence, hpc, hw]
    | program left job =>
      have hnone := h.owner_none (h.settled rfl) rfl (SendPc.waits_false (h.sender_of_renderer rfl))
      cases left <;> cases hx <;> exact hnone.1
    | _ => cases hx
  | work =>
    obtain ⟨x', hx, heq⟩ := Option.map_eq_some_iff.mp hacc
    cases heq
    cases worker with
    | idle => cases hx
    | fence pc =>
      refine h.exclusive_fence hx (fun hup => h.flagged (.inr hup))
        (fun hup => h.through (.inr (.inl hup))) fun hup => ?_
      have hr := h.renderer_inFence FencePc.holds_of_retiring (FencePc.holds_of_fencing pc hup)
      have hpc : pc.retiring = false := by cases pc <;> first | rfl | cases hup
      simp [Sys.retired, WorkPc.inFence, hpc, hr]
  | sendStep =>
    obtain ⟨x', hx, heq⟩ := Option.map_eq_some_iff.mp hacc
    cases heq
    cases sender with
    | program left job =>
      have hnone := h.owner_none (h.yields rfl) (h.not_recording rfl) rfl
      cases left <;> cases hx <;> exact hnone.1
    | poll =>
      cases hx
      exact Engine.exclusive_poll h.owner
    | finish =>
      cases hx
      exact Engine.exclusive_ack h.owner (h.through (.inr (.inr rfl)))
    | _ => cases hx
  | _ => cases hacc

/-- **The engine is never shared**, where the VNC thread takes `fb_lock` for a blit only while no display
blit is in flight: whatever the interleaving and however long blits take, registers and START are written
while nothing runs, and each user waits for and acknowledges its own blit. -/
theorem blitter_exclusive {s : Sys} {a : Act} {u : User} {x : Access}
    (hrun : Reaches step SenderYields Sys.init s) (hacc : s.access a = some (u, x)) :
    s.shared.engine.Exclusive u x :=
  (hrun.invariant (fun h hok hstep => h.step hok hstep) Inv.init).exclusive hacc

/-- A display write, up to where it gives its locks up with the blit running. -/
def writing : List Act := .write (fun _ => 0) :: List.replicate 12 .render

/-- The write is retired by the delayed work; then the VNC thread comes to its first register. -/
def takingTurns : List Act :=
  writing ++ [.render, .fire, .work, .done, .work, .work, .work, .work, .send (fun _ => 0), .sendStep]

theorem blitter_exclusive_turns :
    let s := (runAll step SenderYields Sys.init takingTurns).getD Sys.init
    runAll step SenderYields Sys.init takingTurns = some s ∧
      s.access .sendStep = some (.vnc, .program) ∧ s.shared.engine.Exclusive .vnc .program := by
  intro s
  have hrun : runAll step SenderYields Sys.init takingTurns = some s := rfl
  have hacc : s.access .sendStep = some (.vnc, .program) := rfl
  exact ⟨hrun, hacc, blitter_exclusive (Reaches.of_runAll takingTurns hrun) hacc⟩

/-- **The VNC thread programs the engine while the display's blit runs.** -/
theorem not_forall_exclusive :
    ¬ ∀ (s : Sys) (a : Act) (u : User) (x : Access), Reaches step anyStep Sys.init s →
      s.access a = some (u, x) → s.shared.engine.Exclusive u x := by
  intro hall
  let acts := writing ++ [.send (fun _ => 0), .sendStep]
  let s := (runAll step anyStep Sys.init acts).getD Sys.init
  have hrun : runAll step anyStep Sys.init acts = some s := rfl
  have hacc : s.access .sendStep = some (.vnc, .program) := rfl
  have hnone : s.shared.engine.running = none := hall s _ _ _ (Reaches.of_runAll acts hrun) hacc
  have hrunning : s.shared.engine.running = some .display := rfl
  cases hnone.symm.trans hrunning

end KlaussRuntime.Vnc.Blitter
