import KlaussRuntime.Machinery.Histories
import KlaussRuntime.Machinery.Machine
import Mathlib.Data.Fintype.Basic
import Mathlib.Logic.Function.Basic

/-!
# Zephyr/IrqTable — connecting and disconnecting interrupt handlers

The architecture port keeps one handler a source in `_sw_isr_table` and enables a source by its vector.  Threads
change both, an access a step; `arch_irq_connect_dynamic` and `arch_irq_disconnect_dynamic` do so with
interrupts off.  An interrupt enters the stub of its source on the stack of the thread it meets.  Until the stub
has executed its `DI` it can be interrupted again, and its thread can lose the processor and get it back at any
later time; after the `DI` it runs to its end.  So `z_klausscpu_irq_dispatch` can find a table that was changed
any number of times since its interrupt.

The log of a run lists the calls that returned, each with its result, and the handlers called.  What is connected
to a source follows from the log alone (`connection`), and every handler called is the one connected at that
moment (`Sys.lawful_of_reaches`).
-/

namespace KlaussRuntime.Zephyr.Irq

open Machinery

def KLAUSSCPU_IRQ_TIMER : ℕ := 0

def KLAUSSCPU_NUM_IRQS : ℕ := 4

def EBUSY : ℤ := 16

def EINVAL : ℤ := 22

/-- A function of the type of a handler. -/
inductive Routine (F : Type*) where
  /-- `z_irq_spurious`, which stands for no handler -/
  | spurious
  | handler (f : F)
  deriving DecidableEq

/-- `struct _isr_table_entry` -/
structure Entry (F : Type*) where
  isr : Routine F
  arg : ℕ
  deriving DecidableEq

/-- What `irq_table_clear` leaves. -/
def Entry.cleared {F : Type*} (irq : ℕ) : Entry F := ⟨.spurious, irq⟩

/-- A call of the interface; `none` is the routine `NULL`. -/
inductive Api (F : Type*) where
  | enable (irq : ℕ)
  | disable (irq : ℕ)
  | connect (irq : ℕ) (routine : Option (Routine F)) (parameter : ℕ)
  | disconnect (irq : ℕ) (routine : Option (Routine F)) (parameter : ℕ)
  deriving DecidableEq

inductive Ev (F : Type*) where
  /-- a call returned; a function without a result returns 0 -/
  | returned (a : Api F) (ret : ℤ)
  /-- `e->isr(e->arg)` of the dispatcher of a source -/
  | call (irq : ℕ) (e : Entry F)
  deriving DecidableEq

/-! ## What is connected -/

section Connection

variable {F : Type*} {boot conn : ℕ → Entry F} {log log' : List (Ev F)} {irq : ℕ} {e : Ev F} {r : Routine F}

/-- A call that succeeded connects its routine, or none. -/
def Ev.effect (conn : ℕ → Entry F) : Ev F → ℕ → Entry F
  | .returned (.connect irq (some routine) parameter) ret =>
    if 0 ≤ ret then Function.update conn irq ⟨routine, parameter⟩ else conn
  | .returned (.disconnect irq _ _) ret =>
    if ret = 0 then Function.update conn irq (.cleared irq) else conn
  | _ => conn

/-- **What is connected to each source** after the calls of a log; `boot` is what `IRQ_CONNECT` connected. -/
def connection (boot : ℕ → Entry F) (log : List (Ev F)) : ℕ → Entry F := log.foldl Ev.effect boot

theorem connection_snoc : connection boot (log ++ [e]) = e.effect (connection boot log) := by
  simp [connection]

theorem connection_append :
    connection boot (log ++ e :: log') = connection (e.effect (connection boot log)) log' := by
  simp [connection]

/-- The source was enabled when no handler was connected to it. -/
def EnabledBare (boot : ℕ → Entry F) (log : List (Ev F)) (irq : ℕ) : Prop :=
  ∃ before ret after, log = before ++ .returned (.enable irq) ret :: after ∧
    (connection boot before irq).isr = .spurious

theorem EnabledBare.append (h : EnabledBare boot log irq) : EnabledBare boot (log ++ log') irq := by
  obtain ⟨before, ret, after, rfl, hbare⟩ := h
  exact ⟨before, ret, after ++ log', by simp, hbare⟩

/-- The dispatcher calls what is connected, and `z_irq_spurious` only for a source enabled without a handler. -/
def Lawful (boot : ℕ → Entry F) (before : List (Ev F)) : Ev F → Prop
  | .returned .. => True
  | .call irq e => connection boot before irq = e ∧ (e.isr = .spurious → EnabledBare boot before irq)

/-- One event connects a handler, or the handler was connected before it. -/
theorem Ev.isr_effect (h : (e.effect conn irq).isr = r) :
    (conn irq).isr = r ∨ r = .spurious ∨ ∃ p ret, e = .returned (.connect irq (some r) p) ret ∧ 0 ≤ ret := by
  match e with
  | .returned (.connect irq' (some routine) p) ret =>
    simp only [effect] at h
    split_ifs at h with hret
    · rcases eq_or_ne irq irq' with rfl | hne
      · rw [Function.update_self] at h
        exact .inr (.inr ⟨p, ret, by rw [← h], hret⟩)
      · rw [Function.update_of_ne hne] at h
        exact .inl h
    · exact .inl h
  | .returned (.disconnect irq' _ _) ret =>
    simp only [effect] at h
    split_ifs at h with hret
    · rcases eq_or_ne irq irq' with rfl | hne
      · rw [Function.update_self] at h
        exact .inr (.inl h.symm)
      · rw [Function.update_of_ne hne] at h
        exact .inl h
    · exact .inl h
  | .returned (.connect _ none _) _ => exact .inl h
  | .returned (.enable _) _ => exact .inl h
  | .returned (.disable _) _ => exact .inl h
  | .call _ _ => exact .inl h

/-- **Who is connected was connected before or since.** -/
theorem isr_connection (h : (connection boot log irq).isr = r) :
    (boot irq).isr = r ∨ r = .spurious ∨
      ∃ p ret, Ev.returned (.connect irq (some r) p) ret ∈ log ∧ 0 ≤ ret := by
  induction log generalizing boot with
  | nil => exact .inl h
  | cons e log ih =>
    rcases ih h with hboot | hr | ⟨p, ret, hmem, hret⟩
    · rcases Ev.isr_effect hboot with hboot | hr | ⟨p, ret, rfl, hret⟩
      · exact .inl hboot
      · exact .inr (.inl hr)
      · exact .inr (.inr ⟨p, ret, List.mem_cons_self, hret⟩)
    · exact .inr (.inl hr)
    · exact .inr (.inr ⟨p, ret, List.mem_cons_of_mem _ hmem, hret⟩)

end Connection

/-! ## The machine -/

/-- What a thread does next. -/
inductive Pc (F : Type*) where
  /-- its own code -/
  | idle
  /-- `arch_irq_enable` stores the address of the stub -/
  | enable (irq : ℕ)
  /-- `arch_irq_disable` stores 0 -/
  | disable (irq : ℕ)
  /-- `arch_irq_lock` of `arch_irq_connect_dynamic` -/
  | connect (irq : ℕ) (routine : Routine F) (parameter : ℕ)
  | isEnabled (irq : ℕ) (routine : Routine F) (parameter : ℕ)
  | setArg (irq : ℕ) (routine : Routine F) (parameter : ℕ)
  | setIsr (irq : ℕ) (routine : Routine F) (parameter : ℕ)
  /-- `arch_irq_lock` of `arch_irq_disconnect_dynamic` -/
  | disconnect (irq : ℕ) (routine : Option (Routine F)) (parameter : ℕ)
  | compare (irq : ℕ) (routine : Option (Routine F)) (parameter : ℕ)
  | clearVec (irq : ℕ) (routine : Option (Routine F)) (parameter : ℕ)
  | clearArg (irq : ℕ) (routine : Option (Routine F)) (parameter : ℕ)
  | clearIsr (irq : ℕ) (routine : Option (Routine F)) (parameter : ℕ)
  /-- `arch_irq_unlock`, and the call returns -/
  | unlock (a : Api F) (ret : ℤ)
  deriving DecidableEq

/-- Interrupts can be enabled there. -/
def Pc.Outside {F : Type*} : Pc F → Prop
  | .idle | .enable _ | .disable _ | .connect .. | .disconnect .. => True
  | _ => False

/-- What a stub does next, after its `DI`. -/
inductive IsrPc where
  /-- `z_klausscpu_irq_dispatch` tests the vector -/
  | dispatch (irq : ℕ)
  /-- …and calls the handler of the table -/
  | calling (irq : ℕ)
  /-- `z_klausscpu_isr_exit`: back to the thread, or to another -/
  | exit
  deriving DecidableEq

inductive Mode (T : Type*) where
  /-- interrupts are enabled -/
  | free
  /-- a thread has locked them -/
  | locked (t : T)
  /-- a stub met by a thread is past its `DI` -/
  | serving (t : T) (p : IsrPc)
  deriving DecidableEq

structure Sys (T F : Type*) where
  mode : Mode T
  /-- `_INT_VEC(irq) != 0` -/
  vec : ℕ → Bool
  /-- `_sw_isr_table` -/
  table : ℕ → Entry F
  pc : T → Pc F
  /-- what `arch_irq_lock` returned to the thread: whether interrupts were enabled -/
  key : T → Bool
  /-- the stubs entered on the thread's stack and not yet at their `DI`, last first -/
  stubs : T → List ℕ
  /-- ghost: what happened -/
  log : List (Ev F)

inductive Act (T F : Type*) where
  /-- a thread calls the interface -/
  | call (t : T) (a : Api F)
  /-- the next access of the call it is in -/
  | go (t : T)
  /-- `irq_lock` and `irq_unlock` of a thread's own code -/
  | lock (t : T)
  | unlock (t : T)
  /-- an interrupt is taken while a thread runs -/
  | interrupt (t : T) (irq : ℕ)
  /-- the innermost stub of a thread executes its `DI` -/
  | di (t : T)
  /-- the next step of the stub past its `DI` -/
  | serve

namespace Sys

section Machine

variable {T F : Type*}

/-- Before the first thread; `boot` is the table with the static connections. -/
def init (boot : ℕ → Entry F) : Sys T F :=
  ⟨.free, fun _ => false, boot, fun _ => .idle, fun _ => true, fun _ => [], []⟩

def setVec (s : Sys T F) (irq : ℕ) (on : Bool) : Sys T F := { s with vec := Function.update s.vec irq on }

def setEntry (s : Sys T F) (irq : ℕ) (e : Entry F) : Sys T F :=
  { s with table := Function.update s.table irq e }

/-- The next step of a stub.  That of the timer does not look at the table. -/
def serve (s : Sys T F) (t : T) : IsrPc → Sys T F
  | .dispatch irq => { s with mode := .serving t (if s.vec irq then .calling irq else .exit) }
  | .calling irq => { s with mode := .serving t .exit, log := s.log ++ [.call irq (s.table irq)] }
  | .exit => { s with mode := .free }

/-- A thread executes its own code or a call. -/
def Runs (s : Sys T F) (t : T) : Prop := (s.mode = .free ∨ s.mode = .locked t) ∧ s.stubs t = []

variable [DecidableEq T]

instance decidableRuns (s : Sys T F) (t : T) : Decidable (s.Runs t) := inferInstanceAs (Decidable (_ ∧ _))

def goto (s : Sys T F) (t : T) (p : Pc F) : Sys T F := { s with pc := Function.update s.pc t p }

def returns (s : Sys T F) (t : T) (a : Api F) (ret : ℤ) : Sys T F :=
  { s.goto t .idle with log := s.log ++ [.returned a ret] }

/-- `key = arch_irq_lock()` -/
def lock (s : Sys T F) (t : T) : Sys T F :=
  { s with key := Function.update s.key t (decide (s.mode = .free)), mode := .locked t }

/-- The tests made before anything is touched. -/
def enter (s : Sys T F) (t : T) : Api F → Sys T F
  | .enable irq =>
    if irq < KLAUSSCPU_NUM_IRQS then s.goto t (.enable irq) else s.returns t (.enable irq) 0
  | .disable irq =>
    if irq < KLAUSSCPU_NUM_IRQS then s.goto t (.disable irq) else s.returns t (.disable irq) 0
  | .connect irq routine parameter =>
    if irq = KLAUSSCPU_IRQ_TIMER ∨ KLAUSSCPU_NUM_IRQS ≤ irq then
      s.returns t (.connect irq routine parameter) (-EINVAL)
    else
      match routine with
      | none => s.returns t (.connect irq routine parameter) (-EINVAL)
      | some routine => s.goto t (.connect irq routine parameter)
  | .disconnect irq routine parameter =>
    if irq = KLAUSSCPU_IRQ_TIMER ∨ KLAUSSCPU_NUM_IRQS ≤ irq then
      s.returns t (.disconnect irq routine parameter) (-EINVAL)
    else s.goto t (.disconnect irq routine parameter)

variable [DecidableEq F]

/-- The next access of a call. -/
def go (s : Sys T F) (t : T) : Option (Sys T F) :=
  match s.pc t with
  | .idle => none
  | .enable irq => some ((s.setVec irq true).returns t (.enable irq) 0)
  | .disable irq => some ((s.setVec irq false).returns t (.disable irq) 0)
  | .connect irq r p => some ((s.lock t).goto t (.isEnabled irq r p))
  | .isEnabled irq r p =>
    some (s.goto t (if s.vec irq then .unlock (.connect irq (some r) p) (-EBUSY) else .setArg irq r p))
  | .setArg irq r p => some ((s.setEntry irq ⟨(s.table irq).isr, p⟩).goto t (.setIsr irq r p))
  | .setIsr irq r p =>
    some ((s.setEntry irq ⟨r, (s.table irq).arg⟩).goto t (.unlock (.connect irq (some r) p) irq))
  | .disconnect irq r p => some ((s.lock t).goto t (.compare irq r p))
  | .compare irq r p =>
    some (s.goto t (
      if some (s.table irq).isr ≠ r ∨ (s.table irq).arg ≠ p then .unlock (.disconnect irq r p) (-EINVAL)
      else .clearVec irq r p))
  | .clearVec irq r p => some ((s.setVec irq false).goto t (.clearArg irq r p))
  | .clearArg irq r p => some ((s.setEntry irq ⟨(s.table irq).isr, irq⟩).goto t (.clearIsr irq r p))
  | .clearIsr irq r p =>
    some ((s.setEntry irq ⟨.spurious, (s.table irq).arg⟩).goto t (.unlock (.disconnect irq r p) 0))
  | .unlock a ret =>
    some ({ s with mode := if s.key t then .free else .locked t }.returns t a ret)

def step (s : Sys T F) : Act T F → Option (Sys T F)
  | .call t a => if s.Runs t ∧ s.pc t = .idle then some (s.enter t a) else none
  | .go t => if s.Runs t then s.go t else none
  | .lock t => if s.Runs t ∧ s.pc t = .idle then some { s with mode := .locked t } else none
  | .unlock t => if s.Runs t ∧ s.pc t = .idle then some { s with mode := .free } else none
  | .interrupt t irq =>
    if s.mode = .free ∧ irq < KLAUSSCPU_NUM_IRQS ∧ s.vec irq then
      some { s with stubs := Function.update s.stubs t (irq :: s.stubs t) }
    else none
  | .di t =>
    match s.mode, s.stubs t with
    | .free, irq :: rest =>
      some { s with
        mode := .serving t (if irq = KLAUSSCPU_IRQ_TIMER then .exit else .dispatch irq)
        stubs := Function.update s.stubs t rest }
    | _, _ => none
  | .serve =>
    match s.mode with
    | .serving t p => some (s.serve t p)
    | _ => none

end Machine

/-! ## The table follows the log -/

variable {T F : Type*} {boot : ℕ → Entry F} {s s' : Sys T F} {t : T} {irq : ℕ} {p : Pc F} {a : Api F}
  {ret : ℤ}

/-- **Where the table stands while a thread is at `p`** and nobody else can touch it. -/
def At (boot : ℕ → Entry F) (s : Sys T F) : Pc F → Prop
  | .setArg irq _ _ | .clearArg irq _ _ => s.vec irq = false ∧ s.table = connection boot s.log
  | .setIsr irq _ p =>
    s.vec irq = false ∧
      s.table = Function.update (connection boot s.log) irq ⟨(connection boot s.log irq).isr, p⟩
  | .clearIsr irq _ _ =>
    s.vec irq = false ∧
      s.table = Function.update (connection boot s.log) irq ⟨(connection boot s.log irq).isr, irq⟩
  | .unlock a ret => s.table = (Ev.returned a ret).effect (connection boot s.log)
  | _ => s.table = connection boot s.log

/-- A source that is enabled has a handler, or was enabled when it had none. -/
def Guarded (boot : ℕ → Entry F) (s : Sys T F) : Prop :=
  ∀ irq, s.vec irq = true → (s.table irq).isr ≠ .spurious ∨ EnabledBare boot s.log irq

structure Inv (boot : ℕ → Entry F) (s : Sys T F) : Prop where
  outside : ∀ t, s.mode ≠ .locked t → (s.pc t).Outside
  settled : (∀ t, s.mode ≠ .locked t) → s.table = connection boot s.log
  inside : ∀ t, s.mode = .locked t → s.At boot (s.pc t)
  calling : ∀ t irq, s.mode = .serving t (.calling irq) → s.vec irq = true
  guarded : s.Guarded boot
  lawful : Regular (Lawful boot) s.log

theorem At.congr (h : s.At boot p) (hvec : s'.vec = s.vec) (htable : s'.table = s.table)
    (hlog : s'.log = s.log) : s'.At boot p := by
  cases p <;> simpa only [At, hvec, htable, hlog] using h

theorem At.settled (h : s.At boot p) (hp : p.Outside) : s.table = connection boot s.log := by
  cases p <;> first | exact h | exact hp.elim

theorem Guarded.mono (h : s.Guarded boot) (hvec : ∀ irq, s'.vec irq = true → s.vec irq = true)
    (htable : ∀ irq, s'.vec irq = true → (s'.table irq).isr = (s.table irq).isr) {log : List (Ev F)}
    (hlog : s'.log = s.log ++ log) : s'.Guarded boot := by
  intro irq hon
  rw [htable irq hon, hlog]
  exact (h irq (hvec irq hon)).imp_right EnabledBare.append

theorem At.of_settled (h : s.table = connection boot s.log) (hp : p.Outside) : s.At boot p := by
  cases p <;> first | exact h | exact hp.elim

theorem vec_of_setVec_false {irq' : ℕ} (h : (s.setVec irq false).vec irq' = true) : s.vec irq' = true := by
  rcases eq_or_ne irq' irq with rfl | hne
  · simp [setVec] at h
  · exact (Function.update_of_ne hne ..).symm.trans h

theorem isr_setEntry_of_ne {irq' : ℕ} {e : Entry F} (h : irq' ≠ irq) :
    ((s.setEntry irq e).table irq').isr = (s.table irq').isr := by
  simp [setEntry, Function.update_of_ne h]

theorem isr_setEntry {irq' : ℕ} {e : Entry F} (h : e.isr = (s.table irq).isr) :
    ((s.setEntry irq e).table irq').isr = (s.table irq').isr := by
  rcases eq_or_ne irq' irq with rfl | hne
  · simpa [setEntry] using h
  · exact isr_setEntry_of_ne hne

namespace Inv

theorem at_pc (h : Inv boot s) (hmode : s.mode = .free ∨ s.mode = .locked t) : s.At boot (s.pc t) := by
  rcases hmode with hfree | hlocked
  · exact At.of_settled (h.settled fun t => by rw [hfree]; simp) (h.outside t (by rw [hfree]; simp))
  · exact h.inside t hlocked

/-- **A turn of one thread**: what it has to see to. -/
theorem turn (h : Inv boot s) (hmode : s.mode = .free ∨ s.mode = .locked t)
    (hmode' : s'.mode = .free ∨ s'.mode = .locked t) (hpc : ∀ t' ≠ t, s'.pc t' = s.pc t')
    (hout : s'.mode = .free → (s'.pc t).Outside) (hat : s'.At boot (s'.pc t))
    (hguarded : s'.Guarded boot) (hlawful : Regular (Lawful boot) s'.log) : Inv boot s' where
  outside t' hne := by
    rcases eq_or_ne t' t with rfl | ht
    · exact hout (hmode'.resolve_right hne)
    · rw [hpc t' ht]
      refine h.outside t' ?_
      rcases hmode with hfree | hlocked
      · rw [hfree]
        simp
      · rw [hlocked]
        simpa using ht.symm
  settled hne := hat.settled (hout (hmode'.resolve_right (hne t)))
  inside t' hlocked := by
    rcases hmode' with hfree | hmode'
    · rw [hfree] at hlocked
      cases hlocked
    · rw [hmode'] at hlocked
      cases hlocked
      exact hat
  calling t' irq hserving := by
    rcases hmode' with hmode' | hmode' <;> rw [hmode'] at hserving <;> cases hserving
  guarded := hguarded
  lawful := hlawful

theorem own (h : Inv boot s) (hmode : s.mode = .free ∨ s.mode = .locked t) (hidle : s.pc t = .idle)
    (hmode' : s'.mode = .free ∨ s'.mode = .locked t) (hpc : s'.pc = s.pc) (hvec : s'.vec = s.vec)
    (htable : s'.table = s.table) (hlog : s'.log = s.log) : Inv boot s' := by
  refine h.turn hmode hmode' (fun t' _ => congrFun hpc t') (fun _ => ?_) ?_ ?_ (hlog ▸ h.lawful)
  · rw [hpc, hidle]
    trivial
  · rw [hpc]
    exact (h.at_pc hmode).congr hvec htable hlog
  · intro irq hon
    rw [hlog, htable]
    exact h.guarded irq (hvec ▸ hon)

/-- A stub goes on past its `DI`, with the threads and the table as they are. -/
theorem served (h : Inv boot s) (hmode : ∀ t, s.mode ≠ .locked t) (hmode' : ∀ t, s'.mode ≠ .locked t)
    (hpc : s'.pc = s.pc) (hvec : s'.vec = s.vec) (htable : s'.table = s.table)
    (hsettled : connection boot s'.log = connection boot s.log)
    (hcalling : ∀ t irq, s'.mode = .serving t (.calling irq) → s.vec irq = true)
    (hlawful : Regular (Lawful boot) s'.log) (hguarded : s'.Guarded boot) : Inv boot s' where
  outside t _ := hpc ▸ h.outside t (hmode t)
  settled _ := by rw [htable, hsettled, h.settled hmode]
  inside t hm := absurd hm (hmode' t)
  calling t irq hm := by
    rw [hvec]
    exact hcalling t irq hm
  guarded := hguarded
  lawful := hlawful

/-- **A step of a stub**: the handler it calls is the one connected. -/
theorem serve {p : IsrPc} (h : Inv boot s) (hmode : s.mode = .serving t p) : Inv boot (s.serve t p) := by
  have hunlocked : ∀ t, s.mode ≠ .locked t := fun t => by rw [hmode]; simp
  have hset := h.settled hunlocked
  cases p with
  | dispatch irq =>
    refine h.served hunlocked (fun _ => by simp [Sys.serve]) rfl rfl rfl rfl ?_ h.lawful h.guarded
    intro t' irq' hcall
    simp only [Sys.serve] at hcall
    split_ifs at hcall with hvec
    · cases hcall
      exact hvec
    · cases hcall
  | calling irq =>
    refine h.served hunlocked (fun _ => by simp [Sys.serve]) rfl rfl rfl ?_ ?_ ?_ ?_
    · exact connection_snoc
    · intro t' irq' hcall
      cases hcall
    · refine h.lawful.snoc ⟨congrFun hset.symm irq, fun hbare => ?_⟩
      exact (h.guarded irq (h.calling t irq hmode)).resolve_left (not_not_intro hbare)
    · exact h.guarded.mono (fun _ => id) (fun _ _ => rfl) rfl
  | exit =>
    exact h.served hunlocked (fun _ => by simp [Sys.serve]) rfl rfl rfl rfl (fun _ _ hm => by cases hm)
      h.lawful h.guarded

variable [DecidableEq T]

/-- A thread goes on within a call; `s'` is the state but for the program counter. -/
theorem goto (h : Inv boot s) (hmode : s.mode = .free ∨ s.mode = .locked t)
    (hmode' : s'.mode = .free ∨ s'.mode = .locked t) (hpc : s'.pc = s.pc) (hlog : s'.log = s.log)
    (hout : s'.mode = .free → p.Outside) (hat : s'.At boot p) (hguarded : s'.Guarded boot) :
    Inv boot (s'.goto t p) := by
  have hpc' : (s'.goto t p).pc t = p := Function.update_self ..
  refine h.turn hmode hmode' (fun t' ht => ?_) ?_ ?_ hguarded ?_
  · exact (Function.update_of_ne ht ..).trans (congrFun hpc t')
  · rw [hpc']
    exact hout
  · rw [hpc']
    exact hat.congr rfl rfl rfl
  · exact hlog ▸ h.lawful

theorem returns (h : Inv boot s) (hmode : s.mode = .free ∨ s.mode = .locked t)
    (hmode' : s'.mode = .free ∨ s'.mode = .locked t) (hpc : s'.pc = s.pc) (hlog : s'.log = s.log)
    (htable : s'.table = (Ev.returned a ret).effect (connection boot s.log))
    (hguarded : (s'.returns t a ret).Guarded boot) : Inv boot (s'.returns t a ret) := by
  have hpc' : (s'.returns t a ret).pc t = .idle := Function.update_self ..
  refine h.turn hmode hmode' (fun t' ht => ?_) (fun _ => ?_) ?_ hguarded ?_
  · exact (Function.update_of_ne ht ..).trans (congrFun hpc t')
  · rw [hpc']
    trivial
  · rw [hpc']
    show s'.table = connection boot (s'.log ++ [.returned a ret])
    rw [connection_snoc, hlog, htable]
  · show Regular _ (s'.log ++ _)
    rw [hlog]
    exact h.lawful.snoc trivial

/-- Within a call nothing is enabled, and an entry is changed only while its source is off. -/
theorem inner (h : Inv boot s) (hmode : s.mode = .free ∨ s.mode = .locked t)
    (hlocked : s'.mode = .locked t) (hpc : s'.pc = s.pc) (hlog : s'.log = s.log) (hat : s'.At boot p)
    (hvec : ∀ irq, s'.vec irq = true → s.vec irq = true)
    (htable : ∀ irq, s'.vec irq = true → (s'.table irq).isr = (s.table irq).isr) :
    Inv boot (s'.goto t p) :=
  h.goto hmode (.inr hlocked) hpc hlog (fun hfree => by rw [hlocked] at hfree; cases hfree) hat
    (h.guarded.mono hvec htable (hlog.trans (List.append_nil _).symm))

theorem enter (h : Inv boot s) (hmode : s.mode = .free ∨ s.mode = .locked t)
    (hset : s.table = connection boot s.log) : Inv boot (s.enter t a) := by
  have hgo {p : Pc F} (hp : p.Outside) : Inv boot (s.goto t p) :=
    h.goto hmode hmode rfl rfl (fun _ => hp) (At.of_settled hset hp) h.guarded
  have hret {ret : ℤ} (heff : (Ev.returned a ret).effect (connection boot s.log) = connection boot s.log) :
      Inv boot (s.returns t a ret) :=
    h.returns hmode hmode rfl rfl (hset.trans heff.symm) (h.guarded.mono (fun _ => id) (fun _ _ => rfl) rfl)
  cases a with
  | enable irq =>
    simp only [Sys.enter]
    split_ifs
    · exact hgo trivial
    · exact hret rfl
  | disable irq =>
    simp only [Sys.enter]
    split_ifs
    · exact hgo trivial
    · exact hret rfl
  | connect irq routine parameter =>
    simp only [Sys.enter]
    split_ifs
    · exact hret (by cases routine <;> rfl)
    · cases routine with
      | none => exact hret rfl
      | some r => exact hgo trivial
  | disconnect irq routine parameter =>
    simp only [Sys.enter]
    split_ifs
    · exact hret rfl
    · exact hgo trivial

variable [DecidableEq F]

/-- **One access of a call.** -/
theorem go (h : Inv boot s) (hmode : s.mode = .free ∨ s.mode = .locked t) (hgo : s.go t = some s') :
    Inv boot s' := by
  have hat := h.at_pc hmode
  have hlocked (hin : ¬ (s.pc t).Outside) : s.mode = .locked t :=
    hmode.resolve_left fun hfree => hin (h.outside t (by rw [hfree]; simp))
  generalize hp : s.pc t = p at hat hlocked
  rw [Sys.go, hp] at hgo
  cases p with
  | idle => cases hgo
  | enable irq =>
    cases hgo
    refine h.returns hmode hmode rfl rfl hat fun irq' hon => ?_
    rcases eq_or_ne irq' irq with rfl | hne
    · by_cases hbare : (s.table irq').isr = .spurious
      · have hset : s.table = connection boot s.log := hat
        exact .inr ⟨s.log, 0, [], rfl, hset ▸ hbare⟩
      · exact .inl hbare
    · have hon : s.vec irq' = true := (Function.update_of_ne hne ..).symm.trans hon
      exact (h.guarded irq' hon).imp_right EnabledBare.append
  | disable irq =>
    cases hgo
    exact h.returns hmode hmode rfl rfl hat
      (h.guarded.mono (fun _ => vec_of_setVec_false) (fun _ _ => rfl) rfl)
  | connect irq r p =>
    cases hgo
    exact h.inner hmode rfl rfl rfl hat (fun _ => id) fun _ _ => rfl
  | isEnabled irq r p =>
    cases hgo
    refine h.inner hmode (hlocked id) rfl rfl ?_ (fun _ => id) fun _ _ => rfl
    split_ifs with hvec
    · exact hat
    · exact ⟨by simpa using hvec, hat⟩
  | setArg irq r p =>
    cases hgo
    obtain ⟨hoff, hset⟩ := hat
    refine h.inner hmode (hlocked id) rfl rfl ⟨hoff, ?_⟩ (fun _ => id)
      fun irq' _ => isr_setEntry rfl
    show Function.update s.table irq _ = _
    rw [hset]
    rfl
  | setIsr irq r p =>
    cases hgo
    obtain ⟨hoff, hset⟩ := hat
    refine h.inner hmode (hlocked id) rfl rfl ?_ (fun _ => id)
      fun irq' hon => isr_setEntry_of_ne fun heq => ?_
    · show Function.update s.table irq _ = _
      rw [hset]
      simp [Ev.effect, Sys.setEntry]
    · rw [heq] at hon
      exact absurd (hon.symm.trans hoff) (by simp)
  | disconnect irq r p =>
    cases hgo
    exact h.inner hmode rfl rfl rfl hat (fun _ => id) fun _ _ => rfl
  | compare irq r p =>
    cases hgo
    refine h.inner hmode (hlocked id) rfl rfl ?_ (fun _ => id) fun _ _ => rfl
    split_ifs
    · exact hat
    · exact hat
  | clearVec irq r p =>
    cases hgo
    exact h.inner hmode (hlocked id) rfl rfl
      ⟨Function.update_self .., hat⟩ (fun _ => vec_of_setVec_false) fun _ _ => rfl
  | clearArg irq r p =>
    cases hgo
    obtain ⟨hoff, hset⟩ := hat
    refine h.inner hmode (hlocked id) rfl rfl ⟨hoff, ?_⟩ (fun _ => id)
      fun irq' _ => isr_setEntry rfl
    show Function.update s.table irq _ = _
    rw [hset]
    rfl
  | clearIsr irq r p =>
    cases hgo
    obtain ⟨hoff, hset⟩ := hat
    refine h.inner hmode (hlocked id) rfl rfl ?_ (fun _ => id)
      fun irq' hon => isr_setEntry_of_ne fun heq => ?_
    · show Function.update s.table irq _ = _
      rw [hset]
      simp [Ev.effect, Entry.cleared, Sys.setEntry]
    · rw [heq] at hon
      exact absurd (hon.symm.trans hoff) (by simp)
  | unlock a ret =>
    cases hgo
    refine h.returns hmode ?_ rfl rfl hat (h.guarded.mono (fun _ => id) (fun _ _ => rfl) rfl)
    show (if _ then _ else _) = _ ∨ _
    split_ifs
    · exact .inl rfl
    · exact .inr rfl

/-- **One step.** -/
theorem step {act : Act T F} (h : Inv boot s) (hstep : s.step act = some s') : Inv boot s' := by
  cases act with
  | call t a =>
    obtain ⟨⟨hruns, hidle⟩, ⟨⟩⟩ := Option.ite_none_right_eq_some.mp hstep
    have hat := h.at_pc hruns.1
    rw [hidle] at hat
    exact h.enter hruns.1 hat
  | go t =>
    obtain ⟨hruns, hgo⟩ := Option.ite_none_right_eq_some.mp hstep
    exact h.go hruns.1 hgo
  | lock t =>
    obtain ⟨⟨hruns, hidle⟩, ⟨⟩⟩ := Option.ite_none_right_eq_some.mp hstep
    exact h.own hruns.1 hidle (.inr rfl) rfl rfl rfl rfl
  | unlock t =>
    obtain ⟨⟨hruns, hidle⟩, ⟨⟩⟩ := Option.ite_none_right_eq_some.mp hstep
    exact h.own hruns.1 hidle (.inl rfl) rfl rfl rfl rfl
  | interrupt t irq =>
    obtain ⟨-, ⟨⟩⟩ := Option.ite_none_right_eq_some.mp hstep
    exact ⟨h.outside, h.settled, fun t hm => (h.inside t hm).congr rfl rfl rfl, h.calling, h.guarded, h.lawful⟩
  | di t =>
    simp only [Sys.step] at hstep
    split at hstep
    · rename_i irq rest hfree hstubs
      cases hstep
      refine h.served (fun t => by rw [hfree]; simp) (fun _ => by simp) rfl rfl rfl rfl ?_ h.lawful h.guarded
      intro t' irq' hcall
      simp only [Mode.serving.injEq] at hcall
      split_ifs at hcall <;> cases hcall.2
    · cases hstep
  | serve =>
    simp only [Sys.step] at hstep
    split at hstep
    · rename_i t p hserving
      cases hstep
      exact h.serve hserving
    · cases hstep

end Inv

theorem inv_init : Inv boot (init boot : Sys T F) where
  outside _ _ := trivial
  settled _ := rfl
  inside _ hm := by cases hm
  calling _ _ hm := by cases hm
  guarded _ hon := by cases hon
  lawful := .nil

variable [DecidableEq T] [DecidableEq F]

/-- **Every call of a handler is lawful.** -/
theorem lawful_of_reaches (h : Reaches step anyStep (init boot) s) : Regular (Lawful boot) s.log :=
  (h.invariant (fun hinv _ hstep => Inv.step hinv hstep) inv_init).lawful

/-- **A disconnected handler is never called again.**  Of the handlers called in a run: one that was disconnected
was connected again since; each is the one connected to its source, with its parameter; and for
`z_irq_spurious`, which stands in the table for no handler, the source was enabled without one. -/
theorem handlers_connected (h : Reaches step anyStep (init boot) s) :
    (∀ before irq r p between q after,
      s.log = before ++ Ev.returned (.disconnect irq (some r) p) 0 :: (between ++ Ev.call irq ⟨r, q⟩ :: after) →
        r = .spurious ∨ ∃ p' ret, Ev.returned (.connect irq (some r) p') ret ∈ between ∧ 0 ≤ ret) ∧
    (∀ before irq e after, s.log = before ++ Ev.call irq e :: after → connection boot before irq = e) ∧
    ∀ before irq q after, s.log = before ++ Ev.call irq ⟨.spurious, q⟩ :: after →
      EnabledBare boot before irq := by
  have hlawful := lawful_of_reaches h
  refine ⟨fun before irq r p between q after hlog => ?_, fun before irq e after hlog => (hlawful hlog).1,
    fun before irq q after hlog => (hlawful hlog).2 rfl⟩
  have hsplit : s.log =
      (before ++ .returned (.disconnect irq (some r) p) 0 :: between) ++ .call irq ⟨r, q⟩ :: after := by
    rw [hlog, List.append_assoc, List.cons_append]
  have hcall := (hlawful hsplit).1
  rw [connection_append] at hcall
  rcases isr_connection (congrArg Entry.isr hcall) with hboot | hr | hagain
  · -- right after the disconnection the entry is `z_irq_spurious`
    refine .inl (hboot.symm.trans ?_)
    simp [Ev.effect, Entry.cleared]
  · exact .inl hr
  · exact .inr hagain

/-- A stub of source 1 is entered and is interrupted by the timer before its `DI`.  Meanwhile another thread
disconnects the handler, connects one of its own and enables the source; the late stub calls that one. -/
theorem handlers_connected_late :
    ∃ s : Sys Bool Bool, Reaches step anyStep (init Entry.cleared) s ∧
      s.log = [.returned (.connect 1 (some (.handler false)) 7) 1, .returned (.enable 0) 0,
        .returned (.enable 1) 0, .returned (.disconnect 1 (some (.handler false)) 7) 0,
        .returned (.connect 1 (some (.handler true)) 9) 1, .returned (.enable 1) 0,
        .call 1 ⟨.handler true, 9⟩] ∧
      connection Entry.cleared (s.log.take 6) 1 = ⟨.handler true, 9⟩ := by
  have hend : (runAll step anyStep (init Entry.cleared : Sys Bool Bool)
      [.call false (.connect 1 (some (.handler false)) 7), .go false, .go false, .go false, .go false, .go false,
        .call false (.enable 0), .go false, .call false (.enable 1), .go false,
        .interrupt false 1, .interrupt false 0, .di false, .serve,
        .call true (.disconnect 1 (some (.handler false)) 7),
        .go true, .go true, .go true, .go true, .go true, .go true,
        .call true (.connect 1 (some (.handler true)) 9), .go true, .go true, .go true, .go true, .go true,
        .call true (.enable 1), .go true, .di false, .serve, .serve, .serve]).map log =
      some [.returned (.connect 1 (some (.handler false)) 7) 1, .returned (.enable 0) 0,
        .returned (.enable 1) 0, .returned (.disconnect 1 (some (.handler false)) 7) 0,
        .returned (.connect 1 (some (.handler true)) 9) 1, .returned (.enable 1) 0,
        .call 1 ⟨.handler true, 9⟩] := by
    decide +kernel
  obtain ⟨s, hrun, hlog⟩ := Option.map_eq_some_iff.mp hend
  have hreach := Reaches.of_runAll _ hrun
  have hlast : s.log = s.log.take 6 ++ .call 1 ⟨.handler true, 9⟩ :: [] := by
    rw [hlog]
    rfl
  exact ⟨s, hreach, hlog, (handlers_connected hreach).2.1 (s.log.take 6) 1 _ [] hlast⟩

end Sys

end KlaussRuntime.Zephyr.Irq
