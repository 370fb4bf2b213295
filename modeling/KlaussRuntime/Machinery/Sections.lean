import KlaussRuntime.Machinery.Machine
import Mathlib.Logic.Function.Basic
import Mathlib.Data.List.Basic

/-!
# Machinery/Sections — routines that run with interrupts disabled

Contexts — tasks, and handlers that interrupt them and each other — share a state on one processor.  Some
of what they do is a call of a routine: it disables interrupts and keeps the old enable bit, loads a value,
stores what it makes of it, puts the bit back and returns.  Everything else they do is one step at a time.

A run of such a system is **serial** (`serial_of_reaches`): each call acts as one step, in an order that
keeps the order of every context; and a call leaves the enable bit as it found it
(`enabled_of_returning`).
-/

namespace Machinery

open Function

/-- A family of routines on the shared state `S`: what a call loads, what it stores, what it returns. -/
structure Routines (S K R : Type*) where
  Local : K → Type*
  load : (k : K) → S → Local k
  store : (k : K) → Local k → S → S
  result : (k : K) → Local k → R

namespace Sections

variable {C S K R : Type*} {ρ : Routines S K R}

/-- What a context has done: a call and what it returned, or an access of its own. -/
inductive Event (S K R : Type*)
  | call (k : K) (r : R)
  | access (before after : S)

/-- **The events one after the other**, each call one indivisible step. -/
inductive Serial (Performs : K → S → R → S → Prop) : S → List (C × Event S K R) → S → Prop
  | nil {s : S} : Serial Performs s [] s
  | call {s s' s'' : S} {order : List (C × Event S K R)} {c : C} {k : K} {r : R}
      (h : Serial Performs s order s') (hperforms : Performs k s' r s'') :
      Serial Performs s (order ++ [(c, .call k r)]) s''
  | access {s s' s'' : S} {order : List (C × Event S K R)} {c : C} (h : Serial Performs s order s') :
      Serial Performs s (order ++ [(c, .access s' s'')]) s''

/-- The events of one context. -/
def own [DecidableEq C] (order : List (C × Event S K R)) (c : C) : List (Event S K R) :=
  order.filterMap fun e => if e.1 = c then some e.2 else none

/-- Where a context is. -/
inductive Pc (ρ : Routines S K R)
  | user
  | called (k : K)
  /-- interrupts are disabled, `key` is the bit from before -/
  | locked (k : K) (key : Bool)
  | loaded (k : K) (key : Bool) (old : ρ.Local k)
  | stored (k : K) (key : Bool) (old : ρ.Local k)
  /-- the bit is put back -/
  | returning (k : K) (old : ρ.Local k)

/-- The call that has acted and not returned. -/
def Pc.pending : Pc ρ → List (Event S K R)
  | .stored k _ old | .returning k old => [.call k (ρ.result k old)]
  | _ => []

structure Core (C : Type*) (ρ : Routines S K R) where
  enabled : Bool
  shared : S
  /-- the running context -/
  cur : C
  pc : C → Pc ρ
  /-- the enable bit a context resumes with -/
  frame : C → Bool
  /-- ghost: the enable bit at a context's last call -/
  entry : C → Bool
  /-- ghost: what a context has done, in its order -/
  done : C → List (Event S K R)

inductive Act (C S K : Type*)
  | call (k : K)
  /-- one instruction of the call -/
  | go
  /-- any instruction of the context's own on the shared state -/
  | access (after : S)
  /-- the context's own enabling and disabling -/
  | enable (e : Bool)
  /-- an interrupt: `next` runs, a handler or a task that one switches to -/
  | interrupt (next : C)
  /-- a handler returns or a task gives the processor up; it resumes with the enable bit `e` -/
  | switch (next : C) (e : Bool)

variable [DecidableEq C]

namespace Core

def goto (s : Core C ρ) (p : Pc ρ) : Core C ρ := { s with pc := update s.pc s.cur p }

def record (s : Core C ρ) (e : Event S K R) : Core C ρ :=
  { s with done := update s.done s.cur (s.done s.cur ++ [e]) }

def resume (s : Core C ρ) (next : C) (e : Bool) : Core C ρ :=
  let frame := update s.frame s.cur e
  { s with frame, cur := next, enabled := frame next }

/-- One instruction of a call. -/
def go (s : Core C ρ) : Pc ρ → Option (Core C ρ)
  | .user => none
  | .called k => some ({ s with enabled := false }.goto (.locked k s.enabled))
  | .locked k key => some (s.goto (.loaded k key (ρ.load k s.shared)))
  | .loaded k key old => some ({ s with shared := ρ.store k old s.shared }.goto (.stored k key old))
  | .stored k key old => some ({ s with enabled := key }.goto (.returning k old))
  | .returning k old => some ((s.record (.call k (ρ.result k old))).goto .user)

/-- Whether the running context is in its own code. -/
def inUser (s : Core C ρ) : Bool :=
  match s.pc s.cur with
  | .user => true
  | _ => false

def step (s : Core C ρ) : Act C S K → Option (Core C ρ)
  | .call k =>
    if s.inUser then some ({ s with entry := update s.entry s.cur s.enabled }.goto (.called k))
    else none
  | .go => s.go (s.pc s.cur)
  | .access after =>
    if s.inUser then some { s.record (.access s.shared after) with shared := after } else none
  | .enable e => if s.inUser then some { s with enabled := e } else none
  | .interrupt next => if s.enabled then some (s.resume next s.enabled) else none
  | .switch next e => if s.inUser then some (s.resume next e) else none

/-- Every context is in its own code; `first` runs. -/
def start (shared : S) (first : C) (enabled : Bool) (frame : C → Bool) : Core C ρ where
  enabled
  shared
  cur := first
  pc := fun _ => .user
  frame
  entry := fun _ => true
  done := fun _ => []

end Core

/-! ## Orders -/

theorem own_append (order order' : List (C × Event S K R)) (c : C) :
    own (order ++ order') c = own order c ++ own order' c := List.filterMap_append ..

theorem own_singleton (e : Event S K R) (c : C) : own [(c, e)] c = [e] := by simp [own]

theorem own_singleton_of_ne (e : Event S K R) {c c' : C} (h : c ≠ c') : own [(c, e)] c' = [] := by
  simp [own, h]

/-! ## The invariant -/

variable {Performs : K → S → R → S → Prop} {s s' : Core C ρ} {init : S}

/-- What the running context knows. -/
def Running (enabled entry : Bool) (shared : S) : Pc ρ → Prop
  | .user => True
  | .called _ | .returning _ _ => enabled = entry
  | .locked _ key | .stored _ key _ => enabled = false ∧ key = entry
  | .loaded k key old => (enabled = false ∧ key = entry) ∧ old = ρ.load k shared

/-- What a context that does not run knows: it is at an instruction that can be interrupted. -/
def Waiting (frame entry : Bool) : Pc ρ → Prop
  | .user => True
  | .called _ | .returning _ _ => frame = entry
  | .locked _ _ | .stored _ _ _ | .loaded _ _ _ => False

structure Good (Performs : K → S → R → S → Prop) (init : S) (s : Core C ρ) : Prop where
  running : Running s.enabled (s.entry s.cur) s.shared (s.pc s.cur)
  waiting : ∀ c ≠ s.cur, Waiting (s.frame c) (s.entry c) (s.pc c)
  serial : ∃ order, Serial Performs init order s.shared ∧
    ∀ c, own order c = s.done c ++ (s.pc c).pending

omit [DecidableEq C] in
theorem Waiting.running {frame entry : Bool} {p : Pc ρ} (h : Waiting frame entry p) (shared : S) :
    Running frame entry shared p := by
  cases p with
  | user | called | returning => exact h
  | locked | loaded | stored => exact h.elim

omit [DecidableEq C] in
theorem Running.waiting {entry : Bool} {shared : S} {p : Pc ρ} (h : Running true entry shared p) :
    Waiting true entry p := by
  cases p with
  | user | called | returning => exact h
  | locked | stored => exact absurd h.1 (by decide)
  | loaded => exact absurd h.1.1 (by decide)

theorem Good.resume (h : Good Performs init s) {e : Bool}
    (hcur : Waiting e (s.entry s.cur) (s.pc s.cur)) (next : C) : Good Performs init (s.resume next e) := by
  have hall : ∀ c, Waiting (update s.frame s.cur e c) (s.entry c) (s.pc c) :=
    (forall_update_iff s.frame fun c f => Waiting f (s.entry c) (s.pc c)).mpr
      ⟨hcur, h.waiting⟩
  exact ⟨(hall next).running _, fun c _ => hall c, h.serial⟩

theorem Good.move (h : Good Performs init s) (hcur : s'.cur = s.cur)
    (hframe : s'.frame = s.frame) (hentry : ∀ c ≠ s.cur, s'.entry c = s.entry c)
    (hpc : ∀ c ≠ s.cur, s'.pc c = s.pc c)
    (hrunning : Running s'.enabled (s'.entry s.cur) s'.shared (s'.pc s.cur))
    (hserial : ∃ order, Serial Performs init order s'.shared ∧
      ∀ c, own order c = s'.done c ++ (s'.pc c).pending) : Good Performs init s' := by
  refine ⟨hcur ▸ hrunning, fun c hc => ?_, hserial⟩
  rw [hcur] at hc
  rw [hframe, hentry c hc, hpc c hc]
  exact h.waiting c hc

/-- The order of a context that goes on, where the call it is in has acted or not as before. -/
theorem Good.own_goto {order : List (C × Event S K R)}
    (howns : ∀ c, own order c = s.done c ++ (s.pc c).pending) {p : Pc ρ}
    (hp : p.pending = (s.pc s.cur).pending) (c : C) :
    own order c = s.done c ++ (update s.pc s.cur p c).pending := by
  rcases eq_or_ne c s.cur with rfl | hne
  · rw [update_self, hp, howns]
  · rw [update_of_ne hne, howns]

theorem Good.goto (h : Good Performs init s) {e : Bool} {p : Pc ρ}
    (hp : p.pending = (s.pc s.cur).pending) (hrunning : Running e (s.entry s.cur) s.shared p) :
    Good Performs init ({ s with enabled := e }.goto p) := by
  obtain ⟨order, hserial, howns⟩ := h.serial
  refine h.move rfl rfl (fun _ _ => rfl) (fun c hc => update_of_ne hc _ _) ?_
    ⟨order, hserial, own_goto howns hp⟩
  change Running e (s.entry s.cur) s.shared (update s.pc s.cur p s.cur)
  rw [update_self]
  exact hrunning

theorem Good.call (h : Good Performs init s) (hpc : s.pc s.cur = .user) (k : K) :
    Good Performs init
      ({ s with entry := update s.entry s.cur s.enabled }.goto (.called k)) := by
  obtain ⟨order, hserial, howns⟩ := h.serial
  refine h.move rfl rfl (fun c hc => update_of_ne hc _ _)
    (fun c hc => update_of_ne hc _ _) ?_
    ⟨order, hserial, own_goto howns (by rw [hpc]; rfl)⟩
  change Running s.enabled (update s.entry s.cur s.enabled s.cur) s.shared
    (update s.pc s.cur (.called k) s.cur)
  rw [update_self, update_self]
  rfl

/-- **The call acts**: what it loaded is still there, since interrupts were disabled. -/
theorem Good.store
    (hperforms : ∀ k s, Performs k s (ρ.result k (ρ.load k s)) (ρ.store k (ρ.load k s) s))
    (h : Good Performs init s) {k : K} {key : Bool} {old : ρ.Local k}
    (hpc : s.pc s.cur = .loaded k key old) :
    Good Performs init ({ s with shared := ρ.store k old s.shared }.goto (.stored k key old)) := by
  have hrunning := h.running
  rw [hpc] at hrunning
  obtain ⟨hoff, rfl⟩ := hrunning
  obtain ⟨order, hserial, howns⟩ := h.serial
  refine h.move rfl rfl (fun _ _ => rfl) (fun c hc => update_of_ne hc _ _) ?_
    ⟨_, hserial.call (c := s.cur) (hperforms k s.shared), fun c => ?_⟩
  · change Running s.enabled (s.entry s.cur) _ (update s.pc s.cur _ s.cur)
    rw [update_self]
    exact hoff
  · change _ = s.done c ++ (update s.pc s.cur _ c).pending
    rw [own_append, howns]
    rcases eq_or_ne c s.cur with rfl | hne
    · rw [own_singleton, hpc, update_self]
      exact congrArg (· ++ _) (List.append_nil _)
    · rw [own_singleton_of_ne _ hne.symm, update_of_ne hne, List.append_nil]

theorem Good.ret (h : Good Performs init s) {k : K} {old : ρ.Local k}
    (hpc : s.pc s.cur = .returning k old) :
    Good Performs init ((s.record (.call k (ρ.result k old))).goto .user) := by
  obtain ⟨order, hserial, howns⟩ := h.serial
  refine h.move rfl rfl (fun _ _ => rfl) (fun c hc => update_of_ne hc _ _) ?_
    ⟨order, hserial, fun c => ?_⟩
  · change Running s.enabled (s.entry s.cur) s.shared (update s.pc s.cur .user s.cur)
    rw [update_self]
    trivial
  · change _ = update s.done s.cur _ c ++ (update s.pc s.cur .user c).pending
    rw [howns]
    rcases eq_or_ne c s.cur with rfl | hne
    · rw [update_self, update_self, hpc]
      exact (List.append_nil _).symm
    · rw [update_of_ne hne, update_of_ne hne]

theorem Good.access (h : Good Performs init s) (hpc : s.pc s.cur = .user) (after : S) :
    Good Performs init { s.record (.access s.shared after) with shared := after } := by
  obtain ⟨order, hserial, howns⟩ := h.serial
  refine h.move rfl rfl (fun _ _ => rfl) (fun _ _ => rfl) ?_
    ⟨_, hserial.access (c := s.cur), fun c => ?_⟩
  · change Running _ _ _ (s.pc s.cur)
    rw [hpc]
    trivial
  · change _ = update s.done s.cur _ c ++ (s.pc c).pending
    rw [own_append, howns]
    rcases eq_or_ne c s.cur with rfl | hne
    · rw [own_singleton, update_self, hpc]
      simp [Pc.pending]
    · rw [own_singleton_of_ne _ hne.symm, update_of_ne hne, List.append_nil]

theorem Good.go (hperforms : ∀ k s, Performs k s (ρ.result k (ρ.load k s)) (ρ.store k (ρ.load k s) s))
    (h : Good Performs init s) (hstep : s.go (s.pc s.cur) = some s') : Good Performs init s' := by
  have hrunning := h.running
  cases hpc : s.pc s.cur with
  | user => simp [hpc, Core.go] at hstep
  | called k =>
    rw [hpc] at hrunning hstep
    exact Option.some.inj hstep ▸ h.goto (by rw [hpc]; rfl) ⟨rfl, hrunning⟩
  | locked k key =>
    rw [hpc] at hrunning hstep
    exact Option.some.inj hstep ▸ h.goto (by rw [hpc]; rfl) ⟨hrunning, rfl⟩
  | loaded k key old =>
    rw [hpc] at hstep
    exact Option.some.inj hstep ▸ h.store hperforms hpc
  | stored k key old =>
    rw [hpc] at hrunning hstep
    exact Option.some.inj hstep ▸ h.goto (by rw [hpc]; rfl) hrunning.2
  | returning k old =>
    rw [hpc] at hstep
    exact Option.some.inj hstep ▸ h.ret hpc

omit [DecidableEq C] in
theorem pc_of_inUser (h : s.inUser = true) : s.pc s.cur = .user := by
  rw [Core.inUser] at h
  split at h
  · assumption
  · simp at h

theorem Good.step (hperforms : ∀ k s, Performs k s (ρ.result k (ρ.load k s)) (ρ.store k (ρ.load k s) s))
    (h : Good Performs init s) {a : Act C S K} (hstep : s.step a = some s') : Good Performs init s' := by
  cases a with
  | go => exact h.go hperforms hstep
  | call k =>
    rw [Core.step] at hstep
    split_ifs at hstep with huser
    exact Option.some.inj hstep ▸ h.call (pc_of_inUser huser) k
  | access after =>
    rw [Core.step] at hstep
    split_ifs at hstep with huser
    exact Option.some.inj hstep ▸ h.access (pc_of_inUser huser) after
  | enable e =>
    rw [Core.step] at hstep
    split_ifs at hstep with huser
    have hgood := h.goto (e := e) (p := .user) (by rw [pc_of_inUser huser]) trivial
    rw [Core.goto, ← pc_of_inUser huser, update_eq_self] at hgood
    exact Option.some.inj hstep ▸ hgood
  | interrupt next =>
    rw [Core.step] at hstep
    split_ifs at hstep with hon
    have hrunning := h.running
    rw [hon] at hrunning hstep
    exact Option.some.inj hstep ▸ h.resume hrunning.waiting next
  | switch next e =>
    rw [Core.step] at hstep
    split_ifs at hstep with huser
    exact Option.some.inj hstep ▸ h.resume (by rw [pc_of_inUser huser]; trivial) next

theorem good_start (shared : S) (first : C) (enabled : Bool) (frame : C → Bool) :
    Good Performs shared (Core.start (ρ := ρ) shared first enabled frame) where
  running := trivial
  waiting _ _ := trivial
  serial := ⟨[], .nil, fun _ => rfl⟩

variable {first : C} {enabled : Bool} {frame : C → Bool}

theorem good_of_reaches
    (hperforms : ∀ k s, Performs k s (ρ.result k (ρ.load k s)) (ρ.store k (ρ.load k s) s))
    (hreach : Reaches Core.step anyStep (Core.start init first enabled frame) s) :
    Good Performs init s :=
  hreach.invariant (fun h _ hstep => h.step hperforms hstep) (good_start ..)

/-- **A run is serial**: its calls act as one step each, in an order that every context keeps. -/
theorem serial_of_reaches
    (hperforms : ∀ k s, Performs k s (ρ.result k (ρ.load k s)) (ρ.store k (ρ.load k s) s))
    (hreach : Reaches Core.step anyStep (Core.start init first enabled frame) s) :
    ∃ order, Serial Performs init order s.shared ∧ ∀ c, own order c = s.done c ++ (s.pc c).pending :=
  (good_of_reaches hperforms hreach).serial

/-- **A call leaves the enable bit as it found it.** -/
theorem enabled_of_returning (hreach : Reaches Core.step anyStep (Core.start init first enabled frame) s)
    {k : K} {old : ρ.Local k} (hpc : s.pc s.cur = .returning k old) : s.enabled = s.entry s.cur := by
  have hgood : Good (fun _ _ _ _ => True) init s := good_of_reaches (fun _ _ => trivial) hreach
  have hrunning := hgood.running
  rw [hpc] at hrunning
  exact hrunning

end Sections

end Machinery
