import KlaussRuntime.Machinery.Bytes
import KlaussRuntime.Machinery.Machine
import KlaussRuntime.Machinery.Tables

/-!
# Webapi/Routes — the table of loadable backends (`webapi.c`) and its lock sections

Four slots, each with the URL prefix it is registered for (none when free), the handler (none while the
route is torn down) and the number of calls in flight.  What a thread does between taking and giving
back `api_lock` is one step, and so is each of its atomic accesses outside: the read of
`active_routes` before the lock, the read of `inflight` in the drain loop, the decrement after the
handler has returned.  A call inside a handler counts as a thread of its own.

Two ghosts tell registrations apart: the log of all of them, and in each slot and with each thread the
number of the registration it belongs to.
-/

namespace KlaussRuntime.Webapi

open Machinery

def maxBackends : ℕ := 4

/-- `sizeof(routes[0].prefix)` -/
def nameSize : ℕ := 24

abbrev Slot := Fin maxBackends

instance : NeZero maxBackends := ⟨by decide⟩

/-! ## The table -/

structure Route (H : Type) where
  /-- the prefix; empty in a free slot -/
  name : List Byte
  /-- none while being torn down -/
  fn : Option H
  inflight : ℤ
  /-- which registration this is -/
  reg : ℕ

structure Table (H : Type) where
  routes : Slot → Route H
  activeRoutes : ℤ
  /-- every registration there was, with its prefix and handler -/
  log : List (List Byte × H)

inductive Errno where
  | einval
  | eexist
  | enomem
deriving DecidableEq

variable {H : Type}

namespace Table

def start : Table H := ⟨fun _ => ⟨[], none, 0, 0⟩, 0, []⟩

def setRoute (tb : Table H) (i : Slot) (r : Route H) : Table H :=
  { tb with routes := Function.update tb.routes i r }

def freeSlot (tb : Table H) : Option Slot :=
  (List.finRange maxBackends).find? fun i => (tb.routes i).name = []

/-- The slot of a prefix. -/
def slotOf (tb : Table H) (name : List Byte) : Option Slot :=
  (List.finRange maxBackends).find? fun i => (tb.routes i).name ≠ [] ∧ (tb.routes i).name = name

/-- A registration into a free slot. -/
def occupy (tb : Table H) (i : Slot) (name : List Byte) (fn : H) : Table H :=
  { tb.setRoute i ⟨name, some fn, 0, tb.log.length⟩ with
    activeRoutes := tb.activeRoutes + 1
    log := tb.log ++ [(name, fn)] }

/-- `webapi_register`; none is a null pointer. -/
def register (tb : Table H) (name : Option (List Byte)) (fn : Option H) : Except Errno (Table H) :=
  match name, fn with
  | some name, some fn =>
    if name.head? ≠ some 0x2f ∨ name.length ≥ nameSize then .error .einval
    else if (tb.slotOf name).isSome then .error .eexist
    else
      match tb.freeSlot with
      | none => .error .enomem
      | some i => .ok (tb.occupy i name fn)
  | _, _ => .error .einval

/-- The first section of `webapi_unregister`. -/
def retire (tb : Table H) (i : Slot) : Table H :=
  { tb.setRoute i { tb.routes i with fn := none } with activeRoutes := tb.activeRoutes - 1 }

/-- The second section of `webapi_unregister`. -/
def free (tb : Table H) (i : Slot) : Table H := tb.setRoute i { tb.routes i with name := [] }

/-- `atomic_inc(&best->inflight)` -/
def pin (tb : Table H) (i : Slot) : Table H :=
  tb.setRoute i { tb.routes i with inflight := (tb.routes i).inflight + 1 }

/-- `atomic_dec(&best->inflight)` -/
def unpin (tb : Table H) (i : Slot) : Table H :=
  tb.setRoute i { tb.routes i with inflight := (tb.routes i).inflight - 1 }

/-- A route that may take a request. -/
def fits (tb : Table H) (url : List Byte) (i : Slot) : Bool :=
  (tb.routes i).fn.isSome && (tb.routes i).name ≠ [] && (tb.routes i).name.isPrefixOf url

/-- The loop of `webapi_handle`. -/
def best (tb : Table H) (url : List Byte) : Option Slot :=
  bestOf (tb.fits url) (fun i => (tb.routes i).name.length) (List.finRange maxBackends)

end Table

/-! ## Threads -/

inductive Phase (H : Type) where
  | idle
  /-- in `webapi_handle`, about to take the lock -/
  | dispatching (url : List Byte)
  /-- the route is pinned, the handler not yet called -/
  | pinned (i : Slot) (reg : ℕ) (fn : H)
  | inside (i : Slot) (reg : ℕ) (fn : H)
  /-- back from the handler, the pin not yet given back -/
  | leaving (i : Slot) (reg : ℕ)
  /-- in `webapi_unregister` of a prefix, waiting for the slot's calls to end -/
  | draining (name : List Byte) (i : Slot)
  /-- …and having found that none is left -/
  | drained (name : List Byte) (i : Slot)

/-- The pin a thread has: the slot and the registration. -/
def Phase.pin : Phase H → Option (Slot × ℕ)
  | .pinned i reg _ | .inside i reg _ | .leaving i reg => some (i, reg)
  | _ => none

/-- The handler a thread is to call or is in, and the registration it is from. -/
def Phase.call : Phase H → Option (ℕ × H)
  | .pinned _ reg fn | .inside _ reg fn => some (reg, fn)
  | _ => none

/-- The slot a thread is tearing down, and its prefix. -/
def Phase.unregistering : Phase H → Option (List Byte × Slot)
  | .draining name i | .drained name i => some (name, i)
  | _ => none

/-- A pin of this slot. -/
def Phase.pins (i : Slot) (ph : Phase H) : Bool := ph.pin.any (·.1 = i)

structure Sys (T H : Type) where
  table : Table H
  phase : T → Phase H

inductive Act (T H : Type) where
  /-- a call of `webapi_handle`, up to the read of `active_routes` -/
  | handle (t : T) (url : List Byte)
  /-- its lock section -/
  | dispatch (t : T)
  | enter (t : T)
  | leave (t : T)
  | unpin (t : T)
  | register (name : Option (List Byte)) (fn : Option H)
  /-- a call of `webapi_unregister`, up to the end of its first lock section -/
  | unregister (t : T) (name : Option (List Byte))
  /-- a round of its drain loop -/
  | drain (t : T)
  /-- its second lock section -/
  | free (t : T)

variable {T : Type} [DecidableEq T]

namespace Sys

def start : Sys T H := ⟨.start, fun _ => .idle⟩

def move (s : Sys T H) (t : T) (ph : Phase H) : Sys T H :=
  { s with phase := Function.update s.phase t ph }

/-- The lock section of `webapi_handle`. -/
def dispatch (s : Sys T H) (t : T) (url : List Byte) : Sys T H :=
  match s.table.best url with
  | none => s.move t .idle
  | some i =>
    match (s.table.routes i).fn with
    | none => s.move t .idle
    | some fn => { s.move t (.pinned i (s.table.routes i).reg fn) with table := s.table.pin i }

/-- `webapi_unregister` up to the end of its first lock section. -/
def unregister (s : Sys T H) (t : T) (name : Option (List Byte)) : Sys T H :=
  match name with
  | none => s
  | some name =>
    match s.table.slotOf name with
    | none => s
    | some i => { s.move t (.draining name i) with table := s.table.retire i }

end Sys

def step (s : Sys T H) : Act T H → Option (Sys T H)
  | .handle t url =>
    match s.phase t with
    | .idle => some (if s.table.activeRoutes = 0 then s else s.move t (.dispatching url))
    | _ => none
  | .dispatch t =>
    match s.phase t with
    | .dispatching url => some (s.dispatch t url)
    | _ => none
  | .enter t =>
    match s.phase t with
    | .pinned i reg fn => some (s.move t (.inside i reg fn))
    | _ => none
  | .leave t =>
    match s.phase t with
    | .inside i reg _ => some (s.move t (.leaving i reg))
    | _ => none
  | .unpin t =>
    match s.phase t with
    | .leaving i _ => some { s.move t .idle with table := s.table.unpin i }
    | _ => none
  | .register name fn =>
    match s.table.register name fn with
    | .ok table => some { s with table := table }
    | .error _ => some s
  | .unregister t name =>
    match s.phase t with
    | .idle => some (s.unregister t name)
    | _ => none
  | .drain t =>
    match s.phase t with
    | .draining name i =>
      some (if (s.table.routes i).inflight ≠ 0 then s else s.move t (.drained name i))
    | _ => none
  | .free t =>
    match s.phase t with
    | .drained _ i => some { s.move t .idle with table := s.table.free i }
    | _ => none

/-- No call of `webapi_unregister` starts while another is under way. -/
def Serialised (s : Sys T H) : Act T H → Prop
  | .unregister _ _ => ∀ t, (s.phase t).unregistering = none
  | _ => True

/-- No call of `webapi_unregister` finds a route that is already being torn down. -/
def Fresh (s : Sys T H) : Act T H → Prop
  | .unregister _ (some name) => ∀ i, s.table.slotOf name = some i → (s.table.routes i).fn ≠ none
  | _ => True

/-- The step is the last of a call `webapi_unregister(name)`. -/
def Returns (name : List Byte) (s : Sys T H) : Act T H → Prop
  | .unregister _ arg => arg = some name ∧ s.table.slotOf name = none
  | .free t => ∃ i, s.phase t = .drained name i
  | _ => False

variable {s s' : Sys T H} {tb tb' : Table H} {t : T} {i : Slot} {name : List Byte}

/-! ## Slots -/

theorem Table.freeSlot_eq_some (h : tb.freeSlot = some i) : (tb.routes i).name = [] := by
  simpa using List.find?_some h

theorem Table.slotOf_eq_some (h : tb.slotOf name = some i) :
    (tb.routes i).name = name ∧ name ≠ [] := by
  have hfound := List.find?_some h
  rw [decide_eq_true_iff] at hfound
  exact ⟨hfound.2, hfound.2 ▸ hfound.1⟩

theorem Table.slotOf_eq_none (h : tb.slotOf name = none) (i : Slot) (hi : (tb.routes i).name ≠ []) :
    (tb.routes i).name ≠ name := by
  have hmiss := List.find?_eq_none.mp h i (List.mem_finRange i)
  rw [decide_eq_true_iff, not_and] at hmiss
  exact hmiss hi

/-- **A registration** goes to a free slot, under a prefix no slot has. -/
theorem Table.register_eq_ok {fn : Option H} {arg : Option (List Byte)}
    (h : tb.register arg fn = .ok tb') :
    ∃ name fn' i, arg = some name ∧ fn = some fn' ∧ name ≠ [] ∧ tb.slotOf name = none ∧
      (tb.routes i).name = [] ∧ tb' = tb.occupy i name fn' := by
  rcases arg with _ | name
  · simp [register] at h
  rcases fn with _ | fn'
  · simp [register] at h
  rw [register] at h
  split_ifs at h with hbad htaken
  split at h
  · cases h
  · next i hfree =>
    rw [not_or, not_not] at hbad
    refine ⟨name, fn', i, rfl, rfl, ?_, Option.not_isSome_iff_eq_none.mp htaken,
      freeSlot_eq_some hfree, (Except.ok.inj h).symm⟩
    rintro rfl
    exact absurd hbad.1 (by decide)

/-! ## What a step can do -/

/-- The system after a thread has moved, over this table. -/
def Sys.after (s : Sys T H) (tb : Table H) (t : T) (ph : Phase H) : Sys T H :=
  ⟨tb, Function.update s.phase t ph⟩

/-- What a step can do. -/
inductive Effect (s : Sys T H) : Act T H → Sys T H → Prop
  | stays {a : Act T H} : Effect s a s
  /-- the thread has the pin and the slot it had, and no new handler -/
  | moves {a : Act T H} (t : T) (ph : Phase H) (hpin : ph.pin = (s.phase t).pin)
      (hcall : ph.call = (s.phase t).call ∨ ph.call = none)
      (hun : ph.unregistering = (s.phase t).unregistering)
      (hended : ∀ name i, ph = .drained name i → (s.table.routes i).inflight = 0) :
      Effect s a (s.move t ph)
  | pins {a : Act T H} (t : T) (url : List Byte) (i : Slot) (fn : H)
      (ht : s.phase t = .dispatching url) (hfn : (s.table.routes i).fn = some fn) :
      Effect s a (s.after (s.table.pin i) t (.pinned i (s.table.routes i).reg fn))
  | unpins {a : Act T H} (t : T) (i : Slot) (reg : ℕ) (ht : s.phase t = .leaving i reg) :
      Effect s a (s.after (s.table.unpin i) t .idle)
  | occupies {a : Act T H} (name : List Byte) (fn : H) (i : Slot) (hne : name ≠ [])
      (hnone : s.table.slotOf name = none) (hfree : (s.table.routes i).name = []) :
      Effect s a ⟨s.table.occupy i name fn, s.phase⟩
  | retires (t : T) (name : List Byte) (i : Slot) (ht : s.phase t = .idle)
      (hslot : s.table.slotOf name = some i) :
      Effect s (.unregister t (some name)) (s.after (s.table.retire i) t (.draining name i))
  | frees (t : T) (name : List Byte) (i : Slot) (ht : s.phase t = .drained name i) :
      Effect s (.free t) (s.after (s.table.free i) t .idle)

theorem effect_of_step {a : Act T H} (hs : step s a = some s') : Effect s a s' := by
  cases a with
  | handle t url =>
    simp only [step] at hs
    split at hs
    · next ht =>
      cases hs
      split_ifs
      · exact .stays
      · exact .moves _ _ (by rw [ht]; rfl) (.inr rfl) (by rw [ht]; rfl) nofun
    · cases hs
  | dispatch t =>
    simp only [step] at hs
    split at hs
    · next url ht =>
      cases hs
      rw [Sys.dispatch]
      split
      · exact .moves _ _ (by rw [ht]; rfl) (.inr rfl) (by rw [ht]; rfl) nofun
      · split
        · exact .moves _ _ (by rw [ht]; rfl) (.inr rfl) (by rw [ht]; rfl) nofun
        · next fn hfn => exact .pins t url _ fn ht hfn
    · cases hs
  | enter t =>
    simp only [step] at hs
    split at hs
    · next i reg fn ht =>
      cases hs
      exact .moves _ _ (by rw [ht]; rfl) (.inl (by rw [ht]; rfl)) (by rw [ht]; rfl) nofun
    · cases hs
  | leave t =>
    simp only [step] at hs
    split at hs
    · next i reg fn ht =>
      cases hs
      exact .moves _ _ (by rw [ht]; rfl) (.inr rfl) (by rw [ht]; rfl) nofun
    · cases hs
  | unpin t =>
    simp only [step] at hs
    split at hs
    · next i reg ht =>
      cases hs
      exact .unpins t i reg ht
    · cases hs
  | register name fn =>
    simp only [step] at hs
    split at hs
    · next tb htb =>
      cases hs
      obtain ⟨name, fn, i, -, -, hne, hnone, hfree, rfl⟩ := Table.register_eq_ok htb
      exact .occupies name fn i hne hnone hfree
    · cases hs
      exact .stays
  | unregister t name =>
    simp only [step] at hs
    split at hs
    · next ht =>
      cases hs
      simp only [Sys.unregister]
      split
      · exact .stays
      · split
        · exact .stays
        · next i hslot => exact .retires t _ i ht hslot
    · cases hs
  | drain t =>
    simp only [step] at hs
    split at hs
    · next name i ht =>
      cases hs
      split_ifs with hzero
      · exact .stays
      · refine .moves _ _ (by rw [ht]; rfl) (.inr rfl) (by rw [ht]; rfl) fun name' j hj => ?_
        obtain ⟨-, rfl⟩ := Phase.drained.inj hj
        exact not_not.mp hzero
    · cases hs
  | free t =>
    simp only [step] at hs
    split at hs
    · next name i ht =>
      cases hs
      exact .frees t name i ht
    · cases hs

end KlaussRuntime.Webapi
