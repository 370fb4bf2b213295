import KlaussRuntime.Machinery.Bytes
import KlaussRuntime.Machinery.Machine
import KlaussRuntime.Machinery.Tokens
import Mathlib.Data.Sum.Basic

/-!
# Loader/Services — resident services, loaded and stopped by several shells

`llext_service_load` reads a file, loads it as an extension under the service's name and puts both into
a free entry of `svc_tab`; `llext_service_stop` takes them out.  The table is under `svc_lock`, but a
call gives the lock back *before* it unloads an extension and frees its file: for a while the loader
still has an extension that is in no entry, and `llext_load` under the same name would share it.

A `Sys` is the table, where each thread is in its call, and the loader.  Extensions and file buffers
are `Machinery.Ledger` tokens; an entry of the table or a call on the way has them (`Sys.holding`).
`Sys.Once` states that a service is loaded once at a time; `Own` is the bookkeeping behind it, with a rule
for each of the things a call does to an extension and its file.
-/

namespace KlaussRuntime.Services

open Machinery Function

abbrev extSvcMax : ℕ := 4

/-- What the two calls return. -/
inductive Result
  | ok
  | einval
  | eexist
  | enomem
  | eio
  | enoexec
  | enosys
  | eagain
  | enoent
  deriving DecidableEq

/-- A service with its extension and its file buffer: an entry of `svc_tab`, or the variables of a
call. -/
structure Entry where
  name : List Byte
  ext : ℕ
  buf : ℕ
  deriving DecidableEq

/-- What a call has left to do once it has given the lock back. -/
inductive Rest
  | ret (r : Result)
  /-- `k_free(buf)` -/
  | free (buf : ℕ) (r : Result)
  /-- `llext_unload(&ext)`, then `k_free(buf)` -/
  | unload (e : Entry) (r : Result)
  deriving DecidableEq

/-- Where a thread is; `i` is the entry its call has found. -/
inductive Pc
  | returned (r : Option Result)
  /-- `llext_service_load` waits for the lock -/
  | loadLock (name : List Byte)
  | loadScan (name : List Byte)
  /-- `read_file` -/
  | loadRead (name : List Byte) (i : Fin extSvcMax)
  /-- `llext_load` -/
  | loadExt (name : List Byte) (i : Fin extSvcMax) (buf : ℕ)
  /-- `llext_find_sym` of `svc_start` and `svc_stop` -/
  | loadSyms (i : Fin extSvcMax) (e : Entry)
  /-- `start()` -/
  | loadStart (i : Fin extSvcMax) (e : Entry)
  | loadStore (i : Fin extSvcMax) (e : Entry)
  /-- `llext_service_stop` waits for the lock -/
  | stopLock (name : List Byte)
  | stopFind (name : List Byte)
  /-- `slot->stop()` -/
  | stopCall (i : Fin extSvcMax)
  /-- the entry is read and cleared -/
  | stopTake (i : Fin extSvcMax)
  | unlock (rest : Rest)
  | rest (rest : Rest)
  deriving DecidableEq

/-- What the loader knows of an extension: its name, the file it was made of and its use count. -/
structure Loaded where
  name : List Byte
  buf : ℕ
  uses : ℕ
  deriving DecidableEq

abbrev SvcTab := Fin extSvcMax → Option Entry

structure Sys (T : Type*) where
  lock : Option T
  tab : SvcTab
  pc : T → Pc
  exts : Ledger
  bufs : Ledger
  /-- the extensions that are loaded -/
  loaded : ℕ → Option Loaded
  /-- the names `llext_load` was called with while they were loaded -/
  shared : List (List Byte)

variable {T : Type*} [DecidableEq T]

def Sys.init : Sys T where
  lock := none
  tab := fun _ => none
  pc := fun _ => .returned none
  exts := .empty
  bufs := .empty
  loaded := fun _ => none
  shared := []

namespace Sys

/-- `llext_by_name`. -/
def byName (s : Sys T) (name : List Byte) : Option ℕ :=
  (List.range s.exts.issued).find? fun x => (s.loaded x).any (·.name = name)

def goto (s : Sys T) (t : T) (p : Pc) : Sys T := { s with pc := update s.pc t p }

def setTab (s : Sys T) (i : Fin extSvcMax) (e : Option Entry) : Sys T :=
  { s with tab := update s.tab i e }

/-- `llext_load` under a new name. -/
def loadNew (s : Sys T) (name : List Byte) (buf : ℕ) : Sys T :=
  { s with
    exts := s.exts.issue
    loaded := update s.loaded s.exts.issued (some ⟨name, buf, 1⟩) }

/-- `llext_load` under the name of the extension `x`. -/
def loadAgain (s : Sys T) (name : List Byte) (x : ℕ) : Sys T :=
  { s with
    loaded := update s.loaded x ((s.loaded x).map fun l => { l with uses := l.uses + 1 })
    shared := name :: s.shared }

/-- `llext_unload`. -/
def unload (s : Sys T) (x : ℕ) : Sys T :=
  { s with
    exts := s.exts.spend x
    loaded := update s.loaded x
      ((s.loaded x).bind fun l => if l.uses ≤ 1 then none else some { l with uses := l.uses - 1 }) }

/-- The one pass over the table: another service of that name, or the first free entry. -/
def scan (tab : SvcTab) (name : List Byte) : Result ⊕ Fin extSvcMax :=
  if ∃ i, (tab i).any (·.name = name) then .inl .eexist
  else match (List.finRange extSvcMax).find? fun i => (tab i).isNone with
    | some i => .inr i
    | none => .inl .enomem

/-- The entry of a service. -/
def lookup (tab : SvcTab) (name : List Byte) : Option (Fin extSvcMax) :=
  (List.finRange extSvcMax).find? fun i => (tab i).any (·.name = name)

/-- One step of thread `t` in its call; `ok` is how the function it calls there ends. -/
def service (s : Sys T) (t : T) (ok : Bool) : Option (Sys T) :=
  match s.pc t with
  | .returned _ => none
  | .loadLock name =>
    if s.lock = none then some ({ s with lock := some t }.goto t (.loadScan name)) else none
  | .loadScan name =>
    match scan s.tab name with
    | .inl r => some (s.goto t (.unlock (.ret r)))
    | .inr i => some (s.goto t (.loadRead name i))
  | .loadRead name i =>
    if ok then some ({ s with bufs := s.bufs.issue }.goto t (.loadExt name i s.bufs.issued))
    else some (s.goto t (.unlock (.ret .eio)))
  | .loadExt name i buf =>
    match s.byName name with
    | some x =>
      if ok then some ((s.loadAgain name x).goto t (.loadSyms i ⟨name, x, buf⟩))
      else some ((s.loadAgain name x).goto t (.unlock (.free buf .enoexec)))
    | none =>
      if ok then some ((s.loadNew name buf).goto t (.loadSyms i ⟨name, s.exts.issued, buf⟩))
      else some (s.goto t (.unlock (.free buf .enoexec)))
  | .loadSyms i e =>
    if ok then some (s.goto t (.loadStart i e)) else some (s.goto t (.unlock (.unload e .enosys)))
  | .loadStart i e =>
    if ok then some (s.goto t (.loadStore i e)) else some (s.goto t (.unlock (.unload e .eagain)))
  | .loadStore i e => some ((s.setTab i (some e)).goto t (.unlock (.ret .ok)))
  | .stopLock name =>
    if s.lock = none then some ({ s with lock := some t }.goto t (.stopFind name)) else none
  | .stopFind name =>
    match lookup s.tab name with
    | none => some (s.goto t (.unlock (.ret .enoent)))
    | some i => some (s.goto t (.stopCall i))
  -- an error of `stop()` is only logged
  | .stopCall i => some (s.goto t (.stopTake i))
  | .stopTake i => (s.tab i).map fun e => (s.setTab i none).goto t (.unlock (.unload e .ok))
  | .unlock rest => some ({ s with lock := none }.goto t (.rest rest))
  | .rest (.ret r) => some (s.goto t (.returned (some r)))
  | .rest (.free buf r) => some ({ s with bufs := s.bufs.spend buf }.goto t (.rest (.ret r)))
  | .rest (.unload e r) => some ((s.unload e.ext).goto t (.rest (.free e.buf r)))

end Sys

inductive Act (T : Type*)
  | load (t : T) (name : Option (List Byte))
  | stop (t : T) (name : List Byte)
  | service (t : T) (ok : Bool)

/-- `llext_service_load` begins; a name of no or of too many bytes is refused. -/
def loadCall : Option (List Byte) → Pc
  | none => .returned (some .einval)
  | some name =>
    if name = [] ∨ 16 ≤ name.length then .returned (some .einval) else .loadLock name

/-- A thread that is in no call begins one. -/
def Sys.enter (s : Sys T) (t : T) (p : Pc) : Option (Sys T) :=
  match s.pc t with
  | .returned _ => some (s.goto t p)
  | _ => none

def Sys.step (s : Sys T) : Act T → Option (Sys T)
  | .load t name => s.enter t (loadCall name)
  | .stop t name => s.enter t (.stopLock name)
  | .service t ok => s.service t ok

/-! ## Who has what -/

/-- What an entry or a call has in its hands. -/
inductive Holding
  | nothing
  | buf (b : ℕ)
  | both (e : Entry)

namespace Holding

def ext : Holding → Option ℕ
  | .both e => some e.ext
  | _ => none

def file : Holding → Option ℕ
  | .buf b => some b
  | .both e => some e.buf
  | .nothing => none

end Holding

def Rest.holding : Rest → Holding
  | .ret _ => .nothing
  | .free b _ => .buf b
  | .unload e _ => .both e

def Pc.holding : Pc → Holding
  | .loadExt _ _ b => .buf b
  | .loadSyms _ e | .loadStart _ e | .loadStore _ e => .both e
  | .unlock k | .rest k => k.holding
  | _ => .nothing

def entryHolding : Option Entry → Holding
  | some e => .both e
  | none => .nothing

/-- Calls and entries. -/
def Sys.holding (s : Sys T) : T ⊕ Fin extSvcMax → Holding :=
  Sum.elim (fun t => (s.pc t).holding) fun i => entryHolding (s.tab i)

/-- **A service is loaded once at a time.** -/
structure Sys.Once (s : Sys T) : Prop where
  /-- `llext_load` was never called with the name of an extension that was loaded -/
  shared : s.shared = []
  names : ∀ i j e e', s.tab i = some e → s.tab j = some e' → e.name = e'.name → i = j
  /-- a loaded extension and its file are in one entry, or in the hands of one call -/
  loaded : ∀ x l, s.loaded x = some l →
    ∃ h e, s.holding h = .both e ∧ e.ext = x ∧ e.name = l.name ∧ e.buf = l.buf ∧
      (∀ h', (s.holding h').ext = some x → h' = h) ∧
      (∀ h', (s.holding h').file = some e.buf → h' = h)
  /-- what was loaded or read is unloaded or freed once, or somebody has it -/
  exts : ∀ x < s.exts.issued, s.exts.spent x = 1 ∨
    s.exts.spent x = 0 ∧ ∃ h, (s.holding h).ext = some x
  bufs : ∀ b < s.bufs.issued, s.bufs.spent b = 1 ∨
    s.bufs.spent b = 0 ∧ ∃ h, (s.holding h).file = some b

/-- The name `llext_load` is called with. -/
def Pc.loads : Pc → Option (List Byte)
  | .loadExt name _ _ => some name
  | _ => none

/-- The name of the extension that is unloaded after the lock was given back. -/
def Pc.unloads : Pc → Option (List Byte)
  | .rest (.unload e _) => some e.name
  | _ => none

/-- No call loads a name while another is about to unload an extension of that name. -/
def careful (s : Sys T) : Act T → Prop
  | .service t _ => ∀ name ∈ (s.pc t).loads, ∀ u, (s.pc u).unloads ≠ some name
  | _ => True

section Own

variable {H : Type*} [DecidableEq H] {exts bufs : Ledger} {loaded : ℕ → Option Loaded}
  {hold : H → Holding} {x y : H} {b : ℕ} {e : Entry}

/-- Every extension and every buffer has one holder until it is released, and the loader has what the
holders have. -/
structure Own (exts bufs : Ledger) (loaded : ℕ → Option Loaded) (hold : H → Holding) : Prop where
  extOne : Linear exts (Holding.ext ∘ hold)
  bufOne : Linear bufs (Holding.file ∘ hold)
  known : ∀ x e, hold x = .both e → loaded e.ext = some ⟨e.name, e.buf, 1⟩
  live : ∀ n l, loaded n = some l → n < exts.issued ∧ exts.spent n = 0

omit [DecidableEq H] in
theorem Own.holder_of_loaded (h : Own exts bufs loaded hold) {n : ℕ} {l : Loaded}
    (hl : loaded n = some l) :
    ∃ x e, hold x = .both e ∧ e.ext = n ∧ e.name = l.name ∧ e.buf = l.buf := by
  obtain ⟨hlt, hspent⟩ := h.live n l hl
  obtain ⟨x, hx⟩ := h.extOne.kept n hlt hspent
  cases hhold : hold x with
  | nothing => simp [hhold, Holding.ext] at hx
  | buf b => simp [hhold, Holding.ext] at hx
  | both e =>
    obtain rfl : e.ext = n := by simpa [hhold, Holding.ext] using hx
    have heq := h.known x e hhold
    rw [hl, Option.some.injEq] at heq
    exact ⟨x, e, hhold, rfl, by rw [heq], by rw [heq]⟩

theorem Own.read (h : Own exts bufs loaded hold) (hx : hold x = .nothing) :
    Own exts bufs.issue loaded (update hold x (.buf bufs.issued)) where
  extOne := by
    rw [comp_update]
    have hsame : (Holding.ext ∘ hold) x = Holding.ext (.buf bufs.issued) := by simp [hx, Holding.ext]
    rw [← hsame, update_eq_self]
    exact h.extOne
  bufOne := by
    rw [comp_update]
    exact h.bufOne.issue (by simp [hx, Holding.file])
  known z e hz := by
    rcases eq_or_ne z x with rfl | hne
    · simp at hz
    · exact h.known z e (by simpa [hne] using hz)
  live := h.live

theorem Own.load (h : Own exts bufs loaded hold) (hx : hold x = .buf b) (name : List Byte) :
    Own exts.issue bufs (update loaded exts.issued (some ⟨name, b, 1⟩))
      (update hold x (.both ⟨name, exts.issued, b⟩)) where
  extOne := by
    rw [comp_update]
    exact h.extOne.issue (by simp [hx, Holding.ext])
  bufOne := by
    rw [comp_update]
    have hsame : (Holding.file ∘ hold) x = Holding.file (.both ⟨name, exts.issued, b⟩) := by
      simp [hx, Holding.file]
    rw [← hsame, update_eq_self]
    exact h.bufOne
  known z e hz := by
    rcases eq_or_ne z x with rfl | hne
    · obtain rfl : _ = e := by simpa using hz
      exact update_self _ _ _
    · rw [update_of_ne hne] at hz
      have hlt := (h.extOne.held z e.ext (by simp [hz, Holding.ext])).1
      rw [update_of_ne hlt.ne]
      exact h.known z e hz
  live n l hl := by
    rcases eq_or_ne n exts.issued with rfl | hne
    · exact ⟨Nat.lt_succ_self _, h.extOne.fresh _ le_rfl⟩
    · rw [update_of_ne hne] at hl
      exact ⟨Nat.lt_succ_of_lt (h.live n l hl).1, (h.live n l hl).2⟩

theorem Own.pass (h : Own exts bufs loaded hold) (hx : hold x = .both e) (hy : hold y = .nothing) :
    Own exts bufs loaded (update (update hold x .nothing) y (.both e)) where
  extOne := by
    rw [comp_update, comp_update]
    exact h.extOne.pass (by simp [hx, Holding.ext]) (by simp [hy, Holding.ext])
  bufOne := by
    rw [comp_update, comp_update]
    exact h.bufOne.pass (by simp [hx, Holding.file]) (by simp [hy, Holding.file])
  known z e' hz := by
    rcases eq_or_ne z y with rfl | hzy
    · obtain rfl : e = e' := by simpa using hz
      exact h.known x e hx
    rw [update_of_ne hzy] at hz
    rcases eq_or_ne z x with rfl | hzx
    · simp at hz
    · exact h.known z e' (by simpa [hzx] using hz)
  live := h.live

theorem Own.unload (h : Own exts bufs loaded hold) (hx : hold x = .both e) :
    Own (exts.spend e.ext) bufs (update loaded e.ext none)
      (update hold x (.buf e.buf)) where
  extOne := by
    rw [comp_update]
    exact h.extOne.spend (by simp [hx, Holding.ext])
  bufOne := by
    rw [comp_update]
    have hsame : (Holding.file ∘ hold) x = Holding.file (.buf e.buf) := by simp [hx, Holding.file]
    rw [← hsame, update_eq_self]
    exact h.bufOne
  known z e' hz := by
    rcases eq_or_ne z x with rfl | hne
    · simp at hz
    · rw [update_of_ne hne] at hz
      have hext : e'.ext ≠ e.ext := fun heq => hne (h.extOne.unique z x e.ext
        (by simp [hz, Holding.ext, heq]) (by simp [hx, Holding.ext]))
      rw [update_of_ne hext]
      exact h.known z e' hz
  live n l hl := by
    rcases eq_or_ne n e.ext with rfl | hne
    · simp at hl
    · rw [update_of_ne hne] at hl
      exact ⟨(h.live n l hl).1, by rw [exts.spent_spend_of_ne hne]; exact (h.live n l hl).2⟩

theorem Own.free (h : Own exts bufs loaded hold) (hx : hold x = .buf b) :
    Own exts (bufs.spend b) loaded (update hold x .nothing) where
  extOne := by
    rw [comp_update]
    have hsame : (Holding.ext ∘ hold) x = Holding.ext .nothing := by simp [hx, Holding.ext]
    rw [← hsame, update_eq_self]
    exact h.extOne
  bufOne := by
    rw [comp_update]
    exact h.bufOne.spend (by simp [hx, Holding.file])
  known z e hz := by
    rcases eq_or_ne z x with rfl | hne
    · simp at hz
    · exact h.known z e (by simpa [hne] using hz)
  live := h.live

end Own

end KlaussRuntime.Services
