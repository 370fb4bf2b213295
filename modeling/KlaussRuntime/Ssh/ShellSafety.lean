import KlaussRuntime.Ssh.ShellSessions

/-!
# Ssh/ShellSafety — a closed session is never used again

What holds of every slot (`SlotOk`), step by step.  The worker binds the session before it starts the shell and
clears the binding under `io_lock`, so a writer inside a wolfSSH call, who has the lock, is in a call with the session
that is bound.  A command that executes when the shell is stopped makes the slot retire: its session stays
where it is, and so the pointer the command has is that session's for as long as it executes (`SlotOk.pointer`), and
no other slot has it.
-/

namespace KlaussRuntime.Ssh.Sessions

open Machinery

variable {n : ℕ}

/-! ## Where the threads are -/

/-- The slot has a session. -/
def WorkerPc.busy : WorkerPc → Bool
  | .off | .freed => false
  | _ => true

/-- …and the shell has it. -/
def WorkerPc.bound : WorkerPc → Bool
  | .opening | .start | .stopAgain | .startAgain | .lockRead | .reading | .waiting | .unlockRead _ | .feed _
  | .closing | .testRunning | .takeDone | .stop _ | .lockClear _ | .clear _ => true
  | _ => false

def WorkerPc.holds : WorkerPc → Bool
  | .reading | .unlockRead _ | .clear _ | .unlockClear _ => true
  | _ => false

/-- The ring is empty: the shell is being claimed. -/
def WorkerPc.fresh : WorkerPc → Bool
  | .resetDone | .resetRunning | .bind | .opening | .start | .stopAgain | .startAgain => true
  | _ => false

/-- A command may execute: the shell is started, or it was busy when it was to stop. -/
def WorkerPc.serving : WorkerPc → Bool
  | .lockRead | .reading | .waiting | .unlockRead _ | .feed _ | .closing | .testRunning | .takeDone | .stop _
  | .lockClear false | .clear false | .unlockClear false | .cleanup false | .retired => true
  | _ => false

/-- The slot `ctx_write` works on. -/
def ShellPc.slot : ShellPc n → Option (Fin n)
  | .lock j _ | .testSsh j _ | .testOpen j _ | .sending j _ _ | .asking j _ _ | .unlock j _ => some j
  | _ => none

def ShellPc.holds : ShellPc n → Bool
  | .testSsh _ _ | .testOpen _ _ | .sending _ _ _ | .asking _ _ _ | .unlock _ _ => true
  | _ => false

/-- The pointer `ssh_shell_send` looks for. -/
def ShellPc.wanted : ShellPc n → Option Addr
  | .scan p _ _ => some p
  | _ => none

/-! ## The invariant -/

/-- What holds of slot `i`. -/
structure SlotOk (i : Fin n) (live : Addr → Option ℕ) (sl : Slot n) : Prop where
  busy : sl.session.isSome = sl.worker.busy
  mine : ∀ u, sl.session = some u → live u.ssh = some u.sid
  bound : sl.ctx.ssh = if sl.worker.bound then sl.session.map Session.ssh else none
  locked : sl.worker.holds = true → sl.ctx.ioLock = some (.worker i)
  fresh : sl.worker.fresh = true → sl.ctx.rx = []
  slot : ∀ j, sl.shell.pc.slot = some j → j = i
  holding : sl.shell.pc.holds = true → sl.ctx.ioLock = some (.shell i)
  inside : ∀ a, sl.shell.pc.inside = some a → sl.ctx.ssh = some a
  /-- the command was typed in the session the slot still has -/
  command : ∀ sid, sl.shell.command = some sid →
    sl.worker.serving = true ∧ ∃ u, sl.session = some u ∧ u.sid = sid
  lines : sl.shell.active = true → ∀ sid ∈ sl.ctx.rx,
    sl.worker.serving = true ∧ ∃ u, sl.session = some u ∧ u.sid = sid
  /-- …and the pointer it has is that session's -/
  pointer : ∀ p, sl.shell.ssh = some p ∨ sl.shell.pc.wanted = some p →
    sl.shell.command ≠ none ∧ ∃ u, sl.session = some u ∧ u.ssh = p

structure Inv (s : Sys n) : Prop where
  slots : ∀ i, SlotOk i s.live (s.slots i)
  /-- two slots have two session objects -/
  distinct : ∀ i j u v, (s.slots i).session = some u → (s.slots j).session = some v → u.ssh = v.ssh → i = j

theorem Inv.init (active : Fin n → Bool) : Inv (Sys.init active) where
  slots i :=
    { busy := rfl
      mine := nofun
      bound := rfl
      locked := nofun
      fresh := nofun
      slot := nofun
      holding := nofun
      inside := nofun
      command := nofun
      lines := fun _ => nofun
      pointer := fun _ hp => by
        rcases hp with hp | hp <;> cases hp }
  distinct := nofun

variable {s s' : Sys n} {i : Fin n} {live : Addr → Option ℕ} {sl : Slot n}

theorem ShellPc.holds_of_inside {pc : ShellPc n} {a : Addr} (h : pc.inside = some a) : pc.holds = true := by
  cases pc <;> first | rfl | cases h

namespace SlotOk

theorem not_holding (h : SlotOk i live sl)
    (hlock : sl.ctx.ioLock = none ∨ sl.ctx.ioLock = some (.worker i)) : sl.shell.pc.holds = false := by
  by_contra hne
  have hshell := h.holding (by simpa using hne)
  rcases hlock with hfree | hmine
  · rw [hfree] at hshell
    cases hshell
  · rw [hmine] at hshell
    cases hshell

/-- **A step of the worker**, the session staying as it is. -/
theorem worker {c : Ctx n} {b : Bool} {pc : WorkerPc} (h : SlotOk i live sl) (hbusy : pc.busy = sl.worker.busy)
    (hbound : c.ssh = if pc.bound then sl.session.map Session.ssh else none)
    (hlocked : pc.holds = true → c.ioLock = some (.worker i)) (hfresh : pc.fresh = true → c.rx = [])
    (hlock : c.ioLock = sl.ctx.ioLock ∨ sl.ctx.ioLock = none ∨ sl.ctx.ioLock = some (.worker i))
    (hssh : c.ssh = sl.ctx.ssh ∨ sl.ctx.ssh = none ∨ sl.ctx.ioLock = some (.worker i))
    (hserving : sl.shell.command ≠ none → sl.worker.serving = true → pc.serving = true)
    (hlines : b = true → ∀ sid ∈ c.rx, pc.serving = true ∧ ∃ u, sl.session = some u ∧ u.sid = sid) :
    SlotOk i live ⟨c, { sl.shell with active := b }, pc, sl.session⟩ where
  busy := h.busy.trans hbusy.symm
  mine := h.mine
  bound := hbound
  locked := hlocked
  fresh := hfresh
  slot := h.slot
  holding hholds := by
    obtain hsame | hlock := hlock
    · exact hsame.trans (h.holding hholds)
    · exact absurd (h.not_holding hlock) (by rw [hholds]; nofun)
  inside a ha := by
    obtain hsame | hnone | hlock := hssh
    · exact hsame.trans (h.inside a ha)
    · exact absurd (hnone.symm.trans (h.inside a ha)) nofun
    · exact absurd (h.not_holding (.inr hlock)) (by rw [ShellPc.holds_of_inside ha]; nofun)
  command sid hsid := by
    obtain ⟨hserve, hu⟩ := h.command sid hsid
    exact ⟨hserving (by rw [hsid]; nofun) hserve, hu⟩
  lines := hlines
  pointer := h.pointer

end SlotOk

/-- The worker goes on with the session bound, or not, as before. -/
structure WorkerPc.Along (w pc : WorkerPc) : Prop where
  busy : pc.busy = w.busy
  bound : pc.bound = w.bound
  fresh : pc.fresh = true → w.fresh = true
  serving : w.serving = true → pc.serving = true

namespace SlotOk

variable {c c' : Ctx n} {sh : Shell n} {w pc : WorkerPc} {u : Option Session}

theorem along (h : SlotOk i live ⟨c, sh, w, u⟩) (hpc : w.Along pc) (hssh : c'.ssh = c.ssh) (hrx : c'.rx = c.rx)
    (hlocked : pc.holds = true → c'.ioLock = some (.worker i))
    (hlock : c'.ioLock = c.ioLock ∨ c.ioLock = none ∨ c.ioLock = some (.worker i)) :
    SlotOk i live ⟨c', sh, pc, u⟩ := by
  refine h.worker hpc.busy ?_ hlocked (fun hf => hrx.trans (h.fresh (hpc.fresh hf))) hlock (.inl hssh)
    (fun _ => hpc.serving) fun hactive sid hmem => ?_
  · rw [hssh, hpc.bound]
    exact h.bound
  · obtain ⟨hserve, hu⟩ := h.lines hactive sid (hrx ▸ hmem)
    exact ⟨hpc.serving hserve, hu⟩

theorem goto (h : SlotOk i live ⟨c, sh, w, u⟩) (hpc : w.Along pc) (hholds : pc.holds = true → w.holds = true)
    (hssh : c'.ssh = c.ssh) (hrx : c'.rx = c.rx) (hlock : c'.ioLock = c.ioLock) :
    SlotOk i live ⟨c', sh, pc, u⟩ :=
  h.along hpc hssh hrx (fun hp => hlock.trans (h.locked (hholds hp))) (.inl hlock)

theorem take (h : SlotOk i live ⟨c, sh, w, u⟩) (hpc : w.Along pc) (hfree : c.ioLock = none) :
    SlotOk i live ⟨{ c with ioLock := some (.worker i) }, sh, pc, u⟩ :=
  h.along hpc rfl rfl (fun _ => rfl) (.inr (.inl hfree))

theorem give (h : SlotOk i live ⟨c, sh, w, u⟩) (hpc : w.Along pc) (hholds : w.holds = true)
    (hnot : pc.holds = false) : SlotOk i live ⟨{ c with ioLock := none }, sh, pc, u⟩ :=
  h.along hpc rfl rfl (fun hp => absurd (hnot.symm.trans hp) nofun) (.inr (.inr (h.locked hholds)))

theorem start (h : SlotOk i live ⟨c, sh, w, u⟩) (pc : WorkerPc) (b : Bool) (hfresh : w.fresh = true)
    (hbusy : pc.busy = w.busy) (hbound : pc.bound = w.bound) (hholds : pc.holds = false)
    (hserving : w.serving = false) :
    SlotOk i live ⟨c, { sh with active := b }, pc, u⟩ := by
  have hrx := h.fresh hfresh
  refine h.worker hbusy (by rw [hbound]; exact h.bound) (fun hp => absurd (hholds.symm.trans hp) nofun) (fun _ => hrx)
    (.inl rfl) (.inl rfl) (fun _ hs => absurd (hserving.symm.trans hs) nofun) fun _ sid hmem => ?_
  rw [hrx] at hmem
  cases hmem

theorem command_eq_none (h : SlotOk i live sl) (hserving : sl.worker.serving = false) : sl.shell.command = none := by
  by_contra hne
  obtain ⟨sid, hsid⟩ := Option.ne_none_iff_exists'.mp hne
  exact absurd (hserving.symm.trans (h.command sid hsid).1) nofun

theorem session_of_ssh {p : Addr} (h : SlotOk i live sl) (hp : sl.ctx.ssh = some p) :
    ∃ u, sl.session = some u ∧ u.ssh = p := by
  rw [h.bound, Option.ite_none_right_eq_some] at hp
  exact Option.map_eq_some_iff.mp hp.2

/-- **The shell is stopped**: no command executes, or the session will stay. -/
theorem stop {d : Bool} (h : SlotOk i live ⟨c, sh, .stop d, u⟩) :
    SlotOk i live ⟨c, sh.stop.2, .lockClear (d && sh.stop.1), u⟩ := by
  by_cases hcommand : sh.command.isSome = true
  · rw [Shell.stop, if_pos hcommand, Bool.and_false]
    exact h.goto ⟨rfl, rfl, nofun, fun _ => rfl⟩ nofun rfl rfl rfl
  · rw [Shell.stop, if_neg hcommand]
    have hnone : sh.command = none := by simpa using hcommand
    exact h.worker rfl h.bound nofun nofun (.inl rfl) (.inl rfl) (fun hne => absurd hnone hne) nofun

end SlotOk

/-- **A step in one slot**, and perhaps of the allocator. -/
theorem Inv.update {sl : Slot n} {live' : Addr → Option ℕ} {k : ℕ} (h : Inv s) (hok : SlotOk i live' sl)
    (hlive : ∀ j u, j ≠ i → (s.slots j).session = some u → live' u.ssh = s.live u.ssh)
    (hdistinct : ∀ j u v, j ≠ i → sl.session = some u → (s.slots j).session = some v → u.ssh ≠ v.ssh) :
    Inv { s.set i sl with live := live', next := k } := by
  have hself : (s.set i sl).slots i = sl := Function.update_self _ _ _
  have hother : ∀ j, j ≠ i → (s.set i sl).slots j = s.slots j := fun j hj => Function.update_of_ne hj _ _
  constructor
  · intro j
    by_cases hj : j = i
    · subst hj
      exact hself.symm ▸ hok
    · have hj' := h.slots j
      refine hother j hj ▸ { hj' with mine := fun u hu => ?_ }
      exact (hlive j u hj hu).trans (hj'.mine u hu)
  · intro j k u v hu hv heq
    by_cases hj : j = i
    · by_cases hk : k = i
      · exact hj.trans hk.symm
      · subst hj
        exact absurd heq (hdistinct k u v hk (hself ▸ hu) (hother k hk ▸ hv))
    · by_cases hk : k = i
      · subst hk
        exact absurd heq.symm (hdistinct j v u hj (hself ▸ hv) (hother j hj ▸ hu))
      · exact h.distinct j k u v (hother j hj ▸ hu) (hother k hk ▸ hv) heq

theorem Inv.set {sl : Slot n} (h : Inv s) (hok : SlotOk i s.live sl) (hsession : sl.session = (s.slots i).session) :
    Inv (s.set i sl) :=
  h.update hok (fun _ _ _ _ => rfl) fun j u v hj hu hv heq =>
    hj (h.distinct j i v u hv (hsession ▸ hu) heq.symm)

/-- **A session is freed**, which no command uses. -/
theorem Inv.free {c : Ctx n} {sh : Shell n} {u : Option Session} (h : Inv s)
    (hsl : s.slots i = ⟨c, sh, .cleanup true, u⟩) :
    Inv { s.set i ⟨c, sh, .freed, none⟩ with
      live := fun a => if u.map Session.ssh = some a then none else s.live a } := by
  have hi := h.slots i
  rw [hsl] at hi
  have hcommand : sh.command = none := hi.command_eq_none rfl
  refine h.update ?_ (fun j v hj hv => ?_) (fun _ _ _ _ => nofun)
  · exact
      { busy := rfl
        mine := nofun
        bound := hi.bound
        locked := nofun
        fresh := nofun
        slot := hi.slot
        holding := hi.holding
        inside := hi.inside
        command := fun sid hsid => absurd (hcommand.symm.trans hsid) nofun
        lines := fun hactive sid hmem => absurd (hi.lines hactive sid hmem).1 nofun
        pointer := fun p hp => absurd hcommand (hi.pointer p hp).1 }
  · refine if_neg fun heq => hj ?_
    obtain ⟨w, rfl, hw⟩ := Option.map_eq_some_iff.mp heq
    exact h.distinct j i v w hv (by rw [hsl]) hw.symm

/-- **A session is made**, at an address that is free. -/
theorem Inv.connect {a : Addr} {c : Ctx n} {sh : Shell n} {u : Option Session} (h : Inv s)
    (hsl : s.slots i = ⟨c, sh, .off, u⟩) (hfree : s.live a = none) :
    Inv { s.set i ⟨c, sh, .alone, some ⟨a, s.next⟩⟩ with
      live := Function.update s.live a (some s.next), next := s.next + 1 } := by
  have hi := h.slots i
  rw [hsl] at hi
  have hcommand : sh.command = none := hi.command_eq_none rfl
  -- the others' sessions live elsewhere
  have hne : ∀ j v, (s.slots j).session = some v → v.ssh ≠ a := fun j v hv heq => by
    have hlive := (h.slots j).mine v hv
    rw [heq, hfree] at hlive
    cases hlive
  refine h.update ?_ (fun j v _ hv => Function.update_of_ne (hne j v hv) _ _) fun j w v _ hw hv heq => ?_
  · exact
      { busy := rfl
        mine := fun w hw => by
          cases hw
          exact Function.update_self _ _ _
        bound := hi.bound
        locked := nofun
        fresh := nofun
        slot := hi.slot
        holding := hi.holding
        inside := hi.inside
        command := fun sid hsid => absurd (hcommand.symm.trans hsid) nofun
        lines := fun hactive sid hmem => absurd (hi.lines hactive sid hmem).1 nofun
        pointer := fun p hp => absurd hcommand (hi.pointer p hp).1 }
  · cases hw
    exact hne j v hv heq.symm

/-! ## Steps of the worker -/

theorem Inv.workerStep {e : Event} (h : Inv s) (hstep : Sessions.workerStep s i e = some s') : Inv s' := by
  have hi := h.slots i
  unfold Sessions.workerStep at hstep
  dsimp only at hstep
  generalize hsl : s.slots i = sl at hi hstep
  obtain ⟨c, sh, w, u⟩ := sl
  have hset : ∀ {c' sh' w'}, some (s.set i ⟨c', sh', w', u⟩) = some s' → SlotOk i s.live ⟨c', sh', w', u⟩ → Inv s' := by
    intro c' sh' w' heq hok
    cases heq
    exact h.set hok (by rw [hsl])
  dsimp only at hstep
  split at hstep
  -- the handshake
  · exact hset hstep (hi.goto ⟨rfl, rfl, nofun, nofun⟩ nofun rfl rfl rfl)
  · exact hset hstep (hi.goto ⟨rfl, rfl, nofun, nofun⟩ nofun rfl rfl rfl)
  · exact hset hstep (hi.goto ⟨rfl, rfl, nofun, nofun⟩ nofun rfl rfl rfl)
  · exact hset hstep (hi.goto ⟨rfl, rfl, nofun, nofun⟩ nofun rfl rfl rfl)
  -- `ssh_shell_claim`
  · refine hset hstep (hi.worker rfl hi.bound nofun (fun _ => rfl) (.inl rfl) (.inl rfl) (fun _ => nofun) fun _ => nofun)
  · exact hset hstep (hi.goto ⟨rfl, rfl, fun _ => rfl, nofun⟩ nofun rfl rfl rfl)
  · exact hset hstep (hi.goto ⟨rfl, rfl, fun _ => rfl, nofun⟩ nofun rfl rfl rfl)
  · have hrx := hi.fresh rfl
    refine hset hstep (hi.worker rfl rfl nofun (fun _ => hrx) (.inl rfl) (.inr (.inl hi.bound)) (fun _ => nofun) ?_)
    intro _ sid hmem
    rw [show c.rx = [] from hrx] at hmem
    cases hmem
  · exact hset hstep (hi.goto ⟨rfl, rfl, fun _ => rfl, nofun⟩ nofun rfl rfl rfl)
  · cases hstarted : sh.start.1 with
    | true =>
      rw [hstarted, if_pos rfl] at hstep
      exact hset hstep (hi.start .lockRead true rfl rfl rfl rfl rfl)
    | false =>
      rw [hstarted, if_neg Bool.false_ne_true] at hstep
      exact hset hstep (hi.start .stopAgain true rfl rfl rfl rfl rfl)
  · have hcommand : sh.command = none := hi.command_eq_none rfl
    have hstop : sh.stop.2 = { sh with active := false } := by rw [Shell.stop, hcommand]; rfl
    rw [hstop] at hstep
    exact hset hstep (hi.start .startAgain false rfl rfl rfl rfl rfl)
  · exact hset hstep (hi.start .lockRead true rfl rfl rfl rfl rfl)
  -- the read loop
  · obtain ⟨hfree, hstep⟩ := Option.ite_none_right_eq_some.mp hstep
    exact hset hstep (hi.take ⟨rfl, rfl, nofun, fun _ => rfl⟩ hfree)
  · exact hset hstep (hi.give ⟨rfl, rfl, nofun, fun _ => rfl⟩ rfl rfl)
  · obtain ⟨hfree, hstep⟩ := Option.ite_none_right_eq_some.mp hstep
    exact hset hstep (hi.take ⟨rfl, rfl, nofun, fun _ => rfl⟩ hfree)
  · exact hset hstep (hi.goto ⟨rfl, rfl, nofun, fun _ => rfl⟩ (fun _ => rfl) rfl rfl rfl)
  · exact hset hstep (hi.goto ⟨rfl, rfl, nofun, fun _ => rfl⟩ (fun _ => rfl) rfl rfl rfl)
  · exact hset hstep (hi.goto ⟨rfl, rfl, nofun, fun _ => rfl⟩ (fun _ => rfl) rfl rfl rfl)
  · rename_i r
    cases r with
    | none => exact hset hstep (hi.give ⟨rfl, rfl, nofun, fun _ => rfl⟩ rfl rfl)
    | some k => exact hset hstep (hi.give ⟨rfl, rfl, nofun, fun _ => rfl⟩ rfl rfl)
  · -- what is fed is tagged with the session
    refine hset hstep (hi.worker rfl hi.bound nofun nofun (.inl rfl) (.inl rfl) (fun _ _ => rfl) ?_)
    intro hactive sid hmem
    obtain hold | hnew := List.mem_append.mp hmem
    · exact ⟨rfl, (hi.lines hactive sid hold).2⟩
    · obtain ⟨v, hv⟩ := Option.isSome_iff_exists.mp (show u.isSome = true from hi.busy)
      obtain rfl := (List.mem_replicate.mp hnew).2
      exact ⟨rfl, v, hv, by rw [show u = some v from hv]; rfl⟩
  -- `ssh_shell_release`
  · exact hset hstep (hi.goto ⟨rfl, rfl, nofun, fun _ => rfl⟩ nofun rfl rfl rfl)
  · cases hrunning : c.running with
    | true =>
      rw [hrunning] at hstep
      exact hset hstep (hi.goto ⟨rfl, rfl, nofun, fun _ => rfl⟩ nofun rfl rfl rfl)
    | false =>
      rw [hrunning] at hstep
      exact hset hstep (hi.goto ⟨rfl, rfl, nofun, fun _ => rfl⟩ nofun rfl rfl rfl)
  · obtain ⟨-, hstep⟩ := Option.ite_none_right_eq_some.mp hstep
    exact hset hstep (hi.goto ⟨rfl, rfl, nofun, fun _ => rfl⟩ nofun rfl rfl rfl)
  · exact hset hstep (hi.goto ⟨rfl, rfl, nofun, fun _ => rfl⟩ nofun rfl rfl rfl)
  · exact hset hstep hi.stop
  · rename_i drained
    obtain ⟨hfree, hstep⟩ := Option.ite_none_right_eq_some.mp hstep
    exact hset hstep (hi.take ⟨rfl, rfl, nofun, by cases drained <;> exact id⟩ hfree)
  · -- no writer is inside while the worker has the lock
    rename_i drained
    refine hset hstep (hi.worker rfl rfl (fun _ => hi.locked rfl) nofun (.inl rfl) (.inr (.inr (hi.locked rfl)))
      (fun _ => by cases drained <;> exact id) ?_)
    intro hactive sid hmem
    exact (hi.lines hactive sid hmem).imp_left (by cases drained <;> exact id)
  · rename_i drained
    exact hset hstep (hi.give ⟨rfl, rfl, nofun, by cases drained <;> exact id⟩ rfl rfl)
  -- `cleanup`
  · cases hstep
    exact h.free hsl
  · exact hset hstep (hi.goto ⟨rfl, rfl, nofun, fun _ => rfl⟩ nofun rfl rfl rfl)
  · exact hset hstep (hi.goto ⟨rfl, rfl, nofun, nofun⟩ nofun rfl rfl rfl)
  · cases hstep

/-! ## Steps of the shell thread -/

theorem setCtx_setShell (s : Sys n) (i : Fin n) (c : Ctx n) (pc : ShellPc n) :
    (s.setCtx i c).setShell i { ((s.setCtx i c).slots i).shell with pc := pc } =
      s.set i { s.slots i with ctx := c, shell := { (s.slots i).shell with pc := pc } } := by
  have hself : (s.setCtx i c).slots i = { s.slots i with ctx := c } := Function.update_self _ _ _
  rw [Sys.setShell, hself, Sys.set, Sys.set, Sys.setCtx, Sys.set]
  dsimp only
  rw [Function.update_idem]

/-- **A writer goes on**, at most with the lock of its own slot. -/
theorem SlotOk.shell {c : Ctx n} {pc : ShellPc n} (h : SlotOk i live sl) (hssh : c.ssh = sl.ctx.ssh) (hrx : c.rx = sl.ctx.rx)
    (hlock : c.ioLock = sl.ctx.ioLock ∨ sl.ctx.ioLock = none ∨ sl.ctx.ioLock = some (.shell i))
    (hslot : ∀ j, pc.slot = some j → j = i) (hholding : pc.holds = true → c.ioLock = some (.shell i))
    (hinside : ∀ a, pc.inside = some a → sl.ctx.ssh = some a)
    (hwanted : ∀ p, pc.wanted = some p → sl.shell.ssh = some p ∨ sl.shell.pc.wanted = some p) :
    SlotOk i live { sl with ctx := c, shell := { sl.shell with pc := pc } } where
  busy := h.busy
  mine := h.mine
  bound := hssh.trans h.bound
  locked hholds := by
    have hmine := h.locked hholds
    obtain hsame | hfree | hshell := hlock
    · exact hsame.trans hmine
    · exact absurd (hfree.symm.trans hmine) nofun
    · exact absurd (hshell.symm.trans hmine) nofun
  fresh hfresh := hrx.trans (h.fresh hfresh)
  slot := hslot
  holding := hholding
  inside a ha := hssh.trans (hinside a ha)
  command := h.command
  lines hactive sid hmem := h.lines hactive sid (hrx ▸ hmem)
  pointer p hp := h.pointer p (hp.elim .inl (hwanted p))

namespace Inv

theorem goto {pc : ShellPc n} (h : Inv s) (hslot : ∀ j, pc.slot = some j → j = i)
    (hholding : pc.holds = true → (s.slots i).shell.pc.holds = true)
    (hinside : ∀ a, pc.inside = some a → (s.slots i).ctx.ssh = some a)
    (hwanted : ∀ p, pc.wanted = some p → (s.slots i).shell.ssh = some p ∨ (s.slots i).shell.pc.wanted = some p) :
    Inv (s.setShell i { (s.slots i).shell with pc := pc }) :=
  h.set ((h.slots i).shell rfl rfl (.inl rfl) hslot (fun hp => (h.slots i).holding (hholding hp)) hinside hwanted) rfl

theorem store {c : Ctx n} {pc : ShellPc n} (h : Inv s) (hssh : c.ssh = (s.slots i).ctx.ssh)
    (hrx : c.rx = (s.slots i).ctx.rx)
    (hlock : c.ioLock = (s.slots i).ctx.ioLock ∨ (s.slots i).ctx.ioLock = none ∨
      (s.slots i).ctx.ioLock = some (.shell i))
    (hslot : ∀ j, pc.slot = some j → j = i) (hholding : pc.holds = true → c.ioLock = some (.shell i))
    (hinside : pc.inside = none) (hwanted : pc.wanted = none) :
    Inv ((s.setCtx i c).setShell i { ((s.setCtx i c).slots i).shell with pc := pc }) := by
  rw [setCtx_setShell]
  exact h.set ((h.slots i).shell hssh hrx hlock hslot hholding (fun a ha => absurd (hinside.symm.trans ha) nofun)
    (fun p hp => absurd (hwanted.symm.trans hp) nofun)) rfl

theorem shellStep {r : Answer} (h : Inv s) (hstep : Sessions.shellStep s i r = some s') : Inv s' := by
  have hi := h.slots i
  unfold Sessions.shellStep at hstep
  dsimp only at hstep
  have hslot := hi.slot
  cases hpc : (s.slots i).shell.pc with
  | rest =>
    simp only [hpc] at hstep
    cases hstep
  | writeSsh len =>
    simp only [hpc] at hstep
    cases hstep
    split
    · exact h.goto nofun nofun nofun nofun
    · exact h.goto nofun nofun nofun nofun
  | writeOpen len =>
    simp only [hpc] at hstep
    cases hstep
    split
    · refine h.goto (fun j hj => (Option.some.inj hj).symm) nofun nofun nofun
    · exact h.goto nofun nofun nofun nofun
  | scan p j len =>
    have hwanted : (s.slots i).shell.pc.wanted = some p := by rw [hpc]; rfl
    simp only [hpc] at hstep
    split at hstep
    · rename_i hlt
      cases hstep
      split
      · -- the slot that has the pointer is the command's own
        rename_i hfound
        obtain ⟨-, u, hu, hp⟩ := hi.pointer p (.inr hwanted)
        obtain ⟨v, hv, hvp⟩ := (h.slots ⟨j, hlt⟩).session_of_ssh hfound
        have hown := h.distinct _ i v u hv hu (hvp.trans hp.symm)
        exact h.goto (fun k hk => (Option.some.inj hk).symm.trans hown) nofun nofun nofun
      · exact h.goto nofun nofun nofun fun q hq => .inr (hwanted.trans hq)
    · cases hstep
      exact h.goto nofun nofun nofun nofun
  | lock j left =>
    obtain rfl := hslot j (by rw [hpc]; rfl)
    simp only [hpc] at hstep
    split at hstep
    · cases hstep
      exact h.goto nofun nofun nofun nofun
    · obtain ⟨hfree, ⟨⟩⟩ := Option.ite_none_right_eq_some.mp hstep
      exact h.store rfl rfl (.inr (.inl hfree)) (fun k hk => (Option.some.inj hk).symm) (fun _ => rfl) rfl rfl
  | testSsh j left =>
    obtain rfl := hslot j (by rw [hpc]; rfl)
    simp only [hpc] at hstep
    cases hstep
    split
    · exact h.goto (fun k hk => (Option.some.inj hk).symm) (fun _ => by rw [hpc]; rfl) nofun nofun
    · exact h.goto (fun k hk => (Option.some.inj hk).symm) (fun _ => by rw [hpc]; rfl) nofun nofun
  | testOpen j left =>
    obtain rfl := hslot j (by rw [hpc]; rfl)
    simp only [hpc] at hstep
    cases hstep
    split
    · cases hssh : (s.slots j).ctx.ssh with
      | none => exact h.goto (fun k hk => (Option.some.inj hk).symm) (fun _ => by rw [hpc]; rfl) nofun nofun
      | some a =>
        refine h.goto (fun k hk => (Option.some.inj hk).symm) (fun _ => by rw [hpc]; rfl) (fun b hb => ?_) nofun
        exact hssh.trans hb
    · exact h.goto (fun k hk => (Option.some.inj hk).symm) (fun _ => by rw [hpc]; rfl) nofun nofun
  | sending j a left =>
    obtain rfl := hslot j (by rw [hpc]; rfl)
    have hunlock : ∀ k, Inv (s.setShell j { (s.slots j).shell with pc := .unlock j k }) := fun k =>
      h.goto (fun k hk => (Option.some.inj hk).symm) (fun _ => by rw [hpc]; rfl) nofun nofun
    simp only [hpc] at hstep
    cases r with
    | sent k =>
      cases hstep
      exact hunlock _
    | again | stalled | fatal =>
      cases hstep
      exact hunlock _
    | error =>
      cases hstep
      refine h.goto (fun k hk => (Option.some.inj hk).symm) (fun _ => by rw [hpc]; rfl) (fun b hb => ?_) nofun
      exact hi.inside b (by rw [hpc]; exact hb)
  | asking j a left =>
    obtain rfl := hslot j (by rw [hpc]; rfl)
    have hunlock : ∀ k, Inv (s.setShell j { (s.slots j).shell with pc := .unlock j k }) := fun k =>
      h.goto (fun k hk => (Option.some.inj hk).symm) (fun _ => by rw [hpc]; rfl) nofun nofun
    simp only [hpc] at hstep
    split at hstep
    · cases hstep
      exact hunlock _
    · cases hstep
      exact hunlock _
  | unlock j left =>
    obtain rfl := hslot j (by rw [hpc]; rfl)
    have hmine := hi.holding (by rw [hpc]; rfl)
    simp only [hpc] at hstep
    cases hstep
    exact h.store rfl rfl (.inr (.inr hmine)) (fun k hk => (Option.some.inj hk).symm) nofun rfl rfl
  | runBegin =>
    simp only [hpc] at hstep
    cases hstep
    exact h.store rfl rfl (.inl rfl) nofun nofun rfl rfl
  | runEnd =>
    simp only [hpc] at hstep
    cases hstep
    exact h.store rfl rfl (.inl rfl) nofun nofun rfl rfl

theorem turnStep {d : Doing} (h : Inv s) (hstep : Sessions.turnStep s i d = some s') : Inv s' := by
  have hi := h.slots i
  unfold Sessions.turnStep at hstep
  dsimp only at hstep
  split at hstep
  · cases hstep
    exact h.goto nofun nofun nofun nofun
  · -- a line of the session the slot has
    rename_i hpc hcommand
    split at hstep
    · rename_i sid rx hactive hrx
      cases hstep
      have hmem : ∀ t ∈ rx, t ∈ (s.slots i).ctx.rx := fun t ht => hrx ▸ List.mem_cons_of_mem sid ht
      have hline := hi.lines hactive sid (hrx ▸ List.mem_cons_self)
      exact h.set { hi with
        fresh := fun hfresh => absurd ((hi.fresh hfresh).symm.trans hrx) nofun
        command := fun t ht => Option.some.inj ht ▸ hline
        lines := fun hact t ht => hi.lines hact t (hmem t ht)
        pointer := fun p hp => absurd hcommand (hi.pointer p hp).1 } rfl
    · cases hstep
  · rename_i hpc hcommand
    cases hstep
    exact h.set { hi with
      command := nofun
      pointer := fun p hp => by
        obtain hp | hp := hp
        · cases hp
        · rw [show (s.slots i).shell.pc = .rest from hpc] at hp
          cases hp } rfl
  · cases hstep
    exact h.goto (fun j hj => (Option.some.inj hj).symm) nofun nofun nofun
  · -- the pointer is that of the session the slot has
    rename_i hpc hcommand
    cases hstep
    exact h.set { hi with
      pointer := fun p hp => by
        refine ⟨by rw [hcommand]; nofun, ?_⟩
        obtain hp | hp := hp
        · exact hi.session_of_ssh hp
        · exact (hi.pointer p (.inr hp)).2 } rfl
  · rename_i len _ _
    cases hstep
    cases hssh : (s.slots i).shell.ssh with
    | none => exact h
    | some p =>
      have hscan : Inv (s.setShell i { (s.slots i).shell with pc := .scan p 0 len }) :=
        h.goto nofun nofun nofun fun q hq => .inl (hssh.trans hq)
      dsimp only at hscan
      rwa [hssh] at hscan
  · cases hstep
    exact h.set (hi.shell rfl rfl (.inl rfl) nofun nofun nofun nofun) rfl
  · cases hstep
    exact h.set (hi.shell rfl rfl (.inl rfl) nofun nofun nofun nofun) rfl
  · cases hstep

/-- **Every step keeps the invariant.** -/
theorem step {a : Act n} (h : Inv s) (hstep : Sessions.step s a = some s') : Inv s' := by
  cases a with
  | connect i a =>
    unfold Sessions.step at hstep
    dsimp only at hstep
    generalize hsl : s.slots i = sl at hstep
    obtain ⟨c, sh, w, u⟩ := sl
    dsimp only at hstep
    split at hstep
    · rename_i hfree
      cases hstep
      exact h.connect hsl hfree
    · cases hstep
  | worker i e => exact h.workerStep hstep
  | turn i d => exact h.turnStep hstep
  | shell i r => exact h.shellStep hstep

end Inv

/-! ## The result -/

/-- The session object a writer is in a call with is that of its own slot. -/
theorem Inv.session_of_inside {a : Addr} (h : Inv s) (ha : (s.slots i).shell.pc.inside = some a) :
    ∃ u, (s.slots i).session = some u ∧ u.ssh = a :=
  (h.slots i).session_of_ssh ((h.slots i).inside a ha)

theorem Inv.safe (h : Inv s) : Safe s where
  alive t a ha := by
    cases t with
    | worker i =>
      obtain ⟨-, ha⟩ := Option.ite_none_right_eq_some.mp ha
      obtain ⟨u, hu, rfl⟩ := Option.map_eq_some_iff.mp ha
      rw [(h.slots i).mine u hu]
      nofun
    | shell i =>
      obtain ⟨u, hu, rfl⟩ := h.session_of_inside ha
      rw [(h.slots i).mine u hu]
      nofun
  mine i u hu := (h.slots i).mine u hu
  apart i u hw hu t ht := by
    cases t with
    | worker j =>
      obtain ⟨hin, ha⟩ := Option.ite_none_right_eq_some.mp ht
      obtain ⟨v, hv, hva⟩ := Option.map_eq_some_iff.mp ha
      obtain rfl := h.distinct j i v u hv hu hva
      rw [hw] at hin
      cases hin
    | shell j =>
      obtain ⟨v, hv, hva⟩ := h.session_of_inside ht
      obtain rfl := h.distinct j i v u hv hu hva
      -- the session is unbound by then
      have hssh := (h.slots j).inside _ ht
      rw [(h.slots j).bound, hw] at hssh
      cases hssh
  own i sid j a left hcommand hpc := by
    obtain ⟨u, hu, rfl⟩ := h.session_of_inside (show (s.slots i).shell.pc.inside = some a by rw [hpc]; rfl)
    obtain ⟨-, v, hv, rfl⟩ := (h.slots i).command sid hcommand
    obtain rfl := Option.some.inj (hu.symm.trans hv)
    exact (h.slots i).mine u hu

/-- **A closed SSH session is never used again**, in every run of the workers and shells of all slots. -/
theorem sessions_safe {active : Fin n → Bool} (hrun : Reaches step anyStep (Sys.init active) s) : Safe s :=
  (hrun.invariant (fun h _ hstep => h.step hstep) (Inv.init active)).safe

/-- A session in which a command prints three bytes and ends, and a second one at the same address, in which a
command is sending four. -/
def twoSessions : List (Act 1) :=
  let worker (e : Event) : Act 1 := .worker 0 e
  let claim : List (Act 1) := .connect 0 7 :: worker .accepted :: List.replicate 6 (worker .next)
  let line : List (Act 1) := [worker .next, worker (.data 1), worker .next, worker .next, .turn 0 .begin]
  let release : List (Act 1) := [worker .next, worker .ended] ++ List.replicate 9 (worker .next)
  claim ++ line ++ .turn 0 (.print 3) :: List.replicate 5 (.shell 0 .again) ++
    [.shell 0 (.sent 3), .shell 0 .again, .shell 0 .again, .turn 0 .finish] ++ release ++
  claim ++ line ++ [.turn 0 .session, .turn 0 (.send 4)] ++ List.replicate 4 (.shell 0 .again)

theorem sessions_safe_twoSessions : ∃ s : Sys 1, Reaches step anyStep (Sys.init fun _ => false) s ∧ Safe s ∧
    s.inside (.shell 0) = some 7 ∧ s.live 7 = some 1 := by
  have hend : (runAll step anyStep (Sys.init fun _ => false) twoSessions).map
      (fun s => (s.inside (.shell 0), s.live 7)) = some (some 7, some 1) := by decide +kernel
  obtain ⟨s, hrun, heq⟩ := Option.map_eq_some_iff.mp hend
  have hreach := Reaches.of_runAll twoSessions hrun
  exact ⟨s, hreach, sessions_safe hreach, (Prod.mk.inj heq).1, (Prod.mk.inj heq).2⟩

end KlaussRuntime.Ssh.Sessions
