import KlaussRuntime.Loader.Services

/-!
# Loader/ServicesOnce — a service is loaded once at a time

What a call finds in the table stays so until it gives the lock back (`At`), and every extension and
every file has one holder (`Own`); both are kept by every step (`Sys.Good.step`).  The name a call loads
is then not in the table; it could only be that of an extension another call has taken out and not
unloaded yet.  `once_of_careful` rules that out, and `not_forall_once` is the run in which it happens.
-/

namespace KlaussRuntime.Services

open Machinery Function

variable {T : Type*} [DecidableEq T]

/-! ## Under the lock -/

/-- Entry `i` is free, and no service has the name. -/
def Room (tab : SvcTab) (name : List Byte) (i : Fin extSvcMax) : Prop :=
  tab i = none ∧ ∀ j e, tab j = some e → e.name ≠ name

/-- What a thread knows where it is: between locking and unlocking it has the lock, and the entry it
found is still as it found it. -/
def At (lock : Option T) (tab : SvcTab) (t : T) : Pc → Prop
  | .loadScan _ | .stopFind _ | .unlock _ => lock = some t
  | .loadRead name i | .loadExt name i _ => lock = some t ∧ Room tab name i
  | .loadSyms i e | .loadStart i e | .loadStore i e => lock = some t ∧ Room tab e.name i
  | .stopCall i | .stopTake i => lock = some t ∧ ∃ e, tab i = some e
  | .returned _ | .loadLock _ | .stopLock _ | .rest _ => True

omit [DecidableEq T] in
theorem At.of_ne {lock : Option T} {tab : SvcTab} {t : T} {p : Pc} (h : At lock tab t p)
    (hne : lock ≠ some t) (lock' : Option T) (tab' : SvcTab) : At lock' tab' t p := by
  cases p with
  | returned _ | loadLock _ | stopLock _ | rest _ => trivial
  | loadScan _ | stopFind _ | unlock _ => exact absurd h hne
  | loadRead _ _ | loadExt _ _ _ | loadSyms _ _ | loadStart _ _ | loadStore _ _ | stopCall _
  | stopTake _ => exact absurd h.1 hne

omit [DecidableEq T] in
/-- Without the lock a call has an extension only to unload it. -/
theorem At.rest_of_holding {lock : Option T} {tab : SvcTab} {t : T} {p : Pc} {e : Entry}
    (h : At lock tab t p) (hne : lock ≠ some t) (hp : p.holding = .both e) :
    ∃ r, p = .rest (.unload e r) := by
  cases p with
  | returned _ | loadLock _ | stopLock _ => cases hp
  | rest k =>
    cases k with
    | ret r => cases hp
    | free b r => cases hp
    | unload e' r =>
      obtain rfl : e' = e := Holding.both.inj hp
      exact ⟨r, rfl⟩
  | loadScan _ | stopFind _ | unlock _ => exact absurd h hne
  | loadRead _ _ | loadExt _ _ _ | loadSyms _ _ | loadStart _ _ | loadStore _ _ | stopCall _
  | stopTake _ => exact absurd h.1 hne

theorem room_of_scan {tab : SvcTab} {name : List Byte} {i : Fin extSvcMax}
    (h : Sys.scan tab name = .inr i) : Room tab name i := by
  rw [Sys.scan] at h
  split at h
  · cases h
  next hnew =>
  split at h
  · next j hfree =>
    obtain rfl := Sum.inr.inj h
    refine ⟨by simpa using List.find?_some hfree, fun j e hj hname => hnew ⟨j, ?_⟩⟩
    rw [hj, Option.any_some, decide_eq_true_iff]
    exact hname
  · cases h

theorem exists_of_lookup {tab : SvcTab} {name : List Byte} {i : Fin extSvcMax}
    (h : Sys.lookup tab name = some i) : ∃ e, tab i = some e := by
  have hany := List.find?_some h
  cases htab : tab i with
  | none => simp [htab] at hany
  | some e => exact ⟨e, rfl⟩

namespace Sys

variable {s s' : Sys T} {t : T} {p : Pc}

theorem holding_goto (s : Sys T) (t : T) (p : Pc) :
    (s.goto t p).holding = update s.holding (.inl t) p.holding := by
  rw [holding, holding, Sum.update_elim_inl]
  congr 1
  exact comp_update Pc.holding s.pc t p

theorem holding_setTab (s : Sys T) (i : Fin extSvcMax) (e : Option Entry) :
    (s.setTab i e).holding = update s.holding (.inr i) (entryHolding e) := by
  rw [holding, holding, Sum.update_elim_inr]
  congr 1
  exact comp_update entryHolding s.tab i e

/-- What holds at every moment. -/
structure Good (s : Sys T) : Prop where
  knows : ∀ t, At s.lock s.tab t (s.pc t)
  names : ∀ i j e e', s.tab i = some e → s.tab j = some e' → e.name = e'.name → i = j
  own : Own s.exts s.bufs s.loaded s.holding
  shared : s.shared = []

omit [DecidableEq T] in
theorem Good.others (h : s.Good) (hlock : s.lock = some t ∨ s.lock = none) {u : T} (hne : u ≠ t)
    (lock' : Option T) (tab' : SvcTab) : At lock' tab' u (s.pc u) := by
  refine (h.knows u).of_ne ?_ lock' tab'
  rcases hlock with hlock | hlock
  · rw [hlock]
    exact fun heq => hne (Option.some.inj heq).symm
  · rw [hlock]
    simp

/-- A thread goes on without taking or giving anything; it may take the lock or give it back. -/
theorem Good.move (h : s.Good) {lock' : Option T} (hat : At lock' s.tab t p)
    (hothers : ∀ u ≠ t, At lock' s.tab u (s.pc u)) (hhold : p.holding = (s.pc t).holding) :
    ({ s with lock := lock' }.goto t p).Good where
  knows := (forall_update_iff s.pc fun u q => At lock' s.tab u q).mpr ⟨hat, hothers⟩
  names := h.names
  own := by
    have hsame : ({ s with lock := lock' }.goto t p).holding = s.holding := by
      refine (holding_goto _ t p).trans ?_
      rw [hhold]
      exact update_eq_self (Sum.inl t) s.holding
    rw [hsame]
    exact h.own
  shared := h.shared

theorem Good.goto (h : s.Good) (hat : At s.lock s.tab t p)
    (hhold : p.holding = (s.pc t).holding) : (s.goto t p).Good :=
  h.move hat (fun u _ => h.knows u) hhold

theorem Good.acquire (h : s.Good) (hfree : s.lock = none) (hat : At (some t) s.tab t p)
    (hhold : p.holding = (s.pc t).holding) : ({ s with lock := some t }.goto t p).Good :=
  h.move hat (fun _ hne => h.others (.inr hfree) hne _ _) hhold

theorem Good.release (h : s.Good) (hlock : s.lock = some t) (hat : At none s.tab t p)
    (hhold : p.holding = (s.pc t).holding) : ({ s with lock := none }.goto t p).Good :=
  h.move hat (fun _ hne => h.others (.inl hlock) hne _ _) hhold

/-- The ledgers and the loader change, and with them what thread `t` has. -/
theorem Good.account (h : s.Good) {exts bufs : Ledger} {loaded : ℕ → Option Loaded}
    (hat : At s.lock s.tab t p)
    (hown : Own exts bufs loaded (update s.holding (.inl t) p.holding)) :
    ({ s with exts, bufs, loaded }.goto t p).Good where
  knows := (forall_update_iff s.pc fun u q => At s.lock s.tab u q).mpr
    ⟨hat, fun u _ => h.knows u⟩
  names := h.names
  own := by
    rw [holding_goto]
    exact hown
  shared := h.shared

theorem Good.write (h : s.Good) (hlock : s.lock = some t) {i : Fin extSvcMax} {e : Option Entry}
    (hat : ∀ tab, At s.lock tab t p) (hroom : ∀ e', e = some e' → Room s.tab e'.name i)
    (hown : Own s.exts s.bufs s.loaded (update (update s.holding (.inr i)
      (entryHolding e)) (.inl t) p.holding)) : ((s.setTab i e).goto t p).Good where
  knows := (forall_update_iff s.pc fun u q => At s.lock _ u q).mpr
    ⟨hat _, fun u hne => h.others (.inl hlock) hne _ _⟩
  names j k f g hj hk hname := by
    replace hj : update s.tab i e j = some f := hj
    replace hk : update s.tab i e k = some g := hk
    rcases eq_or_ne j i with rfl | hji
    · rw [update_self] at hj
      by_contra hjk
      rw [update_of_ne (Ne.symm hjk)] at hk
      exact (hroom f hj).2 k g hk hname.symm
    · rw [update_of_ne hji] at hj
      rcases eq_or_ne k i with rfl | hki
      · rw [update_self] at hk
        exact absurd hname ((hroom g hk).2 j f hj)
      · rw [update_of_ne hki] at hk
        exact h.names j k f g hj hk hname
  own := by
    rw [holding_goto, holding_setTab]
    exact hown
  shared := h.shared

omit [DecidableEq T] in
theorem loaded_of_byName {name : List Byte} {x : ℕ} (h : s.byName name = some x) :
    ∃ l, s.loaded x = some l ∧ l.name = name := by
  have hany := List.find?_some h
  cases hl : s.loaded x with
  | none => simp [hl] at hany
  | some l => exact ⟨l, rfl, by simpa [hl] using hany⟩

omit [DecidableEq T] in
/-- **The name a call loads is not loaded**: a service of that name would be in the table, or in the
hands of a call that has given the lock back. -/
theorem Good.byName_eq_none (h : s.Good) {name : List Byte} {i : Fin extSvcMax} {buf : ℕ}
    (hpc : s.pc t = .loadExt name i buf)
    (hcare : ∀ u, (s.pc u).unloads ≠ some name) : s.byName name = none := by
  obtain ⟨hlock, hroom⟩ : s.lock = some t ∧ Room s.tab name i := by simpa [hpc, At] using h.knows t
  rw [← Option.not_isSome_iff_eq_none, Option.isSome_iff_exists]
  rintro ⟨x, hx⟩
  obtain ⟨l, hl, hname⟩ := loaded_of_byName hx
  obtain ⟨holder, e, hhold, -, hename, -⟩ := h.own.holder_of_loaded hl
  have he : e.name = name := hename.trans hname
  cases holder with
  | inl u =>
    have hu : (s.pc u).holding = .both e := hhold
    rcases eq_or_ne u t with rfl | hne
    · rw [hpc] at hu
      cases hu
    · have hother : s.lock ≠ some u := by
        rw [hlock]
        exact fun heq => hne (Option.some.inj heq).symm
      obtain ⟨r, hr⟩ := (h.knows u).rest_of_holding hother hu
      exact hcare u (by rw [hr, ← he]; rfl)
  | inr j =>
    have hj : entryHolding (s.tab j) = .both e := hhold
    cases htab : s.tab j with
    | none =>
      rw [htab] at hj
      cases hj
    | some e' =>
      rw [htab] at hj
      obtain rfl : e' = e := Holding.both.inj hj
      exact hroom.2 j e' htab he

/-- **One step of a call.** -/
theorem Good.service {ok : Bool} (h : s.Good) (hcare : careful s (.service t ok))
    (hstep : s.service t ok = some s') : s'.Good := by
  have hknows := h.knows t
  have hhold : s.holding (.inl t) = (s.pc t).holding := rfl
  rw [Sys.service] at hstep
  split at hstep
  · cases hstep
  · -- loadLock
    next name hpc =>
    split_ifs at hstep with hfree
    cases hstep
    exact h.acquire hfree rfl (by rw [hpc]; rfl)
  · -- loadScan
    next name hpc =>
    rw [hpc] at hknows
    split at hstep
    · cases hstep
      exact h.goto hknows (by rw [hpc]; rfl)
    · next i hscan =>
      cases hstep
      exact h.goto ⟨hknows, room_of_scan hscan⟩ (by rw [hpc]; rfl)
  · -- loadRead
    next name i hpc =>
    rw [hpc] at hknows hhold
    split_ifs at hstep
    · cases hstep
      exact h.account hknows (h.own.read hhold)
    · cases hstep
      exact h.goto hknows.1 (by rw [hpc]; rfl)
  · -- loadExt
    next name i buf hpc =>
    rw [h.byName_eq_none hpc (hcare name (by rw [hpc]; rfl))] at hstep
    rw [hpc] at hknows hhold
    dsimp only at hstep
    split_ifs at hstep
    · cases hstep
      exact h.account hknows (h.own.load hhold name)
    · cases hstep
      exact h.goto hknows.1 (by rw [hpc]; rfl)
  · -- loadSyms
    next i e hpc =>
    rw [hpc] at hknows
    split_ifs at hstep
    · cases hstep
      exact h.goto hknows (by rw [hpc]; rfl)
    · cases hstep
      exact h.goto hknows.1 (by rw [hpc]; rfl)
  · -- loadStart
    next i e hpc =>
    rw [hpc] at hknows
    split_ifs at hstep
    · cases hstep
      exact h.goto hknows (by rw [hpc]; rfl)
    · cases hstep
      exact h.goto hknows.1 (by rw [hpc]; rfl)
  · -- loadStore
    next i e hpc =>
    rw [hpc] at hknows hhold
    cases hstep
    have hfree : s.holding (.inr i) = .nothing := congrArg entryHolding hknows.2.1
    refine h.write hknows.1 (fun _ => hknows.1) (fun e' he => Option.some.inj he ▸ hknows.2) ?_
    rw [update_comm (by simp)]
    exact h.own.pass hhold hfree
  · -- stopLock
    next name hpc =>
    split_ifs at hstep with hfree
    cases hstep
    exact h.acquire hfree rfl (by rw [hpc]; rfl)
  · -- stopFind
    next name hpc =>
    rw [hpc] at hknows
    split at hstep
    · cases hstep
      exact h.goto hknows (by rw [hpc]; rfl)
    · next i hlook =>
      cases hstep
      exact h.goto ⟨hknows, exists_of_lookup hlook⟩ (by rw [hpc]; rfl)
  · -- stopCall
    next i hpc =>
    rw [hpc] at hknows
    cases hstep
    exact h.goto hknows (by rw [hpc]; rfl)
  · -- stopTake
    next i hpc =>
    rw [hpc] at hknows hhold
    obtain ⟨e, htab, rfl⟩ := Option.map_eq_some_iff.mp hstep
    have hentry : s.holding (.inr i) = .both e := congrArg entryHolding htab
    exact h.write hknows.1 (fun _ => hknows.1) (fun e' he => by cases he) (h.own.pass hentry hhold)
  · -- unlock
    next rest hpc =>
    rw [hpc] at hknows
    cases hstep
    exact h.release hknows trivial (by rw [hpc]; rfl)
  · next r hpc =>
    cases hstep
    exact h.goto trivial (by rw [hpc]; rfl)
  · next buf r hpc =>
    rw [hpc] at hhold
    cases hstep
    exact h.account trivial (h.own.free hhold)
  · next e r hpc =>
    rw [hpc] at hhold
    cases hstep
    -- the use count is 1, so the extension goes
    have hgone : ((s.loaded e.ext).bind fun l =>
        if l.uses ≤ 1 then none else some { l with uses := l.uses - 1 }) = none := by
      rw [h.own.known _ e hhold]
      rfl
    rw [Sys.unload, hgone]
    exact h.account trivial (h.own.unload hhold)

theorem Good.enter (h : s.Good) (hat : At s.lock s.tab t p) (hhold : p.holding = .nothing)
    (hstep : s.enter t p = some s') : s'.Good := by
  rw [Sys.enter] at hstep
  split at hstep
  · next r hpc =>
    cases hstep
    exact h.goto hat (by rw [hhold, hpc]; rfl)
  · cases hstep

theorem Good.step {a : Act T} (h : s.Good) (hcare : careful s a) (hstep : s.step a = some s') :
    s'.Good := by
  cases a with
  | load t name =>
    have hcall : At s.lock s.tab t (loadCall name) ∧ (loadCall name).holding = .nothing := by
      cases name with
      | none => exact ⟨trivial, rfl⟩
      | some name =>
        rw [loadCall]
        split_ifs
        · exact ⟨trivial, rfl⟩
        · exact ⟨trivial, rfl⟩
    exact h.enter hcall.1 hcall.2 hstep
  | stop t name => exact h.enter (show At s.lock s.tab t (.stopLock name) from trivial) rfl hstep
  | service t ok => exact h.service hcare hstep

omit [DecidableEq T] in
theorem good_init : (Sys.init : Sys T).Good where
  knows _ := trivial
  names i j e e' hi := by cases hi
  own := by
    have hnone : (Sys.init : Sys T).holding = fun _ => .nothing := by
      funext holder
      cases holder <;> rfl
    rw [hnone]
    exact ⟨Linear.empty, Linear.empty, fun _ _ h => (by cases h), fun _ _ h => (by cases h)⟩
  shared := rfl

omit [DecidableEq T] in
theorem Good.once (h : s.Good) : s.Once where
  shared := h.shared
  names := h.names
  loaded x l hl := by
    obtain ⟨holder, e, hhold, rfl, hname, hbuf⟩ := h.own.holder_of_loaded hl
    refine ⟨holder, e, hhold, rfl, hname, hbuf, fun other hother => ?_, fun other hother => ?_⟩
    · exact h.own.extOne.unique other holder e.ext hother (by simp [hhold, Holding.ext])
    · exact h.own.bufOne.unique other holder e.buf hother (by simp [hhold, Holding.file])
  exts x hx := h.own.extOne.spent_or_held hx
  bufs b hb := h.own.bufOne.spent_or_held hb

end Sys

/-- **Services are loaded once at a time**, whatever the calls, the names and the failures, if no call
loads a name while another is about to unload an extension of that name. -/
theorem once_of_careful {s : Sys T} (h : Reaches Sys.step careful Sys.init s) : s.Once :=
  (h.invariant (fun hs hok hstep => hs.step hok hstep) Sys.good_init).once

/-! ## Two shells -/

def echoName : List Byte := [0x65, 0x63, 0x68, 0x6f]

/-- One shell starts a service and stops it, up to the point where it has given the lock back. -/
def startAndStop : List (Act Bool) :=
  .load false (some echoName) :: (List.replicate 9 (.service false true) ++
    .stop false echoName :: List.replicate 5 (.service false true))

instance (s : Sys Bool) : ∀ a, Decidable (careful s a)
  | .service t _ => inferInstanceAs (Decidable (∀ name ∈ (s.pc t).loads, ∀ u, (s.pc u).unloads ≠ some name))
  | .load .. | .stop .. => .isTrue trivial

theorem once_startAndStop :
    ∃ s, runAll Sys.step careful Sys.init startAndStop = some s ∧
      (s.pc false).unloads = some echoName ∧ s.Once := by
  have hend : (runAll Sys.step careful Sys.init startAndStop).map (fun s => (s.pc false).unloads)
      = some (some echoName) := by decide +kernel
  obtain ⟨s, hrun, hs⟩ := Option.map_eq_some_iff.mp hend
  exact ⟨s, hrun, hs, once_of_careful (Reaches.of_runAll _ hrun)⟩

/-- **Another shell loads the service again** before the first has unloaded it. -/
theorem not_forall_once :
    ¬ ∀ s : Sys Bool, Reaches Sys.step anyStep Sys.init s → s.Once := fun h => by
  have hend : (runAll Sys.step anyStep Sys.init (startAndStop ++
      .load true (some echoName) :: List.replicate 4 (.service true true))).map (·.shared)
      = some [echoName] := by decide +kernel
  obtain ⟨s, hrun, hs⟩ := Option.map_eq_some_iff.mp hend
  have hshared := (h s (Reaches.of_runAll _ hrun)).shared
  rw [hs] at hshared
  cases hshared

end KlaussRuntime.Services
